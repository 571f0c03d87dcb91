import Rvx.Core.Text
import Rvx.Engine.ChartIndex
import Rvx.Lib.KeyedTable

/-!
# The metadata repository

Projects, experiments, runs and their sources, and the operations that create them and move their
states.  An operation is one transaction under the connection lock, so a failed one changes
nothing.  Fresh identifiers and clock readings are arguments.
-/

namespace Rvx.Registry

open Core Engine Check

inductive RunStatus where
  | created | running | finished | failed | cancelled
deriving DecidableEq

inductive SourceState where
  | discovered | active | stale | draining | ended | lost
deriving DecidableEq

def statusText : RunStatus → String
  | .created => "created"
  | .running => "running"
  | .finished => "finished"
  | .failed => "failed"
  | .cancelled => "cancelled"

def sourceStateText : SourceState → String
  | .discovered => "discovered"
  | .active => "active"
  | .stale => "stale"
  | .draining => "draining"
  | .ended => "ended"
  | .lost => "lost"

def RunStatus.Terminal (status : RunStatus) : Prop :=
  status = .finished ∨ status = .failed ∨ status = .cancelled

def SourceState.Stopped (state : SourceState) : Prop := state = .ended ∨ state = .lost

instance (status : RunStatus) : Decidable status.Terminal := inferInstanceAs (Decidable (_ ∨ _))

instance (state : SourceState) : Decidable state.Stopped := inferInstanceAs (Decidable (_ ∨ _))

def validRunTransition (current target : RunStatus) : Bool :=
  current = target || match current, target with
    | .created, .running | .created, .finished | .created, .failed | .created, .cancelled => true
    | .running, .finished | .running, .failed | .running, .cancelled => true
    | _, _ => false

def validSourceTransition (current target : SourceState) : Bool :=
  current = target || match current, target with
    | .discovered, .draining | .discovered, .ended | .discovered, .lost => true
    | .active, .draining | .active, .ended | .active, .lost => true
    | .stale, .draining | .stale, .ended | .stale, .lost => true
    | .draining, .ended | .draining, .lost => true
    | _, _ => false

/-! ## Tables -/

structure Project where
  id : String
  name : String
  createdAtNs : ℤ

structure Experiment where
  id : String
  projectId : String
  name : String
  createdAtNs : ℤ

structure Run where
  id : String
  experimentId : String
  name : String
  status : RunStatus
  configJson : String
  createdAtNs : ℤ
  updatedAtNs : ℤ

/-- A row of `sources`; the descriptor is kept in a table of its own. -/
structure Source where
  id : String
  runId : String
  attemptId : String
  role : String
  endpoint : String
  nodeId : Option String
  rank : Option ℤ
  state : SourceState
  sourceSessionId : Option String
  lastSuccessAtNs : Option ℤ
  lastError : Option String
  scrapeIntervalMs : ℕ
  timeoutMs : ℕ

/-- A row of `source_descriptors`; the stored text is the descriptor's encoding. -/
structure StoredDescriptor where
  sourceId : String
  descriptor : SnapshotDescriptor
  updatedAtNs : ℤ

structure Repository where
  projects : KeyedTable Project.id
  experiments : KeyedTable Experiment.id
  runs : KeyedTable Run.id
  sources : KeyedTable Source.id
  descriptors : KeyedTable StoredDescriptor.sourceId

namespace Repository

def empty : Repository := ⟨.empty, .empty, .empty, .empty, .empty⟩

/-- `INSERT`: a taken key is a constraint violation. -/
def insertRow {ρ : Type} {key : ρ → String} (row : ρ) (table : KeyedTable key) :
    Except EngineError (KeyedTable key) :=
  match table.insert? row with
  | some table' => .ok table'
  | none => .error .sqlite

/-- `require_parent`. -/
def requireParent {ρ : Type} {key : ρ → String} (table : KeyedTable key) (kind id : String) :
    Except EngineError Unit :=
  if (table.find? id).isSome then .ok ()
  else .error (.invalidInput ("unknown " ++ kind ++ ": " ++ id))

def lift (check : Except ProtocolError Unit) : Except EngineError Unit :=
  check.mapError EngineError.protocol

/-! ## Creation -/

def createProject (id name : String) (now : ℤ) (repository : Repository) :
    Except EngineError Repository := do
  lift (validateName "project name" name)
  reject (∃ project ∈ repository.projects.rows, project.name = trim name) .sqlite
  let projects ← insertRow ⟨id, trim name, now⟩ repository.projects
  pure { repository with projects }

def createExperiment (id projectId name : String) (now : ℤ) (repository : Repository) :
    Except EngineError Repository := do
  lift (validateName "experiment name" name)
  requireParent repository.projects "project" projectId
  reject (∃ experiment ∈ repository.experiments.rows,
    experiment.projectId = projectId ∧ experiment.name = trim name) .sqlite
  let experiments ← insertRow ⟨id, projectId, trim name, now⟩ repository.experiments
  pure { repository with experiments }

/-- `create_run`.  The JSON library says whether the configuration is JSON, or why not. -/
def createRun (parse : String → Except String Unit) (id experimentId name configJson : String)
    (now : ℤ) (repository : Repository) : Except EngineError Repository := do
  lift (validateName "run name" name)
  (parse configJson).mapError EngineError.invalidInput
  requireParent repository.experiments "experiment" experimentId
  let run : Run := ⟨id, experimentId, trim name, .created, configJson, now, now⟩
  let runs ← insertRow run repository.runs
  pure { repository with runs }

/-! ## Runs -/

/-- The state an ending run leaves its sources in. -/
def terminalSourceState : RunStatus → Option SourceState
  | .finished | .cancelled => some .ended
  | .failed => some .lost
  | .created | .running => none

def setStatus (runId : String) (target : RunStatus) (now : ℤ) (runs : KeyedTable Run.id) :
    KeyedTable Run.id :=
  runs.update (fun run ↦
    if run.id = runId then { run with status := target, updatedAtNs := now } else run)
    fun run ↦ by split <;> rfl

/-- `UPDATE sources SET state=?2 WHERE run_id=?1 AND state NOT IN ('ended', 'lost')`. -/
def stopSources (runId : String) (state : SourceState) (sources : KeyedTable Source.id) :
    KeyedTable Source.id :=
  sources.update (fun source ↦
    if source.runId = runId ∧ ¬ source.state.Stopped then { source with state } else source)
    fun source ↦ by split <;> rfl

def updateRunStatus (runId : String) (target : RunStatus) (now : ℤ) (repository : Repository) :
    Except EngineError Repository :=
  match repository.runs.find? runId with
  | none => .error (.invalidInput ("unknown run: " ++ runId))
  | some run =>
    if validRunTransition run.status target then
      if run.status = target then .ok repository
      else
        .ok { repository with
          runs := setStatus runId target now repository.runs
          sources := match terminalSourceState target with
            | some state => stopSources runId state repository.sources
            | none => repository.sources }
    else
      .error (.invalidInput ("invalid run status transition: " ++ statusText run.status ++
        " -> " ++ statusText target))

/-! ## Sources -/

/-- What `ON CONFLICT(run_id, endpoint) DO UPDATE` writes. -/
def reregister (source old : Source) : Source :=
  { old with
    attemptId := source.attemptId
    role := source.role
    nodeId := source.nodeId
    rank := source.rank
    scrapeIntervalMs := source.scrapeIntervalMs
    timeoutMs := source.timeoutMs }

def SameEndpoint (source old : Source) : Prop :=
  old.runId = source.runId ∧ old.endpoint = source.endpoint

instance (source old : Source) : Decidable (SameEndpoint source old) :=
  inferInstanceAs (Decidable (_ ∧ _))

def registerSource (source : Source) (repository : Repository) :
    Except EngineError Repository := do
  requireParent repository.runs "run" source.runId
  if ∃ old ∈ repository.sources.rows, SameEndpoint source old then
    pure { repository with
      sources := repository.sources.update
        (fun old ↦ if SameEndpoint source old then reregister source old else old)
        fun old ↦ by split <;> rfl }
  else
    let sources ← insertRow source repository.sources
    pure { repository with sources }

def setState (sourceId : String) (target : SourceState) (sources : KeyedTable Source.id) :
    KeyedTable Source.id :=
  sources.update (fun source ↦
    if source.id = sourceId then { source with state := target } else source)
    fun source ↦ by split <;> rfl

def updateSourceState (sourceId : String) (target : SourceState) (repository : Repository) :
    Except EngineError Repository :=
  match repository.sources.find? sourceId with
  | none => .error (.invalidInput ("unknown source: " ++ sourceId))
  | some source =>
    if validSourceTransition source.state target then
      if source.state = target then .ok repository
      else .ok { repository with sources := setState sourceId target repository.sources }
    else
      .error (.invalidInput ("invalid source state transition: " ++
        sourceStateText source.state ++ " -> " ++ sourceStateText target))

/-! ## Scrape reports -/

/-- `EXISTS (SELECT 1 FROM runs WHERE runs.id=sources.run_id AND runs.status IN ('created',
'running')) AND state NOT IN ('draining', 'ended', 'lost')`. -/
def Reportable (repository : Repository) (source : Source) : Prop :=
  (∃ run ∈ repository.runs.rows,
    run.id = source.runId ∧ (run.status = .created ∨ run.status = .running)) ∧
    ¬ (source.state = .draining ∨ source.state = .ended ∨ source.state = .lost)

instance (repository : Repository) (source : Source) :
    Decidable (Reportable repository source) :=
  inferInstanceAs (Decidable (_ ∧ _))

def markActive (sourceId sessionId : String) (now : ℤ) (repository : Repository) :
    KeyedTable Source.id :=
  repository.sources.update (fun source ↦
    if source.id = sourceId ∧ repository.Reportable source then
      { source with
        state := .active
        sourceSessionId := some sessionId
        lastSuccessAtNs := some now
        lastError := none }
    else source)
    fun source ↦ by split <;> rfl

deriving instance DecidableEq for SnapshotDescriptor

/-- The descriptor of a source, kept unless it changed; a source that does not exist violates the
foreign key. -/
def storeDescriptor (sourceId : String) (descriptor : SnapshotDescriptor) (now : ℤ)
    (repository : Repository) : Except EngineError (KeyedTable StoredDescriptor.sourceId) :=
  if (repository.sources.find? sourceId).isNone then .error .sqlite
  else if (repository.descriptors.find? sourceId).isSome then
    .ok (repository.descriptors.update (fun old ↦
      if old.sourceId = sourceId ∧ old.descriptor ≠ descriptor then
        { old with descriptor, updatedAtNs := now }
      else old)
      fun old ↦ by split <;> rfl)
  else insertRow ⟨sourceId, descriptor, now⟩ repository.descriptors

/-- `UPDATE runs SET status='running' WHERE status='created' AND id=(SELECT run_id FROM sources
WHERE id=?1)`. -/
def startRun (sourceId : String) (now : ℤ) (repository : Repository) : KeyedTable Run.id :=
  repository.runs.update (fun run ↦
    if run.status = .created ∧
        (repository.sources.find? sourceId).map Source.runId = some run.id then
      { run with status := .running, updatedAtNs := now }
    else run)
    fun run ↦ by split <;> rfl

/-- The three statements of one report. -/
def reportSuccess (now : ℤ) (repository : Repository) (report : String × SnapshotDescriptor) :
    Except EngineError Repository := do
  let sources := markActive report.1 report.2.sourceSessionId now repository
  let marked := { repository with sources }
  let descriptors ← storeDescriptor report.1 report.2 now marked
  pure { marked with descriptors, runs := startRun report.1 now marked }

def updateSourceSuccessBatch (reports : List (String × SnapshotDescriptor)) (now : ℤ)
    (repository : Repository) : Except EngineError Repository :=
  reports.foldlM (reportSuccess now) repository

def updateSourceFailure (sourceId error : String) (repository : Repository) : Repository :=
  { repository with
    sources := repository.sources.update (fun source ↦
      if source.id = sourceId ∧ repository.Reportable source then
        { source with state := .stale, lastError := some error }
      else source)
      fun source ↦ by split <;> rfl }

end Repository

/-! ## Operations -/

inductive Operation where
  | createProject (id name : String) (now : ℤ)
  | createExperiment (id projectId name : String) (now : ℤ)
  | createRun (id experimentId name configJson : String) (now : ℤ)
  | registerSource (source : Source)
  | updateRunStatus (runId : String) (target : RunStatus) (now : ℤ)
  | updateSourceState (sourceId : String) (target : SourceState)
  | updateSourceSuccessBatch (reports : List (String × SnapshotDescriptor)) (now : ℤ)
  | updateSourceFailure (sourceId error : String)

namespace Repository

variable (parse : String → Except String Unit)

def perform (repository : Repository) : Operation → Except EngineError Repository
  | .createProject id name now => repository.createProject id name now
  | .createExperiment id projectId name now => repository.createExperiment id projectId name now
  | .createRun id experimentId name configJson now =>
    repository.createRun parse id experimentId name configJson now
  | .registerSource source => repository.registerSource source
  | .updateRunStatus runId target now => repository.updateRunStatus runId target now
  | .updateSourceState sourceId target => repository.updateSourceState sourceId target
  | .updateSourceSuccessBatch reports now => repository.updateSourceSuccessBatch reports now
  | .updateSourceFailure sourceId error => .ok (repository.updateSourceFailure sourceId error)

/-- The state after an operation; a failed one is rolled back. -/
def step (repository : Repository) (operation : Operation) : Repository :=
  match repository.perform parse operation with
  | .ok repository' => repository'
  | .error _ => repository

/-- The state after any operations in any order. -/
def run (operations : List Operation) (repository : Repository) : Repository :=
  operations.foldl (step parse) repository

end Repository

end Rvx.Registry
