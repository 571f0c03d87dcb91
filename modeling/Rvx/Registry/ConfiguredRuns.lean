import Rvx.Lib.Check
import Rvx.Lib.Script
import Rvx.Registry.Repository

/-!
# Configured runs

A configuration names a run by its id, its project and its experiment.  One transaction finds or
creates the three rows and rolls back when a stored run contradicts the configuration.  The store is
followed statement by statement, so a failing transaction leaves rows behind until it is undone.
-/

namespace Rvx.Registry

open Core Engine Check

structure ConfiguredRun where
  runId : String
  projectName : String
  experimentName : String
  runName : String
  configJson : String

/-- The names are short enough as they are given. -/
def ConfiguredRun.Short (call : ConfiguredRun) : Prop :=
  call.projectName.utf8ByteSize ≤ 4096 ∧ call.experimentName.utf8ByteSize ≤ 4096 ∧
    call.runName.utf8ByteSize ≤ 4096

instance (call : ConfiguredRun) : Decidable call.Short := inferInstanceAs (Decidable (_ ∧ _))

/-- The identifiers a call draws, and its readings of the clock. -/
structure Drawn where
  projectId : String
  projectNow : ℤ
  experimentId : String
  experimentNow : ℤ
  runNow : ℤ

/-- What the call uses of the JSON library and of string formatting. -/
structure ConfigRuntime where
  /-- `serde_json::from_str::<Value>`. -/
  parse : String → Except String Value
  /-- The text of a string under `{:?}`. -/
  debug : String → String

/-- `UNIQUE(project_id, name)`. -/
def Experiment.scopedName (experiment : Experiment) : String × String :=
  (experiment.projectId, experiment.name)

/-- The text of a parsed value parses to it again. -/
def ConfigRuntime.RoundTrip (runtime : ConfigRuntime) : Prop :=
  ∀ text value, runtime.parse text = .ok value →
    runtime.parse (String.ofList value.print) = .ok value

namespace Repository

/-! ## Statements -/

/-- `INSERT OR IGNORE`: a row is left out when its key or another unique column is taken. -/
def insertOrIgnore {ρ γ : Type} [DecidableEq γ] {key : ρ → String} (column : ρ → γ) (row : ρ)
    (table : KeyedTable key) : KeyedTable key :=
  if table.rows.any fun old ↦ column old = column row then table
  else (table.insert? row).getD table

/-- The only row of a query; without one the query fails. -/
def queryRow {α : Type} (row : Repository → Option α) : Script Repository EngineError α := do
  match ← Script.read row with
  | some value => pure value
  | none => throw .sqlite

/-- The id of the project, which is created when it is missing. -/
def ensureProject (drawn : Drawn) (name : String) : Script Repository EngineError String := do
  let found ← Script.read fun repository ↦
    Table.lookup Project.name name repository.projects.rows
  let project := found.getD ⟨drawn.projectId, name, drawn.projectNow⟩
  Script.modify fun repository ↦ { repository with
    projects := insertOrIgnore Project.name project repository.projects }
  queryRow fun repository ↦
    (Table.lookup Project.name name repository.projects.rows).map Project.id

/-- The id of the experiment, which is created when it is missing. -/
def ensureExperiment (drawn : Drawn) (projectId name : String) :
    Script Repository EngineError String := do
  let found ← Script.read fun repository ↦
    Table.lookup Experiment.scopedName (projectId, name) repository.experiments.rows
  let experiment := found.getD ⟨drawn.experimentId, projectId, name, drawn.experimentNow⟩
  Script.modify fun repository ↦ { repository with
    experiments := insertOrIgnore Experiment.scopedName experiment repository.experiments }
  queryRow fun repository ↦
    (Table.lookup Experiment.scopedName (projectId, name) repository.experiments.rows).map
      Experiment.id

/-- The stored run if it agrees with the configuration, or a new one. -/
def ensureRun (runtime : ConfigRuntime) (drawn : Drawn) (runId experimentId runName : String)
    (config : Value) : Script Repository EngineError Run := do
  match ← Script.read fun repository ↦ repository.runs.find? runId with
  | some run =>
    let storedConfig ← Script.check ((runtime.parse run.configJson).mapError fun _ ↦ .json)
    Script.check (reject
      (run.experimentId ≠ experimentId ∨ run.name ≠ runName ∨ storedConfig ≠ config)
      (.invalidInput ("configured Run " ++ runtime.debug runId ++
        " conflicts with persisted identity or config")))
    return run
  | none =>
    let run : Run := ⟨runId, experimentId, runName, .created, String.ofList config.print,
      drawn.runNow, drawn.runNow⟩
    Script.attempt fun repository ↦ do
      let runs ← insertRow run repository.runs
      pure { repository with runs }
    return run

/-! ## The call -/

def validateConfigured (field value : String) : Except EngineError Unit := do
  lift (validateName field value)
  reject (value.utf8ByteSize > 4096) (.invalidInput (field ++ " exceeds 4096 bytes"))

/-- The checks before the transaction return the parsed configuration. -/
def validateRun (runtime : ConfigRuntime) (call : ConfiguredRun) : Except EngineError Value := do
  validateConfigured "run id" call.runId
  validateConfigured "project name" call.projectName
  validateConfigured "experiment name" call.experimentName
  validateConfigured "run name" call.runName
  let config ← (runtime.parse call.configJson).mapError EngineError.invalidInput
  reject (config.isObject = false)
    (.invalidInput "configured Run config must be a JSON object")
  return config

def ensureRows (runtime : ConfigRuntime) (drawn : Drawn) (call : ConfiguredRun) (config : Value) :
    Script Repository EngineError Run := do
  let projectId ← ensureProject drawn (trim call.projectName)
  let experimentId ← ensureExperiment drawn projectId (trim call.experimentName)
  ensureRun runtime drawn call.runId experimentId (trim call.runName) config

/-- A transaction that is dropped rolls back. -/
def transaction {α : Type} (script : Script Repository EngineError α) :
    Script Repository EngineError α := script.atomically

def ensureConfiguredRun (runtime : ConfigRuntime) (drawn : Drawn) (call : ConfiguredRun) :
    Script Repository EngineError Run := do
  let config ← Script.check (validateRun runtime call)
  transaction (ensureRows runtime drawn call config)

/-- The repository after some calls, failed ones included. -/
def configure (runtime : ConfigRuntime) (calls : List (Drawn × ConfiguredRun))
    (repository : Repository) : Repository :=
  calls.foldl (fun repository call ↦
    (ensureConfiguredRun runtime call.1 call.2 repository).2) repository

/-! ## Finding or inserting a row -/

/-- The old rows stay, and a unique column stays unique. -/
structure Extends {ρ γ : Type} {key : ρ → String} (column : ρ → γ)
    (table table' : KeyedTable key) : Prop where
  prefix_rows : table.rows <+: table'.rows
  unique : (table.rows.map column).Nodup → (table'.rows.map column).Nodup

section Insertion

variable {ρ γ : Type} [DecidableEq γ] {key : ρ → String} {column : ρ → γ}
  {table : KeyedTable key}

theorem insertOrIgnore_extends (column : ρ → γ) (row : ρ) (table : KeyedTable key) :
    Extends column table (insertOrIgnore column row table) := by
  unfold insertOrIgnore
  split_ifs with htaken
  · exact ⟨List.prefix_rfl, id⟩
  cases hinsert : table.insert? row with
  | none => exact ⟨List.prefix_rfl, id⟩
  | some table' =>
    obtain ⟨hrows, -⟩ := KeyedTable.insert?_eq_some hinsert
    have hfresh : ∀ old ∈ table.rows, column old ≠ column row := by simpa using htaken
    rw [Option.getD_some]
    refine ⟨hrows ▸ List.prefix_append _ _, fun hunique ↦ ?_⟩
    rw [hrows, List.map_append, List.nodup_append]
    exact ⟨hunique, by simp, by simpa using hfresh⟩

/-- Nothing is inserted when the row is there. -/
theorem insertOrIgnore_present {old row : ρ} (hold : old ∈ table.rows)
    (hcolumn : column old = column row) : insertOrIgnore column row table = table := by
  rw [insertOrIgnore, if_pos]
  rw [List.any_eq_true]
  exact ⟨old, hold, decide_eq_true hcolumn⟩

end Insertion

theorem queryRow_returns {α : Type} {row : Repository → Option α} {repository repository' : Repository}
    {value : α} : (queryRow row).Returns repository value repository' ↔
      row repository = some value ∧ repository = repository' := by
  simp only [queryRow, Script.returns_bind, Script.returns_read]
  constructor
  · rintro ⟨found, _, ⟨rfl, rfl⟩, h⟩
    cases hrow : row repository with
    | none => simp [hrow] at h
    | some value' =>
      rw [hrow, Script.returns_pure] at h
      exact ⟨congrArg some h.1, h.2⟩
  · rintro ⟨hrow, rfl⟩
    exact ⟨_, _, ⟨rfl, rfl⟩, by simp [hrow]⟩

section Statements

variable {runtime : ConfigRuntime} {drawn : Drawn} {repository repository' : Repository}

theorem ensureProject_returns {name id : String}
    (h : (ensureProject drawn name).Returns repository id repository') :
    ∃ projects, repository' = { repository with projects } ∧
      Extends Project.name repository.projects projects ∧
      ∃ project ∈ projects.rows, project.name = name ∧ project.id = id := by
  simp only [ensureProject, Script.returns_bind, Script.returns_read, Script.returns_modify,
    queryRow_returns] at h
  obtain ⟨_, _, ⟨rfl, rfl⟩, _, _, rfl, hfound, rfl⟩ := h
  obtain ⟨project, hproject, rfl⟩ := Option.map_eq_some_iff.mp hfound
  obtain ⟨hmem, hname⟩ := Table.lookup_some hproject
  exact ⟨_, rfl, insertOrIgnore_extends _ _ _, project, hmem, hname, rfl⟩

theorem ensureExperiment_returns {projectId name id : String}
    (h : (ensureExperiment drawn projectId name).Returns repository id repository') :
    ∃ experiments, repository' = { repository with experiments } ∧
      Extends Experiment.scopedName repository.experiments experiments ∧
      ∃ experiment ∈ experiments.rows,
        experiment.scopedName = (projectId, name) ∧ experiment.id = id := by
  simp only [ensureExperiment, Script.returns_bind, Script.returns_read, Script.returns_modify,
    queryRow_returns] at h
  obtain ⟨_, _, ⟨rfl, rfl⟩, _, _, rfl, hfound, rfl⟩ := h
  obtain ⟨experiment, hexperiment, rfl⟩ := Option.map_eq_some_iff.mp hfound
  obtain ⟨hmem, hname⟩ := Table.lookup_some hexperiment
  exact ⟨_, rfl, insertOrIgnore_extends _ _ _, experiment, hmem, hname, rfl⟩

/-- A stored run is one that agrees with the configuration. -/
structure Agrees (runtime : ConfigRuntime) (runId experimentId runName : String) (config : Value)
    (run : Run) : Prop where
  id_eq : run.id = runId
  experiment_eq : run.experimentId = experimentId
  name_eq : run.name = runName
  config_eq : runtime.parse run.configJson = .ok config

theorem ensureRun_returns {runId experimentId runName : String} {config : Value} {run : Run}
    (hprint : runtime.parse (String.ofList config.print) = .ok config)
    (h : (ensureRun runtime drawn runId experimentId runName config).Returns repository run
      repository') :
    ∃ runs, repository' = { repository with runs } ∧ repository.runs.rows <+: runs.rows ∧
      run ∈ runs.rows ∧ Agrees runtime runId experimentId runName config run := by
  simp only [ensureRun, Script.returns_bind, Script.returns_read] at h
  obtain ⟨_, _, ⟨rfl, rfl⟩, h⟩ := h
  cases hfound : repository.runs.find? runId with
  | some stored =>
    simp only [hfound, Script.returns_bind, Script.returns_check, Script.returns_pure,
      mapError_eq_ok, reject_ok, not_or, not_not] at h
    obtain ⟨_, _, ⟨hparse, rfl⟩, _, _, ⟨⟨hexperiment, hname, rfl⟩, rfl⟩, rfl, rfl⟩ := h
    obtain ⟨hmem, hid⟩ := KeyedTable.find?_eq_some.mp hfound
    exact ⟨repository.runs, rfl, List.prefix_rfl, hmem, hid, hexperiment, hname, hparse⟩
  | none =>
    simp only [hfound, Script.returns_bind, Script.returns_attempt, Script.returns_pure,
      bind_eq_ok, pure_eq_ok] at h
    obtain ⟨_, _, ⟨runs, hinsert, rfl⟩, rfl, rfl⟩ := h
    unfold insertRow at hinsert
    split at hinsert
    · rename_i table htable
      obtain rfl := Except.ok.inj hinsert
      obtain ⟨hrows, -⟩ := KeyedTable.insert?_eq_some htable
      refine ⟨table, rfl, hrows ▸ List.prefix_append _ _, ?_, rfl, rfl, rfl, hprint⟩
      rw [hrows]
      exact List.mem_concat_self
    · cases hinsert

theorem ensureProject_present {project : Project}
    (hunique : (repository.projects.rows.map Project.name).Nodup)
    (hproject : project ∈ repository.projects.rows) :
    (ensureProject drawn project.name).Returns repository project.id repository := by
  have hfound := Table.lookup_eq_some_of_mem hunique hproject
  simp only [ensureProject, Script.returns_bind, Script.returns_read, Script.returns_modify,
    queryRow_returns]
  refine ⟨_, _, ⟨rfl, rfl⟩, (), _, rfl, ?_⟩
  rw [hfound, Option.getD_some, insertOrIgnore_present hproject rfl, hfound]
  exact ⟨rfl, rfl⟩

theorem ensureExperiment_present {projectId name : String} {experiment : Experiment}
    (hunique : (repository.experiments.rows.map Experiment.scopedName).Nodup)
    (hexperiment : experiment ∈ repository.experiments.rows)
    (hname : experiment.scopedName = (projectId, name)) :
    (ensureExperiment drawn projectId name).Returns repository experiment.id repository := by
  have hfound := Table.lookup_eq_some_of_mem hunique hexperiment
  rw [hname] at hfound
  simp only [ensureExperiment, Script.returns_bind, Script.returns_read, Script.returns_modify,
    queryRow_returns]
  refine ⟨_, _, ⟨rfl, rfl⟩, (), _, rfl, ?_⟩
  rw [hfound, Option.getD_some, insertOrIgnore_present hexperiment rfl, hfound]
  exact ⟨rfl, rfl⟩

theorem ensureRun_present {runId experimentId runName : String} {config : Value} {run : Run}
    (hrun : run ∈ repository.runs.rows) (h : Agrees runtime runId experimentId runName config run) :
    (ensureRun runtime drawn runId experimentId runName config).Returns repository run
      repository := by
  have hfound : repository.runs.find? runId = some run :=
    KeyedTable.find?_eq_some.mpr ⟨hrun, h.id_eq⟩
  have hparse := h.config_eq
  simp only [ensureRun, Script.returns_bind, Script.returns_read]
  refine ⟨_, _, ⟨rfl, rfl⟩, ?_⟩
  rw [hfound]
  simp only [Script.returns_bind, Script.returns_check, Script.returns_pure, mapError_eq_ok,
    reject_ok, not_or, not_not]
  exact ⟨config, _, ⟨hparse, rfl⟩, (), _, ⟨⟨h.experiment_eq, h.name_eq, rfl⟩, rfl⟩, trivial, rfl⟩

end Statements

/-! ## Calls -/

/-- What the schema of the database demands. -/
structure NamesUnique (repository : Repository) : Prop where
  projects : (repository.projects.rows.map Project.name).Nodup
  experiments : (repository.experiments.rows.map Experiment.scopedName).Nodup
  runs : (repository.runs.rows.map Run.id).Nodup

/-- What calls do to the tables. -/
structure Configures (repository repository' : Repository) : Prop where
  projects : Extends Project.name repository.projects repository'.projects
  experiments : Extends Experiment.scopedName repository.experiments repository'.experiments
  runs : repository.runs.rows <+: repository'.runs.rows

theorem Configures.refl (repository : Repository) : Configures repository repository :=
  ⟨⟨List.prefix_rfl, id⟩, ⟨List.prefix_rfl, id⟩, List.prefix_rfl⟩

theorem Extends.trans {ρ γ : Type} {key : ρ → String} {column : ρ → γ}
    {table table' table'' : KeyedTable key} (h : Extends column table table')
    (h' : Extends column table' table'') : Extends column table table'' :=
  ⟨h.prefix_rows.trans h'.prefix_rows, h'.unique ∘ h.unique⟩

theorem Configures.trans {a b c : Repository} (h : Configures a b) (h' : Configures b c) :
    Configures a c :=
  ⟨h.projects.trans h'.projects, h.experiments.trans h'.experiments, h.runs.trans h'.runs⟩

theorem Configures.namesUnique {repository repository' : Repository}
    (h : Configures repository repository') (hunique : NamesUnique repository) :
    NamesUnique repository' :=
  ⟨h.projects.unique hunique.projects, h.experiments.unique hunique.experiments,
    repository'.runs.unique⟩

/-- The run is stored as the call and its configuration say. -/
def Configured (runtime : ConfigRuntime) (repository : Repository) (call : ConfiguredRun)
    (config : Value) (run : Run) : Prop :=
  run ∈ repository.runs.rows ∧
    ∃ project ∈ repository.projects.rows, ∃ experiment ∈ repository.experiments.rows,
      project.name = trim call.projectName ∧
        experiment.scopedName = (project.id, trim call.experimentName) ∧
        Agrees runtime call.runId experiment.id (trim call.runName) config run

section Calls

variable {runtime : ConfigRuntime} {drawn : Drawn} {call : ConfiguredRun} {config : Value}
  {run : Run} {repository repository' : Repository}

theorem Configured.later (h : Configured runtime repository call config run)
    (hlater : Configures repository repository') :
    Configured runtime repository' call config run := by
  obtain ⟨hrun, project, hproject, experiment, hexperiment, hrest⟩ := h
  exact ⟨hlater.runs.subset hrun, project, hlater.projects.prefix_rows.subset hproject, experiment,
    hlater.experiments.prefix_rows.subset hexperiment, hrest⟩

theorem ensureRows_returns (hprint : runtime.parse (String.ofList config.print) = .ok config)
    (h : (ensureRows runtime drawn call config).Returns repository run repository') :
    Configures repository repository' ∧ Configured runtime repository' call config run := by
  simp only [ensureRows, Script.returns_bind] at h
  obtain ⟨projectId, _, hproject, experimentId, _, hexperiment, hrun⟩ := h
  obtain ⟨projects, rfl, hprojects, project, hpmem, hpname, rfl⟩ := ensureProject_returns hproject
  obtain ⟨experiments, rfl, hexperiments, experiment, hemem, hename, rfl⟩ :=
    ensureExperiment_returns hexperiment
  obtain ⟨runs, rfl, hruns, hmem, hagrees⟩ := ensureRun_returns hprint hrun
  exact ⟨⟨hprojects, hexperiments, hruns⟩, hmem, project, hpmem, experiment, hemem, hpname, hename,
    hagrees⟩

/-- A run that is stored as the call says is returned as it is. -/
theorem ensureRows_present (hunique : NamesUnique repository)
    (h : Configured runtime repository call config run) :
    (ensureRows runtime drawn call config).Returns repository run repository := by
  obtain ⟨hrun, project, hproject, experiment, hexperiment, hpname, hename, hagrees⟩ := h
  simp only [ensureRows, Script.returns_bind]
  refine ⟨project.id, repository, ?_, experiment.id, repository, ?_, ?_⟩
  · rw [← hpname]
    exact ensureProject_present hunique.projects hproject
  · exact ensureExperiment_present hunique.experiments hexperiment hename
  · exact ensureRun_present hrun hagrees

theorem ensureConfiguredRun_returns (hparse : runtime.RoundTrip)
    (h : (ensureConfiguredRun runtime drawn call).Returns repository run repository') :
    ∃ config, validateRun runtime call = .ok config ∧ Configures repository repository' ∧
      Configured runtime repository' call config run := by
  simp only [ensureConfiguredRun, Script.returns_bind, Script.returns_check] at h
  obtain ⟨config, _, ⟨hvalid, rfl⟩, hrows⟩ := h
  have hconfig : runtime.parse call.configJson = .ok config := by
    simp only [validateRun, bind_eq_ok, mapError_eq_ok, pure_eq_ok] at hvalid
    obtain ⟨_, -, _, -, _, -, _, -, _, hconfig, _, -, rfl⟩ := hvalid
    exact hconfig
  exact ⟨config, hvalid,
    ensureRows_returns (hparse _ _ hconfig) (Script.atomically_ok.mp hrows)⟩

/-- A failed call changes nothing. -/
theorem ensureConfiguredRun_fails {reason : EngineError}
    (h : ensureConfiguredRun runtime drawn call repository = (.error reason, repository')) :
    repository' = repository := by
  simp only [ensureConfiguredRun, bind, Script.check] at h
  cases hvalid : validateRun runtime call with
  | error reason' =>
    rw [hvalid] at h
    exact (Prod.mk.inj h).2.symm
  | ok config =>
    rw [hvalid] at h
    exact Script.atomically_error h

theorem configures_ensure (hparse : runtime.RoundTrip) (drawn : Drawn) (call : ConfiguredRun)
    (repository : Repository) :
    Configures repository (ensureConfiguredRun runtime drawn call repository).2 := by
  generalize hrun : ensureConfiguredRun runtime drawn call repository = outcome
  obtain ⟨result, repository'⟩ := outcome
  cases result with
  | error reason =>
    obtain rfl := ensureConfiguredRun_fails hrun
    exact .refl _
  | ok run =>
    obtain ⟨-, -, hconfigures, -⟩ := ensureConfiguredRun_returns hparse hrun
    exact hconfigures

theorem configures_configure (hparse : runtime.RoundTrip) (calls : List (Drawn × ConfiguredRun))
    (repository : Repository) : Configures repository (configure runtime calls repository) := by
  induction calls generalizing repository with
  | nil => exact .refl repository
  | cons call rest ih => exact (configures_ensure hparse call.1 call.2 repository).trans (ih _)

/-- The same arguments: names up to surrounding white space, and configurations as JSON values. -/
structure SameArguments (runtime : ConfigRuntime) (call again : ConfiguredRun) : Prop where
  runId : again.runId = call.runId
  projectName : trim again.projectName = trim call.projectName
  experimentName : trim again.experimentName = trim call.experimentName
  runName : trim again.runName = trim call.runName
  configJson : runtime.parse again.configJson = runtime.parse call.configJson

theorem validateConfigured_ok {field value : String} {result : Unit} :
    validateConfigured field value = .ok result ↔
      trim value ≠ "" ∧ value.utf8ByteSize ≤ 4096 := by
  simp only [validateConfigured, lift, bind_eq_ok, mapError_eq_ok, validateName_ok, reject_ok,
    exists_const, not_lt]
  rw [ne_eq, trim_eq_empty, Bool.not_eq_true]

theorem validateRun_ok :
    validateRun runtime call = .ok config ↔
      (trim call.runId ≠ "" ∧ trim call.projectName ≠ "" ∧ trim call.experimentName ≠ "" ∧
          trim call.runName ≠ "") ∧
        call.runId.utf8ByteSize ≤ 4096 ∧ call.Short ∧
        runtime.parse call.configJson = .ok config ∧ config.isObject = true := by
  simp only [validateRun, bind_eq_ok, mapError_eq_ok, pure_eq_ok, reject_ok, validateConfigured_ok,
    exists_const, ConfiguredRun.Short, Bool.not_eq_false]
  constructor
  · rintro ⟨hid, hproject, hexperiment, hname, value, hparse, hobject, rfl⟩
    exact ⟨⟨hid.1, hproject.1, hexperiment.1, hname.1⟩, hid.2,
      ⟨hproject.2, hexperiment.2, hname.2⟩, hparse, hobject⟩
  · rintro ⟨hblank, hid, ⟨hproject, hexperiment, hname⟩, hparse, hobject⟩
    exact ⟨⟨hblank.1, hid⟩, ⟨hblank.2.1, hproject⟩, ⟨hblank.2.2.1, hexperiment⟩,
      ⟨hblank.2.2.2, hname⟩, config, hparse, hobject, rfl⟩

/-- The same arguments pass the same checks as long as the names are short. -/
theorem SameArguments.validateRun_eq {again : ConfiguredRun} (h : SameArguments runtime call again)
    (hshort : again.Short) (hvalid : validateRun runtime call = .ok config) :
    validateRun runtime again = .ok config := by
  rw [validateRun_ok] at hvalid ⊢
  obtain ⟨hblank, hid, -, hparse, hobject⟩ := hvalid
  rw [h.runId, h.projectName, h.experimentName, h.runName, h.configJson]
  exact ⟨hblank, hid, hshort, hparse, hobject⟩

theorem Configured.again {again : ConfiguredRun}
    (h : Configured runtime repository call config run) (hsame : SameArguments runtime call again) :
    Configured runtime repository again config run := by
  unfold Configured at h ⊢
  rwa [hsame.runId, hsame.projectName, hsame.experimentName, hsame.runName]

/-- In every state reached by calls, the unique columns are unique, a failed call changes nothing,
and a successful one can be repeated at any later time, with the same run and without effect. -/
theorem ensureConfiguredRun_idempotent (hparse : runtime.RoundTrip) {start : Repository}
    (hstart : NamesUnique start) (before : List (Drawn × ConfiguredRun)) :
    NamesUnique (configure runtime before start) ∧
      ∀ drawn call,
        (∀ reason repository', ensureConfiguredRun runtime drawn call
            (configure runtime before start) = (.error reason, repository') →
          repository' = configure runtime before start) ∧
        ∀ run repository', ensureConfiguredRun runtime drawn call
            (configure runtime before start) = (.ok run, repository') →
          ∀ later drawn' again, SameArguments runtime call again → again.Short →
            ensureConfiguredRun runtime drawn' again (configure runtime later repository') =
              (.ok run, configure runtime later repository') := by
  have hunique := (configures_configure hparse before start).namesUnique hstart
  refine ⟨hunique, fun drawn call ↦ ⟨fun reason repository' ↦ ensureConfiguredRun_fails, ?_⟩⟩
  intro run repository' hrun later drawn' again hsame hshort
  obtain ⟨config, hvalid, hconfigures, hconfigured⟩ := ensureConfiguredRun_returns hparse hrun
  have hlater := configures_configure hparse later repository'
  have hpresent : (ensureRows runtime drawn' again config).Returns
      (configure runtime later repository') run (configure runtime later repository') :=
    ensureRows_present (hlater.namesUnique (hconfigures.namesUnique hunique))
      ((hconfigured.later hlater).again hsame)
  have hreturns : (ensureConfiguredRun runtime drawn' again).Returns
      (configure runtime later repository') run (configure runtime later repository') := by
    simp only [ensureConfiguredRun, Script.returns_bind, Script.returns_check]
    exact ⟨config, _, ⟨hsame.validateRun_eq hshort hvalid, rfl⟩, Script.atomically_ok.mpr hpresent⟩
  exact hreturns

end Calls

/-! ## A configured trial -/

/-- A library that reads one configuration. -/
def sampleRuntime : ConfigRuntime where
  parse text := if text = "{}" then .ok (.object []) else .error "expected value"
  debug text := text

theorem sampleRuntime_roundTrip : sampleRuntime.RoundTrip := by
  intro text value h
  unfold sampleRuntime at h
  dsimp only at h
  split_ifs at h
  obtain rfl := Except.ok.inj h
  rfl

def sampleTrial : ConfiguredRun := ⟨"trial-1", "async-rl", "grpo", "trial-1", "{}"⟩

def sampleDrawn : Drawn := ⟨"project-1", 1, "experiment-1", 2, 3⟩

theorem namesUnique_empty : NamesUnique .empty :=
  ⟨List.nodup_nil, List.nodup_nil, List.nodup_nil⟩

theorem ensureConfiguredRun_idempotent_sample :
    (ensureConfiguredRun sampleRuntime sampleDrawn { sampleTrial with projectName := " async-rl" }
      (configure sampleRuntime [(sampleDrawn, sampleTrial)] .empty)).1.toOption.map Run.createdAtNs =
      some 3 := by
  have hfirst : ensureConfiguredRun sampleRuntime sampleDrawn sampleTrial .empty =
      (.ok ⟨"trial-1", "experiment-1", "trial-1", .created, "{}", 3, 3⟩,
        configure sampleRuntime [(sampleDrawn, sampleTrial)] .empty) := rfl
  have hagain := ((ensureConfiguredRun_idempotent sampleRuntime_roundTrip namesUnique_empty []).2
    sampleDrawn sampleTrial).2 _ _ hfirst [] sampleDrawn
    { sampleTrial with projectName := " async-rl" } ⟨rfl, by decide, rfl, rfl, rfl⟩ (by decide)
  exact congrArg (fun outcome ↦ outcome.1.toOption.map Run.createdAtNs) hagain

/-- The same trial with a long white space behind the name of its project. -/
def paddedTrial : ConfiguredRun :=
  { sampleTrial with
    projectName := String.ofList ("async-rl".toList ++ List.replicate 4096 ' ') }

theorem trim_padded (name : String) (n : ℕ) (hhead : ∀ c ∈ name.toList.head?, isWhitespace c = false)
    (hlast : ∀ c ∈ name.toList.getLast?, isWhitespace c = false) (hne : name.toList ≠ []) :
    trim (String.ofList (name.toList ++ List.replicate n ' ')) = name := by
  have hspace : isWhitespace ' ' = true := by decide
  obtain ⟨first, rest, hname⟩ := List.exists_cons_of_ne_nil hne
  have hfront : (name.toList ++ List.replicate n ' ').dropWhile isWhitespace =
      name.toList ++ List.replicate n ' ' := by
    rw [hname, List.cons_append, List.dropWhile_cons_of_neg]
    simp [hhead first (by simp [hname])]
  have hback : (name.toList.reverse).dropWhile isWhitespace = name.toList.reverse := by
    cases hreverse : name.toList.reverse with
    | nil => rfl
    | cons last others =>
      rw [List.dropWhile_cons_of_neg]
      have hmem : last ∈ name.toList.getLast? := by
        rw [← List.head?_reverse, hreverse]
        rfl
      simp [hlast last hmem]
  rw [trim, String.toList_ofList, hfront, List.reverse_append, List.reverse_replicate,
    List.dropWhile_append_of_pos, hback, List.reverse_reverse, String.ofList_toList]
  intro c hc
  rw [List.eq_of_mem_replicate hc]
  exact hspace

/-- Names are measured before they are trimmed, so white space alone can make a call fail. -/
theorem ensureConfiguredRun_padded :
    ¬ ∀ (runtime : ConfigRuntime) (drawn drawn' : Drawn) (call again : ConfiguredRun) (run : Run)
      (repository repository' : Repository), runtime.RoundTrip → NamesUnique repository →
      SameArguments runtime call again →
      ensureConfiguredRun runtime drawn call repository = (.ok run, repository') →
      ensureConfiguredRun runtime drawn' again repository' = (.ok run, repository') := by
  intro h
  have hhead : "async-rl".toList.head?.all (fun c ↦ !isWhitespace c) = true := rfl
  have hlast : "async-rl".toList.getLast?.all (fun c ↦ !isWhitespace c) = true := rfl
  have hname : trim (String.ofList ("async-rl".toList ++ List.replicate 4096 ' ')) = "async-rl" :=
    trim_padded "async-rl" 4096 (by simpa using hhead) (by simpa using hlast) (by decide)
  have hsame : SameArguments sampleRuntime sampleTrial paddedTrial :=
    ⟨rfl, hname.trans (by decide), rfl, rfl, rfl⟩
  have hagain := h sampleRuntime sampleDrawn sampleDrawn sampleTrial paddedTrial _ .empty _
    sampleRuntime_roundTrip namesUnique_empty hsame rfl
  obtain ⟨config, hvalid, -⟩ := ensureConfiguredRun_returns sampleRuntime_roundTrip hagain
  have hlong := (validateRun_ok.mp hvalid).2.2.1.1
  have hbytes := length_le_utf8Len ("async-rl".toList ++ List.replicate 4096 ' ')
  rw [paddedTrial, ← String.utf8Len_toList, String.toList_ofList] at hlong
  rw [List.length_append, List.length_replicate] at hbytes
  have hlength : "async-rl".toList.length = 8 := rfl
  omega

end Repository

end Rvx.Registry
