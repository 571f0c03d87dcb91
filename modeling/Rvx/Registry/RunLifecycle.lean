import Rvx.Lib.Check
import Rvx.Registry.Repository

/-!
# The lifecycle of runs and sources

A terminal run status and a stopped source state are never left, and a draining source only stops.
That every source of a terminal run is stopped holds as long as no new endpoint is registered under
a terminal run: registration is the one operation that does not look at the status of the run.
-/

namespace Rvx.Registry

open Core Engine Check

/-! ## What a row can become -/

def RunMoves (run run' : Run) : Prop := run.status.Terminal → run'.status = run.status

def SourceMoves (source source' : Source) : Prop :=
  (source.state.Stopped → source'.state = source.state) ∧
    (source.state = .draining → source'.state = .draining ∨ source'.state.Stopped)

theorem RunMoves.refl (run : Run) : RunMoves run run := fun _ ↦ rfl

theorem RunMoves.trans (a b c : Run) (hab : RunMoves a b) (hbc : RunMoves b c) : RunMoves a c := by
  intro ha
  have hb := hab ha
  rw [hbc (hb ▸ ha), hb]

theorem SourceMoves.of_state_eq {source source' : Source} (h : source'.state = source.state) :
    SourceMoves source source' :=
  ⟨fun _ ↦ h, fun hdraining ↦ Or.inl (h.trans hdraining)⟩

theorem SourceMoves.refl (source : Source) : SourceMoves source source := .of_state_eq rfl

theorem SourceMoves.trans (a b c : Source) (hab : SourceMoves a b) (hbc : SourceMoves b c) :
    SourceMoves a c := by
  constructor
  · intro ha
    have hb := hab.1 ha
    rw [hbc.1 (hb ▸ ha), hb]
  · intro ha
    cases hab.2 ha with
    | inl hb => exact hbc.2 hb
    | inr hb => exact Or.inr (hbc.1 hb ▸ hb)

/-- A live source may become anything. -/
theorem SourceMoves.of_live {source source' : Source} (hstopped : ¬ source.state.Stopped)
    (hdraining : source.state ≠ .draining) : SourceMoves source source' :=
  ⟨fun h ↦ absurd h hstopped, fun h ↦ absurd h hdraining⟩

namespace Repository

variable {parse : String → Except String Unit}

/-- Runs and sources stay, each as what it can become. -/
structure Evolves (before after : Repository) : Prop where
  runs : KeyedTable.Follows RunMoves before.runs after.runs
  sources : KeyedTable.Follows SourceMoves before.sources after.sources

theorem Evolves.refl (repository : Repository) : Evolves repository repository :=
  ⟨.refl RunMoves.refl, .refl SourceMoves.refl⟩

theorem Evolves.trans {a b c : Repository} (hab : Evolves a b) (hbc : Evolves b c) :
    Evolves a c :=
  ⟨hab.runs.trans RunMoves.trans hbc.runs, hab.sources.trans SourceMoves.trans hbc.sources⟩

/-- Every source of a terminal run is stopped. -/
def Quiet (repository : Repository) : Prop :=
  ∀ source ∈ repository.sources.rows, ∀ run ∈ repository.runs.rows,
    run.id = source.runId → run.status.Terminal → source.state.Stopped

instance (repository : Repository) : Decidable repository.Quiet :=
  inferInstanceAs (Decidable (∀ source ∈ repository.sources.rows,
    ∀ run ∈ repository.runs.rows, _ → _ → _))

/-- A registration that cannot wake a terminal run: the run is live, or it already has the
endpoint, or the registered source is stopped itself. -/
def Admissible (repository : Repository) : Operation → Prop
  | .registerSource source => (∃ run ∈ repository.runs.rows,
      run.id = source.runId ∧ run.status.Terminal) →
    (∃ old ∈ repository.sources.rows, SameEndpoint source old) ∨ source.state.Stopped
  | _ => True

instance (repository : Repository) : ∀ operation, Decidable (repository.Admissible operation)
  | .registerSource _ => inferInstanceAs (Decidable (_ → _))
  | .createProject .. | .createExperiment .. | .createRun .. | .updateRunStatus .. => .isTrue trivial
  | .updateSourceState .. | .updateSourceSuccessBatch .. => .isTrue trivial
  | .updateSourceFailure .. => .isTrue trivial

/-! ## One operation -/

theorem insertRow_eq_ok {ρ : Type} {key : ρ → String} {row : ρ} {table table' : KeyedTable key} :
    insertRow row table = .ok table' ↔ table.insert? row = some table' := by
  unfold insertRow
  cases table.insert? row <;> simp

/-- What a successful operation does to runs and sources: it keeps the quiet, and every row stays
as what it can become. -/
structure Sound (before after : Repository) (admissible : Prop) : Prop where
  evolves : Evolves before after
  quiet : before.Quiet → admissible → after.Quiet

theorem Sound.of_frame {before after : Repository} {admissible : Prop}
    (hruns : after.runs = before.runs) (hsources : after.sources = before.sources) :
    Sound before after admissible := by
  refine ⟨⟨hruns ▸ .refl RunMoves.refl, hsources ▸ .refl SourceMoves.refl⟩, fun h _ ↦ ?_⟩
  unfold Quiet
  rw [hruns, hsources]
  exact h

theorem Sound.trans {a b c : Repository} {admissible : Prop} (hab : Sound a b admissible)
    (hbc : Sound b c True) : Sound a c admissible :=
  ⟨hab.evolves.trans hbc.evolves, fun hquiet h ↦ hbc.quiet (hab.quiet hquiet h) trivial⟩

/-- An update of the sources that only moves rows, each inside its run. -/
theorem Sound.of_sources {before after : Repository} {admissible : Prop} {change : Source → Source}
    (hruns : after.runs = before.runs)
    (hsources : after.sources.rows = before.sources.rows.map change)
    (hmoves : ∀ source ∈ before.sources.rows, (change source).id = source.id ∧
      (change source).runId = source.runId ∧ SourceMoves source (change source)) :
    Sound before after admissible := by
  refine ⟨⟨hruns ▸ .refl RunMoves.refl, ?_⟩, ?_⟩
  · refine KeyedTable.follows_of_rows hsources fun source hsource ↦ ?_
    exact ⟨(hmoves source hsource).1, (hmoves source hsource).2.2⟩
  · intro hquiet _ source' hsource' run hrun hid hterminal
    rw [hsources] at hsource'
    obtain ⟨source, hsource, rfl⟩ := List.mem_map.mp hsource'
    obtain ⟨-, hrunId, hmove⟩ := hmoves source hsource
    have hstopped : source.state.Stopped :=
      hquiet source hsource run (hruns ▸ hrun) (hid.trans hrunId) hterminal
    exact hmove.1 hstopped ▸ hstopped

theorem createRun_sound {before after : Repository} {id experimentId name configJson : String}
    {now : ℤ} (h : before.createRun parse id experimentId name configJson now = .ok after) :
    Sound before after True := by
  simp only [createRun, bind_eq_ok, pure_eq_ok, insertRow_eq_ok] at h
  obtain ⟨_, -, _, -, _, -, runs, hruns, rfl⟩ := h
  refine ⟨⟨KeyedTable.follows_insert? RunMoves.refl hruns, .refl SourceMoves.refl⟩, ?_⟩
  intro hquiet _ source hsource run hrun hid hterminal
  rw [(KeyedTable.insert?_eq_some hruns).1] at hrun
  cases List.mem_append.mp hrun with
  | inl hold => exact hquiet source hsource run hold hid hterminal
  | inr hnew =>
    rw [List.mem_singleton.mp hnew] at hterminal
    simp [RunStatus.Terminal] at hterminal

theorem validRunTransition_moves {current target : RunStatus}
    (h : validRunTransition current target = true) (hterminal : current.Terminal) :
    target = current := by
  revert h hterminal
  cases current <;> cases target <;> decide

theorem validSourceTransition_moves {current target : SourceState}
    (h : validSourceTransition current target = true) :
    (current.Stopped → target = current) ∧
      (current = .draining → target = .draining ∨ target.Stopped) := by
  revert h
  cases current <;> cases target <;> decide

theorem terminalSourceState_stopped {status : RunStatus} (h : status.Terminal) :
    ∃ state, terminalSourceState status = some state ∧ state.Stopped := by
  obtain rfl | rfl | rfl := h
  · exact ⟨.ended, rfl, by decide⟩
  · exact ⟨.lost, rfl, by decide⟩
  · exact ⟨.ended, rfl, by decide⟩

theorem terminalSourceState_eq_some {status : RunStatus} {state : SourceState}
    (h : terminalSourceState status = some state) : state.Stopped := by
  cases status <;> simp [terminalSourceState] at h <;> subst h <;> decide

/-- A run under a given identifier is the one that is found. -/
theorem eq_of_find? {runs : KeyedTable Run.id} {run other : Run} {id : String}
    (hrun : runs.find? id = some run) (hother : other ∈ runs.rows) (hid : other.id = id) :
    other = run :=
  Option.some.inj ((KeyedTable.find?_eq_some.mpr ⟨hother, hid⟩).symm.trans hrun)

theorem follows_setStatus {runs : KeyedTable Run.id} {run : Run} {runId : String}
    {target : RunStatus} {now : ℤ} (hrun : runs.find? runId = some run)
    (hvalid : validRunTransition run.status target = true) :
    KeyedTable.Follows RunMoves runs (setStatus runId target now runs) := by
  refine KeyedTable.follows_of_rows rfl fun other hother ↦ ?_
  split
  · rename_i hid
    obtain rfl := eq_of_find? hrun hother hid
    exact ⟨rfl, validRunTransition_moves hvalid⟩
  · exact ⟨rfl, .refl other⟩

theorem follows_stopSources {sources : KeyedTable Source.id} {runId : String}
    {state : SourceState} (hstate : state.Stopped) :
    KeyedTable.Follows SourceMoves sources (stopSources runId state sources) := by
  refine KeyedTable.follows_of_rows rfl fun source _ ↦ ?_
  split
  · rename_i hlive
    exact ⟨rfl, fun hstopped ↦ absurd hstopped hlive.2, fun _ ↦ Or.inr hstate⟩
  · exact ⟨rfl, .refl source⟩

/-- Stopping the sources of a run leaves no live one and wakes none. -/
theorem mem_stopSources {sources : KeyedTable Source.id} {runId : String} {state : SourceState}
    (hstate : state.Stopped) {source' : Source}
    (h : source' ∈ (stopSources runId state sources).rows) :
    ∃ source ∈ sources.rows, source'.runId = source.runId ∧
      (source.runId = runId ∨ source.state.Stopped → source'.state.Stopped) := by
  obtain ⟨source, hsource, rfl⟩ := List.mem_map.mp h
  refine ⟨source, hsource, ?_⟩
  split
  · exact ⟨rfl, fun _ ↦ hstate⟩
  · rename_i hkept
    rw [not_and_not_right] at hkept
    exact ⟨rfl, fun hcases ↦ hcases.elim hkept id⟩

theorem updateRunStatus_sound {before after : Repository} {runId : String} {target : RunStatus}
    {now : ℤ} (h : before.updateRunStatus runId target now = .ok after) :
    Sound before after True := by
  unfold updateRunStatus at h
  split at h
  · exact absurd h (by simp)
  rename_i run hrun
  split at h
  case isFalse => exact absurd h (by simp)
  rename_i hvalid
  split at h
  · obtain rfl := Except.ok.inj h
    exact .of_frame rfl rfl
  obtain rfl := Except.ok.inj h
  refine ⟨⟨follows_setStatus hrun hvalid, ?_⟩, fun hquiet _ ↦ ?_⟩
  · cases htarget : terminalSourceState target with
    | none => exact .refl SourceMoves.refl
    | some state => exact follows_stopSources (terminalSourceState_eq_some htarget)
  · intro source' hsource' run' hrun' hid hterminal
    obtain ⟨old, hold, rfl⟩ := List.mem_map.mp hrun'
    by_cases hmoved : old.id = runId
    · -- the run that moved: it is terminal, so its sources were stopped with it
      rw [if_pos hmoved] at hid hterminal
      obtain ⟨state, hstate, hstopped⟩ := terminalSourceState_stopped hterminal
      simp only [hstate] at hsource'
      obtain ⟨source, -, hrunId, hstop⟩ := mem_stopSources hstopped hsource'
      exact hstop (Or.inl (hrunId ▸ hid ▸ hmoved))
    · rw [if_neg hmoved] at hid hterminal
      cases htarget : terminalSourceState target with
      | none =>
        simp only [htarget] at hsource'
        exact hquiet source' hsource' old hold hid hterminal
      | some state =>
        simp only [htarget] at hsource'
        obtain ⟨source, hsource, hrunId, hstop⟩ :=
          mem_stopSources (terminalSourceState_eq_some htarget) hsource'
        exact hstop (Or.inr (hquiet source hsource old hold (hid.trans hrunId) hterminal))

theorem registerSource_sound {before after : Repository} {source : Source}
    (h : before.registerSource source = .ok after) :
    Sound before after (before.Admissible (.registerSource source)) := by
  unfold registerSource at h
  rw [bind_eq_ok, exists_unit] at h
  obtain ⟨-, h⟩ := h
  split at h
  · obtain rfl := pure_eq_ok.mp h
    refine .of_sources rfl rfl fun old _ ↦ ?_
    split
    · exact ⟨rfl, rfl, .of_state_eq rfl⟩
    · exact ⟨rfl, rfl, .refl old⟩
  · rename_i hnew
    simp only [bind_eq_ok, pure_eq_ok, insertRow_eq_ok] at h
    obtain ⟨sources, hsources, rfl⟩ := h
    refine ⟨⟨.refl RunMoves.refl, KeyedTable.follows_insert? SourceMoves.refl hsources⟩, ?_⟩
    intro hquiet hadmissible source' hsource' run hrun hid hterminal
    rw [(KeyedTable.insert?_eq_some hsources).1] at hsource'
    cases List.mem_append.mp hsource' with
    | inl hold => exact hquiet source' hold run hrun hid hterminal
    | inr hnew' =>
      obtain rfl := List.mem_singleton.mp hnew'
      exact (hadmissible ⟨run, hrun, hid, hterminal⟩).resolve_left hnew

theorem updateSourceState_sound {before after : Repository} {sourceId : String}
    {target : SourceState} (h : before.updateSourceState sourceId target = .ok after) :
    Sound before after True := by
  unfold updateSourceState at h
  split at h
  · exact absurd h (by simp)
  rename_i source hsource
  split at h
  case isFalse => exact absurd h (by simp)
  rename_i hvalid
  split at h
  · obtain rfl := Except.ok.inj h
    exact .of_frame rfl rfl
  obtain rfl := Except.ok.inj h
  refine .of_sources rfl rfl fun other hother ↦ ?_
  split
  · rename_i hid
    obtain rfl : other = source :=
      Option.some.inj ((KeyedTable.find?_eq_some.mpr ⟨hother, hid⟩).symm.trans hsource)
    exact ⟨rfl, rfl, validSourceTransition_moves hvalid⟩
  · exact ⟨rfl, rfl, .refl other⟩

/-- A report only reaches live sources. -/
theorem Reportable.moves {repository : Repository} {source source' : Source}
    (h : repository.Reportable source) : SourceMoves source source' := by
  obtain ⟨-, hstate⟩ := h
  rw [not_or, not_or] at hstate
  exact .of_live (not_or.mpr hstate.2) hstate.1

theorem updateSourceFailure_sound (repository : Repository) (sourceId error : String) :
    Sound repository (repository.updateSourceFailure sourceId error) True := by
  refine .of_sources rfl rfl fun source _ ↦ ?_
  split
  · rename_i hreport
    exact ⟨rfl, rfl, hreport.2.moves⟩
  · exact ⟨rfl, rfl, .refl source⟩

theorem markActive_sound {before after : Repository} {sourceId sessionId : String} {now : ℤ}
    (hruns : after.runs = before.runs)
    (hsources : after.sources = markActive sourceId sessionId now before) :
    Sound before after True := by
  refine .of_sources hruns (congrArg KeyedTable.rows hsources) fun source _ ↦ ?_
  split
  · rename_i hreport
    exact ⟨rfl, rfl, hreport.2.moves⟩
  · exact ⟨rfl, rfl, .refl source⟩

theorem startRun_sound {before after : Repository} {sourceId : String} {now : ℤ}
    (hruns : after.runs = startRun sourceId now before)
    (hsources : after.sources = before.sources) : Sound before after True := by
  refine ⟨⟨?_, hsources ▸ .refl SourceMoves.refl⟩, ?_⟩
  · rw [hruns]
    refine KeyedTable.follows_of_rows rfl fun run _ ↦ ?_
    split
    · rename_i hcreated
      refine ⟨rfl, fun hterminal ↦ ?_⟩
      rw [hcreated.1] at hterminal
      exact absurd hterminal (by decide)
    · exact ⟨rfl, .refl run⟩
  · intro hquiet _ source hsource run' hrun' hid hterminal
    rw [hruns] at hrun'
    obtain ⟨run, hrun, rfl⟩ := List.mem_map.mp hrun'
    split at hid
    · rename_i hcreated
      rw [if_pos hcreated] at hterminal
      simp [RunStatus.Terminal] at hterminal
    · rename_i hkept
      rw [if_neg hkept] at hterminal
      exact hquiet source (hsources ▸ hsource) run hrun hid hterminal

theorem reportSuccess_sound {before after : Repository} {now : ℤ}
    {report : String × SnapshotDescriptor} (h : reportSuccess now before report = .ok after) :
    Sound before after True := by
  simp only [reportSuccess, bind_eq_ok, pure_eq_ok] at h
  obtain ⟨descriptors, -, rfl⟩ := h
  have hmarked : Sound before
      { before with sources := markActive report.1 report.2.sourceSessionId now before } True :=
    markActive_sound rfl rfl
  exact hmarked.trans (startRun_sound rfl rfl)

theorem updateSourceSuccessBatch_sound {before after : Repository}
    {reports : List (String × SnapshotDescriptor)} {now : ℤ}
    (h : before.updateSourceSuccessBatch reports now = .ok after) : Sound before after True := by
  unfold updateSourceSuccessBatch at h
  induction reports generalizing before with
  | nil =>
    obtain rfl := pure_eq_ok.mp h
    exact .of_frame rfl rfl
  | cons report rest ih =>
    obtain ⟨middle, hreport, hrest⟩ := foldlM_cons_eq_ok.mp h
    exact (reportSuccess_sound hreport).trans (ih hrest)

/-! ## Runs of operations -/

theorem perform_sound {before after : Repository} {operation : Operation}
    (h : before.perform parse operation = .ok after) :
    Sound before after (before.Admissible operation) := by
  cases operation with
  | createProject id name now =>
    simp only [perform, createProject, bind_eq_ok, pure_eq_ok] at h
    obtain ⟨_, -, _, -, projects, -, rfl⟩ := h
    exact .of_frame rfl rfl
  | createExperiment id projectId name now =>
    simp only [perform, createExperiment, bind_eq_ok, pure_eq_ok] at h
    obtain ⟨_, -, _, -, _, -, experiments, -, rfl⟩ := h
    exact .of_frame rfl rfl
  | createRun id experimentId name configJson now => exact createRun_sound h
  | registerSource source => exact registerSource_sound h
  | updateRunStatus runId target now => exact updateRunStatus_sound h
  | updateSourceState sourceId target => exact updateSourceState_sound h
  | updateSourceSuccessBatch reports now => exact updateSourceSuccessBatch_sound h
  | updateSourceFailure sourceId error =>
    obtain rfl := Except.ok.inj h
    exact updateSourceFailure_sound before sourceId error

theorem step_sound (repository : Repository) (operation : Operation) :
    Sound repository (repository.step parse operation) (repository.Admissible operation) := by
  unfold step
  split
  · rename_i after hafter
    exact perform_sound hafter
  · exact .of_frame rfl rfl

/-- Every operation of a run is admissible where it is performed. -/
def RunsAdmissible (parse : String → Except String Unit) : List Operation → Repository → Prop
  | [], _ => True
  | operation :: rest, repository => repository.Admissible operation ∧
      RunsAdmissible parse rest (repository.step parse operation)

instance decideAdmissible (parse : String → Except String Unit) :
    ∀ operations repository, Decidable (RunsAdmissible parse operations repository)
  | [], _ => .isTrue trivial
  | operation :: rest, repository =>
    have := decideAdmissible parse rest (repository.step parse operation)
    inferInstanceAs (Decidable (_ ∧ _))

theorem run_evolves (operations : List Operation) (repository : Repository) :
    Evolves repository (repository.run parse operations) := by
  induction operations generalizing repository with
  | nil => exact .refl repository
  | cons operation rest ih => exact (step_sound repository operation).evolves.trans (ih _)

theorem run_quiet {operations : List Operation} {repository : Repository}
    (hquiet : repository.Quiet) (h : RunsAdmissible parse operations repository) :
    (repository.run parse operations).Quiet := by
  induction operations generalizing repository with
  | nil => exact hquiet
  | cons operation rest ih =>
    exact ih ((step_sound repository operation).quiet hquiet h.1) h.2

/-- Along every run, terminal statuses and stopped states are never left and a draining source only
stops; where every registration is admissible, every source of a terminal run is stopped. -/
theorem lifecycle (parse : String → Except String Unit) (operations : List Operation) :
    (∀ later, Evolves (empty.run parse operations)
      ((empty.run parse operations).run parse later)) ∧
      (RunsAdmissible parse operations empty → (empty.run parse operations).Quiet) := by
  refine ⟨fun later ↦ run_evolves later _, fun h ↦ run_quiet ?_ h⟩
  intro source hsource
  simp [empty] at hsource

/-! ## A finished run -/

def sampleSource (id : String) : Source where
  id
  runId := "run_1"
  attemptId := "attempt"
  role := "worker"
  endpoint := "http://" ++ id
  nodeId := none
  rank := none
  state := .discovered
  sourceSessionId := none
  lastSuccessAtNs := none
  lastError := none
  scrapeIntervalMs := 1000
  timeoutMs := 500

/-- A run with one source that finishes. -/
def sampleFinished : List Operation :=
  [.createProject "project_1" "p" 0, .createExperiment "experiment_1" "project_1" "e" 0,
    .createRun "run_1" "experiment_1" "r" "{}" 0, .registerSource (sampleSource "source_1"),
    .updateSourceFailure "source_1" "refused", .updateRunStatus "run_1" .finished 1,
    .registerSource (sampleSource "source_1")]

theorem lifecycle_sample :
    (empty.run (fun _ ↦ .ok ()) sampleFinished).Quiet ∧
      (empty.run (fun _ ↦ .ok ()) sampleFinished).sources.rows.map Source.state = [.ended] :=
  ⟨(lifecycle (fun _ ↦ .ok ()) sampleFinished).2 (by decide +kernel), by decide +kernel⟩

/-- A source registered after its run finished is scheduled all the same. -/
theorem not_quiet : ¬ ∀ operations, (empty.run (fun _ ↦ .ok ()) operations).Quiet := by
  intro h
  exact absurd (h (sampleFinished ++ [.registerSource (sampleSource "source_2")]))
    (by decide +kernel)

end Repository

end Rvx.Registry
