import Rvx.Tracking.Calls
import Rvx.Tracking.HistoryReplay

/-!
# Batches keep the invariant

The invariant relates the state of a tracker to the records it has committed.  A batch commits the
open row and adds events, one after another; each of these steps keeps the invariant, so every call
does.
-/

namespace Rvx.Tracking

open Core Check

/-- The commits among the records, in order. -/
def observations (records : List TrackerRecord) : List CommittedStep :=
  (records.filter fun record ↦ record.kind = .observation).map TrackerRecord.committed

namespace Tracker

/-- How the state of a tracker follows from the records it has committed. -/
structure Invariant (tracker : Tracker) (records : List TrackerRecord) (state : TrackerState) :
    Prop where
  commits : state.commits = records.length
  numbered : records.map TrackerRecord.commit = List.range' 1 records.length
  last : state.lastCommittedStep = (observations records).getLast?.map CommittedStep.step
  next_nonneg : 0 ≤ state.nextStep
  below : ∀ commit ∈ observations records, 0 ≤ commit.step ∧ commit.step < state.nextStep
  reached : state.nextStep = 0 ∨ ∃ commit ∈ observations records, commit.step + 1 = state.nextStep
  open_nonneg : ∀ step, state.openStep = some step → 0 ≤ step
  next_bound : state.nextStep ≤ STEP_MAX
  open_bound : ∀ step, state.openStep = some step → step ≤ STEP_MAX
  steps_bound : ∀ record ∈ records, 0 ≤ record.step ∧ record.step ≤ STEP_MAX
  ascending : tracker.options.stepPolicy = .monotonic →
    ((observations records).map CommittedStep.step).Pairwise (· ≤ ·)
  open_next : tracker.options.stepPolicy = .monotonic → ∀ step, state.openStep = some step →
    state.nextStep ≤ step ∨ state.lastCommittedStep = some step
  retained : Retained tracker.floats tracker.options (observations records) state.history
  summary : state.summary = unionMetrics (observations records)

variable {tracker : Tracker} {records : List TrackerRecord} {state : TrackerState}

theorem invariant_init (alerts : AlertEngine) : tracker.Invariant [] (initialState alerts) where
  commits := rfl
  numbered := rfl
  last := rfl
  next_nonneg := le_rfl
  below := by simp [observations]
  reached := Or.inl rfl
  open_nonneg := by simp [initialState]
  next_bound := by norm_num [initialState, STEP_MAX]
  open_bound := by simp [initialState]
  steps_bound := by simp
  ascending := by simp [observations]
  open_next := by simp [initialState]
  retained := retained_init
  summary := rfl

/-- What the options of a tracker were accepted with. -/
theorem historySteps_pos (tracker : Tracker) : 1 ≤ tracker.options.historySteps := by
  have hvalid := tracker.validated
  simp only [TrackerOptions.validate, bind_eq_ok, reject_ok, exists_unit] at hvalid
  have hsteps := hvalid.2.1
  simp only [TrackerOptions.within, Bool.not_eq_false, Bool.and_eq_true,
    decide_eq_true_eq] at hsteps
  exact hsteps.1

/-! ## Frames -/

/-- The invariant does not depend on the open values, the rules and the status. -/
theorem Invariant.congr {state' : TrackerState} (h : tracker.Invariant records state)
    (hcommits : state'.commits = state.commits) (hnext : state'.nextStep = state.nextStep)
    (hlast : state'.lastCommittedStep = state.lastCommittedStep)
    (hopen : state'.openStep = state.openStep) (hhistory : state'.history = state.history)
    (hsummary : state'.summary = state.summary) : tracker.Invariant records state' := by
  constructor
  · rw [hcommits, h.commits]
  · exact h.numbered
  · rw [hlast, h.last]
  · rw [hnext]
    exact h.next_nonneg
  · rw [hnext]
    exact h.below
  · rw [hnext]
    exact h.reached
  · rw [hopen]
    exact h.open_nonneg
  · rw [hnext]
    exact h.next_bound
  · rw [hopen]
    exact h.open_bound
  · exact h.steps_bound
  · exact h.ascending
  · rw [hopen, hnext, hlast]
    exact h.open_next
  · rw [hhistory]
    exact h.retained
  · rw [hsummary, h.summary]

/-- A step a row may be opened at. -/
def Admissible (tracker : Tracker) (state : TrackerState) (target : ℤ) : Prop :=
  (0 ≤ target ∧ target ≤ STEP_MAX) ∧ (tracker.options.stepPolicy = .monotonic →
    state.nextStep ≤ target ∨ state.lastCommittedStep = some target)

/-- Opening a row, or adding to the open one, keeps the invariant. -/
theorem Invariant.openRow (h : tracker.Invariant records state) {target : ℤ}
    (hadmissible : tracker.Admissible state target) (metrics : Metrics) (spans : List SpanRecord) :
    tracker.Invariant records
      { state with openStep := some target, openMetrics := metrics, openSpans := spans } where
  commits := h.commits
  numbered := h.numbered
  last := h.last
  next_nonneg := h.next_nonneg
  below := h.below
  reached := h.reached
  open_nonneg := by
    intro step hstep
    rw [← Option.some.inj hstep]
    exact hadmissible.1.1
  next_bound := h.next_bound
  open_bound := by
    intro step hstep
    rw [← Option.some.inj hstep]
    exact hadmissible.1.2
  steps_bound := h.steps_bound
  ascending := h.ascending
  open_next := by
    intro hpolicy step hstep
    rw [← Option.some.inj hstep]
    exact hadmissible.2 hpolicy
  retained := h.retained
  summary := h.summary

/-! ## Commits -/

theorem observations_snoc_observation {record : TrackerRecord} (h : record.kind = .observation) :
    observations (records ++ [record]) = observations records ++ [record.committed] := by
  simp [observations, h]

theorem observations_snoc_event {record : TrackerRecord} (h : record.kind = .event) :
    observations (records ++ [record]) = observations records := by
  simp [observations, h]

theorem numbered_snoc {record : TrackerRecord}
    (h : records.map TrackerRecord.commit = List.range' 1 records.length)
    (hcommit : record.commit = records.length + 1) :
    (records ++ [record]).map TrackerRecord.commit =
      List.range' 1 (records ++ [record]).length := by
  rw [List.map_append, h, List.length_append, List.range'_append_1.symm]
  simp [hcommit, Nat.add_comm]

/-- Under the monotonic policy no committed step lies above the last one. -/
theorem Invariant.le_last (h : tracker.Invariant records state)
    (hpolicy : tracker.options.stepPolicy = .monotonic) {step : ℤ}
    (hlast : state.lastCommittedStep = some step) :
    ∀ commit ∈ observations records, commit.step ≤ step := by
  have hascending := h.ascending hpolicy
  rw [h.last] at hlast
  obtain ⟨newest, hnewest, rfl⟩ := Option.map_eq_some_iff.mp hlast
  obtain ⟨older, hsplit⟩ := List.getLast?_eq_some_iff.mp hnewest
  rw [hsplit, List.map_append, List.pairwise_append] at hascending
  intro commit hcommit
  rw [hsplit] at hcommit
  rcases List.mem_append.mp hcommit with hold | hnew
  · exact hascending.2.2 commit.step (List.mem_map_of_mem hold) newest.step (by simp)
  · rw [List.mem_singleton.mp hnew]

/-- Under the monotonic policy the open step is the last one or lies above all committed steps. -/
theorem Invariant.le_open (h : tracker.Invariant records state)
    (hpolicy : tracker.options.stepPolicy = .monotonic) {step : ℤ}
    (hopen : state.openStep = some step) :
    ∀ commit ∈ observations records, commit.step ≤ step := by
  rcases h.open_next hpolicy step hopen with hnext | hlast
  · intro commit hcommit
    exact (lt_of_lt_of_le (h.below commit hcommit).2 hnext).le
  · exact h.le_last hpolicy hlast

theorem Invariant.next_le (h : tracker.Invariant records state)
    (hpolicy : tracker.options.stepPolicy = .monotonic) {step : ℤ}
    (hopen : state.openStep = some step) : state.nextStep ≤ step + 1 := by
  rcases h.reached with hzero | ⟨commit, hcommit, hnext⟩
  · have hnonneg := h.open_nonneg step hopen
    omega
  · have hle := h.le_open hpolicy hopen commit hcommit
    omega

/-- A commit of the open row keeps the invariant. -/
theorem Invariant.commit (h : tracker.Invariant records state) {step observed : ℤ}
    {history : History} (hopen : state.openStep = some step) (hstep : step ≠ STEP_MAX)
    (hmerge : mergeHistory tracker.floats tracker.options state.history
      (tracker.commitRecord state step observed).committed = .ok history) :
    tracker.Invariant (records ++ [tracker.commitRecord state step observed])
      (tracker.commitState state step observed history) := by
  have hobservations :
      observations (records ++ [tracker.commitRecord state step observed]) =
        observations records ++ [(tracker.commitRecord state step observed).committed] :=
    observations_snoc_observation rfl
  have hnonneg := h.open_nonneg step hopen
  have hbound := h.open_bound step hopen
  have hlength : (records ++ [tracker.commitRecord state step observed]).length =
      records.length + 1 := by simp
  constructor
  · rw [hlength, ← h.commits]
    rfl
  · exact numbered_snoc h.numbered (by rw [← h.commits]; rfl)
  · rw [hobservations, List.getLast?_concat]
    rfl
  · exact le_trans h.next_nonneg (le_max_left _ _)
  · rw [hobservations]
    intro commit hcommit
    rcases List.mem_append.mp hcommit with hold | hnew
    · obtain ⟨hlow, hhigh⟩ := h.below commit hold
      exact ⟨hlow, lt_of_lt_of_le hhigh (le_max_left _ _)⟩
    · rw [List.mem_singleton.mp hnew]
      exact ⟨hnonneg, lt_of_lt_of_le (lt_add_one step) (le_max_right _ _)⟩
  · right
    rw [hobservations]
    rcases le_total (step + 1) state.nextStep with hle | hle
    · have hmax : (tracker.commitState state step observed history).nextStep = state.nextStep :=
        max_eq_left hle
      rcases h.reached with hzero | ⟨commit, hcommit, hnext⟩
      · omega
      · exact ⟨commit, List.mem_append_left _ hcommit, by rw [hmax, hnext]⟩
    · have hmax : (tracker.commitState state step observed history).nextStep = step + 1 :=
        max_eq_right hle
      exact ⟨_, List.mem_append_right _ (List.mem_singleton_self _), hmax.symm⟩
  · simp [commitState]
  · exact max_le h.next_bound (by omega)
  · simp [commitState]
  · intro record hmem
    rcases List.mem_append.mp hmem with hold | hnew
    · exact h.steps_bound record hold
    · rw [List.mem_singleton.mp hnew]
      exact ⟨hnonneg, hbound⟩
  · intro hpolicy
    rw [hobservations, List.map_append, List.pairwise_append]
    refine ⟨h.ascending hpolicy, List.pairwise_singleton _ _, ?_⟩
    intro earlier hearlier later hlater
    obtain ⟨commit, hcommit, rfl⟩ := List.mem_map.mp hearlier
    rw [List.map_singleton] at hlater
    rw [List.mem_singleton.mp hlater]
    exact h.le_open hpolicy hopen commit hcommit
  · simp [commitState]
  · rw [hobservations]
    exact h.retained.merge tracker.historySteps_pos hmerge
  · rw [hobservations, unionMetrics_snoc, ← h.summary]
    rfl

/-- The step of an event is the open one, the last one or the next one. -/
theorem Invariant.eventStep_bound (h : tracker.Invariant records state) :
    0 ≤ eventStep state ∧ eventStep state ≤ STEP_MAX := by
  unfold eventStep
  cases hopen : state.openStep with
  | some step => exact ⟨h.open_nonneg step hopen, h.open_bound step hopen⟩
  | none =>
    cases hlast : state.lastCommittedStep with
    | none => exact ⟨h.next_nonneg, h.next_bound⟩
    | some step =>
      rw [h.last] at hlast
      obtain ⟨newest, hnewest, rfl⟩ := Option.map_eq_some_iff.mp hlast
      obtain ⟨hlow, hhigh⟩ := h.below newest (List.mem_of_getLast? hnewest)
      exact ⟨hlow, le_trans hhigh.le h.next_bound⟩

/-- An event keeps the invariant. -/
theorem Invariant.event (h : tracker.Invariant records state) (observed : ℤ)
    (alerts : List AlertEvent) (artifacts : List TrackedArtifact) :
    tracker.Invariant (records ++ [eventRecord state observed alerts artifacts])
      { state with commits := state.commits + 1 } := by
  have hobservations :
      observations (records ++ [eventRecord state observed alerts artifacts]) =
        observations records := observations_snoc_event rfl
  have hlength : (records ++ [eventRecord state observed alerts artifacts]).length =
      records.length + 1 := by simp
  constructor
  · rw [hlength, ← h.commits]
  · exact numbered_snoc h.numbered (by rw [← h.commits]; rfl)
  · exact hobservations ▸ h.last
  · exact h.next_nonneg
  · exact hobservations ▸ h.below
  · exact hobservations ▸ h.reached
  · exact h.open_nonneg
  · exact h.next_bound
  · exact h.open_bound
  · intro record hmem
    rcases List.mem_append.mp hmem with hold | hnew
    · exact h.steps_bound record hold
    · rw [List.mem_singleton.mp hnew]
      exact h.eventStep_bound
  · exact hobservations ▸ h.ascending
  · exact h.open_next
  · exact hobservations ▸ h.retained
  · exact hobservations ▸ h.summary

/-! ## Calls -/

/-- The invariant of a batch that follows the records of the past. -/
def Prepares (tracker : Tracker) (past : List TrackerRecord) (batch : PreparedBatch) : Prop :=
  tracker.Invariant (past ++ batch.events) batch.next

variable {past : List TrackerRecord} {batch batch' : PreparedBatch}

theorem prepareCommit_prepares (h : tracker.Prepares past batch) {observed : ℤ}
    (hcommit : tracker.prepareCommit batch observed = .ok batch') :
    tracker.Prepares past batch' := by
  unfold prepareCommit at hcommit
  split at hcommit
  · rw [Except.ok.injEq] at hcommit
    exact hcommit ▸ h
  · rename_i step hopen
    simp only [bind_eq_ok, reject_ok, exists_unit, pure_eq_ok] at hcommit
    obtain ⟨hstep, history, hmerge, -, rfl⟩ := hcommit
    rw [Prepares, ← List.append_assoc]
    exact Invariant.commit h hopen hstep hmerge

/-- After a commit there is no open row, and the open step was the last one. -/
theorem prepareCommit_last {observed step : ℤ} (hopen : batch.next.openStep = some step)
    (hcommit : tracker.prepareCommit batch observed = .ok batch') :
    batch'.next.lastCommittedStep = some step ∧
      batch'.next.nextStep = max batch.next.nextStep (step + 1) := by
  simp only [prepareCommit, hopen, bind_eq_ok, reject_ok, exists_unit, pure_eq_ok] at hcommit
  obtain ⟨-, history, -, -, rfl⟩ := hcommit
  exact ⟨rfl, rfl⟩

theorem prepareEvent_prepares (h : tracker.Prepares past batch) (observed : ℤ)
    (alerts : List AlertEvent) (artifacts : List TrackedArtifact) :
    tracker.Prepares past (prepareEvent batch observed alerts artifacts) := by
  rw [Prepares, prepareEvent, ← List.append_assoc]
  exact Invariant.event h observed alerts artifacts

/-- A step that is not rejected may be opened. -/
theorem selectStep_prepares (h : tracker.Prepares past batch) {target observed : ℤ}
    {rejected : Option LogResult} (htarget : 0 ≤ target ∧ target ≤ STEP_MAX)
    (hselect : tracker.selectStep batch target observed = .ok (rejected, batch')) :
    tracker.Prepares past batch' ∧ (rejected = none → tracker.Admissible batch'.next target) := by
  unfold selectStep at hselect
  split at hselect
  · rename_i hdecision
    obtain ⟨rfl, rfl⟩ := Prod.mk.inj (Except.ok.inj hselect)
    refine ⟨h, fun _ ↦ ⟨htarget, fun hpolicy ↦ ?_⟩⟩
    unfold stepDecision at hdecision
    split at hdecision
    · rename_i openStep hopen
      split_ifs at hdecision with habove hbelow
      obtain rfl : target = openStep := by omega
      exact h.open_next hpolicy target hopen
    · split_ifs at hdecision with hbehind
      by_contra hnot
      rw [not_or, not_le] at hnot
      exact hbehind ⟨hnot.1, hpolicy, hnot.2⟩
  · rename_i hdecision
    simp only [bind_eq_ok, pure_eq_ok] at hselect
    obtain ⟨committed, hcommit, heq⟩ := hselect
    obtain ⟨rfl, rfl⟩ := Prod.mk.inj heq
    refine ⟨prepareCommit_prepares h hcommit, fun _ ↦ ⟨htarget, fun hpolicy ↦ ?_⟩⟩
    unfold stepDecision at hdecision
    split at hdecision
    · rename_i openStep hopen
      split_ifs at hdecision with habove
      have hgreater : openStep < target := by
        rcases habove with hgreater | ⟨-, hallow⟩
        · exact hgreater
        · rw [hpolicy] at hallow
          simp at hallow
      have hnext := Invariant.next_le h hpolicy hopen
      left
      rw [(prepareCommit_last hopen hcommit).2]
      omega
    · split_ifs at hdecision
  · obtain ⟨rfl, rfl⟩ := Prod.mk.inj (Except.ok.inj hselect)
    exact ⟨h, fun hnone ↦ by simp at hnone⟩

/-- A validated or implicit target is a step. -/
theorem resolveStep_bound (h : tracker.Prepares past batch) {step : Option ℤ}
    (hvalid : validateStep step = .ok ()) :
    0 ≤ resolveStep batch.next step ∧ resolveStep batch.next step ≤ STEP_MAX := by
  unfold resolveStep
  cases step with
  | some step =>
    rw [validateStep, reject_ok] at hvalid
    simp only [Option.any_some, Bool.or_eq_true, decide_eq_true_eq, not_or, not_lt,
      not_le] at hvalid
    exact ⟨hvalid.1, hvalid.2.le⟩
  | none =>
    cases hopen : batch.next.openStep with
    | some step => exact ⟨h.open_nonneg step hopen, h.open_bound step hopen⟩
    | none => exact ⟨h.next_nonneg, h.next_bound⟩

theorem prepareLog_prepares (h : tracker.Prepares past batch) {metrics : Metrics}
    {step : Option ℤ} {commit : Option Bool} {observed : ℤ} {result : LogResult}
    (hvalid : validateStep step = .ok ())
    (hlog : tracker.prepareLog metrics step commit observed batch = .ok (result, batch')) :
    tracker.Prepares past batch' := by
  simp only [prepareLog, bind_eq_ok] at hlog
  obtain ⟨⟨rejected, selected⟩, hselect, hlog⟩ := hlog
  obtain ⟨hprepares, hadmissible⟩ :=
    selectStep_prepares h (resolveStep_bound h hvalid) hselect
  cases rejected with
  | some rejected =>
    rw [pure_eq_ok] at hlog
    exact (Prod.mk.inj hlog).2 ▸ hprepares
  | none =>
    have hrow : tracker.Prepares past { selected with next := { selected.next with
        openStep := some (resolveStep batch.next step)
        openMetrics := selected.next.openMetrics.extend metrics } } :=
      Invariant.openRow hprepares (hadmissible rfl) _ _
    dsimp only at hlog
    split at hlog
    · simp only [bind_eq_ok, pure_eq_ok] at hlog
      obtain ⟨committed, hcommit, heq⟩ := hlog
      exact (Prod.mk.inj heq).2 ▸ prepareCommit_prepares hrow hcommit
    · rw [pure_eq_ok] at hlog
      exact (Prod.mk.inj hlog).2 ▸ hrow

theorem prepareSpan_prepares (h : tracker.Prepares past batch) {span : SpanRecord}
    {step : Option ℤ} {result : LogResult} (hvalid : validateStep step = .ok ())
    (hspan : tracker.prepareSpan span step batch = .ok (result, batch')) :
    tracker.Prepares past batch' := by
  simp only [prepareSpan, bind_eq_ok] at hspan
  obtain ⟨⟨rejected, selected⟩, hselect, hspan⟩ := hspan
  obtain ⟨hprepares, hadmissible⟩ :=
    selectStep_prepares h (resolveStep_bound h hvalid) hselect
  cases rejected with
  | some rejected =>
    rw [pure_eq_ok] at hspan
    exact (Prod.mk.inj hspan).2 ▸ hprepares
  | none =>
    rw [pure_eq_ok] at hspan
    exact (Prod.mk.inj hspan).2 ▸ Invariant.openRow hprepares (hadmissible rfl) _ _

theorem prepareTick_prepares (h : tracker.Prepares past batch) (observed : ℤ) :
    tracker.Prepares past (tracker.prepareTick observed batch).2 := by
  have hengine (alerts : AlertEngine) :
      tracker.Prepares past { batch with next := { batch.next with alerts } } :=
    Invariant.congr h rfl rfl rfl rfl rfl rfl
  unfold prepareTick
  dsimp only
  split
  · exact hengine _
  · exact prepareEvent_prepares (hengine _) observed _ []

theorem prepareFinish_prepares (h : tracker.Prepares past batch) {observed : ℤ} {failed : Bool}
    {result : LogResult}
    (hfinish : tracker.prepareFinish observed failed batch = .ok (result, batch')) :
    tracker.Prepares past batch' := by
  simp only [prepareFinish, bind_eq_ok, pure_eq_ok] at hfinish
  obtain ⟨committed, hcommit, heq⟩ := hfinish
  obtain ⟨-, rfl⟩ := Prod.mk.inj heq
  have hcommitted := prepareCommit_prepares h hcommit
  have hstatus (status : TrackerStatus) :
      tracker.Prepares past { committed with next := { committed.next with status } } :=
    Invariant.congr hcommitted rfl rfl rfl rfl rfl rfl
  exact Invariant.congr (prepareEvent_prepares (hstatus _) observed [] []) rfl rfl rfl rfl rfl rfl

/-- Every call that prepares a batch keeps the invariant. -/
theorem prepareCall_prepares (h : tracker.Prepares past batch) {call : Call} {result : LogResult}
    (hvalid : validateCall call = .ok ())
    (hcall : tracker.prepareCall batch call = .ok (result, batch')) :
    tracker.Prepares past batch' := by
  cases call with
  | log metrics step commit observed =>
    simp only [validateCall, bind_eq_ok, exists_unit] at hvalid
    obtain ⟨-, -, -, hstep⟩ := hvalid
    simp only [prepareCall, bind_eq_ok] at hcall
    obtain ⟨metrics', -, hlog⟩ := hcall
    exact prepareLog_prepares h hstep hlog
  | flush observed =>
    simp only [prepareCall, bind_eq_ok, pure_eq_ok] at hcall
    obtain ⟨committed, hcommit, heq⟩ := hcall
    exact (Prod.mk.inj heq).2 ▸ prepareCommit_prepares h hcommit
  | recordSpan span step =>
    simp only [validateCall, bind_eq_ok, exists_unit] at hvalid
    exact prepareSpan_prepares h hvalid.2 hcall
  | manualAlert title text level tags channels observed =>
    rw [prepareCall, Except.ok.injEq] at hcall
    exact (Prod.mk.inj hcall).2 ▸ prepareEvent_prepares h observed _ []
  | artifact artifact observed =>
    rw [prepareCall, Except.ok.injEq] at hcall
    exact (Prod.mk.inj hcall).2 ▸ prepareEvent_prepares h observed [] _
  | tickAlerts observed =>
    rw [prepareCall, Except.ok.injEq] at hcall
    have hbatch : (tracker.prepareTick observed batch).2 = batch' := congrArg Prod.snd hcall
    exact hbatch ▸ prepareTick_prepares h observed
  | finishStatus observed failed => exact prepareFinish_prepares h hcall

end Tracker

end Rvx.Tracking
