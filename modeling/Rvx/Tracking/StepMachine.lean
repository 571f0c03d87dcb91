import Rvx.Tracking.Atomicity

/-!
# The step machine

What the committed steps determine in every state a run of calls reaches: the step cursor, the
summary and the retained history with its budgets.
-/

namespace Rvx.Tracking.Tracker

open Core Check

/-- The cursor, the summary and the history of a state, as the commits before it determine them. -/
structure Determined (tracker : Tracker) (commits : List CommittedStep) (state : TrackerState) :
    Prop where
  nondecreasing : tracker.options.stepPolicy = .monotonic →
    (commits.map CommittedStep.step).Pairwise (· ≤ ·)
  /-- The cursor is one above the highest committed step. -/
  cursor : (commits = [] ∧ state.nextStep = 0) ∨
    IsGreatest {step | step ∈ commits.map CommittedStep.step} (state.nextStep - 1)
  increasing : tracker.options.stepPolicy = .monotonic → state.history.steps.Pairwise (· < ·)
  nodup : state.history.steps.Nodup
  origin : ∀ entry ∈ state.history.entries, Origin tracker.floats tracker.options commits entry
  summary : state.summary = unionMetrics commits
  bytes : state.history.bytes = (state.history.entries.map HistoryEntry.bytes).sum
  sizes : ∀ entry ∈ state.history.entries,
    entry.bytes = String.utf8Len (entry.record.chars tracker.floats)
  bytes_le : state.history.bytes ≤ tracker.options.maxHistoryBytes
  length_le : state.history.entries.length ≤ tracker.options.historySteps

variable {tracker : Tracker} {records : List TrackerRecord} {state : TrackerState}

/-- The highest committed step is the one below the cursor. -/
theorem Invariant.cursor (h : tracker.Invariant records state) :
    (observations records = [] ∧ state.nextStep = 0) ∨
      IsGreatest {step | step ∈ (observations records).map CommittedStep.step}
        (state.nextStep - 1) := by
  have hupper : state.nextStep - 1 ∈
      upperBounds {step | step ∈ (observations records).map CommittedStep.step} := by
    intro step hstep
    obtain ⟨commit, hcommit, rfl⟩ := List.mem_map.mp hstep
    have hbelow := (h.below commit hcommit).2
    omega
  rcases h.reached with hzero | ⟨commit, hcommit, hnext⟩
  · left
    refine ⟨List.eq_nil_iff_forall_not_mem.mpr fun commit hcommit ↦ ?_, hzero⟩
    obtain ⟨hlow, hhigh⟩ := h.below commit hcommit
    omega
  · right
    have hstep : state.nextStep - 1 = commit.step := by omega
    exact ⟨hstep ▸ List.mem_map_of_mem hcommit, hupper⟩

theorem Invariant.determined (h : tracker.Invariant records state) :
    tracker.Determined (observations records) state where
  nondecreasing := h.ascending
  cursor := h.cursor
  increasing hpolicy := h.retained.ascending (h.ascending hpolicy)
  nodup := h.retained.nodup
  origin := h.retained.origin
  summary := h.summary
  bytes := h.retained.bytes
  sizes := h.retained.sizes
  bytes_le := h.retained.bytes_le
  length_le := h.retained.length_le

/-- Every run of a tracker ends in a state that its committed records determine. -/
theorem step_machine {producer : Snapshots.SnapshotProducer} {config : Json}
    {options : TrackerOptions} {floats : FloatText} {rules : List AlertRule} {time : ℤ}
    {tracker : Tracker} {state : TrackerState}
    (hnew : Tracker.new producer config options floats rules time = .ok (tracker, state))
    (actions : List Action) :
    ∃ session, tracker.run actions (.start state) = some session ∧
      tracker.Determined (observations session.records) session.state := by
  obtain ⟨session, hrun, hsound⟩ := run_sound (start_new hnew) actions
  exact ⟨session, hrun, hsound.state.determined⟩

section Sample

/-- A tracker that retains two steps. -/
def sampleOptions : TrackerOptions := { TrackerOptions.default with historySteps := 2 }

def sampleCommit (name : String) (step : ℤ) : Action :=
  .call (fun _ ↦ step) (.log (.literal [(name, .int step)]) (some step) (some true) step)

/-- A step that is patched, a step behind it and two steps that fill the history. -/
def sampleSteps : List Action :=
  [sampleCommit "loss" 3, sampleCommit "accuracy" 3, sampleCommit "loss" 2, sampleCommit "loss" 5,
   sampleCommit "loss" 7]

theorem step_machine_sample : ∃ tracker state session,
    Tracker.new sampleProducer (.literal []) sampleOptions AlertEngine.sampleText [] 0 =
        .ok (tracker, state) ∧
      tracker.run sampleSteps (.start state) = some session ∧
      (observations session.records).map CommittedStep.step = [3, 3, 5, 7] ∧
      session.state.history.steps = [5, 7] ∧
      tracker.Determined (observations session.records) session.state := by
  have hsample : ((Tracker.new sampleProducer (.literal []) sampleOptions AlertEngine.sampleText [] 0
      ).toOption.bind fun (tracker, state) ↦ (tracker.run sampleSteps (.start state)).map
        fun session ↦ ((observations session.records).map CommittedStep.step,
          session.state.history.steps)) = some ([3, 3, 5, 7], [5, 7]) := by decide +kernel
  obtain ⟨⟨tracker, state⟩, hnew, hrun⟩ := Option.bind_eq_some_iff.mp hsample
  obtain ⟨session, hrun, hviews⟩ := Option.map_eq_some_iff.mp hrun
  obtain ⟨hsteps, hretained⟩ := Prod.mk.inj hviews
  have hnew := toOption_eq_some.mp hnew
  obtain ⟨reached, hreached, hdetermined⟩ := step_machine hnew sampleSteps
  obtain rfl : reached = session := Option.some.inj (hreached.symm.trans hrun)
  exact ⟨tracker, state, reached, hnew, hrun, hsteps, hretained, hdetermined⟩

end Sample

end Rvx.Tracking.Tracker
