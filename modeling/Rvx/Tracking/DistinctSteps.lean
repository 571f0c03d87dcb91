import Mathlib.Data.List.DropRight
import Rvx.Tracking.StepMachine

/-!
# Persistence over distinct steps

A rule that must hold for several steps counts committed steps.  The counter only remembers the
step it counted last, so what it counts are distinct steps as long as no step is evaluated again
after another one.  Under the monotonic policy none is; under the other policy a tracker commits
steps in any order, and a rule can fire on fewer steps than it asks for.
-/

namespace Rvx.Tracking

open Core Check AlertEngine

/-- The committed steps evaluated true since the last evaluation that was false, in order. -/
def trueSteps (past : List (Option ℤ × Evaluation)) : List ℤ :=
  (past.rtakeWhile fun traced ↦ traced.2.truth ≠ .no).filterMap fun traced ↦
    if traced.2.truth = .yes then traced.1 else none

/-- A step that occurs again follows itself. -/
def Returnless (steps : List ℤ) : Prop :=
  ∀ early step late, steps = early ++ step :: late → step ∈ early → early.getLast? = some step

/-- The orders in which a policy lets steps be committed. -/
def StepPolicy.Permits : StepPolicy → List ℤ → Prop
  | .monotonic, steps => steps.Pairwise (· ≤ ·)
  | .allow, _ => True

theorem trueSteps_no {past : List (Option ℤ × Evaluation)} {traced : Option ℤ × Evaluation}
    (h : traced.2.truth = .no) : trueSteps (past ++ [traced]) = [] := by
  rw [trueSteps, List.rtakeWhile_concat_neg _ _ _ (by simp [h]), List.filterMap_nil]

theorem trueSteps_unknown {past : List (Option ℤ × Evaluation)} {traced : Option ℤ × Evaluation}
    (h : traced.2.truth = .unknown) : trueSteps (past ++ [traced]) = trueSteps past := by
  rw [trueSteps, List.rtakeWhile_concat_pos _ _ _ (by simp [h]), List.filterMap_append]
  simp [trueSteps, h]

theorem trueSteps_yes {past : List (Option ℤ × Evaluation)} {traced : Option ℤ × Evaluation}
    (h : traced.2.truth = .yes) :
    trueSteps (past ++ [traced]) = trueSteps past ++ traced.1.toList := by
  rw [trueSteps, List.rtakeWhile_concat_pos _ _ _ (by simp [h]), List.filterMap_append]
  cases hstep : traced.1 <;> simp [trueSteps, h, hstep]

/-- The counted steps are committed ones. -/
theorem trueSteps_sublist (past : List (Option ℤ × Evaluation)) :
    (trueSteps past).Sublist (past.filterMap Prod.fst) := by
  induction past using List.reverseRecOn with
  | nil => exact List.nil_sublist _
  | append_singleton past traced ih =>
    rw [List.filterMap_append]
    cases htruth : traced.2.truth with
    | no =>
      rw [trueSteps_no htruth]
      exact List.nil_sublist _
    | unknown =>
      rw [trueSteps_unknown htruth]
      exact ih.trans (List.sublist_append_left _ _)
    | yes =>
      rw [trueSteps_yes htruth]
      apply ih.append
      cases hstep : traced.1 <;> simp [hstep]

/-! ## Steps that do not return -/

theorem Returnless.of_append {steps later : List ℤ} (h : Returnless (steps ++ later)) :
    Returnless steps := by
  intro early step late hsplit hmem
  exact h early step (late ++ later) (by simp [hsplit]) hmem

/-- Steps in ascending order do not return. -/
theorem returnless_of_ascending {steps : List ℤ} (h : steps.Pairwise (· ≤ ·)) :
    Returnless steps := by
  intro early step late hsplit hmem
  rw [hsplit, List.pairwise_append] at h
  obtain ⟨hearly, -, hacross⟩ := h
  cases early using List.reverseRecOn with
  | nil => simp at hmem
  | append_singleton before last =>
    have hle : last ≤ step := hacross last (by simp) step List.mem_cons_self
    have hge : step ≤ last := by
      rcases List.mem_append.mp hmem with hbefore | hlast
      · exact (List.pairwise_append.mp hearly).2.2 step hbefore last (by simp)
      · exact (List.mem_singleton.mp hlast).le
    simp [le_antisymm hle hge]

theorem Returnless.card_concat {steps : List ℤ} {step : ℤ} (h : Returnless (steps ++ [step]))
    (hlast : steps.getLast? ≠ some step) :
    (steps ++ [step]).toFinset.card = steps.toFinset.card + 1 := by
  have hfresh : step ∉ steps := fun hmem ↦ hlast (h steps step [] rfl hmem)
  have hinsert : (steps ++ [step]).toFinset = insert step steps.toFinset := by
    ext other
    simp
  rw [hinsert, Finset.card_insert_of_notMem (by simpa using hfresh)]

/-! ## The counter -/

/-- How the counter of a rule summarises the evaluations so far. -/
structure Counts (past : List (Option ℤ × Evaluation)) (state : RuleState) : Prop where
  last : trueSteps past ≠ [] → state.lastStep = (trueSteps past).getLast?
  distinct : Returnless (trueSteps past) → state.consecutive ≤ (trueSteps past).toFinset.card

theorem counts_init : Counts [] .init where
  last := by simp [trueSteps]
  distinct := by simp [trueSteps, RuleState.init]

theorem Counts.congr {past : List (Option ℤ × Evaluation)} {state state' : RuleState}
    (h : Counts past state) (hconsecutive : state'.consecutive = state.consecutive)
    (hlast : state'.lastStep = state.lastStep) : Counts past state' where
  last hsteps := hlast.trans (h.last hsteps)
  distinct hreturnless := hconsecutive ▸ h.distinct hreturnless

/-- A true evaluation counts its step. -/
theorem counts_yes {past : List (Option ℤ × Evaluation)} {state : RuleState}
    {evaluation : Evaluation} (h : Counts past state) (htruth : evaluation.truth = .yes)
    (tick : Bool) (step : ℤ) :
    Counts (past ++ [(committedStep tick step, evaluation)]) (countStep tick step state) := by
  cases tick with
  | true =>
    have hsteps : trueSteps (past ++ [(committedStep true step, evaluation)]) = trueSteps past := by
      rw [trueSteps_yes htruth]
      exact List.append_nil _
    constructor
    · rw [hsteps]
      exact h.last
    · rw [hsteps]
      exact h.distinct
  | false =>
    have hsteps : trueSteps (past ++ [(committedStep false step, evaluation)]) =
        trueSteps past ++ [step] := trueSteps_yes htruth
    by_cases hsame : state.lastStep = some step
    · have hstate : countStep false step state = state := by simp [countStep, hsame]
      rw [hstate]
      constructor
      · simp [hsteps, hsame]
      · intro hreturnless
        rw [hsteps] at hreturnless ⊢
        refine (h.distinct hreturnless.of_append).trans (Finset.card_le_card ?_)
        intro other hother
        simp_all
    · have hstate : countStep false step state = { state with
          consecutive := min (state.consecutive + 1) U64_MAX, lastStep := some step } := by
        simp [countStep, hsame]
      rw [hstate]
      constructor
      · simp [hsteps]
      · intro hreturnless
        rw [hsteps] at hreturnless ⊢
        have hlast : (trueSteps past).getLast? ≠ some step := by
          intro heq
          have hsome : trueSteps past ≠ [] := by
            rintro hnil
            simp [hnil] at heq
          exact hsame ((h.last hsome).trans heq)
        rw [hreturnless.card_concat hlast]
        have hcount := h.distinct hreturnless.of_append
        dsimp only
        omega

/-- The step lemma: a fire of a rule for several steps has counted enough distinct ones, and the
new state goes on counting. -/
theorem advance_counts {rule : AlertRule} {past : List (Option ℤ × Evaluation)} {state : RuleState}
    {evaluation : Evaluation} {tick : Bool} {step : ℤ} (h : Counts past state)
    (hsteps : 2 ≤ rule.forSteps) (hfollows : evaluation.Follows rule
      (advance rule tick step evaluation.observedAtNs evaluation.truth state).2) :
    (evaluation.fired = true →
        Returnless (trueSteps (past ++ [(committedStep tick step, evaluation)])) →
        rule.forSteps ≤
          (trueSteps (past ++ [(committedStep tick step, evaluation)])).toFinset.card) ∧
      Counts (past ++ [(committedStep tick step, evaluation)])
        (advance rule tick step evaluation.observedAtNs evaluation.truth state).1 := by
  have hfired := hfollows.fired
  cases htruth : evaluation.truth with
  | unknown =>
    rw [htruth] at hfired
    refine ⟨fun hfire ↦ by simp [hfire, advance] at hfired, ?_⟩
    constructor
    · rw [trueSteps_unknown htruth]
      exact h.last
    · rw [trueSteps_unknown htruth]
      exact h.distinct
  | no =>
    rw [htruth] at hfired
    refine ⟨fun hfire ↦ ?_, ?_⟩
    · simp only [hfire, advance] at hfired
      split at hfired <;> simp at hfired
    · have hnone : trueSteps (past ++ [(committedStep tick step, evaluation)]) = [] :=
        trueSteps_no htruth
      constructor <;> simp [hnone, advance]
  | yes =>
    rw [htruth] at hfired
    have hcounts := counts_yes h htruth tick step
    simp only [advance] at hfired ⊢
    split at hfired
    · rename_i hcan
      rw [if_pos hcan]
      refine ⟨fun _ hreturnless ↦ ?_, hcounts.congr rfl rfl⟩
      rcases (canFire_iff.mp hcan).1 with henough | ⟨-, hone⟩
      · exact henough.trans (hcounts.distinct hreturnless)
      · omega
    · rename_i hcan
      rw [if_neg hcan]
      exact ⟨fun hfire ↦ by simp [hfire] at hfired, hcounts.congr rfl rfl⟩

namespace AlertEngine

/-- The committed steps of a run of inputs. -/
def committedSteps (inputs : List ReplayInput) : List ℤ :=
  inputs.filterMap fun
    | .step step _ _ => some step
    | .tick _ _ => none

/-- Every committed step evaluates a rule at most once. -/
theorem steps_traced (text : FloatText) (name : String) (engine : AlertEngine)
    (inputs : List ReplayInput) :
    ((engine.traced text name inputs).filterMap Prod.fst).Sublist (committedSteps inputs) := by
  induction inputs generalizing engine with
  | nil => exact List.nil_sublist _
  | cons input rest ih =>
    rw [traced, List.filterMap_append, committedSteps, ← List.singleton_append,
      List.filterMap_append]
    refine List.Sublist.append ?_ (ih _)
    cases engine.evaluationOf text name input with
    | none => exact List.nil_sublist _
    | some evaluation => cases input <;> exact List.Sublist.refl _

/-- In every run whose true steps do not return, a rule for several steps fires only after so many
distinct committed steps were evaluated true since the last false evaluation.  Under the monotonic
policy no step returns. -/
theorem distinct_steps {rules : List AlertRule} {startedAtNs : ℤ} {capacity : ℕ}
    {engine : AlertEngine} (hnew : AlertEngine.new rules startedAtNs capacity = .ok engine)
    {rule : AlertRule} (hrule : rule ∈ rules) (hsteps : 2 ≤ rule.forSteps) (text : FloatText)
    {policy : StepPolicy} {inputs : List ReplayInput}
    (hpermits : policy.Permits (committedSteps inputs))
    {before after : List (Option ℤ × Evaluation)} {evaluation : Option ℤ × Evaluation}
    (hsplit : engine.traced text rule.name inputs = before ++ evaluation :: after)
    (hfired : evaluation.2.fired = true)
    (hreturnless : policy = .allow → Returnless (trueSteps (before ++ [evaluation]))) :
    rule.forSteps ≤ (trueSteps (before ++ [evaluation])).toFinset.card := by
  obtain ⟨hnodup, hall⟩ := rules_new hnew
  obtain ⟨compiled, hmem, hcompiled, hstate, -⟩ := hall rule hrule
  obtain ⟨hfires, -⟩ := traced_spec Counts
    (fun past evaluation ↦ evaluation.2.fired = true →
      Returnless (trueSteps (past ++ [evaluation])) →
        rule.forSteps ≤ (trueSteps (past ++ [evaluation])).toFinset.card)
    (fun h hfollows ↦ advance_counts h hsteps hfollows)
    inputs [] hnodup hmem hcompiled (by rw [hstate]; exact counts_init)
  have hreturn : Returnless (trueSteps (before ++ [evaluation])) := by
    cases policy with
    | allow => exact hreturnless rfl
    | monotonic =>
      apply returnless_of_ascending
      have hcommitted := steps_traced text rule.name engine inputs
      rw [hsplit, ← List.singleton_append, ← List.append_assoc, List.filterMap_append] at hcommitted
      have hprefix := (List.sublist_append_left _ _).trans hcommitted
      exact hpermits.sublist ((trueSteps_sublist _).trans hprefix)
  simpa using hfires before evaluation after hsplit hfired (by simpa using hreturn)

section Sample

/-- A rule that asks for several steps. -/
def persistentRule (forSteps : ℕ) : AlertRule :=
  { sampleRule with name := "persistent", forSteps }

/-- A metric that is there at every step of a list. -/
def presentAt (steps : List ℤ) : List ReplayInput :=
  steps.map fun step ↦ .step step step (.ofList [("loss", .int 1)])

theorem distinct_steps_sample : ∃ engine before evaluation,
    AlertEngine.new [persistentRule 3] 0 10 = .ok engine ∧
      engine.traced sampleText "persistent" (presentAt [1, 1, 2, 3]) = before ++ [evaluation] ∧
      evaluation.2.fired = true ∧ 3 ≤ (trueSteps (before ++ [evaluation])).toFinset.card := by
  have hrun : ((AlertEngine.new [persistentRule 3] 0 10).toOption.bind fun engine ↦
      ((engine.traced sampleText "persistent" (presentAt [1, 1, 2, 3])).getLast?.map
        fun evaluation ↦ evaluation.2.fired)) = some true := by decide +kernel
  obtain ⟨engine, hnew, hlast⟩ := Option.bind_eq_some_iff.mp hrun
  obtain ⟨evaluation, hlast, hfired⟩ := Option.map_eq_some_iff.mp hlast
  obtain ⟨before, hsplit⟩ := List.getLast?_eq_some_iff.mp hlast
  have hnew := toOption_eq_some.mp hnew
  have hpermits : StepPolicy.monotonic.Permits (committedSteps (presentAt [1, 1, 2, 3])) := by
    simp [StepPolicy.Permits, committedSteps, presentAt]
  refine ⟨engine, before, evaluation, hnew, hsplit, hfired, ?_⟩
  exact distinct_steps hnew (List.mem_singleton_self (persistentRule 3)) (by decide) sampleText
    hpermits hsplit hfired (by simp)

/-- A tracker that lets steps be committed in any order. -/
def unorderedOptions : TrackerOptions := { TrackerOptions.default with stepPolicy := .allow }

/-- A step that is committed again after another one is counted twice: the rule for three steps
fires after two distinct ones.  A tracker that allows any order of steps commits such a run. -/
theorem returning_step_counts_twice :
    (∃ engine before evaluation,
      AlertEngine.new [persistentRule 3] 0 10 = .ok engine ∧
        StepPolicy.allow.Permits (committedSteps (presentAt [1, 2, 1])) ∧
        engine.traced sampleText "persistent" (presentAt [1, 2, 1]) = before ++ [evaluation] ∧
        evaluation.2.fired = true ∧
        (trueSteps (before ++ [evaluation])).toFinset.card < (persistentRule 3).forSteps) ∧
      ∃ tracker state session,
        Tracker.new Tracker.sampleProducer (.literal []) unorderedOptions sampleText
            [persistentRule 3] 0 = .ok (tracker, state) ∧
          tracker.run ([1, 2, 1].map (Tracker.sampleCommit "loss")) (.start state) = some session ∧
          (observations session.records).map CommittedStep.step = [1, 2, 1] ∧
          (session.records.flatMap TrackerRecord.alerts).map AlertEvent.rule = ["persistent"] := by
  constructor
  · have hrun : ((AlertEngine.new [persistentRule 3] 0 10).toOption.bind fun engine ↦
        ((engine.traced sampleText "persistent" (presentAt [1, 2, 1])).getLast?.map
          fun evaluation ↦ (evaluation.2.fired, (trueSteps
            (engine.traced sampleText "persistent" (presentAt [1, 2, 1]))).toFinset.card))) =
        some (true, 2) := by decide +kernel
    obtain ⟨engine, hnew, hlast⟩ := Option.bind_eq_some_iff.mp hrun
    obtain ⟨evaluation, hlast, hviews⟩ := Option.map_eq_some_iff.mp hlast
    obtain ⟨hfired, hcard⟩ := Prod.mk.inj hviews
    obtain ⟨before, hsplit⟩ := List.getLast?_eq_some_iff.mp hlast
    refine ⟨engine, before, evaluation, toOption_eq_some.mp hnew, trivial, hsplit, hfired, ?_⟩
    rw [← hsplit, hcard]
    decide
  · have hrun : ((Tracker.new Tracker.sampleProducer (.literal []) unorderedOptions sampleText
        [persistentRule 3] 0).toOption.bind fun (tracker, state) ↦
          (tracker.run ([1, 2, 1].map (Tracker.sampleCommit "loss")) (.start state)).map
            fun session ↦ ((observations session.records).map CommittedStep.step,
              (session.records.flatMap TrackerRecord.alerts).map AlertEvent.rule)) =
        some ([1, 2, 1], ["persistent"]) := by decide +kernel
    obtain ⟨⟨tracker, state⟩, hnew, hrun⟩ := Option.bind_eq_some_iff.mp hrun
    obtain ⟨session, hrun, hviews⟩ := Option.map_eq_some_iff.mp hrun
    obtain ⟨hsteps, halerts⟩ := Prod.mk.inj hviews
    exact ⟨tracker, state, session, toOption_eq_some.mp hnew, hrun, hsteps, halerts⟩

end Sample

end AlertEngine

namespace Tracker

/-- The steps a tracker commits come in an order its policy permits. -/
theorem Determined.permits {tracker : Tracker} {commits : List CommittedStep} {state : TrackerState}
    (h : tracker.Determined commits state) :
    tracker.options.stepPolicy.Permits (commits.map CommittedStep.step) := by
  cases hpolicy : tracker.options.stepPolicy with
  | monotonic => exact h.nondecreasing hpolicy
  | allow => trivial

end Tracker

end Rvx.Tracking
