import Rvx.Tracking.AlertEngine

/-!
# Runs of an alert rule

The evaluations of one rule over a run of steps and ticks, and what the persistence, cooldown and
fire limits guarantee about them.  Each evaluation is justified by the ones before it: the state a
rule carries from one evaluation to the next summarises just enough of them.
-/

namespace Rvx.Tracking

open Core Check

inductive ReplayInput where
  | step (step observedAtNs : ℤ) (metrics : Metrics)
  | tick (step observedAtNs : ℤ)

/-- One evaluation of a rule, with the events of the rule it pushed. -/
structure Evaluation where
  observedAtNs : ℤ
  truth : Tri
  events : List AlertEvent

namespace Evaluation

def fired (evaluation : Evaluation) : Bool := evaluation.events.any fun event ↦ !event.recovered

def recovered (evaluation : Evaluation) : Bool := evaluation.events.any AlertEvent.recovered

end Evaluation

namespace AlertEngine

def inputContext (engine : AlertEngine) : ReplayInput → EvalContext
  | .step step observedAtNs metrics => engine.stepContext step observedAtNs metrics
  | .tick step observedAtNs => engine.tickContext step observedAtNs

def update (text : FloatText) (engine : AlertEngine) : ReplayInput → AlertUpdate
  | .step step observedAtNs metrics => engine.prepareStep text step observedAtNs metrics
  | .tick step observedAtNs => engine.prepareTick text step observedAtNs

/-- The evaluation of the named rule an input causes, if there is one. -/
def evaluationOf (text : FloatText) (engine : AlertEngine) (name : String) (input : ReplayInput) :
    Option Evaluation :=
  (engine.rules.find? fun compiled ↦ compiled.rule.name = name).bind fun compiled ↦
    (truthOf (engine.inputContext input) compiled).map fun truth ↦
      { observedAtNs := (engine.inputContext input).observedAtNs
        truth
        events := (engine.update text input).events.filter fun event ↦ event.rule = name }

/-- The committed step an evaluation belongs to; a tick commits none. -/
def committedStep (tick : Bool) (step : ℤ) : Option ℤ := if tick then none else some step

/-- The evaluations of the named rule over a run, each update applied before the next input. -/
def evaluations (text : FloatText) (name : String) :
    AlertEngine → List ReplayInput → List Evaluation
  | _, [] => []
  | engine, input :: rest =>
    (engine.evaluationOf text name input).toList ++
      evaluations text name (engine.apply (engine.update text input)) rest

/-- The same evaluations, each with the committed step it belongs to. -/
def traced (text : FloatText) (name : String) :
    AlertEngine → List ReplayInput → List (Option ℤ × Evaluation)
  | _, [] => []
  | engine, input :: rest =>
    (engine.evaluationOf text name input).toList.map (Prod.mk (committedStep
        (engine.inputContext input).tick (engine.inputContext input).step)) ++
      traced text name (engine.apply (engine.update text input)) rest

theorem map_snd_traced {text : FloatText} {name : String} {engine : AlertEngine}
    {inputs : List ReplayInput} :
    (engine.traced text name inputs).map Prod.snd = engine.evaluations text name inputs := by
  induction inputs generalizing engine with
  | nil => rfl
  | cons input rest ih =>
    rw [traced, List.map_append, ih, evaluations, List.map_map]
    exact congrArg (· ++ _) (List.map_id _)

end AlertEngine

/-! ## Justified evaluations -/

/-- What the evaluations before it must have been for an evaluation to fire or to recover. -/
structure Justified (rule : AlertRule) (past : List Evaluation) (evaluation : Evaluation) :
    Prop where
  edge : rule.mode = .edge → evaluation.fired = true →
    ∀ early first middle, past = early ++ first :: middle → first.fired = true →
      ∃ other ∈ middle, other.truth = .no
  recovery : evaluation.recovered = true →
    ∃ early fire late, past = early ++ fire :: late ∧ fire.fired = true ∧
      ∀ other ∈ late, other.recovered = false
  cooldown : evaluation.fired = true → ∀ other ∈ past, other.fired = true →
    (rule.cooldownSeconds : ℤ) * 1000000000 ≤ evaluation.observedAtNs - other.observedAtNs
  duration : evaluation.fired = true →
    ∃ early since, past ++ [evaluation] = early ++ since ∧
      (∀ other ∈ since, other.truth = .yes) ∧
      ∃ first, since.head? = some first ∧
        first.observedAtNs ≤ evaluation.observedAtNs - (rule.forDurationMs : ℤ) * 1000000

/-- How the state of a rule summarises the evaluations so far. -/
structure Tracks (rule : AlertRule) (past : List Evaluation) (state : RuleState) : Prop where
  firing : state.firing = true →
    ∃ early fire late, past = early ++ fire :: late ∧ fire.fired = true ∧
      ∀ other ∈ late, other.recovered = false
  resting : state.firing = false → ∀ early first middle, past = early ++ first :: middle →
    first.fired = true → ∃ other ∈ middle, other.truth = .no
  fires : state.fires = min (past.countP Evaluation.fired) U64_MAX
  lastFire : ∀ other ∈ past, other.fired = true →
    ∃ last, state.lastFireNs = some last ∧ other.observedAtNs ≤ last
  since : ∀ start, state.sinceNs = some start → ∃ early since, past = early ++ since ∧
    (∀ other ∈ since, other.truth = .yes) ∧ since.head?.map Evaluation.observedAtNs = some start
  limit : ∀ limit, rule.maxFires = some limit → past.countP Evaluation.fired ≤ limit.toNat

theorem tracks_init (rule : AlertRule) : Tracks rule [] .init where
  firing := by simp [RuleState.init]
  resting := by simp
  fires := rfl
  lastFire := by simp
  since := by simp [RuleState.init]
  limit := by simp

/-! ## Clock arithmetic -/

/-- A bound that does not saturate is met by the exact difference as well. -/
theorem le_of_saturate_le {bound difference : ℤ} (hlow : 0 ≤ bound) (hhigh : bound < 2 ^ 63)
    (h : saturate bound ≤ saturate difference) : bound ≤ difference := by
  unfold saturate at h
  omega

/-- The persistence limits a rule is accepted with. -/
structure Bounded (rule : AlertRule) : Prop where
  duration : rule.forDurationMs ≤ 86400000
  cooldown : rule.cooldownSeconds ≤ 31536000

/-! ## One evaluation -/

section Advance

variable {rule : AlertRule} {past : List Evaluation} {state : RuleState}
  {evaluation : Evaluation}

/-- Splitting a history at one of its evaluations, the last one or an earlier one. -/
theorem split_snoc {early middle : List Evaluation} {first : Evaluation}
    (h : past ++ [evaluation] = early ++ first :: middle) :
    (past = early ∧ evaluation = first ∧ middle = []) ∨
      ∃ rest, middle = rest ++ [evaluation] ∧ past = early ++ first :: rest := by
  cases middle using List.reverseRecOn with
  | nil =>
    obtain ⟨hpast, hlast⟩ := List.append_inj' h rfl
    exact Or.inl ⟨hpast, by simpa using hlast, rfl⟩
  | append_singleton rest last =>
    rw [← List.cons_append, ← List.append_assoc] at h
    obtain ⟨hpast, hlast⟩ := List.append_inj' h rfl
    obtain rfl : evaluation = last := by simpa using hlast
    exact Or.inr ⟨rest, rfl, hpast⟩

/-- An evaluation that does not fire leaves the fires of the history as they were. -/
theorem countP_quiet (hfired : evaluation.fired = false) :
    (past ++ [evaluation]).countP Evaluation.fired = past.countP Evaluation.fired := by
  simp [hfired]

theorem countP_fire (hfired : evaluation.fired = true) :
    (past ++ [evaluation]).countP Evaluation.fired = past.countP Evaluation.fired + 1 := by
  simp [hfired]

/-- Without a fire the last fire stays the latest. -/
theorem Tracks.lastFire_quiet (h : Tracks rule past state) (hfired : evaluation.fired = false) :
    ∀ other ∈ past ++ [evaluation], other.fired = true →
      ∃ last, state.lastFireNs = some last ∧ other.observedAtNs ≤ last := by
  intro other hother hfire
  rcases List.mem_append.mp hother with hpast | hlast
  · exact h.lastFire other hpast hfire
  · rw [List.mem_singleton.mp hlast, hfired] at hfire
    exact absurd hfire Bool.false_ne_true

/-- A fire stays the last one while nothing recovers. -/
theorem Tracks.firing_quiet (h : Tracks rule past state) (hrecovered : evaluation.recovered = false)
    (hfiring : state.firing = true) :
    ∃ early fire late, past ++ [evaluation] = early ++ fire :: late ∧ fire.fired = true ∧
      ∀ other ∈ late, other.recovered = false := by
  obtain ⟨early, fire, late, rfl, hfire, hlate⟩ := h.firing hfiring
  refine ⟨early, fire, late ++ [evaluation], by simp, hfire, ?_⟩
  intro other hother
  rcases List.mem_append.mp hother with hmem | hlast
  · exact hlate other hmem
  · rw [List.mem_singleton.mp hlast, hrecovered]

/-- A rested rule stays rested while it does not fire. -/
theorem Tracks.resting_quiet (h : Tracks rule past state) (hfired : evaluation.fired = false)
    (hfiring : state.firing = false) :
    ∀ early first middle, past ++ [evaluation] = early ++ first :: middle → first.fired = true →
      ∃ other ∈ middle, other.truth = .no := by
  intro early first middle hsplit hfirst
  rcases split_snoc hsplit with ⟨-, rfl, -⟩ | ⟨rest, rfl, hpast⟩
  · rw [hfired] at hfirst
    exact absurd hfirst Bool.false_ne_true
  · obtain ⟨other, hother, htruth⟩ := h.resting hfiring early first rest hpast hfirst
    exact ⟨other, List.mem_append_left _ hother, htruth⟩

/-- An evaluation that neither fires nor recovers needs no justification. -/
theorem justified_quiet (hfired : evaluation.fired = false)
    (hrecovered : evaluation.recovered = false) : Justified rule past evaluation := by
  constructor <;> simp [hfired, hrecovered]

/-- An unknown truth value only interrupts the duration. -/
theorem tracks_unknown (h : Tracks rule past state) (hfired : evaluation.fired = false)
    (hrecovered : evaluation.recovered = false) :
    Tracks rule (past ++ [evaluation]) { state with sinceNs := none } where
  firing := h.firing_quiet hrecovered
  resting := h.resting_quiet hfired
  fires := by rw [countP_quiet hfired, ← h.fires]
  lastFire := h.lastFire_quiet hfired
  since := by simp
  limit := by
    rw [countP_quiet hfired]
    exact h.limit

/-- A false evaluation rests the rule. -/
theorem tracks_no (h : Tracks rule past state) (hfired : evaluation.fired = false)
    (htruth : evaluation.truth = .no) :
    Tracks rule (past ++ [evaluation])
      { state with consecutive := 0, sinceNs := none, firing := false } where
  firing := by simp
  resting := by
    intro _ early first middle hsplit hfirst
    rcases split_snoc hsplit with ⟨-, rfl, -⟩ | ⟨rest, rfl, -⟩
    · rw [hfired] at hfirst
      exact absurd hfirst Bool.false_ne_true
    · exact ⟨evaluation, by simp, htruth⟩
  fires := by rw [countP_quiet hfired, ← h.fires]
  lastFire := h.lastFire_quiet hfired
  since := by simp
  limit := by
    rw [countP_quiet hfired]
    exact h.limit

/-- The evaluations a true one extends, from the start of the duration on. -/
theorem Tracks.run (h : Tracks rule past state) (htruth : evaluation.truth = .yes) :
    ∃ early since, past ++ [evaluation] = early ++ since ∧ (∀ other ∈ since, other.truth = .yes) ∧
      since.head?.map Evaluation.observedAtNs =
        some (state.sinceNs.getD evaluation.observedAtNs) := by
  cases hsince : state.sinceNs with
  | none => exact ⟨past, [evaluation], rfl, by simpa using htruth, rfl⟩
  | some start =>
    obtain ⟨early, since, rfl, hall, hhead⟩ := h.since start hsince
    refine ⟨early, since ++ [evaluation], by simp, ?_, ?_⟩
    · intro other hother
      rcases List.mem_append.mp hother with hmem | hlast
      · exact hall other hmem
      · rw [List.mem_singleton.mp hlast, htruth]
    · cases since with
      | nil => simp at hhead
      | cons first rest => simpa using hhead

/-- Counting a step touches neither the fires nor the duration. -/
theorem countStep_eq (tick : Bool) (step : ℤ) (state : RuleState) :
    ∃ consecutive lastStep, countStep tick step state = { state with consecutive, lastStep } := by
  unfold countStep
  split
  · exact ⟨_, _, rfl⟩
  · exact ⟨state.consecutive, state.lastStep, rfl⟩

/-- A true evaluation that does not fire goes on with the duration. -/
theorem tracks_yes (h : Tracks rule past state) (hfired : evaluation.fired = false)
    (hrecovered : evaluation.recovered = false) (htruth : evaluation.truth = .yes)
    (tick : Bool) (step : ℤ) :
    Tracks rule (past ++ [evaluation])
      { countStep tick step state with
        sinceNs := some (state.sinceNs.getD evaluation.observedAtNs) } := by
  obtain ⟨consecutive, lastStep, hcount⟩ := countStep_eq tick step state
  rw [hcount]
  constructor
  · exact h.firing_quiet hrecovered
  · exact h.resting_quiet hfired
  · rw [countP_quiet hfired, ← h.fires]
  · exact h.lastFire_quiet hfired
  · intro start hstart
    rw [← hstart]
    exact h.run htruth
  · rw [countP_quiet hfired]
    exact h.limit

/-- A fire needs a ready duration and is neither blocked, cooling nor exhausted. -/
structure Ready (rule : AlertRule) (observedAtNs since : ℤ) (state : RuleState) : Prop where
  duration : saturate ((rule.forDurationMs : ℤ) * 1000000) ≤ saturate (observedAtNs - since)
  edge : rule.mode = .edge → state.firing = false
  cooldown : ∀ last, state.lastFireNs = some last →
    saturate ((rule.cooldownSeconds : ℤ) * 1000000000) ≤ saturate (observedAtNs - last)
  limit : ∀ limit, rule.maxFires = some limit → state.fires < limit.toNat

theorem justified_fire (h : Tracks rule past state) (hbounded : Bounded rule)
    (hready : Ready rule evaluation.observedAtNs
      (state.sinceNs.getD evaluation.observedAtNs) state)
    (hrecovered : evaluation.recovered = false) (htruth : evaluation.truth = .yes) :
    Justified rule past evaluation where
  edge hmode _ := h.resting (hready.edge hmode)
  recovery := by simp [hrecovered]
  cooldown := by
    intro _ other hother hfire
    obtain ⟨last, hlast, hle⟩ := h.lastFire other hother hfire
    have hcooldown := hbounded.cooldown
    have hgap := le_of_saturate_le (by positivity) (by omega) (hready.cooldown last hlast)
    omega
  duration := by
    intro _
    obtain ⟨early, since, hsplit, hall, hhead⟩ := h.run htruth
    obtain ⟨first, hfirst, hstart⟩ := Option.map_eq_some_iff.mp hhead
    have hduration := hbounded.duration
    have hgap := le_of_saturate_le (by positivity) (by omega) hready.duration
    exact ⟨early, since, hsplit, hall, first, hfirst, by omega⟩

theorem any_eq_false {α : Type} {option : Option α} {test : α → Bool} :
    option.any test = false ↔ ∀ value, option = some value → test value = false := by
  cases option <;> simp

theorem canFire_iff {tick : Bool} {observedAtNs since : ℤ} :
    canFire rule tick observedAtNs since state = true ↔
      (rule.forSteps ≤ state.consecutive ∨ tick = true ∧ rule.forSteps = 1) ∧
        Ready rule observedAtNs since state := by
  have hready : Ready rule observedAtNs since state ↔
      saturate ((rule.forDurationMs : ℤ) * 1000000) ≤ saturate (observedAtNs - since) ∧
        (rule.mode = .edge → state.firing = false) ∧
        (∀ last, state.lastFireNs = some last →
          saturate ((rule.cooldownSeconds : ℤ) * 1000000000) ≤ saturate (observedAtNs - last)) ∧
        ∀ limit, rule.maxFires = some limit → state.fires < limit.toNat :=
    ⟨fun ⟨h₁, h₂, h₃, h₄⟩ ↦ ⟨h₁, h₂, h₃, h₄⟩, fun ⟨h₁, h₂, h₃, h₄⟩ ↦ ⟨h₁, h₂, h₃, h₄⟩⟩
  rw [hready]
  simp [canFire, and_assoc, any_eq_false, imp_iff_not_or]

/-- Counting the step and starting the duration changes nothing a fire depends on. -/
theorem Ready.of_counted {tick : Bool} {step observedAtNs since start : ℤ}
    (h : Ready rule observedAtNs since
      { countStep tick step state with sinceNs := some start }) :
    Ready rule observedAtNs since state := by
  obtain ⟨consecutive, lastStep, hcount⟩ := countStep_eq tick step state
  rw [hcount] at h
  exact ⟨h.duration, h.edge, h.cooldown, h.limit⟩

theorem tracks_fire (h : Tracks rule past state) (hbounded : Bounded rule)
    (hready : Ready rule evaluation.observedAtNs
      (state.sinceNs.getD evaluation.observedAtNs) state)
    (hfired : evaluation.fired = true) (htruth : evaluation.truth = .yes)
    (tick : Bool) (step : ℤ) :
    Tracks rule (past ++ [evaluation])
      { countStep tick step state with
        sinceNs := some (state.sinceNs.getD evaluation.observedAtNs)
        firing := true
        fires := min (state.fires + 1) U64_MAX
        lastFireNs := some evaluation.observedAtNs } := by
  obtain ⟨consecutive, lastStep, hcount⟩ := countStep_eq tick step state
  rw [hcount]
  constructor
  · exact fun _ ↦ ⟨past, evaluation, [], rfl, hfired, by simp⟩
  · simp
  · rw [countP_fire hfired, h.fires]
    show min (min _ U64_MAX + 1) U64_MAX = min (_ + 1) U64_MAX
    omega
  · intro other hother hfire
    refine ⟨_, rfl, ?_⟩
    rcases List.mem_append.mp hother with hpast | hlast
    · obtain ⟨last, hlast, hle⟩ := h.lastFire other hpast hfire
      have hcooldown := hbounded.cooldown
      have hgap := le_of_saturate_le (by positivity) (by omega) (hready.cooldown last hlast)
      omega
    · rw [List.mem_singleton.mp hlast]
  · intro start hstart
    rw [← hstart]
    exact h.run htruth
  · intro limit hlimit
    have hless := hready.limit limit hlimit
    have hsize := limit.toNat_lt
    rw [h.fires] at hless
    rw [countP_fire hfired]
    unfold U64_MAX at hless
    omega

/-- The events of an evaluation are those of its outcome. -/
structure Evaluation.Follows (evaluation : Evaluation) (rule : AlertRule) (outcome : Outcome) :
    Prop where
  fired : evaluation.fired = decide (outcome = .fired)
  recovered : evaluation.recovered = (decide (outcome = .recovered) && rule.notifyRecovery)

/-- The step lemma: an evaluation is justified and the new state goes on summarising. -/
theorem advance_spec (h : Tracks rule past state) (hbounded : Bounded rule) {tick : Bool}
    {step : ℤ} (hfollows : evaluation.Follows rule
      (advance rule tick step evaluation.observedAtNs evaluation.truth state).2) :
    Justified rule past evaluation ∧ Tracks rule (past ++ [evaluation])
      (advance rule tick step evaluation.observedAtNs evaluation.truth state).1 := by
  obtain ⟨hfired, hrecovered⟩ := hfollows
  cases htruth : evaluation.truth with
  | unknown =>
    rw [htruth] at hfired hrecovered
    simp only [advance, reduceCtorEq, decide_false, Bool.false_and] at hfired hrecovered ⊢
    exact ⟨justified_quiet hfired hrecovered, tracks_unknown h hfired hrecovered⟩
  | no =>
    rw [htruth] at hfired hrecovered
    simp only [advance] at hfired hrecovered ⊢
    have hquiet : evaluation.fired = false := by
      rw [hfired]
      split <;> rfl
    refine ⟨⟨by simp [hquiet], fun hevent ↦ ?_, by simp [hquiet], by simp [hquiet]⟩,
      tracks_no h hquiet htruth⟩
    apply h.firing
    by_contra hresting
    rw [Bool.not_eq_true] at hresting
    simp [hrecovered, hresting] at hevent
  | yes =>
    rw [htruth] at hfired hrecovered
    simp only [advance] at hfired hrecovered ⊢
    split at hfired
    · rename_i hcan
      rw [if_pos hcan] at hrecovered ⊢
      have hready := (canFire_iff.mp hcan).2.of_counted
      have hfire : evaluation.fired = true := by simpa using hfired
      have hquiet : evaluation.recovered = false := by simpa using hrecovered
      refine ⟨justified_fire h hbounded hready hquiet htruth, ?_⟩
      obtain ⟨consecutive, lastStep, hcount⟩ := countStep_eq tick step state
      have htracks := tracks_fire h hbounded hready hfire htruth tick step
      rw [hcount] at htracks ⊢
      exact htracks
    · rename_i hcan
      rw [if_neg hcan] at hrecovered ⊢
      have hquiet : evaluation.fired = false := by simpa using hfired
      have hrested : evaluation.recovered = false := by simpa using hrecovered
      exact ⟨justified_quiet hquiet hrested, tracks_yes h hquiet hrested htruth tick step⟩

end Advance

/-! ## The rules of an engine -/

theorem bounded_of_validateRule {rule : AlertRule} {capacity : ℕ} {expression : Expr}
    (h : validateRule rule capacity = .ok expression) : Bounded rule := by
  simp only [validateRule, bind_eq_ok, reject_ok, not_or, not_lt] at h
  obtain ⟨-, ⟨-, -, -, -, hduration, hcooldown⟩, -⟩ := h
  exact ⟨hduration, hcooldown⟩

/-- The names of the compiled rules. -/
def namesOf (rules : List CompiledRule) : List String := rules.map fun compiled ↦ compiled.rule.name

theorem compileRules_ok {capacity : ℕ} {rules : List AlertRule} {compiled result : List CompiledRule}
    (hnodup : (namesOf compiled).Nodup) (h : compileRules capacity compiled rules = .ok result) :
    (namesOf result).Nodup ∧ (∀ old ∈ compiled, old ∈ result) ∧
      ∀ rule ∈ rules, ∃ new ∈ result, new.rule = rule ∧ new.state = .init ∧ Bounded rule := by
  induction rules generalizing compiled with
  | nil =>
    obtain rfl : compiled = result := by simpa [compileRules] using h
    exact ⟨hnodup, fun old hold ↦ hold, by simp⟩
  | cons rule rest ih =>
    simp only [compileRules, bind_eq_ok, reject_ok, exists_unit] at h
    obtain ⟨hfresh, expression, hvalid, hrest⟩ := h
    have hnames : (namesOf (compiled ++ [⟨rule, expression, .init⟩])).Nodup := by
      rw [namesOf, List.map_append, List.nodup_append]
      refine ⟨hnodup, by simp, ?_⟩
      intro name hname other hother heq
      obtain ⟨old, hold, rfl⟩ := List.mem_map.mp hname
      obtain rfl : other = rule.name := by simpa using hother
      exact hfresh (List.any_eq_true.mpr ⟨old, hold, by simpa using heq⟩)
    obtain ⟨hresult, hold, hnew⟩ := ih hnames hrest
    refine ⟨hresult, fun old hmem ↦ hold old (List.mem_append_left _ hmem), ?_⟩
    intro other hother
    rcases List.mem_cons.mp hother with rfl | hmem
    · exact ⟨⟨other, expression, .init⟩, hold _ (by simp), rfl, rfl, bounded_of_validateRule hvalid⟩
    · exact hnew other hmem

namespace AlertEngine

variable {text : FloatText} {engine : AlertEngine} {input : ReplayInput}

theorem setStates_map (rules : List CompiledRule) (state : CompiledRule → RuleState) :
    setStates rules (rules.map state) =
      rules.map fun compiled ↦ { compiled with state := state compiled } := by
  induction rules with
  | nil => rfl
  | cons compiled rest ih => rw [List.map_cons, setStates, ih, List.map_cons]

theorem update_events : (engine.update text input).events =
    engine.rules.flatMap fun compiled ↦
      (evaluateRule text (engine.inputContext input) compiled).2 := by
  cases input <;> simp [update, prepareStep, prepareTick, prepare, inputContext, List.flatMap_map]

theorem rules_apply_update : (engine.apply (engine.update text input)).rules =
    engine.rules.map fun compiled ↦
      { compiled with state := (evaluateRule text (engine.inputContext input) compiled).1 } := by
  rw [← setStates_map engine.rules fun compiled ↦
    (evaluateRule text (engine.inputContext input) compiled).1]
  cases input with
  | step step observedAtNs metrics =>
    simp only [apply, update, prepareStep, prepare, inputContext, List.map_map]
    rfl
  | tick step observedAtNs =>
    simp only [apply, update, prepareTick, prepare, inputContext, List.map_map]
    rfl

/-- The events of a rule carry its name. -/
theorem rule_of_mem_evaluateRule {context : EvalContext} {compiled : CompiledRule}
    {event : AlertEvent} (h : event ∈ (evaluateRule text context compiled).2) :
    event.rule = compiled.rule.name := by
  unfold evaluateRule at h
  split at h
  · simp at h
  · dsimp only at h
    unfold eventsOf at h
    split at h
    · simp at h
    · rw [List.mem_singleton.mp h]
    · split_ifs at h
      · rw [List.mem_singleton.mp h]
      · simp at h

/-- Among rules with distinct names, the events of one rule are found by its name. -/
theorem filter_events {rules : List CompiledRule} {events : CompiledRule → List AlertEvent}
    (hevents : ∀ compiled ∈ rules, ∀ event ∈ events compiled, event.rule = compiled.rule.name)
    (hnodup : (namesOf rules).Nodup) {compiled : CompiledRule} (hmem : compiled ∈ rules) :
    ((rules.flatMap events).filter fun event ↦ event.rule = compiled.rule.name) =
      events compiled := by
  induction rules with
  | nil => simp at hmem
  | cons first rest ih =>
    rw [namesOf, List.map_cons, List.nodup_cons] at hnodup
    have hrest := fun other hother ↦ hevents other (List.mem_cons_of_mem first hother)
    rw [List.flatMap_cons, List.filter_append]
    rcases List.mem_cons.mp hmem with rfl | htail
    · have hown : (events compiled).filter (fun event ↦ event.rule = compiled.rule.name) =
          events compiled := by
        rw [List.filter_eq_self]
        intro event hevent
        simpa using hevents compiled List.mem_cons_self event hevent
      have hothers : (rest.flatMap events).filter (fun event ↦ event.rule = compiled.rule.name) =
          [] := by
        rw [List.filter_eq_nil_iff]
        intro event hevent heq
        obtain ⟨other, hother, hin⟩ := List.mem_flatMap.mp hevent
        apply hnodup.1
        rw [← of_decide_eq_true heq, hrest other hother event hin]
        exact List.mem_map_of_mem hother
      rw [hown, hothers, List.append_nil]
    · have hfirst : (events first).filter (fun event ↦ event.rule = compiled.rule.name) = [] := by
        rw [List.filter_eq_nil_iff]
        intro event hevent heq
        apply hnodup.1
        rw [← hevents first List.mem_cons_self event hevent, of_decide_eq_true heq]
        exact List.mem_map_of_mem htail
      rw [hfirst, List.nil_append]
      exact ih hrest hnodup.2 htail

theorem find?_of_mem {rules : List CompiledRule} (hnodup : (namesOf rules).Nodup)
    {compiled : CompiledRule} (hmem : compiled ∈ rules) :
    rules.find? (fun other ↦ other.rule.name = compiled.rule.name) = some compiled := by
  induction rules with
  | nil => simp at hmem
  | cons first rest ih =>
    rw [namesOf, List.map_cons, List.nodup_cons] at hnodup
    rcases List.mem_cons.mp hmem with rfl | htail
    · simp
    · have hne : first.rule.name ≠ compiled.rule.name := by
        intro heq
        apply hnodup.1
        rw [heq]
        exact List.mem_map_of_mem htail
      rw [List.find?_cons_of_neg (by simpa using hne)]
      exact ih hnodup.2 htail

/-- What an input does to one of the rules: nothing at all, or an evaluation by `advance`. -/
theorem evaluationOf_spec (hnodup : (namesOf engine.rules).Nodup) {compiled : CompiledRule}
    (hmem : compiled ∈ engine.rules) :
    (engine.evaluationOf text compiled.rule.name input = none ∧
        (evaluateRule text (engine.inputContext input) compiled).1 = compiled.state) ∨
      ∃ evaluation, engine.evaluationOf text compiled.rule.name input = some evaluation ∧
        evaluation.Follows compiled.rule (advance compiled.rule (engine.inputContext input).tick
          (engine.inputContext input).step evaluation.observedAtNs evaluation.truth
          compiled.state).2 ∧
        (evaluateRule text (engine.inputContext input) compiled).1 =
          (advance compiled.rule (engine.inputContext input).tick (engine.inputContext input).step
            evaluation.observedAtNs evaluation.truth compiled.state).1 := by
  have hevents : (engine.rules.flatMap fun other ↦
      (evaluateRule text (engine.inputContext input) other).2).filter
        (fun event ↦ event.rule = compiled.rule.name) =
      (evaluateRule text (engine.inputContext input) compiled).2 :=
    filter_events (fun _ _ _ hevent ↦ rule_of_mem_evaluateRule hevent) hnodup hmem
  unfold evaluationOf
  rw [find?_of_mem hnodup hmem, Option.bind_some, update_events, hevents]
  unfold evaluateRule
  cases truthOf (engine.inputContext input) compiled with
  | none => exact Or.inl ⟨rfl, rfl⟩
  | some truth =>
    refine Or.inr ⟨_, rfl, ?_, rfl⟩
    dsimp only
    generalize (advance _ _ _ _ _ _).2 = outcome
    cases outcome with
    | quiet => exact ⟨rfl, rfl⟩
    | fired => exact ⟨rfl, rfl⟩
    | recovered =>
      constructor <;> cases hnotify : compiled.rule.notifyRecovery <;>
        simp [Evaluation.fired, Evaluation.recovered, eventsOf, hnotify]

theorem names_apply_update :
    namesOf (engine.apply (engine.update text input)).rules = namesOf engine.rules := by
  rw [rules_apply_update, namesOf, namesOf, List.map_map]
  rfl

/-- The run lemma: what one evaluation keeps of the relation between the evaluations so far and
the state of the rule holds over every run, and so does what it says of the evaluation. -/
theorem traced_spec {rule : AlertRule} (tracks : List (Option ℤ × Evaluation) → RuleState → Prop)
    (justified : List (Option ℤ × Evaluation) → Option ℤ × Evaluation → Prop)
    (hadvance : ∀ {past state evaluation tick step}, tracks past state →
      evaluation.Follows rule
        (advance rule tick step evaluation.observedAtNs evaluation.truth state).2 →
      justified past (committedStep tick step, evaluation) ∧
        tracks (past ++ [(committedStep tick step, evaluation)])
          (advance rule tick step evaluation.observedAtNs evaluation.truth state).1)
    (inputs : List ReplayInput) (past : List (Option ℤ × Evaluation))
    (hnodup : (namesOf engine.rules).Nodup) {compiled : CompiledRule}
    (hmem : compiled ∈ engine.rules) (hrule : compiled.rule = rule)
    (h : tracks past compiled.state) :
    (∀ before evaluation after,
      engine.traced text rule.name inputs = before ++ evaluation :: after →
        justified (past ++ before) evaluation) ∧
      ∃ state, tracks (past ++ engine.traced text rule.name inputs) state := by
  induction inputs generalizing engine past compiled with
  | nil => exact ⟨by simp [traced], compiled.state, by simpa [traced] using h⟩
  | cons input rest ih =>
    subst hrule
    have hnext : { compiled with
        state := (evaluateRule text (engine.inputContext input) compiled).1 } ∈
          (engine.apply (engine.update text input)).rules := by
      rw [rules_apply_update]
      exact List.mem_map_of_mem hmem
    have hnames : (namesOf (engine.apply (engine.update text input)).rules).Nodup := by
      rw [names_apply_update]
      exact hnodup
    rcases evaluationOf_spec hnodup hmem with
      ⟨hnone, hstate⟩ | ⟨evaluation, hsome, hfollows, hstate⟩
    · rw [traced, hnone, Option.toList_none, List.map_nil, List.nil_append]
      exact ih past hnames hnext rfl (by rw [hstate]; exact h)
    · obtain ⟨hjustified, htracks⟩ := hadvance h hfollows
      obtain ⟨hall, state, hfinal⟩ := ih _ hnames hnext rfl (by rw [hstate]; exact htracks)
      rw [traced, hsome, Option.toList_some, List.map_singleton, List.singleton_append]
      refine ⟨?_, state, by simpa using hfinal⟩
      intro before other after hsplit
      cases before with
      | nil =>
        obtain ⟨rfl, -⟩ := List.cons.inj hsplit
        simpa using hjustified
      | cons first before =>
        obtain ⟨rfl, htail⟩ := List.cons.inj hsplit
        simpa using hall before other after htail

/-- The rules of a new engine have distinct names and start from the initial state. -/
theorem rules_new {rules : List AlertRule} {startedAtNs : ℤ} {capacity : ℕ} {engine : AlertEngine}
    (hnew : AlertEngine.new rules startedAtNs capacity = .ok engine) :
    (namesOf engine.rules).Nodup ∧ ∀ rule ∈ rules, ∃ compiled ∈ engine.rules,
      compiled.rule = rule ∧ compiled.state = .init ∧ Bounded rule := by
  simp only [AlertEngine.new, bind_eq_ok, reject_ok, exists_unit, pure_eq_ok] at hnew
  obtain ⟨-, -, compiled, hcompile, rfl⟩ := hnew
  obtain ⟨hnodup, -, hall⟩ := compileRules_ok (by simp [namesOf]) hcompile
  exact ⟨hnodup, hall⟩

/-- For every configuration and every run of steps and ticks, every evaluation of a rule is
justified by the evaluations before it, and the fires never exceed the rule's limit. -/
theorem rule_contract {rules : List AlertRule} {startedAtNs : ℤ} {capacity : ℕ}
    {engine : AlertEngine} (hnew : AlertEngine.new rules startedAtNs capacity = .ok engine)
    {rule : AlertRule} (hrule : rule ∈ rules) (text : FloatText) (inputs : List ReplayInput) :
    (∀ before evaluation after,
      engine.evaluations text rule.name inputs = before ++ evaluation :: after →
        Justified rule before evaluation) ∧
      ∀ limit, rule.maxFires = some limit →
        (engine.evaluations text rule.name inputs).countP Evaluation.fired ≤ limit.toNat := by
  obtain ⟨hnodup, hall⟩ := rules_new hnew
  obtain ⟨compiled, hmem, hcompiled, hstate, hbounded⟩ := hall rule hrule
  obtain ⟨hjustified, state, htracks⟩ := traced_spec
    (fun past state ↦ Tracks rule (past.map Prod.snd) state)
    (fun past evaluation ↦ Justified rule (past.map Prod.snd) evaluation.2)
    (fun h hfollows ↦ by simpa using advance_spec h hbounded hfollows)
    inputs [] hnodup hmem hcompiled (by rw [hstate]; exact tracks_init rule)
  rw [← map_snd_traced]
  refine ⟨?_, by simpa using htracks.limit⟩
  intro before evaluation after hsplit
  obtain ⟨early, late, htraced, rfl, hlate⟩ := List.map_eq_append_iff.mp hsplit
  obtain ⟨other, rest, rfl, rfl, rfl⟩ := List.map_eq_cons_iff.mp hlate
  simpa using hjustified early other rest htraced

section Sample

/-- A rule that fires on presence and tells when the metric is gone. -/
def sampleRule : AlertRule where
  name := "present"
  condition := "has(loss)"
  level := .warning
  message := ""
  mode := .edge
  forSteps := 1
  forDurationMs := 0
  partialWindow := false
  axis := .wallTime
  cooldownSeconds := 0
  maxFires := some 2
  notifyRecovery := true
  tags := []
  channels := []

def sampleText : FloatText where
  token _ := .ofInt 0
  display _ := ""
  debug _ := ""
  fixed _ _ := ""
  scientific _ _ := ""

def sampleInputs : List ReplayInput :=
  [.step 0 1 (.ofList [("loss", .int 1)]), .step 1 2 (.ofList [("loss", .int 1)]), .tick 1 3,
   .step 2 4 .empty, .step 3 5 (.ofList [("loss", .int 1)]), .step 4 6 .empty,
   .step 5 7 (.ofList [("loss", .int 1)])]

theorem rule_contract_sample : ∃ engine, AlertEngine.new [sampleRule] 0 10 = .ok engine ∧
    (engine.evaluations sampleText "present" sampleInputs).map
        (fun evaluation ↦ (evaluation.observedAtNs, evaluation.fired, evaluation.recovered)) =
      [(1, true, false), (2, false, false), (4, false, true), (5, true, false), (6, false, true),
       (7, false, false)] ∧
    ∀ before evaluation after,
      engine.evaluations sampleText "present" sampleInputs = before ++ evaluation :: after →
        Justified sampleRule before evaluation := by
  have hrun : ((AlertEngine.new [sampleRule] 0 10).toOption.map fun engine ↦
      (engine.evaluations sampleText "present" sampleInputs).map
        fun evaluation ↦ (evaluation.observedAtNs, evaluation.fired, evaluation.recovered)) =
      some [(1, true, false), (2, false, false), (4, false, true), (5, true, false),
        (6, false, true), (7, false, false)] := by decide +kernel
  obtain ⟨engine, hnew, hevents⟩ := Option.map_eq_some_iff.mp hrun
  have hengine := toOption_eq_some.mp hnew
  exact ⟨engine, hengine, hevents,
    (rule_contract hengine (List.mem_singleton_self sampleRule) sampleText sampleInputs).1⟩

end Sample

end AlertEngine

end Rvx.Tracking
