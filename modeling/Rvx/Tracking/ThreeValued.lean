import Mathlib.Data.List.DropRight
import Rvx.Tracking.AlertEngine

/-!
# Three-valued evaluation

How the value of an alert expression depends on what is known about its metrics.  Knowing less only
leaves a value open, except where a function takes its default for an optional argument that is
unknown.
-/

namespace Rvx.Tracking

open Core Check

/-! ## Parts of an expression -/

namespace Expr

mutual

/-- An expression and all its parts. -/
def subterms : Expr → List Expr
  | .number value => [.number value]
  | .duration value => [.duration value]
  | .metric name window => [.metric name window]
  | .call name arguments => .call name arguments :: subtermsOf arguments
  | .unary operation value => .unary operation value :: subterms value
  | .binary operation left right =>
    .binary operation left right :: (subterms left ++ subterms right)

def subtermsOf : List Expr → List Expr
  | [] => []
  | argument :: rest => subterms argument ++ subtermsOf rest

end

/-- The metrics an expression reads, with their windows. -/
def reads (expression : Expr) : List (String × Option Window) :=
  expression.subterms.filterMap fun part ↦
    match part with
    | .metric name window => some (name, window)
    | _ => none

/-- The functions an expression calls. -/
def functions (expression : Expr) : List String :=
  expression.subterms.filterMap fun part ↦
    match part with
    | .call name _ => some name
    | _ => none

/-- The functions with a second argument that has a default. -/
def DEFAULTED : List String := ["ema", "stalled"]

/-- The optional arguments that are given. -/
def optionalArguments (expression : Expr) : List Expr :=
  expression.subterms.flatMap fun part ↦
    match part with
    | .call name arguments => if name ∈ DEFAULTED then arguments[1]?.toList else []
    | _ => []

theorem self_mem_subterms (expression : Expr) : expression ∈ expression.subterms := by
  cases expression <;> simp [subterms]

theorem subtermsOf_eq (arguments : List Expr) : subtermsOf arguments = arguments.flatMap subterms := by
  induction arguments with
  | nil => rfl
  | cons argument rest ih => rw [subtermsOf, ih, List.flatMap_cons]

/-- What is found in a part is found in the whole. -/
theorem found_of_subset {part whole : Expr} (h : part.subterms ⊆ whole.subterms) :
    part.reads ⊆ whole.reads ∧ part.functions ⊆ whole.functions ∧
      part.optionalArguments ⊆ whole.optionalArguments := by
  refine ⟨?_, ?_, ?_⟩
  · intro read hread
    obtain ⟨found, hfound, heq⟩ := List.mem_filterMap.mp hread
    exact List.mem_filterMap.mpr ⟨found, h hfound, heq⟩
  · intro name hname
    obtain ⟨found, hfound, heq⟩ := List.mem_filterMap.mp hname
    exact List.mem_filterMap.mpr ⟨found, h hfound, heq⟩
  · intro argument hargument
    obtain ⟨found, hfound, hin⟩ := List.mem_flatMap.mp hargument
    exact List.mem_flatMap.mpr ⟨found, h hfound, hin⟩

theorem subterms_argument {name : String} {arguments : List Expr} {argument : Expr}
    (h : argument ∈ arguments) : argument.subterms ⊆ (call name arguments).subterms := by
  intro part hpart
  rw [subterms, subtermsOf_eq]
  exact List.mem_cons_of_mem _ (List.mem_flatMap.mpr ⟨argument, h, hpart⟩)

theorem subterms_unary (operation : UnaryOp) (value : Expr) :
    value.subterms ⊆ (unary operation value).subterms := by
  intro part hpart
  rw [subterms]
  exact List.mem_cons_of_mem _ hpart

theorem subterms_left (operation : BinaryOp) (left right : Expr) :
    left.subterms ⊆ (binary operation left right).subterms := by
  intro part hpart
  rw [subterms]
  exact List.mem_cons_of_mem _ (List.mem_append_left _ hpart)

theorem subterms_right (operation : BinaryOp) (left right : Expr) :
    right.subterms ⊆ (binary operation left right).subterms := by
  intro part hpart
  rw [subterms]
  exact List.mem_cons_of_mem _ (List.mem_append_right _ hpart)

theorem mem_functions_call (name : String) (arguments : List Expr) :
    name ∈ (call name arguments).functions :=
  List.mem_filterMap.mpr ⟨_, self_mem_subterms _, rfl⟩

theorem mem_reads_metric (name : String) (window : Option Window) :
    (name, window) ∈ (metric name window).reads :=
  List.mem_filterMap.mpr ⟨_, self_mem_subterms _, rfl⟩

theorem mem_optionalArguments {name : String} {arguments : List Expr} {argument : Expr}
    (hname : name ∈ DEFAULTED) (h : arguments[1]? = some argument) :
    argument ∈ (call name arguments).optionalArguments := by
  refine List.mem_flatMap.mpr ⟨_, self_mem_subterms _, ?_⟩
  dsimp only
  rw [if_pos hname, h]
  exact List.mem_singleton_self _

/-! ## Accepted calls -/

theorem validateAll_ok {capacity : ℕ} {arguments : List Expr} :
    validateAll capacity arguments = .ok () ↔
      ∀ argument ∈ arguments, argument.validate capacity = .ok () := by
  induction arguments with
  | nil => simp [validateAll]
  | cons argument rest ih =>
    simp only [validateAll, bind_eq_ok, exists_unit, ih, List.forall_mem_cons]

/-- An accepted name is written in lower case, and only the defaulted functions take two
arguments. -/
theorem validArity_ok {name : String} {arity : ℕ} (h : validArity name arity = some true) :
    asciiLower name = name ∧ (name ∈ DEFAULTED ∨ arity ≤ 1) := by
  unfold validArity at h
  split_ifs at h with hnone htwo hone
  · refine ⟨?_, Or.inr ?_⟩
    · simp only [List.mem_cons, List.not_mem_nil, or_false] at hnone
      rcases hnone with rfl | rfl <;> decide
    · simp only [Option.some.injEq, decide_eq_true_eq] at h
      omega
  · refine ⟨?_, Or.inl htwo⟩
    simp only [List.mem_cons, List.not_mem_nil, or_false] at htwo
    rcases htwo with rfl | rfl <;> decide
  · refine ⟨?_, Or.inr ?_⟩
    · simp only [List.mem_cons, List.not_mem_nil, or_false] at hone
      rcases hone with rfl | rfl | rfl | rfl | rfl | rfl | rfl | rfl | rfl | rfl | rfl | rfl | rfl |
        rfl | rfl | rfl | rfl | rfl | rfl | rfl | rfl | rfl <;> decide
    · simp only [Option.some.injEq, decide_eq_true_eq] at h
      omega

/-- What a call was accepted with. -/
structure Accepted (capacity : ℕ) (name : String) (arguments : List Expr) : Prop where
  lower : asciiLower name = name
  arity : name ∈ DEFAULTED ∨ arguments.length ≤ 1
  plain : name = "has" → arguments.head?.any isPlainMetric = true
  duration : name = "no_data" → arguments.head?.any isPositiveDuration = true
  diff : name = "diff" → arguments.head?.any isPlainMetric = true → 2 ≤ capacity
  arguments : ∀ argument ∈ arguments, argument.validate capacity = .ok ()

theorem validate_call {capacity : ℕ} {name : String} {arguments : List Expr}
    (h : (call name arguments).validate capacity = .ok ()) : Accepted capacity name arguments := by
  simp only [validate, bind_eq_ok, exists_unit, validateAll_ok] at h
  obtain ⟨hcall, harguments⟩ := h
  unfold validateCall at hcall
  cases hvalid : validArity name arguments.length with
  | none =>
    rw [hvalid] at hcall
    simp [throw, throwThe, MonadExceptOf.throw, bind, Except.bind] at hcall
  | some valid =>
    simp only [hvalid, bind_eq_ok, exists_unit, reject_ok, Bool.not_eq_false] at hcall
    obtain ⟨rfl, hplain, -, hduration, hdiff⟩ := hcall
    obtain ⟨hlower, hlength⟩ := validArity_ok hvalid
    refine ⟨hlower, hlength, fun hname ↦ ?_, fun hname ↦ ?_, fun hname hplain ↦ ?_, harguments⟩
    · by_contra hnot
      exact hplain ⟨Or.inl hname, hnot⟩
    · by_contra hnot
      exact hduration ⟨hname, hnot⟩
    · by_contra hsmall
      exact hdiff ⟨hname, Nat.not_le.mp hsmall, hplain⟩

mutual

/-- The parts of an accepted expression are accepted. -/
theorem validate_subterms {capacity : ℕ} : ∀ expression : Expr,
    expression.validate capacity = .ok () →
    ∀ part ∈ expression.subterms, part.validate capacity = .ok ()
  | .number _, hvalid, _, hpart | .duration _, hvalid, _, hpart | .metric _ _, hvalid, _, hpart => by
    rw [subterms, List.mem_singleton] at hpart
    exact hpart ▸ hvalid
  | .unary _ value, hvalid, part, hpart => by
    rw [subterms, List.mem_cons] at hpart
    rcases hpart with rfl | hpart
    · exact hvalid
    · exact validate_subterms value hvalid part hpart
  | .binary _ left right, hvalid, part, hpart => by
    have hboth := hvalid
    simp only [validate, bind_eq_ok, exists_unit] at hboth
    rw [subterms, List.mem_cons, List.mem_append] at hpart
    rcases hpart with rfl | hpart | hpart
    · exact hvalid
    · exact validate_subterms left hboth.1 part hpart
    · exact validate_subterms right hboth.2 part hpart
  | .call name arguments, hvalid, part, hpart => by
    rw [subterms, List.mem_cons] at hpart
    rcases hpart with rfl | hpart
    · exact hvalid
    · exact validate_subtermsOf arguments (validate_call hvalid).arguments part hpart

theorem validate_subtermsOf {capacity : ℕ} : ∀ arguments : List Expr,
    (∀ argument ∈ arguments, argument.validate capacity = .ok ()) →
    ∀ part ∈ subtermsOf arguments, part.validate capacity = .ok ()
  | [], _, _, hpart => by simp [subtermsOf] at hpart
  | argument :: rest, hvalid, part, hpart => by
    rw [List.forall_mem_cons] at hvalid
    rw [subtermsOf, List.mem_append] at hpart
    rcases hpart with hpart | hpart
    · exact validate_subterms argument hvalid.1 part hpart
    · exact validate_subtermsOf rest hvalid.2 part hpart

end

theorem validate_optional {capacity : ℕ} {expression argument : Expr}
    (hvalid : expression.validate capacity = .ok ())
    (h : argument ∈ expression.optionalArguments) : argument.validate capacity = .ok () := by
  obtain ⟨part, hpart, hargument⟩ := List.mem_flatMap.mp h
  have hpartValid := validate_subterms expression hvalid part hpart
  cases part with
  | call name arguments =>
    dsimp only at hargument
    split_ifs at hargument
    · exact (validate_call hpartValid).arguments argument
        (List.mem_of_getElem? (Option.mem_toList.mp hargument))
    · simp at hargument
  | _ => simp at hargument

end Expr

theorem evaluateAll_eq (context : EvalContext) (arguments : List Expr) :
    evaluateAll context arguments = arguments.map (evaluate context) := by
  induction arguments with
  | nil => rfl
  | cons argument rest ih => rw [evaluateAll, ih, List.map_cons]

/-! ## The same knowledge -/

namespace EvalContext

/-- The answer of `has`. -/
def present (context : EvalContext) (name : String) : Bool :=
  name ∈ context.pending || name ∈ context.metrics || context.tick && name ∈ context.series

/-- Two contexts of one evaluation: they differ in what they know of the metrics only. -/
structure SameClock (context context' : EvalContext) : Prop where
  step : context.step = context'.step
  observed : context.observedAtNs = context'.observedAtNs
  started : context.startedAtNs = context'.startedAtNs
  lastObserved : context.lastObservedAtNs = context'.lastObservedAtNs
  axis : context.axis = context'.axis

/-- Two contexts know the same of a metric that is read with a window. -/
structure SameMetric (capacity : ℕ) (context context' : EvalContext) (name : String)
    (window : Option Window) : Prop where
  value : context.metricValue name window = context'.metricValue name window
  pair : 2 ≤ capacity →
    context.metricValue name (some (.points 2)) = context'.metricValue name (some (.points 2))
  last : (context.samples name).getLast? = (context'.samples name).getLast?
  present : context.present name = context'.present name

theorem metricValue_congr {context context' : EvalContext} {name : String}
    (hwhole : context.partialWindow = context'.partialWindow) (hclock : context.SameClock context')
    (htick : context.tick = context'.tick) (hcurrent : context.current name = context'.current name)
    (hlast : (context.series.get? name).bind List.getLast? =
      (context'.series.get? name).bind List.getLast?)
    (hsamples : context.samples name = context'.samples name) (window : Option Window) :
    context.metricValue name window = context'.metricValue name window := by
  unfold metricValue
  cases window with
  | none =>
    dsimp only
    rw [hcurrent, hlast, htick]
  | some window =>
    cases window with
    | points points =>
      dsimp only
      rw [hwhole, hsamples]
    | duration duration =>
      dsimp only
      rw [hwhole, hsamples, hclock.observed]

theorem metricValue_points {context : EvalContext} (hwhole : context.partialWindow = false)
    (name : String) (points : ℕ) : context.metricValue name (some (.points points)) =
      if (context.samples name).length < points then .unknown
      else .series ((context.samples name).rtake points) := by
  unfold metricValue
  dsimp only
  rw [hwhole, Bool.not_false, Bool.true_and, List.rtake]
  simp only [decide_eq_true_eq]

theorem metricValue_duration {context : EvalContext} (hwhole : context.partialWindow = false)
    (name : String) (duration : ℤ) : context.metricValue name (some (.duration duration)) =
      if (context.samples name).head?.any
          (fun sample ↦ sample.observedAtNs ≤ saturate (context.observedAtNs - duration)) then
        .series ((context.samples name).filter fun sample ↦
          sample.observedAtNs ≥ saturate (context.observedAtNs - duration))
      else .unknown := by
  unfold metricValue
  dsimp only
  rw [hwhole, Bool.not_false, Bool.true_and]
  cases (context.samples name).head?.any
    (fun sample ↦ sample.observedAtNs ≤ saturate (context.observedAtNs - duration)) <;> rfl

end EvalContext

section Same

variable {context context' : EvalContext} {capacity : ℕ} {name : String} {arguments : List Expr}

theorem firstArgument_congr {values : List Evaluated}
    (hpair : name = "diff" → ∀ metric, arguments.head? = some (.metric metric none) →
      context.metricValue metric (some (.points 2)) =
        context'.metricValue metric (some (.points 2))) :
    firstArgument context name arguments values = firstArgument context' name arguments values := by
  unfold firstArgument
  split
  · rename_i metric hhead
    by_cases hname : name = "diff"
    · rw [if_pos hname, if_pos hname, hpair hname metric hhead]
    · rw [if_neg hname, if_neg hname]
  · rfl

theorem evaluateAggregate_congr (h : context.SameClock context') (first : Evaluated)
    (parameter : Option Evaluated) :
    evaluateAggregate context name first parameter =
      evaluateAggregate context' name first parameter := by
  unfold evaluateAggregate
  rw [h.axis]

theorem evaluateCall_congr (h : context.SameClock context') {values : List Evaluated}
    (hlower : asciiLower name = name)
    (hfirst : firstArgument context name arguments values =
      firstArgument context' name arguments values)
    (hlast : ∀ metric window, arguments.head? = some (.metric metric window) →
      (context.samples metric).getLast? = (context'.samples metric).getLast?)
    (hpresent : ∀ metric window, arguments.head? = some (.metric metric window) →
      context.present metric = context'.present metric) :
    evaluateCall context name arguments values = evaluateCall context' name arguments values := by
  unfold evaluateCall
  dsimp only
  rw [hlower, hfirst, h.step, h.observed, h.started, h.lastObserved, evaluateAggregate_congr h]
  cases hhead : arguments.head? with
  | none => rfl
  | some first =>
    cases first with
    | metric metric window =>
      have hsame := hpresent metric window hhead
      unfold EvalContext.present at hsame
      dsimp only
      rw [hsame, hlast metric window hhead]
    | _ => rfl

mutual

/-- An expression whose reads give the same gives the same. -/
theorem evaluate_congr (h : context.SameClock context') : ∀ expression : Expr,
    expression.validate capacity = .ok () →
    (∀ read ∈ expression.reads, context.SameMetric capacity context' read.1 read.2) →
    evaluate context expression = evaluate context' expression
  | .number _, _, _ => rfl
  | .duration _, _, _ => rfl
  | .metric name window, _, hreads => by
    rw [evaluate, evaluate]
    exact (hreads _ (Expr.mem_reads_metric name window)).value
  | .unary operation value, hvalid, hreads => by
    have hvalue := evaluate_congr h value hvalid fun read hread ↦
      hreads read ((Expr.found_of_subset (Expr.subterms_unary operation value)).1 hread)
    cases operation <;> rw [evaluate, evaluate, hvalue]
  | .binary operation left right, hvalid, hreads => by
    simp only [Expr.validate, bind_eq_ok, exists_unit] at hvalid
    rw [evaluate, evaluate,
      evaluate_congr h left hvalid.1 fun read hread ↦
        hreads read ((Expr.found_of_subset (Expr.subterms_left operation left right)).1 hread),
      evaluate_congr h right hvalid.2 fun read hread ↦
        hreads read ((Expr.found_of_subset (Expr.subterms_right operation left right)).1 hread)]
  | .call name arguments, hvalid, hreads => by
    have haccepted := Expr.validate_call hvalid
    have hmetric (metric : String) (window : Option Window)
        (hhead : arguments.head? = some (.metric metric window)) :
        context.SameMetric capacity context' metric window := by
      refine hreads (metric, window) ?_
      have hmem := List.mem_of_mem_head? hhead
      exact (Expr.found_of_subset (Expr.subterms_argument hmem)).1 (Expr.mem_reads_metric _ _)
    rw [evaluate, evaluate, evaluateAll_congr h arguments haccepted.arguments
      fun argument hargument read hread ↦
        hreads read ((Expr.found_of_subset (Expr.subterms_argument hargument)).1 hread)]
    apply evaluateCall_congr h haccepted.lower
    · apply firstArgument_congr
      intro hname metric hhead
      refine (hmetric metric none hhead).pair (haccepted.diff hname ?_)
      rw [hhead]
      rfl
    · exact fun metric window hhead ↦ (hmetric metric window hhead).last
    · exact fun metric window hhead ↦ (hmetric metric window hhead).present

theorem evaluateAll_congr (h : context.SameClock context') : ∀ arguments : List Expr,
    (∀ argument ∈ arguments, argument.validate capacity = .ok ()) →
    (∀ argument ∈ arguments, ∀ read ∈ argument.reads,
      context.SameMetric capacity context' read.1 read.2) →
    evaluateAll context arguments = evaluateAll context' arguments
  | [], _, _ => rfl
  | argument :: rest, hvalid, hreads => by
    rw [List.forall_mem_cons] at hvalid hreads
    rw [evaluateAll, evaluateAll, evaluate_congr h argument hvalid.1 hreads.1,
      evaluateAll_congr h rest hvalid.2 hreads.2]

end

end Same

/-! ## Knowing less -/

/-- The left value is the right one, or leaves it open. -/
def Tri.Loosens (x y : Tri) : Prop := x = .unknown ∨ x = y

namespace Evaluated

/-- The left value is the right one, or leaves open what the right one decides. -/
inductive Loosens : Evaluated → Evaluated → Prop
  | unknown (y : Evaluated) : Loosens .unknown y
  | undecided (y : Tri) : Loosens (.bool .unknown) (.bool y)
  | same (x : Evaluated) : Loosens x x

namespace Loosens

variable {x y : Evaluated}

theorem of_eq (h : x = y) : x.Loosens y := h ▸ .same x

theorem truth (h : x.Loosens y) : x.truth.Loosens y.truth := by
  cases h with
  | unknown => exact Or.inl rfl
  | undecided => exact Or.inl rfl
  | same => exact Or.inr rfl

theorem eq_or_unknown (h : x.Loosens y) : x = y ∨ x.truth = .unknown := by
  cases h with
  | unknown => exact Or.inr rfl
  | undecided => exact Or.inr rfl
  | same => exact Or.inl rfl

theorem asNumber (h : x.Loosens y) : x.asNumber = none ∨ x.asNumber = y.asNumber := by
  cases h with
  | unknown => exact Or.inl rfl
  | undecided => exact Or.inl rfl
  | same => exact Or.inr rfl

/-- A value that is open has nothing to aggregate. -/
theorem cases_aggregate (h : x.Loosens y) :
    x = .unknown ∨ x = y ∨ ∃ truth, x = .bool .unknown ∧ y = .bool truth := by
  cases h with
  | unknown => exact Or.inl rfl
  | undecided truth => exact Or.inr (Or.inr ⟨truth, rfl, rfl⟩)
  | same => exact Or.inr (Or.inl rfl)

theorem bool {x y : Tri} (h : x.Loosens y) : (Evaluated.bool x).Loosens (.bool y) := by
  rcases h with rfl | rfl
  · exact .undecided y
  · exact .same _

end Loosens

end Evaluated

namespace Tri.Loosens

variable {x x' y y' : Tri}

theorem not (h : x.Loosens y) : x.not.Loosens y.not := by
  rcases h with rfl | rfl
  · exact Or.inl rfl
  · exact Or.inr rfl

theorem and (h : x.Loosens y) (h' : x'.Loosens y') : (x.and x').Loosens (y.and y') := by
  rcases h with rfl | rfl <;> rcases h' with rfl | rfl
  · exact Or.inl rfl
  · cases x' <;> cases y <;> simp [Tri.and, Tri.Loosens]
  · cases x <;> cases y' <;> simp [Tri.and, Tri.Loosens]
  · exact Or.inr rfl

theorem or (h : x.Loosens y) (h' : x'.Loosens y') : (x.or x').Loosens (y.or y') := by
  rcases h with rfl | rfl <;> rcases h' with rfl | rfl
  · exact Or.inl rfl
  · cases x' <;> cases y <;> simp [Tri.or, Tri.Loosens]
  · cases x <;> cases y' <;> simp [Tri.or, Tri.Loosens]
  · exact Or.inr rfl

end Tri.Loosens

namespace EvalContext

/-- The left context knows less of the metrics: it finds the same samples or none that decide. -/
structure Looser (context context' : EvalContext) : Prop extends context.SameClock context' where
  value : ∀ name window,
    (context.metricValue name window).Loosens (context'.metricValue name window)
  last : ∀ name, (context.samples name).getLast? = none ∨
    (context.samples name).getLast? = (context'.samples name).getLast?

end EvalContext

section Looser

variable {context context' : EvalContext} {capacity : ℕ} {name : String} {arguments : List Expr}

/-- A comparison of two numbers; one that is not known leaves it open. -/
def compareKnown (compare : Float → Float → Evaluated) (left right : Option Float) : Evaluated :=
  match left, right with
  | some x, some y => compare x y
  | _, _ => .bool .unknown

theorem compareKnown_loosens {compare : Float → Float → Evaluated}
    (hcompare : ∀ x y, ∃ truth, compare x y = .bool truth) {left left' right right' : Option Float}
    (hleft : left = none ∨ left = left') (hright : right = none ∨ right = right') :
    (compareKnown compare left right).Loosens (compareKnown compare left' right') := by
  have hopen : (Evaluated.bool .unknown).Loosens (compareKnown compare left' right') := by
    unfold compareKnown
    split
    · obtain ⟨truth, htruth⟩ := hcompare _ _
      rw [htruth]
      exact .undecided truth
    · exact .same _
  rcases hleft with rfl | rfl
  · exact hopen
  rcases hright with rfl | rfl
  · cases left <;> exact hopen
  · exact .same _

theorem evaluateBinary_loosens (operation : BinaryOp) {left left' right right' : Evaluated}
    (hleft : left.Loosens left') (hright : right.Loosens right') :
    (evaluateBinary operation left right).Loosens (evaluateBinary operation left' right') := by
  cases operation with
  | and => exact .bool (.and hleft.truth hright.truth)
  | or => exact .bool (.or hleft.truth hright.truth)
  | add | sub | mul | div | mod =>
    unfold evaluateBinary
    dsimp only
    rcases hleft.asNumber with hnone | hsame
    · rw [hnone]
      exact .unknown _
    rcases hright.asNumber with hnone | hsame'
    · rw [hnone]
      cases left.asNumber <;> exact .unknown _
    · rw [hsame, hsame']
      exact .same _
  | eq | ne | lt | le | gt | ge =>
    refine compareKnown_loosens ?_ hleft.asNumber hright.asNumber
    intro x y
    split
    · exact ⟨_, rfl⟩
    · exact ⟨_, rfl⟩

/-- An aggregate leaves open what its first argument leaves open. -/
theorem evaluateAggregate_loosens (h : context.SameClock context') {first first' : Evaluated}
    (hfirst : first.Loosens first') (hdecided : first ≠ .unknown) (parameter : Option Evaluated) :
    evaluateAggregate context name first parameter =
      evaluateAggregate context' name first' parameter := by
  rw [evaluateAggregate_congr h]
  rcases hfirst.cases_aggregate with hunknown | rfl | ⟨truth, rfl, rfl⟩
  · exact absurd hunknown hdecided
  · rfl
  -- a truth value has no numbers, decided or not
  · unfold evaluateAggregate
    rfl

theorem evaluateCall_loosens (h : context.Looser context') {values values' : List Evaluated}
    (haccepted : Expr.Accepted capacity name arguments)
    (hfirst : (firstArgument context name arguments values).Loosens
      (firstArgument context' name arguments values'))
    (hpresent : name = "has" → ∀ metric, context.present metric = context'.present metric)
    (hduration : name = "no_data" → values.head? = values'.head?)
    (hparameter : values[1]? = values'[1]?) :
    (evaluateCall context name arguments values).Loosens
      (evaluateCall context' name arguments values') := by
  unfold evaluateCall
  dsimp only
  rw [haccepted.lower]
  by_cases hstep : name = "step"
  · rw [if_pos hstep, if_pos hstep, h.step]
    exact .same _
  rw [if_neg hstep, if_neg hstep]
  by_cases helapsed : name = "elapsed"
  · rw [if_pos helapsed, if_pos helapsed, h.observed, h.started]
    exact .same _
  rw [if_neg helapsed, if_neg helapsed]
  by_cases hnoData : name = "no_data"
  · rw [if_pos hnoData, if_pos hnoData, hduration hnoData, h.observed, h.started, h.lastObserved]
    exact .same _
  rw [if_neg hnoData, if_neg hnoData]
  have htest (test : Float → Tri) :
      (Evaluated.bool ((firstArgument context name arguments values).asNumber.elim .unknown
        test)).Loosens
      (.bool ((firstArgument context' name arguments values').asNumber.elim .unknown test)) := by
    rcases hfirst.asNumber with hnone | hsame
    · rw [hnone]
      exact .undecided _
    · rw [hsame]
      exact .same _
  by_cases hnan : name = "isnan"
  · rw [if_pos hnan, if_pos hnan]
    exact htest _
  rw [if_neg hnan, if_neg hnan]
  by_cases hinf : name = "isinf"
  · rw [if_pos hinf, if_pos hinf]
    exact htest _
  rw [if_neg hinf, if_neg hinf]
  by_cases hhas : name = "has"
  · rw [if_pos hhas, if_pos hhas]
    have hplain := haccepted.plain hhas
    cases hhead : arguments.head? with
    | none => simp [hhead] at hplain
    | some first =>
      cases first with
      | metric metric window =>
        have hsame := hpresent hhas metric
        unfold EvalContext.present at hsame
        dsimp only
        rw [hsame]
        exact .same _
      | _ => simp [hhead, Expr.isPlainMetric] at hplain
  rw [if_neg hhas, if_neg hhas]
  by_cases hage : name = "age"
  · rw [if_pos hage, if_pos hage]
    split
    · rename_i metric window hhead
      rcases h.last metric with hnone | hsame
      · rw [hnone]
        exact .unknown _
      · rw [hsame, h.observed]
        exact .same _
    · exact .same _
  rw [if_neg hage, if_neg hage]
  by_cases hunknown : firstArgument context name arguments values = .unknown
  · rw [if_pos hunknown]
    exact .unknown _
  have hdecided : firstArgument context' name arguments values' ≠ .unknown ∧
      (firstArgument context name arguments values).values =
        (firstArgument context' name arguments values').values := by
    rcases hfirst.cases_aggregate with heq | heq | ⟨truth, heq, heq'⟩
    · exact absurd heq hunknown
    · exact ⟨heq ▸ hunknown, by rw [heq]⟩
    · rw [heq, heq']
      exact ⟨by simp, rfl⟩
  rw [if_neg hunknown, if_neg hdecided.1, hdecided.2,
    evaluateAggregate_loosens h.toSameClock hfirst hunknown, hparameter]
  exact .same _

theorem firstArgument_loosens (h : context.Looser context') {values values' : List Evaluated}
    (hvalues : List.Forall₂ Evaluated.Loosens values values') :
    (firstArgument context name arguments values).Loosens
      (firstArgument context' name arguments values') := by
  have hhead : (values.head?.getD .unknown).Loosens (values'.head?.getD .unknown) := by
    cases hvalues with
    | nil => exact .same _
    | cons hfirst _ => exact hfirst
  unfold firstArgument
  split
  · rename_i metric _
    by_cases hname : name = "diff"
    · rw [if_pos hname, if_pos hname]
      exact h.value metric _
    · rw [if_neg hname, if_neg hname]
      exact hhead
  · exact hhead

/-- A literal has one value in all contexts. -/
theorem head_literal (h : arguments.head?.any Expr.isPositiveDuration = true) :
    (evaluateAll context arguments).head? = (evaluateAll context' arguments).head? := by
  rw [evaluateAll_eq, evaluateAll_eq, List.head?_map, List.head?_map]
  cases hhead : arguments.head? with
  | none => rfl
  | some argument =>
    rw [hhead] at h
    cases argument with
    | number value => rfl
    | duration value => rfl
    | _ => simp [Expr.isPositiveDuration] at h

mutual

/-- Knowing less leaves an expression open or as it is, if `has` finds the same metrics and the
optional arguments are the same. -/
theorem evaluate_loosens (h : context.Looser context') : ∀ expression : Expr,
    expression.validate capacity = .ok () →
    ("has" ∈ expression.functions → ∀ metric, context.present metric = context'.present metric) →
    (∀ argument ∈ expression.optionalArguments,
      evaluate context argument = evaluate context' argument) →
    (evaluate context expression).Loosens (evaluate context' expression)
  | .number _, _, _, _ => .same _
  | .duration _, _, _, _ => .same _
  | .metric name window, _, _, _ => h.value name window
  | .unary operation value, hvalid, hpresent, hoptional => by
    obtain ⟨-, hfunctions, harguments⟩ :=
      Expr.found_of_subset (Expr.subterms_unary operation value)
    have hvalue := evaluate_loosens h value hvalid (fun hhas ↦ hpresent (hfunctions hhas))
      fun argument hargument ↦ hoptional argument (harguments hargument)
    cases operation with
    | neg | pos =>
      rw [evaluate, evaluate]
      rcases hvalue.asNumber with hnone | hsame
      · rw [hnone]
        exact .unknown _
      · rw [hsame]
        exact .same _
    | not =>
      rw [evaluate, evaluate]
      exact .bool (.not hvalue.truth)
  | .binary operation left right, hvalid, hpresent, hoptional => by
    simp only [Expr.validate, bind_eq_ok, exists_unit] at hvalid
    obtain ⟨-, hfunctions, harguments⟩ :=
      Expr.found_of_subset (Expr.subterms_left operation left right)
    obtain ⟨-, hfunctions', harguments'⟩ :=
      Expr.found_of_subset (Expr.subterms_right operation left right)
    rw [evaluate, evaluate]
    apply evaluateBinary_loosens
    · exact evaluate_loosens h left hvalid.1 (fun hhas ↦ hpresent (hfunctions hhas))
        fun argument hargument ↦ hoptional argument (harguments hargument)
    · exact evaluate_loosens h right hvalid.2 (fun hhas ↦ hpresent (hfunctions' hhas))
        fun argument hargument ↦ hoptional argument (harguments' hargument)
  | .call name arguments, hvalid, hpresent, hoptional => by
    have haccepted := Expr.validate_call hvalid
    have hvalues := evaluateAll_loosens h arguments haccepted.arguments
      (fun argument hargument hhas ↦ hpresent
        ((Expr.found_of_subset (Expr.subterms_argument hargument)).2.1 hhas))
      fun argument hargument optional hmem ↦ hoptional optional
        ((Expr.found_of_subset (Expr.subterms_argument hargument)).2.2 hmem)
    rw [evaluate, evaluate]
    apply evaluateCall_loosens h haccepted
    · exact firstArgument_loosens h hvalues
    · intro hname
      exact hpresent (hname ▸ Expr.mem_functions_call name arguments)
    · exact fun hname ↦ head_literal (haccepted.duration hname)
    · rw [evaluateAll_eq, evaluateAll_eq, List.getElem?_map, List.getElem?_map]
      cases hsecond : arguments[1]? with
      | none => rfl
      | some argument =>
        -- only the defaulted functions have a second argument
        have hdefaulted : name ∈ Expr.DEFAULTED := by
          refine haccepted.arity.resolve_right fun hle ↦ ?_
          rw [List.getElem?_eq_none hle] at hsecond
          simp at hsecond
        rw [Option.map_some, Option.map_some,
          hoptional argument (Expr.mem_optionalArguments hdefaulted hsecond)]

theorem evaluateAll_loosens (h : context.Looser context') : ∀ arguments : List Expr,
    (∀ argument ∈ arguments, argument.validate capacity = .ok ()) →
    (∀ argument ∈ arguments, "has" ∈ argument.functions →
      ∀ metric, context.present metric = context'.present metric) →
    (∀ argument ∈ arguments, ∀ optional ∈ argument.optionalArguments,
      evaluate context optional = evaluate context' optional) →
    List.Forall₂ Evaluated.Loosens (evaluateAll context arguments) (evaluateAll context' arguments)
  | [], _, _, _ => .nil
  | argument :: rest, hvalid, hpresent, hoptional => by
    rw [List.forall_mem_cons] at hvalid hpresent hoptional
    exact .cons (evaluate_loosens h argument hvalid.1 hpresent.1 hoptional.1)
      (evaluateAll_loosens h rest hvalid.2 hpresent.2 hoptional.2)

end

end Looser

end Rvx.Tracking
