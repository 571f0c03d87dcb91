import Rvx.Lib.Ring
import Rvx.Tracking.AlertRuns
import Rvx.Tracking.MissingData

/-!
# Bounded windows

The engine keeps the newest samples of each metric only.  Evaluating a rule on them is compared with
evaluating it on every sample a run has seen.
-/

namespace Rvx.Tracking

open Core Check AlertEngine

/-! ## The complete history -/

/-- The sample an input adds to a metric. -/
def inputSample (name : String) : ReplayInput → Option Sample
  | .step step observedAtNs metrics =>
    ((metrics.get? name).bind fun value ↦ numericValue value.value).map fun value ↦
      ⟨observedAtNs, step, value⟩
  | .tick _ _ => none

/-- The samples of all metrics an input adds. -/
def inputSamples : ReplayInput → List (String × Sample)
  | .step step observedAtNs metrics => samplesOf step observedAtNs metrics
  | .tick _ _ => []

/-- The time of a step. -/
def stepTime : ReplayInput → Option ℤ
  | .step _ observedAtNs _ => some observedAtNs
  | .tick _ _ => none

/-- The times of the steps of a run. -/
def stepTimes (inputs : List ReplayInput) : List ℤ := inputs.filterMap stepTime

/-- Append a sample to its series and drop nothing. -/
def recordSample (series : OrderedMap String (List Sample)) (entry : String × Sample) :
    OrderedMap String (List Sample) :=
  series.insert entry.1 ((series.get? entry.1).getD [] ++ [entry.2])

/-- Every sample of a run. -/
def completeSeries (inputs : List ReplayInput) : OrderedMap String (List Sample) :=
  inputs.foldl (fun series input ↦ (inputSamples input).foldl recordSample series) .empty

namespace AlertEngine

/-- The engine after a run, each update applied before the next input. -/
def run (text : FloatText) (engine : AlertEngine) (inputs : List ReplayInput) : AlertEngine :=
  inputs.foldl (fun engine input ↦ engine.apply (engine.update text input)) engine

/-- The context of an input, with the complete history in place of the retained samples. -/
def completeContext (engine : AlertEngine) (inputs : List ReplayInput) (input : ReplayInput) :
    EvalContext :=
  { engine.inputContext input with series := completeSeries inputs }

end AlertEngine

section Series

variable {name : String} {input : ReplayInput}

/-- An input adds at most one sample to a metric. -/
theorem find?_inputSamples (name : String) (input : ReplayInput) :
    ((inputSamples input).find? fun entry ↦ entry.1 = name).map Prod.snd = inputSample name input := by
  cases input with
  | tick step observedAtNs => rfl
  | step step observedAtNs metrics =>
    have hfind := OrderedMap.find?_filterMap (fun value : Json ↦
      (numericValue value.value).map fun value ↦ (⟨observedAtNs, step, value⟩ : Sample))
      metrics.nodup_keys name
    simp only [Option.map_map, Function.comp_def] at hfind
    unfold inputSamples inputSample samplesOf
    dsimp only
    rw [hfind, OrderedMap.get?]
    cases (metrics.entries.find? fun entry ↦ decide (entry.1 = name)).map Prod.snd with
    | none => rfl
    | some value => rfl

theorem nodup_inputSamples (input : ReplayInput) :
    ((inputSamples input).map Prod.fst).Nodup := by
  cases input with
  | tick step observedAtNs => exact List.nodup_nil
  | step step observedAtNs metrics =>
    refine metrics.nodup_keys.sublist ?_
    unfold inputSamples samplesOf OrderedMap.keys
    dsimp only
    induction metrics.entries with
    | nil => exact .slnil
    | cons entry rest ih =>
      rw [List.filterMap_cons]
      cases numericValue entry.2.value with
      | none => exact ih.cons _
      | some value => exact ih.cons_cons _

/-- What an input leaves in the retained series of a metric. -/
theorem get?_pushSamples (capacity : ℕ) (series : OrderedMap String (List Sample)) :
    ((inputSamples input).foldl (pushSample capacity) series).get? name =
      ((inputSample name input).map fun sample ↦
        ((series.get? name).getD [] ++ [sample]).rtake capacity).or (series.get? name) := by
  rw [← find?_inputSamples]
  exact OrderedMap.get?_foldl_insert
    (fun samples sample ↦ (samples.getD [] ++ [sample]).rtake capacity)
    (nodup_inputSamples input) series name

theorem get?_recordSamples (series : OrderedMap String (List Sample)) :
    ((inputSamples input).foldl recordSample series).get? name =
      ((inputSample name input).map fun sample ↦ (series.get? name).getD [] ++ [sample]).or
        (series.get? name) := by
  rw [← find?_inputSamples]
  exact OrderedMap.get?_foldl_insert (fun samples sample ↦ samples.getD [] ++ [sample])
    (nodup_inputSamples input) series name

theorem completeSeries_snoc (inputs : List ReplayInput) :
    completeSeries (inputs ++ [input]) =
      (inputSamples input).foldl recordSample (completeSeries inputs) := by
  rw [completeSeries, List.foldl_append]
  rfl

/-- The complete series of a metric are its samples, in order. -/
theorem get?_completeSeries (name : String) (inputs : List ReplayInput) :
    ((completeSeries inputs).get? name).getD [] = inputs.filterMap (inputSample name) := by
  induction inputs using List.reverseRecOn with
  | nil => rfl
  | append_singleton inputs input ih =>
    rw [completeSeries_snoc, get?_recordSamples, List.filterMap_append, ← ih]
    cases hsample : inputSample name input with
    | none => simp [hsample]
    | some sample => simp [hsample]

/-- The series of a metric hold the newest samples of its complete history. -/
theorem get?_run {text : FloatText} {engine : AlertEngine} (hseries : engine.series = .empty)
    (name : String) (inputs : List ReplayInput) :
    (engine.run text inputs).capacity = engine.capacity ∧
      (engine.run text inputs).series.get? name =
        ((completeSeries inputs).get? name).map fun samples ↦ samples.rtake engine.capacity := by
  induction inputs using List.reverseRecOn with
  | nil =>
    refine ⟨rfl, ?_⟩
    rw [show (engine.run text []).series = engine.series from rfl, hseries]
    rfl
  | append_singleton inputs input ih =>
    obtain ⟨hcapacity, hget⟩ := ih
    have hrun : engine.run text (inputs ++ [input]) =
        (engine.run text inputs).apply ((engine.run text inputs).update text input) := by
      rw [run, List.foldl_append]
      rfl
    have hsamples : ((engine.run text inputs).update text input).samples = inputSamples input := by
      cases input <;> rfl
    rw [hrun]
    refine ⟨hcapacity, ?_⟩
    have hpush := @get?_pushSamples name input (engine.run text inputs).capacity
      (engine.run text inputs).series
    rw [show ((engine.run text inputs).apply ((engine.run text inputs).update text input)).series =
        (inputSamples input).foldl (pushSample (engine.run text inputs).capacity)
          (engine.run text inputs).series by rw [← hsamples]; rfl, hpush, completeSeries_snoc,
      get?_recordSamples, hget, hcapacity]
    cases inputSample name input with
    | none => rfl
    | some sample =>
      rw [Option.map_some, Option.map_some, Option.some_or, Option.some_or, Option.map_some]
      congr 1
      cases (completeSeries inputs).get? name with
      | none => rfl
      | some samples => exact Ring.rtake_rtake_append samples [sample] le_rfl

theorem stepTime_of_sample {sample : Sample} (h : inputSample name input = some sample) :
    stepTime input = some sample.observedAtNs := by
  cases input with
  | tick step observedAtNs => simp [inputSample] at h
  | step step observedAtNs metrics =>
    obtain ⟨value, -, rfl⟩ := Option.map_eq_some_iff.mp h
    rfl

/-- Where the steps ascend in time, so do the samples of a metric. -/
theorem ascending_samples {inputs : List ReplayInput}
    (h : (stepTimes inputs).Pairwise (· < ·)) (name : String) :
    (inputs.filterMap (inputSample name)).Pairwise fun sample later ↦
      sample.observedAtNs < later.observedAtNs := by
  have hsublist : ((inputs.filterMap (inputSample name)).map Sample.observedAtNs).Sublist
      (stepTimes inputs) := by
    clear h
    unfold stepTimes
    induction inputs with
    | nil => exact .slnil
    | cons input rest ih =>
      rw [List.filterMap_cons, List.filterMap_cons]
      cases hsample : inputSample name input with
      | none =>
        cases stepTime input with
        | none => exact ih
        | some time => exact ih.cons _
      | some sample =>
        rw [stepTime_of_sample hsample]
        exact ih.cons_cons _
  exact List.pairwise_map.mp (h.sublist hsublist)

end Series

/-! ## Reading the retained samples -/

section Windows

variable {text : FloatText} {engine : AlertEngine} {inputs : List ReplayInput}
  {input : ReplayInput} {rule : AlertRule}

theorem pending_inputContext (engine : AlertEngine) (input : ReplayInput) (name : String) :
    (engine.inputContext input).pending.get? name = inputSample name input := by
  cases input with
  | tick step observedAtNs => rfl
  | step step observedAtNs metrics =>
    rw [← find?_inputSamples]
    have hfold := OrderedMap.get?_foldl_insert (fun (_ : Option Sample) sample ↦ sample)
      (nodup_inputSamples (.step step observedAtNs metrics)) .empty name
    rw [OrderedMap.get?_empty, Option.or_none, Option.map_id'] at hfold
    exact hfold

/-- The two contexts of an input: with the retained samples and with all samples. -/
structure Truncated (capacity : ℕ) (ring full : EvalContext) : Prop
    extends ring.SameClock full where
  capacity_pos : 0 < capacity
  tick : ring.tick = full.tick
  whole : ring.partialWindow = false
  whole' : full.partialWindow = false
  metrics : ring.metrics = full.metrics
  pending : ring.pending = full.pending
  series : ∀ name, ring.series.get? name =
    (full.series.get? name).map fun samples ↦ samples.rtake capacity
  ascending : ∀ name, (full.samples name).Pairwise fun sample later ↦
    sample.observedAtNs < later.observedAtNs

theorem truncated_run (hseries : engine.series = .empty) (hcapacity : 0 < engine.capacity)
    (hwhole : rule.partialWindow = false)
    (htimes : (stepTimes (inputs ++ [input])).Pairwise (· < ·)) :
    Truncated engine.capacity (contextOf ((engine.run text inputs).inputContext input) rule)
      (contextOf ((engine.run text inputs).completeContext inputs input) rule) where
  step := rfl
  observed := rfl
  started := rfl
  lastObserved := rfl
  axis := rfl
  capacity_pos := hcapacity
  tick := rfl
  whole := hwhole
  whole' := hwhole
  metrics := rfl
  pending := rfl
  series name := by
    have hget := (@get?_run text _ hseries name inputs).2
    cases input <;> exact hget
  ascending name := by
    have hall := ascending_samples htimes name
    rw [List.filterMap_append, ← get?_completeSeries] at hall
    have hsamples : (contextOf ((engine.run text inputs).completeContext inputs input)
        rule).samples name = ((completeSeries inputs).get? name).getD [] ++
          [input].filterMap (inputSample name) := by
      unfold EvalContext.samples
      rw [show (contextOf ((engine.run text inputs).completeContext inputs input)
        rule).pending.get? name = inputSample name input from
          pending_inputContext (engine.run text inputs) input name]
      cases hsample : inputSample name input <;> simp [hsample] <;> rfl
    rw [hsamples]
    exact hall

/-- The interval of a duration window begins before the oldest sample a context retains. -/
def ReachesPast (context : EvalContext) (metric : String) (duration : ℤ) : Prop :=
  ∃ oldest, (context.samples metric).head? = some oldest ∧
    saturate (context.observedAtNs - duration) < oldest.observedAtNs

namespace Truncated

variable {capacity : ℕ} {ring full : EvalContext} {name : String}

theorem samples (h : Truncated capacity ring full) (name : String) :
    ring.samples name = ((full.series.get? name).getD []).rtake capacity ++
      (full.pending.get? name).toList := by
  rw [EvalContext.samples, h.series, h.pending]
  cases full.series.get? name with
  | none => simp [List.rtake]
  | some samples => rfl

theorem last (h : Truncated capacity ring full) (name : String) :
    (ring.samples name).getLast? = (full.samples name).getLast? := by
  rw [h.samples, Ring.getLast?_rtake_append _ _ h.capacity_pos, EvalContext.samples]

theorem current (h : Truncated capacity ring full) (name : String) :
    ring.current name = full.current name := by
  rw [EvalContext.current, h.pending, h.metrics, EvalContext.current]

theorem present (h : Truncated capacity ring full) (name : String) :
    ring.present name = full.present name := by
  unfold EvalContext.present
  simp only [← OrderedMap.get?_isSome, h.series, h.pending, h.metrics, h.tick, Option.isSome_map]

/-- Without a window a metric has the same value. -/
theorem metricValue_none (h : Truncated capacity ring full) (name : String) :
    ring.metricValue name none = full.metricValue name none := by
  have hlast : (ring.series.get? name).bind List.getLast? =
      (full.series.get? name).bind List.getLast? := by
    rw [h.series]
    cases full.series.get? name with
    | none => rfl
    | some samples =>
      have hring := Ring.getLast?_rtake_append samples [] h.capacity_pos
      rw [List.append_nil, List.append_nil] at hring
      exact hring
  unfold EvalContext.metricValue
  dsimp only
  rw [h.current, hlast, h.tick]

/-- A window of points the ring cannot fill is open, every other one is the same. -/
theorem metricValue_points (h : Truncated capacity ring full) (name : String) (points : ℕ) :
    ring.metricValue name (some (.points points)) = .unknown ∨
      ring.metricValue name (some (.points points)) =
        full.metricValue name (some (.points points)) := by
  rw [EvalContext.metricValue_points h.whole, EvalContext.metricValue_points h.whole', h.samples]
  by_cases hshort : (((full.series.get? name).getD []).rtake capacity ++
      (full.pending.get? name).toList).length < points
  · rw [if_pos hshort]
    exact Or.inl rfl
  · have hfull : ¬ (full.samples name).length < points := by
      unfold EvalContext.samples
      unfold List.rtake at hshort
      rw [List.length_append, List.length_drop] at hshort
      rw [List.length_append]
      omega
    rw [if_neg hshort, if_neg hfull]
    exact Or.inr (congrArg Evaluated.series (Ring.rtake_of_le_length _ _ (Nat.not_lt.mp hshort)))

/-- A window of points within the capacity is the same. -/
theorem metricValue_points_of_le (h : Truncated capacity ring full) (name : String) {points : ℕ}
    (hpoints : points ≤ capacity) : ring.metricValue name (some (.points points)) =
      full.metricValue name (some (.points points)) := by
  rw [EvalContext.metricValue_points h.whole, EvalContext.metricValue_points h.whole', h.samples,
    EvalContext.samples, Ring.rtake_rtake_append _ _ hpoints]
  simp only [Ring.length_rtake_append_lt _ _ hpoints]

/-- A duration window is the same, or open and reaching past the oldest retained sample. -/
theorem metricValue_duration (h : Truncated capacity ring full) (name : String) (duration : ℤ) :
    ring.metricValue name (some (.duration duration)) =
        full.metricValue name (some (.duration duration)) ∨
      ring.metricValue name (some (.duration duration)) = .unknown ∧
        ReachesPast ring name duration := by
  have hascending := h.ascending name
  rw [EvalContext.metricValue_duration h.whole, EvalContext.metricValue_duration h.whole']
  cases hhead : (ring.samples name).head? with
  | none =>
    left
    have hempty : (full.samples name).head? = none := by
      have hlast := h.last name
      rw [List.head?_eq_none_iff] at hhead ⊢
      rw [hhead, List.getLast?_nil] at hlast
      exact List.getLast?_eq_none_iff.mp hlast.symm
    rw [hempty]
    rfl
  | some oldest =>
    by_cases hcovered : oldest.observedAtNs ≤ saturate (ring.observedAtNs - duration)
    · left
      rw [h.samples] at hhead ⊢
      unfold EvalContext.samples at hascending ⊢
      obtain ⟨first, hfirst, hle⟩ := Ring.head?_rtake_append hascending hhead
      have hfilter := Ring.filter_rtake_append hascending hhead hcovered
      rw [hfirst, ← h.observed]
      simp only [Option.any_some, hcovered, hle.trans hcovered, decide_true, if_true]
      exact congrArg Evaluated.series hfilter
    · right
      refine ⟨?_, oldest, hhead, not_le.mp hcovered⟩
      simp [hcovered]

/-- The ring knows less, and nothing less where no duration window reaches past it. -/
theorem looser (h : Truncated capacity ring full) : ring.Looser full where
  toSameClock := h.toSameClock
  value name window := by
    cases window with
    | none => exact .of_eq (h.metricValue_none name)
    | some window =>
      cases window with
      | points points =>
        rcases h.metricValue_points name points with hunknown | hsame
        · rw [hunknown]
          exact .unknown _
        · exact .of_eq hsame
      | duration duration =>
        rcases h.metricValue_duration name duration with hsame | ⟨hunknown, -⟩
        · exact .of_eq hsame
        · rw [hunknown]
          exact .unknown _
  last name := Or.inr (h.last name)

theorem sameMetric (h : Truncated capacity ring full) {window : Option Window}
    (hpoints : ∀ points, window = some (.points points) → points ≤ capacity)
    (hduration : ∀ duration, window = some (.duration duration) →
      ¬ ReachesPast ring name duration) :
    ring.SameMetric capacity full name window where
  value := by
    cases window with
    | none => exact h.metricValue_none name
    | some window =>
      cases window with
      | points points => exact h.metricValue_points_of_le name (hpoints points rfl)
      | duration duration =>
        exact (h.metricValue_duration name duration).resolve_right fun hpast ↦
          hduration duration rfl hpast.2
  pair hcapacity := h.metricValue_points_of_le name hcapacity
  last := h.last name
  present := h.present name

end Truncated

/-- An accepted window of points is within the capacity. -/
theorem points_le_of_reads {capacity : ℕ} {expression : Expr}
    (hvalid : expression.validate capacity = .ok ()) {name : String} {points : ℕ}
    (hread : (name, some (.points points)) ∈ expression.reads) : points ≤ capacity := by
  obtain ⟨part, hpart, heq⟩ := List.mem_filterMap.mp hread
  have hpartValid := Expr.validate_subterms expression hvalid part hpart
  cases part with
  | metric metric window =>
    obtain ⟨-, rfl⟩ := Prod.mk.inj (Option.some.inj heq)
    simp only [Expr.validate, bind_eq_ok, exists_unit, reject_ok] at hpartValid
    exact Nat.not_lt.mp hpartValid.2
  | _ => simp at heq

/-- The bounded windows agree with the complete history: windows of points are the same, duration
windows are the same or open, and so is every expression in which no optional argument reads a
duration window. -/
theorem windows_agree {rules : List AlertRule} {startedAtNs : ℤ} {capacity : ℕ}
    (hnew : AlertEngine.new rules startedAtNs capacity = .ok engine) {expression : Expr}
    (hrule : validateRule rule capacity = .ok expression) (hwhole : rule.partialWindow = false)
    (htimes : (stepTimes (inputs ++ [input])).Pairwise (· < ·))
    (hoptional : ∀ argument ∈ expression.optionalArguments, ∀ metric duration,
      (metric, some (.duration duration)) ∉ argument.reads)
    (text : FloatText) {ring full : EvalContext}
    (hring : ring = contextOf ((engine.run text inputs).inputContext input) rule)
    (hfull : full = contextOf ((engine.run text inputs).completeContext inputs input) rule) :
    (∀ metric points, points ≤ capacity → ring.metricValue metric (some (.points points)) =
      full.metricValue metric (some (.points points))) ∧
    (∀ metric duration, ring.metricValue metric (some (.duration duration)) =
        full.metricValue metric (some (.duration duration)) ∨
      ring.metricValue metric (some (.duration duration)) = .unknown ∧
        ReachesPast ring metric duration) ∧
    (evaluate ring expression = evaluate full expression ∨
      (evaluate ring expression).truth = .unknown ∧ ∃ metric duration,
        (metric, some (.duration duration)) ∈ expression.reads ∧
          ReachesPast ring metric duration) := by
  simp only [AlertEngine.new, bind_eq_ok, reject_ok, exists_unit, pure_eq_ok] at hnew
  obtain ⟨hcapacity, -, compiled, -, rfl⟩ := hnew
  simp only [validateRule, bind_eq_ok, exists_unit, pure_eq_ok] at hrule
  obtain ⟨-, -, parsed, -, hvalid, -, rfl⟩ := hrule
  have htruncated : Truncated capacity ring full := by
    rw [hring, hfull]
    have hpos : 0 < capacity := Nat.pos_of_ne_zero fun hzero ↦ hcapacity (Or.inl hzero)
    exact @truncated_run text ⟨compiled, .empty, capacity, startedAtNs, none⟩ inputs input rule rfl
      hpos hwhole htimes
  refine ⟨fun metric points ↦ htruncated.metricValue_points_of_le metric,
    htruncated.metricValue_duration, ?_⟩
  by_cases hpast : ∃ metric duration, (metric, some (.duration duration)) ∈ parsed.reads ∧
      ReachesPast ring metric duration
  · have hsame (argument : Expr) (hargument : argument ∈ parsed.optionalArguments) :
        evaluate ring argument = evaluate full argument := by
      have hargumentValid := Expr.validate_optional hvalid hargument
      apply evaluate_congr htruncated.toSameClock argument hargumentValid
      rintro ⟨metric, window⟩ hread
      apply htruncated.sameMetric
      · rintro points rfl
        exact points_le_of_reads hargumentValid hread
      · rintro duration rfl
        exact absurd hread (hoptional argument hargument metric duration)
    have hloosens := evaluate_loosens htruncated.looser parsed hvalid
      (fun _ ↦ htruncated.present) hsame
    exact hloosens.eq_or_unknown.imp id fun hunknown ↦ ⟨hunknown, hpast⟩
  · left
    apply evaluate_congr htruncated.toSameClock parsed hvalid
    rintro ⟨metric, window⟩ hread
    apply htruncated.sameMetric
    · rintro points rfl
      exact points_le_of_reads hvalid hread
    · rintro duration rfl hreaches
      exact hpast ⟨metric, duration, hread, hreaches⟩

end Windows

section Sample

/-- Four steps, five seconds apart. -/
def sampleStep (index : ℕ) (loss : ℤ) : ReplayInput :=
  .step index (index * 5000000000) (.ofList [("loss", .int loss), ("lr", .int 5)])

def sampleHistory : List ReplayInput := [sampleStep 0 0, sampleStep 1 0, sampleStep 2 1]

theorem sampleHistory_ascending : (stepTimes (sampleHistory ++ [sampleStep 3 3])).Pairwise (· < ·) := by
  decide

/-- The window of twelve seconds reaches past the two samples that are retained. -/
theorem windows_agree_sample : ∃ engine expression,
    AlertEngine.new [] 0 2 = .ok engine ∧
      validateRule (conditionRule "stalled(loss[2], 3) and mean(lr[12s]) > 1") 2 =
        .ok expression ∧
      (evaluate (contextOf ((engine.run sampleText sampleHistory).inputContext (sampleStep 3 3))
        (conditionRule "stalled(loss[2], 3) and mean(lr[12s]) > 1")) expression).truth = .unknown ∧
      ∃ metric duration, (metric, some (.duration duration)) ∈ expression.reads ∧
        ReachesPast (contextOf ((engine.run sampleText sampleHistory).inputContext
          (sampleStep 3 3)) (conditionRule "stalled(loss[2], 3) and mean(lr[12s]) > 1"))
          metric duration := by
  have hsample : ((AlertEngine.new [] 0 2).toOption.bind fun engine ↦
      (validateRule (conditionRule "stalled(loss[2], 3) and mean(lr[12s]) > 1") 2).toOption.map
        fun expression ↦ (expression.optionalArguments.map Expr.reads,
          (evaluate (contextOf ((engine.run sampleText sampleHistory).inputContext
            (sampleStep 3 3)) (conditionRule "stalled(loss[2], 3) and mean(lr[12s]) > 1"))
            expression).truth,
          (evaluate (contextOf ((engine.run sampleText sampleHistory).completeContext sampleHistory
            (sampleStep 3 3)) (conditionRule "stalled(loss[2], 3) and mean(lr[12s]) > 1"))
            expression).truth)) = some ([[]], .unknown, .yes) := by decide +kernel
  obtain ⟨engine, hnew, hrule⟩ := Option.bind_eq_some_iff.mp hsample
  obtain ⟨expression, hrule, hvalues⟩ := Option.map_eq_some_iff.mp hrule
  simp only [Prod.mk.injEq] at hvalues
  obtain ⟨hreads, hring, hfull⟩ := hvalues
  have hnew := toOption_eq_some.mp hnew
  have hrule := toOption_eq_some.mp hrule
  refine ⟨engine, expression, hnew, hrule, hring, ?_⟩
  have hagree := (windows_agree hnew hrule rfl sampleHistory_ascending ?_ sampleText rfl rfl).2.2
  · refine (hagree.resolve_left fun heq ↦ ?_).2
    rw [heq, hfull] at hring
    simp at hring
  · intro argument hargument metric duration hread
    have hmem : argument.reads ∈ [([] : List (String × Option Window))] :=
      hreads ▸ List.mem_map_of_mem hargument
    rw [List.mem_singleton.mp hmem] at hread
    simp at hread

/-- In an optional argument a window that reaches past the retained samples decides: the bound it
stands for becomes the default. -/
theorem windows_differ : ∃ engine expression,
    AlertEngine.new [] 0 2 = .ok engine ∧
      validateRule (conditionRule "stalled(loss[2], mean(lr[12s]))") 2 = .ok expression ∧
      (stepTimes (sampleHistory ++ [sampleStep 3 3])).Pairwise (· < ·) ∧
      (evaluate (contextOf ((engine.run sampleText sampleHistory).inputContext (sampleStep 3 3))
        (conditionRule "stalled(loss[2], mean(lr[12s]))")) expression).truth = .no ∧
      (evaluate (contextOf ((engine.run sampleText sampleHistory).completeContext sampleHistory
        (sampleStep 3 3)) (conditionRule "stalled(loss[2], mean(lr[12s]))")) expression).truth =
          .yes := by
  have hsample : ((AlertEngine.new [] 0 2).toOption.bind fun engine ↦
      (validateRule (conditionRule "stalled(loss[2], mean(lr[12s]))") 2).toOption.map
        fun expression ↦
          ((evaluate (contextOf ((engine.run sampleText sampleHistory).inputContext
            (sampleStep 3 3)) (conditionRule "stalled(loss[2], mean(lr[12s]))"))
            expression).truth,
          (evaluate (contextOf ((engine.run sampleText sampleHistory).completeContext sampleHistory
            (sampleStep 3 3)) (conditionRule "stalled(loss[2], mean(lr[12s]))"))
            expression).truth)) = some (.no, .yes) := by decide +kernel
  obtain ⟨engine, hnew, hrule⟩ := Option.bind_eq_some_iff.mp hsample
  obtain ⟨expression, hrule, hvalues⟩ := Option.map_eq_some_iff.mp hrule
  obtain ⟨hring, hfull⟩ := Prod.mk.inj hvalues
  exact ⟨engine, expression, toOption_eq_some.mp hnew, toOption_eq_some.mp hrule,
    sampleHistory_ascending, hring, hfull⟩

end Sample

end Rvx.Tracking
