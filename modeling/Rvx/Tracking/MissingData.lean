import Rvx.Tracking.ThreeValued

/-!
# Missing data

A metric without samples and without a current value leaves every expression open that it could
decide, as long as it does not stand in an optional argument: there the default takes its place.
-/

namespace Rvx.Tracking

open Core Check AlertEngine

namespace EvalContext

/-- The context holds no sample and no current value of a metric. -/
structure Missing (context : EvalContext) (metric : String) : Prop where
  samples : context.samples metric = []
  current : context.current metric = none

/-- The second context differs in what it holds of one metric only. -/
structure AgreesOff (metric : String) (context context' : EvalContext) : Prop where
  step : context.step = context'.step
  observed : context.observedAtNs = context'.observedAtNs
  started : context.startedAtNs = context'.startedAtNs
  lastObserved : context.lastObservedAtNs = context'.lastObservedAtNs
  tick : context.tick = context'.tick
  metrics : ∀ name, name ≠ metric → context.metrics.get? name = context'.metrics.get? name
  series : ∀ name, name ≠ metric → context.series.get? name = context'.series.get? name
  pending : ∀ name, name ≠ metric → context.pending.get? name = context'.pending.get? name

end EvalContext

section Missing

variable {rule : AlertRule} {context context' : EvalContext} {metric : String}

theorem metricValue_missing (h : context.Missing metric) (hwhole : rule.partialWindow = false)
    (window : Option Window) :
    (contextOf context rule).metricValue metric window = .unknown ∨ window = some (.points 0) := by
  have hsamples : (contextOf context rule).samples metric = [] := h.samples
  have hcurrent : (contextOf context rule).current metric = none := h.current
  have hwindow : (contextOf context rule).partialWindow = false := hwhole
  cases window with
  | none =>
    left
    have hlast : ((contextOf context rule).series.get? metric).bind List.getLast? = none := by
      rw [EvalContext.samples, List.append_eq_nil_iff] at hsamples
      cases hseries : (contextOf context rule).series.get? metric with
      | none => rfl
      | some stored =>
        rw [hseries, Option.getD_some] at hsamples
        rw [Option.bind_some, hsamples.1]
        rfl
    simp [EvalContext.metricValue, hcurrent, hlast]
  | some window =>
    cases window with
    | points points =>
      cases points with
      | zero => exact Or.inr rfl
      | succ points =>
        left
        simp [EvalContext.metricValue, hsamples, hwindow]
    | duration duration =>
      left
      simp [EvalContext.metricValue, hsamples, hwindow]

theorem metricValue_zero (context : EvalContext) (name : String) :
    context.metricValue name (some (.points 0)) = .series [] := by
  simp [EvalContext.metricValue]

namespace EvalContext.AgreesOff

theorem sameClock (h : AgreesOff metric context context') (rule : AlertRule) :
    (contextOf context rule).SameClock (contextOf context' rule) :=
  ⟨h.step, h.observed, h.started, h.lastObserved, rfl⟩

/-- Both contexts know the same of every other metric. -/
theorem sameMetric (h : AgreesOff metric context context') (rule : AlertRule) {name : String}
    (hname : name ≠ metric) (capacity : ℕ) (window : Option Window) :
    (contextOf context rule).SameMetric capacity (contextOf context' rule) name window := by
  have hmetrics : (contextOf context rule).metrics.get? name =
      (contextOf context' rule).metrics.get? name := h.metrics name hname
  have hseries : (contextOf context rule).series.get? name =
      (contextOf context' rule).series.get? name := h.series name hname
  have hpending : (contextOf context rule).pending.get? name =
      (contextOf context' rule).pending.get? name := h.pending name hname
  have hsamples : (contextOf context rule).samples name =
      (contextOf context' rule).samples name := by
    rw [samples, hseries, hpending, samples]
  have hcurrent : (contextOf context rule).current name =
      (contextOf context' rule).current name := by
    rw [current, hmetrics, hpending, current]
  have hwhole : (contextOf context rule).partialWindow =
      (contextOf context' rule).partialWindow := rfl
  have hvalue := metricValue_congr hwhole (h.sameClock rule) h.tick hcurrent (by rw [hseries])
    hsamples
  refine ⟨hvalue window, fun _ ↦ hvalue _, by rw [hsamples], ?_⟩
  unfold present
  simp only [← OrderedMap.get?_isSome, hmetrics, hseries, hpending]
  rw [show (contextOf context rule).tick = (contextOf context' rule).tick from h.tick]

/-- Where a metric is missing less is known. -/
theorem looser (h : AgreesOff metric context context') (hmissing : context.Missing metric)
    (hwhole : rule.partialWindow = false) :
    (contextOf context rule).Looser (contextOf context' rule) where
  toSameClock := h.sameClock rule
  value name window := by
    by_cases hname : name = metric
    · subst hname
      rcases metricValue_missing hmissing hwhole window with hunknown | hzero
      · rw [hunknown]
        exact .unknown _
      · rw [hzero, metricValue_zero, metricValue_zero]
        exact .same _
    · exact .of_eq (h.sameMetric rule hname 0 window).value
  last name := by
    by_cases hname : name = metric
    · subst hname
      have hsamples : (contextOf context rule).samples name = [] := hmissing.samples
      rw [hsamples]
      exact Or.inl rfl
    · exact Or.inr (h.sameMetric rule hname 0 none).last

end EvalContext.AgreesOff

end Missing

section Sample

/-- A rule that is accepted with any condition that parses. -/
def conditionRule (condition : String) : AlertRule where
  name := "condition"
  condition := condition
  level := .warning
  message := ""
  mode := .edge
  forSteps := 1
  forDurationMs := 0
  partialWindow := false
  axis := .wallTime
  cooldownSeconds := 0
  maxFires := none
  notifyRecovery := false
  tags := []
  channels := []

end Sample

end Rvx.Tracking
