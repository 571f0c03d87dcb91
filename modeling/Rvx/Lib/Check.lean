import Mathlib.Data.List.Basic

/-!
# Sequences of checks

A validation is a sequence of checks that stops at the first failure.  The rules below turn the
success of such a sequence into the conjunction of what its checks establish.
-/

namespace Rvx.Check

variable {ε ε' α β : Type}

/-- Fail with `reason` when the condition holds. -/
def reject (bad : Prop) [Decidable bad] (reason : ε) : Except ε Unit :=
  if bad then .error reason else .ok ()

@[simp]
theorem reject_ok {bad : Prop} [Decidable bad] {reason : ε} {value : Unit} :
    reject bad reason = .ok value ↔ ¬ bad := by
  unfold reject
  split <;> simp_all

@[simp]
theorem bind_eq_ok {check : Except ε α} {next : α → Except ε β} {value : β} :
    (check >>= next) = .ok value ↔ ∃ middle, check = .ok middle ∧ next middle = .ok value := by
  cases check <;> simp [bind, Except.bind]

theorem bind_eq_error {check : Except ε α} {next : α → Except ε β} {reason : ε} :
    (check >>= next) = .error reason ↔
      check = .error reason ∨ ∃ middle, check = .ok middle ∧ next middle = .error reason := by
  cases check <;> simp [bind, Except.bind]

theorem exists_unit {property : Unit → Prop} : (∃ value, property value) ↔ property () :=
  ⟨fun ⟨(), h⟩ ↦ h, fun h ↦ ⟨(), h⟩⟩

@[simp]
theorem pure_eq_ok {value value' : α} : (pure value : Except ε α) = .ok value' ↔ value = value' := by
  simp [pure, Except.pure]

@[simp]
theorem mapError_eq_ok {check : Except ε α} {translate : ε → ε'} {value : α} :
    check.mapError translate = .ok value ↔ check = .ok value := by
  cases check <;> simp [Except.mapError]

theorem mapError_eq_error {check : Except ε α} {translate : ε → ε'} {reason : ε'} :
    check.mapError translate = .error reason ↔ ∃ cause, check = .error cause ∧ translate cause = reason := by
  cases check <;> simp [Except.mapError]

theorem toOption_eq_some {check : Except ε α} {value : α} :
    check.toOption = some value ↔ check = .ok value := by
  cases check <;> simp [Except.toOption]

/-! ## Loops -/

theorem forM_eq_ok {check : α → Except ε Unit} {list : List α} :
    list.forM check = .ok () ↔ ∀ item ∈ list, check item = .ok () := by
  induction list with
  | nil => simp [pure, Except.pure]
  | cons item rest ih =>
    rw [List.forM_eq_forM, List.forM_cons, bind_eq_ok, exists_unit, ← List.forM_eq_forM, ih,
      List.forall_mem_cons]

theorem foldlM_cons_eq_ok {step : α → β → Except ε α} {item : β} {rest : List β} {start stop : α} :
    (item :: rest).foldlM step start = .ok stop ↔
      ∃ middle, step start item = .ok middle ∧ rest.foldlM step middle = .ok stop := by
  rw [List.foldlM_cons, bind_eq_ok]

theorem foldlM_append_eq_ok {step : α → β → Except ε α} {list rest : List β} {start stop : α} :
    (list ++ rest).foldlM step start = .ok stop ↔
      ∃ middle, list.foldlM step start = .ok middle ∧ rest.foldlM step middle = .ok stop := by
  rw [List.foldlM_append, bind_eq_ok]

/-- A property that every turn of a loop keeps holds after the loop. -/
theorem foldlM_keeps {step : α → β → Except ε α} {property : α → Prop} {list : List β}
    (hstep : ∀ item ∈ list, ∀ state state', property state → step state item = .ok state' →
      property state')
    {start stop : α} (hstart : property start) (h : list.foldlM step start = .ok stop) :
    property stop := by
  induction list generalizing start with
  | nil =>
    rw [List.foldlM_nil, pure_eq_ok] at h
    exact h ▸ hstart
  | cons item rest ih =>
    obtain ⟨middle, hitem, hrest⟩ := foldlM_cons_eq_ok.mp h
    refine ih (fun other hother ↦ hstep other (List.mem_cons_of_mem _ hother)) ?_ hrest
    exact hstep item List.mem_cons_self _ _ hstart hitem

/-- What a loop writes, if every turn appends to an output and checks its item. -/
theorem foldlM_appends {γ : Type} {step : α → β → Except ε α} {view : α → List γ}
    {new : β → List γ} {good : β → Prop}
    (hstep : ∀ {state item state'}, step state item = .ok state' →
      view state' = view state ++ new item ∧ good item)
    {list : List β} {start stop : α} (h : list.foldlM step start = .ok stop) :
    view stop = view start ++ list.flatMap new ∧ ∀ item ∈ list, good item := by
  induction list generalizing start with
  | nil =>
    obtain rfl : start = stop := by simpa using h
    simp
  | cons item rest ih =>
    obtain ⟨middle, hitem, hrest⟩ := foldlM_cons_eq_ok.mp h
    obtain ⟨hview, hgood⟩ := hstep hitem
    obtain ⟨hviews, hall⟩ := ih hrest
    refine ⟨by rw [hviews, hview, List.flatMap_cons, List.append_assoc], ?_⟩
    exact List.forall_mem_cons.mpr ⟨hgood, hall⟩

end Rvx.Check
