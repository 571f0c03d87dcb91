import Mathlib.Data.List.Count
import Mathlib.Order.Bounds.Basic
import Mathlib.Order.Nat

/-!
# Order statistics

The smallest and the largest of some values, and the smallest value with at least so many values at
or below it, are read off a sorted list at fixed places.
-/

namespace Rvx.OrderStatistics

variable {α : Type} [LinearOrder α]

/-- How many values are at or below a bound. -/
def rank (values : List α) (bound : α) : ℕ := values.countP fun value ↦ value ≤ bound

theorem rank_perm {values values' : List α} (h : values.Perm values') (bound : α) :
    rank values bound = rank values' bound := h.countP_eq _

/-- A value has the values before it at or below it. -/
theorem lt_rank {values : List α} (hsorted : values.Pairwise (· ≤ ·)) {place : ℕ} {value : α}
    (h : values[place]? = some value) : place < rank values value := by
  induction values generalizing place with
  | nil => simp at h
  | cons first rest ih =>
    rw [List.pairwise_cons] at hsorted
    cases place with
    | zero =>
      simp only [List.getElem?_cons_zero, Option.some.injEq] at h
      simp [rank, h]
    | succ place =>
      rw [List.getElem?_cons_succ] at h
      have hle := hsorted.1 value (List.mem_of_getElem? h)
      have hrest : place < rest.countP fun other ↦ other ≤ value := ih hsorted.2 h
      rw [rank, List.countP_cons_of_pos (by simpa using hle)]
      exact Nat.succ_lt_succ hrest

/-- Below a value there are at most the values before it. -/
theorem rank_le {values : List α} (hsorted : values.Pairwise (· ≤ ·)) {place : ℕ} {value bound : α}
    (h : values[place]? = some value) (hlt : bound < value) : rank values bound ≤ place := by
  induction values generalizing place with
  | nil => simp at h
  | cons first rest ih =>
    rw [List.pairwise_cons] at hsorted
    cases place with
    | zero =>
      simp only [List.getElem?_cons_zero, Option.some.injEq] at h
      have hnone : ∀ other ∈ first :: rest, ¬ other ≤ bound := by
        refine List.forall_mem_cons.mpr ⟨not_le.mpr (h ▸ hlt), fun other hother ↦ ?_⟩
        exact not_le.mpr (hlt.trans_le (h ▸ hsorted.1 other hother))
      rw [rank, List.countP_eq_zero.mpr (by simpa using hnone)]
    | succ place =>
      rw [List.getElem?_cons_succ] at h
      have hrest : (rest.countP fun other ↦ other ≤ bound) ≤ place := ih hsorted.2 h
      have hcons : rank (first :: rest) bound ≤ (rest.countP fun other ↦ other ≤ bound) + 1 := by
        rw [rank, List.countP_cons]
        split_ifs <;> omega
      omega

/-- The value at a place is the least with more values at or below it than the place. -/
theorem isLeast_getElem? {values : List α} (hsorted : values.Pairwise (· ≤ ·)) {place : ℕ}
    {value : α} (h : values[place]? = some value) :
    IsLeast {bound | bound ∈ values ∧ place < rank values bound} value := by
  refine ⟨⟨List.mem_of_getElem? h, lt_rank hsorted h⟩, fun bound hbound ↦ ?_⟩
  by_contra hnot
  exact absurd (rank_le hsorted h (not_le.mp hnot)) (not_le.mpr hbound.2)

theorem isLeast_head? {values : List α} (hsorted : values.Pairwise (· ≤ ·)) {value : α}
    (h : values.head? = some value) : IsLeast {bound | bound ∈ values} value := by
  rcases List.head?_eq_some_iff.mp h with ⟨rest, rfl⟩
  refine ⟨List.mem_cons_self, fun bound hbound ↦ ?_⟩
  cases List.mem_cons.mp hbound with
  | inl heq => exact heq.ge
  | inr hrest => exact (List.pairwise_cons.mp hsorted).1 bound hrest

theorem isGreatest_getLast? {values : List α} (hsorted : values.Pairwise (· ≤ ·)) {value : α}
    (h : values.getLast? = some value) : IsGreatest {bound | bound ∈ values} value := by
  rcases List.getLast?_eq_some_iff.mp h with ⟨before, rfl⟩
  refine ⟨by simp, fun bound hbound ↦ ?_⟩
  cases List.mem_append.mp hbound with
  | inl hbefore => exact (List.pairwise_append.mp hsorted).2.2 bound hbefore value (by simp)
  | inr hlast => exact (List.mem_singleton.mp hlast).le

/-- An optional least value, present when the set has one. -/
theorem eq_some_iff_isLeast {found : Option α} {set : Set α}
    (h : ∀ value, found = some value → IsLeast set value) (hsome : set.Nonempty → found.isSome = true)
    (value : α) : found = some value ↔ IsLeast set value := by
  refine ⟨h value, fun hleast ↦ ?_⟩
  rcases Option.isSome_iff_exists.mp (hsome ⟨value, hleast.1⟩) with ⟨other, hother⟩
  rw [hother, (h other hother).unique hleast]

theorem eq_some_iff_isGreatest {found : Option α} {set : Set α}
    (h : ∀ value, found = some value → IsGreatest set value)
    (hsome : set.Nonempty → found.isSome = true) (value : α) :
    found = some value ↔ IsGreatest set value := by
  refine ⟨h value, fun hgreatest ↦ ?_⟩
  rcases Option.isSome_iff_exists.mp (hsome ⟨value, hgreatest.1⟩) with ⟨other, hother⟩
  rw [hother, (h other hother).unique hgreatest]

end Rvx.OrderStatistics
