import Mathlib.Algebra.Order.Group.Int
import Mathlib.Data.List.Range

/-!
# Tilings of an interval of integers

Windows in ascending order that cover an interval without a gap.  Cutting an interval at ascending
points tiles it, and a window may be cut in two at any time.
-/

namespace Rvx

/-- The windows tile `[low, high]`. -/
def Tiles : (low high : ℤ) → List (ℤ × ℤ) → Prop
  | low, high, [] => low = high + 1
  | low, high, window :: rest => window.1 = low ∧ low ≤ window.2 ∧ Tiles (window.2 + 1) high rest

namespace Tiles

variable {low high : ℤ} {windows : List (ℤ × ℤ)}

theorem low_le (h : Tiles low high windows) : low ≤ high + 1 := by
  induction windows generalizing low with
  | nil => exact le_of_eq h
  | cons window rest ih =>
    obtain ⟨-, hle, hrest⟩ := h
    have hlow := ih hrest
    omega

/-- Every window lies in the interval. -/
theorem bounds (h : Tiles low high windows) :
    ∀ window ∈ windows, low ≤ window.1 ∧ window.1 ≤ window.2 ∧ window.2 ≤ high := by
  induction windows generalizing low with
  | nil => simp
  | cons first rest ih =>
    obtain ⟨hfirst, hle, hrest⟩ := h
    have hhigh := hrest.low_le
    rw [List.forall_mem_cons]
    refine ⟨⟨hfirst.ge, hfirst ▸ hle, by omega⟩, fun window hwindow ↦ ?_⟩
    obtain ⟨hlow, hproper, hupper⟩ := ih hrest window hwindow
    exact ⟨by omega, hproper, hupper⟩

/-- The windows ascend. -/
theorem pairwise (h : Tiles low high windows) :
    windows.Pairwise fun window later ↦ window.2 < later.1 := by
  induction windows generalizing low with
  | nil => exact List.Pairwise.nil
  | cons first rest ih =>
    obtain ⟨-, -, hrest⟩ := h
    refine List.pairwise_cons.mpr ⟨fun later hlater ↦ ?_, ih hrest⟩
    have hlow := (hrest.bounds later hlater).1
    omega

/-- Every point of the interval lies in a window. -/
theorem exists_window (h : Tiles low high windows) {point : ℤ} (hlow : low ≤ point)
    (hhigh : point ≤ high) : ∃ window ∈ windows, window.1 ≤ point ∧ point ≤ window.2 := by
  induction windows generalizing low with
  | nil =>
    have hempty : low = high + 1 := h
    omega
  | cons first rest ih =>
    obtain ⟨hfirst, -, hrest⟩ := h
    rcases le_or_gt point first.2 with hle | hgt
    · exact ⟨first, List.mem_cons_self, hfirst ▸ hlow, hle⟩
    · obtain ⟨window, hmem, hin⟩ := ih hrest hgt
      exact ⟨window, List.mem_cons_of_mem _ hmem, hin⟩

/-- Cutting the first window in two. -/
theorem bisect {first : ℤ × ℤ} {rest : List (ℤ × ℤ)} (h : Tiles low high (first :: rest)) {middle : ℤ}
    (hlow : first.1 ≤ middle) (hhigh : middle < first.2) :
    Tiles low high ((first.1, middle) :: (middle + 1, first.2) :: rest) := by
  obtain ⟨hfirst, -, hrest⟩ := h
  exact ⟨hfirst, hfirst ▸ hlow, rfl, hhigh, hrest⟩

theorem append {middle : ℤ} {later : List (ℤ × ℤ)} (h : Tiles low middle windows)
    (hlater : Tiles (middle + 1) high later) : Tiles low high (windows ++ later) := by
  induction windows generalizing low with
  | nil =>
    have hlow : low = middle + 1 := h
    rwa [List.nil_append, hlow]
  | cons first rest ih =>
    obtain ⟨hfirst, hle, hrest⟩ := h
    exact ⟨hfirst, hle, ih hrest⟩

/-- Ascending points cut the interval between the first and the last of them into windows. -/
theorem of_cuts {cut : ℕ → ℤ} {count : ℕ} (hcut : ∀ index < count, cut index < cut (index + 1)) :
    Tiles (cut 0) (cut count - 1)
      ((List.range count).map fun index ↦ (cut index, cut (index + 1) - 1)) := by
  induction count with
  | zero =>
    show cut 0 = cut 0 - 1 + 1
    omega
  | succ count ih =>
    rw [List.range_succ, List.map_append]
    refine (ih fun index hindex ↦ hcut index (by omega)).append ?_
    have hlast := hcut count (by omega)
    exact ⟨by simp, by dsimp only; omega, rfl⟩

/-- Items spread over the windows by an integer are every item once. -/
theorem flatMap_filter_perm {α : Type} {value : α → ℤ} {list : List α} (h : Tiles low high windows)
    (hlist : ∀ item ∈ list, low ≤ value item ∧ value item ≤ high) :
    (windows.flatMap fun window ↦
      list.filter fun item ↦ window.1 ≤ value item ∧ value item ≤ window.2).Perm list := by
  induction windows generalizing low list with
  | nil =>
    cases list with
    | nil => exact List.Perm.refl []
    | cons item rest =>
      have hempty : low = high + 1 := h
      have hitem := hlist item List.mem_cons_self
      omega
  | cons first rest ih =>
    obtain ⟨hfirst, -, hrest⟩ := h
    have hlater := @ih (first.2 + 1) (list.filter fun item ↦ ¬ value item ≤ first.2) hrest
      fun item hitem ↦ by
        obtain ⟨hmem, hgt⟩ := List.mem_filter.mp hitem
        have hhigh := (hlist item hmem).2
        rw [decide_eq_true_eq] at hgt
        omega
    have hhead : (list.filter fun item ↦ first.1 ≤ value item ∧ value item ≤ first.2) =
        list.filter fun item ↦ value item ≤ first.2 := by
      apply List.filter_congr
      intro item hitem
      have hlow := (hlist item hitem).1
      simp [hfirst, hlow]
    have htail : (rest.flatMap fun window ↦
          list.filter fun item ↦ window.1 ≤ value item ∧ value item ≤ window.2) =
        rest.flatMap fun window ↦ (list.filter fun item ↦ ¬ value item ≤ first.2).filter
          fun item ↦ window.1 ≤ value item ∧ value item ≤ window.2 := by
      apply List.flatMap_congr
      intro window hwindow
      have hlow := (hrest.bounds window hwindow).1
      rw [List.filter_filter]
      apply List.filter_congr
      intro item _
      simp only [Bool.decide_and, ← Bool.and_assoc, Bool.and_comm]
      by_cases hbelow : window.1 ≤ value item
      · have hgt : ¬ value item ≤ first.2 := by omega
        simp [hbelow, hgt]
      · simp [hbelow]
    rw [List.flatMap_cons, hhead, htail]
    refine (hlater.append_left _).trans ?_
    simp only [decide_not]
    exact List.filter_append_perm _ list

end Tiles

end Rvx
