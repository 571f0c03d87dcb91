import Mathlib.Data.List.Nodup
import Mathlib.Order.CompletePartialOrder
import Mathlib.Order.Interval.Set.Defs
import Mathlib.Order.Interval.Set.Disjoint

/-!
# Exact covers of an initial segment

A consumer of a numbered stream knows three things: a cursor, the numbers it holds and the
intervals it has given up on.  The knowledge is exact when the held numbers and the lost intervals
split `[0, cursor)` without overlap.  Receiving the next run of numbers, after giving up at most
the stretch before it, keeps the cover exact, and questions about a prefix can be answered from the
cursor and the starts of the lost intervals alone.
-/

namespace Rvx

/-- The stored numbers and the lost intervals partition exactly `[0, cursor)`. -/
structure ExactCover (cursor : ℕ) (stored : List ℕ) (lost : List (ℕ × ℕ)) : Prop where
  stored_nodup : stored.Nodup
  lost_proper : ∀ gap ∈ lost, gap.1 < gap.2
  lost_disjoint : lost.Pairwise fun gap gap' ↦
    Disjoint (Set.Ico gap.1 gap.2) (Set.Ico gap'.1 gap'.2)
  stored_not_lost : ∀ n ∈ stored, ∀ gap ∈ lost, n ∉ Set.Ico gap.1 gap.2
  covers : ∀ n, n < cursor ↔ n ∈ stored ∨ ∃ gap ∈ lost, n ∈ Set.Ico gap.1 gap.2

namespace ExactCover

variable {cursor : ℕ} {stored : List ℕ} {lost : List (ℕ × ℕ)}

/-- Nothing is known before the stream starts. -/
theorem empty : ExactCover 0 [] [] where
  stored_nodup := List.nodup_nil
  lost_proper := by simp
  lost_disjoint := List.Pairwise.nil
  stored_not_lost := by simp
  covers := by simp

theorem lt_of_stored (h : ExactCover cursor stored lost) {n : ℕ} (hn : n ∈ stored) : n < cursor :=
  (h.covers n).mpr (Or.inl hn)

theorem lost_le (h : ExactCover cursor stored lost) {gap : ℕ × ℕ} (hgap : gap ∈ lost) :
    gap.2 ≤ cursor := by
  have hproper := h.lost_proper gap hgap
  have hlast : gap.2 - 1 < cursor :=
    (h.covers _).mpr (Or.inr ⟨gap, hgap, Set.mem_Ico.mpr ⟨by omega, by omega⟩⟩)
  omega

/-- The run `[first, next)` extends the cover once everything between the cursor and `first` is
declared lost. -/
theorem extend (h : ExactCover cursor stored lost) {first next : ℕ} (hfirst : cursor ≤ first)
    (hnext : first ≤ next) :
    ExactCover next (stored ++ List.range' first (next - first))
      (lost ++ if cursor < first then [(cursor, first)] else []) where
  stored_nodup := by
    refine List.nodup_append.mpr ⟨h.stored_nodup, List.nodup_range', ?_⟩
    intro n hn m hm
    have hlt := h.lt_of_stored hn
    have hge := (List.mem_range'_1.mp hm).1
    omega
  lost_proper := by
    intro gap hgap
    rcases List.mem_append.mp hgap with hold | hnew
    · exact h.lost_proper gap hold
    · split at hnew
      · rw [List.mem_singleton.mp hnew]
        assumption
      · simp at hnew
  lost_disjoint := by
    refine List.pairwise_append.mpr ⟨h.lost_disjoint, by split <;> simp, ?_⟩
    intro gap hgap gap' hgap'
    split at hgap'
    · rw [List.mem_singleton.mp hgap']
      refine Set.disjoint_left.mpr fun n hn hn' ↦ ?_
      have hle := h.lost_le hgap
      simp only [Set.mem_Ico] at hn hn'
      omega
    · simp at hgap'
  stored_not_lost := by
    intro n hn gap hgap hmem
    simp only [Set.mem_Ico] at hmem
    rcases List.mem_append.mp hgap with hgap | hgap
    · rcases List.mem_append.mp hn with hn | hn
      · exact h.stored_not_lost n hn gap hgap (Set.mem_Ico.mpr hmem)
      · have hle := h.lost_le hgap
        have hge := (List.mem_range'_1.mp hn).1
        omega
    · split at hgap
      · rw [List.mem_singleton.mp hgap] at hmem
        rcases List.mem_append.mp hn with hn | hn
        · have hlt := h.lt_of_stored hn
          dsimp only at hmem
          omega
        · have hge := (List.mem_range'_1.mp hn).1
          dsimp only at hmem
          omega
      · simp at hgap
  covers := by
    intro n
    have hmem : n ∈ stored ++ List.range' first (next - first) ↔
        n ∈ stored ∨ (first ≤ n ∧ n < next) := by
      rw [List.mem_append, List.mem_range'_1]
      have hsum : first + (next - first) = next := by omega
      rw [hsum]
    have hgap : (∃ gap ∈ lost ++ if cursor < first then [(cursor, first)] else [],
        n ∈ Set.Ico gap.1 gap.2) ↔
        (∃ gap ∈ lost, n ∈ Set.Ico gap.1 gap.2) ∨ (cursor ≤ n ∧ n < first) := by
      split
      · simp [or_and_right, exists_or]
      · simp only [List.append_nil]
        exact ⟨Or.inl, fun hor ↦ hor.resolve_right (by omega)⟩
    rw [hmem, hgap]
    have hold := h.covers n
    constructor
    · intro hn
      by_cases hc : n < cursor
      · rcases hold.mp hc with hs | hl
        · exact Or.inl (Or.inl hs)
        · exact Or.inr (Or.inl hl)
      · by_cases hf : n < first
        · exact Or.inr (Or.inr ⟨by omega, hf⟩)
        · exact Or.inl (Or.inr ⟨by omega, hn⟩)
    · rintro ((hs | hr) | (hl | hg))
      · have hlt := hold.mpr (Or.inl hs)
        omega
      · exact hr.2
      · have hlt := hold.mpr (Or.inr hl)
        omega
      · omega

/-- A prefix has lost something exactly when some lost interval starts inside it. -/
theorem lost_below_iff (h : ExactCover cursor stored lost) (n : ℕ) :
    (∃ gap ∈ lost, gap.1 < n) ↔ ∃ m < n, ∃ gap ∈ lost, m ∈ Set.Ico gap.1 gap.2 := by
  constructor
  · rintro ⟨gap, hgap, hlt⟩
    exact ⟨gap.1, hlt, gap, hgap, Set.mem_Ico.mpr ⟨le_rfl, h.lost_proper gap hgap⟩⟩
  · rintro ⟨m, hm, gap, hgap, hmem⟩
    exact ⟨gap, hgap, lt_of_le_of_lt (Set.mem_Ico.mp hmem).1 hm⟩

/-- A prefix is held completely exactly when the cursor passed it and no loss starts inside it. -/
theorem complete_iff (h : ExactCover cursor stored lost) (n : ℕ) :
    (n ≤ cursor ∧ ¬ ∃ gap ∈ lost, gap.1 < n) ↔ ∀ m < n, m ∈ stored := by
  rw [h.lost_below_iff n]
  constructor
  · rintro ⟨hle, hnone⟩ m hm
    exact ((h.covers m).mp (lt_of_lt_of_le hm hle)).resolve_right
      fun hlost ↦ hnone ⟨m, hm, hlost⟩
  · intro hall
    constructor
    · by_contra hlt
      have hstored := hall cursor (by omega)
      exact absurd (h.lt_of_stored hstored) (lt_irrefl cursor)
    · rintro ⟨m, hm, gap, hgap, hmem⟩
      exact h.stored_not_lost m (hall m hm) gap hgap hmem

end ExactCover

end Rvx
