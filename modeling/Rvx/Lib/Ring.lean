import Mathlib.Data.List.DropRight
import Mathlib.Order.Lattice

/-!
# Rings

A ring keeps the newest elements of a list.  Reading at most its capacity from its end, or a range
of keys that begins inside it, gives the same as reading from the whole list.
-/

namespace Rvx.Ring

variable {α κ : Type}

theorem rtake_append_of_le {old new : List α} {count : ℕ} (h : count ≤ new.length) :
    (old ++ new).rtake count = new.rtake count := by
  unfold List.rtake
  rw [List.length_append, List.drop_append, List.drop_eq_nil_of_le (by omega), List.nil_append]
  congr 1
  omega

/-- What a ring dropped, and what it kept. -/
theorem exists_dropped (elements : List α) (capacity : ℕ) : ∃ dropped,
    elements = dropped ++ elements.rtake capacity ∧
      (dropped ≠ [] → (elements.rtake capacity).length = capacity) := by
  refine ⟨elements.take (elements.length - capacity), (List.take_append_drop _ _).symm, ?_⟩
  intro hne
  have hpos : 0 < elements.length - capacity := by
    by_contra hzero
    rw [Nat.eq_zero_of_not_pos hzero] at hne
    exact hne rfl
  unfold List.rtake
  rw [List.length_drop]
  omega

/-- As many elements as there are in a ring and what follows it are the last of the whole list. -/
theorem rtake_of_le_length (elements new : List α) {count capacity : ℕ}
    (h : count ≤ (elements.rtake capacity ++ new).length) :
    (elements.rtake capacity ++ new).rtake count = (elements ++ new).rtake count := by
  obtain ⟨dropped, heq, -⟩ := exists_dropped elements capacity
  have hsplit : elements ++ new = dropped ++ (elements.rtake capacity ++ new) := by
    rw [← List.append_assoc, ← heq]
  rw [hsplit, rtake_append_of_le h]

/-- A ring and what follows it answer for the whole list as far as the ring's capacity. -/
theorem rtake_rtake_append (elements new : List α) {count capacity : ℕ} (h : count ≤ capacity) :
    (elements.rtake capacity ++ new).rtake count = (elements ++ new).rtake count := by
  obtain ⟨dropped, heq, hfull⟩ := exists_dropped elements capacity
  by_cases hnil : dropped = []
  · rw [hnil, List.nil_append] at heq
    rw [← heq]
  · apply rtake_of_le_length
    rw [List.length_append, hfull hnil]
    omega

theorem length_rtake_append_lt (elements new : List α) {count capacity : ℕ} (h : count ≤ capacity) :
    (elements.rtake capacity ++ new).length < count ↔ (elements ++ new).length < count := by
  unfold List.rtake
  rw [List.length_append, List.length_append, List.length_drop]
  omega

theorem getLast?_rtake_append (elements new : List α) {capacity : ℕ} (h : 0 < capacity) :
    (elements.rtake capacity ++ new).getLast? = (elements ++ new).getLast? := by
  rw [List.getLast?_append, List.getLast?_append]
  congr 1
  unfold List.rtake
  rw [List.getLast?_drop]
  split_ifs with hle
  · rw [List.length_eq_zero_iff.mp (by omega : elements.length = 0)]
    rfl
  · rfl

/-- Where the keys ascend and the ring begins at or before `start`, it holds all from `start` on. -/
theorem filter_rtake_append [LinearOrder κ] {key : α → κ} {elements new : List α} {capacity : ℕ}
    (hascending : (elements ++ new).Pairwise fun x y ↦ key x < key y) {start : κ} {oldest : α}
    (hhead : (elements.rtake capacity ++ new).head? = some oldest) (hcovered : key oldest ≤ start) :
    (elements.rtake capacity ++ new).filter (fun x ↦ decide (start ≤ key x)) =
      (elements ++ new).filter fun x ↦ decide (start ≤ key x) := by
  obtain ⟨dropped, heq, -⟩ := exists_dropped elements capacity
  have hsplit : elements ++ new = dropped ++ (elements.rtake capacity ++ new) := by
    rw [← List.append_assoc, ← heq]
  have hnone : dropped.filter (fun x ↦ decide (start ≤ key x)) = [] := by
    rw [List.filter_eq_nil_iff]
    intro x hx
    rw [hsplit] at hascending
    have hlt := (List.pairwise_append.mp hascending).2.2 x hx oldest (List.mem_of_mem_head? hhead)
    rw [decide_eq_true_eq, not_le]
    exact lt_of_lt_of_le hlt hcovered
  rw [hsplit, List.filter_append dropped, hnone, List.nil_append]

/-- A ring that begins after `start` is no better covered by the whole list. -/
theorem head?_rtake_append [LinearOrder κ] {key : α → κ} {elements new : List α} {capacity : ℕ}
    (hascending : (elements ++ new).Pairwise fun x y ↦ key x < key y) {oldest : α}
    (hhead : (elements.rtake capacity ++ new).head? = some oldest) :
    ∃ first, (elements ++ new).head? = some first ∧ key first ≤ key oldest := by
  obtain ⟨dropped, heq, -⟩ := exists_dropped elements capacity
  have hsplit : elements ++ new = dropped ++ (elements.rtake capacity ++ new) := by
    rw [← List.append_assoc, ← heq]
  rw [hsplit] at hascending ⊢
  cases dropped with
  | nil => exact ⟨oldest, hhead, le_rfl⟩
  | cons first rest =>
    refine ⟨first, rfl, ?_⟩
    exact ((List.pairwise_append.mp hascending).2.2 first List.mem_cons_self oldest
      (List.mem_of_mem_head? hhead)).le

end Rvx.Ring
