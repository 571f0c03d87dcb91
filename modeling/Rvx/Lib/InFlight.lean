import Mathlib.Algebra.BigOperators.Group.List.Basic
import Mathlib.Algebra.GroupWithZero.Nat
import Mathlib.Data.List.Perm.Basic

/-!
# Calls in flight

Concurrent calls as a list of what each of them has still to do.  A step takes one of them out and
puts back what is left of it, so a total over the calls changes by that call alone.
-/

namespace Rvx.InFlight

variable {α : Type} {weight : α → ℕ} {calls : List α} {index : ℕ} {call : α}

/-- The sum of a weight over the calls. -/
def total (weight : α → ℕ) (calls : List α) : ℕ := (calls.map weight).sum

/-- The calls after the one at an index has made a step. -/
def resume (calls : List α) (index : ℕ) (next : Option α) : List α :=
  calls.eraseIdx index ++ next.toList

@[simp]
theorem total_nil : total weight [] = 0 := rfl

@[simp]
theorem total_cons : total weight (call :: calls) = weight call + total weight calls := by
  simp [total]

@[simp]
theorem total_append (others : List α) :
    total weight (calls ++ others) = total weight calls + total weight others := by
  simp [total]

theorem total_eraseIdx (h : calls[index]? = some call) :
    total weight (calls.eraseIdx index) + weight call = total weight calls := by
  obtain ⟨hindex, rfl⟩ := List.getElem?_eq_some_iff.mp h
  have hperm := (List.getElem_cons_eraseIdx_perm hindex).map weight
  rw [total, total, ← hperm.sum_eq, List.map_cons, List.sum_cons, Nat.add_comm]

theorem total_resume (h : calls[index]? = some call) (next : Option α) :
    total weight (resume calls index next) + weight call =
      total weight calls + total weight next.toList := by
  rw [resume, total_append, ← total_eraseIdx h]
  omega

theorem total_set (h : calls[index]? = some call) (call' : α) :
    total weight (calls.set index call') + weight call = total weight calls + weight call' := by
  obtain ⟨hindex, -⟩ := List.getElem?_eq_some_iff.mp h
  have hperm := (List.set_perm_cons_eraseIdx hindex call').map weight
  rw [← total_eraseIdx h, total, hperm.sum_eq, List.map_cons, List.sum_cons, total]
  omega

theorem getElem?_set_of_some (h : calls[index]? = some call) (call' : α) (other : ℕ) :
    (calls.set index call')[other]? = if other = index then some call' else calls[other]? := by
  have hlt := (List.getElem?_eq_some_iff.mp h).1
  by_cases heq : other = index
  · rw [heq, if_pos rfl, List.getElem?_set_self hlt]
  · rw [if_neg heq, List.getElem?_set_ne (Ne.symm heq)]

theorem mem_of_mem_eraseIdx {other : α} (h : other ∈ calls.eraseIdx index) : other ∈ calls :=
  (List.eraseIdx_sublist calls index).mem h

theorem length_resume (h : calls[index]? = some call) (next : Option α) :
    (resume calls index next).length + 1 = calls.length + next.toList.length := by
  obtain ⟨hindex, -⟩ := List.getElem?_eq_some_iff.mp h
  rw [resume, List.length_append, List.length_eraseIdx_of_lt hindex]
  omega

end Rvx.InFlight
