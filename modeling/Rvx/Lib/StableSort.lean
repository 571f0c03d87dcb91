import Mathlib.Data.List.Sort
import Mathlib.Order.RelClasses

/-!
# Stable sorting by a key

Insertion sort is stable: rows with equal keys keep the order they had before.
-/

namespace Rvx.StableSort

variable {α κ : Type} [LinearOrder κ]

/-- Sort by a key. -/
def sortOn (key : α → κ) (list : List α) : List α := list.insertionSort fun a b ↦ key a ≤ key b

theorem perm_sortOn (key : α → κ) (list : List α) : (sortOn key list).Perm list :=
  List.perm_insertionSort _ list

theorem mem_sortOn {key : α → κ} {list : List α} {item : α} :
    item ∈ sortOn key list ↔ item ∈ list := (perm_sortOn key list).mem_iff

theorem length_sortOn (key : α → κ) (list : List α) : (sortOn key list).length = list.length :=
  (perm_sortOn key list).length_eq

/-- Sorting commutes with a map that keeps the keys. -/
theorem map_sortOn {β : Type} (f : α → β) {key : α → κ} {key' : β → κ} {list : List α}
    (h : ∀ item ∈ list, key' (f item) = key item) :
    (sortOn key list).map f = sortOn key' (list.map f) :=
  List.map_insertionSort _ _ f list fun a ha b hb ↦ by rw [h a ha, h b hb]

theorem pairwise_orderedInsert {key : α → κ} {before : α → α → Prop} {item : α} {list : List α}
    (hitem : ∀ other ∈ list, before item other)
    (h : list.Pairwise fun a b ↦ key a < key b ∨ key a = key b ∧ before a b) :
    (list.orderedInsert (fun a b ↦ key a ≤ key b) item).Pairwise fun a b ↦
      key a < key b ∨ key a = key b ∧ before a b := by
  induction list with
  | nil => simp
  | cons first rest ih =>
    rw [List.pairwise_cons] at h
    rw [List.orderedInsert_cons]
    split_ifs with hle
    · refine List.pairwise_cons.mpr ⟨fun other hother ↦ ?_, List.pairwise_cons.mpr h⟩
      have hkey : key item ≤ key other := by
        cases List.mem_cons.mp hother with
        | inl heq => exact heq ▸ hle
        | inr hrest => exact hle.trans ((h.1 other hrest).elim le_of_lt fun heq ↦ heq.1.le)
      exact hkey.lt_or_eq.imp_right fun heq ↦ ⟨heq, hitem other hother⟩
    · refine List.pairwise_cons.mpr ⟨fun other hother ↦ ?_, ?_⟩
      · cases (List.mem_orderedInsert _).mp hother with
        | inl heq => exact Or.inl (heq ▸ not_le.mp hle)
        | inr hrest => exact h.1 other hrest
      · exact ih (fun other hother ↦ hitem other (List.mem_cons_of_mem first hother)) h.2

/-- Sorting orders by the key, and by the old order where keys are equal. -/
theorem pairwise_sortOn (key : α → κ) {before : α → α → Prop} {list : List α}
    (h : list.Pairwise before) :
    (sortOn key list).Pairwise fun a b ↦ key a < key b ∨ key a = key b ∧ before a b := by
  induction list with
  | nil => exact List.Pairwise.nil
  | cons item rest ih =>
    rw [List.pairwise_cons] at h
    exact pairwise_orderedInsert (fun other hother ↦ h.1 other (mem_sortOn.mp hother)) (ih h.2)

theorem pairwise_le_sortOn (key : α → κ) (list : List α) :
    (sortOn key list).Pairwise fun a b ↦ key a ≤ key b := by
  have htrue : list.Pairwise fun _ _ ↦ True := List.pairwise_of_forall fun _ _ ↦ trivial
  exact (pairwise_sortOn key htrue).imp fun hor ↦ hor.elim le_of_lt fun hand ↦ hand.1.le

/-- Sorting by distinct keys orders strictly. -/
theorem ordered_sortOn {key : α → κ} {list : List α} (h : (list.map key).Nodup) :
    (sortOn key list).Pairwise fun a b ↦ key a < key b := by
  have hne : list.Pairwise fun a b ↦ key a ≠ key b := List.pairwise_map.mp h
  exact (pairwise_sortOn key hne).imp fun hor ↦ hor.resolve_right fun hand ↦ hand.2 hand.1

/-- Lists in the order of a key are equal if they have the same members. -/
theorem eq_of_ordered {key : α → κ} {list list' : List α}
    (h : list.Pairwise fun a b ↦ key a < key b) (h' : list'.Pairwise fun a b ↦ key a < key b)
    (hmem : ∀ item, item ∈ list ↔ item ∈ list') : list = list' :=
  List.Pairwise.eq_of_mem_iff (r := Order.Preimage key (· < ·)) h h' hmem

end Rvx.StableSort
