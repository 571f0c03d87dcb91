import Mathlib.Algebra.BigOperators.Group.List.Basic
import Mathlib.Algebra.GroupWithZero.Nat
import Mathlib.Order.Lattice

/-!
# Groups of a list

Items may have a key, and the group of a key is the list of the items that have it.  Distinct keys
that together are all keys split the items: their groups have as many items as the list.  Of a group
a scan can keep a least item, where any later item replaces it only if it is smaller.
-/

namespace Rvx.Grouping

section Groups

variable {α κ : Type} [DecidableEq κ]

/-- The items with a key. -/
def group (key : α → Option κ) (items : List α) (k : κ) : List α :=
  items.filter fun item ↦ key item = some k

variable {key : α → Option κ} {items : List α}

theorem mem_group {item : α} {k : κ} : item ∈ group key items k ↔ item ∈ items ∧ key item = some k := by
  rw [group, List.mem_filter, decide_eq_true_eq]

theorem group_concat (items : List α) (item : α) (k : κ) :
    group key (items ++ [item]) k = group key items k ++ if key item = some k then [item] else [] := by
  rw [group, List.filter_append, List.filter_singleton]
  split_ifs with hkey
  · rw [decide_eq_true hkey]
    rfl
  · rw [decide_eq_false hkey]
    rfl

theorem group_perm {items' : List α} (h : items'.Perm items) (k : κ) :
    (group key items' k).Perm (group key items k) :=
  h.filter _

/-- The groups of all keys hold every item once. -/
theorem flatMap_group_perm {keys : List κ} (hnodup : keys.Nodup)
    (hcovers : ∀ item ∈ items, ∃ k ∈ keys, key item = some k) :
    (keys.flatMap (group key items)).Perm items := by
  induction keys generalizing items with
  | nil =>
    have hempty : items = [] := by
      apply List.eq_nil_iff_forall_not_mem.mpr
      intro item hitem
      obtain ⟨k, hk, -⟩ := hcovers item hitem
      cases hk
    rw [hempty]
    exact List.Perm.refl []
  | cons first rest ih =>
    rw [List.nodup_cons] at hnodup
    -- the items of the other groups are those that the first one leaves
    have hothers : rest.flatMap (group key items) =
        rest.flatMap (group key (items.filter fun item ↦ key item ≠ some first)) := by
      apply List.flatMap_congr
      intro k hk
      rw [group, group, List.filter_filter]
      apply List.filter_congr
      intro item _
      have hne : k ≠ first := fun heq ↦ hnodup.1 (heq ▸ hk)
      by_cases hkey : key item = some k
      · simp [hkey, hne]
      · simp [hkey]
    have hleft : ∀ item ∈ items.filter (fun item ↦ key item ≠ some first),
        ∃ k ∈ rest, key item = some k := by
      intro item hitem
      obtain ⟨hmem, hne⟩ := List.mem_filter.mp hitem
      obtain ⟨k, hk, hkey⟩ := hcovers item hmem
      cases List.mem_cons.mp hk with
      | inl heq => exact absurd (heq ▸ hkey) (of_decide_eq_true hne)
      | inr hrest => exact ⟨k, hrest, hkey⟩
    rw [List.flatMap_cons, hothers]
    apply ((ih hnodup.2 hleft).append_left _).trans
    have hsplit := List.filter_append_perm (fun item ↦ decide (key item = some first)) items
    simpa [group] using hsplit

/-- An item counts for one key of a list of distinct keys. -/
theorem sum_ite_eq_one {keys : List κ} (hnodup : keys.Nodup) {k : κ} (hk : k ∈ keys) :
    (keys.map fun other ↦ if k = other then 1 else 0).sum = 1 := by
  induction keys with
  | nil => cases hk
  | cons first rest ih =>
    rw [List.nodup_cons] at hnodup
    rw [List.map_cons, List.sum_cons]
    by_cases hfirst : k = first
    · have hrest : ∀ other ∈ rest, (if k = other then 1 else 0) = (fun _ : κ ↦ (0 : ℕ)) other := by
        intro other hother
        refine if_neg ?_
        rintro rfl
        exact hnodup.1 (hfirst ▸ hother)
      rw [if_pos hfirst, List.map_congr_left hrest]
      simp
    · rw [if_neg hfirst, ih hnodup.2 ((List.mem_cons.mp hk).resolve_left hfirst)]

/-- Distinct keys that are all keys of the items split them into groups. -/
theorem sum_length_group {keys : List κ} (hnodup : keys.Nodup)
    (hcovers : ∀ item ∈ items, ∃ k ∈ keys, key item = some k) :
    (keys.map fun k ↦ (group key items k).length).sum = items.length := by
  induction items with
  | nil => simp [group]
  | cons item rest ih =>
    rw [List.forall_mem_cons] at hcovers
    obtain ⟨k, hk, hkey⟩ := hcovers.1
    have hlength (other : κ) : (group key (item :: rest) other).length =
        (if k = other then 1 else 0) + (group key rest other).length := by
      rw [group, List.filter_cons, hkey]
      by_cases heq : k = other
      · rw [if_pos heq, if_pos (by simp [heq]), List.length_cons, group, Nat.add_comm]
      · rw [if_neg heq, if_neg (by simp [heq]), group, Nat.zero_add]
    simp only [hlength, List.sum_map_add, sum_ite_eq_one hnodup hk, ih hcovers.2]
    rw [List.length_cons, Nat.add_comm]

end Groups

section Least

variable {α κ : Type} [LinearOrder κ]

/-- An item with the least key, if there is an item. -/
structure Least (key : α → κ) (items : List α) (found : Option α) : Prop where
  none_iff : found = none ↔ items = []
  least : ∀ a ∈ found, a ∈ items ∧ ∀ b ∈ items, key a ≤ key b

variable {key : α → κ} {items : List α} {found : Option α}

theorem least_nil : Least key [] none := by
  refine ⟨by simp, ?_⟩
  rintro a ⟨⟩

/-- The next item, if it is smaller. -/
theorem Least.concat (h : Least key items found) (item : α) :
    Least key (items ++ [item])
      (if ∀ a ∈ found, key item < key a then some item else found) := by
  cases found with
  | none =>
    have hnil := h.none_iff.mp rfl
    rw [if_pos (by simp), hnil]
    refine ⟨by simp, ?_⟩
    rintro a ⟨⟩
    simp
  | some a =>
    obtain ⟨hmem, hle⟩ := h.least a rfl
    split_ifs with hlt
    · refine ⟨by simp, ?_⟩
      rintro b ⟨⟩
      refine ⟨by simp, fun c hc ↦ ?_⟩
      obtain hc | hc := List.mem_append.mp hc
      · exact (hlt a rfl).le.trans (hle c hc)
      · rw [List.mem_singleton.mp hc]
    · refine ⟨by simp, ?_⟩
      rintro b ⟨⟩
      refine ⟨List.mem_append_left _ hmem, fun c hc ↦ ?_⟩
      obtain hc | hc := List.mem_append.mp hc
      · exact hle c hc
      · rw [List.mem_singleton.mp hc]
        refine not_lt.mp fun hsmaller ↦ hlt ?_
        rintro b ⟨⟩
        exact hsmaller

theorem Least.perm {items' : List α} (h : Least key items found) (hperm : items'.Perm items) :
    Least key items' found := by
  refine ⟨?_, fun a ha ↦ ⟨hperm.mem_iff.mpr (h.least a ha).1, fun b hb ↦
    (h.least a ha).2 b (hperm.mem_iff.mp hb)⟩⟩
  rw [h.none_iff]
  constructor
  · rintro rfl
    exact hperm.eq_nil
  · rintro rfl
    exact hperm.symm.eq_nil

/-- The least key is the same, whichever item was found. -/
theorem Least.key_eq {found' : Option α} (h : Least key items found)
    (h' : Least key items found') : found.map key = found'.map key := by
  cases found with
  | none => rw [h'.none_iff.mpr (h.none_iff.mp rfl)]
  | some a =>
    cases found' with
    | none => exact absurd (h.none_iff.mpr (h'.none_iff.mp rfl)) (by simp)
    | some b =>
      obtain ⟨ha, hleast⟩ := h.least a rfl
      obtain ⟨hb, hleast'⟩ := h'.least b rfl
      exact congrArg some (le_antisymm (hleast b hb) (hleast' a ha))

end Least

end Rvx.Grouping
