import Mathlib.Data.Prod.Lex
import Rvx.Lib.StableSort

/-!
# Pages of an order

A slice library selects and sorts without promising where equal elements end up.  Two selections
isolate a page and only the page is sorted; when keys are distinct, it is the slice of the sorted
list.
-/

namespace Rvx.Selection

open StableSort

variable {α κ : Type} [LinearOrder κ]

/-- Elements compare as their keys do. -/
def ComparesBy (order : α → α → Ordering) (key : α → κ) (list : List α) : Prop :=
  ∀ a ∈ list, ∀ b ∈ list, order a b = compare (key a) (key b)

theorem ComparesBy.mono {order : α → α → Ordering} {key : α → κ} {list list' : List α}
    (h : ComparesBy order key list) (hsub : list' ⊆ list) : ComparesBy order key list' :=
  fun a ha b hb ↦ h a (hsub ha) b (hsub hb)

/-- The reversed order compares by the dual keys. -/
theorem ComparesBy.swap {order : α → α → Ordering} {key : α → κ} {list : List α}
    (h : ComparesBy order key list) :
    ComparesBy (fun a b ↦ (order a b).swap) (fun a ↦ OrderDual.toDual (key a)) list := by
  intro a ha b hb
  dsimp only
  rw [h a ha b hb, ← Std.OrientedOrd.eq_swap]
  rfl

/-- An order that decides ties of another one. -/
theorem ComparesBy.andThen {κ' : Type} [LinearOrder κ'] {order order' : α → α → Ordering}
    {key : α → κ} {key' : α → κ'} {list : List α} (h : ComparesBy order key list)
    (h' : ComparesBy order' key' list) :
    ComparesBy (fun a b ↦ (order a b).then (order' a b)) (fun a ↦ toLex (key a, key' a)) list := by
  intro a ha b hb
  calc
    (order a b).then (order' a b) =
        (compare (key a) (key b)).then (compare (key' a) (key' b)) := by
      rw [h a ha b hb, h' a ha b hb]
    _ = compare (toLex (key a, key' a)) (toLex (key b, key' b)) := by
      rw [Prod.Lex.compare_def]
      rfl

/-- The element at an index is where sorting would put it, between smaller and larger ones. -/
structure Selected (key : α → κ) (index : ℕ) (list result : List α) : Prop where
  perm : result.Perm list
  split : ∃ before nth after, result = before ++ nth :: after ∧ before.length = index ∧
    (∀ a ∈ before, key a ≤ key nth) ∧ ∀ b ∈ after, key nth ≤ key b

theorem Selected.le {key : α → κ} {index : ℕ} {list result : List α}
    (h : Selected key index list result) :
    ∀ a ∈ result.take index, ∀ b ∈ result.drop index, key a ≤ key b := by
  obtain ⟨before, nth, after, rfl, rfl, hbefore, hafter⟩ := h.split
  intro a ha b hb
  rw [List.take_left] at ha
  rw [List.drop_left] at hb
  cases List.mem_cons.mp hb with
  | inl heq => exact heq ▸ hbefore a ha
  | inr hrest => exact (hbefore a ha).trans (hafter b hrest)

/-- `select_nth_unstable_by` and `sort_unstable_by`. -/
structure SliceOps where
  selectNth : {α : Type} → (α → α → Ordering) → ℕ → List α → List α
  sortUnstable : {α : Type} → (α → α → Ordering) → List α → List α
  selected : ∀ {α κ : Type} [LinearOrder κ] {order : α → α → Ordering} {key : α → κ} {index : ℕ}
    {list : List α}, ComparesBy order key list → index < list.length →
      Selected key index list (selectNth order index list)
  sorted : ∀ {α κ : Type} [LinearOrder κ] {order : α → α → Ordering} {key : α → κ} {list : List α},
    ComparesBy order key list → (sortUnstable order list).Perm list ∧
      (sortUnstable order list).Pairwise fun a b ↦ key a ≤ key b

/-! ## The page -/

/-- The entries from `offset` on, at most `limit`: the first selection moves them and the smaller
ones to the front, the second one moves the smaller ones before them. -/
def selectPage (ops : SliceOps) (order : α → α → Ordering) (offset limit : ℕ) (entries : List α) :
    List α :=
  let start := min offset entries.length
  let stop := min (start + limit) entries.length
  if start = stop then []
  else
    let entries := if stop < entries.length then ops.selectNth order stop entries else entries
    let front := entries.take stop
    let front := if start > 0 then ops.selectNth order start front else front
    ops.sortUnstable order (front.drop start)

/-- A part that lies between the rest, in order, is where sorting puts it. -/
theorem sortOn_eq_of_between {key : α → κ} {entries : List α} (before middle after : List α)
    (hnodup : (entries.map key).Nodup) (hperm : (before ++ middle ++ after).Perm entries)
    (hmiddle : middle.Pairwise fun a b ↦ key a ≤ key b)
    (hbefore : ∀ a ∈ before, ∀ b ∈ middle ++ after, key a ≤ key b)
    (hafter : ∀ a ∈ middle, ∀ b ∈ after, key a ≤ key b) :
    sortOn key entries = sortOn key before ++ middle ++ sortOn key after := by
  have hsorted : (sortOn key before ++ middle ++ sortOn key after).Perm entries :=
    (((perm_sortOn key before).append_right middle).append (perm_sortOn key after)).trans hperm
  have hordered : (sortOn key before ++ middle ++ sortOn key after).Pairwise
      fun a b ↦ key a ≤ key b := by
    rw [List.append_assoc, List.pairwise_append, List.pairwise_append]
    refine ⟨pairwise_le_sortOn key before, ⟨hmiddle, pairwise_le_sortOn key after, ?_⟩, ?_⟩
    · intro a ha b hb
      exact hafter a ha b (mem_sortOn.mp hb)
    · intro a ha b hb
      refine hbefore a (mem_sortOn.mp ha) b ?_
      cases List.mem_append.mp hb with
      | inl hmem => exact List.mem_append_left _ hmem
      | inr hmem => exact List.mem_append_right _ (mem_sortOn.mp hmem)
  have hdistinct := (hsorted.map key).nodup_iff.mpr hnodup
  refine eq_of_ordered (ordered_sortOn hnodup) ?_ fun item ↦ ?_
  · have hne : (sortOn key before ++ middle ++ sortOn key after).Pairwise
        fun a b ↦ key a ≠ key b := List.pairwise_map.mp hdistinct
    exact hordered.imp₂ (fun _ _ hle hne ↦ lt_of_le_of_ne hle hne) hne
  · rw [mem_sortOn, hsorted.mem_iff]

/-- A page is the slice of the sorted list. -/
theorem selectPage_eq (ops : SliceOps) {order : α → α → Ordering} {key : α → κ} (offset limit : ℕ)
    {entries : List α} (horder : ComparesBy order key entries)
    (hnodup : (entries.map key).Nodup) :
    selectPage ops order offset limit entries =
      ((sortOn key entries).drop offset).take limit := by
  unfold selectPage
  dsimp only
  split
  · rename_i hempty
    symm
    rw [List.eq_nil_iff_length_eq_zero, List.length_take, List.length_drop, length_sortOn]
    omega
  rename_i hpage
  generalize hstart : min offset entries.length = start at hpage ⊢
  generalize hstop : min (start + limit) entries.length = stop at hpage ⊢
  have hlt : start < stop := by omega
  have hle : stop ≤ entries.length := by omega
  -- the first selection
  obtain ⟨first, hfirst, hperm, hfront⟩ : ∃ first : List α,
      (if stop < entries.length then ops.selectNth order stop entries else entries) = first ∧
      first.Perm entries ∧ ∀ a ∈ first.take stop, ∀ b ∈ first.drop stop, key a ≤ key b := by
    refine ⟨_, rfl, ?_⟩
    split
    · rename_i hinside
      have hselected := ops.selected horder hinside
      exact ⟨hselected.perm, hselected.le⟩
    · rename_i hall
      refine ⟨List.Perm.refl _, fun a _ b hb ↦ ?_⟩
      rw [List.drop_eq_nil_of_le (not_lt.mp hall)] at hb
      cases hb
  rw [hfirst]
  have hfirstLength : first.length = entries.length := hperm.length_eq
  have htake : (first.take stop).length = stop := by
    rw [List.length_take]
    omega
  -- the second selection
  obtain ⟨second, hsecond, hperm', hback⟩ : ∃ second : List α,
      (if start > 0 then ops.selectNth order start (first.take stop) else first.take stop) =
        second ∧ second.Perm (first.take stop) ∧
      ∀ a ∈ second.take start, ∀ b ∈ second.drop start, key a ≤ key b := by
    refine ⟨_, rfl, ?_⟩
    split
    · have horder' := horder.mono fun item hitem ↦
        hperm.subset (List.mem_of_mem_take (i := stop) hitem)
      have hselected := ops.selected horder' (htake.symm ▸ hlt)
      exact ⟨hselected.perm, hselected.le⟩
    · rename_i hzero
      have hstartZero : start = 0 := by omega
      refine ⟨List.Perm.refl _, fun a ha b _ ↦ ?_⟩
      simp [hstartZero] at ha
  rw [hsecond]
  have hsub : second.drop start ⊆ entries := fun item hitem ↦
    hperm.subset (List.mem_of_mem_take (hperm'.subset (List.mem_of_mem_drop hitem)))
  obtain ⟨hmiddlePerm, hmiddle⟩ := ops.sorted (horder.mono hsub)
  generalize ops.sortUnstable order (second.drop start) = middle at hmiddlePerm hmiddle ⊢
  have hmem {item : α} (hitem : item ∈ middle) : item ∈ second.drop start :=
    hmiddlePerm.subset hitem
  have heq := sortOn_eq_of_between (second.take start) middle (first.drop stop) hnodup ?_ hmiddle
    ?_ ?_
  · have hbefore : (sortOn key (second.take start)).length = start := by
      rw [length_sortOn, List.length_take, hperm'.length_eq, htake]
      omega
    have hlength : middle.length = stop - start := by
      rw [hmiddlePerm.length_eq, List.length_drop, hperm'.length_eq, htake]
    have hskip : offset = start := by omega
    rw [heq, List.append_assoc, List.drop_append_of_le_length (by omega), hskip,
      List.drop_eq_nil_of_le (by omega), List.nil_append]
    -- the limit reaches the end of the page, or the page the end of the entries
    by_cases hinside : start + limit ≤ entries.length
    · rw [List.take_append_of_le_length (by omega), List.take_of_length_le (by omega)]
    · have hafter : first.drop stop = [] := List.drop_eq_nil_of_le (by omega)
      have hnone : sortOn key ([] : List α) = [] := rfl
      rw [hafter, hnone, List.append_nil, List.take_of_length_le (by omega)]
  · have hjoin : (second.take start ++ middle).Perm second := by
      have hsame := hmiddlePerm.append_left (second.take start)
      rwa [List.take_append_drop] at hsame
    have hall := (hjoin.trans hperm').append_right (first.drop stop)
    rw [List.take_append_drop] at hall
    exact hall.trans hperm
  · intro a ha b hb
    cases List.mem_append.mp hb with
    | inl hmid => exact hback a ha b (hmem hmid)
    | inr hafter => exact hfront a (hperm'.subset (List.mem_of_mem_take ha)) b hafter
  · intro a ha b hb
    exact hfront a (hperm'.subset (List.mem_of_mem_drop (hmem ha))) b hb

/-- Selecting among entries that carry what they are compared by selects among the entries. -/
theorem selectPage_paired {β : Type} (ops : SliceOps) {order : α × β → α × β → Ordering}
    {key : α → κ} {entries : List (α × β)} (offset limit : ℕ)
    (horder : ComparesBy order (fun entry ↦ key entry.1) entries)
    (hnodup : ((entries.map Prod.fst).map key).Nodup) :
    (selectPage ops order offset limit entries).map Prod.fst =
      ((sortOn key (entries.map Prod.fst)).drop offset).take limit := by
  have hfirst : (sortOn (fun entry : α × β ↦ key entry.1) entries).map Prod.fst =
      sortOn key (entries.map Prod.fst) := map_sortOn Prod.fst fun _ _ ↦ rfl
  rw [selectPage_eq ops offset limit horder, List.map_take, List.map_drop, hfirst]
  rwa [List.map_map] at hnodup

/-- A slice whose ends are clamped to the list. -/
theorem slice_clamped (list : List α) (offset limit : ℕ) :
    (list.take (min (min offset list.length + limit) list.length)).drop (min offset list.length) =
      (list.drop offset).take limit := by
  rw [List.drop_take]
  cases Nat.le_total offset list.length with
  | inl hinside =>
    rw [Nat.min_eq_left hinside]
    cases Nat.le_total (offset + limit) list.length with
    | inl hroom => rw [Nat.min_eq_left hroom, Nat.add_sub_cancel_left]
    | inr hend =>
      rw [Nat.min_eq_right hend, List.take_of_length_le (List.length_drop.le),
        List.take_of_length_le (by rw [List.length_drop]; omega)]
  | inr houtside =>
    rw [Nat.min_eq_right houtside, List.drop_length, List.drop_of_length_le houtside,
      List.take_nil, List.take_nil]

/-- Pages that follow one another list everything up to the end of the last one. -/
theorem flatMap_slices (list : List α) (limit pages : ℕ) :
    ((List.range pages).flatMap fun page ↦ (list.drop (page * limit)).take limit) =
      list.take (pages * limit) := by
  induction pages with
  | zero => simp
  | succ pages ih =>
    rw [List.range_succ, List.flatMap_append, ih, List.flatMap_singleton, Nat.succ_mul,
      List.take_add]

/-! ## Sorting instead -/

/-- A sort by comparison. -/
def sortBy (order : α → α → Ordering) (list : List α) : List α :=
  list.insertionSort fun a b ↦ order a b ≠ .gt

theorem sortBy_eq {order : α → α → Ordering} {key : α → κ} {list : List α}
    (h : ComparesBy order key list) : sortBy order list = sortOn key list := by
  have horder (a b : α) (ha : a ∈ list) (hb : b ∈ list) : order a b ≠ .gt ↔ key a ≤ key b := by
    rw [h a ha b hb, ne_eq, compare_gt_iff_gt, not_lt]
  have hmap := List.map_insertionSort (fun a b : α ↦ order a b ≠ .gt) (fun a b ↦ key a ≤ key b) id
    list fun a ha b hb ↦ horder a b ha hb
  simpa [sortBy, sortOn] using hmap

theorem selected_sortOn {key : α → κ} {index : ℕ} {list : List α} (h : index < list.length) :
    Selected key index list (sortOn key list) := by
  have hindex : index < (sortOn key list).length := by rwa [length_sortOn]
  have hsplit : sortOn key list = (sortOn key list).take index ++
      (sortOn key list)[index] :: (sortOn key list).drop (index + 1) := by
    rw [List.getElem_cons_drop, List.take_append_drop]
  have hsorted := pairwise_le_sortOn key list
  rw [hsplit, List.pairwise_append, List.pairwise_cons] at hsorted
  obtain ⟨-, ⟨hafter, -⟩, hbefore⟩ := hsorted
  refine ⟨perm_sortOn key list, _, _, _, hsplit, ?_, ?_, hafter⟩
  · rw [List.length_take]
    omega
  · intro a ha
    exact hbefore a ha _ List.mem_cons_self

/-- A library that sorts stably, also to select. -/
def SliceOps.stable : SliceOps where
  selectNth order _ list := sortBy order list
  sortUnstable order list := sortBy order list
  selected h hindex := by
    rw [sortBy_eq h]
    exact selected_sortOn hindex
  sorted h := by
    rw [sortBy_eq h]
    exact ⟨perm_sortOn _ _, pairwise_le_sortOn _ _⟩

end Rvx.Selection
