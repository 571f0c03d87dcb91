import Rvx.Core.References

/-!
# Changes between two states

A diff lists the values that differ, each under the path both states know it by: it goes on into two
objects or two arrays and stops at everything else.  Applied to the older state the changes give the
newer one.
-/

namespace Rvx.Core

inductive SnapshotChangeKind where
  | added
  | removed
  | changed
deriving DecidableEq

def SnapshotChangeKind.name : SnapshotChangeKind → String
  | .added => "added"
  | .removed => "removed"
  | .changed => "changed"

structure SnapshotChange where
  path : String
  kind : SnapshotChangeKind
  before : Option Value
  after : Option Value
deriving DecidableEq

namespace SnapshotChange

/-- The change of what a path refers to. -/
def of (path : String) (before after : Option Value) : SnapshotChange where
  path := path
  kind := if before.isNone then .added else if after.isNone then .removed else .changed
  before := before
  after := after

/-- The JSON text, where an absent value is left out. -/
def chars (change : SnapshotChange) : List Char :=
  printObject
    ([member "path" (quote change.path), member "kind" (quote change.kind.name)] ++
      (change.before.map fun value ↦ member "before" value.print).toList ++
      (change.after.map fun value ↦ member "after" value.print).toList)

/-- Set what was changed or added, remove what was removed. -/
def apply (change : SnapshotChange) (state : Option Value) : Option (Option Value) := do
  let path ← referenceTokens change.path
  match change.kind, change.after with
  | .removed, _ => Value.removeAt path state
  | _, some value => Value.setAt value path state
  | _, none => none

/-- Apply changes to a state: what is set first, then what is removed from the last to the first, so
that no removal moves an element another change refers to. -/
def applyAll (changes : List SnapshotChange) (state : Value) : Option Value := do
  let middle ← (changes.filter fun change ↦ change.kind ≠ .removed).foldlM
    (fun state change ↦ change.apply state) (some state)
  let last ← ((changes.filter fun change ↦ change.kind = .removed).reverse).foldlM
    (fun state change ↦ change.apply state) middle
  last

end SnapshotChange

/-! ## Differences -/

namespace Value

mutual

/-- How deep containers are nested. -/
def depth : Value → ℕ
  | .array items => depthItems items + 1
  | .object entries => depthEntries entries + 1
  | _ => 0

def depthItems : List Value → ℕ
  | [] => 0
  | item :: rest => max (depth item) (depthItems rest)

def depthEntries : List (String × Value) → ℕ
  | [] => 0
  | (_, value) :: rest => max (depth value) (depthEntries rest)

end

theorem depth_le_items {items : List Value} {item : Value} (h : item ∈ items) :
    item.depth ≤ depthItems items := by
  induction items with
  | nil => cases h
  | cons first rest ih =>
    rw [depthItems]
    cases List.mem_cons.mp h with
    | inl heq => exact heq ▸ le_max_left _ _
    | inr hmem => exact (ih hmem).trans (le_max_right _ _)

theorem depth_le_entries {entries : List (String × Value)} {entry : String × Value}
    (h : entry ∈ entries) : entry.2.depth ≤ depthEntries entries := by
  induction entries with
  | nil => cases h
  | cons first rest ih =>
    rw [depthEntries]
    cases List.mem_cons.mp h with
    | inl heq => exact heq ▸ le_max_left _ _
    | inr hmem => exact (ih hmem).trans (le_max_right _ _)

end Value

/-- What differs, by the tokens of its path. -/
structure Difference where
  path : List String
  before : Option Value
  after : Option Value

/-- The keys of two objects, in order. -/
def unionKeys (a b : List (String × Value)) : List String :=
  (OrderedSet.ofList (a.map Prod.fst ++ b.map Prod.fst)).keys

/-- A difference below a token. -/
def Difference.below (token : String) (difference : Difference) : Difference :=
  { difference with path := token :: difference.path }

/-- All differences of two values, of which either may be absent. -/
def differences : ℕ → Option Value → Option Value → List Difference
  | 0, _, _ => []
  | fuel + 1, before, after =>
    if before = after then []
    else
      match before, after with
      | some (.object a), some (.object b) =>
        (unionKeys a b).flatMap fun key ↦
          (differences fuel ((Value.object a).get? key) ((Value.object b).get? key)).map (·.below key)
      | some (.array a), some (.array b) =>
        (List.range (max a.length b.length)).flatMap fun index ↦
          (differences fuel a[index]? b[index]?).map (·.below (indexToken index))
      | _, _ => [⟨[], before, after⟩]

namespace Difference

def apply (difference : Difference) (state : Option Value) : Option (Option Value) :=
  difference.after.elim (Value.removeAt difference.path state) fun value ↦
    Value.setAt value difference.path state

/-- Apply differences one after another. -/
def run (list : List Difference) (state : Option Value) : Option (Option Value) :=
  list.foldlM (fun state difference ↦ difference.apply state) state

def sets (list : List Difference) : List Difference :=
  list.filter fun difference ↦ difference.after.isSome

def removals (list : List Difference) : List Difference :=
  (list.filter fun difference ↦ difference.after.isNone).reverse

@[simp]
theorem run_nil (state : Option Value) : run [] state = some state := rfl

theorem run_cons {difference : Difference} {rest : List Difference} {state last : Option Value} :
    run (difference :: rest) state = some last ↔
      ∃ middle, difference.apply state = some middle ∧ run rest middle = some last := by
  rw [run, List.foldlM_cons]
  exact Option.bind_eq_some_iff

theorem run_append {list rest : List Difference} {state last : Option Value} :
    run (list ++ rest) state = some last ↔
      ∃ middle, run list state = some middle ∧ run rest middle = some last := by
  rw [run, List.foldlM_append]
  exact Option.bind_eq_some_iff

theorem sets_flatMap {α : Type} (keys : List α) (family : α → List Difference) :
    sets (keys.flatMap family) = keys.flatMap fun key ↦ sets (family key) := by
  rw [sets, List.filter_flatMap]
  rfl

theorem removals_flatMap {α : Type} (keys : List α) (family : α → List Difference) :
    removals (keys.flatMap family) = keys.reverse.flatMap fun key ↦ removals (family key) := by
  rw [removals, List.filter_flatMap, List.reverse_flatMap]
  rfl

theorem sets_below (token : String) (list : List Difference) :
    sets (list.map (·.below token)) = (sets list).map (·.below token) := by
  rw [sets, List.filter_map]
  rfl

theorem removals_below (token : String) (list : List Difference) :
    removals (list.map (·.below token)) = (removals list).map (·.below token) := by
  rw [removals, List.filter_map, ← List.map_reverse]
  rfl

/-! ## Below an object -/

theorem apply_object {difference : Difference} {entries : List (String × Value)} {key : String}
    {child : Option Value} (h : difference.apply ((Value.object entries).get? key) = some child) :
    (difference.below key).apply (some (.object entries)) =
      some (some (.object (Value.putEntry key child entries))) := by
  unfold apply below at *
  cases hafter : difference.after with
  | none =>
    rw [hafter] at h
    simp only [Option.elim_none, Value.removeAt, Value.edit] at h ⊢
    rw [h]
    rfl
  | some value =>
    rw [hafter] at h
    simp only [Option.elim_some, Value.setAt, Value.edit] at h ⊢
    rw [h]
    rfl

theorem run_object {list : List Difference} {entries : List (String × Value)} {key : String}
    {child : Option Value} (hentries : Value.Ascending entries)
    (h : run list ((Value.object entries).get? key) = some child) :
    ∃ entries', run (list.map (·.below key)) (some (.object entries)) =
        some (some (.object entries')) ∧ Value.Ascending entries' ∧
      ∀ other, (Value.object entries').get? other =
        if other = key then child else (Value.object entries).get? other := by
  induction list generalizing entries with
  | nil =>
    obtain rfl := Option.some.inj h
    refine ⟨entries, rfl, hentries, fun other ↦ ?_⟩
    split_ifs with heq
    · rw [heq]
    · rfl
  | cons difference rest ih =>
    obtain ⟨middle, hfirst, hrest⟩ := run_cons.mp h
    have hput := Value.get?_putEntry hentries key middle
    obtain ⟨entries', hrun, hascending, hget⟩ :=
      ih (Value.ascending_putEntry hentries key middle) (by rw [hput, if_pos rfl]; exact hrest)
    refine ⟨entries', run_cons.mpr ⟨_, apply_object hfirst, hrun⟩, hascending, fun other ↦ ?_⟩
    rw [hget, hput]
    split_ifs <;> rfl

/-- Differences below the keys of an object, key by key. -/
theorem run_objects {family : String → List Difference} {target : String → Option Value}
    {keys : List String} (hkeys : keys.Nodup) {entries : List (String × Value)}
    (hentries : Value.Ascending entries)
    (h : ∀ key ∈ keys, run (family key) ((Value.object entries).get? key) = some (target key)) :
    ∃ entries', run (keys.flatMap fun key ↦ (family key).map (·.below key))
        (some (.object entries)) = some (some (.object entries')) ∧ Value.Ascending entries' ∧
      ∀ other, (Value.object entries').get? other =
        if other ∈ keys then target other else (Value.object entries).get? other := by
  induction keys generalizing entries with
  | nil => exact ⟨entries, rfl, hentries, by simp⟩
  | cons key keys ih =>
    obtain ⟨hkey, hrest⟩ := List.forall_mem_cons.mp h
    obtain ⟨hfresh, hnodup⟩ := List.nodup_cons.mp hkeys
    obtain ⟨middle, hrun, hmiddle, hget⟩ := run_object hentries hkey
    obtain ⟨entries', hruns, hascending, hgets⟩ := ih hnodup hmiddle fun other hother ↦ by
      have hne : other ≠ key := fun heq ↦ hfresh (heq ▸ hother)
      rw [hget, if_neg hne]
      exact hrest other hother
    refine ⟨entries', ?_, hascending, fun other ↦ ?_⟩
    · rw [List.flatMap_cons]
      exact run_append.mpr ⟨_, hrun, hruns⟩
    · rw [hgets, hget]
      by_cases heq : other = key
      · simp [heq, hfresh]
      · simp [heq]

/-! ## Below an array -/

theorem apply_array {difference : Difference} {items items' : List Value} {index : ℕ}
    {child : Option Value} (h : difference.apply items[index]? = some child)
    (hput : Value.putItem index child items = some items') :
    (difference.below (indexToken index)).apply (some (.array items)) =
      some (some (.array items')) := by
  unfold apply below at *
  cases hafter : difference.after with
  | none =>
    rw [hafter] at h
    simp only [Option.elim_none, Value.removeAt, Value.edit, arrayIndex_indexToken] at h ⊢
    simp [h, hput]
  | some value =>
    rw [hafter] at h
    simp only [Option.elim_some, Value.setAt, Value.edit, arrayIndex_indexToken] at h ⊢
    simp [h, hput]

/-- Differences that leave something at the index keep the other elements where they are. -/
theorem run_array {list : List Difference} {items : List Value} {index : ℕ}
    {child : Option Value} (hindex : index ≤ items.length)
    (hkeep : ∀ difference ∈ list, ∀ state child, difference.apply state = some child →
      child.isSome)
    (h : run list items[index]? = some child) :
    ∃ items', run (list.map (·.below (indexToken index))) (some (.array items)) =
        some (some (.array items')) ∧
      ∀ other, items'[other]? = if other = index then child else items[other]? := by
  induction list generalizing items with
  | nil =>
    obtain rfl := Option.some.inj h
    refine ⟨items, rfl, fun other ↦ ?_⟩
    split_ifs with heq
    · rw [heq]
    · rfl
  | cons difference rest ih =>
    obtain ⟨middle, hfirst, hrest⟩ := run_cons.mp h
    obtain ⟨hsome, hkeeps⟩ := List.forall_mem_cons.mp hkeep
    obtain ⟨value, rfl⟩ := Option.isSome_iff_exists.mp (hsome _ _ hfirst)
    obtain ⟨middle, hput, hget⟩ := Value.putItem_some hindex value
    have hlength : index < middle.length := by
      have hat := hget index
      rw [if_pos rfl] at hat
      exact (List.getElem?_eq_some_iff.mp hat).1
    obtain ⟨items', hrun, hgets⟩ := ih hlength.le hkeeps (by rw [hget, if_pos rfl]; exact hrest)
    refine ⟨items', run_cons.mpr ⟨_, apply_array hfirst hput, hrun⟩, fun other ↦ ?_⟩
    rw [hgets, hget]
    split_ifs <;> rfl

/-- Sets below the first indices of an array. -/
theorem run_arrays {family : ℕ → List Difference} {target : ℕ → Option Value} {count : ℕ}
    {items : List Value}
    (hkeep : ∀ index < count, ∀ difference ∈ family index, ∀ state child,
      difference.apply state = some child → child.isSome)
    (hsome : ∀ index < count, (target index).isSome)
    (h : ∀ index < count, run (family index) items[index]? = some (target index)) :
    ∃ items', run ((List.range count).flatMap fun index ↦
        (family index).map (·.below (indexToken index))) (some (.array items)) =
          some (some (.array items')) ∧
      ∀ other, items'[other]? = if other < count then target other else items[other]? := by
  induction count with
  | zero => exact ⟨items, rfl, by simp⟩
  | succ count ih =>
    obtain ⟨middle, hrun, hget⟩ := ih (fun index hindex ↦ hkeep index (by omega))
      (fun index hindex ↦ hsome index (by omega)) (fun index hindex ↦ h index (by omega))
    have hlength : count ≤ middle.length := by
      cases count with
      | zero => exact Nat.zero_le _
      | succ count =>
        have hat := hget count
        rw [if_pos (Nat.lt_succ_self count)] at hat
        obtain ⟨value, hvalue⟩ := Option.isSome_iff_exists.mp (hsome count (by omega))
        rw [hvalue] at hat
        exact (List.getElem?_eq_some_iff.mp hat).1
    have hlast : run (family count) middle[count]? = some (target count) := by
      rw [hget, if_neg (Nat.lt_irrefl count)]
      exact h count (Nat.lt_succ_self count)
    obtain ⟨items', hruns, hgets⟩ :=
      run_array hlength (hkeep count (Nat.lt_succ_self count)) hlast
    refine ⟨items', ?_, fun other ↦ ?_⟩
    · rw [List.range_succ, List.flatMap_append]
      refine run_append.mpr ⟨_, hrun, ?_⟩
      simpa using hruns
    · rw [hgets, hget]
      by_cases heq : other = count
      · simp [heq]
      · have hless : other < count + 1 ↔ other < count := by omega
        simp [heq, hless]

/-- Removals below the first indices of an array, from the last to the first. -/
theorem run_arrays_back {family : ℕ → List Difference} {middle : ℕ → Option Value}
    {goal : List Value} {count : ℕ} {items : List Value}
    (hitems : ∀ index, items[index]? = if index < count then middle index else goal[index]?)
    (hsome : ∀ index < count, (middle index).isSome)
    (h : ∀ index < count, run (family index) (middle index) = some goal[index]?)
    (hkeep : ∀ index < count, index < goal.length → ∀ difference ∈ family index,
      ∀ state child, difference.apply state = some child → child.isSome)
    (hgone : ∀ index < count, goal.length ≤ index → ∃ before, family index = [⟨[], before, none⟩]) :
    run ((List.range count).reverse.flatMap fun index ↦
      (family index).map (·.below (indexToken index))) (some (.array items)) =
        some (some (.array goal)) := by
  induction count generalizing items with
  | zero =>
    have hsame : items = goal := List.ext_getElem? (by simpa using hitems)
    rw [hsame]
    rfl
  | succ count ih =>
    have hlast := Nat.lt_succ_self count
    obtain ⟨value, hvalue⟩ := Option.isSome_iff_exists.mp (hsome count hlast)
    have hat : items[count]? = some value := by rw [hitems, if_pos hlast, hvalue]
    have hless : count < items.length := (List.getElem?_eq_some_iff.mp hat).1
    have hrun : run (family count) items[count]? = some goal[count]? := by
      rw [hat, ← hvalue]
      exact h count hlast
    -- the last index holds what it should, and so do the indices after it
    obtain ⟨items', hfirst, hget⟩ : ∃ items',
        run ((family count).map (·.below (indexToken count))) (some (.array items)) =
          some (some (.array items')) ∧
        ∀ other, items'[other]? = if other = count then goal[count]? else items[other]? := by
      rcases Nat.lt_or_ge count goal.length with hkept | hover
      · exact run_array hless.le (hkeep count hlast hkept) hrun
      · obtain ⟨before, hfamily⟩ := hgone count hlast hover
        have hnone : goal[count]? = none := List.getElem?_eq_none hover
        have hlength : count + 1 = items.length := by
          have hafter : goal[count + 1]? = none := List.getElem?_eq_none (by omega)
          have hend := hitems (count + 1)
          rw [if_neg (Nat.lt_irrefl _), hafter, List.getElem?_eq_none_iff] at hend
          omega
        obtain ⟨items', hput, hget⟩ := Value.putItem_none hlength
        rw [hfamily, hnone] at hrun
        obtain ⟨middle, happly, hdone⟩ := run_cons.mp hrun
        obtain rfl := Option.some.inj hdone
        refine ⟨items', ?_, fun other ↦ by rw [hnone]; exact hget other⟩
        rw [hfamily]
        exact run_cons.mpr ⟨_, apply_array happly hput, rfl⟩
    have hrest := @ih items' (fun index ↦ by
        rw [hget, hitems]
        rcases Nat.lt_trichotomy index count with hlow | rfl | hhigh
        · rw [if_neg hlow.ne, if_pos (by omega), if_pos hlow]
        · simp
        · rw [if_neg hhigh.ne', if_neg (by omega), if_neg (by omega)])
      (fun index hindex ↦ hsome index (by omega)) (fun index hindex ↦ h index (by omega))
      (fun index hindex ↦ hkeep index (by omega)) (fun index hindex ↦ hgone index (by omega))
    rw [List.range_succ, List.reverse_append, List.flatMap_append]
    refine run_append.mpr ⟨_, ?_, hrest⟩
    simpa using hfirst

/-! ## Every difference applied -/

theorem edit_isSome {change : Option Value → Option (Option Value)} {token : String}
    {rest : List String} {state child : Option Value}
    (h : Value.edit change (token :: rest) state = some child) : child.isSome := by
  match state with
  | some (.object _) =>
    obtain ⟨_, -, hchild⟩ := Option.bind_eq_some_iff.mp h
    exact Option.some.inj hchild ▸ rfl
  | some (.array _) =>
    obtain ⟨_, -, hindex⟩ := Option.bind_eq_some_iff.mp h
    obtain ⟨_, -, hitem⟩ := Option.bind_eq_some_iff.mp hindex
    obtain ⟨_, -, hchild⟩ := Option.bind_eq_some_iff.mp hitem
    exact Option.some.inj hchild ▸ rfl
  | none | some .null | some (.bool _) | some (.number _) | some (.string _) => cases h

/-- Only the removal of a whole state leaves nothing. -/
theorem apply_isSome {difference : Difference} {state child : Option Value}
    (h : difference.apply state = some child)
    (hkeep : difference.after.isSome ∨ difference.path ≠ []) : child.isSome := by
  unfold apply at h
  cases hpath : difference.path with
  | cons token rest =>
    rw [hpath] at h
    cases hafter : difference.after with
    | none =>
      rw [hafter] at h
      exact edit_isSome h
    | some value =>
      rw [hafter] at h
      exact edit_isSome h
  | nil =>
    obtain ⟨value, hvalue⟩ := Option.isSome_iff_exists.mp (hkeep.resolve_right (not_not.mpr hpath))
    rw [hvalue, hpath] at h
    exact Option.some.inj h ▸ rfl

theorem sets_keep {list : List Difference} {difference : Difference} (h : difference ∈ sets list)
    {state child : Option Value} (happly : difference.apply state = some child) : child.isSome :=
  apply_isSome happly (Or.inl (List.mem_filter.mp h).2)

/-- What is set first and then removed turns one state into another. -/
def Turns (list : List Difference) (before after : Option Value) : Prop :=
  ∃ middle, run (sets list) before = some middle ∧ run (removals list) middle = some after ∧
    middle.isSome = (before.isSome || after.isSome)

end Difference

theorem mem_unionKeys {a b : List (String × Value)} {key : String} :
    key ∈ unionKeys a b ↔ key ∈ a.map Prod.fst ∨ key ∈ b.map Prod.fst := by
  rw [unionKeys, ← OrderedMap.mem_def, OrderedSet.mem_ofList, List.mem_append]

theorem get?_eq_none {entries : List (String × Value)} {key : String}
    (h : key ∉ entries.map Prod.fst) : (Value.object entries).get? key = none := by
  rw [Value.get?, Option.map_eq_none_iff, List.find?_eq_none]
  intro entry hentry heq
  exact h (List.mem_map.mpr ⟨entry, hentry, by simpa using heq⟩)

theorem root_of_after_none {fuel : ℕ} {before : Option Value} (hne : before ≠ none) :
    differences (fuel + 1) before none = [⟨[], before, none⟩] := by
  rw [differences.eq_4, if_neg hne]
  · rintro a b - hnone
    cases hnone
  · rintro a b - hnone
    cases hnone

/-- A difference below the root is not the root's. -/
theorem path_ne_nil {fuel : ℕ} {before after : Option Value} {difference : Difference}
    (h : difference ∈ differences fuel before after) (hafter : difference.after ≠ after) :
    difference.path ≠ [] := by
  have hbelow {token : String} {list : List Difference}
      (hmem : difference ∈ list.map (·.below token)) : difference.path ≠ [] := by
    obtain ⟨child, -, rfl⟩ := List.mem_map.mp hmem
    exact List.cons_ne_nil _ _
  fun_induction differences fuel before after with
  | case1 => cases h
  | case2 => cases h
  | case3 fuel a b hne =>
    obtain ⟨key, -, hmem⟩ := List.mem_flatMap.mp h
    exact hbelow hmem
  | case4 fuel a b hne =>
    obtain ⟨index, -, hmem⟩ := List.mem_flatMap.mp h
    exact hbelow hmem
  | case5 =>
    rw [List.mem_singleton.mp h] at hafter
    exact absurd rfl hafter

theorem sorted_object {entries : List (String × Value)}
    (h : (Value.object entries).sorted = true) :
    Value.Ascending entries ∧ ∀ key, ∀ value ∈ (Value.object entries).get? key,
      value.sorted = true := by
  rw [Value.sorted, Bool.and_eq_true, Value.sortedEntries_eq, List.all_eq_true] at h
  refine ⟨of_decide_eq_true h.1, fun key value hvalue ↦ ?_⟩
  obtain ⟨entry, hentry, rfl⟩ := Option.map_eq_some_iff.mp hvalue
  exact h.2 entry (List.mem_of_find?_eq_some hentry)

theorem sorted_item {items : List Value} (h : (Value.array items).sorted = true) (index : ℕ) :
    ∀ value ∈ items[index]?, value.sorted = true := by
  rw [Value.sorted, Value.sortedItems_eq, List.all_eq_true] at h
  exact fun value hvalue ↦ h value (List.mem_of_getElem? hvalue)

theorem get?_depth (entries : List (String × Value)) (key : String) :
    ∀ value ∈ (Value.object entries).get? key, value.depth ≤ Value.depthEntries entries := by
  intro value hvalue
  obtain ⟨entry, hentry, rfl⟩ := Option.map_eq_some_iff.mp hvalue
  exact Value.depth_le_entries (List.mem_of_find?_eq_some hentry)

theorem getElem?_depth (items : List Value) (index : ℕ) :
    ∀ value ∈ items[index]?, value.depth ≤ Value.depthItems items := fun _ hvalue ↦
  Value.depth_le_items (List.mem_of_getElem? hvalue)

theorem depth_child {fuel bound : ℕ} {child : Option Value} (hfuel : bound < fuel)
    (hchild : ∀ value ∈ child, value.depth ≤ bound) : child.elim 0 Value.depth < fuel := by
  cases child with
  | none => exact Nat.zero_lt_of_lt hfuel
  | some value => exact (hchild value rfl).trans_lt hfuel

theorem isSome_getElem? (items : List Value) (index : ℕ) :
    items[index]?.isSome = decide (index < items.length) := by
  rw [← Bool.coe_iff_coe, Option.isSome_iff_exists, decide_eq_true_eq]
  exact ⟨fun ⟨_, hvalue⟩ ↦ (List.getElem?_eq_some_iff.mp hvalue).1, fun hless ↦
    ⟨_, List.getElem?_eq_getElem hless⟩⟩

open Difference in
/-- The differences turn the older state into the newer one. -/
theorem turns_differences {fuel : ℕ} {before after : Option Value}
    (hbefore : ∀ value ∈ before, value.sorted = true) (hafter : ∀ value ∈ after, value.sorted = true)
    (hfuel : before.elim 0 Value.depth < fuel) :
    Turns (differences fuel before after) before after := by
  fun_induction differences fuel before after with
  | case1 => omega
  | case2 fuel state => exact ⟨state, rfl, rfl, by simp⟩
  | case3 fuel a b hne ih =>
    obtain ⟨hascending, ha⟩ := sorted_object (hbefore _ rfl)
    obtain ⟨hascends, hb⟩ := sorted_object (hafter _ rfl)
    choose middle hsets hremovals hsome using fun key ↦ ih key (ha key) (hb key)
      (depth_child (Nat.lt_of_succ_lt_succ hfuel) (get?_depth a key))
    have hkeys : (unionKeys a b).Nodup := OrderedMap.nodup_keys _
    obtain ⟨entries, hrun, hentries, hget⟩ := run_objects hkeys hascending fun key _ ↦ hsets key
    obtain ⟨entries', hruns, hentries', hgets⟩ :=
      run_objects (List.nodup_reverse.mpr hkeys) hentries fun key hkey ↦ by
        rw [hget, if_pos (List.mem_reverse.mp hkey)]
        exact hremovals key
    have hgoal : entries' = b := Value.object_ext hentries' hascends fun key ↦ by
      rw [hgets, hget]
      simp only [List.mem_reverse]
      split_ifs with hkey
      · rfl
      · rw [mem_unionKeys, not_or] at hkey
        rw [get?_eq_none hkey.1, get?_eq_none hkey.2]
    refine ⟨some (.object entries), ?_, ?_, rfl⟩
    · rw [sets_flatMap]
      simp only [sets_below]
      exact hrun
    · rw [removals_flatMap]
      simp only [removals_below]
      rw [hruns, hgoal]
  | case4 fuel a b hne ih =>
    choose middle hsets hremovals hsome using fun index ↦
      ih index (sorted_item (hbefore _ rfl) index) (sorted_item (hafter _ rfl) index)
        (depth_child (Nat.lt_of_succ_lt_succ hfuel) (getElem?_depth a index))
    have hpresent : ∀ index < max a.length b.length, (middle index).isSome := by
      intro index hindex
      rw [hsome, Bool.or_eq_true, isSome_getElem?, isSome_getElem?]
      simpa using hindex
    obtain ⟨items, hrun, hget⟩ := run_arrays
      (fun index _ difference hmem _ _ ↦ sets_keep hmem) hpresent fun index _ ↦ hsets index
    have hruns : run ((List.range (max a.length b.length)).reverse.flatMap fun index ↦
        (removals (differences fuel a[index]? b[index]?)).map (·.below (indexToken index)))
          (some (.array items)) = some (some (.array b)) := by
      refine run_arrays_back (fun index ↦ ?_) hpresent (fun index _ ↦ hremovals index)
        (fun index _ hkept difference hmem _ _ happly ↦ ?_) fun index hindex hover ↦ ?_
      · rw [hget]
        split_ifs with hindex
        · rfl
        · rw [List.getElem?_eq_none (by omega), List.getElem?_eq_none (by omega)]
      · have hdifference := List.mem_filter.mp (List.mem_reverse.mp hmem)
        refine apply_isSome happly (Or.inr (path_ne_nil hdifference.1 ?_))
        rw [Option.isNone_iff_eq_none.mp hdifference.2, List.getElem?_eq_getElem hkept]
        exact (Option.some_ne_none _).symm
      · have hpositive := Nat.zero_lt_of_lt (Nat.lt_of_succ_lt_succ hfuel)
        have hfound : a[index]? ≠ none := by
          rw [ne_eq, List.getElem?_eq_none_iff]
          omega
        rw [List.getElem?_eq_none hover, ← Nat.sub_add_cancel hpositive, root_of_after_none hfound]
        exact ⟨_, rfl⟩
    refine ⟨some (.array items), ?_, ?_, rfl⟩
    · rw [sets_flatMap]
      simp only [sets_below]
      exact hrun
    · rw [removals_flatMap]
      simp only [removals_below]
      exact hruns
  | case5 fuel before after hne hobjects harrays =>
    cases after with
    | some value => exact ⟨some value, rfl, rfl, by simp⟩
    | none =>
      cases before with
      | none => exact absurd rfl hne
      | some value => exact ⟨some value, rfl, rfl, rfl⟩

/-! ## Paths -/

/-- Neither path continues the other. -/
def Apart (difference other : Difference) : Prop :=
  ¬ difference.path <+: other.path ∧ ¬ other.path <+: difference.path

theorem apart_of_tokens {token token' : String} (h : token ≠ token') (difference other : Difference) :
    Apart (difference.below token) (other.below token') := by
  simp [Apart, Difference.below, List.cons_prefix_cons, h, h.symm]

theorem apart_below {token : String} {difference other : Difference} (h : Apart difference other) :
    Apart (difference.below token) (other.below token) := by
  simpa [Apart, Difference.below, List.cons_prefix_cons] using h

/-- Below different tokens paths are apart. -/
theorem pairwise_below {α : Type} {keys : List α} (hkeys : keys.Nodup) {token : α → String}
    (htoken : Function.Injective token) {family : α → List Difference}
    (h : ∀ key, (family key).Pairwise Apart) :
    (keys.flatMap fun key ↦ (family key).map (·.below (token key))).Pairwise Apart := by
  rw [List.pairwise_flatMap]
  refine ⟨fun key _ ↦ ?_, hkeys.imp fun hne difference hmem other hother ↦ ?_⟩
  · rw [List.pairwise_map]
    exact (h key).imp apart_below
  · obtain ⟨child, -, rfl⟩ := List.mem_map.mp hmem
    obtain ⟨child', -, rfl⟩ := List.mem_map.mp hother
    exact apart_of_tokens (htoken.ne hne) child child'

/-- No path continues another one. -/
theorem pairwise_differences (fuel : ℕ) (before after : Option Value) :
    (differences fuel before after).Pairwise Apart := by
  fun_induction differences fuel before after with
  | case1 => exact List.Pairwise.nil
  | case2 => exact List.Pairwise.nil
  | case3 fuel a b hne ih =>
    exact pairwise_below (OrderedMap.nodup_keys _) Function.injective_id ih
  | case4 fuel a b hne ih => exact pairwise_below List.nodup_range indexToken_injective ih
  | case5 => exact List.pairwise_singleton _ _

/-- Nothing differs exactly in equal states. -/
theorem differences_eq_nil {fuel : ℕ} {before after : Option Value}
    (hbefore : ∀ value ∈ before, value.sorted = true) (hafter : ∀ value ∈ after, value.sorted = true)
    (hfuel : before.elim 0 Value.depth < fuel) :
    differences fuel before after = [] ↔ before = after := by
  constructor
  · intro h
    obtain ⟨middle, hsets, hremovals, -⟩ := turns_differences hbefore hafter hfuel
    rw [h] at hsets hremovals
    exact (Option.some.inj hsets).trans (Option.some.inj hremovals)
  · rintro rfl
    cases fuel with
    | zero => omega
    | succ fuel => exact if_pos rfl

/-! ## Changes of differences -/

/-- The change that reports a difference. -/
def Difference.change (difference : Difference) : SnapshotChange :=
  .of (pathText difference.path) difference.before difference.after

/-- What is listed differs. -/
theorem differences_ne (fuel : ℕ) (before after : Option Value) :
    ∀ difference ∈ differences fuel before after, difference.before ≠ difference.after := by
  fun_induction differences fuel before after with
  | case1 => exact fun _ hmem ↦ absurd hmem List.not_mem_nil
  | case2 => exact fun _ hmem ↦ absurd hmem List.not_mem_nil
  | case3 fuel a b hne ih =>
    intro difference hmem
    obtain ⟨key, -, hbelow⟩ := List.mem_flatMap.mp hmem
    obtain ⟨child, hchild, rfl⟩ := List.mem_map.mp hbelow
    exact ih key child hchild
  | case4 fuel a b hne ih =>
    intro difference hmem
    obtain ⟨index, -, hbelow⟩ := List.mem_flatMap.mp hmem
    obtain ⟨child, hchild, rfl⟩ := List.mem_map.mp hbelow
    exact ih index child hchild
  | case5 fuel before after hne => exact List.forall_mem_singleton.mpr hne

namespace Difference

theorem kind_change {difference : Difference} (h : difference.before ≠ difference.after) :
    difference.change.kind = .removed ↔ difference.after.isNone := by
  unfold change SnapshotChange.of
  cases hbefore : difference.before <;> cases hafter : difference.after <;> simp_all

/-- The change does what the difference does. -/
theorem apply_change {difference : Difference} (h : difference.before ≠ difference.after)
    (state : Option Value) : difference.change.apply state = difference.apply state := by
  have hpath : referenceTokens difference.change.path = some difference.path :=
    referenceTokens_pathText difference.path
  have hkind := kind_change h
  have hafter : difference.change.after = difference.after := rfl
  simp only [SnapshotChange.apply, hpath, Option.bind_eq_bind, Option.bind_some, hafter, apply]
  cases hvalue : difference.after with
  | none =>
    rw [hvalue] at hkind
    rw [hkind.mpr rfl]
    rfl
  | some value =>
    rw [hvalue] at hkind
    cases hchange : difference.change.kind with
    | removed => exact absurd (hkind.mp hchange) (by simp)
    | added => rfl
    | changed => rfl

theorem foldlM_change {list : List Difference}
    (h : ∀ difference ∈ list, difference.before ≠ difference.after) (state : Option Value) :
    (list.map change).foldlM (fun state change ↦ change.apply state) state = run list state := by
  induction list generalizing state with
  | nil => rfl
  | cons difference rest ih =>
    obtain ⟨hfirst, hrest⟩ := List.forall_mem_cons.mp h
    rw [List.map_cons, List.foldlM_cons, apply_change hfirst, run, List.foldlM_cons]
    exact Option.bind_congr fun state _ ↦ ih hrest state

theorem filter_change {list : List Difference}
    (h : ∀ difference ∈ list, difference.before ≠ difference.after) :
    ((list.map change).filter fun change ↦ change.kind ≠ .removed) = (sets list).map change ∧
      ((list.map change).filter fun change ↦ change.kind = .removed).reverse =
        (removals list).map change := by
  rw [List.filter_map, List.filter_map, ← List.map_reverse, sets, removals]
  refine ⟨congrArg _ (List.filter_congr fun difference hmem ↦ ?_),
    congrArg _ (congrArg _ (List.filter_congr fun difference hmem ↦ ?_))⟩
  · have hkind := not_congr (kind_change (h difference hmem))
    rw [Function.comp_apply, ← Bool.coe_iff_coe, decide_eq_true_eq]
    simpa [← Option.isSome_iff_ne_none] using hkind
  · have hkind := kind_change (h difference hmem)
    rw [Function.comp_apply, ← Bool.coe_iff_coe, decide_eq_true_eq]
    exact hkind

end Difference

/-- The changes of the differences turn the older state into the newer one. -/
theorem applyAll_differences {fuel : ℕ} {before after : Value} (hbefore : before.sorted = true)
    (hafter : after.sorted = true) (hfuel : before.depth < fuel) :
    SnapshotChange.applyAll ((differences fuel (some before) (some after)).map Difference.change)
      before = some after := by
  have hne := differences_ne fuel (some before) (some after)
  obtain ⟨hsets, hremovals⟩ := Difference.filter_change hne
  obtain ⟨middle, hrun, hruns, -⟩ := @turns_differences fuel (some before) (some after)
    (fun _ hvalue ↦ Option.some.inj hvalue ▸ hbefore)
    (fun _ hvalue ↦ Option.some.inj hvalue ▸ hafter) hfuel
  rw [SnapshotChange.applyAll, hsets, hremovals, Difference.foldlM_change, hrun]
  · refine Option.bind_eq_some_iff.mpr ⟨middle, rfl, ?_⟩
    rw [Difference.foldlM_change, hruns]
    · rfl
    · intro difference hmem
      exact hne difference (List.mem_filter.mp (List.mem_reverse.mp hmem)).1
  · exact fun difference hmem ↦ hne difference (List.mem_filter.mp hmem).1

/-- All changes between two states. -/
def changesBetween (before after : Json) : List SnapshotChange :=
  (differences (before.value.depth + 1) (some before.value) (some after.value)).map
    Difference.change

theorem applyAll_changesBetween (before after : Json) :
    SnapshotChange.applyAll (changesBetween before after) before.value = some after.value :=
  applyAll_differences before.sorted after.sorted (Nat.lt_succ_self _)

theorem changesBetween_eq_nil {before after : Json} :
    changesBetween before after = [] ↔ before = after := by
  rw [changesBetween, List.map_eq_nil_iff, differences_eq_nil, Option.some.injEq]
  · exact ⟨fun h ↦ by cases before; cases after; cases h; rfl, congrArg Json.value⟩
  · exact fun value hvalue ↦ Option.some.inj hvalue ▸ before.sorted
  · exact fun value hvalue ↦ Option.some.inj hvalue ▸ after.sorted
  · exact Nat.lt_succ_self _

/-- The paths are distinct references, and none continues another one. -/
def PathsApart (changes : List SnapshotChange) : Prop :=
  ∃ paths : List (List String), changes.map (referenceTokens ∘ SnapshotChange.path) =
      paths.map some ∧ paths.Pairwise fun path other ↦ ¬ path <+: other ∧ ¬ other <+: path

theorem PathsApart.sublist {changes kept : List SnapshotChange} (h : PathsApart changes)
    (hkept : kept <+: changes) : PathsApart kept := by
  obtain ⟨paths, hpaths, hapart⟩ := h
  obtain ⟨rest, rfl⟩ := hkept
  rw [List.map_append] at hpaths
  obtain ⟨first, last, rfl, hfirst, -⟩ := List.append_eq_map_iff.mp hpaths
  exact ⟨first, hfirst.symm, (List.pairwise_append.mp hapart).1⟩

theorem changesBetween_apart (before after : Json) : PathsApart (changesBetween before after) := by
  refine ⟨(differences (before.value.depth + 1) (some before.value) (some after.value)).map
    Difference.path, ?_, List.pairwise_map.mpr (pairwise_differences _ _ _)⟩
  rw [changesBetween, List.map_map, List.map_map]
  exact List.map_congr_left fun difference _ ↦ referenceTokens_pathText difference.path

end Rvx.Core
