import Mathlib.Data.List.Nodup
import Mathlib.Data.Prod.Lex
import Mathlib.Data.String.Basic

/-!
# Ordered maps and sets

A map is the list of its entries in strictly ascending key order, so two maps with the same
entries are equal and iteration is iteration over the list.  A set is a map to `Unit`.
-/

namespace Rvx

/-- A map whose entries are kept in strictly ascending key order. -/
structure OrderedMap (κ ν : Type) [LinearOrder κ] where
  entries : List (κ × ν)
  ascending : (entries.map Prod.fst).Pairwise (· < ·)
deriving DecidableEq

/-- A set is a map that carries no values. -/
abbrev OrderedSet (κ : Type) [LinearOrder κ] : Type := OrderedMap κ Unit

namespace OrderedMap

variable {κ ν : Type} [LinearOrder κ]

/-- Insert an entry into an ascending list, replacing an entry with the same key. -/
def insertEntry (key : κ) (value : ν) : List (κ × ν) → List (κ × ν)
  | [] => [(key, value)]
  | (k, v) :: rest =>
    if key < k then (key, value) :: (k, v) :: rest
    else if key = k then (key, value) :: rest
    else (k, v) :: insertEntry key value rest

theorem mem_insertEntry {key k : κ} {value : ν} {entries : List (κ × ν)} :
    k ∈ (insertEntry key value entries).map Prod.fst ↔ k = key ∨ k ∈ entries.map Prod.fst := by
  induction entries with
  | nil => simp [insertEntry]
  | cons entry rest ih =>
    unfold insertEntry
    split_ifs with hlt heq
    · simp
    · simp [heq]
    · rw [List.map_cons, List.map_cons, List.mem_cons, List.mem_cons, ih]
      tauto

theorem ascending_insertEntry {key : κ} {value : ν} {entries : List (κ × ν)}
    (h : (entries.map Prod.fst).Pairwise (· < ·)) :
    ((insertEntry key value entries).map Prod.fst).Pairwise (· < ·) := by
  induction entries with
  | nil => simp [insertEntry]
  | cons entry rest ih =>
    rw [List.map_cons, List.pairwise_cons] at h
    unfold insertEntry
    split_ifs with hlt heq
    · simp only [List.map_cons, List.pairwise_cons, List.mem_cons, forall_eq_or_imp]
      exact ⟨⟨hlt, fun k hk ↦ hlt.trans (h.1 k hk)⟩, h⟩
    · rw [List.map_cons, List.pairwise_cons]
      exact ⟨fun k hk ↦ heq ▸ h.1 k hk, h.2⟩
    · rw [List.map_cons, List.pairwise_cons]
      refine ⟨fun k hk ↦ ?_, ih h.2⟩
      cases mem_insertEntry.mp hk with
      | inl hkey => exact hkey ▸ lt_of_le_of_ne (not_lt.mp hlt) (Ne.symm heq)
      | inr hmem => exact h.1 k hmem

def empty : OrderedMap κ ν := ⟨[], List.Pairwise.nil⟩

def insert (key : κ) (value : ν) (map : OrderedMap κ ν) : OrderedMap κ ν :=
  ⟨insertEntry key value map.entries, ascending_insertEntry map.ascending⟩

def keys (map : OrderedMap κ ν) : List κ := map.entries.map Prod.fst

def size (map : OrderedMap κ ν) : ℕ := map.entries.length

def get? (map : OrderedMap κ ν) (key : κ) : Option ν :=
  (map.entries.find? fun entry ↦ entry.1 = key).map Prod.snd

instance : Membership κ (OrderedMap κ ν) := ⟨fun map key ↦ key ∈ map.keys⟩

instance (key : κ) (map : OrderedMap κ ν) : Decidable (key ∈ map) :=
  inferInstanceAs (Decidable (key ∈ map.keys))

theorem mem_def {key : κ} {map : OrderedMap κ ν} : key ∈ map ↔ key ∈ map.keys := Iff.rfl

@[simp]
theorem not_mem_empty (key : κ) : key ∉ (empty : OrderedMap κ ν) := by
  simp [mem_def, empty, keys]

@[simp]
theorem mem_insert {key k : κ} {value : ν} {map : OrderedMap κ ν} :
    k ∈ map.insert key value ↔ k = key ∨ k ∈ map :=
  mem_insertEntry

theorem nodup_keys (map : OrderedMap κ ν) : map.keys.Nodup :=
  map.ascending.imp fun h ↦ ne_of_lt h

theorem length_keys (map : OrderedMap κ ν) : map.keys.length = map.size := by
  simp [keys, size]

/-- An entry list in ascending order is found at its own keys. -/
theorem get?_eq_some_of_mem {map : OrderedMap κ ν} {key : κ} {value : ν}
    (h : (key, value) ∈ map.entries) : map.get? key = some value := by
  obtain ⟨entries, hascending⟩ := map
  unfold get?
  dsimp only at h ⊢
  induction entries with
  | nil => simp at h
  | cons entry rest ih =>
    rw [List.map_cons, List.pairwise_cons] at hascending
    cases List.mem_cons.mp h with
    | inl heq => simp [← heq]
    | inr hmem =>
      have hne : entry.1 ≠ key := ne_of_lt (hascending.1 key (List.mem_map_of_mem hmem))
      rw [List.find?_cons_of_neg (by simpa using hne)]
      exact ih hascending.2 hmem

theorem get?_eq_some {map : OrderedMap κ ν} {key : κ} {value : ν} :
    map.get? key = some value ↔ (key, value) ∈ map.entries := by
  refine ⟨fun h ↦ ?_, get?_eq_some_of_mem⟩
  unfold get? at h
  obtain ⟨entry, hfind, rfl⟩ := Option.map_eq_some_iff.mp h
  have hkey : entry.1 = key := by simpa using List.find?_some hfind
  rw [← hkey]
  exact List.mem_of_find?_eq_some hfind

theorem get?_isSome {map : OrderedMap κ ν} {key : κ} : (map.get? key).isSome ↔ key ∈ map := by
  rw [Option.isSome_iff_exists]
  simp only [get?_eq_some, mem_def, keys, List.mem_map, Prod.exists, exists_and_right, exists_eq_right]

theorem mem_entries_insertEntry {key : κ} {value : ν} {entries : List (κ × ν)}
    (h : (entries.map Prod.fst).Pairwise (· < ·)) {entry : κ × ν} :
    entry ∈ insertEntry key value entries ↔
      entry = (key, value) ∨ (entry.1 ≠ key ∧ entry ∈ entries) := by
  induction entries with
  | nil => simp [insertEntry]
  | cons first rest ih =>
    rw [List.map_cons, List.pairwise_cons] at h
    have hrest (hle : key ≤ first.1) : ∀ other ∈ rest, other.1 ≠ key := fun other hother ↦
      ne_of_gt (lt_of_le_of_lt hle (h.1 _ (List.mem_map_of_mem hother)))
    unfold insertEntry
    split_ifs with hlt heq
    · have hfirst : first.1 ≠ key := ne_of_gt hlt
      constructor
      · intro hmem
        rcases List.mem_cons.mp hmem with hnew | hold
        · exact Or.inl hnew
        · refine Or.inr ⟨?_, hold⟩
          cases List.mem_cons.mp hold with
          | inl hf => exact hf ▸ hfirst
          | inr hr => exact hrest hlt.le entry hr
      · intro hmem
        exact List.mem_cons.mpr (hmem.imp_right And.right)
    · constructor
      · intro hmem
        rcases List.mem_cons.mp hmem with hnew | hold
        · exact Or.inl hnew
        · exact Or.inr ⟨hrest heq.le entry hold, List.mem_cons_of_mem _ hold⟩
      · rintro (hnew | ⟨hne, hold⟩)
        · exact List.mem_cons.mpr (Or.inl hnew)
        · cases List.mem_cons.mp hold with
          | inl hf => exact absurd (hf ▸ heq.symm) hne
          | inr hr => exact List.mem_cons_of_mem _ hr
    · rw [List.mem_cons, ih h.2, List.mem_cons]
      constructor
      · rintro (hf | hnew | ⟨hne, hr⟩)
        · exact Or.inr ⟨hf ▸ Ne.symm heq, Or.inl hf⟩
        · exact Or.inl hnew
        · exact Or.inr ⟨hne, Or.inr hr⟩
      · rintro (hnew | ⟨hne, hf | hr⟩)
        · exact Or.inr (Or.inl hnew)
        · exact Or.inl hf
        · exact Or.inr (Or.inr ⟨hne, hr⟩)

theorem get?_insert_self {key : κ} {value : ν} {map : OrderedMap κ ν} :
    (map.insert key value).get? key = some value :=
  get?_eq_some.mpr ((mem_entries_insertEntry map.ascending).mpr (Or.inl rfl))

theorem get?_insert_of_ne {key k : κ} {value : ν} {map : OrderedMap κ ν} (hne : k ≠ key) :
    (map.insert key value).get? k = map.get? k := by
  have hiff (v : ν) : (map.insert key value).get? k = some v ↔ map.get? k = some v := by
    rw [get?_eq_some, get?_eq_some]
    refine (mem_entries_insertEntry map.ascending).trans ?_
    simp [hne]
  exact Option.ext fun v ↦ hiff v

theorem get?_insert {key k : κ} {value : ν} {map : OrderedMap κ ν} :
    (map.insert key value).get? k = if k = key then some value else map.get? k := by
  split_ifs with h
  · rw [h, get?_insert_self]
  · exact get?_insert_of_ne h

@[simp]
theorem get?_empty (key : κ) : (empty : OrderedMap κ ν).get? key = none := rfl

theorem size_insert_of_not_mem {key : κ} {value : ν} {map : OrderedMap κ ν} (h : key ∉ map) :
    (map.insert key value).size = map.size + 1 := by
  obtain ⟨entries, hascending⟩ := map
  rw [mem_def, keys] at h
  unfold size insert
  dsimp only at h ⊢
  clear hascending
  induction entries with
  | nil => rfl
  | cons entry rest ih =>
    rw [List.map_cons, List.mem_cons, not_or] at h
    unfold insertEntry
    split_ifs with hlt heq
    · rfl
    · exact absurd heq h.1
    · rw [List.length_cons, List.length_cons, ih h.2]

/-- A map collected from a list of entries; later entries win. -/
def ofList (entries : List (κ × ν)) : OrderedMap κ ν :=
  entries.foldl (fun map entry ↦ map.insert entry.1 entry.2) empty

/-- What a collected map holds was in the list. -/
theorem mem_of_get?_ofList {entries : List (κ × ν)} {key : κ} {value : ν}
    (h : (ofList entries).get? key = some value) : (key, value) ∈ entries := by
  have hfold : ∀ (list : List (κ × ν)) (map : OrderedMap κ ν),
      (list.foldl (fun map entry ↦ map.insert entry.1 entry.2) map).get? key = some value →
        (key, value) ∈ list ∨ map.get? key = some value := by
    intro list
    induction list with
    | nil => exact fun map hmap ↦ Or.inr hmap
    | cons entry rest ih =>
      intro map hmap
      cases ih _ hmap with
      | inl hrest => exact Or.inl (List.mem_cons_of_mem _ hrest)
      | inr hinsert =>
        rw [get?_insert] at hinsert
        split_ifs at hinsert with hkey
        · rw [hkey, ← Option.some.inj hinsert]
          exact Or.inl List.mem_cons_self
        · exact Or.inr hinsert
  cases hfold entries empty h with
  | inl hmem => exact hmem
  | inr hempty => simp at hempty

/-- Updating the values under distinct keys, one after another. -/
theorem get?_foldl_insert {β : Type} (change : Option ν → β → ν) {entries : List (κ × β)}
    (hnodup : (entries.map Prod.fst).Nodup) (map : OrderedMap κ ν) (key : κ) :
    (entries.foldl
      (fun map entry ↦ map.insert entry.1 (change (map.get? entry.1) entry.2)) map).get? key =
      (((entries.find? fun entry ↦ entry.1 = key).map Prod.snd).map (change (map.get? key))).or
        (map.get? key) := by
  induction entries generalizing map with
  | nil => rfl
  | cons entry rest ih =>
    rw [List.map_cons, List.nodup_cons] at hnodup
    rw [List.foldl_cons, ih hnodup.2, get?_insert]
    by_cases hkey : key = entry.1
    · have hrest : rest.find? (fun other ↦ decide (other.1 = key)) = none := by
        rw [List.find?_eq_none]
        intro other hother heq
        exact hnodup.1 (hkey ▸ of_decide_eq_true heq ▸ List.mem_map_of_mem hother)
      rw [hrest, List.find?_cons_of_pos (by simpa using hkey.symm), if_pos hkey, hkey]
      rfl
    · rw [List.find?_cons_of_neg (by simpa using Ne.symm hkey), if_neg hkey]

/-- A map collected under distinct keys holds every entry. -/
theorem get?_ofList_of_mem {entries : List (κ × ν)} (hnodup : (entries.map Prod.fst).Nodup)
    {key : κ} {value : ν} (h : (key, value) ∈ entries) :
    (ofList entries).get? key = some value := by
  have hfind : entries.find? (fun entry ↦ entry.1 = key) = some (key, value) := by
    induction entries with
    | nil => cases h
    | cons entry rest ih =>
      rw [List.map_cons, List.nodup_cons] at hnodup
      cases List.mem_cons.mp h with
      | inl heq => rw [← heq, List.find?_cons_of_pos (by simp)]
      | inr hmem =>
        have hne : entry.1 ≠ key := fun heq ↦
          hnodup.1 (heq ▸ List.mem_map_of_mem (f := Prod.fst) hmem)
        rw [List.find?_cons_of_neg (by simpa using hne)]
        exact ih hnodup.2 hmem
  have hget := get?_foldl_insert (fun _ value ↦ value) hnodup (empty : OrderedMap κ ν) key
  rw [hfind] at hget
  exact hget

/-- Finding a key among entries some of which were left out. -/
theorem find?_filterMap {β : Type} (read : ν → Option β) {entries : List (κ × ν)}
    (hnodup : (entries.map Prod.fst).Nodup) (key : κ) :
    ((entries.filterMap fun entry ↦ (read entry.2).map fun value ↦ (entry.1, value)).find?
      fun entry ↦ entry.1 = key).map Prod.snd =
      ((entries.find? fun entry ↦ entry.1 = key).map Prod.snd).bind read := by
  induction entries with
  | nil => rfl
  | cons entry rest ih =>
    rw [List.map_cons, List.nodup_cons] at hnodup
    by_cases hkey : entry.1 = key
    · rw [List.find?_cons_of_pos (by simpa using hkey), List.filterMap_cons]
      cases hread : read entry.2 with
      | none =>
        have hrest : rest.find? (fun other ↦ decide (other.1 = key)) = none := by
          rw [List.find?_eq_none]
          intro other hother heq
          exact hnodup.1 (hkey ▸ of_decide_eq_true heq ▸ List.mem_map_of_mem hother)
        rw [Option.map_none]
        dsimp only
        rw [ih hnodup.2, hrest]
        exact hread.symm
      | some value =>
        rw [Option.map_some]
        dsimp only
        rw [List.find?_cons_of_pos (by simpa using hkey)]
        exact hread.symm
    · rw [List.find?_cons_of_neg (by simpa using hkey), List.filterMap_cons, ← ih hnodup.2]
      cases read entry.2 with
      | none => rfl
      | some value =>
        rw [Option.map_some]
        dsimp only
        rw [List.find?_cons_of_neg (by simpa using hkey)]

/-- `extend`: the entries of the second map replace those of the first. -/
def extend (map other : OrderedMap κ ν) : OrderedMap κ ν :=
  other.entries.foldl (fun map entry ↦ map.insert entry.1 entry.2) map

/-- The right-biased union. -/
theorem get?_extend {map other : OrderedMap κ ν} {key : κ} :
    (map.extend other).get? key = (other.get? key).or (map.get? key) := by
  obtain ⟨entries, hascending⟩ := other
  unfold extend
  dsimp only
  induction entries generalizing map with
  | nil => rfl
  | cons entry rest ih =>
    rw [List.map_cons, List.pairwise_cons] at hascending
    rw [List.foldl_cons, ih hascending.2, get?_insert]
    unfold get?
    dsimp only
    by_cases hkey : key = entry.1
    · have hrest : rest.find? (fun other ↦ decide (other.1 = key)) = none := by
        rw [List.find?_eq_none]
        intro other hother heq
        have hlt := hascending.1 other.1 (List.mem_map_of_mem hother)
        exact absurd (hkey.symm.trans (of_decide_eq_true heq).symm) (ne_of_lt hlt)
      rw [List.find?_cons_of_pos (by simpa using hkey.symm), hrest]
      simp [hkey]
    · rw [List.find?_cons_of_neg (by simpa using Ne.symm hkey), if_neg hkey]

/-- A map is determined by what its keys map to. -/
theorem ext_get? {map other : OrderedMap κ ν} (h : ∀ key, map.get? key = other.get? key) :
    map = other := by
  have hmem (entry : κ × ν) : entry ∈ map.entries ↔ entry ∈ other.entries := by
    rw [← get?_eq_some, ← get?_eq_some, h]
  have hpairwise (map : OrderedMap κ ν) : map.entries.Pairwise fun a b ↦ a.1 < b.1 :=
    List.pairwise_map.mp map.ascending
  have hnodup (map : OrderedMap κ ν) : map.entries.Nodup :=
    (hpairwise map).imp fun hlt heq ↦ absurd (congrArg Prod.fst heq) (ne_of_lt hlt)
  have hperm : map.entries.Perm other.entries :=
    (List.perm_ext_iff_of_nodup (hnodup map) (hnodup other)).mpr hmem
  have hentries : map.entries = other.entries :=
    hperm.eq_of_pairwise (fun a b _ _ hab hba ↦ absurd hba (lt_asymm hab)) (hpairwise map)
      (hpairwise other)
  obtain ⟨entries, hascending⟩ := map
  obtain ⟨entries', hascending'⟩ := other
  dsimp only at hentries
  subst hentries
  rfl

@[simp]
theorem empty_extend (map : OrderedMap κ ν) : empty.extend map = map :=
  ext_get? fun key ↦ by rw [get?_extend, get?_empty, Option.or_none]

/-- `retain`. -/
def retain (keep : κ → ν → Bool) (map : OrderedMap κ ν) : OrderedMap κ ν :=
  ⟨map.entries.filter fun entry ↦ keep entry.1 entry.2,
    map.ascending.sublist (List.filter_sublist.map Prod.fst)⟩

theorem get?_retain {keep : κ → ν → Bool} {map : OrderedMap κ ν} {key : κ} {value : ν} :
    (map.retain keep).get? key = some value ↔
      map.get? key = some value ∧ keep key value = true := by
  rw [get?_eq_some, get?_eq_some]
  exact List.mem_filter

/-- Retaining everything changes nothing, and only that keeps the size. -/
theorem retain_eq_self {keep : κ → ν → Bool} {map : OrderedMap κ ν} :
    map.retain keep = map ↔ (map.retain keep).size = map.size := by
  refine ⟨congrArg size, fun h ↦ ?_⟩
  obtain ⟨entries, hascending⟩ := map
  have hfilter : entries.filter (fun entry ↦ keep entry.1 entry.2) = entries :=
    List.filter_sublist.eq_of_length h
  simp only [retain, hfilter]

end OrderedMap

namespace OrderedSet

variable {κ : Type} [LinearOrder κ]

def insert (key : κ) (set : OrderedSet κ) : OrderedSet κ := OrderedMap.insert key () set

/-- A set collected from a list of elements. -/
def ofList (keys : List κ) : OrderedSet κ := keys.foldl (fun set key ↦ insert key set) OrderedMap.empty

@[simp]
theorem mem_insert {key k : κ} {set : OrderedSet κ} :
    k ∈ insert key set ↔ k = key ∨ k ∈ set :=
  OrderedMap.mem_insert

theorem mem_foldl_insert {keys : List κ} {set : OrderedSet κ} {k : κ} :
    k ∈ keys.foldl (fun set key ↦ insert key set) set ↔ k ∈ keys ∨ k ∈ set := by
  induction keys generalizing set with
  | nil => simp
  | cons key rest ih =>
    rw [List.foldl_cons, ih, mem_insert, List.mem_cons]
    tauto

@[simp]
theorem mem_ofList {keys : List κ} {k : κ} : k ∈ ofList keys ↔ k ∈ keys := by
  simp [ofList, mem_foldl_insert]

end OrderedSet

end Rvx
