import Rvx.Core.SnapshotChanges
import Rvx.Tables.Catalog

/-!
# What a catalog lists

A flag that was never raised means that no bound was met.  Discovery then visits exactly the
collections that a descent through wrappers reaches, and a table's columns describe the records of
all of them.
-/

namespace Rvx.Tables

open Core Engine Check StableSort

/-! ## Record maps -/

/-- The keys under which a record holds a scalar. -/
def scalarKeys : Value → List String
  | .object row => (row.filter fun entry ↦ !isContainer entry.2).map Prod.fst
  | _ => []

def wraps (entries : List (String × Value)) : Bool :=
  entries.any fun row ↦ (memberValues row.2).any fun field ↦ (memberValues field).any isContainer

/-- The members of an object are records: they share a scalar key, and it is no small wrapper. -/
def recordMap : List (String × Value) → Bool
  | [] => false
  | first :: rest =>
    !(decide ((first :: rest).length ≤ MAX_WRAPPER_MEMBERS) && wraps (first :: rest)) &&
      (scalarKeys first.2).any fun key ↦
        (first :: rest).all fun entry ↦ decide (key ∈ scalarKeys entry.2)

section RecordMaps

variable {nodes nodes' : ℕ} {found : Bool}

theorem anyVisited_eq {test : Value → Script ℕ Unit Bool} {passes : Value → Bool}
    (htest : ∀ value nodes nodes' found, (test value).Returns nodes found nodes' →
      found = passes value)
    {values : List Value} (h : (anyVisited test values).Returns nodes found nodes') :
    found = values.any passes := by
  induction values generalizing nodes with
  | nil =>
    rw [anyVisited, Script.returns_pure] at h
    exact h.1.symm
  | cons value rest ih =>
    simp only [anyVisited, Script.returns_bind] at h
    obtain ⟨_, _, -, passed, middle, hpassed, h⟩ := h
    rw [List.any_cons, ← htest value _ _ _ hpassed]
    cases passed with
    | true =>
      rw [if_pos rfl, Script.returns_pure] at h
      exact h.1.symm
    | false =>
      rw [if_neg Bool.false_ne_true] at h
      exact ih h

theorem wrapsDocuments_eq {entries : List (String × Value)}
    (h : (wrapsDocuments entries).Returns nodes found nodes') : found = wraps entries := by
  have hmap : wraps entries = (entries.map Prod.snd).any fun row ↦
      (memberValues row).any fun field ↦ (memberValues field).any isContainer := by
    rw [wraps, List.any_map]
    rfl
  rw [hmap]
  refine anyVisited_eq (fun row _ _ _ hrow ↦ ?_) h
  refine anyVisited_eq (fun field _ _ _ hfield ↦ ?_) hrow
  refine anyVisited_eq (fun value _ _ _ hvalue ↦ ?_) hfield
  exact (Script.returns_pure.mp hvalue).1.symm

theorem visitScalarKeys_eq {row : List (String × Value)} {keys : List String}
    (h : (visitScalarKeys row).Returns nodes keys nodes') : keys = scalarKeys (.object row) := by
  induction row generalizing nodes keys nodes' with
  | nil =>
    rw [visitScalarKeys, Script.returns_pure] at h
    exact h.1.symm
  | cons entry rest ih =>
    simp only [visitScalarKeys, Script.returns_bind, Script.returns_pure] at h
    obtain ⟨_, _, -, others, _, hothers, rfl, -⟩ := h
    rw [ih hothers, scalarKeys, scalarKeys, List.filter_cons]
    cases isContainer entry.2 with
    | true => rfl
    | false => rfl

/-- Some key is shared by the values before and by these. -/
theorem shareKey_iff {common : Option (List String)} {values : List Value}
    (hcommon : common ≠ some [])
    (h : (shareKey common values).Returns nodes found nodes') :
    found = true ↔ ∃ key, (∀ keys ∈ common, key ∈ keys) ∧ ∀ value ∈ values, key ∈ scalarKeys value := by
  induction values generalizing common nodes with
  | nil =>
    rw [shareKey, Script.returns_pure] at h
    refine iff_of_true h.1.symm ?_
    cases common with
    | none => exact ⟨"", by simp⟩
    | some keys =>
      obtain ⟨key, hkey⟩ := List.exists_mem_of_ne_nil keys fun hnil ↦ hcommon (by rw [hnil])
      exact ⟨key, by simpa using hkey, by simp⟩
  | cons value rest ih =>
    simp only [shareKey, Script.returns_bind] at h
    obtain ⟨_, _, -, h⟩ := h
    cases value with
    | object row =>
      simp only [Script.returns_bind] at h
      obtain ⟨keys, _, hkeys, h⟩ := h
      rw [visitScalarKeys_eq hkeys] at h
      have hshared (key : String) :
          key ∈ common.elim (scalarKeys (.object row)) (fun previous ↦
            previous.filter fun key ↦ key ∈ scalarKeys (.object row)) ↔
            (∀ keys ∈ common, key ∈ keys) ∧ key ∈ scalarKeys (.object row) := by
        cases common with
        | none => simp
        | some previous => simp
      obtain ⟨hempty, h⟩ | ⟨hempty, h⟩ := Script.returns_ite.mp h
      · refine iff_of_false (by rw [← (Script.returns_pure.mp h).1]; exact Bool.false_ne_true) ?_
        rintro ⟨key, hbefore, hrest⟩
        have hmem := (hshared key).mpr ⟨hbefore, hrest _ List.mem_cons_self⟩
        rw [hempty] at hmem
        exact List.not_mem_nil hmem
      · rw [ih (fun heq ↦ hempty (Option.some.inj heq)) h]
        simp only [Option.mem_some_iff, forall_eq', hshared, List.forall_mem_cons, and_assoc]
    | _ =>
      refine iff_of_false ?_ ?_
      · rw [← (Script.returns_pure.mp h).1]
        exact Bool.false_ne_true
      · rintro ⟨key, -, hrest⟩
        exact List.not_mem_nil (hrest _ List.mem_cons_self)

theorem isRecordMap_eq {entries : List (String × Value)}
    (h : (isRecordMap entries).Returns nodes found nodes') : found = recordMap entries := by
  unfold isRecordMap at h
  cases entries with
  | nil =>
    rw [List.isEmpty_nil, if_pos rfl, Script.returns_pure] at h
    exact h.1.symm
  | cons first rest =>
    rw [List.isEmpty_cons, if_neg Bool.false_ne_true] at h
    obtain ⟨wrapper, middle, hwraps, h⟩ : ∃ wrapper middle, wrapper =
        (decide ((first :: rest).length ≤ MAX_WRAPPER_MEMBERS) && wraps (first :: rest)) ∧
        (if wrapper = true then pure false
          else shareKey none ((first :: rest).map Prod.snd)).Returns middle found nodes' := by
      obtain ⟨hlength, h⟩ | ⟨hlength, h⟩ := Script.returns_ite.mp h
      · obtain ⟨wrapper, middle, hwrapper, h⟩ := Script.returns_bind.mp h
        exact ⟨wrapper, middle, by
          rw [wrapsDocuments_eq hwrapper, decide_eq_true hlength, Bool.true_and], h⟩
      · obtain ⟨wrapper, middle, hwrapper, h⟩ := Script.returns_bind.mp h
        exact ⟨wrapper, middle, by
          rw [← (Script.returns_pure.mp hwrapper).1, decide_eq_false hlength, Bool.false_and], h⟩
    rw [recordMap, ← hwraps]
    cases wrapper with
    | true =>
      rw [if_pos rfl, Script.returns_pure] at h
      exact h.1.symm
    | false =>
      rw [if_neg Bool.false_ne_true] at h
      rw [Bool.not_false, Bool.true_and, Bool.eq_iff_iff, shareKey_iff (by simp) h]
      simp only [List.any_eq_true, List.all_eq_true, decide_eq_true_eq, List.forall_mem_map,
        List.forall_mem_cons]
      constructor
      · rintro ⟨key, -, hall⟩
        exact ⟨key, hall.1, hall⟩
      · rintro ⟨key, -, hall⟩
        exact ⟨key, by simp, hall⟩

end RecordMaps

/-! ## Notes -/

/-- A record that is noted whole. -/
def CatalogHints.addRow (hints : CatalogHints) (row : Value) : CatalogHints :=
  ((rowFields row).foldl (fun hints field ↦ hints.observe field.1 (cellKind (.value field.2)))
    hints).complete

theorem noteFields_kept {fields : List (String × Value)} {noting : Noting}
    (h : (noteFields fields noting).1.truncated = false) :
    noting.truncated = false ∧ (noteFields fields noting).2 = true ∧
      (noteFields fields noting).1.hints =
        fields.foldl (fun hints field ↦ hints.observe field.1 (cellKind (.value field.2)))
          noting.hints := by
  induction fields generalizing noting with
  | nil => exact ⟨h, rfl, rfl⟩
  | cons field rest ih =>
    rw [noteFields] at h ⊢
    split_ifs at h ⊢
    · exact absurd (ih h).1 (by simp)
    · exact ih h

theorem noteRows_kept {rows : List Value} {noting : Noting}
    (h : (noteRows rows noting).truncated = false) :
    noting.truncated = false ∧
      (noteRows rows noting).hints = rows.foldl CatalogHints.addRow noting.hints := by
  induction rows generalizing noting with
  | nil => exact ⟨h, rfl⟩
  | cons row rest ih =>
    rw [noteRows] at h ⊢
    split_ifs at h ⊢
    rcases hfields : noteFields (rowFields row)
      ⟨noting.nodes + 1, noting.truncated, noting.hints⟩ with ⟨noted, complete⟩
    rw [hfields] at h
    dsimp only at h ⊢
    have hkept (hnoted : noted.truncated = false) := by
      have hkept := noteFields_kept (by rw [hfields]; exact hnoted)
      rwa [hfields] at hkept
    cases complete with
    | true =>
      rw [if_pos rfl] at h ⊢
      obtain ⟨hnoted, hhints⟩ := ih h
      obtain ⟨hbefore, -, hrow⟩ := hkept hnoted
      refine ⟨hbefore, hhints.trans ?_⟩
      rw [List.foldl_cons, CatalogHints.addRow, ← hrow]
    | false =>
      rw [if_neg Bool.false_ne_true] at h
      exact absurd (hkept h).2.1 Bool.false_ne_true

/-! ## Fields -/

theorem escapeKey_injective : Function.Injective escapeKey := fun key key' h ↦ by
  rw [← unescapeToken_escapeKey key, h, unescapeToken_escapeKey]

/-- The path of the column of a key. -/
theorem fieldPath_injective : Function.Injective fun key ↦ "/" ++ escapeKey key := fun key key' h ↦ by
  have htext := congrArg String.toList h
  simp only [String.toList_append, List.append_cancel_left_eq] at htext
  exact escapeKey_injective (String.toList_injective htext)

theorem rowFields_nodup {row : Value} (h : row.sorted = true) :
    ((rowFields row).map Prod.fst).Nodup := by
  cases row with
  | object entries =>
    have hkeys : (entries.map Prod.fst).Nodup := (sorted_object h).1.imp fun hlt ↦ ne_of_lt hlt
    have hmap : (rowFields (.object entries)).map Prod.fst =
        (entries.map Prod.fst).map fun key ↦ "/" ++ escapeKey key := by
      rw [rowFields, List.map_map, List.map_map]
      rfl
    rw [hmap]
    exact hkeys.map fieldPath_injective
  | _ => exact List.nodup_singleton _

/-- No field of a record is named as its key is. -/
theorem key_not_mem_rowFields (row : Value) : "$key" ∉ (rowFields row).map Prod.fst := by
  cases row with
  | object entries =>
    rw [rowFields, List.map_map, List.mem_map]
    rintro ⟨entry, -, h⟩
    have hhead := congrArg (fun text ↦ text.toList.head?) h
    simp only [Function.comp_apply, String.toList_append] at hhead
    exact absurd hhead (by simp)
  | _ => simp [rowFields]

/-- The direct field of a record. -/
def fieldOf (row : Value) (field : String) : Option Value :=
  ((rowFields row).find? fun entry ↦ entry.1 = field).map Prod.snd

theorem fieldOf_isSome {row : Value} {field : String} :
    (fieldOf row field).isSome ↔ field ∈ (rowFields row).map Prod.fst := by
  rw [fieldOf, Option.isSome_map, List.find?_isSome, List.mem_map]
  simp

/-! ## Hints of records -/

/-- The hint about a field after one more record that has it. -/
def seenAgain (hint : Option (ℕ × OrderedSet TableCellKind)) (value : Value) :
    ℕ × OrderedSet TableCellKind :=
  ((hint.getD (0, OrderedMap.empty)).1 + 1,
    OrderedSet.insert (cellKind (.value value)) (hint.getD (0, OrderedMap.empty)).2)

namespace CatalogHints

theorem foldl_observe (fields : List (String × Value)) (hints : CatalogHints) :
    fields.foldl (fun hints field ↦ hints.observe field.1 (cellKind (.value field.2))) hints =
      { hints with
        fields := fields.foldl (fun map entry ↦
          map.insert entry.1 (seenAgain (map.get? entry.1) entry.2)) hints.fields } := by
  induction fields generalizing hints with
  | nil => rfl
  | cons field rest ih =>
    rw [List.foldl_cons, ih, List.foldl_cons]
    rfl

variable {row : Value} {hints : CatalogHints}

@[simp]
theorem addRow_rows : (hints.addRow row).rows = hints.rows + 1 := by
  rw [addRow, foldl_observe]
  rfl

theorem addRow_key (hrow : row.sorted = true) {count : ℕ} {kinds : OrderedSet TableCellKind}
    (h : hints.fields.get? "$key" = some (count, kinds)) :
    (hints.addRow row).fields.get? "$key" = some (count + 1, kinds) := by
  have hsame : ((rowFields row).foldl (fun map entry ↦
      map.insert entry.1 (seenAgain (map.get? entry.1) entry.2)) hints.fields).get? "$key" =
      some (count, kinds) := by
    rw [OrderedMap.get?_foldl_insert _ (rowFields_nodup hrow), ← fieldOf,
      Option.not_isSome_iff_eq_none.mp (mt fieldOf_isSome.mp (key_not_mem_rowFields row)), h]
    rfl
  rw [addRow, foldl_observe, complete, hsame]
  exact OrderedMap.get?_insert_self

theorem addRow_field (hrow : row.sorted = true) {field : String} (hfield : field ≠ "$key") :
    (hints.addRow row).fields.get? field =
      ((fieldOf row field).map (seenAgain (hints.fields.get? field))).or
        (hints.fields.get? field) := by
  rw [addRow, foldl_observe, complete, fieldOf,
    ← OrderedMap.get?_foldl_insert seenAgain (rowFields_nodup hrow)]
  dsimp only
  cases OrderedMap.get? _ "$key" with
  | none => rfl
  | some hint => exact OrderedMap.get?_insert_of_ne hfield

end CatalogHints

/-- The hints about these records. -/
def hintsOf (rows : List Value) : CatalogHints :=
  rows.foldl CatalogHints.addRow CatalogHints.empty.withKey

section HintsOf

variable {rows : List Value}

theorem hintsOf_concat (rows : List Value) (row : Value) :
    hintsOf (rows ++ [row]) = (hintsOf rows).addRow row := by
  rw [hintsOf, List.foldl_append]
  rfl

theorem hintsOf_rows (rows : List Value) : (hintsOf rows).rows = rows.length := by
  induction rows using List.reverseRecOn with
  | nil => rfl
  | append_singleton rows row ih =>
    rw [hintsOf_concat, CatalogHints.addRow_rows, ih, List.length_append]
    rfl

theorem hintsOf_key (h : ∀ row ∈ rows, row.sorted = true) :
    (hintsOf rows).fields.get? "$key" = some (rows.length, OrderedSet.ofList [.string]) := by
  induction rows using List.reverseRecOn with
  | nil => rfl
  | append_singleton rows row ih =>
    rw [hintsOf_concat, CatalogHints.addRow_key (h row (by simp))
      (ih fun other hother ↦ h other (List.mem_append_left _ hother)), List.length_append]
    rfl

/-- A field is known once some record has it, with the kinds of its values. -/
theorem hintsOf_field (h : ∀ row ∈ rows, row.sorted = true) {field : String}
    (hfield : field ≠ "$key") :
    (hintsOf rows).fields.get? field =
      let values := rows.filterMap fun row ↦ fieldOf row field
      if values = [] then none
      else some (values.length, OrderedSet.ofList (values.map fun value ↦ cellKind (.value value))) := by
  induction rows using List.reverseRecOn with
  | nil =>
    rw [hintsOf, List.foldl_nil, CatalogHints.withKey, if_neg (by simp [CatalogHints.empty])]
    exact OrderedMap.get?_insert_of_ne hfield
  | append_singleton rows row ih =>
    rw [hintsOf_concat, CatalogHints.addRow_field (h row (by simp)) hfield,
      ih fun other hother ↦ h other (List.mem_append_left _ hother), List.filterMap_append]
    generalize rows.filterMap (fun row ↦ fieldOf row field) = values
    cases hvalue : fieldOf row field with
    | none => simp [hvalue]
    | some value =>
      rw [List.filterMap_cons, hvalue]
      by_cases hvalues : values = []
      · simp [hvalues, seenAgain, OrderedSet.ofList]
      · simp [hvalues, seenAgain, OrderedSet.ofList]

end HintsOf

/-! ## Descent -/

/-- Whether a descent goes on to the members of a collection. -/
def opens (path : String) : Value → Bool
  | .object entries => decide (path = "") || !recordMap entries
  | _ => false

mutual

/-- The collections a descent reaches, under their paths; it passes wrappers only. -/
def reached (path : String) : Value → List (String × Value)
  | .object entries =>
    (path, .object entries) ::
      if opens path (.object entries) = true then reachedEntries path entries else []
  | .array items => [(path, .array items)]
  | .null => []
  | .bool _ => []
  | .number _ => []
  | .string _ => []

def reachedEntries (path : String) : List (String × Value) → List (String × Value)
  | [] => []
  | (key, child) :: rest => reached (path ++ "/" ++ escapeKey key) child ++ reachedEntries path rest

end

/-- The records of the collections at a path. -/
def rowsAt (found : List (String × Value)) (path : String) : List Value :=
  (found.filter fun entry ↦ entry.1 = path).flatMap fun entry ↦ (collection entry.2).map Prod.snd

theorem rowsAt_concat (found : List (String × Value)) (path path' : String) (value : Value) :
    rowsAt (found ++ [(path, value)]) path' =
      rowsAt found path' ++ if path = path' then (collection value).map Prod.snd else [] := by
  rw [rowsAt, List.filter_append, List.flatMap_append, ← rowsAt, List.filter_singleton]
  split_ifs with hpath
  · simp [hpath]
  · simp [hpath]

theorem rowsAt_of_not_mem {found : List (String × Value)} {path : String}
    (h : path ∉ found.map Prod.fst) : rowsAt found path = [] := by
  have hnone : (found.filter fun entry ↦ entry.1 = path) = [] := by
    rw [List.filter_eq_nil_iff]
    intro entry hentry heq
    exact h (of_decide_eq_true heq ▸ List.mem_map_of_mem hentry)
  rw [rowsAt, hnone, List.flatMap_nil]

theorem sorted_collection {value : Value} (h : value.sorted = true) :
    ∀ row ∈ (collection value).map Prod.snd, row.sorted = true := by
  intro row hrow
  obtain ⟨entry, hentry, rfl⟩ := List.mem_map.mp hrow
  cases value with
  | array items =>
    rw [Value.sorted, Value.sortedItems_eq, List.all_eq_true] at h
    obtain ⟨i, hi, rfl⟩ := List.mem_mapIdx.mp hentry
    exact h _ (List.getElem_mem hi)
  | object entries =>
    rw [Value.sorted, Bool.and_eq_true, Value.sortedEntries_eq, List.all_eq_true] at h
    exact h.2 entry hentry
  | _ => cases hentry

theorem sorted_rowsAt {found : List (String × Value)} (h : ∀ entry ∈ found, entry.2.sorted = true)
    (path : String) : ∀ row ∈ rowsAt found path, row.sorted = true := by
  intro row hrow
  obtain ⟨entry, hentry, hrow⟩ := List.mem_flatMap.mp hrow
  exact sorted_collection (h entry (List.mem_of_mem_filter hentry)) row hrow

namespace Discovery

/-- The discovery describes the collections found so far. -/
structure Covers (discovery : Discovery) (found : List (String × Value)) : Prop where
  sorted : ∀ entry ∈ found, entry.2.sorted = true
  hints : ∀ path, discovery.hints.get? path =
    if path ∈ found.map Prod.fst then some (hintsOf (rowsAt found path)) else none
  keys : ∀ path, path ∈ discovery.tables ↔ path ∈ found.map Prod.fst
  tables : ∀ path table, discovery.tables.get? path = some table →
    table.path = path ∧ table.columns = (hintsOf (rowsAt found path)).columns

theorem covers_empty : empty.Covers [] := by
  refine ⟨by simp, fun path ↦ rfl, fun path ↦ ?_, fun path table h ↦ ?_⟩
  · simp [empty]
  · cases h

variable {discovery : Discovery} {path : String} {value : Value} {found : List (String × Value)}

/-- What is known at a path is known about the records of its collections. -/
theorem Covers.hintsAt (h : discovery.Covers found) (path : String) :
    ((discovery.hints.get? path).getD CatalogHints.empty).withKey =
      hintsOf (rowsAt found path) := by
  rw [h.hints]
  split_ifs with hpath
  · have hkey : "$key" ∈ (hintsOf (rowsAt found path)).fields := by
      rw [← OrderedMap.get?_isSome, hintsOf_key (sorted_rowsAt h.sorted path)]
      rfl
    rw [Option.getD_some, CatalogHints.withKey, if_pos hkey]
  · rw [rowsAt_of_not_mem hpath]
    rfl

theorem covers_note (hcovers : discovery.Covers found) (hsorted : value.sorted = true)
    (h : (discovery.note path value).truncated = false) :
    (discovery.note path value).Covers (found ++ [(path, value)]) := by
  obtain ⟨-, hhints⟩ := noteRows_kept h
  rw [hcovers.hintsAt] at hhints
  have hrows : (rowsAt (found ++ [(path, value)]) path) =
      rowsAt found path ++ (collection value).map Prod.snd := by
    rw [rowsAt_concat, if_pos rfl]
  have hnoted : hintsOf (rowsAt (found ++ [(path, value)]) path) =
      (noteRows ((collection value).map Prod.snd) ⟨discovery.nodes, discovery.truncated,
        ((discovery.hints.get? path).getD CatalogHints.empty).withKey⟩).hints := by
    rw [hcovers.hintsAt, hhints, hrows, hintsOf, List.foldl_append]
    rfl
  have hother {path' : String} (hne : path' ≠ path) :
      rowsAt (found ++ [(path, value)]) path' = rowsAt found path' := by
    rw [rowsAt_concat, if_neg (Ne.symm hne), List.append_nil]
  have hmem (path' : String) : path' ∈ (found ++ [(path, value)]).map Prod.fst ↔
      path' ∈ found.map Prod.fst ∨ path' = path := by
    rw [List.map_append, List.mem_append, List.map_singleton, List.mem_singleton]
  constructor
  · intro entry hentry
    obtain hentry | hentry := List.mem_append.mp hentry
    · exact hcovers.sorted entry hentry
    · rw [List.mem_singleton.mp hentry]
      exact hsorted
  · intro path'
    rw [note, OrderedMap.get?_insert]
    split_ifs with heq hin hin
    · rw [heq, hnoted]
    · exact absurd ((hmem path').mpr (Or.inr heq)) hin
    · rw [hother heq, hcovers.hints, if_pos (((hmem path').mp hin).resolve_right heq)]
    · rw [hcovers.hints, if_neg fun hpath ↦ hin ((hmem path').mpr (Or.inl hpath))]
  · intro path'
    rw [note, OrderedMap.mem_insert, hcovers.keys, hmem, or_comm]
  · intro path' table htable
    rw [note, OrderedMap.get?_insert] at htable
    split_ifs at htable with heq
    · obtain rfl := Option.some.inj htable
      refine ⟨?_, ?_⟩
      · rw [heq]
        change ((discovery.tables.get? path).getD _).path = path
        cases hknown : discovery.tables.get? path with
        | none => rfl
        | some known => exact (hcovers.tables path known hknown).1
      · rw [heq, hnoted]
    · rw [hother heq]
      exact hcovers.tables path' table htable

/-! ## Visits -/

/-- Nodes and flags are no part of what a discovery describes. -/
theorem Covers.same {other : Discovery} (h : discovery.Covers found)
    (htables : other.tables = discovery.tables) (hhints : other.hints = discovery.hints) :
    other.Covers found :=
  ⟨h.sorted, by rw [hhints]; exact h.hints, by rw [htables]; exact h.keys,
    by rw [htables]; exact h.tables⟩

theorem descends_kept (h : (discovery.descends path value).1.truncated = false) :
    discovery.truncated = false ∧ (discovery.descends path value).2 = opens path value ∧
      ∀ found, discovery.Covers found → (discovery.descends path value).1.Covers found := by
  unfold descends at h ⊢
  by_cases hnodes : discovery.nodes ≥ MAX_CATALOG_NODES
  · rw [if_pos hnodes] at h
    cases h
  rw [if_neg hnodes] at h ⊢
  cases value with
  | object entries =>
    dsimp only at h ⊢
    by_cases hpath : path = ""
    · rw [if_pos hpath] at h ⊢
      exact ⟨h, by rw [opens, decide_eq_true hpath, Bool.true_or], fun _ hcovers ↦ hcovers⟩
    · rw [if_neg hpath] at h ⊢
      rcases hmap : isRecordMap entries discovery.nodes with ⟨result, nodes⟩
      rw [hmap] at h
      cases result with
      | ok records =>
        refine ⟨h, ?_, fun _ hcovers ↦ hcovers.same rfl rfl⟩
        rw [opens, decide_eq_false hpath, Bool.false_or, isRecordMap_eq hmap]
      | error _ => cases h
  | _ => exact ⟨h, rfl, fun _ hcovers ↦ hcovers⟩

/-- What a visit up to the members does to a discovery that is never cut off. -/
theorem enter_kept (h : (discovery.enter path value).1.truncated = false) :
    discovery.truncated = false ∧
      (discovery.enter path value).2 = (opens path value) ∧
      ∀ found, discovery.Covers found → value.sorted = true →
        (discovery.enter path value).1.Covers
          (found ++ if (collectionLen (some value)).isSome then [(path, value)] else []) := by
  unfold enter at h ⊢
  dsimp only at h ⊢
  by_cases hbound : discovery.nodes + 1 > MAX_CATALOG_NODES ∨ path.utf8ByteSize > 4096
  · rw [if_pos hbound] at h
    cases h
  rw [if_neg hbound] at h ⊢
  by_cases hnone : collectionLen (some value) = none
  · have hopens : opens path value = false := by
      cases value with
      | object entries => cases hnone
      | _ => rfl
    rw [if_pos hnone] at h ⊢
    refine ⟨h, hopens.symm, fun found hcovers _ ↦ ?_⟩
    rw [hnone, Option.isSome_none, if_neg Bool.false_ne_true, List.append_nil]
    exact hcovers.same rfl rfl
  rw [if_neg hnone] at h ⊢
  by_cases hfull : path ∉ discovery.tables ∧ discovery.tables.size ≥ MAX_TABLES
  · rw [if_pos hfull] at h
    cases h
  rw [if_neg hfull] at h ⊢
  obtain ⟨hnoted, hopens, hcovers⟩ := descends_kept h
  refine ⟨(noteRows_kept hnoted).1, hopens, fun found hfound hsorted ↦ hcovers _ ?_⟩
  rw [if_pos (Option.isSome_iff_ne_none.mpr hnone)]
  exact covers_note (hfound.same rfl rfl) hsorted hnoted

mutual

theorem visit_kept : ∀ (value : Value) {path : String} {discovery : Discovery},
    (visit path value discovery).truncated = false →
    discovery.truncated = false ∧ ∀ found, discovery.Covers found → value.sorted = true →
      (visit path value discovery).Covers (found ++ reached path value)
  | .object entries, path, discovery, h => by
    rw [visit] at h ⊢
    rcases henter : discovery.enter path (.object entries) with ⟨entered, descend⟩
    rw [henter] at h
    dsimp only at h ⊢
    have hkept (hentered : entered.truncated = false) := by
      have hkept := @enter_kept _ path (.object entries) (by rw [henter]; exact hentered)
      rwa [henter] at hkept
    cases descend with
    | true =>
      rw [if_pos rfl] at h ⊢
      obtain ⟨hentered, hcovers⟩ := visitEntries_kept entries h
      obtain ⟨hbefore, hopens, hnoted⟩ := hkept hentered
      refine ⟨hbefore, fun found hfound hsorted ↦ ?_⟩
      have hentries := hnoted found hfound hsorted
      rw [Value.sorted, Bool.and_eq_true] at hsorted
      rw [reached, ← hopens, if_pos rfl, List.append_cons]
      exact hcovers _ hentries hsorted.2
    | false =>
      rw [if_neg Bool.false_ne_true] at h ⊢
      obtain ⟨hbefore, hopens, hnoted⟩ := hkept h
      refine ⟨hbefore, fun found hfound hsorted ↦ ?_⟩
      rw [reached, ← hopens, if_neg Bool.false_ne_true]
      exact hnoted found hfound hsorted
  | .array items, path, discovery, h => by
    obtain ⟨hbefore, -, hcovers⟩ := enter_kept h
    exact ⟨hbefore, hcovers⟩
  | .null, path, discovery, h => by
    obtain ⟨hbefore, -, hcovers⟩ := enter_kept h
    exact ⟨hbefore, hcovers⟩
  | .bool value, path, discovery, h => by
    obtain ⟨hbefore, -, hcovers⟩ := enter_kept h
    exact ⟨hbefore, hcovers⟩
  | .number value, path, discovery, h => by
    obtain ⟨hbefore, -, hcovers⟩ := enter_kept h
    exact ⟨hbefore, hcovers⟩
  | .string value, path, discovery, h => by
    obtain ⟨hbefore, -, hcovers⟩ := enter_kept h
    exact ⟨hbefore, hcovers⟩

theorem visitEntries_kept : ∀ (entries : List (String × Value)) {path : String}
    {discovery : Discovery}, (visitEntries path entries discovery).truncated = false →
    discovery.truncated = false ∧ ∀ found, discovery.Covers found →
      Value.sortedEntries entries = true →
      (visitEntries path entries discovery).Covers (found ++ reachedEntries path entries)
  | [], path, discovery, h => by
    refine ⟨h, fun found hcovers _ ↦ ?_⟩
    rw [reachedEntries, List.append_nil]
    exact hcovers
  | (key, child) :: rest, path, discovery, h => by
    rw [visitEntries] at h ⊢
    by_cases hnodes : discovery.nodes ≥ MAX_CATALOG_NODES
    · rw [if_pos hnodes] at h
      cases h
    rw [if_neg hnodes] at h ⊢
    obtain ⟨hvisited, hrest⟩ := visitEntries_kept rest h
    obtain ⟨hbefore, hchild⟩ := visit_kept child hvisited
    refine ⟨hbefore, fun found hfound hsorted ↦ ?_⟩
    rw [Value.sortedEntries, Bool.and_eq_true] at hsorted
    rw [reachedEntries, ← List.append_assoc]
    exact hrest _ (hchild _ hfound hsorted.1) hsorted.2

end

end Discovery

/-- A discovery that is never cut off covers what is reached in all sources. -/
theorem discover_covers {snapshots : List StoredSnapshot}
    (h : (discover snapshots).truncated = false) :
    (discover snapshots).Covers
      (snapshots.flatMap fun snapshot ↦ reached "" snapshot.snapshot.state.value) := by
  induction snapshots using List.reverseRecOn with
  | nil => exact Discovery.covers_empty
  | append_singleton rest snapshot ih =>
    rw [discover, List.foldl_append] at h ⊢
    obtain ⟨hbefore, hcovers⟩ := Discovery.visit_kept _ h
    rw [List.flatMap_append, List.flatMap_singleton]
    exact hcovers _ (ih hbefore) snapshot.snapshot.state.sorted

end Rvx.Tables
