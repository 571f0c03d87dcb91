import Rvx.Lib.Grouping
import Rvx.Tables.RowPages

/-!
# Pages of records

The records of a collection are read like the rows of a table, and each of them is identified by a
few of its cells: strings and integers, no two records of a source by the same ones.  Without a sort
the sources take turns, each in the order of its identities; with a sort the ties of its cells are
decided by source and identity.  Pages are slices of one listing, and no two records on them have
the same identity text.
-/

namespace Rvx.Tables

open Core Engine Check StableSort Selection

/-! ## Identities -/

/-- `text.parse::<i128>()`. -/
def parseI128 (text : List Char) : Option ℤ :=
  match takeDigits (splitSign text).2 with
  | (first :: others, []) =>
    let value := signed (splitSign text).1 (digitsValue (first :: others))
    if -2 ^ 127 ≤ value ∧ value < 2 ^ 127 then some value else none
  | _ => none

/-- The part a component stands for; the text of a number was printed from an integer. -/
def identityPart : Component → IdentityPart
  | (.number, text) => .number ((text.bind fun text ↦ parseI128 text.toList).getD 0)
  | (_, text) => .string (text.getD "")

/-- The identity of a record among all sources, as it is returned. -/
def identityText (record : Record) (components : List Component) : String :=
  String.ofList (Value.array [.string record.snapshot.runId, .string record.snapshot.sourceId,
    componentsValue components]).print

/-- The bytes of the texts that comparisons of identities read. -/
def stringBytes (components : List Component) : ℕ :=
  ((components.filter fun component ↦ component.1 = .string).map fun component ↦
    component.2.elim 0 String.utf8ByteSize).sum

/-- The index of the snapshot of a record. -/
def scopeOf (snapshots : List StoredSnapshot) (record : Record) : ℕ :=
  ((OrderedMap.ofList (snapshots.mapIdx fun scope snapshot ↦ (snapshot.id, scope))).get?
    record.snapshot.id).getD 0

/-- The records that have been identified so far. -/
structure Identified where
  entries : List (Record × Identity)
  seen : List (ℕ × String)
  textBytes : ℕ

/-- The scalars at the identity fields of a record. -/
def identityComponents (fields : List FieldPath) (record : Record) : Work (List Component) :=
  Script.collect fields fun field ↦ do
    WorkBudget.visit
    Script.check (scalar true (field.cell record))

def identify (fields : List FieldPath) (snapshots : List StoredSnapshot) (state : Identified)
    (record : Record) : Work Identified := do
  let components ← identityComponents fields record
  let text := componentsText components
  let scope := scopeOf snapshots record
  Script.check (reject ((scope, text) ∈ state.seen)
    (.invalidInput "duplicate record identity in the full filtered collection"))
  let full := identityText record components
  WorkBudget.text (full.utf8ByteSize + text.utf8ByteSize)
  return ⟨state.entries ++ [(record, ⟨scope, components.map identityPart, full⟩)],
    (scope, text) :: state.seen, state.textBytes + stringBytes components⟩

/-! ## The page -/

/-- The order of sorted records; they carry their keys. -/
def recordOrder (direction : TableSortDirection) (a b : (Record × Identity) × SortKey) : Ordering :=
  (directed direction (a.2.compare b.2)).then
    ((Ord.compare a.1.2.scope b.1.2.scope).then (compareParts a.1.2.parts b.1.2.parts))

/-- The identified records of the page. -/
def recordPageOrder (runtime : Runtime) (request : SnapshotRecordsRequest) (scopes : ℕ)
    (identified : Identified) : Work (List (Record × Identity)) := do
  let entries := identified.entries
  let levels := levels entries.length
  WorkBudget.text (identified.textBytes * (2 * levels + 2))
  match request.sort with
  | none =>
    return (interleavedIdentityPage runtime.slices (entries.map Prod.snd) scopes request.offset
      request.limit).filterMap fun index ↦ entries[index.val]?
  | some sort =>
    let field := FieldPath.new sort.path
    Script.forEach entries fun entry ↦
      WorkBudget.text (cellBytes (field.cell entry.1) * (2 * levels + 2))
    let keyed := entries.map fun entry ↦ (entry, SortKey.new (field.cell entry.1))
    return (selectPage runtime.slices (recordOrder sort.direction) request.offset request.limit
      keyed).map Prod.fst

/-- The page of records that were loaded. -/
def readRecords (runtime : Runtime) (request : SnapshotRecordsRequest) (sources : List Source)
    (snapshots : List StoredSnapshot) : Work SnapshotRecordsResponse := do
  let scanned ← records runtime request.tableRequest .records snapshots sources
  Script.check (reject (scanned.allObjects = false ∧ "$key" ∈ request.identityPaths)
    (.invalidInput "$key identities require object collections, never array positions"))
  let identified ← scanned.rows.foldlM
    (identify (request.identityPaths.map FieldPath.new) snapshots) ⟨[], [], 0⟩
  let page ← recordPageOrder runtime request snapshots.length identified
  let table ← Script.check (render scanned.rows.length scanned.columns scanned.snapshots
    request.offset request.limit (page.map Prod.fst))
  let response : SnapshotRecordsResponse := ⟨table, page.map fun entry ↦ entry.2.full⟩
  Script.check (boundedResponse response.chars)
  return response

/-- `snapshot_records`. -/
def snapshotRecordsPage (runtime : Runtime) (serde : Serde) (request : SnapshotRecordsRequest)
    (sources : List Source) (db : Database) : Except EngineError SnapshotRecordsResponse := do
  request.validateIdentityPaths.mapError .invalidInput
  validateRowsLimit request.tableRequest MAX_SNAPSHOT_RECORDS_PAGE
  let snapshots ← tableSnapshots serde sources db runtime request.snapshotIds true
  (readRecords runtime request sources snapshots WorkBudget.empty).1

/-! ## Parts -/

/-- The part of an identity at a cell: a string, or an integer of 64 bits. -/
def Cell.part : Cell → Option IdentityPart
  | .key text => some (.string text)
  | .value (.string text) => some (.string text)
  | .value (.number number) => (NumericKey.wideInteger number).map .number
  | _ => none

def IdentityPart.component : IdentityPart → Component
  | .number value => (.number, some (String.ofList (printInt value)))
  | .string text => (.string, some text)

/-- The identity of a record in its source. -/
def Record.identity (paths : List String) (record : Record) : Option (List IdentityPart) :=
  paths.mapM fun path ↦ (record.cell path).part

theorem parseI128_signed {text : List Char} {negative : Bool} {digits : List (Fin 10)}
    (htext : splitSign text = (negative, digits.map digitChar)) (h : digits ≠ [])
    (hlow : -2 ^ 127 ≤ signed negative (digitsValue digits))
    (hhigh : signed negative (digitsValue digits) < 2 ^ 127) :
    parseI128 text = some (signed negative (digitsValue digits)) := by
  have htake := takeDigits_digits digits Printer.avoids_nil
  rw [List.append_nil] at htake
  obtain ⟨first, others, rfl⟩ := List.exists_cons_of_ne_nil h
  rw [parseI128, htext, htake]
  dsimp only
  rw [if_pos ⟨hlow, hhigh⟩]

theorem parseI128_printInt {z : ℤ} (hlow : -2 ^ 127 ≤ z) (hhigh : z < 2 ^ 127) :
    parseI128 (printInt z) = some z := by
  cases z with
  | ofNat n =>
    have hne := Number.decimalDigits_ne_nil n
    have hvalue : signed false (digitsValue (Number.decimalDigits n)) = (n : ℤ) := by
      rw [Number.digitsValue_decimalDigits]
      rfl
    rw [printInt, printNat_eq, parseI128_signed (splitSign_digits hne) hne, hvalue]
    · rfl
    · rw [hvalue]
      exact hlow
    · rw [hvalue]
      exact hhigh
  | negSucc n =>
    have hne := Number.decimalDigits_ne_nil (n + 1)
    have hvalue : signed true (digitsValue (Number.decimalDigits (n + 1))) = Int.negSucc n := by
      rw [Number.digitsValue_decimalDigits]
      rfl
    rw [printInt, printNat_eq, parseI128_signed rfl hne, hvalue]
    · rw [hvalue]
      exact hlow
    · rw [hvalue]
      exact hhigh

theorem wideInteger_bounds {number : Number} {z : ℤ}
    (h : NumericKey.wideInteger number = some z) : -2 ^ 63 ≤ z ∧ z < 2 ^ 64 := by
  rw [NumericKey.wideInteger, Option.or_eq_some_iff] at h
  cases h with
  | inl hsigned =>
    rw [Number.asI64, Option.ite_none_right_eq_some] at hsigned
    obtain ⟨⟨-, hlow, hhigh⟩, heq⟩ := hsigned
    obtain rfl := Option.some.inj heq
    omega
  | inr hunsigned =>
    obtain ⟨n, hn, rfl⟩ := Option.map_eq_some_iff.mp hunsigned.2
    rw [Number.asU64, Option.ite_none_right_eq_some] at hn
    obtain ⟨⟨-, -, hbound⟩, heq⟩ := hn
    obtain rfl := Option.some.inj heq
    rw [Int.ofNat_eq_natCast]
    omega

theorem printInt_injective : Function.Injective printInt := fun z _ h ↦
  (unambiguousAt_printInt z Printer.avoids_nil Printer.avoids_nil (congrArg (· ++ []) h)).1

theorem IdentityPart.component_injective : Function.Injective IdentityPart.component := by
  intro part other h
  cases part with
  | number z =>
    cases other with
    | number z' =>
      have htext : String.ofList (printInt z) = String.ofList (printInt z') := by
        simpa [component] using h
      rw [printInt_injective (String.ofList_injective htext)]
    | string text => simp [component] at h
  | string text =>
    cases other with
    | number z => simp [component] at h
    | string text' => simpa [component] using h

/-- A validated component is that of the part at its cell. -/
theorem scalar_part {cell : Cell} {component : Component} (h : scalar true cell = .ok component) :
    ∃ part, cell.part = some part ∧ component = part.component ∧
      identityPart component = part := by
  rcases cell with _ | text | _ | flag | number | text | items | entries
  · cases h
  · obtain rfl := Except.ok.inj h
    exact ⟨.string text, rfl, rfl, rfl⟩
  · cases h
  · cases h
  · unfold scalar at h
    simp only [↓reduceIte] at h
    cases hinteger : NumericKey.wideInteger number with
    | none =>
      rw [hinteger] at h
      cases h
    | some z =>
      rw [hinteger] at h
      obtain rfl := Except.ok.inj h
      obtain ⟨hlow, hhigh⟩ := wideInteger_bounds hinteger
      have hparse : parseI128 (printInt z) = some z := parseI128_printInt (by omega) (by omega)
      refine ⟨.number z, congrArg (Option.map IdentityPart.number) hinteger, rfl, ?_⟩
      simp [identityPart, hparse]
  · obtain rfl := Except.ok.inj h
    exact ⟨.string text, rfl, rfl, rfl⟩
  · cases h
  · cases h

theorem identityComponents_ok {paths : List String} {record : Record}
    {components : List Component} {budget budget' : WorkBudget}
    (hpaths : ∀ path ∈ paths, Resolvable path)
    (h : (identityComponents (paths.map FieldPath.new) record).Returns budget components budget') :
    ∃ parts, record.identity paths = some parts ∧
      components = parts.map IdentityPart.component ∧ components.map identityPart = parts := by
  induction paths generalizing components budget with
  | nil =>
    obtain ⟨rfl, -⟩ := Script.returns_pure.mp h
    exact ⟨[], rfl, rfl, rfl⟩
  | cons path rest ih =>
    rw [List.forall_mem_cons] at hpaths
    simp only [identityComponents, List.map_cons, Script.collect, Script.returns_bind,
      Script.returns_check, Script.returns_pure] at h
    obtain ⟨component, _, ⟨_, _, -, hscalar, rfl⟩, others, _, hothers, rfl, rfl⟩ := h
    rw [cell_new hpaths.1] at hscalar
    obtain ⟨part, hpart, hcomponent, hback⟩ := scalar_part hscalar
    obtain ⟨parts, hparts, hcomponents, hbacks⟩ := ih hpaths.2 hothers
    refine ⟨part :: parts, ?_, ?_, ?_⟩
    · rw [Record.identity] at hparts ⊢
      simp [List.mapM_cons, hpart, hparts]
    · rw [hcomponent, hcomponents, List.map_cons]
    · rw [List.map_cons, hback, hbacks]

/-! ## Identified records -/

/-- The text that identifies a record among all sources. -/
def Record.identityText (paths : List String) (record : Record) : String :=
  Tables.identityText record (((record.identity paths).getD []).map IdentityPart.component)

def Record.identified (paths : List String) (snapshots : List StoredSnapshot) (record : Record) :
    Identity :=
  ⟨scopeOf snapshots record, (record.identity paths).getD [], record.identityText paths⟩

/-- The entries are those of the records so far, no two of which share scope and identity. -/
structure Identifies (paths : List String) (snapshots : List StoredSnapshot) (rows : List Record)
    (state : Identified) : Prop where
  entries : state.entries = rows.map fun row ↦ (row, row.identified paths snapshots)
  isSome : ∀ row ∈ rows, (row.identity paths).isSome
  seen : ∀ scope text, (scope, text) ∈ state.seen ↔ ∃ row ∈ rows, scope = scopeOf snapshots row ∧
    text = componentsText (((row.identity paths).getD []).map IdentityPart.component)
  distinct : rows.Pairwise fun a b ↦
    scopeOf snapshots a = scopeOf snapshots b → a.identity paths ≠ b.identity paths

section Identify

variable {paths : List String} {snapshots : List StoredSnapshot} {rows done : List Record}
  {state state' : Identified} {budget budget' : WorkBudget}

theorem Identifies.step {row : Record} (hpaths : ∀ path ∈ paths, Resolvable path)
    (h : Identifies paths snapshots done state)
    (hrow : (identify (paths.map FieldPath.new) snapshots state row).Returns budget state'
      budget') : Identifies paths snapshots (done ++ [row]) state' := by
  unfold identify at hrow
  obtain ⟨components, _, hcomponents, hrow⟩ := Script.returns_bind.mp hrow
  dsimp only at hrow
  simp only [Script.returns_bind, Script.returns_check, Script.returns_pure, reject_ok] at hrow
  obtain ⟨_, _, ⟨hunseen, rfl⟩, _, _, -, rfl, -⟩ := hrow
  obtain ⟨parts, hparts, rfl, hback⟩ := identityComponents_ok hpaths hcomponents
  constructor
  · rw [h.entries, List.map_append, List.map_singleton, hback, Record.identified,
      Record.identityText, hparts, Option.getD_some]
  · intro other hother
    cases List.mem_append.mp hother with
    | inl hold => exact h.isSome other hold
    | inr hnew =>
      rw [List.mem_singleton.mp hnew, hparts]
      rfl
  · intro scope text
    rw [List.mem_cons, h.seen, Prod.mk.injEq]
    constructor
    · rintro (⟨rfl, rfl⟩ | ⟨other, hother, heq⟩)
      · exact ⟨row, List.mem_append_right _ (List.mem_singleton_self row), rfl, by rw [hparts]; rfl⟩
      · exact ⟨other, List.mem_append_left _ hother, heq⟩
    · rintro ⟨other, hother, heq⟩
      cases List.mem_append.mp hother with
      | inl hold => exact Or.inr ⟨other, hold, heq⟩
      | inr hnew =>
        rw [List.mem_singleton.mp hnew, hparts] at heq
        exact Or.inl heq
  · rw [List.pairwise_append]
    refine ⟨h.distinct, List.pairwise_singleton _ _, ?_⟩
    intro other hother new hnew hscope hsame
    rw [List.mem_singleton.mp hnew] at hscope hsame
    apply hunseen
    rw [h.seen]
    exact ⟨other, hother, hscope.symm, by rw [hsame, hparts]; rfl⟩

theorem identifies_start : Identifies paths snapshots [] ⟨[], [], 0⟩ := by
  constructor
  · rfl
  · simp
  · simp
  · exact List.Pairwise.nil

theorem Identifies.run (hpaths : ∀ path ∈ paths, Resolvable path)
    (h : Identifies paths snapshots done state)
    (hrows : (rows.foldlM (identify (paths.map FieldPath.new) snapshots) state).Returns budget
      state' budget') : Identifies paths snapshots (done ++ rows) state' := by
  induction rows generalizing done state budget with
  | nil =>
    obtain ⟨rfl, -⟩ := Script.returns_pure.mp hrows
    rw [List.append_nil]
    exact h
  | cons row rest ih =>
    rw [List.foldlM_cons, Script.returns_bind] at hrows
    obtain ⟨middle, _, hrow, hrest⟩ := hrows
    rw [List.append_cons]
    exact ih (h.step hpaths hrow) hrest

end Identify

/-! ## Scopes -/

/-- What was loaded under an id is the snapshot of one row. -/
def FromRows (db : Database) (snapshot : StoredSnapshot) : Prop :=
  (db.snapshots.find? fun row ↦ (row.id : ℤ) = snapshot.id).map SnapshotRow.sourceId =
    some snapshot.sourceId

theorem fromRows_of_load {serde : Serde} {sources : List Source} {db : Database} {ids : List ℤ}
    {loaded : Loading} {budget : WorkBudget}
    (h : (loadSnapshots serde sources db ids).Returns WorkBudget.empty loaded budget) :
    ∀ snapshot ∈ loaded.result, FromRows db snapshot := by
  let kept (state : Loading) : Prop := ∀ snapshot ∈ state.result, FromRows db snapshot
  have hstart : kept ⟨0, OrderedMap.empty, []⟩ := by simp [kept]
  refine Script.Returns.foldlM (fun id _ state state' budget budget' hstate hload ↦ ?_) hstart h
  obtain ⟨row, snapshot, hfind, -, -, -, -, -, rfl⟩ := loadSnapshot_ok hload
  intro other hother
  cases List.mem_append.mp hother with
  | inl hold => exact hstate other hold
  | inr hnew =>
    have hid : (row.id : ℤ) = id := by simpa using List.find?_some hfind
    rw [List.mem_singleton.mp hnew, FromRows, hid, hfind]
    rfl

/-- The snapshots of a read have different ids. -/
theorem tableSnapshots_ids {serde : Serde} {sources : List Source} {db : Database}
    {runtime : Runtime} {pinned : Option (List String)} {requireAll : Bool}
    {snapshots : List StoredSnapshot}
    (h : tableSnapshots serde sources db runtime pinned requireAll = .ok snapshots) :
    (snapshots.map StoredSnapshot.id).Nodup := by
  obtain ⟨ids, loaded, budget, hload, rfl⟩ := tableSnapshots_ok h
  rw [((perm_sortOn sourceKey loaded.result).map _).nodup_iff]
  have hdistinct := (loadSnapshots_loaded hload).distinct
  have hrows := fromRows_of_load hload
  rw [List.Nodup, List.pairwise_map] at hdistinct ⊢
  apply List.Pairwise.imp_of_mem _ hdistinct
  intro a b ha hb hne hsame
  apply hne
  have hfirst := hrows a ha
  have hsecond := hrows b hb
  rw [FromRows, ← hsame] at hsecond
  exact Option.some.inj (hfirst.symm.trans hsecond)

section Scope

variable {snapshots : List StoredSnapshot}

theorem scopeOf_eq (hids : (snapshots.map StoredSnapshot.id).Nodup) {record : Record}
    {scope : ℕ} (hscope : snapshots[scope]? = some record.snapshot) :
    scopeOf snapshots record = scope := by
  have hkeys : ((snapshots.mapIdx fun scope snapshot ↦ (snapshot.id, scope)).map Prod.fst).Nodup := by
    have hsame : (snapshots.mapIdx fun scope snapshot ↦ (snapshot.id, scope)).map Prod.fst =
        snapshots.map StoredSnapshot.id := by
      apply List.ext_getElem
      · simp
      · intro index h h'
        simp
    rw [hsame]
    exact hids
  have hmem : (record.snapshot.id, scope) ∈
      snapshots.mapIdx fun scope snapshot ↦ (snapshot.id, scope) := by
    rw [List.mem_mapIdx]
    obtain ⟨hlt, hget⟩ := List.getElem?_eq_some_iff.mp hscope
    exact ⟨scope, hlt, by rw [hget]⟩
  rw [scopeOf, OrderedMap.get?_ofList_of_mem hkeys hmem, Option.getD_some]

/-- Scopes are in the order of the sources. -/
theorem compare_scopeOf (hids : (snapshots.map StoredSnapshot.id).Nodup)
    (hordered : snapshots.Pairwise fun a b ↦ sourceKey a < sourceKey b) {a b : Record}
    (ha : a.snapshot ∈ snapshots) (hb : b.snapshot ∈ snapshots) :
    Ord.compare (scopeOf snapshots a) (scopeOf snapshots b) =
      Ord.compare (sourceKey a.snapshot) (sourceKey b.snapshot) := by
  obtain ⟨i, hi, hgeti⟩ := List.mem_iff_getElem.mp ha
  obtain ⟨j, hj, hgetj⟩ := List.mem_iff_getElem.mp hb
  rw [scopeOf_eq hids (List.getElem?_eq_some_iff.mpr ⟨hi, hgeti⟩),
    scopeOf_eq hids (List.getElem?_eq_some_iff.mpr ⟨hj, hgetj⟩), ← hgeti, ← hgetj]
  have hmono : StrictMono fun scope : Fin snapshots.length ↦ sourceKey (snapshots.get scope) := by
    intro scope other hless
    exact List.pairwise_iff_get.mp hordered scope other hless
  exact (compareKeys_map hmono ⟨i, hi⟩ ⟨j, hj⟩).symm

theorem scopeOf_inj (hids : (snapshots.map StoredSnapshot.id).Nodup)
    (hordered : snapshots.Pairwise fun a b ↦ sourceKey a < sourceKey b) {a b : Record}
    (ha : a.snapshot ∈ snapshots) (hb : b.snapshot ∈ snapshots) :
    scopeOf snapshots a = scopeOf snapshots b ↔ sourceKey a.snapshot = sourceKey b.snapshot := by
  rw [← compare_eq_iff_eq, compare_scopeOf hids hordered ha hb, compare_eq_iff_eq]

end Scope

/-! ## The listing -/

/-- Identities of one source are ordered by their parts. -/
def Record.identityKey (paths : List String) (record : Record) : List (ℤ ⊕ₗ String) :=
  ((record.identity paths).getD []).map IdentityPart.key

/-- Where a record is among all sources. -/
def Record.identityPlace (paths : List String) (record : Record) :
    (String ×ₗ String) ×ₗ List (ℤ ⊕ₗ String) :=
  toLex (sourceKey record.snapshot, record.identityKey paths)

/-- The records of every source by identity, one from each source in turn. -/
def turnListing (paths : List String) (snapshots : List StoredSnapshot) (rows : List Record) :
    List Record :=
  RoundRobin.listing (snapshots.map fun snapshot ↦
    sortOn (Record.identityKey paths) (rows.filter fun row ↦
      sourceKey row.snapshot = sourceKey snapshot))

/-- All records in the order of their pages. -/
def recordListing (sort : Option TableSort) (paths : List String)
    (snapshots : List StoredSnapshot) (rows : List Record) : List Record :=
  match sort with
  | none => turnListing paths snapshots rows
  | some ⟨path, .asc⟩ =>
    sortOn (fun row ↦ toLex ((row.cell path).sortValue, row.identityPlace paths)) rows
  | some ⟨path, .desc⟩ =>
    sortOn (fun row ↦ toLex (OrderDual.toDual (row.cell path).sortValue, row.identityPlace paths))
      rows

/-- What the loaded snapshots and the records that match them are. -/
structure Scoped (paths : List String) (snapshots : List StoredSnapshot) (rows : List Record) :
    Prop where
  ids : (snapshots.map StoredSnapshot.id).Nodup
  ordered : snapshots.Pairwise fun a b ↦ sourceKey a < sourceKey b
  snapshot : ∀ row ∈ rows, row.snapshot ∈ snapshots
  isSome : ∀ row ∈ rows, (row.identity paths).isSome
  distinct : rows.Pairwise fun a b ↦
    sourceKey a.snapshot = sourceKey b.snapshot → a.identity paths ≠ b.identity paths

section Listing

variable {paths : List String} {snapshots : List StoredSnapshot} {rows : List Record}

theorem Scoped.scope_lt (h : Scoped paths snapshots rows) {row : Record} (hrow : row ∈ rows) :
    scopeOf snapshots row < snapshots.length := by
  obtain ⟨scope, hscope, hget⟩ := List.mem_iff_getElem.mp (h.snapshot row hrow)
  rw [scopeOf_eq h.ids (List.getElem?_eq_some_iff.mpr ⟨hscope, hget⟩)]
  exact hscope

theorem Scoped.identityKey_inj (h : Scoped paths snapshots rows) {a b : Record} (ha : a ∈ rows)
    (hb : b ∈ rows) (hkey : a.identityKey paths = b.identityKey paths) :
    a.identity paths = b.identity paths := by
  obtain ⟨parts, hparts⟩ := Option.isSome_iff_exists.mp (h.isSome a ha)
  obtain ⟨others, hothers⟩ := Option.isSome_iff_exists.mp (h.isSome b hb)
  rw [Record.identityKey, Record.identityKey, hparts, hothers] at hkey
  rw [hparts, hothers]
  exact congrArg some (IdentityPart.key_injective.list_map hkey)

/-- The rows of a scope are those of its source. -/
theorem Scoped.filter_scope (h : Scoped paths snapshots rows) :
    ((List.range snapshots.length).map fun scope ↦
        rows.filter fun row ↦ scopeOf snapshots row = scope) =
      snapshots.map fun snapshot ↦
        rows.filter fun row ↦ sourceKey row.snapshot = sourceKey snapshot := by
  apply List.ext_getElem
  · simp
  · intro scope hscope hscope'
    rw [List.getElem_map, List.getElem_map, List.getElem_range]
    apply List.filter_congr
    intro row hrow
    have hlt : scope < snapshots.length := by simpa using hscope
    have hsnapshot : scopeOf snapshots ⟨snapshots[scope], "", 0, .null⟩ = scope :=
      scopeOf_eq h.ids (List.getElem?_eq_some_iff.mpr ⟨hlt, rfl⟩)
    have hsame := @scopeOf_inj _ h.ids h.ordered row ⟨snapshots[scope], "", 0, .null⟩
      (h.snapshot row hrow) (List.getElem_mem hlt)
    rw [hsnapshot] at hsame
    exact decide_eq_decide.mpr hsame

/-- A page without a sort is a slice of the turns of the sources. -/
theorem Scoped.interleaved (h : Scoped paths snapshots rows) (ops : SliceOps) {offset limit : ℕ}
    (hlimit : 1 ≤ limit) {entries : List (Record × Identity)}
    (hentries : entries = rows.map fun row ↦ (row, row.identified paths snapshots)) :
    ((interleavedIdentityPage ops (entries.map Prod.snd) snapshots.length offset
        limit).filterMap fun index ↦ entries[index.val]?) =
      (((turnListing paths snapshots rows).drop offset).take limit).map fun row ↦
        (row, row.identified paths snapshots) := by
  have hlength : (entries.map Prod.snd).length = entries.length := List.length_map _
  have hat (index : Fin (entries.map Prod.snd).length) :
      (entries.map Prod.snd).get index = (entries.get (index.cast hlength)).2 := by
    simp
  have hall : (List.finRange (entries.map Prod.snd).length).map
      (fun index ↦ entries.get (index.cast hlength)) = entries := by
    apply List.ext_getElem
    · simp
    · intro index h h'
      simp
  have hscopes : ∀ identity ∈ entries.map Prod.snd, identity.scope < snapshots.length := by
    intro identity hidentity
    rw [hentries, List.map_map] at hidentity
    obtain ⟨row, hrow, rfl⟩ := List.mem_map.mp hidentity
    exact h.scope_lt hrow
  have hdistinct : (entries.map Prod.snd).Pairwise fun a b ↦
      a.scope = b.scope → a.parts ≠ b.parts := by
    rw [hentries, List.map_map, List.pairwise_map]
    apply List.Pairwise.imp_of_mem _ h.distinct
    intro a b ha hb hne hscope hparts
    apply hne ((scopeOf_inj h.ids h.ordered (h.snapshot a ha) (h.snapshot b hb)).mp hscope)
    apply h.identityKey_inj ha hb
    exact congrArg (List.map IdentityPart.key) hparts
  -- every bucket holds the records of its source
  have hbuckets : (orderedBuckets (entries.map Prod.snd) snapshots.length).map
      (List.map fun index ↦ entries.get (index.cast hlength)) =
      (snapshots.map fun snapshot ↦ sortOn (Record.identityKey paths) (rows.filter fun row ↦
        sourceKey row.snapshot = sourceKey snapshot)).map
        (List.map fun row ↦ (row, row.identified paths snapshots)) := by
    have hrows : (snapshots.map fun snapshot ↦ sortOn (Record.identityKey paths)
        (rows.filter fun row ↦ sourceKey row.snapshot = sourceKey snapshot)) =
        (List.range snapshots.length).map fun scope ↦ sortOn (Record.identityKey paths)
          (rows.filter fun row ↦ scopeOf snapshots row = scope) := by
      have hscoped := congrArg (List.map (sortOn (Record.identityKey paths))) h.filter_scope
      rw [List.map_map, List.map_map] at hscoped
      exact hscoped.symm
    rw [hrows, orderedBuckets, buckets, List.map_map, List.map_map, List.map_map]
    apply List.map_congr_left
    intro scope _
    have hkey : ∀ entry ∈ entries, entry.2 = entry.1.identified paths snapshots := by
      intro entry hentry
      rw [hentries] at hentry
      obtain ⟨row, -, rfl⟩ := List.mem_map.mp hentry
      rfl
    have hbucket : ((List.finRange (entries.map Prod.snd).length).filter
        fun index ↦ ((entries.map Prod.snd).get index).scope = scope).map
          (fun index ↦ entries.get (index.cast hlength)) =
        (rows.filter fun row ↦ scopeOf snapshots row = scope).map
          fun row ↦ (row, row.identified paths snapshots) := by
      calc
        _ = ((List.finRange (entries.map Prod.snd).length).map
              (fun index ↦ entries.get (index.cast hlength))).filter
                fun entry ↦ entry.2.scope = scope := by
            rw [List.filter_map]
            congr 1
            apply List.filter_congr
            intro index _
            rw [hat]
            rfl
        _ = (rows.filter fun row ↦ scopeOf snapshots row = scope).map
              fun row ↦ (row, row.identified paths snapshots) := by
            rw [hall, hentries, List.filter_map]
            rfl
    rw [Function.comp_apply, Function.comp_apply, Function.comp_apply]
    calc
      _ = sortOn (fun entry : Record × Identity ↦ entry.1.identityKey paths)
            ((rows.filter fun row ↦ scopeOf snapshots row = scope).map
              fun row ↦ (row, row.identified paths snapshots)) := by
          rw [← hbucket]
          apply map_sortOn
          intro index _
          rw [hat, hkey _ (List.get_mem entries _)]
          rfl
      _ = _ := by
          symm
          apply map_sortOn
          exact fun row _ ↦ rfl
  rw [interleavedIdentityPage_eq ops hscopes hdistinct offset limit hlimit]
  have hsome : (fun index : Fin (entries.map Prod.snd).length ↦ entries[index.val]?) =
      some ∘ fun index ↦ entries.get (index.cast hlength) := by
    funext index
    simp
  rw [hsome, List.filterMap_eq_map, List.map_take, List.map_drop, List.map_take, List.map_drop]
  congr 2
  calc
    (identityListing (entries.map Prod.snd) snapshots.length).map
        (fun index ↦ entries.get (index.cast hlength))
      = RoundRobin.listing ((orderedBuckets (entries.map Prod.snd) snapshots.length).map
          (List.map fun index ↦ entries.get (index.cast hlength))) :=
        (RoundRobin.listing_map _ _).symm
    _ = (turnListing paths snapshots rows).map fun row ↦ (row, row.identified paths snapshots) := by
        rw [hbuckets, RoundRobin.listing_map, turnListing]

/-- No two records have the same place. -/
theorem Scoped.nodup_place (h : Scoped paths snapshots rows) {κ : Type} (key : Record → κ) :
    (rows.map fun row ↦ toLex (key row, row.identityPlace paths)).Nodup := by
  rw [List.Nodup, List.pairwise_map]
  apply List.Pairwise.imp_of_mem _ h.distinct
  intro a b ha hb hne heq
  have hplace : a.identityPlace paths = b.identityPlace paths :=
    (Prod.mk.inj (toLex.injective heq)).2
  obtain ⟨hsource, hidentity⟩ := Prod.mk.inj (toLex.injective hplace)
  exact hne hsource (h.identityKey_inj ha hb hidentity)

/-- Identities compare as the places of their records. -/
theorem Scoped.comparesBy_place (h : Scoped paths snapshots rows) {path : String} :
    ComparesBy (fun a b : (Record × Identity) × SortKey ↦
        (Ord.compare a.1.2.scope b.1.2.scope).then (compareParts a.1.2.parts b.1.2.parts))
      (fun entry ↦ entry.1.1.identityPlace paths)
      ((rows.map fun row ↦ (row, row.identified paths snapshots)).map fun entry ↦
        (entry, SortKey.new (entry.1.cell path))) := by
  have hmem {entry : (Record × Identity) × SortKey} (hentry : entry ∈
      (rows.map fun row ↦ (row, row.identified paths snapshots)).map fun entry ↦
        (entry, SortKey.new (entry.1.cell path))) :
      entry.1.1 ∈ rows ∧ entry.1.2 = entry.1.1.identified paths snapshots := by
    obtain ⟨pair, hpair, rfl⟩ := List.mem_map.mp hentry
    obtain ⟨row, hrow, rfl⟩ := List.mem_map.mp hpair
    exact ⟨hrow, rfl⟩
  have hsources : ComparesBy
      (fun a b : (Record × Identity) × SortKey ↦ Ord.compare a.1.2.scope b.1.2.scope)
      (fun entry ↦ sourceKey entry.1.1.snapshot)
      ((rows.map fun row ↦ (row, row.identified paths snapshots)).map fun entry ↦
        (entry, SortKey.new (entry.1.cell path))) := by
    intro a ha b hb
    obtain ⟨hrow, hidentity⟩ := hmem ha
    obtain ⟨hother, hidentity'⟩ := hmem hb
    dsimp only
    rw [hidentity, hidentity']
    exact compare_scopeOf h.ids h.ordered (h.snapshot _ hrow) (h.snapshot _ hother)
  have hidentities : ComparesBy
      (fun a b : (Record × Identity) × SortKey ↦ compareParts a.1.2.parts b.1.2.parts)
      (fun entry ↦ entry.1.1.identityKey paths)
      ((rows.map fun row ↦ (row, row.identified paths snapshots)).map fun entry ↦
        (entry, SortKey.new (entry.1.cell path))) := by
    intro a ha b hb
    dsimp only
    rw [(hmem ha).2, (hmem hb).2]
    exact compareParts_eq _ _
  exact hsources.andThen hidentities

/-- A page with a sort is a slice of the sorted records. -/
theorem Scoped.sorted (h : Scoped paths snapshots rows) (ops : SliceOps) {path : String}
    (direction : TableSortDirection) (offset limit : ℕ)
    (hfits : ∀ row ∈ rows, (row.cell path).Fits) :
    (selectPage ops (recordOrder direction) offset limit
        ((rows.map fun row ↦ (row, row.identified paths snapshots)).map fun entry ↦
          (entry, SortKey.new (entry.1.cell path)))).map Prod.fst =
      (((recordListing (some ⟨path, direction⟩) paths snapshots rows).drop offset).take limit).map
        fun row ↦ (row, row.identified paths snapshots) := by
  have hcells : ∀ entry ∈ rows.map fun row ↦ (row, row.identified paths snapshots),
      (entry.1.cell path).Fits := by
    intro entry hentry
    obtain ⟨row, hrow, rfl⟩ := List.mem_map.mp hentry
    exact hfits row hrow
  have hvalues := comparesBy_sortKey (fun entry : Record × Identity ↦ entry.1.cell path) hcells
  have hnodup {κ : Type} (key : Record → κ) :
      ((rows.map fun row ↦ (row, row.identified paths snapshots)).map fun entry ↦
        toLex (key entry.1, entry.1.identityPlace paths)).Nodup := by
    rw [List.map_map]
    exact h.nodup_place key
  rw [List.map_take, List.map_drop]
  cases direction with
  | asc =>
    have hslice := selectPage_keyed ops _ offset limit (hvalues.andThen h.comparesBy_place)
      (hnodup fun row ↦ (row.cell path).sortValue)
    apply hslice.trans
    rw [recordListing, map_sortOn]
    exact fun row _ ↦ rfl
  | desc =>
    have hslice := selectPage_keyed ops _ offset limit (hvalues.swap.andThen h.comparesBy_place)
      (hnodup fun row ↦ OrderDual.toDual (row.cell path).sortValue)
    apply hslice.trans
    rw [recordListing, map_sortOn]
    exact fun row _ ↦ rfl

/-- A page of the identified records is a slice of their listing. -/
theorem recordPageOrder_ok {runtime : Runtime} {request : SnapshotRecordsRequest}
    (h : Scoped request.identityPaths snapshots rows) (hlimit : 1 ≤ request.limit)
    (hsort : ∀ sort ∈ request.sort, Resolvable sort.path) {identified : Identified}
    {page : List (Record × Identity)} {budget budget' : WorkBudget}
    (hentries : identified.entries =
      rows.map fun row ↦ (row, row.identified request.identityPaths snapshots))
    (hpage : (recordPageOrder runtime request snapshots.length identified).Returns budget page
      budget') :
    page = (((recordListing request.sort request.identityPaths snapshots rows).drop
      request.offset).take request.limit).map fun row ↦
        (row, row.identified request.identityPaths snapshots) := by
  unfold recordPageOrder at hpage
  dsimp only at hpage
  obtain ⟨_, _, -, hpage⟩ := Script.returns_bind.mp hpage
  cases hrequest : request.sort with
  | none =>
    rw [hrequest] at hpage
    obtain ⟨rfl, -⟩ := Script.returns_pure.mp hpage
    exact h.interleaved runtime.slices hlimit hentries
  | some sort =>
    rw [hrequest] at hpage
    obtain ⟨_, _, htexts, hpage⟩ := Script.returns_bind.mp hpage
    obtain ⟨rfl, -⟩ := Script.returns_pure.mp hpage
    have hcell (row : Record) : (FieldPath.new sort.path).cell row = row.cell sort.path :=
      cell_new (hsort sort hrequest) row
    have hfits : ∀ row ∈ rows, (row.cell sort.path).Fits := by
      intro row hrow
      have hentry : (row, row.identified request.identityPaths snapshots) ∈
          identified.entries := by
        rw [hentries]
        exact List.mem_map_of_mem hrow
      obtain ⟨before, after, htext⟩ := Script.returns_of_mem htexts hentry
      rw [hcell] at htext
      exact fits_of_text htext
    simp only [hcell, hentries]
    exact h.sorted runtime.slices sort.direction request.offset request.limit hfits

end Listing

/-! ## Whole listings -/

/-- Which of two sorted records comes first: by the cells the sort names, then by source and
identity. -/
def RecordPrecedes (sort : TableSort) (paths : List String) (a b : Record) : Prop :=
  SortsBefore sort.direction (a.cell sort.path).sortValue (b.cell sort.path).sortValue ∨
    (a.cell sort.path).sortValue = (b.cell sort.path).sortValue ∧
      a.identityPlace paths < b.identityPlace paths

section Whole

variable {paths : List String} {snapshots : List StoredSnapshot} {rows : List Record}

theorem Scoped.perm_turnListing (h : Scoped paths snapshots rows) :
    (turnListing paths snapshots rows).Perm rows := by
  have hnodup : (snapshots.map sourceKey).Nodup := by
    rw [List.Nodup, List.pairwise_map]
    exact h.ordered.imp fun hless ↦ hless.ne
  have hcovers : ∀ row ∈ rows, ∃ source ∈ snapshots.map sourceKey,
      some (sourceKey row.snapshot) = some source := fun row hrow ↦
    ⟨_, List.mem_map_of_mem (h.snapshot row hrow), rfl⟩
  have hgroups := Grouping.flatMap_group_perm hnodup hcovers
  have hsorted : ((snapshots.map fun snapshot ↦ sortOn (Record.identityKey paths)
      (rows.filter fun row ↦ sourceKey row.snapshot = sourceKey snapshot)).flatten).Perm
      ((snapshots.map sourceKey).flatMap
        (Grouping.group (fun row ↦ some (sourceKey row.snapshot)) rows)) := by
    rw [List.flatMap_map, ← List.flatMap_def]
    apply List.Perm.flatMap_left
    intro snapshot _
    apply (perm_sortOn _ _).trans
    simp [Grouping.group]
  exact (RoundRobin.perm_listing _).trans (hsorted.trans hgroups)

theorem Scoped.perm_recordListing (h : Scoped paths snapshots rows) (sort : Option TableSort) :
    (recordListing sort paths snapshots rows).Perm rows := by
  unfold recordListing
  split
  · exact h.perm_turnListing
  · exact perm_sortOn _ rows
  · exact perm_sortOn _ rows

theorem Scoped.pairwise_recordListing (h : Scoped paths snapshots rows) (sort : TableSort) :
    (recordListing (some sort) paths snapshots rows).Pairwise (RecordPrecedes sort paths) := by
  obtain ⟨path, direction⟩ := sort
  cases direction with
  | asc =>
    apply (ordered_sortOn (h.nodup_place _)).imp
    intro a b hless
    exact Prod.Lex.toLex_lt_toLex.mp hless
  | desc =>
    apply (ordered_sortOn (h.nodup_place _)).imp
    intro a b hless
    exact Prod.Lex.toLex_lt_toLex.mp hless

theorem identityText_inj {record other : Record} {components components' : List Component}
    (h : identityText record components = identityText other components') :
    sourceKey record.snapshot = sourceKey other.snapshot ∧ components = components' := by
  have hvalue := print_injective (String.ofList_injective h)
  simp only [Value.array.injEq, List.cons.injEq, Value.string.injEq, and_true] at hvalue
  obtain ⟨hrun, hsource, hcomponents⟩ := hvalue
  constructor
  · rw [sourceKey, sourceKey, hrun, hsource]
  · apply componentsText_injective
    rw [componentsText, componentsText, hcomponents]

/-- No two records have the same identity text. -/
theorem Scoped.nodup_identityText (h : Scoped paths snapshots rows) :
    (rows.map (Record.identityText paths)).Nodup := by
  rw [List.Nodup, List.pairwise_map]
  apply List.Pairwise.imp_of_mem _ h.distinct
  intro a b ha hb hne htext
  obtain ⟨hsource, hcomponents⟩ := identityText_inj htext
  apply hne hsource
  obtain ⟨parts, hparts⟩ := Option.isSome_iff_exists.mp (h.isSome a ha)
  obtain ⟨others, hothers⟩ := Option.isSome_iff_exists.mp (h.isSome b hb)
  rw [hparts, hothers] at hcomponents ⊢
  exact congrArg some (IdentityPart.component_injective.list_map hcomponents)

end Whole

/-! ## Whole reads -/

section Reads

variable {runtime : Runtime} {serde : Serde} {request : SnapshotRecordsRequest}
  {sources : List Source} {db : Database} {response : SnapshotRecordsResponse}
  {snapshots : List StoredSnapshot}

theorem sort_of_validate {request : TableRowsRequest} {maximum : ℕ}
    (h : validateRowsLimit request maximum = .ok ()) :
    1 ≤ request.limit ∧ ∀ sort ∈ request.sort, Resolvable sort.path := by
  simp only [validateRowsLimit, bind_eq_ok, forM_eq_ok, exists_unit, reject_ok] at h
  obtain ⟨-, hlimit, -, -, -, -, hsort, -⟩ := h
  constructor
  · omega
  · intro sort hsome
    exact resolvable_of_validateColumn (hsort sort (Option.mem_toList.mpr hsome))

theorem resolvable_of_validateField {path : String} (h : validateSnapshotField path = .ok ()) :
    Resolvable path := by
  apply resolvable_of_validateColumn
  simp only [validateSnapshotField, bind_eq_ok, exists_unit] at h
  obtain ⟨-, h⟩ := h
  unfold validateColumn
  split_ifs at h ⊢ with hname
  · rfl
  · rw [validatePointer, mapError_eq_ok]
    exact mapError_eq_ok.mp h

theorem paths_of_validate (h : request.validateIdentityPaths = .ok ()) :
    ∀ path ∈ request.identityPaths, Resolvable path := by
  simp only [SnapshotRecordsRequest.validateIdentityPaths, viewPaths, bind_eq_ok, forM_eq_ok,
    exists_unit] at h
  intro path hpath
  exact resolvable_of_validateField (h.2 path hpath)

theorem mem_matching {table : TableRowsRequest} {record : Record}
    (h : record ∈ matching runtime table snapshots) : record.snapshot ∈ snapshots := by
  obtain ⟨snapshot, hsnapshot, hrecord⟩ := List.mem_flatMap.mp (List.mem_filter.mp h).1
  rw [snapshot_of_mem hrecord]
  exact hsnapshot

/-- What a read of one page does. -/
theorem snapshotRecordsPage_ok
    (h : snapshotRecordsPage runtime serde request sources db = .ok response) :
    ∃ snapshots scan budget,
      tableSnapshots serde sources db runtime request.snapshotIds true = .ok snapshots ∧
      (records runtime request.tableRequest .records snapshots sources).Returns WorkBudget.empty scan
        budget ∧
      scan.rows = matching runtime request.tableRequest snapshots ∧
      Scoped request.identityPaths snapshots scan.rows ∧
      response = ⟨⟨scan.columns.map column,
          (((recordListing request.sort request.identityPaths snapshots scan.rows).drop
            request.offset).take request.limit).map (Record.shownRow scan.columns),
          scan.rows.length, request.offset, request.limit,
          snapshots.flatMap (snapshotEvidence request.path sources)⟩,
        (((recordListing request.sort request.identityPaths snapshots scan.rows).drop
          request.offset).take request.limit).map (Record.identityText request.identityPaths)⟩ := by
  simp only [snapshotRecordsPage, bind_eq_ok, exists_unit, mapError_eq_ok] at h
  obtain ⟨hpaths, hvalid, snapshots, hsnapshots, hread⟩ := h
  have hread : (readRecords runtime request sources snapshots).Returns WorkBudget.empty response _ :=
    Prod.ext hread rfl
  unfold readRecords at hread
  obtain ⟨scan, middle, hscan, hread⟩ := Script.returns_bind.mp hread
  simp only [Script.returns_bind, Script.returns_check, Script.returns_pure] at hread
  obtain ⟨_, _, ⟨-, rfl⟩, identified, _, hidentified, page, _, hpage, table, _, ⟨hrender, rfl⟩, _,
    _, ⟨-, rfl⟩, rfl, -⟩ := hread
  have hresolves := resolves_of_validate hvalid
  obtain ⟨hlimit, hsort⟩ := sort_of_validate hvalid
  obtain ⟨hrows, hevidence, hcolumns⟩ := records_ok hresolves.filters hscan
  have hids := tableSnapshots_ids hsnapshots
  have hordered := tableSnapshots_ordered hsnapshots
  have hsource : ∀ row ∈ scan.rows, row.snapshot ∈ snapshots := by
    intro row hrow
    rw [hrows] at hrow
    exact mem_matching hrow
  have hdone := identifies_start.run (paths_of_validate hpaths) hidentified
  rw [List.nil_append] at hdone
  have hscoped : Scoped request.identityPaths snapshots scan.rows := by
    refine ⟨hids, hordered, hsource, hdone.isSome, ?_⟩
    apply List.Pairwise.imp_of_mem _ hdone.distinct
    intro a b ha hb hne hsame
    exact hne ((scopeOf_inj hids hordered (hsource a ha) (hsource b hb)).mpr hsame)
  have hslice := recordPageOrder_ok hscoped hlimit hsort hdone.entries hpage
  refine ⟨snapshots, scan, middle, hsnapshots, hscan, hrows, hscoped, ?_⟩
  rw [render_ok (hcolumns hresolves.columns) hrender, hslice, hevidence]
  simp only [List.map_map]
  rfl

end Reads

/-- The request of another page of the same records. -/
def recordsRequest (request : SnapshotRecordsRequest) (offset limit : ℕ) : SnapshotRecordsRequest :=
  { request with offset := offset, limit := limit }

/-- What the pages of records list: every record of a snapshot of each source that matches, once,
under an identity of its own. -/
structure RecordsListed (runtime : Runtime) (request : SnapshotRecordsRequest)
    (sources : List Source) (snapshots : List StoredSnapshot) (listing : List Record) : Prop where
  loaded : (snapshots.map StoredSnapshot.sourceId).Perm (sources.map Source.id)
  perm : listing.Perm (matching runtime request.tableRequest snapshots)
  isSome : ∀ record ∈ listing, (record.identity request.identityPaths).isSome
  distinct : (listing.map (Record.identityText request.identityPaths)).Nodup
  turns : request.sort = none → listing = turnListing request.identityPaths snapshots
    (matching runtime request.tableRequest snapshots)
  ordered : ∀ sort ∈ request.sort, listing.Pairwise (RecordPrecedes sort request.identityPaths)

/-- The pages of records are slices of one listing, and together they are the whole listing. -/
theorem record_pages_exact (runtime : Runtime) (serde : Serde) (request : SnapshotRecordsRequest)
    (sources : List Source) (db : Database) (response : SnapshotRecordsResponse)
    (h : snapshotRecordsPage runtime serde request sources db = .ok response) :
    ∃ snapshots columns listing,
      tableSnapshots serde sources db runtime request.snapshotIds true = .ok snapshots ∧
      RecordsListed runtime request sources snapshots listing ∧
      (∀ requested ∈ request.columns, columns = requested) ∧
      (∀ offset limit page,
        snapshotRecordsPage runtime serde (recordsRequest request offset limit) sources db =
          .ok page →
        page = ⟨⟨columns.map column,
            ((listing.drop offset).take limit).map (Record.shownRow columns), listing.length, offset,
            limit, snapshots.flatMap (snapshotEvidence request.path sources)⟩,
          ((listing.drop offset).take limit).map (Record.identityText request.identityPaths)⟩) ∧
      ∀ (limit count : ℕ) (pages : ℕ → SnapshotRecordsResponse),
        (∀ n < count, snapshotRecordsPage runtime serde (recordsRequest request (n * limit) limit)
          sources db = .ok (pages n)) →
        response.table.total ≤ count * limit →
        ((List.range count).flatMap fun n ↦ (pages n).identities) =
          listing.map (Record.identityText request.identityPaths) := by
  obtain ⟨snapshots, scan, budget, hsnapshots, hscan, hrows, hscoped, hresponse⟩ :=
    snapshotRecordsPage_ok h
  generalize hlisting :
    recordListing request.sort request.identityPaths snapshots scan.rows = listing at hresponse
  have hperm : listing.Perm scan.rows := hlisting ▸ hscoped.perm_recordListing request.sort
  have hpage (offset limit : ℕ) (page : SnapshotRecordsResponse)
      (hread : snapshotRecordsPage runtime serde (recordsRequest request offset limit) sources db =
        .ok page) :
      page = ⟨⟨scan.columns.map column,
          ((listing.drop offset).take limit).map (Record.shownRow scan.columns), listing.length,
          offset, limit, snapshots.flatMap (snapshotEvidence request.path sources)⟩,
        ((listing.drop offset).take limit).map (Record.identityText request.identityPaths)⟩ := by
    obtain ⟨snapshots', scan', budget', hsnapshots', hscan', -, -, rfl⟩ :=
      snapshotRecordsPage_ok hread
    -- the page is not read by the scan
    obtain rfl := Except.ok.inj (hsnapshots'.symm.trans hsnapshots)
    obtain ⟨rfl, -⟩ := Script.Returns.unique hscan' hscan
    rw [hperm.length_eq, ← hlisting]
    rfl
  refine ⟨snapshots, scan.columns, listing, hsnapshots, ?_,
    columns_of_records (by decide) hscan, hpage, ?_⟩
  · constructor
    · exact tableSnapshots_complete hsnapshots
    · exact hrows ▸ hperm
    · exact fun record hrecord ↦ hscoped.isSome record (hperm.subset hrecord)
    · exact (hperm.map _).nodup_iff.mpr hscoped.nodup_identityText
    · intro hsort
      rw [← hlisting, hsort, recordListing, hrows]
    · intro sort hsort
      have hsome : request.sort = some sort := hsort
      rw [← hlisting, hsome]
      exact hscoped.pairwise_recordListing sort
  · intro limit count pages hpages hcount
    calc
      ((List.range count).flatMap fun n ↦ (pages n).identities)
        = (List.range count).flatMap fun n ↦ ((listing.drop (n * limit)).take limit).map
            (Record.identityText request.identityPaths) := by
          apply List.flatMap_congr
          intro n hn
          rw [hpage _ _ _ (hpages n (List.mem_range.mp hn))]
      _ = ((List.range count).flatMap fun n ↦ (listing.drop (n * limit)).take limit).map
            (Record.identityText request.identityPaths) := by
          rw [List.map_flatMap]
      _ = (listing.take (count * limit)).map (Record.identityText request.identityPaths) := by
          rw [flatMap_slices]
      _ = listing.map (Record.identityText request.identityPaths) := by
          rw [List.take_of_length_le]
          rw [hperm.length_eq]
          rw [hresponse] at hcount
          exact hcount

/-- Two sources in turns, two records a page. -/
def sampleRecordsRequest : SnapshotRecordsRequest :=
  ⟨["run-1"], [], "/rows", none, none, none, [], none, 0, 2, ["/loss"]⟩

theorem record_pages_exact_sample :
    ∃ store first second, Store.init.run (.inverse sampleStates) sampleListed = some store ∧
      snapshotRecordsPage sampleRuntime (.inverse sampleStates) sampleRecordsRequest sampleSources
        store.db = .ok first ∧
      snapshotRecordsPage sampleRuntime (.inverse sampleStates)
        (recordsRequest sampleRecordsRequest 2 2) sampleSources store.db = .ok second ∧
      (first.identities ++ second.identities).Nodup ∧
      ∃ snapshots listing,
        RecordsListed sampleRuntime sampleRecordsRequest sampleSources snapshots listing ∧
        first.identities ++ second.identities =
          listing.map (Record.identityText sampleRecordsRequest.identityPaths) := by
  have hrun : ((Store.init.run (.inverse sampleStates) sampleListed).bind fun store ↦
      (snapshotRecordsPage sampleRuntime (.inverse sampleStates) sampleRecordsRequest sampleSources
        store.db).toOption.bind fun first ↦
        (snapshotRecordsPage sampleRuntime (.inverse sampleStates)
          (recordsRequest sampleRecordsRequest 2 2) sampleSources store.db).toOption.map fun second ↦
          (first.table.total, first.identities ++ second.identities)) =
      some (3, ["[\"run-1\",\"trainer\",[[\"number\",\"1\"]]]",
        "[\"run-1\",\"worker\",[[\"number\",\"2\"]]]",
        "[\"run-1\",\"trainer\",[[\"number\",\"3\"]]]"]) := by decide +kernel
  obtain ⟨store, hstore, hrun⟩ := Option.bind_eq_some_iff.mp hrun
  obtain ⟨first, hfirst, hrun⟩ := Option.bind_eq_some_iff.mp hrun
  obtain ⟨second, hsecond, hrun⟩ := Option.map_eq_some_iff.mp hrun
  rw [toOption_eq_some] at hfirst hsecond
  obtain ⟨snapshots, columns, listing, -, hlisted, -, -, hpages⟩ :=
    record_pages_exact _ _ _ _ _ first hfirst
  have hall := hpages 2 2 (fun n ↦ if n = 0 then first else second) ?_ ?_
  · have hjoined : first.identities ++ second.identities =
        listing.map (Record.identityText sampleRecordsRequest.identityPaths) := by
      simpa [List.range_succ] using hall
    exact ⟨store, first, second, hstore, hfirst, hsecond, hjoined ▸ hlisted.distinct, snapshots,
      listing, hlisted, hjoined⟩
  · intro n hn
    obtain rfl | rfl : n = 0 ∨ n = 1 := by omega
    · exact hfirst
    · exact hsecond
  · rw [(Prod.mk.inj hrun).1]
    decide

end Rvx.Tables
