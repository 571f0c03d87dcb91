import Rvx.Engine.PageRows
import Rvx.Tables.Aggregates
import Rvx.Tables.RecordPages

/-!
# Pinned reads

A read may pin the snapshots it is about by their ids.  Snapshots are never changed or forgotten, so
a pinned read that found its snapshots has the same result ever after.  A reader that pins the
snapshots a first read told it about goes on reading the state of that first read, whatever is
ingested in the meantime: later pages, and the counts beside a page, are of one data set.
-/

namespace Rvx.Tables

open Core Engine Check StableSort

/-! ## Reads of a growing store -/

/-- No snapshot has the id. -/
def Absent (db : Database) (id : ℤ) : Prop := ∀ row ∈ db.snapshots, (row.id : ℤ) ≠ id

def unknownSnapshot (id : ℤ) : EngineError :=
  .invalidInput ("unknown snapshot ID " ++ String.ofList (printInt id))

section Kept

variable {α β : Type} {db db' : Database}

/-- The later store answers as the earlier one did, unless that one missed a snapshot. -/
def Kept (read : Database → Except EngineError α) (db db' : Database) : Prop :=
  read db' = read db ∨ ∃ id, Absent db id ∧ read db = .error (unknownSnapshot id)

/-- A check before the read. -/
theorem Kept.after {read : β → Database → Except EngineError α} (check : Except EngineError β)
    (h : ∀ value, Kept (read value) db db') :
    Kept (fun db ↦ check >>= fun value ↦ read value db) db db' := by
  cases check with
  | error reason => exact Or.inl rfl
  | ok value => exact h value

/-- Work on what was read. -/
theorem Kept.bind {read : Database → Except EngineError α} (h : Kept read db db')
    (next : α → Except EngineError β) : Kept (fun db ↦ read db >>= next) db db' := by
  cases h with
  | inl hsame =>
    apply Or.inl
    dsimp only
    rw [hsame]
  | inr hmissed =>
    obtain ⟨id, habsent, hread⟩ := hmissed
    refine Or.inr ⟨id, habsent, ?_⟩
    dsimp only
    rw [hread]
    rfl

end Kept

/-! ## Loading -/

section Loading

variable {serde : Serde} {sources : List Source} {db db' : Database}

theorem find?_grows (h : Grows db db') {id : ℤ} {row : SnapshotRow}
    (hfind : db.snapshots.find? (fun row ↦ (row.id : ℤ) = id) = some row) :
    db'.snapshots.find? (fun row ↦ (row.id : ℤ) = id) = some row := by
  obtain ⟨rest, hrest⟩ := h.snapshots
  rw [← hrest, List.find?_append, hfind, Option.some_or]

/-- What was found is loaded from the later store as it was from the earlier one. -/
theorem loadSnapshots_kept (h : Grows db db') (ids : List ℤ) (state : Loading)
    (budget : WorkBudget) :
    ids.foldlM (loadSnapshot serde sources db') state budget =
        ids.foldlM (loadSnapshot serde sources db) state budget ∨
      ∃ id, Absent db id ∧
        (ids.foldlM (loadSnapshot serde sources db) state budget).1 =
          .error (unknownSnapshot id) := by
  induction ids generalizing state budget with
  | nil => exact Or.inl rfl
  | cons id rest ih =>
    rw [List.foldlM_cons, List.foldlM_cons]
    cases hfind : db.snapshots.find? fun row ↦ (row.id : ℤ) = id with
    | none =>
      have hmissed : loadSnapshot serde sources db state id budget =
          (.error (unknownSnapshot id), budget) := by
        unfold loadSnapshot
        rw [hfind]
        rfl
      have habsent : Absent db id := by
        intro row hrow
        simpa using List.find?_eq_none.mp hfind row hrow
      exact Or.inr ⟨id, habsent, by rw [Script.bind_error hmissed]⟩
    | some row =>
      have hsame : loadSnapshot serde sources db' state id =
          loadSnapshot serde sources db state id := by
        unfold loadSnapshot
        rw [hfind, find?_grows h hfind]
      rw [← hsame]
      rcases hload : loadSnapshot serde sources db' state id budget with ⟨result, budget'⟩
      cases result with
      | error reason =>
        rw [Script.bind_error hload, Script.bind_error hload]
        exact Or.inl rfl
      | ok state' =>
        rw [Script.bind_ok hload, Script.bind_ok hload]
        exact ih state' budget'

end Loading

/-! ## Readers -/

/-- `snapshot_records` of the engine. -/
def Registrations.snapshotRecords (runtime : Runtime) (serde : Serde)
    (registrations : Registrations) (request : SnapshotRecordsRequest) (db : Database) :
    Except EngineError SnapshotRecordsResponse :=
  registrations.readTable runtime request.runIds request.sourceIds fun sources ↦
    snapshotRecordsPage runtime serde request sources db

/-- `snapshot_aggregate` of the engine. -/
def Registrations.snapshotAggregate (runtime : Runtime) (hash : HashOrder) (serde : Serde)
    (registrations : Registrations) (request : SnapshotAggregateRequest) (db : Database) :
    Except EngineError SnapshotAggregateResponse :=
  registrations.readTable runtime request.runIds request.sourceIds fun sources ↦
    Tables.snapshotAggregate runtime request hash serde sources db

section Readers

variable {runtime : Runtime} {serde : Serde} {registrations : Registrations} {db db' : Database}
  {pinned : List String}

end Readers

/-! ## Pinning what was read -/

/-- A snapshot is that of a row. -/
def IsRow (row : SnapshotRow) (snapshot : StoredSnapshot) : Prop :=
  row.id = snapshot.id ∧ row.runId = snapshot.runId ∧ row.sourceId = snapshot.sourceId

section Pinning

variable {serde : Serde} {sources : List Source} {db db' : Database} {runtime : Runtime}
  {ids : List ℤ} {state loaded : Loading} {budget budget' : WorkBudget}

/-- The snapshots that are loaded are those of the ids, one by one. -/
theorem loadSnapshots_rows
    (h : (ids.foldlM (loadSnapshot serde sources db) state).Returns budget loaded budget') :
    ∃ snapshots, loaded.result = state.result ++ snapshots ∧
      List.Forall₂ (fun id snapshot ↦ ∃ row ∈ db.snapshots, (row.id : ℤ) = id ∧ IsRow row snapshot)
        ids snapshots := by
  induction ids generalizing state budget with
  | nil =>
    obtain ⟨rfl, -⟩ := Script.returns_pure.mp h
    exact ⟨[], (List.append_nil _).symm, List.Forall₂.nil⟩
  | cons id rest ih =>
    rw [List.foldlM_cons, Script.returns_bind] at h
    obtain ⟨middle, _, hload, hrest⟩ := h
    obtain ⟨row, snapshot, hfind, -, -, -, -, -, rfl⟩ := loadSnapshot_ok hload
    obtain ⟨others, hothers, hall⟩ := ih hrest
    have hid : (row.id : ℤ) = id := by simpa using List.find?_some hfind
    refine ⟨⟨row.id, row.runId, row.sourceId, row.ingestedAtNs, snapshot⟩ :: others, ?_,
      List.Forall₂.cons ⟨row, List.mem_of_find?_eq_some hfind, hid, rfl, rfl, rfl⟩ hall⟩
    rw [hothers, List.append_assoc]
    rfl

/-- The ids of the latest snapshots are those of the heads, source by source. -/
theorem headIds_heads (h : headIds runtime db true sources = .ok ids) :
    List.Forall₂ (fun source id ↦ ∃ heads head, db.heads = some heads ∧
      Table.lookup Database.headKey (source.runId, source.id) heads = some head ∧
        (head.snapshotId : ℤ) = id) sources ids := by
  induction sources generalizing ids with
  | nil =>
    obtain rfl := Except.ok.inj h
    exact List.Forall₂.nil
  | cons source rest ih =>
    rw [headIds] at h
    obtain ⟨heads, hdb⟩ : ∃ heads, db.heads = some heads := by
      cases hdb : db.heads with
      | none =>
        rw [hdb] at h
        cases h
      | some heads => exact ⟨heads, rfl⟩
    rw [hdb] at h
    simp only [pure_bind] at h
    cases hlookup : Table.lookup Database.headKey (source.runId, source.id) heads with
    | none =>
      rw [hlookup] at h
      obtain ⟨_, hreject, -⟩ := bind_eq_ok.mp h
      rw [reject_ok] at hreject
      exact absurd trivial hreject
    | some head =>
      rw [hlookup] at h
      simp only [bind_eq_ok, pure_eq_ok] at h
      obtain ⟨others, hothers, rfl⟩ := h
      exact List.Forall₂.cons ⟨heads, head, hdb, hlookup, rfl⟩ (ih hothers)

/-- Rows have different ids. -/
theorem eq_of_id (h : RowsValid db) {row other : SnapshotRow} (hrow : row ∈ db.snapshots)
    (hother : other ∈ db.snapshots) (hid : row.id = other.id) : row = other := by
  have hnodup : (db.snapshots.map SnapshotRow.id).Nodup := h.ids_ascending.imp fun hless ↦ hless.ne
  exact List.inj_on_of_nodup_map hnodup hrow hother hid

/-- The latest snapshots of the sources, in their order. -/
theorem latest_rows (hconsistent : RowsValid db) (hlistable : Listable db)
    (hids : headIds runtime db true sources = .ok ids)
    (h : (loadSnapshots serde sources db ids).Returns WorkBudget.empty loaded budget) :
    loaded.result.map sourceKey = sources.map Source.registrationKey ∧
      loaded.result.map (fun snapshot ↦ (snapshot.id : ℤ)) = ids ∧
      ∀ snapshot ∈ loaded.result, ∃ row ∈ db.snapshots, IsRow row snapshot := by
  obtain ⟨snapshots, hresult, hrows⟩ := loadSnapshots_rows h
  rw [List.nil_append] at hresult
  have hheads := headIds_heads hids
  rw [hresult]
  clear h hids hresult
  induction hheads generalizing snapshots with
  | nil =>
    cases hrows
    exact ⟨rfl, rfl, fun _ hsnapshot ↦ nomatch hsnapshot⟩
  | @cons source id rest others hhead _ ih =>
    cases hrows with
    | @cons _ snapshot _ more hrow hmore =>
      obtain ⟨heads, head, hsome, hlookup, hid⟩ := hhead
      obtain ⟨row, hmem, hrowId, hrowSame⟩ := hrow
      obtain ⟨hkeys, hsnapshotIds, hall⟩ := ih more hmore
      obtain ⟨hin, hkey⟩ := Table.lookup_some hlookup
      obtain ⟨other, hother, hotherId, hrun, hsource⟩ := (hlistable.heads heads hsome).2 head hin
      have hsameRow : other = row := by
        apply eq_of_id hconsistent hother hmem
        omega
      obtain ⟨hheadRun, hheadSource⟩ := Prod.mk.inj hkey
      have hkeyOf : sourceKey snapshot = source.registrationKey := by
        rw [sourceKey, Source.registrationKey, ← hrowSame.2.1, ← hrowSame.2.2, ← hsameRow, hrun,
          hsource, hheadRun, hheadSource]
      refine ⟨?_, ?_, ?_⟩
      · rw [List.map_cons, List.map_cons, hkeyOf, hkeys]
      · rw [List.map_cons, ← hrowSame.1, hrowId, hsnapshotIds]
      · rw [List.forall_mem_cons]
        exact ⟨⟨row, hmem, hrowSame⟩, hall⟩

/-- The text of an id, as a response gives it. -/
def idText (snapshot : StoredSnapshot) : String := String.ofList (printNat snapshot.id)

theorem parsePinned_idText {snapshot : StoredSnapshot} (hpos : 0 < snapshot.id)
    (hle : snapshot.id ≤ I64_MAX) : parsePinned (idText snapshot) = .ok (snapshot.id : ℤ) := by
  have hlt : snapshot.id < 2 ^ 63 := by
    unfold I64_MAX at hle
    omega
  have hcast : (0 : ℤ) < snapshot.id := by exact_mod_cast hpos
  unfold parsePinned idText
  rw [String.toList_ofList, parseI64_printNat hlt]
  simp [Option.filter, hpos, printInt]

/-- A text of digits is an identifier. -/
theorem checkIds_idText {snapshots : List StoredSnapshot} {maximum : ℕ}
    (hlength : snapshots.length ≤ maximum) (hle : ∀ snapshot ∈ snapshots, snapshot.id ≤ I64_MAX) :
    checkIds (snapshots.map idText) maximum = .ok () := by
  rw [checkIds, reject_ok]
  rintro (hlong | hbad)
  · rw [List.length_map] at hlong
    omega
  · obtain ⟨text, htext, hbad⟩ := List.any_eq_true.mp hbad
    obtain ⟨snapshot, hsnapshot, rfl⟩ := List.mem_map.mp htext
    have hsize := utf8Len_printNat_le (hle snapshot hsnapshot)
    have hbytes : (idText snapshot).utf8ByteSize ≤ 19 := by
      rw [← String.utf8Len_toList, idText, String.toList_ofList]
      exact hsize
    rw [Bool.or_eq_true, decide_eq_true_eq] at hbad
    cases hbad with
    | inl hblank =>
      rw [isBlank, idText, String.toList_ofList, printNat_eq, List.all_map] at hblank
      obtain ⟨digit, others, hdigits⟩ :=
        List.exists_cons_of_ne_nil (Number.decimalDigits_ne_nil snapshot.id)
      rw [hdigits, List.all_cons, Bool.and_eq_true] at hblank
      have hdigit : ∀ digit : Fin 10, isWhitespace (digitChar digit) = false := by decide
      rw [Function.comp_apply, hdigit] at hblank
      exact absurd hblank.1 Bool.false_ne_true
    | inr hlarge => omega

theorem nodup_idText {snapshots : List StoredSnapshot}
    (h : (snapshots.map StoredSnapshot.id).Nodup) : (snapshots.map idText).Nodup := by
  have hinjective : Function.Injective fun id : ℕ ↦ String.ofList (printNat id) := by
    intro id other heq
    have hprint : printInt id = printInt other := String.ofList_injective heq
    exact_mod_cast printInt_injective hprint
  have hmapped := h.map hinjective
  rwa [List.map_map] at hmapped

/-- The ids a response gives are read back. -/
theorem pinnedIds_idText {snapshots : List StoredSnapshot} (hne : snapshots ≠ [])
    (hlength : snapshots.length ≤ MAX_SNAPSHOT_SOURCE_IDS)
    (hnodup : (snapshots.map StoredSnapshot.id).Nodup)
    (hpos : ∀ snapshot ∈ snapshots, 0 < snapshot.id)
    (hle : ∀ snapshot ∈ snapshots, snapshot.id ≤ I64_MAX) :
    pinnedIds (snapshots.map idText) = .ok (snapshots.map fun snapshot ↦ (snapshot.id : ℤ)) := by
  have hunique := nodup_idText hnodup
  have hparsed : (snapshots.map idText).mapM parsePinned =
      .ok (snapshots.map fun snapshot ↦ (snapshot.id : ℤ)) := by
    clear hne hlength hnodup hunique
    induction snapshots with
    | nil => rfl
    | cons snapshot rest ih =>
      rw [List.forall_mem_cons] at hpos hle
      rw [List.map_cons, List.mapM_cons, parsePinned_idText hpos.1 hle.1, ih hpos.2 hle.2]
      rfl
  rw [pinnedIds, uniqueIds, checkIds_idText hlength hle, hparsed]
  simp [reject, hunique, hne]

/-- What a response says of the loaded snapshots names each of them. -/
theorem evidence_ids {path : String} {snapshots : List StoredSnapshot}
    (h : ∀ snapshot ∈ snapshots, ∃ source ∈ sources, source.id = snapshot.sourceId) :
    (snapshots.flatMap (snapshotEvidence path sources)).map TableSource.snapshotId =
      snapshots.map idText := by
  induction snapshots with
  | nil => rfl
  | cons snapshot rest ih =>
    rw [List.forall_mem_cons] at h
    obtain ⟨source, hsource, heq⟩ := h.1
    have hfound : (sources.find? fun source ↦ source.id = snapshot.sourceId).isSome := by
      rw [List.find?_isSome]
      exact ⟨source, hsource, decide_eq_true heq⟩
    obtain ⟨found, hfind⟩ := Option.isSome_iff_exists.mp hfound
    rw [List.flatMap_cons, List.map_append, ih h.2, snapshotEvidence, hfind]
    rfl

/-- Pinning the latest snapshots loads them from every later store. -/
theorem tableSnapshots_past (hconsistent : RowsValid db) (hlistable : Listable db)
    (hrange : ∀ row ∈ db.snapshots, row.InRange) (hgrows : Grows db db')
    (hsorted : (sources.map Source.registrationKey).Pairwise (· < ·))
    (hcount : sources.length ≤ MAX_SNAPSHOT_SOURCE_IDS) {snapshots : List StoredSnapshot}
    (h : tableSnapshots serde sources db runtime none true = .ok snapshots) :
    tableSnapshots serde sources db' runtime (some (snapshots.map idText)) true = .ok snapshots := by
  have hdistinct := tableSnapshots_ids h
  have hcomplete := (tableSnapshots_complete h).length_eq
  rw [List.length_map, List.length_map] at hcomplete
  have hlatest := h
  unfold tableSnapshots at hlatest
  obtain ⟨ids, hids, hlatest⟩ := bind_eq_ok.mp hlatest
  obtain ⟨loaded, hload, hlatest⟩ := bind_eq_ok.mp hlatest
  obtain ⟨_, hall, hresult⟩ := bind_eq_ok.mp hlatest
  obtain ⟨hkeys, hloadedIds, hrows⟩ := latest_rows hconsistent hlistable hids (Prod.ext hload rfl)
  -- the snapshots were loaded in their order
  have hordered : loaded.result.Pairwise fun a b ↦ sourceKey a < sourceKey b := by
    rw [← hkeys, List.pairwise_map] at hsorted
    exact hsorted
  have hsame : sortOn sourceKey loaded.result = loaded.result := by
    have hnodup : (loaded.result.map sourceKey).Nodup := by
      rw [List.Nodup, List.pairwise_map]
      exact hordered.imp fun hless ↦ hless.ne
    exact eq_of_ordered (ordered_sortOn hnodup) hordered fun _ ↦ mem_sortOn
  have hsnapshots : snapshots = loaded.result := by
    rw [← hsame]
    exact (pure_eq_ok.mp hresult).symm
  have hne : loaded.result ≠ [] := by
    rw [reject_ok] at hall
    intro hempty
    exact hall ⟨rfl, Or.inl hempty⟩
  have hpositive : ∀ snapshot ∈ loaded.result, 0 < snapshot.id := by
    intro snapshot hsnapshot
    obtain ⟨row, hrow, hid, -⟩ := hrows snapshot hsnapshot
    exact hid ▸ hconsistent.ids_pos row hrow
  have hbounded : ∀ snapshot ∈ loaded.result, snapshot.id ≤ I64_MAX := by
    intro snapshot hsnapshot
    obtain ⟨row, hrow, hid, -⟩ := hrows snapshot hsnapshot
    exact hid ▸ (hrange row hrow).id
  have hpinned : pinnedIds (snapshots.map idText) = .ok ids := by
    rw [hsnapshots] at hcomplete hdistinct ⊢
    rw [pinnedIds_idText hne (hcomplete ▸ hcount) hdistinct hpositive hbounded, hloadedIds]
  have hlater : (loadSnapshots serde sources db' ids WorkBudget.empty).1 = .ok loaded := by
    cases loadSnapshots_kept hgrows ids ⟨0, OrderedMap.empty, []⟩ WorkBudget.empty with
    | inl hkept => exact (congrArg Prod.fst hkept).trans hload
    | inr hmissed =>
      obtain ⟨id, -, hread⟩ := hmissed
      cases hread.symm.trans hload
  unfold tableSnapshots
  apply bind_eq_ok.mpr
  refine ⟨ids, hpinned, ?_⟩
  apply bind_eq_ok.mpr
  exact ⟨loaded, hlater, hlatest⟩

end Pinning

/-! ## Selected sources -/

theorem tableSources_ok {runtime : Runtime} {registrations : Registrations}
    {runs ids : List String} {sources : List Source}
    (h : registrations.tableSources runtime runs ids = .ok sources) :
    (sources.map Source.registrationKey).Pairwise (· < ·) ∧
      sources.length ≤ MAX_SNAPSHOT_SOURCE_IDS := by
  simp only [Registrations.tableSources, bind_eq_ok, pure_eq_ok, reject_ok] at h
  obtain ⟨_, -, _, hcount, _, -, rfl⟩ := h
  constructor
  · have hnodup : ((registrations.sources.rows.filter fun source ↦
        source.runId ∈ runs ∧ (ids = [] ∨ source.id ∈ ids)).map Source.registrationKey).Nodup := by
      have hunique := registrations.sources.unique
      rw [List.Nodup, List.pairwise_map] at hunique ⊢
      apply (hunique.filter _).imp
      intro a b hne heq
      exact hne (Prod.mk.inj (toLex.injective heq)).2
    rw [List.pairwise_map]
    exact (ordered_sortOn hnodup).take
  · exact not_lt.mp hcount

/-! ## Evidence -/

section Evidence

variable {runtime : Runtime} {serde : Serde} {registrations : Registrations} {db : Database}
  {runs ids : List String} {evidence : List TableSource}

/-- What a first read of the latest snapshots of a selection says about them. -/
def Told (runtime : Runtime) (serde : Serde) (registrations : Registrations)
    (runs ids : List String) (db : Database) (evidence : List TableSource) : Prop :=
  ∃ sources snapshots path, validateSelection runs ids = .ok () ∧
    registrations.tableSources runtime runs ids = .ok sources ∧
    tableSnapshots serde sources db runtime none true = .ok snapshots ∧
    evidence = snapshots.flatMap (snapshotEvidence path sources)

theorem readTable_ok {α : Type} {read : List Source → Except EngineError α} {response : α}
    (h : registrations.readTable runtime runs ids read = .ok response) :
    validateSelection runs ids = .ok () ∧ ∃ sources,
      registrations.tableSources runtime runs ids = .ok sources ∧ read sources = .ok response := by
  simp only [Registrations.readTable, bind_eq_ok, exists_unit] at h
  exact h

theorem told_of_tableRows {request : TableRowsRequest} {response : TableRowsResponse}
    (hlatest : request.snapshotIds = none)
    (h : registrations.tableRows runtime serde request db = .ok response) :
    Told runtime serde registrations request.runIds request.sourceIds db response.snapshots := by
  obtain ⟨hselection, sources, hsources, hread⟩ := readTable_ok h
  obtain ⟨snapshots, scan, _, hsnapshots, -, -, rfl⟩ := tableRows_ok hread
  rw [hlatest] at hsnapshots
  exact ⟨sources, snapshots, request.path, hselection, hsources, hsnapshots, rfl⟩

theorem told_of_snapshotRecords {request : SnapshotRecordsRequest}
    {response : SnapshotRecordsResponse} (hlatest : request.snapshotIds = none)
    (h : registrations.snapshotRecords runtime serde request db = .ok response) :
    Told runtime serde registrations request.runIds request.sourceIds db
      response.table.snapshots := by
  obtain ⟨hselection, sources, hsources, hread⟩ := readTable_ok h
  obtain ⟨snapshots, scan, _, hsnapshots, -, -, -, rfl⟩ := snapshotRecordsPage_ok hread
  rw [hlatest] at hsnapshots
  exact ⟨sources, snapshots, request.path, hselection, hsources, hsnapshots, rfl⟩

end Evidence

/-! ## Reading the past -/

def pinRows (request : TableRowsRequest) (pinned : Option (List String)) : TableRowsRequest :=
  { request with snapshotIds := pinned }

def pinRecords (request : SnapshotRecordsRequest) (pinned : Option (List String)) :
    SnapshotRecordsRequest :=
  { request with snapshotIds := pinned }

def pinAggregate (request : SnapshotAggregateRequest) (pinned : Option (List String)) :
    SnapshotAggregateRequest :=
  { request with snapshotIds := pinned }

/-- Both stores answer the request alike, the later one to the pinned request. -/
structure ReadsPast (runtime : Runtime) (hash : HashOrder) (serde : Serde)
    (registrations : Registrations) (runs ids : List String) (evidence : List TableSource)
    (db db' : Database) : Prop where
  rows : ∀ request : TableRowsRequest, request.runIds = runs → request.sourceIds = ids →
    registrations.tableRows runtime serde
        (pinRows request (some (evidence.map TableSource.snapshotId))) db' =
      registrations.tableRows runtime serde (pinRows request none) db
  records : ∀ request : SnapshotRecordsRequest, request.runIds = runs → request.sourceIds = ids →
    registrations.snapshotRecords runtime serde
        (pinRecords request (some (evidence.map TableSource.snapshotId))) db' =
      registrations.snapshotRecords runtime serde (pinRecords request none) db
  aggregate : ∀ request : SnapshotAggregateRequest, request.runIds = runs →
    request.sourceIds = ids →
    registrations.snapshotAggregate runtime hash serde
        (pinAggregate request (some (evidence.map TableSource.snapshotId))) db' =
      registrations.snapshotAggregate runtime hash serde (pinAggregate request none) db

theorem Told.readsPast {runtime : Runtime} (hash : HashOrder) {serde : Serde}
    {registrations : Registrations} {runs ids : List String} {evidence : List TableSource}
    {db db' : Database} (h : Told runtime serde registrations runs ids db evidence)
    (hconsistent : RowsValid db) (hlistable : Listable db)
    (hrange : ∀ row ∈ db.snapshots, row.InRange) (hgrows : Grows db db') :
    ReadsPast runtime hash serde registrations runs ids evidence db db' := by
  obtain ⟨sources, snapshots, path, hselection, hsources, hsnapshots, rfl⟩ := h
  obtain ⟨hsorted, hcount⟩ := tableSources_ok hsources
  have hpast := tableSnapshots_past hconsistent hlistable hrange hgrows hsorted hcount hsnapshots
  rw [← @evidence_ids sources path snapshots (tableSnapshots_source hsnapshots)] at hpast
  have hread {α : Type} {read read' : List Source → Except EngineError α}
      (hsame : read sources = read' sources) :
      registrations.readTable runtime runs ids read =
        registrations.readTable runtime runs ids read' := by
    rw [Registrations.readTable, Registrations.readTable, hselection, hsources]
    exact hsame
  constructor
  · rintro request rfl rfl
    apply hread
    simp only [Tables.tableRows, pinRows, hpast, hsnapshots]
    rfl
  · rintro request rfl rfl
    apply hread
    simp only [snapshotRecordsPage, pinRecords, hpast, hsnapshots]
    rfl
  · rintro request rfl rfl
    apply hread
    simp only [Tables.snapshotAggregate, pinAggregate, hpast, hsnapshots]
    rfl

section Runs

variable {serde : Serde} {store store' : Store} {actions : List Action}

/-- Who pins what a first read told it goes on reading the state of that read. -/
theorem past_reads_exact (hstore : store.Reachable serde)
    (hrange : ∀ row ∈ store.db.snapshots, row.InRange)
    (hrun : store.run serde actions = some store') (runtime : Runtime) (hash : HashOrder)
    (registrations : Registrations) :
    (∀ (request : TableRowsRequest) response, request.snapshotIds = none →
      registrations.tableRows runtime serde request store.db = .ok response →
      ReadsPast runtime hash serde registrations request.runIds request.sourceIds
        response.snapshots store.db store'.db) ∧
    ∀ (request : SnapshotRecordsRequest) response, request.snapshotIds = none →
      registrations.snapshotRecords runtime serde request store.db = .ok response →
      ReadsPast runtime hash serde registrations request.runIds request.sourceIds
        response.table.snapshots store.db store'.db := by
  have hgrows := (Store.run_consistent hstore.consistent hrun).2
  constructor
  · intro request response hlatest hread
    exact (told_of_tableRows hlatest hread).readsPast hash hstore.consistent.rows hstore.listable
      hrange hgrows
  · intro request response hlatest hread
    exact (told_of_snapshotRecords hlatest hread).readsPast hash hstore.consistent.rows
      hstore.listable hrange hgrows

end Runs

def sampleRegistered : Registrations := ⟨["run-1"], ⟨sampleSources, by decide +kernel⟩⟩

/-- A later snapshot of the trainer. -/
def sampleLater : StateSnapshot :=
  sampleSnapshot 1 (.literal [("rows", .array [.literal [("loss", .int 4)]])])

def sampleHistory : List StateSnapshot := sampleLater :: sampleStates

def sampleContinued : List Action := [.ingestBatch [sampleDelivery 1 none [sampleLater]]]

def samplePinned : TableRowsRequest := pinRows sampleRowsRequest (some ["1", "2"])

/-- The later store shows another table, but the pinned one is the same. -/
theorem past_reads_exact_sample :
    ∃ store store', Store.init.run (.inverse sampleHistory) sampleListed = some store ∧
      store.run (.inverse sampleHistory) sampleContinued = some store' ∧
      sampleRegistered.tableRows sampleRuntime (.inverse sampleHistory) samplePinned store'.db =
        sampleRegistered.tableRows sampleRuntime (.inverse sampleHistory) sampleRowsRequest store.db ∧
      sampleRegistered.tableRows sampleRuntime (.inverse sampleHistory) sampleRowsRequest store'.db ≠
        sampleRegistered.tableRows sampleRuntime (.inverse sampleHistory) sampleRowsRequest store.db := by
  have hrun : ((Store.init.run (.inverse sampleHistory) sampleListed).bind fun store ↦
      (store.run (.inverse sampleHistory) sampleContinued).bind fun store' ↦
        (sampleRegistered.tableRows sampleRuntime (.inverse sampleHistory) sampleRowsRequest
          store.db).toOption.bind fun first ↦
          (sampleRegistered.tableRows sampleRuntime (.inverse sampleHistory) sampleRowsRequest
            store'.db).toOption.map fun later ↦
            (decide (∀ row ∈ store.db.snapshots, row.InRange),
              first.snapshots.map TableSource.snapshotId, first.total, later.total)) =
      some (true, ["1", "2"], 3, 2) := by decide +kernel
  obtain ⟨store, hstore, hrun⟩ := Option.bind_eq_some_iff.mp hrun
  obtain ⟨store', hstore', hrun⟩ := Option.bind_eq_some_iff.mp hrun
  obtain ⟨first, hfirst, hrun⟩ := Option.bind_eq_some_iff.mp hrun
  obtain ⟨later, hlater, hrun⟩ := Option.map_eq_some_iff.mp hrun
  rw [toOption_eq_some] at hfirst hlater
  simp only [Prod.mk.injEq, decide_eq_true_eq] at hrun
  obtain ⟨hrange, hids, htotal, htotal'⟩ := hrun
  have hpast := (past_reads_exact ⟨_, hstore⟩ hrange hstore' sampleRuntime ⟨id, List.Perm.refl⟩
    sampleRegistered).1 sampleRowsRequest first rfl hfirst
  refine ⟨store, store', hstore, hstore', ?_, ?_⟩
  · have hsame := hpast.rows sampleRowsRequest rfl rfl
    rw [hids] at hsame
    exact hsame
  · rw [hfirst, hlater]
    intro heq
    have htotals := congrArg TableRowsResponse.total (Except.ok.inj heq)
    omega

end Rvx.Tables
