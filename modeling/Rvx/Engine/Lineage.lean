import Rvx.Engine.LineageContents
import Rvx.Engine.PageWalks

/-!
# Lineage pages

The artifact records of some runs, newest first, page by page.  The pages that follow one another
list every matching record once, whatever is ingested in between.
-/

namespace Rvx.Engine

open Core Check Database Paging StableSort

def MAX_ARTIFACT_QUERY_RUNS : ℕ := 64
def MAX_ARTIFACT_QUERY_SOURCES : ℕ := 256
def MAX_ARTIFACT_PAGE_LIMIT : ℕ := 1000

structure ArtifactCursor where
  snapshotId : ℤ
  artifactIndex : ℕ
deriving DecidableEq

structure ArtifactLineageRequest where
  runIds : List String
  sourceIds : List String
  name : Option String
  digest : Option String
  action : Option ArtifactAction
  before : Option ArtifactCursor
  limit : ℕ

structure ArtifactCoverage where
  complete : Bool
  excludedRecords : ℕ
deriving DecidableEq

structure ArtifactLineagePage where
  artifacts : List ArtifactLineageRecord
  nextBefore : Option ArtifactCursor
  coverage : ArtifactCoverage

/-! ## Reading a page -/

def validateSelection (runs sources : List String) : Except EngineError Unit :=
  reject (runs = [] ∨ runs.length > MAX_ARTIFACT_QUERY_RUNS ∨
      sources.length > MAX_ARTIFACT_QUERY_SOURCES ∨
      (runs ++ sources).any fun text ↦ !ArtifactRecord.validText text)
    (.invalidInput "artifact query requires 1..64 runs and at most 256 sources")

/-- The checks of `lineage`. -/
def checkLineage (request : ArtifactLineageRequest) : Except EngineError Unit := do
  validateSelection request.runIds request.sourceIds
  reject (request.limit = 0 ∨ request.limit > MAX_ARTIFACT_PAGE_LIMIT ∨
      request.before.any fun cursor ↦ cursor.snapshotId ≤ 0)
    (.invalidInput "invalid artifact page limit or cursor")
  [request.name, request.digest].forM fun text ↦
    reject (text.any fun text ↦ !ArtifactRecord.validText text)
      (.invalidInput "invalid artifact filter")

/-- The clauses over runs and sources. -/
def inSelection (runs sources : List String) (run source : String) : Bool :=
  decide (run ∈ runs) && (decide (sources = []) || decide (source ∈ sources))

/-- `(l.snapshot_id,l.artifact_index)<(?,?)`. -/
def ArtifactCursor.After (cursor : ArtifactCursor) (row : LineageRow) : Prop :=
  (row.snapshotId : ℤ) < cursor.snapshotId ∨
    (row.snapshotId : ℤ) = cursor.snapshotId ∧ row.artifactIndex < cursor.artifactIndex

instance (cursor : ArtifactCursor) (row : LineageRow) : Decidable (cursor.After row) :=
  inferInstanceAs (Decidable (_ ∨ _))

/-- The `WHERE` clause of the lineage. -/
def ArtifactLineageRequest.selects (request : ArtifactLineageRequest) (row : LineageRow) : Bool :=
  inSelection request.runIds request.sourceIds row.runId row.sourceId &&
    (request.name.all fun name ↦ row.name = name) &&
    (request.digest.all fun digest ↦ row.digest = digest) &&
    (request.action.all fun action ↦ row.action = action.text) &&
    request.before.all fun cursor ↦ cursor.After row

/-- The selected rows, `ORDER BY snapshot_id DESC,artifact_index DESC`. -/
def lineageRows (request : ArtifactLineageRequest) (artifacts : ArtifactIndex) : List LineageRow :=
  sortOn (fun row ↦ OrderDual.toDual row.place) (artifacts.lineage.filter request.selects)

section Reading

/- `records` is `serde_json::from_str::<ArtifactRecord>`. -/
variable (records : String → Option ArtifactRecord)

def lineageRow (row : LineageRow) : Except EngineError ArtifactLineageRecord :=
  if 0 ≤ row.artifactIndex ∧ row.artifactIndex < 2 ^ 32 then
    match records row.recordJson with
    | none => .error .json
    | some record => .ok ⟨row.snapshotId, row.artifactIndex.toNat, row.runId, row.sourceId,
        row.observedAtNs, some row.step, record⟩
  else invalid "invalid artifact index"

/-- A row with the bytes it brings a page to, if they are within the budget; the length of the text
is looked at before it is decoded. -/
def acceptArtifact (bytes : ℕ) (row : LineageRow) :
    Except EngineError (Option (ArtifactLineageRecord × ℕ)) :=
  if row.recordJson.utf8ByteSize + bytes + 16 * 1024 > MAX_SNAPSHOT_PAGE_BYTES then .ok none
  else do
    let artifact ← lineageRow records row
    let bytes := bytes + (artifact.encodedLength + 1)
    return if bytes > MAX_SNAPSHOT_PAGE_BYTES then none else some (artifact, bytes)

def coverage (artifacts : ArtifactIndex) (runs sources : List String) : ArtifactCoverage :=
  let excluded := artifacts.exclusions.countP fun row ↦
    inSelection runs sources row.runId row.sourceId
  ⟨excluded = 0, excluded⟩

def lineage (request : ArtifactLineageRequest) (db : Database) :
    Except EngineError ArtifactLineagePage := do
  checkLineage request
  match db.artifacts with
  | none => .error .sqlite
  | some artifacts =>
    let (listed, more) ← fill (acceptArtifact records)
      (.invalidInput "artifact record exceeds response budget") request.limit (16 * 1024) []
      ((lineageRows request artifacts).take (request.limit + 1))
    return ⟨listed,
      if more then listed.getLast?.map fun artifact ↦ ⟨artifact.snapshotId, artifact.artifactIndex⟩
      else none,
      coverage artifacts request.runIds request.sourceIds⟩

end Reading

/-! ## Readable records -/

/-- Decoding undoes encoding, for the valid records of snapshots that can be stored. -/
def RecordsRoundTrip (records : String → Option ArtifactRecord) : Prop :=
  ∀ snapshot : StateSnapshot, snapshot.Valid →
    ∀ values, snapshot.state.value.get? "artifacts" = some (.array values) →
      ∀ value ∈ values, ∀ record, ArtifactRecord.decode value = some record →
        record.validate = .ok () → records record.encode = some record

open Classical in
/-- The inverse of the encoder of records. -/
noncomputable def recordsInverse (text : String) : Option ArtifactRecord :=
  if h : ∃ record : ArtifactRecord, record.encode = text then some h.choose else none

theorem recordsInverse_encode (record : ArtifactRecord) :
    recordsInverse record.encode = some record := by
  have hexists : ∃ other : ArtifactRecord, other.encode = record.encode := ⟨record, rfl⟩
  rw [recordsInverse, dif_pos hexists, ArtifactRecord.encode_injective hexists.choose_spec]

theorem recordsInverse_roundTrip : RecordsRoundTrip recordsInverse :=
  fun _ _ _ _ _ _ record _ _ ↦ recordsInverse_encode record

variable {serde : Serde} {records : String → Option ArtifactRecord}

/-- The row is read, and its record can be listed on a page of its own. -/
def ReadableRecord (records : String → Option ArtifactRecord) (row : LineageRow) : Prop :=
  0 ≤ row.artifactIndex ∧ ∃ artifact, lineageRow records row = .ok artifact ∧
    row.recordJson.utf8ByteSize + 16 * 1024 + 16 * 1024 ≤ MAX_SNAPSHOT_PAGE_BYTES ∧
    16 * 1024 + (artifact.encodedLength + 1) ≤ MAX_SNAPSHOT_PAGE_BYTES

/-- Every listed row is readable. -/
theorem readableRecord_of_lists (hrecords : RecordsRoundTrip records) {row : SnapshotRow}
    {snapshot : StateSnapshot} {listed : LineageRow} (hwritten : WrittenFrom row snapshot)
    (hrun : row.runId.utf8ByteSize ≤ 4096) (hsource : row.sourceId.utf8ByteSize ≤ 4096)
    (hrange : row.InRange) (hlists : Lists row snapshot listed) : ReadableRecord records listed := by
  obtain ⟨values, index, value, record, hget, hvalue, hindex, hdecode, hvalid, hjson⟩ :=
    hlists.record
  have hmem := List.mem_of_getElem? hvalue
  have hread : records listed.recordJson = some record := by
    rw [hjson]
    exact hrecords snapshot hwritten.valid values hget value hmem record hdecode hvalid
  have hstate : String.utf8Len snapshot.state.value.print ≤ MAX_SNAPSHOT_BYTES := by
    have hsize : snapshot.encodedLength ≤ MAX_SNAPSHOT_BYTES :=
      (StateSnapshot.valid_iff.mp hwritten.valid).2.2.2.2.2.2.2.2
    have hmember := utf8Len_le_of_mem
      (show member "state" snapshot.state.value.print ∈ snapshot.members by
        simp [StateSnapshot.members])
    rw [utf8Len_member] at hmember
    rw [StateSnapshot.encodedLength, StateSnapshot.chars_eq, printObject, String.utf8Len_cons,
      String.utf8Len_append] at hsize
    omega
  have hlist := Value.utf8Len_get?_le hget
  have hitem := Value.utf8Len_item_le hmem
  have hcount := Value.length_items_le values
  have hbound : index < values.length := (List.getElem?_eq_some_iff.mp hvalue).1
  have hrecord := ArtifactRecord.utf8ByteSize_encode_le hdecode hvalid
  unfold MAX_SNAPSHOT_BYTES at hstate
  have hsmall : listed.artifactIndex < 2 ^ 32 := by
    rw [hindex]
    omega
  have hnonneg : 0 ≤ listed.artifactIndex := hindex ▸ Int.natCast_nonneg index
  have hlength := @ArtifactLineageRecord.encodedLength_le
    ⟨listed.snapshotId, listed.artifactIndex.toNat, listed.runId, listed.sourceId,
      listed.observedAtNs, some listed.step, record⟩
    (hlists.id ▸ hrange.id) (by dsimp only; unfold I64_MAX; omega) (hlists.run ▸ hrun)
    (hlists.source ▸ hsource) (hlists.observed ▸ hwritten.observed ▸ hrange.observed)
    (fun step hstep ↦ Option.some.inj hstep ▸ hlists.step)
  refine ⟨hnonneg, ⟨listed.snapshotId, listed.artifactIndex.toNat, listed.runId, listed.sourceId,
    listed.observedAtNs, some listed.step, record⟩, ?_, ?_, ?_⟩
  · rw [lineageRow, if_pos ⟨hnonneg, hsmall⟩, hread]
  · rw [hjson]
    unfold MAX_SNAPSHOT_PAGE_BYTES
    omega
  · unfold MAX_SNAPSHOT_PAGE_BYTES
    dsimp only at hlength
    omega

instance : Inhabited ArtifactLineageRecord :=
  ⟨⟨0, 0, "", "", 0, none, ⟨0, .log, "", "", "", 0, "", [], .null⟩⟩⟩

/-- The record a readable row is read as. -/
def artifactOf (records : String → Option ArtifactRecord) (row : LineageRow) :
    ArtifactLineageRecord := (lineageRow records row).toOption.getD default

theorem lineageRow_eq_ok {row : LineageRow} (h : ReadableRecord records row)
    {artifact : ArtifactLineageRecord} :
    lineageRow records row = .ok artifact ↔ artifact = artifactOf records row := by
  obtain ⟨-, read, hread, -⟩ := h
  rw [artifactOf, hread]
  exact ⟨fun heq ↦ (Except.ok.inj heq).symm, fun heq ↦ congrArg Except.ok heq.symm⟩

theorem artifactOf_place {row : LineageRow} (h : ReadableRecord records row) :
    (artifactOf records row).snapshotId = row.snapshotId ∧
      (artifactOf records row).artifactIndex = row.artifactIndex.toNat := by
  have hread := (lineageRow_eq_ok h).mpr rfl
  unfold lineageRow at hread
  split at hread
  · split at hread
    · simp at hread
    · rw [Except.ok.injEq] at hread
      rw [← hread]
      exact ⟨rfl, rfl⟩
  · simp [invalid] at hread

theorem accepts_artifacts {rows : List LineageRow}
    (hrows : ∀ row ∈ rows, ReadableRecord records row) :
    Accepts (acceptArtifact records) (16 * 1024) (artifactOf records) rows := by
  constructor
  · intro row hrow bytes
    have hread := (lineageRow_eq_ok (hrows row hrow)).mpr rfl
    unfold acceptArtifact
    split
    · exact Or.inl rfl
    · simp only [hread, bind, Except.bind, pure, Except.pure]
      split
      · exact Or.inl rfl
      · exact Or.inr ⟨_, rfl⟩
  · intro row hrow
    obtain ⟨hnonneg, artifact, hread, htext, hsmall⟩ := hrows row hrow
    obtain rfl := (lineageRow_eq_ok (hrows row hrow)).mp hread
    unfold acceptArtifact
    rw [if_neg (not_lt.mpr htext)]
    simp only [hread, bind, Except.bind, pure, Except.pure]
    rw [if_neg (not_lt.mpr hsmall)]
    exact ⟨_, rfl⟩

/-! ## Following the cursors -/

section Walks

variable {request : ArtifactLineageRequest} {stores : ℕ → Store}

def ArtifactLineageRequest.at (request : ArtifactLineageRequest) (cursor : Option ArtifactCursor) :
    ArtifactLineageRequest := { request with before := cursor }

/-- The lineage read at a cursor, with the cursor of the next page. -/
def lineageAt (records : String → Option ArtifactRecord) (request : ArtifactLineageRequest)
    (db : Database) (cursor : Option ArtifactCursor) :
    Except EngineError (List ArtifactLineageRecord × Option ArtifactCursor) :=
  (lineage records (request.at cursor) db).map fun page ↦ (page.artifacts, page.nextBefore)

/-- The lineage of all stored snapshots. -/
def Database.lineage (serde : Serde) (db : Database) : List LineageRow :=
  db.snapshots.flatMap (rowLineage serde)

def LineageRow.cursor (row : LineageRow) : ArtifactCursor := ⟨row.snapshotId, row.artifactIndex.toNat⟩

/-- What an open store lists is the lineage of its snapshots. -/
theorem Store.Reachable.artifacts {store : Store} (hstore : store.Reachable serde)
    (hserde : serde.RoundTrip) (hready : store.phase = .ready) :
    ∃ artifacts, store.db.artifacts = some artifacts ∧
      artifacts.lineage = store.db.lineage serde := by
  obtain ⟨artifacts, hsome, hbuilt⟩ := (hstore.accepting hserde hready).artifacts
  exact ⟨artifacts, hsome, lineage_of_built hbuilt⟩

/-- Every record an open store lists is readable. -/
theorem Reads.readableRecord (h : Reads serde stores) (hserde : serde.RoundTrip)
    (hrecords : RecordsRoundTrip records) (n : ℕ) {row : LineageRow}
    (hrow : row ∈ (stores n).db.lineage serde) : ReadableRecord records row := by
  obtain ⟨stored, hstored, hlisted⟩ := List.mem_flatMap.mp hrow
  obtain ⟨snapshot, hwritten⟩ := (h.reachable_all n).consistent.rows.written stored hstored
  obtain ⟨hrun, hsource⟩ := (h.reachable_all n).listable.named stored hstored
  exact readableRecord_of_lists hrecords hwritten (checkIds_singleton.mp hrun).2
    (checkIds_singleton.mp hsource).2 (h.inRange n stored hstored)
    (lists_of_mem (hwritten.decode hserde) hlisted)

theorem selects_at {row : LineageRow} {cursor : Option ArtifactCursor} :
    (request.at cursor).selects row = true ↔
      (request.at none).selects row = true ∧ ∀ c ∈ cursor, c.After row := by
  simp only [ArtifactLineageRequest.selects, ArtifactLineageRequest.at, Bool.and_eq_true,
    Option.all_none, and_true]
  cases cursor <;> simp

theorem mem_lineageRows {artifacts : ArtifactIndex} {row : LineageRow} :
    row ∈ lineageRows request artifacts ↔ row ∈ artifacts.lineage ∧ request.selects row = true := by
  rw [lineageRows, mem_sortOn, List.mem_filter]

theorem checkLineage_at {cursor : Option ArtifactCursor} (h : checkLineage request = .ok ())
    (hcursor : ∀ c ∈ cursor, 0 < c.snapshotId) : checkLineage (request.at cursor) = .ok () := by
  simp only [checkLineage, bind_eq_ok, exists_unit, reject_ok, not_or] at h ⊢
  refine ⟨h.1, ⟨h.2.1.1, h.2.1.2.1, ?_⟩, h.2.2⟩
  cases cursor with
  | none => simp [ArtifactLineageRequest.at]
  | some c => simpa [ArtifactLineageRequest.at] using hcursor c rfl

/-- A page of the lineage is a part of the rows after its cursor. -/
theorem lineage_answers {db : Database} {artifacts : ArtifactIndex}
    (hartifacts : db.artifacts = some artifacts)
    (hreadable : ∀ row ∈ artifacts.lineage, ReadableRecord records row)
    {cursor : Option ArtifactCursor} (hcheck : checkLineage (request.at cursor) = .ok ()) :
    Answers LineageRow.cursor (artifactOf records) (lineageRows (request.at cursor) artifacts)
      (lineageAt records request db cursor) := by
  have hlimit : 0 < (request.at cursor).limit := by
    simp only [checkLineage, bind_eq_ok, exists_unit, reject_ok, not_or] at hcheck
    exact Nat.pos_of_ne_zero hcheck.2.1.1
  have hrows : ∀ row ∈ lineageRows (request.at cursor) artifacts, ReadableRecord records row :=
    fun row hrow ↦ hreadable row (mem_lineageRows.mp hrow).1
  obtain ⟨count, hpos, hpage⟩ := fill_spec (accepts_artifacts hrows)
    (.invalidInput "artifact record exceeds response budget") hlimit
  refine ⟨count, hpos, ?_⟩
  have hlast : ((lineageRows (request.at cursor) artifacts).take count).getLast?.map (fun row ↦
      (⟨(artifactOf records row).snapshotId, (artifactOf records row).artifactIndex⟩ :
        ArtifactCursor)) =
      ((lineageRows (request.at cursor) artifacts).take count).getLast?.map LineageRow.cursor := by
    apply Option.map_congr
    intro row hrow
    obtain ⟨hid, hindex⟩ :=
      artifactOf_place (hrows row (List.mem_of_mem_take (List.mem_of_getLast? hrow)))
    rw [hid, hindex, LineageRow.cursor]
  rw [lineageAt, lineage, hcheck]
  simp only [hartifacts, hpage, bind, Except.bind, pure, Except.pure, Except.map,
    decide_eq_true_eq, List.getLast?_map, Option.map_map, Function.comp_def, hlast]

/-- The rows of a lineage that a request selects, in the order of its pages. -/
def selectedLineage (request : ArtifactLineageRequest) (listed : List LineageRow) :
    List LineageRow := sortOn (fun row ↦ OrderDual.toDual row.place) (listed.filter request.selects)

theorem ordered_selectedLineage {db : Database} (hdb : Consistent db) :
    (selectedLineage request (db.lineage serde)).Pairwise fun row older ↦
      OrderDual.toDual row.place < OrderDual.toDual older.place := by
  apply ordered_sortOn
  have hplaces : ((db.lineage serde).map fun row ↦ OrderDual.toDual row.place).Nodup :=
    List.pairwise_map.mpr ((ordered_lineage hdb.rows.ids_ascending).imp fun hlt ↦ hlt.ne)
  exact hplaces.sublist (List.filter_sublist.map _)

/-- The cursor of a row stands between it and the rows that come later. -/
theorem LineageRow.after_cursor {row older : LineageRow} (hnonneg : 0 ≤ row.artifactIndex) :
    row.cursor.After older ↔ OrderDual.toDual row.place < OrderDual.toDual older.place := by
  rw [OrderDual.toDual_lt_toDual, LineageRow.place, LineageRow.place, Prod.Lex.toLex_lt_toLex,
    ArtifactCursor.After, LineageRow.cursor, Int.toNat_of_nonneg hnonneg, Nat.cast_lt, Nat.cast_inj]

/-- The pages of the lineage, for all reads. -/
theorem lineage_listing (h : Reads serde stores) (hserde : serde.RoundTrip)
    (hrecords : RecordsRoundTrip records) :
    Listing (fun row : LineageRow ↦ OrderDual.toDual row.place) ArtifactCursor.After
      LineageRow.cursor
      (fun n row ↦ row ∈ (stores n).db.lineage serde ∧ (request.at none).selects row = true)
      (fun n cursor ↦ selectedLineage (request.at cursor) ((stores n).db.lineage serde)) where
  ordered n _ := ordered_selectedLineage (h.reachable_all n).consistent
  mem n cursor row := by rw [selectedLineage, mem_sortOn, List.mem_filter, selects_at, and_assoc]
  after_cursorOf n last row hmatch :=
    LineageRow.after_cursor (h.readableRecord hserde hrecords n hmatch.1).1
  after_trans cursor row later hafter hlt := by
    rw [OrderDual.toDual_lt_toDual, LineageRow.place, LineageRow.place,
      Prod.Lex.toLex_lt_toLex] at hlt
    unfold ArtifactCursor.After at hafter ⊢
    omega
  stays n row hmatch := by
    obtain ⟨stored, hstored, hlisted⟩ := List.mem_flatMap.mp hmatch.1
    exact ⟨List.mem_flatMap.mpr ⟨stored, (h.grows n).snapshots.subset hstored, hlisted⟩, hmatch.2⟩
  ahead n row later hrow hlater hlt := by
    obtain ⟨stored, hstored, hlisted⟩ := List.mem_flatMap.mp hrow.1
    obtain ⟨older, holder, hlisted'⟩ := List.mem_flatMap.mp hlater.1
    rw [OrderDual.toDual_lt_toDual, LineageRow.place, LineageRow.place, Prod.Lex.toLex_lt_toLex,
      snapshotId_of_mem hlisted, snapshotId_of_mem hlisted'] at hlt
    have hle : older.id ≤ stored.id := hlt.elim le_of_lt fun hsame ↦ hsame.1.le
    exact ⟨List.mem_flatMap.mpr ⟨older, h.stored_of_le hstored holder hle, hlisted'⟩, hlater.2⟩

/-- Following the cursors lists the matching records of the first read, newest first. -/
theorem lineage_walk (h : Reads serde stores) (hserde : serde.RoundTrip)
    (hrecords : RecordsRoundTrip records) (hcheck : checkLineage request = .ok ())
    {items : List ArtifactLineageRecord} :
    Walk (fun n cursor ↦ lineageAt records request (stores n).db cursor) 0 request.before items ↔
      items = (selectedLineage request ((stores 0).db.lineage serde)).map (artifactOf records) := by
  have hpos (n : ℕ) (row : LineageRow) (hrow : row ∈ (stores n).db.lineage serde ∧
      (request.at none).selects row = true) : 0 < row.cursor.snapshotId := by
    obtain ⟨stored, hstored, hlisted⟩ := List.mem_flatMap.mp hrow.1
    rw [LineageRow.cursor, snapshotId_of_mem hlisted]
    exact Nat.cast_pos.mpr ((h.reachable_all n).consistent.rows.ids_pos stored hstored)
  have hstart : ∀ c ∈ request.before, 0 < c.snapshotId := by
    simp only [checkLineage, bind_eq_ok, exists_unit, reject_ok, not_or] at hcheck
    intro c hc
    have hnot := hcheck.2.1.2.2
    rw [Option.mem_def.mp hc] at hnot
    simpa using hnot
  have hanswers (n : ℕ) (cursor : Option ArtifactCursor) (hcursor : ∀ c ∈ cursor, 0 < c.snapshotId) :
      Answers LineageRow.cursor (artifactOf records)
        (selectedLineage (request.at cursor) ((stores n).db.lineage serde))
        (lineageAt records request (stores n).db cursor) := by
    obtain ⟨artifacts, hsome, hlineage⟩ := (h.reachable_all n).artifacts hserde (h.ready n)
    rw [← hlineage]
    apply lineage_answers hsome
    · intro row hrow
      exact h.readableRecord hserde hrecords n (hlineage ▸ hrow)
    · exact checkLineage_at hcheck hcursor
  exact (lineage_listing h hserde hrecords).walk_iff hpos hanswers hstart

end Walks

end Rvx.Engine
