import Rvx.Engine.Pagination

/-!
# Resolving an artifact

The newest logged record of a name, or of a name and an alias, read from the derived tables.  The
tables split every list of artifacts into records, aliases and exclusions; an answer from them is an
answer over the stored snapshots.
-/

namespace Rvx.Engine

open Core Check Script Database StableSort

variable {serde : Serde} {records : String → Option ArtifactRecord}

/-! ## The lookup -/

structure ArtifactResolveRequest where
  runIds : List String
  sourceIds : List String
  name : String
  aliasName : String

structure ArtifactResolveResponse where
  artifact : ArtifactLineageRecord
  coverage : ArtifactCoverage

/-- The checks of `resolve`. -/
def checkResolve (request : ArtifactResolveRequest) : Except EngineError Unit := do
  validateSelection request.runIds request.sourceIds
  reject (!ArtifactRecord.validText request.name || !ArtifactRecord.validText request.aliasName)
    (.invalidInput "invalid artifact name/alias")

/-- The clauses over the lineage table. -/
def ArtifactResolveRequest.selects (request : ArtifactResolveRequest) (row : LineageRow) : Bool :=
  row.action = ArtifactAction.log.text && row.name = request.name &&
    inSelection request.runIds request.sourceIds row.runId row.sourceId

/-- `ON a.snapshot_id=l.snapshot_id AND a.artifact_index=l.artifact_index AND a.run_id=l.run_id AND
a.name=l.name`. -/
def joins (row : LineageRow) (other : AliasRow) : Bool :=
  other.snapshotId = row.snapshotId && other.artifactIndex = row.artifactIndex &&
    other.runId = row.runId && other.name = row.name

/-- The selected rows, one for each joined alias unless any logged record will do,
`ORDER BY l.snapshot_id DESC,l.artifact_index DESC`. -/
def resolveRows (request : ArtifactResolveRequest) (artifacts : ArtifactIndex) : List LineageRow :=
  let joined := if request.aliasName = "latest" then artifacts.lineage
    else artifacts.lineage.flatMap fun row ↦
      (artifacts.aliases.filter fun other ↦
        joins row other && other.aliasName = request.aliasName).map fun _ ↦ row
  sortOn (fun row ↦ OrderDual.toDual row.place) (joined.filter request.selects)

def resolve (records : String → Option ArtifactRecord) (request : ArtifactResolveRequest)
    (db : Database) : Except EngineError ArtifactResolveResponse := do
  checkResolve request
  match db.artifacts with
  | none => .error .sqlite
  | some artifacts =>
    let coverage := coverage artifacts request.runIds request.sourceIds
    reject (!coverage.complete) (.invalidInput ("artifact index coverage is incomplete in this " ++
      "scope; inspect lineage coverage before resolving"))
    match resolveRows request artifacts with
    | [] => invalid "unknown artifact name/alias"
    | row :: _ => return ⟨← lineageRow records row, coverage⟩

/-! ## What the tables list -/

/-- The record of a listed value, if it is valid. -/
def validRecord (value : Value) : Option ArtifactRecord :=
  (ArtifactRecord.decode value).filter fun record ↦ record.validate.toOption.isSome

namespace ArtifactIndex

section Contents

variable (message : Value → String) (id : ℕ) (run source : String)

/-- The aliases of one listed value, if it is a valid logged record. -/
def recordAliases (index : ℕ) (value : Value) : List AliasRow :=
  (validRecord value).elim [] fun record ↦
    if record.action = .log then
      record.aliases.map fun name ↦ ⟨id, index, run, source, record.name, name⟩
    else []

/-- The exclusion of one listed value, unless it is a valid record. -/
def recordExclusions (index : ℕ) (value : Value) : List ExclusionRow :=
  let exclusion (reason : String) : ExclusionRow :=
    ⟨id, index, run, source, String.ofList (reason.toList.take 512)⟩
  match ArtifactRecord.decode value with
  | none => [exclusion (message value)]
  | some record =>
    match record.validate with
    | .error error => [exclusion error.message]
    | .ok _ => []

/-- What the artifacts of a tracker state add to a table: what each entry of a list does, or what
anything else does. -/
def stateRows {ρ : Type} (entry : ℕ → Value → List ρ) (other : List ρ) (snapshot : StateSnapshot) :
    List ρ :=
  match (snapshot.state.value.pointer "/tracker/step").bind Value.asI64,
    snapshot.state.value.get? "artifacts" with
  | some _, some (.array values) => (values.zipIdx 0).flatMap fun item ↦ entry item.2 item.1
  | some _, some _ => other
  | _, _ => []

end Contents

variable {message : Value → String} {id : ℕ} {run source : String}
  {artifacts artifacts' : ArtifactIndex}

theorem validRecord_eq_some {value : Value} {record : ArtifactRecord} :
    validRecord value = some record ↔
      ArtifactRecord.decode value = some record ∧ record.validate = .ok () := by
  rw [validRecord, Option.filter_eq_some_iff]
  refine and_congr_right fun _ ↦ ?_
  cases record.validate <;> simp [Except.toOption]

theorem tables_of_exclude {index : ℤ} {reason : String}
    (h : (exclude id run source index reason).Returns artifacts () artifacts') :
    artifacts'.aliases = artifacts.aliases ∧ artifacts'.exclusions = artifacts.exclusions ++
      [⟨id, index, run, source, String.ofList (reason.toList.take 512)⟩] := by
  rw [exclude, StoreTable.returns_insert] at h
  rw [h.2]
  exact ⟨rfl, rfl⟩

theorem tables_of_insertRecord {observed step : ℤ} {index : ℕ} {value : Value}
    (h : (insertRecord message id run source observed step index value).Returns artifacts ()
      artifacts') :
    artifacts'.aliases = artifacts.aliases ++ recordAliases id run source index value ∧
      artifacts'.exclusions = artifacts.exclusions ++
        recordExclusions message id run source index value := by
  unfold insertRecord at h
  unfold recordAliases recordExclusions validRecord
  cases hdecode : ArtifactRecord.decode value with
  | none =>
    rw [hdecode] at h
    simpa using tables_of_exclude h
  | some record =>
    rw [hdecode] at h
    dsimp only at h ⊢
    cases hvalidate : record.validate with
    | error error =>
      rw [hvalidate] at h
      simpa [Option.filter, hvalidate, Except.toOption] using tables_of_exclude h
    | ok value =>
      rw [hvalidate] at h
      dsimp only at h
      rw [returns_bind] at h
      obtain ⟨_, middle, hrow, hrest⟩ := h
      have hmiddle := (StoreTable.returns_insert.mp hrow).2
      simp only [Option.filter, hvalidate, Except.toOption, Option.isSome_some, if_true,
        Option.elim_some, List.append_nil]
      split at hrest
      · rename_i hlog
        rw [if_pos hlog, StoreTable.eq_of_returns_insertEach hrest, hmiddle]
        exact ⟨rfl, rfl⟩
      · rename_i huse
        rw [returns_pure] at hrest
        rw [if_neg huse, ← hrest.2, hmiddle, List.append_nil]
        exact ⟨rfl, rfl⟩

theorem tables_of_insertRecords {observed step : ℤ} {index : ℕ} {values : List Value}
    (h : (insertRecords message id run source observed step index values).Returns artifacts ()
      artifacts') :
    artifacts'.aliases = artifacts.aliases ++ ((values.zipIdx index).flatMap fun item ↦
        recordAliases id run source item.2 item.1) ∧
      artifacts'.exclusions = artifacts.exclusions ++ ((values.zipIdx index).flatMap fun item ↦
        recordExclusions message id run source item.2 item.1) := by
  induction values generalizing index artifacts with
  | nil =>
    simp only [insertRecords, returns_pure] at h
    simp [h.2]
  | cons value rest ih =>
    simp only [insertRecords, returns_bind] at h
    obtain ⟨_, middle, hvalue, hrest⟩ := h
    obtain ⟨haliases, hexclusions⟩ := ih hrest
    obtain ⟨haliases', hexclusions'⟩ := tables_of_insertRecord hvalue
    rw [haliases, hexclusions, haliases', hexclusions', List.zipIdx_cons, List.flatMap_cons,
      List.flatMap_cons, List.append_assoc, List.append_assoc]
    exact ⟨rfl, rfl⟩

theorem tables_of_insert {snapshot : StateSnapshot}
    (h : (insert message id run source snapshot).Returns artifacts () artifacts') :
    artifacts'.aliases = artifacts.aliases ++
        stateRows (recordAliases id run source) [] snapshot ∧
      artifacts'.exclusions = artifacts.exclusions ++
        stateRows (recordExclusions message id run source)
          [⟨id, -1, run, source, "artifacts must be an array"⟩] snapshot := by
  simp only [insert, returns_bind, returns_modify] at h
  obtain ⟨_, middle, hstate, rfl⟩ := h
  change middle.aliases = _ ∧ middle.exclusions = _
  unfold insertState at hstate
  unfold stateRows
  split at hstate
  · rename_i hnone
    rw [returns_pure] at hstate
    simp [hnone, hstate.2]
  · rename_i step hstep
    rw [hstep]
    split at hstate
    · rename_i hget
      rw [returns_pure] at hstate
      simp [hget, hstate.2]
    · rename_i values hget
      rw [hget]
      exact tables_of_insertRecords hstate
    · rename_i other hother hget
      rw [hget]
      obtain ⟨haliases, hexclusions⟩ := tables_of_exclude hstate
      rw [haliases, hexclusions]
      cases other with
      | array values => exact absurd rfl (hother values)
      | _ => simp

end ArtifactIndex

/-- The alias rows of a stored row. -/
def rowAliases (serde : Serde) (row : SnapshotRow) : List AliasRow :=
  (serde.snapshot row.snapshotJson).elim []
    (ArtifactIndex.stateRows (ArtifactIndex.recordAliases row.id row.runId row.sourceId) [])

/-- The exclusions of a stored row. -/
def rowExclusions (serde : Serde) (row : SnapshotRow) : List ExclusionRow :=
  (serde.snapshot row.snapshotJson).elim []
    (ArtifactIndex.stateRows
      (ArtifactIndex.recordExclusions serde.artifactMessage row.id row.runId row.sourceId)
      [⟨row.id, -1, row.runId, row.sourceId, "artifacts must be an array"⟩])

theorem tables_of_built {rows : List SnapshotRow} {artifacts : ArtifactIndex}
    (h : (artifactProjection serde).Built rows artifacts) :
    artifacts.aliases = rows.flatMap (rowAliases serde) ∧
      artifacts.exclusions = rows.flatMap (rowExclusions serde) := by
  induction rows using List.reverseRecOn generalizing artifacts with
  | nil =>
    rw [Projection.built_nil.mp h]
    exact ⟨rfl, rfl⟩
  | append_singleton rows row ih =>
    obtain ⟨middle, hmiddle, hrow⟩ := Projection.built_concat.mp h
    obtain ⟨snapshot, hdecode, hrun⟩ := indexRow_returns.mp hrow
    obtain ⟨haliases, hexclusions⟩ := ArtifactIndex.tables_of_insert hrun
    obtain ⟨haliases', hexclusions'⟩ := ih hmiddle
    rw [haliases, hexclusions, haliases', hexclusions', List.flatMap_append, List.flatMap_append,
      List.flatMap_singleton, List.flatMap_singleton, rowAliases, rowExclusions, hdecode]
    exact ⟨rfl, rfl⟩

/-! ## Answers over the stored snapshots -/

/-- An artifact record that a stored tracker state lists, for a request. -/
structure LoggedIn (serde : Serde) (request : ArtifactResolveRequest) (row : SnapshotRow)
    (artifact : ArtifactLineageRecord) : Prop where
  state : ∃ (snapshot : StateSnapshot) (step : ℤ) (values : List Value) (value : Value),
    serde.snapshot row.snapshotJson = some snapshot ∧
    (snapshot.state.value.pointer "/tracker/step").bind Value.asI64 = some step ∧
    snapshot.state.value.get? "artifacts" = some (.array values) ∧
    values[artifact.artifactIndex]? = some value ∧ validRecord value = some artifact.record ∧
    artifact.observedAtNs = snapshot.observedAtNs ∧ artifact.step = some step
  stored : artifact.snapshotId = row.id ∧ artifact.runId = row.runId ∧
    artifact.sourceId = row.sourceId
  scope : inSelection request.runIds request.sourceIds row.runId row.sourceId = true
  action : artifact.record.action = .log
  name : artifact.record.name = request.name
  aliasName : request.aliasName = "latest" ∨ request.aliasName ∈ artifact.record.aliases

/-- A stored tracker state lists something that is no valid record. -/
def Malformed (serde : Serde) (row : SnapshotRow) : Prop :=
  ∃ (snapshot : StateSnapshot) (step : ℤ) (listed : Value),
    serde.snapshot row.snapshotJson = some snapshot ∧
    (snapshot.state.value.pointer "/tracker/step").bind Value.asI64 = some step ∧
    snapshot.state.value.get? "artifacts" = some listed ∧
    ∀ values, listed = .array values → ∃ value ∈ values, validRecord value = none

/-- Nothing malformed is left out. -/
theorem exists_exclusion {row : SnapshotRow} (h : Malformed serde row) :
    ∃ exclusion ∈ rowExclusions serde row,
      exclusion.runId = row.runId ∧ exclusion.sourceId = row.sourceId := by
  obtain ⟨snapshot, step, listed, hdecode, hstep, hget, hlisted⟩ := h
  rw [rowExclusions, hdecode, Option.elim_some, ArtifactIndex.stateRows, hstep, hget]
  cases listed with
  | array values =>
    obtain ⟨value, hvalue, hinvalid⟩ := hlisted values rfl
    obtain ⟨index, hindex⟩ := List.mem_iff_getElem?.mp hvalue
    have hentry : (value, index) ∈ values.zipIdx 0 := List.mem_zipIdx_iff_getElem?.mpr hindex
    obtain ⟨exclusion, hmem, hids⟩ : ∃ exclusion ∈ ArtifactIndex.recordExclusions
        serde.artifactMessage row.id row.runId row.sourceId index value,
        exclusion.runId = row.runId ∧ exclusion.sourceId = row.sourceId := by
      unfold ArtifactIndex.recordExclusions
      cases hrecord : ArtifactRecord.decode value with
      | none => exact ⟨_, List.mem_singleton_self _, rfl, rfl⟩
      | some record =>
        dsimp only
        cases hvalid : record.validate with
        | error error => exact ⟨_, List.mem_singleton_self _, rfl, rfl⟩
        | ok value =>
          rw [ArtifactIndex.validRecord_eq_some.mpr ⟨hrecord, hvalid⟩] at hinvalid
          cases hinvalid
    exact ⟨exclusion, List.mem_flatMap.mpr ⟨_, hentry, hmem⟩, hids⟩
  | _ => exact ⟨_, List.mem_singleton_self _, rfl, rfl⟩

/-- A listed row is the row of a record of a stored tracker state. -/
theorem mem_rowLineage {row : SnapshotRow} {listed : LineageRow} :
    listed ∈ rowLineage serde row ↔
      ∃ (snapshot : StateSnapshot) (step : ℤ) (values : List Value) (index : ℕ) (value : Value)
        (record : ArtifactRecord), serde.snapshot row.snapshotJson = some snapshot ∧
        (snapshot.state.value.pointer "/tracker/step").bind Value.asI64 = some step ∧
        snapshot.state.value.get? "artifacts" = some (.array values) ∧
        values[index]? = some value ∧ validRecord value = some record ∧
        listed = ⟨row.id, index, row.runId, row.sourceId, snapshot.observedAtNs, step,
          record.action.text, record.name, record.digest, record.encode⟩ := by
  have hrecord {observed step : ℤ} {index : ℕ} {value : Value} :
      ArtifactIndex.recordRow row.id row.runId row.sourceId observed step index value =
        some listed ↔ ∃ record, validRecord value = some record ∧
          listed = ⟨row.id, index, row.runId, row.sourceId, observed, step, record.action.text,
            record.name, record.digest, record.encode⟩ := by
    unfold ArtifactIndex.recordRow
    simp only [ArtifactIndex.validRecord_eq_some]
    cases hdecode : ArtifactRecord.decode value with
    | none => simp
    | some record =>
      cases hvalid : record.validate with
      | error error => simp [hvalid]
      | ok value => simp [hvalid, eq_comm]
  constructor
  · intro h
    unfold rowLineage at h
    cases hdecode : serde.snapshot row.snapshotJson with
    | none => simp [hdecode] at h
    | some snapshot =>
      rw [hdecode, Option.elim_some, ArtifactIndex.lineageOf] at h
      split at h
      · rename_i step values hstep hget
        obtain ⟨⟨value, index⟩, hentry, hrow⟩ := List.mem_filterMap.mp h
        obtain ⟨record, hvalid, hlisted⟩ := hrecord.mp hrow
        exact ⟨snapshot, step, values, index, value, record, rfl, hstep, hget,
          List.mem_zipIdx_iff_getElem?.mp hentry, hvalid, hlisted⟩
      · cases h
  · rintro ⟨snapshot, step, values, index, value, record, hdecode, hstep, hget, hvalue, hvalid,
      hlisted⟩
    rw [rowLineage, hdecode, Option.elim_some, ArtifactIndex.lineageOf, hstep, hget]
    exact List.mem_filterMap.mpr ⟨(value, index), List.mem_zipIdx_iff_getElem?.mpr hvalue,
      hrecord.mpr ⟨record, hvalid, hlisted⟩⟩

theorem mem_rowAliases {row : SnapshotRow} {listed : AliasRow} :
    listed ∈ rowAliases serde row ↔
      ∃ (snapshot : StateSnapshot) (step : ℤ) (values : List Value) (index : ℕ) (value : Value)
        (record : ArtifactRecord), serde.snapshot row.snapshotJson = some snapshot ∧
        (snapshot.state.value.pointer "/tracker/step").bind Value.asI64 = some step ∧
        snapshot.state.value.get? "artifacts" = some (.array values) ∧
        values[index]? = some value ∧ validRecord value = some record ∧ record.action = .log ∧
        ∃ name ∈ record.aliases,
          listed = ⟨row.id, index, row.runId, row.sourceId, record.name, name⟩ := by
  have hrecord {index : ℕ} {value : Value} :
      listed ∈ ArtifactIndex.recordAliases row.id row.runId row.sourceId index value ↔
        ∃ record, validRecord value = some record ∧ record.action = .log ∧
          ∃ name ∈ record.aliases,
            listed = ⟨row.id, index, row.runId, row.sourceId, record.name, name⟩ := by
    unfold ArtifactIndex.recordAliases
    cases hvalid : validRecord value with
    | none => simp
    | some record =>
      by_cases hlog : record.action = .log <;> simp [hlog, eq_comm]
  constructor
  · intro h
    unfold rowAliases at h
    cases hdecode : serde.snapshot row.snapshotJson with
    | none => simp [hdecode] at h
    | some snapshot =>
      rw [hdecode, Option.elim_some, ArtifactIndex.stateRows] at h
      split at h
      · rename_i step values hstep hget
        obtain ⟨⟨value, index⟩, hentry, hrow⟩ := List.mem_flatMap.mp h
        obtain ⟨record, hvalid, hlog, hname⟩ := hrecord.mp hrow
        exact ⟨snapshot, step, values, index, value, record, rfl, hstep, hget,
          List.mem_zipIdx_iff_getElem?.mp hentry, hvalid, hlog, hname⟩
      · cases h
      · cases h
  · rintro ⟨snapshot, step, values, index, value, record, hdecode, hstep, hget, hvalue, hvalid,
      hlog, hname⟩
    rw [rowAliases, hdecode, Option.elim_some, ArtifactIndex.stateRows, hstep, hget]
    exact List.mem_flatMap.mpr ⟨(value, index), List.mem_zipIdx_iff_getElem?.mpr hvalue,
      hrecord.mpr ⟨record, hvalid, hlog, hname⟩⟩

/-- The tables of some stored rows. -/
structure TablesOf (serde : Serde) (rows : List SnapshotRow) (artifacts : ArtifactIndex) : Prop where
  lineage : artifacts.lineage = rows.flatMap (rowLineage serde)
  aliases : artifacts.aliases = rows.flatMap (rowAliases serde)
  exclusions : artifacts.exclusions = rows.flatMap (rowExclusions serde)

theorem Store.Reachable.tables {store : Store} (hstore : store.Reachable serde)
    (hserde : serde.RoundTrip) (hready : store.phase = .ready) :
    ∃ artifacts, store.db.artifacts = some artifacts ∧
      TablesOf serde store.db.snapshots artifacts := by
  obtain ⟨artifacts, hsome, hbuilt⟩ := (hstore.accepting hserde hready).artifacts
  obtain ⟨haliases, hexclusions⟩ := tables_of_built hbuilt
  exact ⟨artifacts, hsome, lineage_of_built hbuilt, haliases, hexclusions⟩

/-- The row of a record in the lineage table. -/
def listedRow (artifact : ArtifactLineageRecord) (step : ℤ) : LineageRow :=
  ⟨artifact.snapshotId, artifact.artifactIndex, artifact.runId, artifact.sourceId,
    artifact.observedAtNs, step, artifact.record.action.text, artifact.record.name,
    artifact.record.digest, artifact.record.encode⟩

/-- The rows that are looked at are those of the records that a request is about. -/
theorem mem_resolveRows {request : ArtifactResolveRequest} {rows : List SnapshotRow}
    {artifacts : ArtifactIndex} (htables : TablesOf serde rows artifacts)
    (hids : ∀ row ∈ rows, ∀ other ∈ rows, row.id = other.id → row = other) {listed : LineageRow} :
    listed ∈ resolveRows request artifacts ↔
      ∃ row ∈ rows, ∃ artifact, LoggedIn serde request row artifact ∧
        ∃ step, artifact.step = some step ∧ listed = listedRow artifact step := by
  have hlog (record : ArtifactRecord) :
      record.action.text = ArtifactAction.log.text ↔ record.action = .log :=
    ArtifactAction.text_injective.eq_iff
  simp only [resolveRows, mem_sortOn, List.mem_filter, ArtifactResolveRequest.selects,
    Bool.and_eq_true, decide_eq_true_eq]
  constructor
  · rintro ⟨hjoined, ⟨haction, hname⟩, hscope⟩
    have hlisted : listed ∈ artifacts.lineage := by
      split at hjoined
      · exact hjoined
      · obtain ⟨row, hrow, hmem⟩ := List.mem_flatMap.mp hjoined
        obtain ⟨-, -, rfl⟩ := List.mem_map.mp hmem
        exact hrow
    rw [htables.lineage] at hlisted
    obtain ⟨row, hrow, hlisted⟩ := List.mem_flatMap.mp hlisted
    obtain ⟨snapshot, step, values, index, value, record, hdecode, hstep, hget, hvalue, hvalid,
      rfl⟩ := mem_rowLineage.mp hlisted
    refine ⟨row, hrow, ⟨row.id, index, row.runId, row.sourceId, snapshot.observedAtNs, some step,
      record⟩, ⟨⟨snapshot, step, values, value, hdecode, hstep, hget, hvalue, hvalid, rfl, rfl⟩,
      ⟨rfl, rfl, rfl⟩, hscope, (hlog record).mp haction, hname, ?_⟩, step, rfl, rfl⟩
    split at hjoined
    · rename_i hlatest
      exact Or.inl hlatest
    · obtain ⟨first, -, hmem⟩ := List.mem_flatMap.mp hjoined
      obtain ⟨other, hother, rfl⟩ := List.mem_map.mp hmem
      simp only [List.mem_filter, joins, Bool.and_eq_true, decide_eq_true_eq,
        htables.aliases] at hother
      obtain ⟨hother, ⟨⟨⟨hid, hindex⟩, -⟩, -⟩, halias⟩ := hother
      obtain ⟨row', hrow', hother⟩ := List.mem_flatMap.mp hother
      obtain ⟨snapshot', step', values', index', value', record', hdecode', -, hget', hvalue',
        hvalid', -, name, hname', rfl⟩ := mem_rowAliases.mp hother
      -- the alias comes from the same record
      obtain rfl := hids row' hrow' row hrow hid
      obtain rfl := Option.some.inj (hdecode.symm.trans hdecode')
      obtain rfl := Value.array.inj (Option.some.inj (hget.symm.trans hget'))
      obtain rfl := Nat.cast_injective hindex
      obtain rfl := Option.some.inj (hvalue.symm.trans hvalue')
      obtain rfl := Option.some.inj (hvalid.symm.trans hvalid')
      exact Or.inr (halias ▸ hname')
  · rintro ⟨row, hrow, artifact, hlogged, step, hstep, rfl⟩
    obtain ⟨snapshot, step', values, value, hdecode, hpointer, hget, hvalue, hvalid, hobserved,
      hstep'⟩ := hlogged.state
    obtain rfl := Option.some.inj (hstep.symm.trans hstep')
    obtain ⟨hid, hrun, hsource⟩ := hlogged.stored
    have hlisted : listedRow artifact step ∈ artifacts.lineage := by
      rw [htables.lineage]
      refine List.mem_flatMap.mpr ⟨row, hrow, mem_rowLineage.mpr ⟨snapshot, step, values,
        artifact.artifactIndex, value, artifact.record, hdecode, hpointer, hget, hvalue, hvalid, ?_⟩⟩
      rw [listedRow, hid, hrun, hsource, hobserved]
    refine ⟨?_, ⟨(hlog artifact.record).mpr hlogged.action, hlogged.name⟩, ?_⟩
    · split
      · exact hlisted
      · rename_i hnamed
        have hname := hlogged.aliasName.resolve_left hnamed
        refine List.mem_flatMap.mpr ⟨_, hlisted, List.mem_map.mpr
          ⟨⟨row.id, artifact.artifactIndex, row.runId, row.sourceId, artifact.record.name,
            request.aliasName⟩, List.mem_filter.mpr ⟨?_, ?_⟩, rfl⟩⟩
        · rw [htables.aliases]
          exact List.mem_flatMap.mpr ⟨row, hrow, mem_rowAliases.mpr ⟨snapshot, step, values,
            artifact.artifactIndex, value, artifact.record, hdecode, hpointer, hget, hvalue, hvalid,
            hlogged.action, request.aliasName, hname, rfl⟩⟩
        · simp [joins, listedRow, hid, hrun]
    · rw [listedRow, hrun, hsource]
      exact hlogged.scope

/-- A record of a stored state is read from its row. -/
theorem lineageRow_listedRow (hserde : serde.RoundTrip) (hrecords : RecordsRoundTrip records)
    {db : Database} (hdb : RowsValid db) {request : ArtifactResolveRequest} {row : SnapshotRow}
    (hrow : row ∈ db.snapshots) {artifact read : ArtifactLineageRecord}
    (hlogged : LoggedIn serde request row artifact) {step : ℤ} (hstep : artifact.step = some step)
    (hread : lineageRow records (listedRow artifact step) = .ok read) : read = artifact := by
  obtain ⟨snapshot, step', values, value, hdecode, -, hget, hvalue, hvalid, -, -⟩ := hlogged.state
  obtain ⟨written, hwritten⟩ := hdb.written row hrow
  obtain rfl := Option.some.inj ((hwritten.decode hserde).symm.trans hdecode)
  obtain ⟨hrecord, hvalidate⟩ := ArtifactIndex.validRecord_eq_some.mp hvalid
  have htext : records artifact.record.encode = some artifact.record :=
    hrecords written hwritten.valid values hget value (List.mem_of_getElem? hvalue) _ hrecord
      hvalidate
  unfold lineageRow listedRow at hread
  dsimp only at hread
  split at hread
  · rw [htext] at hread
    rw [← Except.ok.inj hread, Int.toNat_natCast, ← hstep]
  · simp [invalid] at hread

/-- An answer is the newest record of a stored tracker state that the request is about; and while a
state in its scope lists something that is no valid record, there is no answer. -/
theorem Store.resolve_newest (hserde : serde.RoundTrip) (hrecords : RecordsRoundTrip records)
    {store : Store} (hstore : store.Reachable serde) (hready : store.phase = .ready)
    (request : ArtifactResolveRequest) :
    (∀ response, resolve records request store.db = .ok response →
      (∃ row ∈ store.db.snapshots, LoggedIn serde request row response.artifact) ∧
      ∀ row ∈ store.db.snapshots, ∀ artifact, LoggedIn serde request row artifact →
        ArtifactLineageRecord.place artifact ≤ ArtifactLineageRecord.place response.artifact) ∧
    ((∃ row ∈ store.db.snapshots,
        inSelection request.runIds request.sourceIds row.runId row.sourceId = true ∧
          Malformed serde row) →
      ∃ error, resolve records request store.db = .error error) := by
  obtain ⟨artifacts, hsome, htables⟩ := hstore.tables hserde hready
  have hrows := hstore.consistent.rows
  have hlooked {listed : LineageRow} := @mem_resolveRows serde request store.db.snapshots artifacts
    htables (fun row hrow other hother ↦ hrows.eq_of_id hrow hother) listed
  constructor
  · intro response hresponse
    simp only [resolve, bind_eq_ok, exists_unit, hsome, reject_ok] at hresponse
    obtain ⟨-, -, hresponse⟩ := hresponse
    split at hresponse
    · simp [invalid] at hresponse
    · rename_i first rest hfirst
      obtain ⟨read, hread, hresponse⟩ := bind_eq_ok.mp hresponse
      obtain rfl := pure_eq_ok.mp hresponse
      have hmem : first ∈ resolveRows request artifacts := by
        rw [hfirst]
        exact List.mem_cons_self
      obtain ⟨row, hrow, artifact, hlogged, step, hstep, rfl⟩ := hlooked.mp hmem
      obtain rfl := lineageRow_listedRow hserde hrecords hrows hrow hlogged hstep hread
      refine ⟨⟨row, hrow, hlogged⟩, fun row' hrow' artifact' hlogged' ↦ ?_⟩
      obtain ⟨step', hstep'⟩ : ∃ step', artifact'.step = some step' := by
        obtain ⟨-, step', -, -, -, -, -, -, -, -, hstep'⟩ := hlogged'.state
        exact ⟨step', hstep'⟩
      have hother := hlooked.mpr ⟨row', hrow', artifact', hlogged', step', hstep', rfl⟩
      have hsorted : (resolveRows request artifacts).Pairwise fun row older ↦
          OrderDual.toDual row.place ≤ OrderDual.toDual older.place := pairwise_le_sortOn _ _
      have hle : (listedRow artifact' step').place ≤ (listedRow read step).place := by
        rw [hfirst] at hother hsorted
        rcases List.mem_cons.mp hother with hsame | hrest
        · rw [hsame]
        · exact OrderDual.toDual_le_toDual.mp ((List.pairwise_cons.mp hsorted).1 _ hrest)
      unfold LineageRow.place listedRow at hle
      unfold ArtifactLineageRecord.place
      rw [Prod.Lex.toLex_le_toLex] at hle ⊢
      rcases hle with hlt | ⟨heq, hindex⟩
      · exact Or.inl hlt
      · exact Or.inr ⟨heq, Int.ofNat_le.mp hindex⟩
  · rintro ⟨row, hrow, hscope, hmalformed⟩
    obtain ⟨exclusion, hexclusion, hrun, hsource⟩ := exists_exclusion hmalformed
    have hcount : 0 < artifacts.exclusions.countP fun row ↦
        inSelection request.runIds request.sourceIds row.runId row.sourceId := by
      refine List.countP_pos_iff.mpr ⟨exclusion, ?_, ?_⟩
      · rw [htables.exclusions]
        exact List.mem_flatMap.mpr ⟨row, hrow, hexclusion⟩
      · rw [hrun, hsource]
        exact hscope
    cases hresult : resolve records request store.db with
    | error error => exact ⟨error, rfl⟩
    | ok response =>
      simp only [resolve, bind_eq_ok, exists_unit, hsome, reject_ok, coverage, hcount.ne',
        decide_false, Bool.not_false, not_true_eq_false, false_and, and_false] at hresult

/-- The sample listing in a state that is no tracker state. -/
def sampleUntracked : Json :=
  .literal [("artifacts", .array [.literal [("action", .text "log"), ("digest", .text "e"),
    ("name", .text "model"), ("size", .int 0), ("type", .text "checkpoint"), ("uri", .text "u")]])]

def sampleResolvable : List StateSnapshot :=
  [sampleSnapshot 0 sampleListing, sampleSnapshot 1 sampleListing, sampleSnapshot 2 sampleUntracked]

/-- Two tracker states that list an artifact, and a later state that is none. -/
def sampleResolve : List Action :=
  openNew ++ [.ingestBatch [sampleDelivery 0 none sampleResolvable]]

def sampleLatest : ArtifactResolveRequest := ⟨["run-1"], [], "model", "latest"⟩

def sampleArtifact : ArtifactRecord := ⟨1, .log, "model", "checkpoint", "d", 0, "u", [], .null⟩

theorem sampleResolve_run :
    ∃ store, Store.init.run (.inverse sampleResolvable) sampleResolve = some store ∧
      store.phase = .ready ∧ store.db.snapshots.map SnapshotRow.id = [1, 2, 3] ∧
      resolve recordsInverse sampleLatest store.db =
        .ok ⟨⟨2, 0, "run-1", "trainer", 100, some 0, sampleArtifact⟩, ⟨true, 0⟩⟩ := by
  have hrun : (Store.init.run (.inverse sampleResolvable) sampleResolve).map (fun store ↦
      (store.phase, store.db.snapshots.map SnapshotRow.id,
        store.db.artifacts.map fun artifacts ↦
          (coverage artifacts sampleLatest.runIds sampleLatest.sourceIds,
            (resolveRows sampleLatest artifacts).take 1))) =
      some (.ready, [1, 2, 3], some (⟨true, 0⟩,
        [⟨2, 0, "run-1", "trainer", 100, 0, "log", "model", "d", sampleArtifact.encode⟩])) := by
    decide +kernel
  obtain ⟨store, hstore, hshown⟩ := Option.map_eq_some_iff.mp hrun
  simp only [Prod.mk.injEq] at hshown
  obtain ⟨hphase, hids, htables⟩ := hshown
  obtain ⟨artifacts, hsome, hlooked⟩ := Option.map_eq_some_iff.mp htables
  simp only [Prod.mk.injEq] at hlooked
  refine ⟨store, hstore, hphase, hids, ?_⟩
  have hcheck : checkResolve sampleLatest = .ok () := by decide +kernel
  cases hrows : resolveRows sampleLatest artifacts with
  | nil => simp [hrows] at hlooked
  | cons first rest =>
    have hfirst : first = ⟨2, 0, "run-1", "trainer", 100, 0, "log", "model", "d",
        sampleArtifact.encode⟩ := by simpa [hrows] using hlooked.2
    have hread : lineageRow recordsInverse first =
        .ok ⟨2, 0, "run-1", "trainer", 100, some 0, sampleArtifact⟩ := by
      rw [hfirst, lineageRow, if_pos (by decide), recordsInverse_encode]
      rfl
    simp only [resolve, hcheck, hsome, hlooked.1, bind, Except.bind, pure, Except.pure, reject,
      Bool.not_true, Bool.false_eq_true, if_false, hrows, hread]

theorem Store.resolve_newest_sample :
    ∃ (store : Store) (response : ArtifactResolveResponse),
      store.Reachable (.inverse sampleResolvable) ∧ store.phase = .ready ∧
      resolve recordsInverse sampleLatest store.db = .ok response ∧
      response.artifact.snapshotId = 2 ∧
      ∀ row ∈ store.db.snapshots, ∀ artifact,
        LoggedIn (.inverse sampleResolvable) sampleLatest row artifact →
          ArtifactLineageRecord.place artifact ≤ ArtifactLineageRecord.place response.artifact := by
  obtain ⟨store, hstore, hready, -, hresolve⟩ := sampleResolve_run
  have hnewest := (Store.resolve_newest (Serde.inverse_roundTrip _) recordsInverse_roundTrip
    ⟨sampleResolve, hstore⟩ hready sampleLatest).1 _ hresolve
  exact ⟨store, _, ⟨sampleResolve, hstore⟩, hready, hresolve, rfl, hnewest.2⟩

/-- A valid logged record of the name in a later state that is no tracker state is not looked at. -/
theorem Store.untracked_record_ignored :
    ∃ (store : Store) (response : ArtifactResolveResponse) (row : SnapshotRow)
      (snapshot : StateSnapshot) (value : Value) (record : ArtifactRecord),
      store.Reachable (.inverse sampleResolvable) ∧ store.phase = .ready ∧
      resolve recordsInverse sampleLatest store.db = .ok response ∧ row ∈ store.db.snapshots ∧
      response.artifact.snapshotId < row.id ∧
      inSelection sampleLatest.runIds sampleLatest.sourceIds row.runId row.sourceId = true ∧
      (Serde.inverse sampleResolvable).snapshot row.snapshotJson = some snapshot ∧
      snapshot.state.value.get? "artifacts" = some (.array [value]) ∧
      validRecord value = some record ∧ record.action = .log ∧ record.name = sampleLatest.name := by
  obtain ⟨store, hstore, hready, hids, hresolve⟩ := sampleResolve_run
  have hrow : ((Store.init.run (.inverse sampleResolvable) sampleResolve).bind fun store ↦
      store.db.snapshots[2]?).map (fun row ↦ (row.id, row.runId,
        row.snapshotJson)) = some (3, "run-1", (sampleSnapshot 2 sampleUntracked).encode) := by
    decide +kernel
  rw [hstore, Option.bind_some] at hrow
  obtain ⟨row, hget, hshown⟩ := Option.map_eq_some_iff.mp hrow
  simp only [Prod.mk.injEq] at hshown
  obtain ⟨hid, hrun, hjson⟩ := hshown
  have hlisted : ∃ value, sampleUntracked.value.get? "artifacts" = some (.array [value]) ∧
      (validRecord value).map (fun record ↦ (record.action, record.name)) =
        some (.log, "model") := ⟨_, rfl, by decide +kernel⟩
  obtain ⟨value, hvalue, hvalid⟩ := hlisted
  obtain ⟨record, hrecord, hnamed⟩ := Option.map_eq_some_iff.mp hvalid
  obtain ⟨haction, hname⟩ := Prod.mk.inj hnamed
  refine ⟨store, _, row, sampleSnapshot 2 sampleUntracked, value, record, ⟨sampleResolve, hstore⟩,
    hready, hresolve, List.mem_of_getElem? hget, ?_, ?_, ?_, hvalue, hrecord, haction, hname⟩
  · rw [hid]
    decide
  · simp [inSelection, sampleLatest, hrun]
  · rw [hjson]
    exact Serde.inverse_roundTrip _ _ (by decide +kernel)

end Rvx.Engine
