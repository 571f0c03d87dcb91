import Rvx.Engine.QuerySampling
import Rvx.Engine.QuerySelection

/-!
# Query soundness

A query that succeeds, and is allowed as many points as it selects, answers with the raw snapshots'
own numbers: where the index cannot tell a missing number from a skipped one it fails instead.
-/

namespace Rvx.Engine

open Core Check StableSort Database

variable {serde : Serde} {request : SnapshotQueryRequest} {chart : ChartIndex} {row : SnapshotRow}
  {snapshot : StateSnapshot} {rows scanned : List SnapshotRow}

/-! ## The loop over the series -/

/-- The points a series is drawn from. -/
def sampledPoints (request : SnapshotQueryRequest) (points : List Projected) (index : ℕ) :
    List Projected :=
  (samplePositions points.length (min points.length request.maxPoints) fun position ↦
    ((points[position]?).bind fun point ↦ point.values.getD index none).isNone).filterMap
      fun position ↦ points[position]?

section Series

variable (request : SnapshotQueryRequest) (known : OrderedMap (String ×ₗ String ×ₗ String) ℕ)
  (key : String ×ₗ String) (points : List Projected)

/-- The series of a source under a path, if the path is indexed for it. -/
def newSeries (entry : String × ℕ) : List SnapshotQuerySeries :=
  match known.get? (fieldKey (ofLex key).1 (ofLex key).2 entry.1) with
  | none => []
  | some _ => [seriesOf key entry.1 entry.2 (sampledPoints request points entry.2)]

/-- No point misses a number because it was skipped before its path was indexed. -/
def Unskipped (entry : String × ℕ) : Prop :=
  match known.get? (fieldKey (ofLex key).1 (ofLex key).2 entry.1) with
  | none => ∀ point ∈ points, point.excludes entry.1 = false
  | some first => ∀ point ∈ points, point.excludes entry.1 = true → point.id < first →
      point.values.getD entry.2 none ≠ none

end Series

variable {known : OrderedMap (String ×ₗ String ×ₗ String) ℕ} {key : String ×ₗ String}
  {points : List Projected}

theorem mem_newSeries {path : String} {index first : ℕ}
    (h : known.get? (fieldKey (ofLex key).1 (ofLex key).2 path) = some first) :
    seriesOf key path index (sampledPoints request points index) ∈
      newSeries request known key points (path, index) := by
  unfold newSeries
  dsimp only
  rw [h]
  exact List.mem_singleton_self _

theorem addSeries_ok {output output' : Output} {entry : String × ℕ}
    (h : addSeries request known key points output entry = .ok output') :
    output'.series = output.series ++ newSeries request known key points entry ∧
      Unskipped known key points entry := by
  obtain ⟨path, index⟩ := entry
  unfold addSeries at h
  unfold newSeries Unskipped
  dsimp only at h ⊢
  cases hknown : known.get? (fieldKey (ofLex key).1 (ofLex key).2 path) with
  | none =>
    simp only [hknown] at h
    split_ifs at h with hany
    · simp [invalid] at h
    · obtain rfl := Except.ok.inj h
      simp only [List.any_eq_true, not_exists, not_and, Bool.not_eq_true] at hany
      exact ⟨(List.append_nil _).symm, hany⟩
  | some first =>
    simp only [hknown] at h
    split_ifs at h with hany
    · simp [invalid] at h
    · simp only [bind_eq_ok, exists_unit, pure_eq_ok] at h
      obtain ⟨-, bytes, -, rfl⟩ := h
      refine ⟨rfl, fun point hpoint hexcludes hlt hnone ↦ hany ?_⟩
      refine List.any_eq_true.mpr ⟨point, hpoint, ?_⟩
      rw [hexcludes, decide_eq_true hlt, hnone]
      rfl

theorem addGroup_ok {output output' : Output} {group : (String ×ₗ String) × List Projected}
    (h : addGroup request known output group = .ok output') :
    output'.series = output.series ++ request.paths.zipIdx.flatMap
        (newSeries request known group.1 (sortOn Projected.order group.2)) ∧
      ∀ entry ∈ request.paths.zipIdx,
        Unskipped known group.1 (sortOn Projected.order group.2) entry :=
  @foldlM_appends _ _ _ _ (addSeries request known group.1 (sortOn Projected.order group.2))
    Output.series (newSeries request known group.1 (sortOn Projected.order group.2))
    (Unskipped known group.1 (sortOn Projected.order group.2)) addSeries_ok _ _ _ h

/-! ## What the columns show -/

/-- What the fields known to a query say about the index. -/
def Knows (request : SnapshotQueryRequest) (chart : ChartIndex)
    (known : OrderedMap (String ×ₗ String ×ₗ String) ℕ) : Prop :=
  ∀ run source path first, known.get? (fieldKey run source path) = some first ↔
    request.inScope run source = true ∧ path ∈ request.paths ∧
      ∃ field ∈ chart.fields, ChartIndex.fieldTable.key field = (run, source, path) ∧
        field.firstSnapshotId = first

theorem numberAt_eq_some (hdecode : serde.snapshot row.snapshotJson = some snapshot)
    {path : String} {number : Number} : numberAt serde path row = some number ↔
      snapshot.state.value.pointer path = some (.number number) := by
  rw [numberAt, hdecode, Option.bind_some, Option.bind_eq_some_iff]
  constructor
  · rintro ⟨value, hvalue, hnumber⟩
    cases value <;> simp_all [Value.asNumber?]
  · exact fun hvalue ↦ ⟨_, hvalue, rfl⟩

/-- The double of the number at a path. -/
def doubleAt (serde : Serde) (path : String) (row : SnapshotRow) : Option ℚ :=
  (numberAt serde path row).bind Number.asF64

theorem doubleAt_eq (hdecode : serde.snapshot row.snapshotJson = some snapshot) (path : String) :
    doubleAt serde path row = (snapshot.state.value.pointer path).bind Value.asF64 := by
  rw [doubleAt, numberAt, hdecode, Option.bind_some, Option.bind_assoc]
  rfl

/-- Where a path is known and nothing was skipped, a column shows the raw numbers. -/
theorem Shows.getD_values {axis : ℤ} {point : Projected}
    (h : Shows request chart row snapshot axis point)
    (hdecode : serde.snapshot row.snapshotJson = some snapshot)
    (hknows : Knows request chart known) {path : String} {index first : ℕ}
    (hindex : request.paths[index]? = some path)
    (hpath : validateSnapshotPointer path = .ok ())
    (hknown : known.get? (fieldKey row.runId row.sourceId path) = some first)
    (hunskipped : point.excludes path = true → point.id < first →
      point.values.getD index none ≠ none) :
    point.values.getD index none = doubleAt serde path row := by
  rw [doubleAt_eq hdecode]
  obtain ⟨-, -, field, hfield, hkey, hfirst⟩ := (hknows _ _ _ _).mp hknown
  apply Option.ext
  intro value
  rw [h.values index path hindex, and_iff_right_iff_imp]
  intro hvalue
  obtain ⟨child, hchild, hnumber⟩ := Option.bind_eq_some_iff.mp hvalue
  obtain ⟨number, hasNumber, -⟩ := Option.bind_eq_some_iff.mp hnumber
  have hpointer : snapshot.state.value.pointer path = some (.number number) := by
    cases child <;> simp_all [Value.asNumber?]
  refine (h.excluded path number hpath hpointer).elim (fun hindexes ↦ hindexes) fun hexcludes ↦ ?_
  -- a skipped number of a row that is not older than the field is indexed
  rcases lt_or_ge point.id first with hlt | hle
  · obtain ⟨shown, hshown⟩ := Option.ne_none_iff_exists'.mp (hunskipped hexcludes hlt)
    exact ((h.values index path hindex shown).mp hshown).1
  · exact ⟨field, hfield, hkey, by rw [hfirst, ← h.id]; exact hle⟩

/-- Where a path is not known and nothing was skipped, the raw snapshot has no number. -/
theorem Shows.numberAt_eq_none {axis : ℤ} {point : Projected}
    (h : Shows request chart row snapshot axis point)
    (hdecode : serde.snapshot row.snapshotJson = some snapshot)
    (hknows : Knows request chart known) {path : String} (hmem : path ∈ request.paths)
    (hscope : request.inScope row.runId row.sourceId = true)
    (hpath : validateSnapshotPointer path = .ok ())
    (hknown : known.get? (fieldKey row.runId row.sourceId path) = none)
    (hunskipped : point.excludes path = false) : numberAt serde path row = none := by
  rw [Option.eq_none_iff_forall_ne_some]
  intro number hnumber
  rcases h.excluded path number hpath ((numberAt_eq_some hdecode).mp hnumber) with hindexes | hskip
  · obtain ⟨field, hfield, hkey, -⟩ := hindexes
    have hsome := (hknows _ _ _ _).mpr ⟨hscope, hmem, field, hfield, hkey, rfl⟩
    rw [hknown] at hsome
    simp at hsome
  · rw [hunskipped] at hskip
    simp at hskip

/-! ## A projection that succeeds -/

theorem described_of_observation {db : Database} (hserde : serde.RoundTrip) (hdb : Consistent db)
    (hcontents : ChartContents serde db.snapshots chart) (hrow : row ∈ db.snapshots)
    (hkind : serde.isObservation row.snapshotJson = true) :
    ∃ snapshot, serde.snapshot row.snapshotJson = some snapshot ∧
      chart.Describes row snapshot := by
  obtain ⟨snapshot, hwritten⟩ := hdb.rows.written row hrow
  have hevent : snapshot.isEvent = false := by
    rw [hwritten.json, isObservation_encode hserde hwritten.valid] at hkind
    simpa using hkind
  exact ⟨snapshot, hwritten.decode hserde, hcontents.described row hrow snapshot hwritten hevent⟩

/-- The steps of a projection that succeeds. -/
theorem projection_steps {format : Formatting} {db : Database} {projected : QueryProjection}
    (hsome : db.chart = some chart) (h : projection serde format request db = .ok projected) :
    checkQuery request = .ok () ∧ ∃ ranges, rangesOf request chart = .ok ranges ∧
      ∃ scope, (scopedFields request chart).foldlM FieldScope.read
          ⟨OrderedMap.empty, OrderedMap.empty, 0⟩ = .ok scope ∧
        ∃ scan, ((scannedRows request chart ranges db).flatMap (joinRow request chart)).foldlM
            (Scan.read serde request) ⟨OrderedMap.empty, 0, scope.bytes, none⟩ = .ok scan ∧
          ⟨scope.known, scan.groups⟩ = projected := by
  unfold projection at h
  unfold rangesOf
  simp only [hsome, bind_eq_ok, exists_unit] at h
  obtain ⟨hcheck, hrest⟩ := h
  refine ⟨hcheck, ?_⟩
  split_ifs at hrest ⊢ <;> simp only [bind_eq_ok, exists_unit, pure_eq_ok] at hrest <;>
    obtain ⟨ranges, hranges, scope, hscope, -, scan, hscan, hprojected⟩ := hrest <;>
    exact ⟨ranges, hranges, scope, hscope, scan, hscan, hprojected⟩

/-- Only stored observations in scope are scanned. -/
theorem observation_of_selects (hserde : serde.RoundTrip) {db : Database} (hdb : Consistent db)
    (hchart : Complete (chartProjection serde) db.snapshots db.chart)
    (hsome : db.chart = some chart) {ranges : List ElapsedRange}
    (hrow : row ∈ db.snapshots.filter (request.selects chart ranges)) :
    row ∈ db.snapshots ∧ request.inScope row.runId row.sourceId = true ∧
      serde.isObservation row.snapshotJson = true := by
  obtain ⟨hstored, hselects⟩ := List.mem_filter.mp hrow
  simp only [SnapshotQueryRequest.selects, Bool.and_eq_true, List.any_eq_true,
    decide_eq_true_eq] at hselects
  obtain ⟨⟨hin, -⟩, observation, hobservation, hid⟩ := hselects
  have hindexed : row.id ∈ observationIds db := by
    rw [observationIds, hsome, Option.elim_some]
    exact List.mem_map.mpr ⟨observation, hobservation, hid⟩
  obtain ⟨other, hother, hsame, hkind⟩ := (mem_observationIds hserde hdb hchart).mp hindexed
  rw [hdb.rows.eq_of_id hother hstored hsame] at hkind
  exact ⟨hstored, hin, hkind⟩

theorem scanOrders_nodup (hids : (rows.map SnapshotRow.id).Nodup) :
    (rows.map scanOrder).Nodup := by
  rw [List.Nodup, List.pairwise_map] at hids ⊢
  refine hids.imp fun {row other} hne heq ↦ hne ?_
  simp only [scanOrder, EmbeddingLike.apply_eq_iff_eq, Prod.mk.injEq] at heq
  exact heq.2.2.2

/-- A projection that was not stopped by a budget has read all it selects. -/
theorem projection_ok (hserde : serde.RoundTrip) (hpaths : serde.PathsRoundTrip) {db : Database}
    (hdb : Consistent db) (hsome : db.chart = some chart)
    (hbuilt : (chartProjection serde).Built db.snapshots chart)
    {format : Formatting} {projected : QueryProjection}
    (h : projection serde format request db = .ok projected) :
    checkQuery request = .ok () ∧ ∃ scanned, Scanned serde request chart db.snapshots scanned ∧
      Knows request chart projected.known ∧
      ∀ key, (projected.groups.get? key).getD [] = Scan.pointsOf serde request chart key scanned := by
  have hcontents :=
    chartContents_of_built hserde hdb.rows.written hdb.rows.ids_ascending hbuilt
  obtain ⟨hcheck, ranges, hranges, scope, hscope, scan, hscan, rfl⟩ := projection_steps hsome h
  have hnodup : request.paths.Nodup := by
    simp only [checkQuery, bind_eq_ok, exists_unit, reject_ok, not_not] at hcheck
    exact hcheck.2.2.2.2.2.2.1
  have hids : (db.snapshots.map SnapshotRow.id).Nodup :=
    hdb.rows.ids_ascending.imp fun hlt ↦ hlt.ne
  have hsound : ∀ row ∈ scannedRows request chart ranges db, row ∈ db.snapshots ∧
      request.inScope row.runId row.sourceId = true ∧
        serde.isObservation row.snapshotJson = true := by
    intro row hrow
    exact observation_of_selects hserde hdb ⟨chart, hsome, hbuilt⟩ hsome
      (mem_sortOn.mp (List.mem_of_mem_take hrow))
  have hjoined : ∀ row ∈ scannedRows request chart ranges db,
      (joinObservation request chart row).isSome = true := by
    intro row hrow
    obtain ⟨hstored, -, hkind⟩ := hsound row hrow
    obtain ⟨snapshot, -, hdescribes⟩ :=
      described_of_observation hserde hdb hcontents hstored hkind
    obtain ⟨joined, heq, -⟩ :=
      @joinObservation_of_contents _ request _ _ _ _ hcontents hstored hkind hdescribes
    rw [heq]
    rfl
  have hscanned : ((scannedRows request chart ranges db).map SnapshotRow.id).Nodup := by
    have hsorted : ((sortOn scanOrder (db.snapshots.filter
        (request.selects chart ranges))).map SnapshotRow.id).Nodup :=
      ((perm_sortOn _ _).map _).nodup_iff.mpr (hids.sublist (List.filter_sublist.map _))
    exact hsorted.sublist ((List.take_sublist _ _).map _)
  have htracks := Scan.tracks_of_read hjoined hscanned hscan
  have hall : scannedRows request chart ranges db =
      sortOn scanOrder (db.snapshots.filter (request.selects chart ranges)) := by
    have hlength := htracks.count ▸ htracks.bounded
    exact take_eq_of_length_le hlength
  refine ⟨hcheck, scannedRows request chart ranges db, ⟨?_, ?_, ?_, ?_⟩, ?_, htracks.group⟩
  · rw [hall]
    apply ordered_sortOn
    exact (scanOrders_nodup hids).sublist (List.filter_sublist.map _)
  · intro row hrow
    obtain ⟨hstored, -, hkind, -⟩ := mem_selectedRows.mp hrow
    obtain ⟨snapshot, hdecode, hdescribes⟩ :=
      described_of_observation hserde hdb hcontents hstored hkind
    rw [hall, mem_sortOn, List.mem_filter]
    exact ⟨hstored, selects_of_selected hcontents hranges hdecode hdescribes hrow⟩
  · exact hsound
  · intro row hrow
    obtain ⟨hstored, -, hkind⟩ := hsound row hrow
    obtain ⟨snapshot, hdecode, hdescribes⟩ :=
      described_of_observation hserde hdb hcontents hstored hkind
    exact ⟨snapshot, hdecode, pointOf_shows hpaths hcontents hstored hkind hdecode hdescribes hnodup
      fun joined heq ↦ axisValue_of_scan hscan hrow heq⟩
  · exact known_iff hcontents.fields_nodup hscope

/-! ## Soundness -/

/-- The series of a source under a path, read off some of its raw snapshots. -/
def seriesAlong (serde : Serde) (request : SnapshotQueryRequest) (rows : List SnapshotRow)
    (run source path : String) (kept : List SnapshotRow) : SnapshotQuerySeries where
  runId := run
  sourceId := source
  path := path
  snapshotIds := kept.map SnapshotRow.id
  sourceSessionIds := kept.map SnapshotRow.sourceSessionId
  sequences := kept.map SnapshotRow.sequence
  axes := kept.map fun row ↦ (request.axisOf serde rows row).getD 0
  observedAtNs := kept.map SnapshotRow.observedAtNs
  values := kept.map (doubleAt serde path)

/-- The observations a series of some observations is sampled at. -/
def sampleRows (serde : Serde) (request : SnapshotQueryRequest) (path : String)
    (full : List SnapshotRow) : List SnapshotRow :=
  pick full (samplePositions full.length (min request.maxPoints full.length) fun position ↦
    ((full[position]?).bind (doubleAt serde path)).isNone)

theorem sampleRows_sublist (serde : Serde) (request : SnapshotQueryRequest) (path : String)
    (full : List SnapshotRow) : (sampleRows serde request path full).Sublist full := by
  rcases Nat.eq_zero_or_pos (min request.maxPoints full.length) with hzero | hpos
  · rw [sampleRows, hzero]
    exact List.nil_sublist _
  · have hspec := (samplePositions_spec hpos (min_le_right request.maxPoints full.length) fun
      position ↦ ((full[position]?).bind (doubleAt serde path)).isNone).1
    exact pick_sublist hspec.ascending
      (hspec.lt (hpos.trans_le (min_le_right request.maxPoints full.length)))

/-- Points are sampled where their observations are. -/
theorem sampledPoints_map {path : String} {index : ℕ} {shown : SnapshotRow → Projected}
    {full : List SnapshotRow}
    (hvalues : ∀ row ∈ full, (shown row).values.getD index none = doubleAt serde path row) :
    sampledPoints request (full.map shown) index =
      (sampleRows serde request path full).map shown := by
  have hmissing : (fun position : ℕ ↦ (((full.map shown)[position]?).bind fun point : Projected ↦
        point.values.getD index none).isNone) =
      fun position : ℕ ↦ ((full[position]?).bind (doubleAt serde path)).isNone := by
    funext position
    rw [List.getElem?_map]
    cases hrow : full[position]? with
    | none => rfl
    | some row =>
      rw [Option.map_some, Option.bind_some, Option.bind_some,
        hvalues row (List.mem_of_getElem? hrow)]
  rw [sampledPoints, hmissing, List.length_map, min_comm, sampleRows]
  exact pick_map shown full _

/-- The column of a source under a path shows the raw numbers. -/
theorem Scanned.values_eq (h : Scanned serde request chart rows scanned)
    (hknows : Knows request chart known) {run source path : String} {index first : ℕ}
    (hindex : request.paths[index]? = some path) (hpath : validateSnapshotPointer path = .ok ())
    (hknown : known.get? (fieldKey run source path) = some first)
    (hunskipped : ∀ point ∈ (sourceRows serde request rows run source).map
        (shownPoint serde request chart),
      point.excludes path = true → point.id < first → point.values.getD index none ≠ none) :
    ∀ row ∈ sourceRows serde request rows run source,
      (shownPoint serde request chart row).values.getD index none = doubleAt serde path row := by
  intro row hrow
  obtain ⟨hselected, rfl, rfl⟩ := mem_sourceRows.mp hrow
  obtain ⟨-, snapshot, hdecode, hshows⟩ := h.shown hselected
  exact hshows.getD_values hdecode hknows hindex hpath hknown
    (hunskipped _ (List.mem_map_of_mem hrow))

/-- A series drawn from some points of a source is the one of their raw snapshots. -/
theorem Scanned.seriesOf_eq (h : Scanned serde request chart rows scanned)
    {run source path : String} {index : ℕ} {kept : List SnapshotRow}
    (hkept : kept ⊆ sourceRows serde request rows run source)
    (hvalues : ∀ row ∈ sourceRows serde request rows run source,
      (shownPoint serde request chart row).values.getD index none = doubleAt serde path row) :
    seriesOf (toLex (run, source)) path index (kept.map (shownPoint serde request chart)) =
      seriesAlong serde request rows run source path kept := by
  have hmap {α : Type} {column : Projected → α} {value : SnapshotRow → α}
      (hsame : ∀ row snapshot, Shows request chart row snapshot
          ((request.axisOf serde rows row).getD 0) (shownPoint serde request chart row) →
        column (shownPoint serde request chart row) = value row) :
      (kept.map (shownPoint serde request chart)).map column = kept.map value := by
    rw [List.map_map]
    apply List.map_congr_left
    intro row hrow
    obtain ⟨-, snapshot, -, hshows⟩ := h.shown (mem_sourceRows.mp (hkept hrow)).1
    exact hsame row snapshot hshows
  rw [seriesOf, seriesAlong, SnapshotQuerySeries.mk.injEq]
  refine ⟨rfl, rfl, rfl, hmap fun _ _ hshows ↦ hshows.id, hmap fun _ _ hshows ↦ hshows.session,
    hmap fun _ _ hshows ↦ hshows.sequence, hmap fun _ _ hshows ↦ hshows.axis,
    hmap fun _ _ hshows ↦ hshows.observed, ?_⟩
  rw [List.map_map]
  exact List.map_congr_left fun row hrow ↦ hvalues row (hkept hrow)

/-- A double is missing exactly where the raw snapshot has no number. -/
theorem doubleAt_eq_none {db : Database} (hserde : serde.RoundTrip) (hdb : Consistent db)
    (hrow : row ∈ db.snapshots) (path : String) :
    doubleAt serde path row = none ↔ numberAt serde path row = none := by
  obtain ⟨snapshot, hwritten⟩ := hdb.rows.written row hrow
  have hdecode := hwritten.decode hserde
  cases hnumber : numberAt serde path row with
  | none => simp [doubleAt, hnumber]
  | some number =>
    cases hwritten.valid.finite.pointer ((numberAt_eq_some hdecode).mp hnumber) with
    | number hfinite =>
      obtain ⟨double, hdouble⟩ := Option.isSome_iff_exists.mp hfinite
      simp [doubleAt, hnumber, hdouble]

/-- What lies behind an answer: the rows its projection scanned, the fields it knows, the points of
each source, and that no series is drawn over a skipped number. -/
structure Drawn (serde : Serde) (request : SnapshotQueryRequest) (chart : ChartIndex)
    (rows scanned : List SnapshotRow) (projected : QueryProjection) : Prop where
  scan : Scanned serde request chart rows scanned
  knows : Knows request chart projected.known
  grouped : ∀ key, (projected.groups.get? key).getD [] = Scan.pointsOf serde request chart key scanned
  pointers : ∀ path ∈ request.paths, validateSnapshotPointer path = .ok ()
  unskipped : ∀ group ∈ projected.groups.entries, ∀ entry ∈ request.paths.zipIdx,
    Unskipped projected.known group.1 (sortOn Projected.order group.2) entry

/-- The series of an answer, group by group and path by path. -/
def QueryProjection.series (request : SnapshotQueryRequest) (projected : QueryProjection) :
    List SnapshotQuerySeries :=
  projected.groups.entries.flatMap fun group ↦ request.paths.zipIdx.flatMap
    (newSeries request projected.known group.1 (sortOn Projected.order group.2))

theorem queryPage_drawn (hserde : serde.RoundTrip) (hpaths : serde.PathsRoundTrip) {db : Database}
    (hdb : Consistent db) (hsome : db.chart = some chart)
    (hbuilt : (chartProjection serde).Built db.snapshots chart)
    {format : Formatting} {response : SnapshotQueryResponse}
    (h : queryPage serde format request db = .ok response) :
    checkQuery request = .ok () ∧ ∃ scanned projected,
      Drawn serde request chart db.snapshots scanned projected ∧
      response.series = projected.series request := by
  unfold queryPage at h
  simp only [bind_eq_ok, exists_unit, reject_ok, pure_eq_ok] at h
  obtain ⟨projected, hprojected, output, houtput, -, rfl⟩ := h
  obtain ⟨hcheck, scanned, hscanned, hknows, hgroups⟩ :=
    projection_ok hserde hpaths hdb hsome hbuilt hprojected
  have hpointers : ∀ path ∈ request.paths, validateSnapshotPointer path = .ok () := by
    simp only [checkQuery, bind_eq_ok, exists_unit, forM_eq_ok, mapError_eq_ok] at hcheck
    exact hcheck.2.2.2.2.2.1
  obtain ⟨hseries, hunskipped⟩ := @foldlM_appends _ _ _ _ (addGroup request projected.known)
    Output.series (fun group ↦ request.paths.zipIdx.flatMap
      (newSeries request projected.known group.1 (sortOn Projected.order group.2)))
    (fun group ↦ ∀ entry ∈ request.paths.zipIdx,
      Unskipped projected.known group.1 (sortOn Projected.order group.2) entry)
    addGroup_ok _ _ _ houtput
  exact ⟨hcheck, scanned, projected, ⟨hscanned, hknows, hgroups, hpointers, hunskipped⟩, hseries⟩

namespace Drawn

variable {projected : QueryProjection}

theorem points_eq (h : Drawn serde request chart rows scanned projected)
    {key : String ×ₗ String} {points : List Projected}
    (hgroup : (key, points) ∈ projected.groups.entries) :
    points = Scan.pointsOf serde request chart key scanned := by
  rw [← h.grouped key, OrderedMap.get?_eq_some.mpr hgroup, Option.getD_some]

/-- A source with a selected observation has a group. -/
theorem exists_group (h : Drawn serde request chart rows scanned projected)
    (hrow : row ∈ selectedRows serde request rows) :
    (toLex (row.runId, row.sourceId),
      Scan.pointsOf serde request chart (toLex (row.runId, row.sourceId)) scanned) ∈
        projected.groups.entries ∧
    shownPoint serde request chart row ∈
      Scan.pointsOf serde request chart (toLex (row.runId, row.sourceId)) scanned := by
  have hpoint : shownPoint serde request chart row ∈
      Scan.pointsOf serde request chart (toLex (row.runId, row.sourceId)) scanned := by
    refine List.mem_filterMap.mpr ⟨row, List.mem_filter.mpr ?_, (h.scan.shown hrow).1⟩
    exact ⟨h.scan.complete row hrow, decide_eq_true rfl⟩
  refine ⟨?_, hpoint⟩
  cases hget : projected.groups.get? (toLex (row.runId, row.sourceId)) with
  | none =>
    rw [← h.grouped, hget] at hpoint
    simp at hpoint
  | some points =>
    have hgroup := OrderedMap.get?_eq_some.mp hget
    rwa [h.points_eq hgroup] at hgroup

/-- A series is the one of the sampled raw snapshots of its source. -/
theorem series_sampled (h : Drawn serde request chart rows scanned projected)
    (hids : (rows.map SnapshotRow.id).Nodup) {series : SnapshotQuerySeries}
    (hseries : series ∈ projected.series request) :
    series.path ∈ request.paths ∧
      series = seriesAlong serde request rows series.runId series.sourceId series.path
        (sampleRows serde request series.path
          (sourceRows serde request rows series.runId series.sourceId)) := by
  obtain ⟨⟨key, points⟩, hgroup, hseries⟩ := List.mem_flatMap.mp hseries
  obtain ⟨⟨path, index⟩, hentry, hmem⟩ := List.mem_flatMap.mp hseries
  have hindex := List.mem_zipIdx_iff_getElem?.mp hentry
  have hpath := List.mem_of_getElem? hindex
  have hunskipped := h.unskipped _ hgroup _ hentry
  obtain ⟨run, source, rfl⟩ : ∃ run source, key = toLex (run, source) := ⟨_, _, rfl⟩
  obtain rfl := h.points_eq hgroup
  unfold newSeries at hmem
  unfold Unskipped at hunskipped
  dsimp only [ofLex_toLex] at hmem hunskipped
  cases hknown : projected.known.get? (fieldKey run source path) with
  | none => simp [hknown] at hmem
  | some first =>
    rw [hknown, h.scan.points hids] at hmem hunskipped
    have hvalues :=
      h.scan.values_eq h.knows hindex (h.pointers path hpath) hknown hunskipped
    rw [List.mem_singleton, sampledPoints_map hvalues,
      h.scan.seriesOf_eq (sampleRows_sublist _ _ _ _).subset hvalues] at hmem
    subst hmem
    exact ⟨hpath, rfl⟩

/-- A source without a series under a path has no number there. -/
theorem numberAt_eq_none (h : Drawn serde request chart rows scanned projected)
    (hrow : row ∈ selectedRows serde request rows) {path : String}
    (hpath : path ∈ request.paths)
    (hnone : ∀ series ∈ projected.series request, ¬ (series.runId = row.runId ∧
      series.sourceId = row.sourceId ∧ series.path = path)) :
    numberAt serde path row = none := by
  obtain ⟨hgroup, hpoint⟩ := h.exists_group hrow
  obtain ⟨index, hindex⟩ := List.mem_iff_getElem?.mp hpath
  have hentry : (path, index) ∈ request.paths.zipIdx := List.mem_zipIdx_iff_getElem?.mpr hindex
  have hunskipped := h.unskipped _ hgroup _ hentry
  unfold Unskipped at hunskipped
  dsimp only [ofLex_toLex] at hunskipped
  cases hknown : projected.known.get? (fieldKey row.runId row.sourceId path) with
  | some first =>
    have hnew := @mem_newSeries request projected.known (toLex (row.runId, row.sourceId))
      (sortOn Projected.order (Scan.pointsOf serde request chart
        (toLex (row.runId, row.sourceId)) scanned)) path index first hknown
    refine absurd ?_ (hnone _ (List.mem_flatMap.mpr ⟨_, hgroup,
      List.mem_flatMap.mpr ⟨_, hentry, hnew⟩⟩))
    exact ⟨rfl, rfl, rfl⟩
  | none =>
    rw [hknown] at hunskipped
    obtain ⟨-, snapshot, hdecode, hshows⟩ := h.scan.shown hrow
    exact hshows.numberAt_eq_none hdecode h.knows hpath (mem_selectedRows.mp hrow).2.1
      (h.pointers path hpath) hknown (hunskipped _ (mem_sortOn.mpr hpoint))

end Drawn

/-- A state with one number. -/
def sampleLoss : Json := .literal [("loss", .int 3)]

/-- A session whose second snapshot has no loss. -/
def sampleLosses : List StateSnapshot := [sampleSnapshot 0 sampleLoss, sampleSnapshot 1 sampleState]

def sampleQuery : SnapshotQueryRequest := ⟨["run-1"], ["/loss"], [], "wall_time", none, none, 10⟩

def sampleFormatting : Formatting := ⟨fun text ↦ text, fun _ ↦ 0⟩

def sampleIngested : List Action := openNew ++ [.ingestBatch [sampleDelivery 0 none sampleLosses]]

end Rvx.Engine
