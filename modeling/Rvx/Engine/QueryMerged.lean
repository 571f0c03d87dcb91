import Rvx.Engine.QueryWindows
import Rvx.Lib.Sampling

/-!
# The series of a partitioned query

Every window contributes a sample of its own observations.  Merged in the order of the axis they
are a sample of all selected observations, and sampling once more keeps it one.
-/

namespace Rvx.Engine

open Core Check StableSort

variable {serde : Serde} {format : Formatting} {request : SnapshotQueryRequest}
  {chart : ChartIndex} {row : SnapshotRow} {rows full kept : List SnapshotRow} {db : Database}
  {run source path : String}

/-! ## Sampling observations -/

section Sampling

variable {κ : Type} [LinearOrder κ] {key : SnapshotRow → κ}

theorem length_sampleRows : (sampleRows serde request path full).length =
    min request.maxPoints full.length := by
  rcases Nat.eq_zero_or_pos (min request.maxPoints full.length) with hzero | hpos
  · rw [sampleRows, hzero]
    rfl
  · obtain ⟨hpositions, hlength, -⟩ :=
      samplePositions_spec hpos (min_le_right request.maxPoints full.length) fun position ↦
        ((full[position]?).bind (doubleAt serde path)).isNone
    have hbound := hpositions.lt (hpos.trans_le (min_le_right request.maxPoints full.length))
    rw [sampleRows, length_pick hbound, hlength]

theorem missing_iff (serde : Serde) (path : String) (full : List SnapshotRow) :
    ∀ (position : ℕ) (row : SnapshotRow), full[position]? = some row →
      (((full[position]?).bind (doubleAt serde path)).isNone = true ↔
        doubleAt serde path row = none) := by
  intro position row hrow
  rw [hrow, Option.bind_some, Option.isNone_iff_eq_none]

/-- The observations of a series are a sample, with a number missing as the gap. -/
theorem sample_sampleRows (hordered : Ordered key full) (hpos : 0 < request.maxPoints) :
    Sample key (fun row ↦ doubleAt serde path row = none) full
      (sampleRows serde request path full) := by
  rcases Nat.eq_zero_or_pos full.length with hempty | hfull
  · obtain rfl := List.length_eq_zero_iff.mp hempty
    rw [List.sublist_nil.mp (sampleRows_sublist serde request path [])]
    exact Sample.nil
  · exact sample_pick hordered (missing_iff serde path full) (lt_min hpos hfull) (min_le_right _ _)

theorem leading_sampleRows (hordered : Ordered key full) (htwo : 2 ≤ request.maxPoints) :
    Leading key (fun row ↦ doubleAt serde path row = none) full
      (sampleRows serde request path full) := by
  rcases Nat.eq_zero_or_pos full.length with hempty | hfull
  · obtain rfl := List.length_eq_zero_iff.mp hempty
    intro first _ _ item hitem
    simp at hitem
  · refine leading_pick hordered (missing_iff serde path full) (lt_min (by omega) hfull)
      (min_le_right _ _) ?_
    omega

end Sampling

/-! ## Columns -/

theorem seriesAlong_extend (kept' : List SnapshotRow) :
    (seriesAlong serde request rows run source path kept).extend
        (seriesAlong serde request rows run source path kept') =
      seriesAlong serde request rows run source path (kept ++ kept') := by
  simp [SnapshotQuerySeries.extend, seriesAlong]

theorem atPositions_map {α : Type} (f : SnapshotRow → α) (positions : List ℕ) :
    atPositions positions (kept.map f) = (pick kept positions).map f := pick_map f kept positions

theorem seriesAlong_positions :
    (seriesAlong serde request rows run source path kept).positions request =
      samplePositions kept.length (min request.maxPoints kept.length) fun position ↦
        ((kept[position]?).bind (doubleAt serde path)).isNone := by
  have hmissing : (fun index ↦ ((kept.map (doubleAt serde path)).getD index none).isNone) =
      fun position : ℕ ↦ ((kept[position]?).bind (doubleAt serde path)).isNone := by
    funext position
    rw [List.getD_eq_getElem?_getD, List.getElem?_map]
    cases kept[position]? <;> rfl
  rw [SnapshotQuerySeries.positions, ← hmissing]
  simp [seriesAlong]

/-- Sampling the columns is sampling the observations they show. -/
theorem seriesAlong_sampled :
    (seriesAlong serde request rows run source path kept).sampled request =
      seriesAlong serde request rows run source path (sampleRows serde request path kept) := by
  rw [SnapshotQuerySeries.sampled, seriesAlong_positions, sampleRows]
  simp only [seriesAlong, atPositions_map]

/-! ## The answer of a page -/

theorem fieldKey_inj {run' source' path' : String} :
    fieldKey run source path = fieldKey run' source' path' ↔
      run = run' ∧ source = source' ∧ path = path' := by
  simp [fieldKey]

/-- The path is requested and indexed for the source. -/
def Indexed (request : SnapshotQueryRequest) (chart : ChartIndex) (run source path : String) : Prop :=
  request.inScope run source = true ∧ path ∈ request.paths ∧
    ∃ field ∈ chart.fields, ChartIndex.fieldTable.key field = (run, source, path)

/-- What the series of a page are. -/
structure PageSeries (serde : Serde) (request : SnapshotQueryRequest) (chart : ChartIndex)
    (rows : List SnapshotRow) (series : List SnapshotQuerySeries) : Prop where
  nodup : (series.map SnapshotQuerySeries.key).Nodup
  drawn : ∀ part ∈ series, Indexed request chart part.runId part.sourceId part.path ∧
    part = seriesAlong serde request rows part.runId part.sourceId part.path
      (sampleRows serde request part.path (sourceRows serde request rows part.runId part.sourceId))
  missed : ∀ run source path, Indexed request chart run source path →
    fieldKey run source path ∉ series.map SnapshotQuerySeries.key →
      sourceRows serde request rows run source = []

theorem QueryProjection.nodup_keys (projected : QueryProjection) (hpaths : request.paths.Nodup) :
    ((projected.series request).map SnapshotQuerySeries.key).Nodup := by
  have hpairs : ((projected.series request).map SnapshotQuerySeries.key).Sublist
      (projected.groups.entries.flatMap fun group ↦ request.paths.map fun path ↦
        fieldKey (ofLex group.1).1 (ofLex group.1).2 path) := by
    rw [QueryProjection.series, List.map_flatMap]
    refine List.Sublist.flatMap_right _ fun group _ ↦ ?_
    have hzip : (request.paths.map fun path ↦ fieldKey (ofLex group.1).1 (ofLex group.1).2 path) =
        request.paths.zipIdx.flatMap fun entry ↦
          [fieldKey (ofLex group.1).1 (ofLex group.1).2 entry.1] := by
      rw [← List.map_eq_flatMap]
      conv_lhs => rw [← List.zipIdx_map_fst 0 request.paths, List.map_map]
      rfl
    rw [List.map_flatMap, hzip]
    refine List.Sublist.flatMap_right _ fun entry _ ↦ ?_
    unfold newSeries
    split
    · exact List.nil_sublist _
    · exact List.Sublist.refl _
  refine hpairs.nodup (List.nodup_flatMap.mpr ⟨fun group _ ↦ ?_, ?_⟩)
  · exact hpaths.map fun path path' heq ↦ (fieldKey_inj.mp heq).2.2
  · have hkeys : (projected.groups.entries.map Prod.fst).Nodup := projected.groups.nodup_keys
    rw [List.Nodup, List.pairwise_map] at hkeys
    refine hkeys.imp fun {group other} hne key hkey hother ↦ hne ?_
    obtain ⟨path, -, rfl⟩ := List.mem_map.mp hkey
    obtain ⟨path', -, heq⟩ := List.mem_map.mp hother
    obtain ⟨hrun, hsource, -⟩ := fieldKey_inj.mp heq
    exact ofLex_inj.mp (Prod.ext hrun.symm hsource.symm)

namespace Drawn

variable {scanned : List SnapshotRow} {projected : QueryProjection}

theorem pageSeries (h : Drawn serde request chart rows scanned projected)
    (hids : (rows.map SnapshotRow.id).Nodup) (hpaths : request.paths.Nodup) :
    PageSeries serde request chart rows (projected.series request) := by
  refine ⟨projected.nodup_keys hpaths, fun part hpart ↦ ⟨?_, (h.series_sampled hids hpart).2⟩,
    fun run source path hindexed hfresh ↦ ?_⟩
  · obtain ⟨group, -, hpart⟩ := List.mem_flatMap.mp hpart
    obtain ⟨entry, -, hpart⟩ := List.mem_flatMap.mp hpart
    unfold newSeries at hpart
    cases hknown : projected.known.get?
        (fieldKey (ofLex group.1).1 (ofLex group.1).2 entry.1) with
    | none => simp [hknown] at hpart
    | some first =>
      rw [hknown, List.mem_singleton] at hpart
      obtain ⟨hscope, hpath, field, hfield, hkey, -⟩ := (h.knows _ _ _ _).mp hknown
      subst hpart
      exact ⟨hscope, hpath, field, hfield, hkey⟩
  · obtain ⟨hscope, hpath, field, hfield, hkey⟩ := hindexed
    have hknown := (h.knows run source path field.firstSnapshotId).mpr
      ⟨hscope, hpath, field, hfield, hkey, rfl⟩
    rw [List.eq_nil_iff_forall_not_mem]
    intro row hrow
    obtain ⟨hselected, rfl, rfl⟩ := mem_sourceRows.mp hrow
    obtain ⟨hgroup, -⟩ := h.exists_group hselected
    obtain ⟨index, hindex⟩ := List.mem_iff_getElem?.mp hpath
    have hnew := @mem_newSeries request projected.known (toLex (row.runId, row.sourceId))
      (sortOn Projected.order (Scan.pointsOf serde request chart
        (toLex (row.runId, row.sourceId)) scanned)) path index _ hknown
    have hmem : _ ∈ projected.series request := List.mem_flatMap.mpr ⟨_, hgroup,
      List.mem_flatMap.mpr ⟨_, List.mem_zipIdx_iff_getElem?.mpr hindex, hnew⟩⟩
    exact hfresh (List.mem_map_of_mem hmem)

end Drawn

/-- The answer of a page. -/
theorem queryPage_series (hserde : serde.RoundTrip) (hpaths : serde.PathsRoundTrip)
    (hdb : Consistent db) (hsome : db.chart = some chart)
    (hbuilt : (chartProjection serde).Built db.snapshots chart)
    {response : SnapshotQueryResponse} (h : queryPage serde format request db = .ok response) :
    0 < request.maxPoints ∧ PageSeries serde request chart db.snapshots response.series := by
  obtain ⟨hcheck, scanned, projected, hdrawn, hseries⟩ :=
    queryPage_drawn hserde hpaths hdb hsome hbuilt h
  have hids : (db.snapshots.map SnapshotRow.id).Nodup :=
    hdb.rows.ids_ascending.imp fun hlt ↦ hlt.ne
  simp only [checkQuery, bind_eq_ok, exists_unit, reject_ok, not_not] at hcheck
  rw [hseries]
  exact ⟨by omega, hdrawn.pageSeries hids hcheck.2.2.2.2.2.2.1⟩

/-! ## Merging the answers -/

/-- The series of a key after a part with that key. -/
def mergePart (old : Option SnapshotQuerySeries) (part : SnapshotQuerySeries) :
    SnapshotQuerySeries := (old.map fun old ↦ old.extend part).getD part

/-- The loop over the series of a window inserts them one after another. -/
theorem addPage_ok {response : SnapshotQueryResponse} {merged merged' : Merged}
    (h : merged.addPage format response = .ok merged') :
    merged'.series = (response.series.map fun part ↦ (part.key, part)).foldl
      (fun map entry ↦ map.insert entry.1 (mergePart (map.get? entry.1) entry.2))
      merged.series := by
  have hfold : ∀ (parts : List SnapshotQuerySeries) (start stop : Merged),
      parts.foldlM Merged.addPart start = .ok stop →
        stop.series = (parts.map fun part ↦ (part.key, part)).foldl
          (fun map entry ↦ map.insert entry.1 (mergePart (map.get? entry.1) entry.2))
          start.series := by
    intro parts start stop hparts
    induction parts generalizing start with
    | nil =>
      obtain rfl : start = stop := by simpa using hparts
      rfl
    | cons part rest ih =>
      obtain ⟨middle, hpart, hrest⟩ := foldlM_cons_eq_ok.mp hparts
      unfold Merged.addPart at hpart
      simp only [bind_eq_ok, exists_unit, pure_eq_ok] at hpart
      obtain ⟨-, rfl⟩ := hpart
      rw [ih _ hrest]
      rfl
  have hseries := hfold response.series _ merged' h
  exact hseries

/-- The observations of a source that the answer of a window shows under a path. -/
def windowRows (serde : Serde) (request : SnapshotQueryRequest) (rows : List SnapshotRow)
    (span : ℤ) (run source path : String) (window : ℤ × ℤ) : List SnapshotRow :=
  sampleRows serde (request.window span window) path
    (sourceRows serde (request.window span window) rows run source)

/-- The series merged from some windows. -/
structure Merges (serde : Serde) (request : SnapshotQueryRequest) (chart : ChartIndex)
    (rows : List SnapshotRow) (span : ℤ) (windows : List (ℤ × ℤ))
    (series : OrderedMap (String ×ₗ String ×ₗ String) SnapshotQuerySeries) : Prop where
  drawn : ∀ run source path item, series.get? (fieldKey run source path) = some item →
    Indexed request chart run source path ∧ item = seriesAlong serde request rows run source path
      (windows.flatMap (windowRows serde request rows span run source path))
  missed : ∀ run source path, series.get? (fieldKey run source path) = none →
    Indexed request chart run source path →
      windows.flatMap (windowRows serde request rows span run source path) = []

namespace Merges

variable {span : ℤ} {windows : List (ℤ × ℤ)} {merged merged' : Merged}

theorem empty : Merges serde request chart rows span [] Merged.empty.series :=
  ⟨fun _ _ _ _ h ↦ by simp [Merged.empty] at h, fun _ _ _ _ _ ↦ rfl⟩

/-- One more window. -/
theorem addPage (h : Merges serde request chart rows span windows merged.series) {window : ℤ × ℤ}
    {response : SnapshotQueryResponse}
    (hpage : PageSeries serde (request.window span window) chart rows response.series)
    (hadd : merged.addPage format response = .ok merged') :
    Merges serde request chart rows span (windows ++ [window]) merged'.series := by
  have hnodup : ((response.series.map fun part ↦ (part.key, part)).map Prod.fst).Nodup := by
    rw [List.map_map]
    exact hpage.nodup
  have hget (run source path : String) := OrderedMap.get?_foldl_insert mergePart hnodup
    merged.series (fieldKey run source path)
  rw [← addPage_ok hadd] at hget
  have hsplit (run source path : String) :
      (windows ++ [window]).flatMap (windowRows serde request rows span run source path) =
        windows.flatMap (windowRows serde request rows span run source path) ++
          windowRows serde request rows span run source path window := by
    rw [List.flatMap_append, List.flatMap_singleton]
  -- the page has the series of a key, or has no observations for it
  have hcases (run source path : String) :
      (∃ part, Indexed request chart run source path ∧
        part = seriesAlong serde request rows run source path
          (windowRows serde request rows span run source path window) ∧
        merged'.series.get? (fieldKey run source path) =
          some (mergePart (merged.series.get? (fieldKey run source path)) part)) ∨
      (merged'.series.get? (fieldKey run source path) =
          merged.series.get? (fieldKey run source path) ∧
        (Indexed request chart run source path →
          windowRows serde request rows span run source path window = [])) := by
    specialize hget run source path
    cases hfind : (response.series.map fun part ↦ (part.key, part)).find? fun entry ↦
        entry.1 = fieldKey run source path with
    | some entry =>
      obtain ⟨part, hpart, rfl⟩ := List.mem_map.mp (List.mem_of_find?_eq_some hfind)
      have hkey : part.key = fieldKey run source path := by simpa using List.find?_some hfind
      obtain ⟨rfl, rfl, rfl⟩ := fieldKey_inj.mp hkey
      obtain ⟨hindexed, hseries⟩ := hpage.drawn part hpart
      refine Or.inl ⟨part, hindexed, hseries, ?_⟩
      rw [hget, hfind]
      rfl
    | none =>
      refine Or.inr ⟨by rw [hget, hfind]; rfl, fun hindexed ↦ ?_⟩
      have hrows := hpage.missed run source path hindexed fun hmem ↦ by
        obtain ⟨part, hpart, hkey⟩ := List.mem_map.mp hmem
        exact absurd hkey (by simpa using
          List.find?_eq_none.mp hfind _ (List.mem_map_of_mem hpart))
      rw [windowRows, hrows]
      exact List.sublist_nil.mp (sampleRows_sublist _ _ _ _)
  refine ⟨fun run source path item hitem ↦ ?_, fun run source path hnone hindexed ↦ ?_⟩
  · rw [hsplit]
    rcases hcases run source path with ⟨part, hindexed, hpart, hnew⟩ | ⟨hold, hempty⟩
    · obtain rfl := Option.some.inj (hnew.symm.trans hitem)
      refine ⟨hindexed, ?_⟩
      cases hold : merged.series.get? (fieldKey run source path) with
      | none => rw [h.missed run source path hold hindexed, List.nil_append, hpart]; rfl
      | some old =>
        rw [(h.drawn run source path old hold).2, hpart, ← seriesAlong_extend]
        rfl
    · obtain ⟨hindexed, hdrawn⟩ := h.drawn run source path item (hold ▸ hitem)
      rw [hempty hindexed, List.append_nil]
      exact ⟨hindexed, hdrawn⟩
  · rw [hsplit]
    rcases hcases run source path with ⟨part, -, -, hnew⟩ | ⟨hold, hempty⟩
    · rw [hnew] at hnone
      simp at hnone
    · rw [hempty hindexed, List.append_nil]
      exact h.missed run source path (hold ▸ hnone) hindexed

/-- The answers of some windows, one after another. -/
theorem foldl (h : Merges serde request chart rows span windows merged.series)
    {answers : List ((ℤ × ℤ) × SnapshotQueryResponse)}
    (hanswers : ∀ answer ∈ answers,
      PageSeries serde (request.window span answer.1) chart rows answer.2.series)
    (hfold : (answers.map Prod.snd).foldlM (Merged.addPage format) merged = .ok merged') :
    Merges serde request chart rows span (windows ++ answers.map Prod.fst) merged'.series := by
  induction answers generalizing windows merged with
  | nil =>
    obtain rfl : merged = merged' := by simpa using hfold
    simpa using h
  | cons answer rest ih =>
    obtain ⟨hanswer, hrest⟩ := List.forall_mem_cons.mp hanswers
    obtain ⟨middle, hadd, hfold⟩ := foldlM_cons_eq_ok.mp hfold
    have hmiddle := ih (h.addPage hanswer hadd) hrest hfold
    rwa [List.append_assoc] at hmiddle

end Merges

end Rvx.Engine
