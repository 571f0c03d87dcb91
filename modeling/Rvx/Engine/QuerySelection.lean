import Rvx.Engine.QueryPoints

/-!
# The points of a source

A scan that was not stopped by a budget has met every selected observation.  The points of a source,
sorted for its series, are those of its selected observations in projection order.
-/

namespace Rvx.Engine

open Core Check StableSort

variable {serde : Serde} {request : SnapshotQueryRequest} {chart : ChartIndex} {row : SnapshotRow}
  {snapshot : StateSnapshot} {rows : List SnapshotRow} {ranges : List ElapsedRange}

/-! ## The clauses of the scan -/

/-- The range of a run with a start moves the requested bounds to its start. -/
theorem elapsedRanges_ok {runs : List String} (h : elapsedRanges request chart runs = .ok ranges)
    {run : String} {first : ℤ} (hrun : run ∈ runs)
    (hfirst : (Table.lookup RunRow.runId run chart.runs).map RunRow.firstObservedAtNs = some first) :
    ⟨run, request.fromBound.map fun bound ↦ first + bound,
      request.toBound.map fun bound ↦ first + bound⟩ ∈ ranges := by
  have hbound {bound bound' : Option ℤ} {baseline : ℤ}
      (hok : absoluteBound baseline bound = .ok bound') :
      bound' = bound.map fun bound ↦ baseline + bound := by
    cases bound with
    | none => exact (Except.ok.inj hok).symm
    | some bound =>
      unfold absoluteBound checkedI64 at hok
      dsimp only at hok
      split_ifs at hok
      · exact (Except.ok.inj hok).symm
      · simp [invalid, Except.map] at hok
  induction runs generalizing ranges with
  | nil => simp at hrun
  | cons other rest ih =>
    unfold elapsedRanges at h
    cases hlookup : Table.lookup RunRow.runId other chart.runs with
    | none =>
      rw [hlookup] at h
      refine ih h ((List.mem_cons.mp hrun).resolve_left fun heq ↦ ?_)
      subst heq
      simp [hlookup] at hfirst
    | some start =>
      simp only [hlookup, bind_eq_ok, pure_eq_ok] at h
      obtain ⟨lower, hlower, upper, hupper, others, hothers, rfl⟩ := h
      cases List.mem_cons.mp hrun with
      | inl heq =>
        subst heq
        rw [hlookup, Option.map_some, Option.some.injEq] at hfirst
        subst hfirst
        rw [hbound hlower, hbound hupper]
        exact List.mem_cons_self
      | inr hrest => exact List.mem_cons_of_mem _ (ih hothers hrest)

/-- Bounds that were moved by a baseline bound the distance from it. -/
theorem within_add (lower upper : Option ℤ) (baseline value : ℤ) :
    within (lower.map fun bound ↦ baseline + bound) (upper.map fun bound ↦ baseline + bound) value =
      within lower upper (value - baseline) := by
  rw [Bool.eq_iff_iff]
  unfold within
  cases lower <;> cases upper <;>
    simp only [Option.map_none, Option.map_some, Option.all_none, Option.all_some, Bool.and_eq_true,
      decide_eq_true_eq, Bool.true_and, Bool.and_true] <;> omega

/-- What the elapsed ranges of a query are. -/
def rangesOf (request : SnapshotQueryRequest) (chart : ChartIndex) :
    Except EngineError (List ElapsedRange) :=
  if request.axis = "elapsed" ∧ request.isBounded then
    elapsedRanges request chart (OrderedSet.ofList request.runIds).keys
  else .ok []

/-- The clauses keep every selected observation. -/
theorem selects_of_selected (hcontents : ChartContents serde rows chart)
    (hranges : rangesOf request chart = .ok ranges)
    (hdecode : serde.snapshot row.snapshotJson = some snapshot) (h : chart.Describes row snapshot)
    (hselected : row ∈ selectedRows serde request rows) :
    request.selects chart ranges row = true := by
  obtain ⟨hrow, hscope, -, hposition⟩ := mem_selectedRows.mp hselected
  obtain ⟨axis, haxis⟩ := Option.isSome_iff_exists.mp hposition
  rw [SnapshotQueryRequest.positionOf, Option.filter_eq_some_iff] at haxis
  obtain ⟨haxis, hwithin⟩ := haxis
  have hobserved : (chart.observations.any fun observation ↦ observation.snapshotId = row.id) =
      true := by
    obtain ⟨observation, hmem, hid⟩ := List.mem_map.mp h.observed
    exact List.any_eq_true.mpr ⟨observation, hmem, decide_eq_true hid⟩
  have hclause : request.selectsAxis chart ranges row = true := by
    unfold SnapshotQueryRequest.axisOf at haxis
    unfold SnapshotQueryRequest.selectsAxis
    split_ifs at haxis ⊢ with hwall helapsed
    · rwa [Option.some.inj haxis]
    · obtain ⟨first, hfirst, rfl⟩ := Option.map_eq_some_iff.mp haxis
      cases hbounded : request.isBounded with
      | false => rfl
      | true =>
        rw [rangesOf, if_pos ⟨helapsed, hbounded⟩] at hranges
        have hrun : row.runId ∈ (OrderedSet.ofList request.runIds).keys := by
          simp only [SnapshotQueryRequest.inScope, Bool.and_eq_true, decide_eq_true_eq] at hscope
          exact OrderedMap.mem_def.mp (OrderedSet.mem_ofList.mpr hscope.1)
        have hrange := elapsedRanges_ok hranges hrun ((hcontents.runs row.runId).trans hfirst)
        rw [Bool.not_true, Bool.false_or, List.any_eq_true]
        exact ⟨_, hrange, by simpa [within_add] using hwithin⟩
    · rw [hdecode, Option.bind_some, OrderedMap.get?_eq_some] at haxis
      have hlogical : (request.axis, axis) ∈ logicalAxes snapshot :=
        List.mem_filter.mpr ⟨haxis, by simp [hwall, helapsed]⟩
      have hmem := (h.axes request.axis axis).mpr hlogical
      exact List.any_eq_true.mpr ⟨_, hmem, by simpa using hwithin⟩
  rw [SnapshotQueryRequest.selects, hscope, hclause, hobserved]
  rfl

/-! ## The rows of a scan -/

/-- The axis value of every joined row of a scan was computed. -/
theorem axisValue_of_scan {scan scan' : Scan}
    (h : (rows.flatMap (joinRow request chart)).foldlM (Scan.read serde request) scan = .ok scan')
    (hrow : row ∈ rows) {joined : JoinedRow} (hjoined : joinObservation request chart row = some joined) :
    ∃ axis, axisValue request joined = .ok axis := by
  have hall := (@foldlM_appends _ _ _ Unit (Scan.read serde request) (fun _ ↦ []) (fun _ ↦ [])
    (fun joined ↦ ∃ axis, axisValue request joined = .ok axis)
    (fun {_ joined _} hread ↦ by
      simp only [Scan.read, bind_eq_ok] at hread
      obtain ⟨axis, haxis, -⟩ := hread
      exact ⟨rfl, axis, haxis⟩) _ _ _ h).2
  have hcell : ∃ cell, { joined with cell := cell } ∈ joinRow request chart row := by
    rw [joinRow, hjoined]
    cases hcells : cellsOf request chart row.id with
    | nil => exact ⟨joined.cell, List.mem_singleton_self joined⟩
    | cons cell rest => exact ⟨some cell, List.mem_cons_self⟩
  obtain ⟨cell, hmem⟩ := hcell
  obtain ⟨axis, haxis⟩ := hall _ (List.mem_flatMap.mpr ⟨row, hrow, hmem⟩)
  exact ⟨axis, haxis⟩

/-- What a successful scan of an open store knows. -/
structure Scanned (serde : Serde) (request : SnapshotQueryRequest) (chart : ChartIndex)
    (rows : List SnapshotRow) (scanned : List SnapshotRow) : Prop where
  ordered : scanned.Pairwise fun row other ↦ scanOrder row < scanOrder other
  complete : ∀ row ∈ selectedRows serde request rows, row ∈ scanned
  sound : ∀ row ∈ scanned, row ∈ rows ∧ request.inScope row.runId row.sourceId = true ∧
    serde.isObservation row.snapshotJson = true
  shows : ∀ row ∈ scanned, ∃ snapshot, serde.snapshot row.snapshotJson = some snapshot ∧
    ∃ point : ℤ → Projected, (∀ axis, Shows request chart row snapshot axis (point axis)) ∧
      pointOf serde request chart row = (request.positionOf serde rows row).map point

instance : Inhabited Projected := ⟨⟨0, "", 0, 0, 0, [], []⟩⟩

/-- The point of a selected row. -/
def shownPoint (serde : Serde) (request : SnapshotQueryRequest) (chart : ChartIndex)
    (row : SnapshotRow) : Projected := (pointOf serde request chart row).getD default

/-- The place of an observation in its series. -/
def SnapshotQueryRequest.place (serde : Serde) (request : SnapshotQueryRequest)
    (rows : List SnapshotRow) (row : SnapshotRow) : ℤ ×ₗ ℤ ×ₗ ℕ ×ₗ ℕ :=
  toLex ((request.axisOf serde rows row).getD 0,
    toLex (row.observedAtNs, toLex (row.sequence, row.id)))

/-- The selected observations of a source, in projection order. -/
def sourceRows (serde : Serde) (request : SnapshotQueryRequest) (rows : List SnapshotRow)
    (run source : String) : List SnapshotRow :=
  sortOn (request.place serde rows)
    ((selectedRows serde request rows).filter fun row ↦ row.runId = run ∧ row.sourceId = source)

theorem mem_sourceRows {run source : String} : row ∈ sourceRows serde request rows run source ↔
    row ∈ selectedRows serde request rows ∧ row.runId = run ∧ row.sourceId = source := by
  rw [sourceRows, mem_sortOn, List.mem_filter, decide_eq_true_eq]

theorem ordered_sourceRows (hids : (rows.map SnapshotRow.id).Nodup) {run source : String} :
    (sourceRows serde request rows run source).Pairwise fun row other ↦
      request.place serde rows row < request.place serde rows other := by
  apply ordered_sortOn
  have hplaces : (rows.map (request.place serde rows)).Nodup := by
    rw [List.Nodup, List.pairwise_map] at hids ⊢
    refine hids.imp fun {row other} hne heq ↦ hne ?_
    simp only [SnapshotQueryRequest.place, EmbeddingLike.apply_eq_iff_eq, Prod.mk.injEq] at heq
    exact heq.2.2.2
  exact hplaces.sublist ((List.filter_sublist.trans List.filter_sublist).map _)

theorem filterMap_eq_map_filter {α β : Type} [Inhabited β] (f : α → Option β) (list : List α) :
    list.filterMap f = (list.filter fun item ↦ (f item).isSome).map fun item ↦
      (f item).getD default := by
  induction list with
  | nil => rfl
  | cons item rest ih =>
    rw [List.filterMap_cons, List.filter_cons]
    cases hitem : f item with
    | none => simpa using ih
    | some value => simpa [hitem] using ih

namespace Scanned

variable {scanned : List SnapshotRow}

/-- A selected row contributes a point that shows it at its position. -/
theorem shown (h : Scanned serde request chart rows scanned)
    (hrow : row ∈ selectedRows serde request rows) :
    pointOf serde request chart row = some (shownPoint serde request chart row) ∧
      ∃ snapshot, serde.snapshot row.snapshotJson = some snapshot ∧
        Shows request chart row snapshot ((request.axisOf serde rows row).getD 0)
          (shownPoint serde request chart row) := by
  obtain ⟨snapshot, hdecode, point, hshows, hpoint⟩ := h.shows row (h.complete row hrow)
  obtain ⟨axis, haxis⟩ := Option.isSome_iff_exists.mp (mem_selectedRows.mp hrow).2.2.2
  have hposition := haxis
  rw [SnapshotQueryRequest.positionOf, Option.filter_eq_some_iff] at hposition
  rw [haxis, Option.map_some] at hpoint
  have hshown : shownPoint serde request chart row = point axis := by
    rw [shownPoint, hpoint, Option.getD_some]
  rw [hshown, hposition.1]
  exact ⟨hpoint, snapshot, hdecode, hshows axis⟩

/-- The points of a source are those of its selected rows, in the order of the scan. -/
theorem exists_met (h : Scanned serde request chart rows scanned) (run source : String) :
    ∃ met : List SnapshotRow,
      Scan.pointsOf serde request chart (toLex (run, source)) scanned =
        met.map (shownPoint serde request chart) ∧
      (∀ row, row ∈ met ↔ row ∈ selectedRows serde request rows ∧ row.runId = run ∧
        row.sourceId = source) ∧
      met.Pairwise fun row other ↦ scanOrder row < scanOrder other := by
  refine ⟨(scanned.filter fun row ↦ Scan.groupKey row = toLex (run, source)).filter fun row ↦
    (pointOf serde request chart row).isSome, ?_, fun row ↦ ?_, ?_⟩
  · rw [Scan.pointsOf, filterMap_eq_map_filter]
    rfl
  · rw [List.mem_filter, List.mem_filter, decide_eq_true_eq, Scan.groupKey,
      EmbeddingLike.apply_eq_iff_eq, Prod.mk.injEq]
    constructor
    · rintro ⟨⟨hscanned, hkey⟩, hpoint⟩
      obtain ⟨_, _, _, _, heq⟩ := h.shows row hscanned
      rw [heq, Option.isSome_map] at hpoint
      obtain ⟨hrow, hscope, hkind⟩ := h.sound row hscanned
      exact ⟨mem_selectedRows.mpr ⟨hrow, hscope, hkind, hpoint⟩, hkey⟩
    · rintro ⟨hselected, hkey⟩
      refine ⟨⟨h.complete row hselected, hkey⟩, ?_⟩
      rw [(h.shown hselected).1]
      rfl
  · exact (h.ordered.sublist List.filter_sublist).sublist List.filter_sublist

/-- The points of a source, sorted for its series, are those of its selected rows in order. -/
theorem points (h : Scanned serde request chart rows scanned)
    (hids : (rows.map SnapshotRow.id).Nodup) (run source : String) :
    sortOn Projected.order (Scan.pointsOf serde request chart (toLex (run, source)) scanned) =
      (sourceRows serde request rows run source).map (shownPoint serde request chart) := by
  obtain ⟨met, hpoints, hmem, hscan⟩ := h.exists_met run source
  have horder : ∀ row ∈ met, (shownPoint serde request chart row).order =
      toLex ((request.axisOf serde rows row).getD 0, toLex (row.observedAtNs, row.sequence)) := by
    intro row hrow
    obtain ⟨-, snapshot, -, hshows⟩ := h.shown ((hmem row).mp hrow).1
    rw [Projected.order, hshows.axis, hshows.observed, hshows.sequence]
  rw [hpoints, ← map_sortOn (shownPoint serde request chart) horder]
  congr 1
  -- the order of the scan decides between observations of the same place
  refine eq_of_ordered ?_ (ordered_sourceRows hids) fun row ↦ ?_
  · refine (pairwise_sortOn _ hscan).imp_of_mem fun {row other} hrow hother hor ↦ ?_
    obtain ⟨-, hrun, hsource⟩ := (hmem row).mp (mem_sortOn.mp hrow)
    obtain ⟨-, hrun', hsource'⟩ := (hmem other).mp (mem_sortOn.mp hother)
    simp only [scanOrder, SnapshotQueryRequest.place, Prod.Lex.toLex_lt_toLex, hrun, hrun', hsource,
      hsource', EmbeddingLike.apply_eq_iff_eq, Prod.mk.injEq, lt_irrefl, false_or, true_and] at hor ⊢
    omega
  · rw [mem_sortOn, hmem, mem_sourceRows]

end Scanned

end Rvx.Engine
