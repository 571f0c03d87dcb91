import Rvx.Core.ArtifactLineage
import Rvx.Engine.Progress
import Rvx.Engine.QueryScan

/-!
# What a query selects

The observations a request selects are stated over the raw snapshots.  The index holds a point for
each of them: what the point shows at a path is what the snapshot holds there, as far as the path
was indexed by then, and every other number lies below a path that the point excludes.
-/

namespace Rvx.Engine

open Core Check StableSort

variable {serde : Serde} {request : SnapshotQueryRequest} {chart : ChartIndex} {row : SnapshotRow}
  {snapshot : StateSnapshot} {rows : List SnapshotRow}

/-! ## The selection -/

/-- The number a stored snapshot has at a path. -/
def numberAt (serde : Serde) (path : String) (row : SnapshotRow) : Option Number :=
  ((serde.snapshot row.snapshotJson).bind fun snapshot ↦ snapshot.state.value.pointer path).bind
    Value.asNumber?

/-- Where a snapshot stands on the requested axis. -/
def SnapshotQueryRequest.axisOf (serde : Serde) (request : SnapshotQueryRequest)
    (rows : List SnapshotRow) (row : SnapshotRow) : Option ℤ :=
  if request.axis = "wall_time" then some row.observedAtNs
  else if request.axis = "elapsed" then
    (firstObserved serde row.runId rows).map fun first ↦ row.observedAtNs - first
  else (serde.snapshot row.snapshotJson).bind fun snapshot ↦ snapshot.axes.get? request.axis

/-- A position in the requested range. -/
def SnapshotQueryRequest.positionOf (serde : Serde) (request : SnapshotQueryRequest)
    (rows : List SnapshotRow) (row : SnapshotRow) : Option ℤ :=
  (request.axisOf serde rows row).filter (within request.fromBound request.toBound)

/-- The stored observations of the requested runs and sources in the requested range. -/
def selectedRows (serde : Serde) (request : SnapshotQueryRequest) (rows : List SnapshotRow) :
    List SnapshotRow :=
  rows.filter fun row ↦ request.inScope row.runId row.sourceId &&
    serde.isObservation row.snapshotJson && (request.positionOf serde rows row).isSome

theorem mem_selectedRows : row ∈ selectedRows serde request rows ↔
    row ∈ rows ∧ request.inScope row.runId row.sourceId = true ∧
      serde.isObservation row.snapshotJson = true ∧
        (request.positionOf serde rows row).isSome = true := by
  rw [selectedRows, List.mem_filter, Bool.and_eq_true, Bool.and_eq_true, and_assoc]

/-! ## The text of exclusions -/

/-- Decoding a list of paths undoes encoding it. -/
def Serde.PathsRoundTrip (serde : Serde) : Prop :=
  ∀ paths : List String, serde.paths (encodePaths paths) = some paths

theorem encodePaths_injective : Function.Injective encodePaths := by
  intro paths others h
  have h := String.ofList_inj.mp h
  have hunambiguous := @ArtifactRecord.unambiguousAt_texts paths others [] [] trivial trivial
  simp only [List.append_nil] at hunambiguous
  exact (hunambiguous h).1

open Classical in
/-- The inverse of both encoders; short lists of paths are found by evaluation. -/
noncomputable def Serde.inversePaths (listed : List StateSnapshot) : Serde :=
  { Serde.inverse listed with
    paths := fun text ↦
      ([[], [""]].find? fun paths ↦ encodePaths paths = text).or
        (if h : ∃ paths, encodePaths paths = text then some h.choose else none) }

theorem Serde.inversePaths_roundTrip (listed : List StateSnapshot) :
    (inversePaths listed).RoundTrip := inverse_roundTrip listed

theorem Serde.inversePaths_pathsRoundTrip (listed : List StateSnapshot) :
    (inversePaths listed).PathsRoundTrip := by
  intro paths
  have hexists : ∃ other, encodePaths other = encodePaths paths := ⟨paths, rfl⟩
  have hchoose : hexists.choose = paths := encodePaths_injective hexists.choose_spec
  unfold inversePaths
  dsimp only
  rw [dif_pos hexists, hchoose]
  cases hfind : [[], [""]].find? fun other ↦ encodePaths other = encodePaths paths with
  | none => rfl
  | some other =>
    have hencode : encodePaths other = encodePaths paths := by simpa using List.find?_some hfind
    rw [encodePaths_injective hencode]
    rfl

theorem Projected.excludes_of_below {point : Projected} {root path : String}
    (hroot : root ∈ point.exclusions) (h : Below root path) : point.excludes path = true := by
  rw [Projected.excludes, List.any_eq_true]
  refine ⟨root, hroot, ?_⟩
  rcases h with rfl | ⟨rest, hpath⟩
  · simp
  · simp [hpath]

/-! ## The join of a selected row -/

/-- The joined axis is the axis of the snapshot. -/
theorem ChartIndex.Describes.axis (h : chart.Describes row snapshot) {name : String}
    (hname : name ≠ "wall_time" ∧ name ≠ "elapsed") :
    (Table.lookup ChartIndex.axisTable.key (row.id, name) chart.axes).map AxisRow.value =
      snapshot.axes.get? name := by
  have hlogical (value : ℤ) :
      (name, value) ∈ logicalAxes snapshot ↔ snapshot.axes.get? name = some value := by
    rw [OrderedMap.get?_eq_some, logicalAxes, List.mem_filter]
    simp [hname]
  cases hlookup : Table.lookup ChartIndex.axisTable.key (row.id, name) chart.axes with
  | none =>
    rw [Option.map_none, eq_comm, Option.eq_none_iff_forall_ne_some]
    intro value hvalue
    have hmem := (h.axes name value).mpr ((hlogical value).mpr hvalue)
    exact Table.lookup_eq_none.mp hlookup _ hmem rfl
  | some axis =>
    obtain ⟨hmem, hkey⟩ := Table.lookup_some hlookup
    obtain ⟨hid, hsame⟩ := Prod.mk.inj hkey
    have haxis : axis = ⟨row.id, name, axis.value⟩ := by rw [← hid, ← hsame]
    rw [haxis] at hmem
    exact ((hlogical axis.value).mp ((h.axes name axis.value).mp hmem)).symm

/-- What a row is joined with: the start of its run, its axis and its exclusions. -/
structure Joins (serde : Serde) (request : SnapshotQueryRequest) (chart : ChartIndex)
    (rows : List SnapshotRow) (row : SnapshotRow) (joined : JoinedRow) : Prop where
  same : joined.row = row
  first : firstObserved serde row.runId rows = some joined.firstObservedAtNs
  axis : joined.axis =
    (Table.lookup ChartIndex.axisTable.key (row.id, request.axis) chart.axes).map AxisRow.value
  observation : ∃ observation ∈ chart.observations, observation.snapshotId = row.id ∧
    joined.exclusionsJson = observation.exclusionsJson

/-- Every described observation is joined. -/
theorem joinObservation_of_contents (hcontents : ChartContents serde rows chart)
    (hrow : row ∈ rows) (hkind : serde.isObservation row.snapshotJson = true)
    (h : chart.Describes row snapshot) :
    ∃ joined, joinObservation request chart row = some joined ∧
      Joins serde request chart rows row joined := by
  have hfirst : (firstObserved serde row.runId rows).isSome = true := by
    rw [firstObserved, List.isSome_min?_iff, ne_eq, List.map_eq_nil_iff]
    apply List.ne_nil_of_mem
    exact List.mem_filter.mpr ⟨hrow, decide_eq_true ⟨rfl, hkind⟩⟩
  obtain ⟨first, hfirst⟩ := Option.isSome_iff_exists.mp hfirst
  obtain ⟨run, hrun, hstart⟩ :=
    Option.map_eq_some_iff.mp ((hcontents.runs row.runId).trans hfirst)
  obtain ⟨other, hother, hid⟩ := List.mem_map.mp h.observed
  cases hlookup : Table.lookup ChartIndex.observationTable.key row.id chart.observations with
  | none => exact absurd hid (Table.lookup_eq_none.mp hlookup other hother)
  | some observation =>
    obtain ⟨hmem, hkey⟩ := Table.lookup_some hlookup
    refine ⟨⟨row, run.firstObservedAtNs,
      (Table.lookup ChartIndex.axisTable.key (row.id, request.axis) chart.axes).map AxisRow.value,
      observation.exclusionsJson, none⟩, ?_, rfl, hstart ▸ hfirst, rfl, observation, hmem, hkey, rfl⟩
    rw [joinObservation, hrun, hlookup]

/-- An axis value that was computed is the position of the snapshot. -/
theorem Joins.axisOf {joined : JoinedRow} (hjoins : Joins serde request chart rows row joined)
    (hdecode : serde.snapshot row.snapshotJson = some snapshot) (h : chart.Describes row snapshot)
    {axis : Option ℤ} (hvalue : axisValue request joined = .ok axis) :
    axis = request.axisOf serde rows row := by
  unfold axisValue at hvalue
  unfold SnapshotQueryRequest.axisOf
  split_ifs at hvalue ⊢ with hwall helapsed
  · rw [← Except.ok.inj hvalue, hjoins.same]
  · rw [hjoins.first, ← hjoins.same, Option.map_some]
    unfold checkedI64 at hvalue
    split_ifs at hvalue
    · exact (Except.ok.inj hvalue).symm
    · simp [invalid, Except.map] at hvalue
  · rw [← Except.ok.inj hvalue, hjoins.axis, hdecode, Option.bind_some]
    exact h.axis ⟨hwall, helapsed⟩

/-! ## The numbers of a point -/

/-- The value columns a cell is written to. -/
def setCell (paths : List String) (values : List (Option ℚ)) (cell : String × ℚ) :
    List (Option ℚ) := values.set (paths.idxOf cell.1) (some cell.2)

theorem foldl_fill (cells : List (String × ℚ)) (point : Projected) :
    cells.foldl (fun point cell ↦ point.fill request cell) point =
      { point with values := cells.foldl (setCell request.paths) point.values } := by
  induction cells generalizing point with
  | nil => rfl
  | cons cell rest ih =>
    rw [List.foldl_cons, List.foldl_cons, ih]
    rfl

theorem length_foldl_setCell (paths : List String) (cells : List (String × ℚ))
    (values : List (Option ℚ)) :
    (cells.foldl (setCell paths) values).length = values.length := by
  induction cells generalizing values with
  | nil => rfl
  | cons cell rest ih => rw [List.foldl_cons, ih, setCell, List.length_set]

/-- A column holds the number of its path. -/
theorem getD_foldl_setCell {paths : List String} (hpaths : paths.Nodup)
    {cells : List (String × ℚ)} (hfun : ∀ path value value', (path, value) ∈ cells →
      (path, value') ∈ cells → value = value') {index : ℕ} {path : String}
    (hindex : paths[index]? = some path) {value : ℚ} :
    (cells.foldl (setCell paths) (List.replicate paths.length none)).getD index none =
      some value ↔ (path, value) ∈ cells := by
  obtain ⟨hlt, hpath⟩ := List.getElem?_eq_some_iff.mp hindex
  induction cells using List.reverseRecOn with
  | nil => simp [hlt]
  | append_singleton cells cell ih =>
    have hold := ih fun path value value' hmem hmem' ↦
      hfun path value value' (List.mem_append_left _ hmem) (List.mem_append_left _ hmem')
    rw [List.foldl_append, List.foldl_cons, List.foldl_nil, setCell, List.getD_eq_getElem?_getD,
      List.getElem?_set, length_foldl_setCell, List.length_replicate, List.mem_append,
      List.mem_singleton]
    by_cases hcell : cell.1 = path
    · have hidx : paths.idxOf cell.1 = index := by
        rw [hcell, ← hpath]
        exact List.Nodup.idxOf_getElem hpaths index hlt
      rw [if_pos hidx, if_pos (hidx ▸ hlt), Option.getD_some, Option.some.injEq]
      have hlast : cell = (path, cell.2) := by rw [← hcell]
      constructor
      · rintro rfl
        exact Or.inr hlast.symm
      · rintro (hmem | rfl)
        · exact hfun path cell.2 value (List.mem_append_right _ (by simp [← hlast]))
            (List.mem_append_left _ hmem)
        · rfl
    · have hidx : paths.idxOf cell.1 ≠ index := by
        intro heq
        subst heq
        exact hcell (hpath ▸ (List.getElem_idxOf hlt).symm)
      rw [if_neg hidx, ← List.getD_eq_getElem?_getD, hold]
      constructor
      · exact Or.inl
      · rintro (hmem | rfl)
        · exact hmem
        · exact absurd rfl hcell

/-- The joined numbers of a snapshot. -/
theorem mem_cellsOf (h : chart.Describes row snapshot) {path : String} {value : ℚ} :
    (path, value) ∈ cellsOf request chart row.id ↔ path ∈ request.paths ∧
      chart.Indexes row path ∧ (snapshot.state.value.pointer path).bind Value.asF64 = some value := by
  rw [← h.values, cellsOf, mem_sortOn, List.mem_map]
  constructor
  · rintro ⟨cell, hcell, heq⟩
    obtain ⟨rfl, rfl⟩ := Prod.mk.inj heq
    rw [List.mem_filter, decide_eq_true_eq] at hcell
    obtain ⟨hmem, hid, hpath⟩ := hcell
    exact ⟨hpath, hid ▸ hmem⟩
  · rintro ⟨hpath, hmem⟩
    exact ⟨_, List.mem_filter.mpr ⟨hmem, decide_eq_true ⟨rfl, hpath⟩⟩, rfl⟩

/-! ## The point of a row -/

/-- What a point shows of a snapshot. -/
structure Shows (request : SnapshotQueryRequest) (chart : ChartIndex) (row : SnapshotRow)
    (snapshot : StateSnapshot) (axis : ℤ) (point : Projected) : Prop where
  id : point.id = row.id
  session : point.session = row.sourceSessionId
  sequence : point.sequence = row.sequence
  axis : point.axis = axis
  observed : point.observed = row.observedAtNs
  values : ∀ index path, request.paths[index]? = some path → ∀ value,
    point.values.getD index none = some value ↔ chart.Indexes row path ∧
      (snapshot.state.value.pointer path).bind Value.asF64 = some value
  excluded : ∀ path number, validateSnapshotPointer path = .ok () →
    snapshot.state.value.pointer path = some (.number number) →
      chart.Indexes row path ∨ point.excludes path = true

/-- A row contributes a point that shows it, if its position lies in the range. -/
theorem pointOf_shows (hpaths : serde.PathsRoundTrip) (hcontents : ChartContents serde rows chart)
    (hrow : row ∈ rows) (hkind : serde.isObservation row.snapshotJson = true)
    (hdecode : serde.snapshot row.snapshotJson = some snapshot)
    (h : chart.Describes row snapshot) (hnodup : request.paths.Nodup)
    (haxis : ∀ joined, joinObservation request chart row = some joined →
      ∃ axis, axisValue request joined = .ok axis) :
    ∃ point : ℤ → Projected, (∀ axis, Shows request chart row snapshot axis (point axis)) ∧
      pointOf serde request chart row = (request.positionOf serde rows row).map point := by
  obtain ⟨joined, hjoined, hjoins⟩ :=
    @joinObservation_of_contents _ request _ _ _ _ hcontents hrow hkind h
  obtain ⟨axis, hvalue⟩ := haxis joined hjoined
  obtain ⟨observation, hobservation, hid, hjson⟩ := hjoins.observation
  obtain ⟨roots, hroots, hexcluded⟩ := h.excluded observation hobservation hid
  have hdecoded : (serde.paths joined.exclusionsJson).getD [] = roots := by
    rw [hjson, hroots, hpaths roots, Option.getD_some]
  refine ⟨fun axis ↦ (cellsOf request chart row.id).foldl
    (fun point cell ↦ point.fill request cell) (Projected.start request joined axis roots),
    fun axis ↦ ?_, ?_⟩
  · dsimp only
    rw [foldl_fill]
    refine ⟨congrArg SnapshotRow.id hjoins.same, congrArg SnapshotRow.sourceSessionId hjoins.same,
      congrArg SnapshotRow.sequence hjoins.same, rfl, congrArg SnapshotRow.observedAtNs hjoins.same,
      fun index path hindex value ↦ ?_, fun path number hpath hnumber ↦ ?_⟩
    · have hfun : ∀ path value value', (path, value) ∈ cellsOf request chart row.id →
          (path, value') ∈ cellsOf request chart row.id → value = value' := by
        intro path value value' hmem hmem'
        have hsame := ((mem_cellsOf h).mp hmem).2.2.symm.trans ((mem_cellsOf h).mp hmem').2.2
        exact Option.some.inj hsame
      refine (getD_foldl_setCell hnodup hfun hindex).trans ?_
      rw [mem_cellsOf h]
      exact and_iff_right (List.mem_of_getElem? hindex)
    · refine (hexcluded path number hpath hnumber).imp_right ?_
      rintro ⟨root, hroot, hbelow⟩
      exact Projected.excludes_of_below hroot hbelow
  · rw [pointOf, hjoined, Option.bind_some, hdecoded,
      SnapshotQueryRequest.positionOf, ← hjoins.axisOf hdecode h hvalue,
      SnapshotQueryRequest.position, hvalue]
    cases axis with
    | none => rfl
    | some axis => rw [Option.filter_some]

end Rvx.Engine
