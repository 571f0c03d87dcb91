import Rvx.Engine.QueryPartition
import Rvx.Engine.QuerySound
import Rvx.Lib.Tiling

/-!
# The windows of a partitioned query

The windows finally read tile the span of the selected observations, however often they were cut,
so that every selected observation is selected by exactly one of them.
-/

namespace Rvx.Engine

open Core Check StableSort

variable {serde : Serde} {format : Formatting} {request : SnapshotQueryRequest}
  {chart : ChartIndex} {row : SnapshotRow} {rows : List SnapshotRow} {db : Database}

/-! ## What is finally read -/

/-- The windows of a stack that are read without being cut again. -/
def finalWindows (serde : Serde) (format : Formatting) (request : SnapshotQueryRequest) (span : ℤ)
    (db : Database) : (reads : ℕ) → List (ℤ × ℤ) → List (ℤ × ℤ)
  | _, [] => []
  | 0, _ :: _ => []
  | reads + 1, bounds :: rest =>
    match queryPage serde format (request.window span bounds) db with
    | .ok _ => bounds :: finalWindows serde format request span db reads rest
    | .error _ =>
      let middle := bounds.1 + (bounds.2 - bounds.1) / 2
      finalWindows serde format request span db reads
        ((bounds.1, middle) :: (middle + 1, bounds.2) :: rest)

/-- The windows a query that exceeded a budget is answered from. -/
def windowsRead (serde : Serde) (format : Formatting) (request : SnapshotQueryRequest)
    (db : Database) (bounds : ℤ × ℤ × ℕ) : List (ℤ × ℤ) :=
  let span := bounds.2.1 - bounds.1 + 1
  finalWindows serde format request span db MAX_QUERY_WINDOWS
    (cutWindows bounds.1 span (windowCount request span bounds.2.2))

/-- The requests a query is answered from. -/
def pagesRead (serde : Serde) (format : Formatting) (request : SnapshotQueryRequest)
    (db : Database) : List SnapshotQueryRequest :=
  match queryPage serde format request db, queryBounds request db with
  | .ok _, _ => [request]
  | .error _, .ok bounds =>
    (windowsRead serde format request db bounds).map (request.window (bounds.2.1 - bounds.1 + 1))
  | .error _, .error _ => []

/-- Reading a stack of windows is merging the answers of those that are not cut again. -/
theorem readWindows_ok {span low high : ℤ} {reads : ℕ} {windows : List (ℤ × ℤ)}
    {merged merged' : Merged} (htiles : Tiles low high windows)
    (h : readWindows serde format request span db reads windows merged = .ok merged') :
    ∃ answers : List ((ℤ × ℤ) × SnapshotQueryResponse),
      answers.map Prod.fst = finalWindows serde format request span db reads windows ∧
      Tiles low high (finalWindows serde format request span db reads windows) ∧
      (∀ answer ∈ answers,
        queryPage serde format (request.window span answer.1) db = .ok answer.2) ∧
      (answers.map Prod.snd).foldlM (Merged.addPage format) merged = .ok merged' := by
  induction reads generalizing low windows merged with
  | zero =>
    cases windows with
    | nil =>
      rw [readWindows] at h
      exact ⟨[], rfl, htiles, by simp, h⟩
    | cons bounds rest => simp [readWindows, invalid] at h
  | succ reads ih =>
    cases windows with
    | nil =>
      rw [readWindows] at h
      exact ⟨[], rfl, htiles, by simp, h⟩
    | cons bounds rest =>
      rw [readWindows] at h
      cases hpage : queryPage serde format (request.window span bounds) db with
      | ok response =>
        simp only [hpage, bind_eq_ok] at h
        obtain ⟨middle, hadd, hrest⟩ := h
        obtain ⟨hfirst, hle, htail⟩ := htiles
        obtain ⟨answers, hwindows, hfinal, hanswers, hfold⟩ := ih htail hrest
        have heq : finalWindows serde format request span db (reads + 1) (bounds :: rest) =
            bounds :: finalWindows serde format request span db reads rest := by
          rw [finalWindows, hpage]
        rw [heq]
        refine ⟨(bounds, response) :: answers, by rw [List.map_cons, hwindows],
          ⟨hfirst, hle, hfinal⟩, ?_, ?_⟩
        · exact List.forall_mem_cons.mpr ⟨hpage, hanswers⟩
        · exact foldlM_cons_eq_ok.mpr ⟨middle, hadd, hfold⟩
      | error error =>
        simp only [hpage] at h
        split_ifs at h with hbudget
        have hlt := hbudget.2
        have heq : finalWindows serde format request span db (reads + 1) (bounds :: rest) =
            finalWindows serde format request span db reads
              ((bounds.1, bounds.1 + (bounds.2 - bounds.1) / 2) ::
                (bounds.1 + (bounds.2 - bounds.1) / 2 + 1, bounds.2) :: rest) := by
          rw [finalWindows, hpage]
        rw [heq]
        exact ih (htiles.bisect (by omega) (by omega)) h

/-! ## The span -/

/-- The windows a span is cut into tile it. -/
theorem tiles_cutWindows {low high : ℤ} {pages : ℕ} (hpages : 0 < pages)
    (hle : (pages : ℤ) ≤ high - low + 1) :
    Tiles low high (cutWindows low (high - low + 1) pages) := by
  have hcut : ∀ index < pages, low + (high - low + 1) * (index : ℕ) / pages <
      low + (high - low + 1) * ((index + 1 : ℕ) : ℤ) / pages := by
    intro index _
    have hpos : (0 : ℤ) < pages := by exact_mod_cast hpages
    have hmore : (high - low + 1) * (index : ℕ) + pages ≤
        (high - low + 1) * ((index + 1 : ℕ) : ℤ) := by
      push_cast
      rw [mul_add, mul_one]
      omega
    have hdiv := Int.ediv_le_ediv hpos hmore
    rw [Int.add_ediv_of_dvd_right (Int.dvd_refl _), Int.ediv_self hpos.ne'] at hdiv
    omega
  have htiles := Tiles.of_cuts hcut
  have hend : low + (high - low + 1) * ((pages : ℕ) : ℤ) / pages = high + 1 := by
    rw [Int.mul_ediv_cancel _ (by exact_mod_cast hpages.ne')]
    omega
  simpa [hend, cutWindows] using htiles

theorem windowCount_spec (request : SnapshotQueryRequest) {span : ℤ} (hspan : 0 < span)
    (count : ℕ) :
    0 < windowCount request span count ∧ (windowCount request span count : ℤ) ≤ span := by
  unfold windowCount MAX_QUERY_WINDOWS
  dsimp only
  omega

/-- The axis column of a joined row is the position of its snapshot. -/
theorem Joins.axisColumn {snapshot : StateSnapshot} {joined : JoinedRow}
    (hjoins : Joins serde request chart rows row joined)
    (hdecode : serde.snapshot row.snapshotJson = some snapshot)
    (h : chart.Describes row snapshot) :
    axisColumn request joined = request.axisOf serde rows row := by
  unfold Engine.axisColumn SnapshotQueryRequest.axisOf
  split_ifs with hwall helapsed
  · rw [hjoins.same]
  · rw [hjoins.first, hjoins.same, Option.map_some]
  · rw [hjoins.axis, hdecode, Option.bind_some]
    exact h.axis ⟨hwall, helapsed⟩

/-- The position of a selected observation is one of the span. -/
theorem mem_spanValues (hserde : serde.RoundTrip) (hdb : Consistent db)
    (hcontents : ChartContents serde db.snapshots chart)
    (hrow : row ∈ selectedRows serde request db.snapshots) {axis : ℤ}
    (haxis : request.axisOf serde db.snapshots row = some axis) :
    axis ∈ spanValues request chart db.snapshots := by
  obtain ⟨hstored, hscope, hkind, hposition⟩ := mem_selectedRows.mp hrow
  obtain ⟨snapshot, hdecode, hdescribes⟩ :=
    described_of_observation hserde hdb hcontents hstored hkind
  obtain ⟨joined, hjoined, hjoins⟩ :=
    @joinObservation_of_contents _ request _ _ _ _ hcontents hstored hkind hdescribes
  rw [SnapshotQueryRequest.positionOf, haxis, Option.isSome_filter, Option.any_some] at hposition
  refine List.mem_filterMap.mpr ⟨row, List.mem_filter.mpr ⟨hstored, hscope⟩, ?_⟩
  rw [hjoined, Option.bind_some, hjoins.axisColumn hdecode hdescribes, haxis, Option.filter_some,
    if_pos hposition]

/-- The bounds of a query enclose its selection, and lie in the requested range. -/
theorem queryBounds_ok {low high : ℤ} {count : ℕ} (hsome : db.chart = some chart)
    (h : queryBounds request db = .ok (low, high, count)) :
    low ≤ high ∧ within request.fromBound request.toBound low = true ∧
      within request.fromBound request.toBound high = true ∧
      ∀ axis ∈ spanValues request chart db.snapshots, low ≤ axis ∧ axis ≤ high := by
  unfold queryBounds at h
  simp only [hsome] at h
  have hread {value value' : ℤ} (hok : readI64 value = .ok value') : value = value' := by
    unfold readI64 at hok
    split_ifs at hok
    exact Except.ok.inj hok
  cases hmin : (spanValues request chart db.snapshots).min? with
  | none => simp [hmin, invalid] at h
  | some least =>
    cases hmax : (spanValues request chart db.snapshots).max? with
    | none => simp [hmin, hmax, invalid] at h
    | some greatest =>
      simp only [hmin, hmax, bind_eq_ok, pure_eq_ok, Prod.mk.injEq] at h
      obtain ⟨low', hlow, high', hhigh, rfl, rfl, -⟩ := h
      obtain rfl := hread hlow
      obtain rfl := hread hhigh
      obtain ⟨hlowest, hleast⟩ := List.min?_eq_some_iff.mp hmin
      obtain ⟨hhighest, hgreatest⟩ := List.max?_eq_some_iff.mp hmax
      have hwithin : ∀ axis ∈ spanValues request chart db.snapshots,
          within request.fromBound request.toBound axis = true := by
        intro axis haxis
        obtain ⟨row, -, hvalue⟩ := List.mem_filterMap.mp haxis
        exact (Option.filter_eq_some_iff.mp hvalue).2
      exact ⟨hgreatest least hlowest, hwithin _ hlowest, hwithin _ hhighest,
        fun axis haxis ↦ ⟨hleast axis haxis, hgreatest axis haxis⟩⟩

/-! ## The selection of the windows -/

theorem within_of_between {lower upper : Option ℤ} {low high value : ℤ}
    (hlow : within lower upper low = true) (hhigh : within lower upper high = true)
    (hge : low ≤ value) (hle : value ≤ high) : within lower upper value = true := by
  unfold within at hlow hhigh ⊢
  cases lower <;> cases upper <;>
    simp only [Option.all_none, Option.all_some, Bool.and_eq_true, decide_eq_true_eq,
      Bool.true_and, Bool.and_true] at hlow hhigh ⊢ <;> omega

/-- What a window in the requested range selects. -/
theorem selectedRows_window {span : ℤ} {bounds : ℤ × ℤ}
    (hlow : within request.fromBound request.toBound bounds.1 = true)
    (hhigh : within request.fromBound request.toBound bounds.2 = true) :
    selectedRows serde (request.window span bounds) rows =
      (selectedRows serde request rows).filter fun row ↦
        bounds.1 ≤ (request.axisOf serde rows row).getD 0 ∧
          (request.axisOf serde rows row).getD 0 ≤ bounds.2 := by
  rw [selectedRows, selectedRows, List.filter_filter]
  apply List.filter_congr
  intro row _
  have hscope : (request.window span bounds).inScope row.runId row.sourceId =
      request.inScope row.runId row.sourceId := rfl
  have haxis : (request.window span bounds).axisOf serde rows row =
      request.axisOf serde rows row := rfl
  rw [hscope, SnapshotQueryRequest.positionOf, SnapshotQueryRequest.positionOf, haxis,
    Option.isSome_filter, Option.isSome_filter]
  cases request.axisOf serde rows row with
  | none => simp
  | some axis =>
    rw [Bool.eq_iff_iff]
    have hwindow : within (request.window span bounds).fromBound
        (request.window span bounds).toBound axis = true ↔ bounds.1 ≤ axis ∧ axis ≤ bounds.2 := by
      simp [within, SnapshotQueryRequest.window]
    simp only [Option.any_some, Option.getD_some, Bool.and_eq_true, decide_eq_true_eq, hwindow]
    constructor
    · rintro ⟨hscope, hge, hle⟩
      exact ⟨⟨hge, hle⟩, hscope, within_of_between hlow hhigh hge hle⟩
    · rintro ⟨hbounds, hscope, -⟩
      exact ⟨hscope, hbounds⟩

/-- Tiling windows select every selected observation once. -/
theorem selectedRows_perm {span low high : ℤ} {windows : List (ℤ × ℤ)}
    (htiles : Tiles low high windows) (hlow : within request.fromBound request.toBound low = true)
    (hhigh : within request.fromBound request.toBound high = true)
    (hspan : ∀ row ∈ selectedRows serde request rows,
      low ≤ (request.axisOf serde rows row).getD 0 ∧
        (request.axisOf serde rows row).getD 0 ≤ high) :
    (windows.flatMap fun window ↦ selectedRows serde (request.window span window) rows).Perm
      (selectedRows serde request rows) := by
  have heq : (windows.flatMap fun window ↦ selectedRows serde (request.window span window) rows) =
      windows.flatMap fun window ↦ (selectedRows serde request rows).filter fun row ↦
        window.1 ≤ (request.axisOf serde rows row).getD 0 ∧
          (request.axisOf serde rows row).getD 0 ≤ window.2 := by
    apply List.flatMap_congr
    intro window hwindow
    obtain ⟨hge, hproper, hle⟩ := htiles.bounds window hwindow
    exact selectedRows_window (within_of_between hlow hhigh hge (hproper.trans hle))
      (within_of_between hlow hhigh (hge.trans hproper) hle)
  rw [heq]
  exact htiles.flatMap_filter_perm hspan

end Rvx.Engine
