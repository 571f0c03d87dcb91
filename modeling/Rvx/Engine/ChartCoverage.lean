import Rvx.Engine.ChartFields

/-!
# What the chart index lists of a run

The fields of a source are paths its observations had numbers at, all of them unless the row of the
run is marked as truncated.  That row counts the observations of the run and keeps the times of the
first and of the last.
-/

namespace Rvx.Engine

open Core

/-! ## Observations -/

/-- An observation of a source: a stored snapshot that is not a tracker event. -/
structure Observes (serde : Serde) (rows : List SnapshotRow) (run source : String)
    (row : SnapshotRow) (snapshot : StateSnapshot) : Prop where
  stored : row ∈ rows
  run_eq : row.runId = run
  source_eq : row.sourceId = source
  decoded : serde.snapshot row.snapshotJson = some snapshot
  observation : snapshot.isEvent = false

/-- Some observation of the source had a finite number at the path, reached through objects. -/
def Reports (serde : Serde) (rows : List SnapshotRow) (run source path : String) : Prop :=
  ∃ row snapshot, Observes serde rows run source row snapshot ∧
    ∃ value, ReachesNumber snapshot.state.value path value

/-- A field was first found in an observation of its source. -/
def FoundIn (serde : Serde) (rows : List SnapshotRow) (field : FieldRow) : Prop :=
  ∃ row snapshot, Observes serde rows field.runId field.sourceId row snapshot ∧
    row.id = field.firstSnapshotId ∧ ∃ value, ReachesNumber snapshot.state.value field.path value

section Concat

variable {serde : Serde} {rows : List SnapshotRow} {row : SnapshotRow} {run source : String}

theorem Observes.concat {old : SnapshotRow} {snapshot : StateSnapshot}
    (h : Observes serde rows run source old snapshot) :
    Observes serde (rows ++ [row]) run source old snapshot :=
  { h with stored := List.mem_append_left _ h.stored }

theorem FoundIn.concat {field : FieldRow} (h : FoundIn serde rows field) :
    FoundIn serde (rows ++ [row]) field := by
  obtain ⟨old, snapshot, hobserves, hfirst⟩ := h
  exact ⟨old, snapshot, hobserves.concat, hfirst⟩

theorem runObservations_concat :
    runObservations serde run (rows ++ [row]) = runObservations serde run rows ++
      if row.runId = run ∧ serde.isObservation row.snapshotJson then [row] else [] := by
  unfold runObservations
  rw [List.filter_append, List.filter_singleton]
  split_ifs with hmatch
  · rw [decide_eq_true hmatch, cond_true]
  · rw [decide_eq_false hmatch, cond_false]

end Concat

/-! ## The row of a run -/

/-- A run without a row, or the row that was written for some observations of the run. -/
def Counts (observed : List ℤ) : Option RunRow → Prop
  | none => observed = []
  | some row => row.snapshotCount = observed.length ∧
      observed.min? = some row.firstObservedAtNs ∧ observed.max? = some row.lastObservedAtNs

theorem Counts.concat {observed : List ℤ} {stored : Option RunRow} (h : Counts observed stored)
    (run : String) (time : ℤ) (truncated : Bool) :
    Counts (observed ++ [time]) (some ((stored.map fun old ↦
      { old with
        snapshotCount := old.snapshotCount + 1
        firstObservedAtNs := min old.firstObservedAtNs time
        lastObservedAtNs := max old.lastObservedAtNs time
        truncated := old.truncated || truncated }).getD ⟨run, 1, time, time, truncated⟩)) := by
  cases stored with
  | none =>
    obtain rfl : observed = [] := h
    exact ⟨rfl, rfl, rfl⟩
  | some old =>
    obtain ⟨hcount, hfirst, hlast⟩ := h
    refine ⟨?_, ?_, ?_⟩
    · rw [List.length_append, ← hcount]
      rfl
    · rw [min?_concat, hfirst]
      rfl
    · rw [max?_concat, hlast]
      rfl

namespace ChartIndex

theorem lookup_countRun (run run' : String) (observed : ℤ) (truncated : Bool)
    (chart : ChartIndex) :
    Table.lookup RunRow.runId run' (chart.countRun run observed truncated).runs =
      if run = run' then
        some (((Table.lookup RunRow.runId run chart.runs).map fun old ↦
          { old with
            snapshotCount := old.snapshotCount + 1
            firstObservedAtNs := min old.firstObservedAtNs observed
            lastObservedAtNs := max old.lastObservedAtNs observed
            truncated := old.truncated || truncated }).getD ⟨run, 1, observed, observed, truncated⟩)
      else Table.lookup RunRow.runId run' chart.runs := by
  unfold countRun
  dsimp only
  split_ifs with hrun
  · subst hrun
    exact Table.lookup_upsert_self RunRow.runId _ ⟨run, 1, observed, observed, truncated⟩ chart.runs
      fun _ h ↦ h
  · refine Table.lookup_upsert_of_ne RunRow.runId _ ⟨run, 1, observed, observed, truncated⟩ chart.runs
      ?_ (Ne.symm hrun)
    exact fun _ h ↦ h

/-- The row of a run says that something of the run was skipped. -/
def Skips (chart : ChartIndex) (run : String) : Prop :=
  ∃ row, Table.lookup RunRow.runId run chart.runs = some row ∧ row.truncated = true

theorem skips_countRun {run run' : String} {observed : ℤ} {truncated : Bool} {chart : ChartIndex}
    (h : chart.Skips run' ∨ run = run' ∧ truncated = true) :
    (chart.countRun run observed truncated).Skips run' := by
  unfold Skips
  rw [lookup_countRun]
  by_cases hrun : run = run'
  · subst hrun
    rw [if_pos rfl]
    refine ⟨_, rfl, ?_⟩
    rcases h with ⟨row, hlookup, htruncated⟩ | ⟨-, rfl⟩
    · rw [hlookup, Option.map_some, Option.getD_some]
      dsimp only
      rw [htruncated, Bool.true_or]
    · cases Table.lookup RunRow.runId run chart.runs with
      | none => rfl
      | some old => exact Bool.or_true old.truncated
  · rw [if_neg hrun]
    exact h.resolve_right fun hsame ↦ hrun hsame.1

/-- A field is indexed. -/
def Lists (chart : ChartIndex) (run source path : String) : Prop :=
  ∃ field ∈ chart.fields, fieldTable.key field = (run, source, path)

end ChartIndex

/-! ## All rows -/

/-- What the index lists of the runs of a list of stored rows. -/
structure ChartCoverage (serde : Serde) (rows : List SnapshotRow) (chart : ChartIndex) : Prop where
  sound : ∀ field ∈ chart.fields, FoundIn serde rows field
  complete : ∀ run source path, Reports serde rows run source path →
    chart.Lists run source path ∨ chart.Skips run
  counts : ∀ run, Counts ((runObservations serde run rows).map SnapshotRow.observedAtNs)
    (Table.lookup RunRow.runId run chart.runs)

section Add

variable {serde : Serde} {rows : List SnapshotRow} {chart : ChartIndex} {row : SnapshotRow}
  {snapshot : StateSnapshot}

/-- The insertion of an event. -/
theorem ChartCoverage.touch (h : ChartCoverage serde rows chart)
    (hdecode : serde.snapshot row.snapshotJson = some snapshot) (hevent : snapshot.isEvent = true) :
    ChartCoverage serde (rows ++ [row]) (chart.touch row.id) := by
  have hkind : serde.isObservation row.snapshotJson = false := by
    rw [Serde.isObservation, hdecode, Option.any_some, hevent, Bool.not_true]
  refine ⟨fun field hfield ↦ (h.sound field hfield).concat, fun run source path hreports ↦ ?_,
    fun run ↦ ?_⟩
  · obtain ⟨old, previous, hobserves, hvalue⟩ := hreports
    refine h.complete run source path ⟨old, previous, ?_, hvalue⟩
    cases List.mem_append.mp hobserves.stored with
    | inl hold => exact { hobserves with stored := hold }
    | inr hnew =>
      obtain rfl := List.mem_singleton.mp hnew
      obtain rfl := Option.some.inj (hdecode.symm.trans hobserves.decoded)
      rw [hobserves.observation] at hevent
      cases hevent
  · rw [runObservations_concat, hkind, if_neg (by simp), List.append_nil]
    exact h.counts run

/-- The insertion of an observation. -/
theorem ChartCoverage.observe (h : ChartCoverage serde rows chart)
    (hdecode : serde.snapshot row.snapshotJson = some snapshot)
    (hobserved : row.observedAtNs = snapshot.observedAtNs) (hevent : snapshot.isEvent = false) :
    ChartCoverage serde (rows ++ [row]) (chart.add row.id row.runId row.sourceId snapshot) := by
  have hself : Observes serde (rows ++ [row]) row.runId row.sourceId row snapshot :=
    ⟨by simp, rfl, rfl, hdecode, hevent⟩
  have hkind : serde.isObservation row.snapshotJson = true := by
    rw [Serde.isObservation, hdecode, Option.any_some, hevent, Bool.not_false]
  unfold ChartIndex.add
  rw [hevent, if_neg (by simp)]
  refine ⟨fun field hfield ↦ ?_, fun run source path hreports ↦ ?_, fun run ↦ ?_⟩
  · cases List.mem_append.mp hfield with
    | inl hold => exact (h.sound field hold).concat
    | inr hnew =>
      obtain ⟨path, hpath, rfl⟩ := List.mem_map.mp hnew
      exact ⟨row, snapshot, hself, rfl, admitFields_added hpath⟩
  · obtain ⟨old, previous, hobserves, value, hvalue⟩ := hreports
    cases List.mem_append.mp hobserves.stored with
    | inl hold =>
      have hbefore : Reports serde rows run source path :=
        ⟨old, previous, { hobserves with stored := hold }, value, hvalue⟩
      refine (h.complete run source path hbefore).imp (fun hlists ↦ ?_) fun hskips ↦ ?_
      · obtain ⟨field, hfield, hkey⟩ := hlists
        exact ⟨field, List.mem_append_left _ hfield, hkey⟩
      · exact ChartIndex.skips_countRun (Or.inl hskips)
    | inr hnew =>
      obtain rfl := List.mem_singleton.mp hnew
      obtain rfl := Option.some.inj (hdecode.symm.trans hobserves.decoded)
      obtain rfl := hobserves.run_eq
      obtain rfl := hobserves.source_eq
      -- the path was known, is new, or something of this observation was skipped
      rcases admitFields_records hvalue (chart.knownPaths old.runId old.sourceId) with
        hknown | htruncated
      · refine Or.inl ?_
        rcases ((admitFields_extends _ _).known_iff path).mp hknown with hold | hadded
        · obtain ⟨field, hfield, hrun, hsource, hpath⟩ := ChartIndex.mem_knownPaths.mp hold
          exact ⟨field, List.mem_append_left _ hfield, by
            simp [ChartIndex.fieldTable, hrun, hsource, hpath]⟩
        · exact ⟨_, List.mem_append_right _ (List.mem_map_of_mem hadded), rfl⟩
      · exact Or.inr (ChartIndex.skips_countRun
          (Or.inr ⟨rfl, ChartIndex.truncated_observationOf htruncated⟩))
  · dsimp only
    rw [runObservations_concat, hkind, ChartIndex.lookup_countRun]
    by_cases hrun : row.runId = run
    · subst hrun
      rw [if_pos ⟨rfl, rfl⟩, if_pos rfl, List.map_append, List.map_singleton, hobserved]
      exact (h.counts row.runId).concat _ _ _
    · rw [if_neg fun hboth ↦ hrun hboth.1, if_neg hrun, List.append_nil]
      exact h.counts run

end Add

/-- A complete index lists what its rows report. -/
theorem chartCoverage_of_built {serde : Serde} (hserde : serde.RoundTrip)
    {rows : List SnapshotRow} {chart : ChartIndex} (hrows : ∀ row ∈ rows, Written row)
    (h : (chartProjection serde).Built rows chart) : ChartCoverage serde rows chart := by
  induction rows using List.reverseRecOn generalizing chart with
  | nil =>
    rw [Projection.built_nil.mp h]
    refine ⟨by simp [chartProjection, ChartIndex.empty], fun run source path hreports ↦ ?_,
      fun run ↦ rfl⟩
    obtain ⟨row, snapshot, hobserves, -⟩ := hreports
    cases hobserves.stored
  | append_singleton rows row ih =>
    obtain ⟨middle, hmiddle, hrow⟩ := Projection.built_concat.mp h
    obtain ⟨snapshot, hdecode, hrun⟩ := indexRow_returns.mp hrow
    obtain ⟨written, hwritten⟩ := hrows row (by simp)
    obtain rfl : written = snapshot := by
      simpa [hwritten.decode hserde] using hdecode
    have hold := ih (fun old hmem ↦ hrows old (List.mem_append_left _ hmem)) hmiddle
    rw [ChartIndex.eq_of_returns_insert hwritten.valid hrun]
    cases hevent : written.isEvent with
    | true =>
      rw [ChartIndex.add, if_pos hevent]
      exact hold.touch hdecode hevent
    | false => exact hold.observe hdecode hwritten.observed hevent

end Rvx.Engine
