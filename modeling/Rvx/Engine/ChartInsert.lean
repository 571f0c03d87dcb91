import Rvx.Engine.ChartIndex

/-!
# What a chart insertion does

A successful insertion appends the rows of one snapshot to every table, and it succeeds for every
valid snapshot whose ID is fresh: discovered paths and axes are only inserted when they are not
known yet, and all other keys contain the new ID.
-/

namespace Rvx.Engine

open Core

/-! ## Admission -/

/-- Admitting one more name keeps the admitted names new, distinct and known. -/
theorem admit_new {known known' : OrderedSet String} {added : List String} {name : String}
    (hnodup : added.Nodup) (hfresh : ∀ other ∈ added, other ∉ known)
    (hknown : ∀ other, other ∈ known' ↔ other ∈ known ∨ other ∈ added) (hnew : name ∉ known') :
    (added ++ [name]).Nodup ∧ (∀ other ∈ added ++ [name], other ∉ known) ∧
      ∀ other, other ∈ OrderedSet.insert name known' ↔
        other ∈ known ∨ other ∈ added ++ [name] := by
  rw [hknown, not_or] at hnew
  refine ⟨?_, ?_, ?_⟩
  · rw [List.nodup_append]
    refine ⟨hnodup, by simp, fun old hold other hother ↦ ?_⟩
    rw [List.mem_singleton.mp hother]
    exact fun heq ↦ hnew.2 (heq ▸ hold)
  · intro other hother
    cases List.mem_append.mp hother with
    | inl hold => exact hfresh other hold
    | inr hlast => exact List.mem_singleton.mp hlast ▸ hnew.1
  · intro other
    rw [OrderedSet.mem_insert, hknown, List.mem_append, List.mem_singleton]
    tauto

namespace Admission

/-- The admitted paths are new, distinct and known afterwards. -/
structure Extends (known : OrderedSet String) (admission : Admission) : Prop where
  nodup : admission.added.Nodup
  fresh : ∀ path ∈ admission.added, path ∉ known
  known_iff : ∀ path, path ∈ admission.known ↔ path ∈ known ∨ path ∈ admission.added

theorem Extends.consider {known : OrderedSet String} {admission : Admission}
    (h : admission.Extends known) (path : String) : (admission.consider path).Extends known := by
  unfold Admission.consider
  split
  · exact h
  · rename_i hknown
    split
    · exact ⟨h.nodup, h.fresh, h.known_iff⟩
    · obtain ⟨hnodup, hfresh, hiff⟩ := admit_new h.nodup h.fresh h.known_iff hknown
      exact ⟨hnodup, hfresh, hiff⟩

theorem extends_foldl {known : OrderedSet String} {admission : Admission} (paths : List String)
    (h : admission.Extends known) : (paths.foldl Admission.consider admission).Extends known := by
  induction paths generalizing admission with
  | nil => exact h
  | cons path rest ih => exact ih (h.consider path)

end Admission

theorem admitFields_extends (state : Value) (known : OrderedSet String) :
    (admitFields state known).Extends known :=
  Admission.extends_foldl _ ⟨by simp, by simp, by simp⟩

namespace AxisAdmission

/-- The admitted axes are new, distinct and known afterwards. -/
structure Extends (known : OrderedSet String) (admission : AxisAdmission) : Prop where
  nodup : admission.added.Nodup
  fresh : ∀ name ∈ admission.added, name ∉ known
  known_iff : ∀ name, name ∈ admission.known ↔ name ∈ known ∨ name ∈ admission.added

theorem Extends.consider {known : OrderedSet String} {admission : AxisAdmission}
    (h : admission.Extends known) (name : String) : (admission.consider name).Extends known := by
  unfold AxisAdmission.consider
  split
  · exact h
  · rename_i hknown
    split
    · obtain ⟨hnodup, hfresh, hiff⟩ := admit_new h.nodup h.fresh h.known_iff hknown
      exact ⟨hnodup, hfresh, hiff⟩
    · exact ⟨h.nodup, h.fresh, h.known_iff⟩

theorem extends_foldl {known : OrderedSet String} {admission : AxisAdmission} (names : List String)
    (h : admission.Extends known) :
    (names.foldl AxisAdmission.consider admission).Extends known := by
  induction names generalizing admission with
  | nil => exact h
  | cons name rest ih => exact ih (h.consider name)

end AxisAdmission

theorem admitAxes_extends (snapshot : StateSnapshot) (known : OrderedSet String)
    (truncated : Bool) : (admitAxes snapshot known truncated).Extends known :=
  AxisAdmission.extends_foldl _ ⟨by simp, by simp, by simp⟩

/-! ## The result of an insertion -/

namespace ChartIndex

variable {id : ℕ} {run source : String} {snapshot : StateSnapshot} {chart chart' : ChartIndex}

/-- The fields found in one snapshot of a source. -/
def fieldsOf (run source : String) (snapshot : StateSnapshot) (chart : ChartIndex) : Admission :=
  admitFields snapshot.state.value (chart.knownPaths run source)

/-- The axes found in one snapshot of a source. -/
def axesOf (run source : String) (snapshot : StateSnapshot) (chart : ChartIndex) : AxisAdmission :=
  admitAxes snapshot (chart.knownAxes run source) (chart.fieldsOf run source snapshot).truncated

/-- The observation row of one snapshot. -/
def observationOf (id : ℕ) (run source : String) (snapshot : StateSnapshot) (chart : ChartIndex) :
    ObservationRow :=
  let collapsed := collapseExclusions (chart.fieldsOf run source snapshot).exclusions
  ⟨id, (chart.axesOf run source snapshot).truncated || collapsed.2, collapsed.1⟩

/-- The tables after one snapshot was inserted. -/
def add (id : ℕ) (run source : String) (snapshot : StateSnapshot) (chart : ChartIndex) :
    ChartIndex :=
  if snapshot.isEvent then chart.touch id
  else
    { version := chart.version
      lastId := id
      fields := chart.fields ++
        (chart.fieldsOf run source snapshot).added.map fun path ↦ ⟨run, source, path, id⟩
      values := chart.values ++
        valueRows id snapshot.state.value (chart.fieldsOf run source snapshot).known
      axes := chart.axes ++ (logicalAxes snapshot).map fun axis ↦ ⟨id, axis.1, axis.2⟩
      observations := chart.observations ++ [chart.observationOf id run source snapshot]
      runs := (chart.countRun run snapshot.observedAtNs
        (chart.observationOf id run source snapshot).truncated).runs
      sourceAxes := chart.sourceAxes ++
        (chart.axesOf run source snapshot).added.map fun name ↦ ⟨run, source, name⟩ }

theorem eq_of_returns_insert (hvalid : snapshot.Valid) {value : Unit}
    (h : (insert id run source snapshot).Returns chart value chart') :
    chart' = chart.add id run source snapshot := by
  simp only [insert, Script.returns_bind, Script.returns_check, hvalid.isTrackerEvent,
    Except.mapError, Except.ok.injEq] at h
  obtain ⟨event, _, ⟨rfl, rfl⟩, hbody⟩ := h
  unfold add
  cases hevent : snapshot.isEvent with
  | true =>
    rw [hevent, if_pos rfl] at hbody
    rw [if_pos rfl]
    exact (Script.returns_modify.mp hbody).symm
  | false =>
    simp only [hevent, Bool.false_eq_true, if_false, Script.returns_bind, Script.returns_read,
      Script.returns_modify, StoreTable.returns_insert] at hbody ⊢
    obtain ⟨_, _, ⟨rfl, rfl⟩, _, _, hfields, _, _, hvalues, _, _, ⟨rfl, rfl⟩, _, _, haxes, _, _,
      hsource, _, _, ⟨-, rfl⟩, _, _, rfl, rfl⟩ := hbody
    have hfields := StoreTable.eq_of_returns_insertEach hfields
    subst hfields
    have hvalues := StoreTable.eq_of_returns_insertEach hvalues
    subst hvalues
    have haxes := StoreTable.eq_of_returns_insertEach haxes
    subst haxes
    have hsource := StoreTable.eq_of_returns_insertEach hsource
    subst hsource
    rfl

/-- All rows belong to snapshots before `id`. -/
structure Before (id : ℕ) (chart : ChartIndex) : Prop where
  values : ∀ row ∈ chart.values, row.snapshotId < id
  axes : ∀ row ∈ chart.axes, row.snapshotId < id
  observations : ∀ row ∈ chart.observations, row.snapshotId < id

theorem mem_valueRows {state : Value} {known : OrderedSet String} {row : ValueRow} :
    row ∈ valueRows id state known ↔ row.snapshotId = id ∧ row.path ∈ known ∧
      (state.pointer row.path).bind Value.asF64 = some row.value := by
  simp only [valueRows, List.mem_filterMap, Option.map_eq_some_iff]
  constructor
  · rintro ⟨path, hpath, value, hvalue, rfl⟩
    exact ⟨rfl, hpath, hvalue⟩
  · rintro ⟨rfl, hpath, hvalue⟩
    exact ⟨row.path, hpath, row.value, hvalue, rfl⟩

theorem before_add (h : chart.Before id) :
    (chart.add id run source snapshot).Before (id + 1) := by
  unfold add
  split
  · exact ⟨fun row hrow ↦ Nat.lt_succ_of_lt (h.values row hrow),
      fun row hrow ↦ Nat.lt_succ_of_lt (h.axes row hrow),
      fun row hrow ↦ Nat.lt_succ_of_lt (h.observations row hrow)⟩
  · refine ⟨fun row hrow ↦ ?_, fun row hrow ↦ ?_, fun row hrow ↦ ?_⟩
    · cases List.mem_append.mp hrow with
      | inl hold => exact Nat.lt_succ_of_lt (h.values row hold)
      | inr hnew =>
        have hid := (mem_valueRows.mp hnew).1
        omega
    · cases List.mem_append.mp hrow with
      | inl hold => exact Nat.lt_succ_of_lt (h.axes row hold)
      | inr hnew =>
        obtain ⟨axis, -, rfl⟩ := List.mem_map.mp hnew
        exact Nat.lt_succ_self id
    · cases List.mem_append.mp hrow with
      | inl hold => exact Nat.lt_succ_of_lt (h.observations row hold)
      | inr hnew =>
        rw [List.mem_singleton.mp hnew]
        exact Nat.lt_succ_self id

theorem mem_knownPaths {path : String} :
    path ∈ chart.knownPaths run source ↔
      ∃ row ∈ chart.fields, row.runId = run ∧ row.sourceId = source ∧ row.path = path := by
  simp [knownPaths, and_assoc]

theorem mem_knownAxes {name : String} :
    name ∈ chart.knownAxes run source ↔
      ∃ row ∈ chart.sourceAxes, row.runId = run ∧ row.sourceId = source ∧ row.name = name := by
  simp [knownAxes, and_assoc]

/-- A valid snapshot with a fresh ID is always inserted. -/
theorem insert_returns (hvalid : snapshot.Valid) (h : chart.Before id) :
    (insert id run source snapshot).Returns chart () (chart.add id run source snapshot) := by
  unfold add
  simp only [insert, Script.returns_bind, Script.returns_check, hvalid.isTrackerEvent,
    Except.mapError, Except.ok.injEq]
  refine ⟨_, _, ⟨rfl, rfl⟩, ?_⟩
  cases hevent : snapshot.isEvent with
  | true =>
    rw [if_pos rfl, if_pos rfl]
    exact Script.returns_modify.mpr rfl
  | false =>
    simp only [Bool.false_eq_true, if_false, Script.returns_bind, Script.returns_read,
      Script.returns_modify, StoreTable.returns_insert]
    have hfields := admitFields_extends snapshot.state.value (chart.knownPaths run source)
    have haxes := admitAxes_extends snapshot (chart.knownAxes run source)
      (chart.fieldsOf run source snapshot).truncated
    refine ⟨_, _, ⟨rfl, rfl⟩, (), _, StoreTable.returns_insertEach ?_ ?_, (), _,
      StoreTable.returns_insertEach ?_ ?_, _, _, ⟨rfl, rfl⟩, (), _,
      StoreTable.returns_insertEach ?_ ?_, (), _, StoreTable.returns_insertEach ?_ ?_, (), _,
      ⟨?_, rfl⟩, (), _, rfl, rfl⟩
    · rw [List.map_map]
      refine hfields.nodup.map fun left right heq ↦ ?_
      simpa [fieldTable] using heq
    · intro row hrow old hold heq
      obtain ⟨path, hpath, rfl⟩ := List.mem_map.mp hrow
      simp only [fieldTable, Prod.mk.injEq] at hold heq
      exact hfields.fresh path hpath (mem_knownPaths.mpr ⟨old, hold, heq⟩)
    · have hnodup := (admitFields snapshot.state.value (chart.knownPaths run source)).known.nodup_keys
      refine List.Nodup.map_on ?_ (hnodup.filterMap ?_)
      · intro left hleft right hright heq
        obtain ⟨hid, -, hvalue⟩ := mem_valueRows.mp hleft
        obtain ⟨hid', -, hvalue'⟩ := mem_valueRows.mp hright
        simp only [valueTable, Prod.mk.injEq] at heq
        rw [heq.2] at hvalue
        cases left
        cases right
        simp_all
      · intro path path' row hrow hrow'
        simp only [Option.mem_def, Option.map_eq_some_iff] at hrow hrow'
        obtain ⟨value, -, rfl⟩ := hrow
        obtain ⟨value', -, heq⟩ := hrow'
        exact (ValueRow.mk.inj heq).2.1.symm
    · intro row hrow old hold heq
      have hid := (mem_valueRows.mp hrow).1
      have hlt := h.values old hold
      simp only [valueTable, Prod.mk.injEq] at heq
      omega
    · rw [List.map_map]
      have hnames : ((logicalAxes snapshot).map Prod.fst).Nodup :=
        snapshot.axes.nodup_keys.sublist (List.filter_sublist.map Prod.fst)
      have hkeys := hnames.map (f := fun name ↦ (id, name)) fun left right heq ↦ by simpa using heq
      rw [List.map_map] at hkeys
      exact hkeys
    · intro row hrow old hold heq
      obtain ⟨axis, -, rfl⟩ := List.mem_map.mp hrow
      have hlt := h.axes old hold
      simp only [axisTable, Prod.mk.injEq] at heq
      omega
    · rw [List.map_map]
      refine haxes.nodup.map fun left right heq ↦ ?_
      simpa [sourceAxisTable] using heq
    · intro row hrow old hold heq
      obtain ⟨name, hname, rfl⟩ := List.mem_map.mp hrow
      simp only [sourceAxisTable, Prod.mk.injEq] at heq
      exact haxes.fresh name hname (mem_knownAxes.mpr ⟨old, hold, heq⟩)
    · intro old hold heq
      have hlt := h.observations old hold
      simp only [observationTable] at heq
      omega

end ChartIndex

end Rvx.Engine
