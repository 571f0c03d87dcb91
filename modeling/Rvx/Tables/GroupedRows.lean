import Rvx.Tables.Accumulators

/-!
# What the groups know

Every matching record has a place: the key of its group and its source.  After a scan, the series at
a place describes the records that have it, measure by measure.
-/

namespace Rvx.Tables

open Core Engine Grouping

/-- The key of a group and a source. -/
abbrev Place : Type := String × (String ×ₗ String)

section Places

variable (request : SnapshotAggregateRequest)

/-- The key of the group of a record. -/
def rowKey (row : Record) : Option String :=
  ((dimensions request).mapM fun dimension ↦ scalar false (dimension.cell row)).toOption.map
    componentsText

def rowPlace (row : Record) : Option Place :=
  (rowKey request row).map fun key ↦ (key, sourceKey row.snapshot)

/-- The series at a place. -/
def seriesAt (groups : OrderedMap String Group) (place : Place) : Option Series :=
  (groups.get? place.1).bind fun group ↦ group.series.get? place.2

/-- The cells of a measure at a place. -/
def cellsAt (rows : List Record) (place : Place) (measure : SnapshotMeasure) : List (Option Cell) :=
  (group (rowPlace request) rows place).map fun row ↦ measuredCell row measure

/-- The groups describe these records. -/
structure Grouped (rows : List Record) (groups : OrderedMap String Group) : Prop where
  placed : ∀ row ∈ rows, ∃ place, rowPlace request row = some place
  keys : ∀ key group, groups.get? key = some group → group.series.entries ≠ []
  absent : ∀ place, seriesAt groups place = none ↔ group (rowPlace request) rows place = []
  states : ∀ place series, seriesAt groups place = some series →
    sourceKey series.snapshot = place.2 ∧
    List.Forall₂ (fun measure state ↦ Accumulated measure (cellsAt request rows place measure) state)
      request.measures series.measures

end Places

section Steps

variable {request : SnapshotAggregateRequest} {rows : List Record}
  {groups groups' : OrderedMap String Group} {row : Record} {budget budget' : WorkBudget}

theorem grouped_nil : Grouped request [] OrderedMap.empty := by
  refine ⟨by simp, ?_, fun place ↦ iff_of_true rfl rfl, ?_⟩
  · rintro key group ⟨⟩
  · rintro place series ⟨⟩

theorem addMeasures_states {cells : SnapshotMeasure → List (Option Cell)}
    {measures : List SnapshotMeasure} {states states' : List Accumulator}
    (h : List.Forall₂ (fun measure state ↦ Accumulated measure (cells measure) state) measures states)
    (hadd : (addMeasures row measures states).Returns budget states' budget') :
    List.Forall₂ (fun measure state ↦
      Accumulated measure (cells measure ++ [measuredCell row measure]) state) measures states' := by
  induction h generalizing states' budget budget' with
  | nil =>
    rw [addMeasures, Script.returns_pure] at hadd
    · exact hadd.1 ▸ List.Forall₂.nil
    · simp
  | cons hstate _ ih =>
    simp only [addMeasures, Script.returns_bind, Script.returns_pure] at hadd
    obtain ⟨_, _, -, state, _, hstep, others, _, hothers, rfl, rfl⟩ := hadd
    exact List.Forall₂.cons (hstate.step hstep) (ih hothers)

/-- The components of a record are the scalars of its dimensions. -/
theorem components_eq {fields : List FieldPath} {components : List Component}
    (h : (Script.collect fields fun dimension ↦ do
      WorkBudget.visit
      Script.check (scalar false (dimension.cell row))).Returns budget components budget') :
    (fields.mapM fun dimension ↦ scalar false (dimension.cell row)) = .ok components := by
  induction fields generalizing components budget with
  | nil =>
    rw [Script.collect, Script.returns_pure] at h
    rw [← h.1]
    rfl
  | cons field rest ih =>
    simp only [Script.collect, Script.returns_bind, Script.returns_check, Script.returns_pure] at h
    obtain ⟨component, _, ⟨_, _, -, hscalar, rfl⟩, others, _, hothers, rfl, rfl⟩ := h
    rw [List.mapM_cons, hscalar, ih hothers]
    rfl

/-- What adding a record does: the series at its place is extended, or begun. -/
theorem addRow_spec (h : (addRow request groups row).Returns budget groups' budget') :
    ∃ key cells series states budget budget', rowKey request row = some key ∧
      cells = (groups.get? key).elim ((dimensions request).map fun dimension ↦
        preview (dimension.cell row)) Group.cells ∧
      series = (seriesAt groups (key, sourceKey row.snapshot)).getD
        ⟨row.snapshot, request.measures.map fun _ ↦ Accumulator.empty⟩ ∧
      (addMeasures row request.measures series.measures).Returns budget states budget' ∧
      groups' = groups.insert key ⟨cells, ((groups.get? key).elim OrderedMap.empty Group.series).insert
        (sourceKey row.snapshot) { series with measures := states }⟩ := by
  simp only [addRow, Script.returns_bind, Script.returns_pure] at h
  obtain ⟨components, _, hcomponents, _, _, -, _, _, -, states, _, hstates, rfl, -⟩ := h
  have hkey : rowKey request row = some (componentsText components) := by
    rw [rowKey, components_eq hcomponents]
    rfl
  have hgroup : ((groups.get? (componentsText components)).getD ⟨(dimensions request).map
      fun dimension ↦ preview (dimension.cell row), OrderedMap.empty⟩).series =
        (groups.get? (componentsText components)).elim OrderedMap.empty Group.series := by
    cases groups.get? (componentsText components) with
    | none => rfl
    | some group => rfl
  have hseries : seriesAt groups (componentsText components, sourceKey row.snapshot) =
      ((groups.get? (componentsText components)).elim OrderedMap.empty Group.series).get?
        (sourceKey row.snapshot) := by
    unfold seriesAt
    cases groups.get? (componentsText components) with
    | none => rfl
    | some group => rfl
  rw [hgroup, ← hseries] at hstates
  rw [hgroup, ← hseries]
  refine ⟨componentsText components, _, _, states, _, _, hkey, ?_, rfl, hstates, rfl⟩
  cases groups.get? (componentsText components) with
  | none => rfl
  | some group => rfl

/-- Where a series is put, and where nothing changes. -/
theorem seriesAt_insert {key : String} {cells : List TableCell} {source : String ×ₗ String}
    {series : Series} (place : Place) :
    seriesAt (groups.insert key ⟨cells,
      ((groups.get? key).elim OrderedMap.empty Group.series).insert source series⟩) place =
      if place = (key, source) then some series else seriesAt groups place := by
  obtain ⟨other, otherSource⟩ := place
  have hknown : ((groups.get? key).elim OrderedMap.empty Group.series).get? otherSource =
      seriesAt groups (key, otherSource) := by
    unfold seriesAt
    cases groups.get? key with
    | none => rfl
    | some group => rfl
  by_cases hkey : other = key
  · subst hkey
    rw [seriesAt, OrderedMap.get?_insert_self, Option.bind_some, OrderedMap.get?_insert, hknown]
    simp only [Prod.mk.injEq, true_and]
  · rw [seriesAt, OrderedMap.get?_insert_of_ne hkey, if_neg (by simp [hkey])]
    rfl

/-- The series at a place describes what was seen there, also if it was just begun. -/
theorem Grouped.series_spec (h : Grouped request rows groups) (row : Record) (key : String) :
    let series := (seriesAt groups (key, sourceKey row.snapshot)).getD
      ⟨row.snapshot, request.measures.map fun _ ↦ Accumulator.empty⟩
    sourceKey series.snapshot = sourceKey row.snapshot ∧
      List.Forall₂ (fun measure state ↦
        Accumulated measure (cellsAt request rows (key, sourceKey row.snapshot) measure) state)
        request.measures series.measures := by
  cases hat : seriesAt groups (key, sourceKey row.snapshot) with
  | some series => exact h.states _ series hat
  | none =>
    refine ⟨rfl, List.forall₂_map_right_iff.mpr (List.forall₂_same.mpr fun measure _ ↦ ?_)⟩
    rw [cellsAt, (h.absent _).mp hat]
    exact Accumulated.nil measure

theorem Grouped.step (h : Grouped request rows groups)
    (hadd : (addRow request groups row).Returns budget groups' budget') :
    Grouped request (rows ++ [row]) groups' := by
  obtain ⟨key, cells, series, states, _, _, hkey, -, hseries, hstates, rfl⟩ := addRow_spec hadd
  have hplace : rowPlace request row = some (key, sourceKey row.snapshot) := by
    rw [rowPlace, hkey]
    rfl
  have hgroup (place : Place) : group (rowPlace request) (rows ++ [row]) place =
      group (rowPlace request) rows place ++
        if place = (key, sourceKey row.snapshot) then [row] else [] := by
    rw [group_concat, hplace]
    simp only [Option.some.injEq, eq_comm]
  obtain ⟨hsource, hknown⟩ := h.series_spec row key
  rw [← hseries] at hsource hknown
  constructor
  · intro other hother
    obtain hother | hother := List.mem_append.mp hother
    · exact h.placed other hother
    · rw [List.mem_singleton.mp hother]
      exact ⟨_, hplace⟩
  · intro other group hgroup
    rw [OrderedMap.get?_insert] at hgroup
    split_ifs at hgroup with heq
    · rw [← Option.some.inj hgroup]
      intro hnil
      have hmem : sourceKey row.snapshot ∈ (((groups.get? key).elim OrderedMap.empty
          Group.series).insert (sourceKey row.snapshot) { series with measures := states }) :=
        OrderedMap.mem_insert.mpr (Or.inl rfl)
      rw [OrderedMap.mem_def, OrderedMap.keys, hnil] at hmem
      cases hmem
    · exact h.keys other group hgroup
  · intro place
    rw [seriesAt_insert, hgroup]
    split_ifs with heq
    · exact iff_of_false (by simp) (by simp)
    · rw [List.append_nil]
      exact h.absent place
  · intro place other hother
    rw [seriesAt_insert] at hother
    split_ifs at hother with heq
    · obtain rfl := Option.some.inj hother
      rw [heq]
      refine ⟨hsource, (addMeasures_states hknown hstates).imp fun measure state hstate ↦ ?_⟩
      rw [cellsAt, hgroup, if_pos rfl, List.map_append]
      exact hstate
    · obtain ⟨hother, hstates⟩ := h.states place other hother
      refine ⟨hother, hstates.imp fun measure state hstate ↦ ?_⟩
      rw [cellsAt, hgroup, if_neg heq, List.append_nil]
      exact hstate

/-- What a group and a series show was taken from records that belong there. -/
structure Drawn (request : SnapshotAggregateRequest) (rows : List Record)
    (groups : OrderedMap String Group) : Prop where
  cells : ∀ key group, groups.get? key = some group → ∃ row ∈ rows, rowKey request row = some key ∧
    group.cells = (dimensions request).map fun dimension ↦ preview (dimension.cell row)
  snapshots : ∀ place series, seriesAt groups place = some series → ∃ row ∈ rows,
    rowPlace request row = some place ∧ series.snapshot = row.snapshot

theorem drawn_nil : Drawn request [] OrderedMap.empty := by
  constructor
  · rintro key group ⟨⟩
  · rintro place series ⟨⟩

theorem Drawn.step (h : Drawn request rows groups)
    (hadd : (addRow request groups row).Returns budget groups' budget') :
    Drawn request (rows ++ [row]) groups' := by
  obtain ⟨key, cells, series, states, _, _, hkey, hcells, hseries, -, rfl⟩ := addRow_spec hadd
  have hlast : row ∈ rows ++ [row] := List.mem_append_right _ List.mem_cons_self
  have hplace : rowPlace request row = some (key, sourceKey row.snapshot) := by
    rw [rowPlace, hkey]
    rfl
  constructor
  · intro other group hgroup
    rw [OrderedMap.get?_insert] at hgroup
    split_ifs at hgroup with heq
    · rw [← Option.some.inj hgroup, heq]
      cases hknown : groups.get? key with
      | none =>
        rw [hknown] at hcells
        exact ⟨row, hlast, hkey, hcells⟩
      | some known =>
        obtain ⟨before, hbefore, hbeforeKey, hshown⟩ := h.cells key known hknown
        rw [hknown] at hcells
        exact ⟨before, List.mem_append_left _ hbefore, hbeforeKey, hcells.trans hshown⟩
    · obtain ⟨before, hbefore, hshown⟩ := h.cells other group hgroup
      exact ⟨before, List.mem_append_left _ hbefore, hshown⟩
  · intro place other hother
    rw [seriesAt_insert] at hother
    split_ifs at hother with heq
    · rw [← Option.some.inj hother, heq]
      cases hknown : seriesAt groups (key, sourceKey row.snapshot) with
      | none =>
        rw [hknown] at hseries
        exact ⟨row, hlast, hplace, congrArg Series.snapshot hseries⟩
      | some known =>
        obtain ⟨before, hbefore, hbeforePlace, hshown⟩ := h.snapshots _ known hknown
        rw [hknown] at hseries
        exact ⟨before, List.mem_append_left _ hbefore, hbeforePlace,
          (congrArg Series.snapshot hseries).trans hshown⟩
    · obtain ⟨before, hbefore, hshown⟩ := h.snapshots place other hother
      exact ⟨before, List.mem_append_left _ hbefore, hshown⟩

/-- A scan of the records groups them. -/
theorem groupRows_grouped (h : (groupRows request rows).Returns budget groups budget') :
    Grouped request rows groups :=
  Script.Returns.foldlM_seen (fun _ _ _ _ _ _ hgrouped hadd ↦ hgrouped.step hadd) grouped_nil h

theorem groupRows_drawn (h : (groupRows request rows).Returns budget groups budget') :
    Drawn request rows groups :=
  Script.Returns.foldlM_seen (fun _ _ _ _ _ _ hdrawn hadd ↦ hdrawn.step hadd) drawn_nil h

end Steps

/-! ## Visited records -/

section Visits

variable {α β : Type} {budget budget' : WorkBudget}

/-- Every run of the work counts so many visits at least, and none above the budget. -/
def Visits (work : Work α) (count : ℕ) : Prop :=
  ∀ budget value budget', work.Returns budget value budget' →
    budget.nodes + count ≤ budget'.nodes ∧ budget'.nodes ≤ max budget.nodes MAX_TABLE_NODES

theorem visits_of_same {work : Work α} (h : ∀ budget value budget',
    work.Returns budget value budget' → budget'.nodes = budget.nodes) : Visits work 0 := by
  intro budget value budget' hrun
  rw [h budget value budget' hrun]
  exact ⟨le_rfl, le_max_left _ _⟩

theorem visits_pure (value : α) : Visits (pure value : Work α) 0 :=
  visits_of_same fun _ _ _ hrun ↦ by rw [← (Script.returns_pure.mp hrun).2]

theorem visits_check (result : Except EngineError α) : Visits (Script.check result) 0 :=
  visits_of_same fun _ _ _ hrun ↦ by rw [← (Script.returns_check.mp hrun).2]

theorem visits_text (bytes : ℕ) : Visits (WorkBudget.text bytes) 0 := by
  apply visits_of_same
  intro budget value budget' hrun
  simp only [WorkBudget.text, Script.returns_bind, Script.returns_modify, Script.returns_read,
    Script.returns_check] at hrun
  obtain ⟨_, _, rfl, _, _, ⟨-, rfl⟩, -, rfl⟩ := hrun
  rfl

theorem visits_visit : Visits WorkBudget.visit 1 := by
  intro budget value budget' hrun
  simp only [WorkBudget.visit, Script.returns_bind, Script.returns_modify, Script.returns_read,
    Script.returns_check, Check.reject_ok] at hrun
  obtain ⟨_, _, rfl, _, _, ⟨rfl, rfl⟩, hwithin, rfl⟩ := hrun
  exact ⟨le_rfl, le_max_of_le_right (not_lt.mp hwithin)⟩

theorem Visits.bind {work : Work α} {next : α → Work β} {count more : ℕ} (h : Visits work count)
    (hnext : ∀ value, Visits (next value) more) : Visits (work >>= next) (count + more) := by
  intro budget value budget' hrun
  obtain ⟨middle, between, hfirst, hrest⟩ := Script.returns_bind.mp hrun
  have hbefore := h budget middle between hfirst
  have hafter := hnext middle between value budget' hrest
  omega

theorem Visits.after {work : Work α} {next : α → Work β} {more : ℕ} (h : Visits work 0)
    (hnext : ∀ value, Visits (next value) more) : Visits (work >>= next) more := by
  have hboth := h.bind hnext
  rwa [Nat.zero_add] at hboth

theorem Visits.mono {work : Work α} {count fewer : ℕ} (h : Visits work count)
    (hle : fewer ≤ count) : Visits work fewer := by
  intro budget value budget' hrun
  have hcount := h budget value budget' hrun
  omega

/-- A loop visits as often as all its turns. -/
theorem visits_collect {items : List β} {statement : β → Work α} {count : ℕ}
    (h : ∀ item, Visits (statement item) count) :
    Visits (Script.collect items statement) (items.length * count) := by
  induction items with
  | nil =>
    rw [List.length_nil, Nat.zero_mul]
    exact visits_pure []
  | cons item rest ih =>
    have hturn := (h item).bind fun value ↦ ih.bind fun values ↦ visits_pure (value :: values)
    apply hturn.mono
    rw [List.length_cons, Nat.succ_mul]
    omega

theorem visits_foldlM {step : α → β → Work α} {items : List β} {start : α} {count : ℕ}
    (h : ∀ state item, Visits (step state item) count) :
    Visits (items.foldlM step start) (items.length * count) := by
  induction items generalizing start with
  | nil =>
    rw [List.length_nil, Nat.zero_mul]
    exact visits_pure start
  | cons item rest ih =>
    apply ((h start item).bind fun state ↦ ih).mono
    rw [List.length_cons, Nat.succ_mul]
    omega

theorem visits_add (measure : SnapshotMeasure) (cell : Option Cell) (state : Accumulator) :
    Visits (state.add measure cell) 0 := by
  unfold Accumulator.add
  split_ifs
  · split
    · exact visits_pure _
    · exact visits_pure _
    · exact visits_pure _
  · split
    · rename_i number
      unfold Accumulator.addNumber
      refine (visits_text _).after fun _ ↦ ?_
      cases measure.op with
      | count => exact visits_pure _
      | sum => exact visits_check _
      | min => exact (visits_text _).after fun _ ↦ visits_pure _
      | max => exact visits_pure _
    · exact visits_pure _
    · exact visits_pure _
    · exact visits_pure _
    · exact visits_pure _

theorem visits_addMeasures (row : Record) (measures : List SnapshotMeasure)
    (states : List Accumulator) : Visits (addMeasures row measures states) 0 := by
  induction measures generalizing states with
  | nil =>
    rw [addMeasures]
    · exact visits_pure []
    · simp
  | cons measure measures ih =>
    cases states with
    | nil =>
      rw [addMeasures]
      · exact visits_pure []
      · simp
    | cons state states =>
      apply (visits_visit.bind fun _ ↦ (visits_add measure _ state).bind fun _ ↦
        (ih states).bind fun _ ↦ visits_pure _).mono
      exact Nat.zero_le _

theorem visits_addRow (request : SnapshotAggregateRequest) (groups : OrderedMap String Group)
    (row : Record) : Visits (addRow request groups row) request.groupBy.length := by
  unfold addRow
  have hcomponents : Visits (Script.collect (dimensions request) fun dimension ↦ do
      WorkBudget.visit
      Script.check (scalar false (dimension.cell row))) ((dimensions request).length * 1) :=
    visits_collect fun _ ↦ visits_visit.bind fun _ ↦ visits_check _
  apply (hcomponents.bind fun _ ↦ (visits_text _).bind fun _ ↦ (visits_check _).bind fun _ ↦
    (visits_addMeasures row request.measures _).bind fun _ ↦ visits_pure _).mono
  simp [dimensions]

/-- There are at most as many records as nodes are visited. -/
theorem length_of_groupRows {request : SnapshotAggregateRequest} {rows : List Record}
    {groups : OrderedMap String Group} (hdimensions : 1 ≤ request.groupBy.length)
    (h : (groupRows request rows).Returns budget groups budget') : rows.length ≤ MAX_TABLE_NODES := by
  have hvisits : Visits (groupRows request rows) (rows.length * request.groupBy.length) :=
    visits_foldlM (visits_addRow request)
  have hcount : rows.length ≤ rows.length * request.groupBy.length :=
    Nat.le_mul_of_pos_right _ hdimensions
  have hnodes := hvisits budget groups budget' h
  omega

end Visits

end Rvx.Tables
