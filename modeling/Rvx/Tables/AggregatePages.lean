import Rvx.Tables.GroupedRows
import Rvx.Tables.RowPages

/-!
# Pages of groups

The groups of a response show the matching records: every record belongs to one group and one
source, and each measure describes the cells of just these records.  The groups are ranked by their
largest value of a measure, or ordered by their keys.  A hash map lists them in any order, a
different one at every read, yet all pages are slices of the same listing.
-/

namespace Rvx.Tables

open Core Engine Check StableSort Selection Grouping

/-! ## Finished groups -/

/-- The place of the records that a series shows. -/
def seriesPlace (key : String) (series : SnapshotAggregateSeries) : Place :=
  (key, toLex (series.runId, series.sourceId))

def groupPlaces (group : SnapshotAggregateGroup) : List Place :=
  group.series.map (seriesPlace group.key)

/-- The places of a group of the scan. -/
def entryPlaces (entry : String × Group) : List Place :=
  entry.2.series.keys.map fun source ↦ (entry.1, source)

theorem nodup_entryPlaces {entries : List (String × Group)}
    (h : (entries.map Prod.fst).Nodup) : (entries.flatMap entryPlaces).Nodup := by
  apply List.nodup_flatMap.mpr
  constructor
  · intro entry _
    exact entry.2.series.nodup_keys.map (Prod.mk_right_injective entry.1)
  · apply (List.pairwise_map.mp h).imp
    intro entry other hne place hplace hother
    obtain ⟨_, -, rfl⟩ := List.mem_map.mp hplace
    obtain ⟨_, -, heq⟩ := List.mem_map.mp hother
    exact hne (Prod.mk.inj heq).1.symm

section Shown

variable (request : SnapshotAggregateRequest) (rows : List Record)

/-- A series shows the records of its place, measure by measure. -/
structure SeriesShown (key : String) (series : SnapshotAggregateSeries) : Prop where
  snapshot : ∃ row ∈ rows, rowPlace request row = some (seriesPlace key series) ∧
    series.snapshotId = String.ofList (printNat row.snapshot.id)
  measured : ∀ measure ∈ request.measures, ∃ value, series.measures.get? measure.id = some value ∧
    Describes measure (cellsAt request rows (seriesPlace key series) measure) value ∧
    Spelled measure (cellsAt request rows (seriesPlace key series) measure) value

/-- A group shows the scalars that its records have in common, and its sources apart. -/
structure GroupShown (group : SnapshotAggregateGroup) : Prop where
  cells : ∃ row ∈ rows, rowKey request row = some group.key ∧
    group.cells = (dimensions request).map fun dimension ↦ preview (dimension.cell row)
  series : ∀ series ∈ group.series, SeriesShown request rows group.key series

end Shown

section Finish

variable {runtime : Runtime} {request : SnapshotAggregateRequest} {rows : List Record}
  {groups : OrderedMap String Group} {budget budget' : WorkBudget}

/-- The ids of the measures are distinct. -/
theorem nodup_of_validateMeasures {seen : List String} {measures : List SnapshotMeasure}
    (h : validateMeasures seen measures = .ok ()) :
    (measures.map SnapshotMeasure.id).Nodup ∧ ∀ measure ∈ measures, measure.id ∉ seen := by
  induction measures generalizing seen with
  | nil => simp
  | cons measure rest ih =>
    have hrest : (measure.id ∉ seen) ∧ validateMeasures (measure.id :: seen) rest = .ok () := by
      unfold validateMeasures at h
      cases hpath : measure.path with
      | none =>
        simp only [hpath, bind_eq_ok, reject_ok, not_or, exists_unit] at h
        exact ⟨h.1.2, h.2.2⟩
      | some path =>
        simp only [hpath, bind_eq_ok, reject_ok, not_or, exists_unit] at h
        exact ⟨h.1.2, h.2.2⟩
    obtain ⟨hfresh, hrest⟩ := hrest
    obtain ⟨hnodup, hnew⟩ := ih hrest
    constructor
    · rw [List.map_cons, List.nodup_cons]
      refine ⟨fun hmem ↦ ?_, hnodup⟩
      obtain ⟨other, hother, heq⟩ := List.mem_map.mp hmem
      exact hnew other hother (heq ▸ List.mem_cons_self)
    · exact List.forall_mem_cons.mpr ⟨hfresh, fun other hother hmem ↦ hnew other hother (List.mem_cons_of_mem _ hmem)⟩

theorem finishMeasures_described {cells : SnapshotMeasure → List (Option Cell)}
    {measures : List SnapshotMeasure} {states : List Accumulator}
    {values values' : OrderedMap String SnapshotAggregateValue}
    (h : List.Forall₂ (fun measure state ↦ Accumulated measure (cells measure) state) measures states)
    (hnodup : (measures.map SnapshotMeasure.id).Nodup)
    (hrun : (finishMeasures runtime values measures states).Returns budget values' budget') :
    (∀ id ∉ measures.map SnapshotMeasure.id, values'.get? id = values.get? id) ∧
      ∀ measure ∈ measures, ∃ value, values'.get? measure.id = some value ∧
        Describes measure (cells measure) value ∧ Spelled measure (cells measure) value := by
  induction h generalizing values budget with
  | nil =>
    rw [finishMeasures, Script.returns_pure] at hrun
    · simp [hrun.1]
    · simp
  | @cons measure state measures states hstate _ ih =>
    simp only [finishMeasures, Script.returns_bind, Script.returns_check] at hrun
    obtain ⟨_, _, -, value, _, ⟨hvalue, -⟩, hrest⟩ := hrun
    rw [List.map_cons, List.nodup_cons] at hnodup
    obtain ⟨hother, hmeasures⟩ := ih hnodup.2 hrest
    constructor
    · intro id hid
      rw [List.map_cons, List.mem_cons, not_or] at hid
      rw [hother id hid.2, OrderedMap.get?_insert_of_ne hid.1]
    · refine List.forall_mem_cons.mpr ⟨⟨value, ?_, hstate.finish hvalue, hstate.spelled hvalue⟩,
        hmeasures⟩
      rw [hother _ hnodup.1, OrderedMap.get?_insert_self]

/-- A finished group shows the group of a scan. -/
theorem finishGroup_shown (hgrouped : Grouped request rows groups)
    (hdrawn : Drawn request rows groups) (hnodup : (request.measures.map SnapshotMeasure.id).Nodup)
    {entry : String × Group} (hentry : entry ∈ groups.entries) {group : SnapshotAggregateGroup}
    (h : (finishGroup runtime request entry).Returns budget group budget') :
    group.key = entry.1 ∧
      groupPlaces group = entryPlaces entry ∧
      GroupShown request rows group := by
  have hknown : groups.get? entry.1 = some entry.2 := OrderedMap.get?_eq_some_of_mem hentry
  unfold finishGroup at h
  obtain ⟨shown, _, hshown, h⟩ := Script.returns_bind.mp h
  obtain ⟨rfl, -⟩ := Script.returns_pure.mp h
  have hsource {item : (String ×ₗ String) × Series} {series : SnapshotAggregateSeries}
      (hfinish : ∃ before after, (finishSeries runtime request item).Returns before series after) :
      seriesPlace entry.1 series = (entry.1, item.1) := by
    obtain ⟨before, after, hfinish⟩ := hfinish
    obtain ⟨values, _, -, hfinish⟩ := Script.returns_bind.mp hfinish
    obtain ⟨rfl, -⟩ := Script.returns_pure.mp hfinish
    rfl
  refine ⟨rfl, ?_, hdrawn.cells _ _ hknown, ?_⟩
  · calc
      shown.map (seriesPlace entry.1)
        = entry.2.series.entries.map fun item ↦ (entry.1, item.1) :=
          Script.map_of_collect _ _ (fun item _ series before after hfinish ↦
            hsource ⟨before, after, hfinish⟩) hshown
      _ = entryPlaces entry := by
          rw [entryPlaces, OrderedMap.keys, List.map_map]
          rfl
  · intro series hseries
    obtain ⟨item, hitem, hfinish⟩ := Script.exists_of_mem_collect hshown hseries
    have hplace := hsource hfinish
    have hat : seriesAt groups (entry.1, item.1) = some item.2 := by
      rw [seriesAt, hknown]
      exact OrderedMap.get?_eq_some_of_mem hitem
    obtain ⟨before, after, hfinish⟩ := hfinish
    obtain ⟨values, _, hvalues, hfinish⟩ := Script.returns_bind.mp hfinish
    constructor
    · obtain ⟨row, hrow, hrowPlace, hsnapshot⟩ := hdrawn.snapshots _ _ hat
      refine ⟨row, hrow, hrowPlace.trans (congrArg some hplace.symm), ?_⟩
      rw [← (Script.returns_pure.mp hfinish).1, hsnapshot]
    · rw [hplace]
      have hmeasured := (finishMeasures_described (hgrouped.states _ _ hat).2 hnodup hvalues).2
      rwa [← (Script.returns_pure.mp hfinish).1]

/-! ## All groups -/

theorem steady_finishMeasures (runtime : Runtime) (values : OrderedMap String SnapshotAggregateValue)
    (measures : List SnapshotMeasure) (states : List Accumulator) :
    Script.Steady (finishMeasures runtime values measures states) := by
  induction measures generalizing values states with
  | nil =>
    rw [finishMeasures]
    · exact Script.steady_pure values
    · simp
  | cons measure measures ih =>
    cases states with
    | nil =>
      rw [finishMeasures]
      · exact Script.steady_pure values
      · simp
    | cons state states =>
      exact (Script.steady_unit _).bind fun _ ↦ (Script.steady_check _).bind fun _ ↦ ih _ _

theorem steady_finishGroup (runtime : Runtime) (request : SnapshotAggregateRequest)
    (entry : String × Group) : Script.Steady (finishGroup runtime request entry) := by
  apply Script.Steady.bind
  · apply Script.steady_collect
    intro item
    exact (steady_finishMeasures _ _ _ _).bind fun _ ↦ Script.steady_pure _
  · intro series
    exact Script.steady_pure _

/-- The finished groups are the same whatever the order of the hash map. -/
theorem finishGroups_perm {hash hash' : HashOrder} {output output' : List SnapshotAggregateGroup}
    {other other' : WorkBudget}
    (h : (finishGroups runtime request hash groups).Returns budget output budget')
    (h' : (finishGroups runtime request hash' groups).Returns other output' other') :
    output'.Perm output := by
  obtain ⟨_, _, hfinish, h⟩ := Script.returns_bind.mp h
  obtain ⟨_, _, -, h⟩ := Script.returns_bind.mp h
  obtain ⟨rfl, -⟩ := Script.returns_pure.mp h
  obtain ⟨_, _, hfinish', h'⟩ := Script.returns_bind.mp h'
  obtain ⟨_, _, -, h'⟩ := Script.returns_bind.mp h'
  obtain ⟨rfl, -⟩ := Script.returns_pure.mp h'
  apply Script.collect_perm (steady_finishGroup runtime request) _ hfinish hfinish'
  exact (hash'.perm groups.entries).trans (hash.perm groups.entries).symm

/-- The groups show all records, each at one place. -/
structure AllShown (request : SnapshotAggregateRequest) (rows : List Record)
    (output : List SnapshotAggregateGroup) : Prop where
  keys : (output.map SnapshotAggregateGroup.key).Nodup
  places : (output.flatMap groupPlaces).Nodup
  covers : ∀ row ∈ rows, ∃ place ∈ output.flatMap groupPlaces, rowPlace request row = some place
  shown : ∀ group ∈ output, GroupShown request rows group

theorem AllShown.perm {output output' : List SnapshotAggregateGroup}
    (h : AllShown request rows output) (hperm : output'.Perm output) :
    AllShown request rows output' := by
  have hplaces : (output'.flatMap groupPlaces).Perm (output.flatMap groupPlaces) :=
    hperm.flatMap_right groupPlaces
  constructor
  · exact (hperm.map _).nodup_iff.mpr h.keys
  · exact hplaces.nodup_iff.mpr h.places
  · intro row hrow
    obtain ⟨place, hplace, heq⟩ := h.covers row hrow
    exact ⟨place, hplaces.mem_iff.mpr hplace, heq⟩
  · intro group hgroup
    exact h.shown group (hperm.mem_iff.mp hgroup)

theorem finishGroups_shown (hgrouped : Grouped request rows groups)
    (hdrawn : Drawn request rows groups) (hnodup : (request.measures.map SnapshotMeasure.id).Nodup)
    {hash : HashOrder} {output : List SnapshotAggregateGroup}
    (h : (finishGroups runtime request hash groups).Returns budget output budget') :
    AllShown request rows output := by
  obtain ⟨_, _, hfinish, h⟩ := Script.returns_bind.mp h
  obtain ⟨_, _, -, h⟩ := Script.returns_bind.mp h
  obtain ⟨rfl, -⟩ := Script.returns_pure.mp h
  have hentries := hash.perm groups.entries
  have hone {entry : String × Group} (hentry : entry ∈ hash.order groups.entries)
      (group : SnapshotAggregateGroup) (before after : WorkBudget)
      (hgroup : (finishGroup runtime request entry).Returns before group after) :=
    finishGroup_shown hgrouped hdrawn hnodup (hentries.subset hentry) hgroup
  have hlists := Script.map_of_collect _ _ (fun entry hentry group before after hgroup ↦
    (hone hentry group before after hgroup).2.1) hfinish
  have hplaces := congrArg List.flatten hlists
  rw [← List.flatMap_def, ← List.flatMap_def] at hplaces
  have hkeys := Script.map_of_collect _ _ (fun entry hentry group before after hgroup ↦
    (hone hentry group before after hgroup).1) hfinish
  have hdistinct : ((hash.order groups.entries).map Prod.fst).Nodup :=
    (hentries.map _).nodup_iff.mpr groups.nodup_keys
  constructor
  · rwa [hkeys]
  · rw [hplaces]
    exact nodup_entryPlaces hdistinct
  · intro row hrow
    obtain ⟨place, hplace⟩ := hgrouped.placed row hrow
    refine ⟨place, ?_, hplace⟩
    have hsome : seriesAt groups place ≠ none := by
      rw [ne_eq, hgrouped.absent]
      exact List.ne_nil_of_mem (mem_group.mpr ⟨hrow, hplace⟩)
    obtain ⟨series, hseries⟩ := Option.ne_none_iff_exists'.mp hsome
    obtain ⟨group, hgroup, hsource⟩ := Option.bind_eq_some_iff.mp hseries
    rw [hplaces]
    apply List.mem_flatMap.mpr
    refine ⟨(place.1, group), hentries.mem_iff.mpr (OrderedMap.get?_eq_some.mp hgroup), ?_⟩
    exact List.mem_map_of_mem (OrderedMap.get?_isSome.mp (Option.isSome_of_eq_some hsource))
  · intro group hgroup
    obtain ⟨entry, hentry, before, after, hrun⟩ := Script.exists_of_mem_collect hfinish hgroup
    exact (hone hentry group before after hrun).2.2

end Finish

/-! ## Counted records -/

/-- The records that a series counts for a measure, of whatever class. -/
def countedBy (measure : SnapshotMeasure) (series : SnapshotAggregateSeries) : ℕ :=
  (series.measures.get? measure.id).elim 0 fun value ↦
    value.count + value.missing + value.nonNumeric

/-- Every measure counts every record once. -/
theorem AllShown.conserved {request : SnapshotAggregateRequest} {rows : List Record}
    {output : List SnapshotAggregateGroup} (h : AllShown request rows output)
    {measure : SnapshotMeasure} (hmeasure : measure ∈ request.measures) :
    (output.flatMap fun shown ↦ shown.series.map (countedBy measure)).sum = rows.length := by
  have hcounted : ∀ shown ∈ output, shown.series.map (countedBy measure) =
      (groupPlaces shown).map fun place ↦ (group (rowPlace request) rows place).length := by
    intro shown hshown
    rw [groupPlaces, List.map_map]
    apply List.map_congr_left
    intro series hseries
    obtain ⟨value, hvalue, hdescribes, -⟩ :=
      ((h.shown shown hshown).series series hseries).measured measure hmeasure
    rw [countedBy, hvalue, Option.elim_some, hdescribes.total, cellsAt, List.length_map]
    rfl
  calc
    (output.flatMap fun shown ↦ shown.series.map (countedBy measure)).sum
      = ((output.flatMap groupPlaces).map fun place ↦
          (group (rowPlace request) rows place).length).sum := by
        rw [List.map_flatMap]
        exact congrArg List.sum (List.flatMap_congr hcounted)
    _ = rows.length := sum_length_group h.places h.covers

/-! ## Ranks -/

/-- The number that a series shows for a measure. -/
def shownNumber (measure : String) (series : SnapshotAggregateSeries) : Option Number :=
  (series.measures.get? measure).bind fun value ↦
    if value.value.kind = .number then parseNumber value.value.text else none

/-- The largest number among the sources of a group, if there is one. -/
def groupValue (measure : String) (shown : SnapshotAggregateGroup) : Option ℚ :=
  ((shown.series.filterMap (shownNumber measure)).map Number.toRat).max?

/-- Which of two ranks comes first; groups without a number come last. -/
def RanksBefore (direction : TableSortDirection) : Option ℚ → Option ℚ → Prop
  | some a, some b => SortsBefore direction a b
  | some _, none => True
  | none, _ => False

/-- Which of two groups comes first: by rank if the request orders them, then by key. -/
def GroupPrecedes (order : Option SnapshotAggregateOrder) (a b : SnapshotAggregateGroup) : Prop :=
  match order with
  | none => a.key < b.key
  | some order =>
    RanksBefore order.direction (groupValue order.measure a) (groupValue order.measure b) ∨
      groupValue order.measure a = groupValue order.measure b ∧ a.key < b.key

section Ranks

variable {request : SnapshotAggregateRequest} {budget budget' : WorkBudget}

theorem max?_of_greatest {known : List Number} {rank : Option Number}
    (h : Least descending known rank) : (known.map Number.toRat).max? = rank.map Number.toRat := by
  cases rank with
  | none =>
    rw [h.none_iff.mp rfl]
    rfl
  | some number =>
    obtain ⟨hmem, hleast⟩ := h.least number rfl
    apply List.max?_eq_some_iff.mpr
    constructor
    · exact List.mem_map_of_mem hmem
    · intro value hvalue
      obtain ⟨other, hother, rfl⟩ := List.mem_map.mp hvalue
      exact hleast other hother

/-- A number whose text was counted is short. -/
theorem fits_of_parseNumber {text : String} {number : Number} {factor : ℕ} {value : Unit}
    (hnumber : parseNumber text = some number)
    (h : (WorkBudget.text (text.utf8ByteSize * (2 * factor + 2))).Returns budget value budget') :
    Number.Fits number := by
  calc
    number.chars.length ≤ text.utf8ByteSize := length_of_parseNumber hnumber
    _ ≤ text.utf8ByteSize * (2 * factor + 2) := Nat.le_mul_of_pos_right _ (by omega)
    _ ≤ MAX_TEXT_WORK := WorkBudget.text_le h
    _ < 2 ^ 63 := by decide

/-- The loop finds the greatest of the numbers shown. -/
theorem largestOf_greatest {count : ℕ} {measure : String} {series : List SnapshotAggregateSeries}
    {known : List Number} {maximum rank : Option Number}
    (hfits : ∀ number ∈ known, Number.Fits number) (h : Least descending known maximum)
    (hrun : (largestOf count measure maximum series).Returns budget rank budget') :
    Least descending (known ++ series.filterMap (shownNumber measure)) rank ∧
      ∀ number ∈ known ++ series.filterMap (shownNumber measure), Number.Fits number := by
  induction series generalizing known maximum budget with
  | nil =>
    rw [largestOf, Script.returns_pure] at hrun
    rw [List.filterMap_nil, List.append_nil, ← hrun.1]
    exact ⟨h, hfits⟩
  | cons first rest ih =>
    rw [List.filterMap_cons]
    unfold largestOf at hrun
    obtain ⟨_, _, -, hrun⟩ := Script.returns_bind.mp hrun
    cases hvalue : first.measures.get? measure with
    | none =>
      have hnone : shownNumber measure first = none := by
        rw [shownNumber, hvalue, Option.bind_none]
      rw [hvalue] at hrun
      rw [hnone]
      exact ih hfits h hrun
    | some value =>
      rw [hvalue] at hrun
      obtain ⟨⟨kind, text, truncated⟩, minimum, counted, missing, other, approximate⟩ := value
      by_cases hkind : kind = .number
      · subst hkind
        obtain ⟨_, _, htext, hrun⟩ := Script.returns_bind.mp hrun
        have hshown : shownNumber measure first = parseNumber text := by
          rw [shownNumber, hvalue, Option.bind_some, if_pos rfl]
        rw [hshown]
        cases hparse : parseNumber text with
        | none =>
          rw [hparse] at hrun
          cases (Script.returns_check.mp hrun).1
        | some number =>
          rw [hparse] at hrun
          have hnumber := fits_of_parseNumber hparse htext
          have hfits' : ∀ item ∈ known ++ [number], Number.Fits item := by
            intro item hitem
            obtain hitem | hitem := List.mem_append.mp hitem
            · exact hfits item hitem
            · exact List.mem_singleton.mp hitem ▸ hnumber
          -- the same step as that of a maximum
          have hgreatest := @Accumulator.addBound_greatest
            { Accumulator.empty with bound := maximum } known number hfits hnumber h
          rw [List.append_cons]
          dsimp only at hrun
          unfold Accumulator.addBound at hgreatest
          obtain ⟨hreplace, hrun⟩ | ⟨hkeep, hrun⟩ := Script.returns_ite.mp hrun
          · rw [if_pos hreplace] at hgreatest
            exact ih hfits' hgreatest hrun
          · rw [if_neg hkeep] at hgreatest
            exact ih hfits' hgreatest hrun
      · have hnone : shownNumber measure first = none := by
          rw [shownNumber, hvalue, Option.bind_some, if_neg hkind]
        rw [hnone]
        cases kind with
        | number => exact absurd rfl hkind
        | missing | null | string | boolean | object | array => exact ih hfits h hrun

/-- What is known of a group and its rank. -/
structure Ranked (order : Option SnapshotAggregateOrder)
    (entry : SnapshotAggregateGroup × Option Number) : Prop where
  value : ∀ spec ∈ order, entry.2.map Number.toRat = groupValue spec.measure entry.1
  fits : ∀ spec ∈ order, ∀ number ∈ entry.2, Number.Fits number

theorem rankCategories_ok {output : List SnapshotAggregateGroup}
    {ranked : List (SnapshotAggregateGroup × Option Number)}
    (h : (rankCategories request output).Returns budget ranked budget') :
    ranked.map Prod.fst = output ∧ ∀ entry ∈ ranked, Ranked request.order entry := by
  unfold rankCategories at h
  cases horder : request.order with
  | none =>
    rw [horder] at h
    obtain ⟨rfl, -⟩ := Script.returns_pure.mp h
    constructor
    · simp [Function.comp_def]
    · exact fun entry _ ↦ ⟨by simp, by simp⟩
  | some spec =>
    rw [horder] at h
    constructor
    · have hsame := Script.map_of_collect Prod.fst id (fun shown _ entry
        before after hrun ↦ by
          obtain ⟨_, _, -, hrun⟩ := Script.returns_bind.mp hrun
          rw [← (Script.returns_pure.mp hrun).1, id]) h
      rwa [List.map_id] at hsame
    · intro entry hentry
      obtain ⟨shown, -, before, after, hrun⟩ := Script.exists_of_mem_collect h hentry
      obtain ⟨rank, _, hrank, hrun⟩ := Script.returns_bind.mp hrun
      obtain ⟨rfl, -⟩ := Script.returns_pure.mp hrun
      obtain ⟨hgreatest, hfits⟩ := largestOf_greatest (by simp) least_nil hrank
      constructor
      · rintro _ ⟨⟩
        exact (max?_of_greatest hgreatest).symm
      · rintro _ ⟨⟩ number hnumber
        exact hfits number (hgreatest.least number hnumber).1

/-- A rank under a key that the direction decides; a missing one is above all. -/
def rankOf {κ : Type} (key : ℚ → κ) (value : Option ℚ) : WithTop κ := value.map key

theorem compareRanks_eq {κ : Type} [LinearOrder κ] {direction : TableSortDirection} {key : ℚ → κ}
    (hkey : ∀ a b, directed direction (Ord.compare a b) = Ord.compare (key a) (key b))
    {a b : Option Number} (ha : ∀ number ∈ a, Number.Fits number)
    (hb : ∀ number ∈ b, Number.Fits number) :
    compareRanks direction a b =
      Ord.compare (rankOf key (a.map Number.toRat)) (rankOf key (b.map Number.toRat)) := by
  cases a with
  | none =>
    cases b with
    | none => exact (compareKeys_self _).symm
    | some b => exact (compare_gt_iff_gt.mpr (WithTop.coe_lt_top (key b.toRat))).symm
  | some a =>
    cases b with
    | none => exact (compare_lt_iff_lt.mpr (WithTop.coe_lt_top (key a.toRat))).symm
    | some b =>
      calc
        directed direction ((NumericKey.new a).compare (NumericKey.new b))
          = directed direction (Ord.compare a.toRat b.toRat) := by
            rw [compare_new (ha a rfl) (hb b rfl)]
        _ = Ord.compare (key a.toRat) (key b.toRat) := hkey _ _
        _ = Ord.compare (key a.toRat : WithTop κ) (key b.toRat : WithTop κ) :=
            (compareKeys_map WithTop.coe_strictMono _ _).symm

end Ranks

/-! ## The listing -/

/-- What ranked groups are ordered by. -/
def rankKey {κ : Type} (key : ℚ → κ) (measure : String) (shown : SnapshotAggregateGroup) :
    WithTop κ ×ₗ String :=
  toLex (rankOf key (groupValue measure shown), shown.key)

/-- All groups in the order of the request. -/
def groupListing (order : Option SnapshotAggregateOrder) (output : List SnapshotAggregateGroup) :
    List SnapshotAggregateGroup :=
  match order with
  | none => sortOn SnapshotAggregateGroup.key output
  | some ⟨measure, .asc⟩ => sortOn (rankKey id measure) output
  | some ⟨measure, .desc⟩ => sortOn (rankKey OrderDual.toDual measure) output

section Listing

variable {order : Option SnapshotAggregateOrder} {output output' : List SnapshotAggregateGroup}

theorem nodup_rankKey {κ : Type} (key : ℚ → κ) (measure : String)
    (h : (output.map SnapshotAggregateGroup.key).Nodup) :
    (output.map (rankKey key measure)).Nodup := by
  apply List.Nodup.of_map fun place ↦ (ofLex place).2
  rw [List.map_map]
  exact h

theorem perm_groupListing (order : Option SnapshotAggregateOrder)
    (output : List SnapshotAggregateGroup) : (groupListing order output).Perm output := by
  unfold groupListing
  split
  · exact perm_sortOn _ output
  · exact perm_sortOn _ output
  · exact perm_sortOn _ output

/-- Sorting by distinct keys forgets the order before. -/
theorem sortOn_perm {α κ : Type} [LinearOrder κ] {key : α → κ} {list list' : List α}
    (hnodup : (list.map key).Nodup) (hperm : list'.Perm list) :
    sortOn key list' = sortOn key list := by
  apply eq_of_ordered (ordered_sortOn ((hperm.map key).nodup_iff.mpr hnodup)) (ordered_sortOn hnodup)
  intro item
  rw [mem_sortOn, mem_sortOn, hperm.mem_iff]

theorem groupListing_perm (h : (output.map SnapshotAggregateGroup.key).Nodup)
    (hperm : output'.Perm output) : groupListing order output' = groupListing order output := by
  unfold groupListing
  split
  · exact sortOn_perm h hperm
  · exact sortOn_perm (nodup_rankKey _ _ h) hperm
  · exact sortOn_perm (nodup_rankKey _ _ h) hperm

/-- Of two ranks under a monotone key, one is missing or both are values. -/
theorem ranksBefore_of_lt {κ : Type} [LinearOrder κ] {direction : TableSortDirection} {key : ℚ → κ}
    (hkey : ∀ a b, key a < key b → SortsBefore direction a b) {a b : Option ℚ}
    (h : rankOf key a < rankOf key b) : RanksBefore direction a b := by
  cases a with
  | none => exact absurd h not_top_lt
  | some a =>
    cases b with
    | none => trivial
    | some b => exact hkey a b (WithTop.coe_lt_coe.mp h)

theorem groupPrecedes_of_lt {κ : Type} [LinearOrder κ] {measure : String}
    {direction : TableSortDirection} {key : ℚ → κ} (hinjective : Function.Injective key)
    (hkey : ∀ a b, key a < key b → SortsBefore direction a b) {a b : SnapshotAggregateGroup}
    (h : rankKey key measure a < rankKey key measure b) :
    GroupPrecedes (some ⟨measure, direction⟩) a b := by
  obtain hrank | ⟨hrank, hless⟩ := Prod.Lex.toLex_lt_toLex.mp h
  · exact Or.inl (ranksBefore_of_lt hkey hrank)
  · exact Or.inr ⟨Option.map_injective hinjective hrank, hless⟩

theorem pairwise_groupListing (order : Option SnapshotAggregateOrder)
    (h : (output.map SnapshotAggregateGroup.key).Nodup) :
    (groupListing order output).Pairwise (GroupPrecedes order) := by
  unfold groupListing
  split
  · exact ordered_sortOn h
  · have hascending (a b : ℚ) (hlt : id a < id b) : SortsBefore .asc a b := hlt
    apply (ordered_sortOn (nodup_rankKey id _ h)).imp
    intro a b hless
    exact groupPrecedes_of_lt Function.injective_id hascending hless
  · have hdescending (a b : ℚ) (hlt : OrderDual.toDual a < OrderDual.toDual b) :
        SortsBefore .desc a b := hlt
    apply (ordered_sortOn (nodup_rankKey OrderDual.toDual _ h)).imp
    intro a b hless
    exact groupPrecedes_of_lt OrderDual.toDual.injective hdescending hless

/-- Ranked groups compare by their rank keys. -/
theorem comparesBy_rankKey {κ : Type} [LinearOrder κ] {measure : String}
    {direction : TableSortDirection} (key : ℚ → κ)
    {ranked : List (SnapshotAggregateGroup × Option Number)}
    (h : ∀ entry ∈ ranked, Ranked (some ⟨measure, direction⟩) entry)
    (hkey : ∀ a b, directed direction (Ord.compare a b) = Ord.compare (key a) (key b)) :
    ComparesBy (fun a b : SnapshotAggregateGroup × Option Number ↦
        (compareRanks direction a.2 b.2).then (Ord.compare a.1.key b.1.key))
      (fun entry ↦ rankKey key measure entry.1) ranked := by
  refine ComparesBy.andThen ?_ fun _ _ _ _ ↦ rfl
  intro a ha b hb
  dsimp only
  rw [compareRanks_eq hkey ((h a ha).fits _ rfl) ((h b hb).fits _ rfl), (h a ha).value _ rfl,
    (h b hb).value _ rfl]

/-- A page of the groups is a slice of their listing. -/
theorem groupPage_ok (ops : SliceOps) {request : SnapshotAggregateRequest} (offset limit : ℕ)
    {ranked : List (SnapshotAggregateGroup × Option Number)} (hfirst : ranked.map Prod.fst = output)
    (hranked : ∀ entry ∈ ranked, Ranked request.order entry)
    (h : (output.map SnapshotAggregateGroup.key).Nodup) :
    (selectPage ops (groupOrder request) offset limit ranked).map Prod.fst =
      ((groupListing request.order output).drop offset).take limit := by
  subst hfirst
  unfold groupOrder groupListing
  cases horder : request.order with
  | none => exact selectPage_paired ops offset limit (fun _ _ _ _ ↦ rfl) h
  | some spec =>
    rw [horder] at hranked
    obtain ⟨measure, direction⟩ := spec
    cases direction with
    | asc =>
      have hcompare := comparesBy_rankKey id hranked fun _ _ ↦ rfl
      exact selectPage_paired ops offset limit hcompare (nodup_rankKey _ _ h)
    | desc =>
      have hcompare := comparesBy_rankKey OrderDual.toDual hranked fun a b ↦
        (Std.OrientedOrd.eq_swap (a := b)).symm
      exact selectPage_paired ops offset limit hcompare (nodup_rankKey _ _ h)

end Listing

/-! ## Whole reads -/

section Reads

variable {runtime : Runtime} {request : SnapshotAggregateRequest} {hash : HashOrder} {serde : Serde}
  {sources : List Source} {db : Database} {response : SnapshotAggregateResponse}

/-- What a read of groups does, after its request was checked. -/
theorem snapshotAggregate_ok (h : snapshotAggregate runtime request hash serde sources db =
      .ok response) :
    ∃ snapshots scan groups output first second third,
      tableSnapshots serde sources db runtime request.snapshotIds true = .ok snapshots ∧
      (records runtime (aggregateTable request) .projection snapshots sources).Returns
        WorkBudget.empty scan first ∧
      (groupRows request scan.rows).Returns first groups second ∧
      (finishGroups runtime request hash groups).Returns second output third ∧
      AllShown request (matching runtime (aggregateTable request) snapshots) output ∧
      (matching runtime (aggregateTable request) snapshots).length ≤ MAX_TABLE_NODES ∧
      response = ⟨((groupListing request.order output).drop request.offset).take request.limit,
        output.length, (matching runtime (aggregateTable request) snapshots).length, request.offset,
        request.limit, snapshots.flatMap (snapshotEvidence request.path sources)⟩ := by
  simp only [snapshotAggregate, bind_eq_ok, mapError_eq_ok] at h
  obtain ⟨_, hvalid, _, hrows, snapshots, hsnapshots, hread⟩ := h
  obtain ⟨hdimensions, hmeasures⟩ : 1 ≤ request.groupBy.length ∧
      validateMeasures [] request.measures = .ok () := by
    simp only [SnapshotAggregateRequest.validate, viewPaths, bind_eq_ok, reject_ok] at hvalid
    obtain ⟨_, ⟨_, hpaths, -⟩, _, -, _, hmeasures, -⟩ := hvalid
    exact ⟨by omega, hmeasures⟩
  have hnodup := (nodup_of_validateMeasures hmeasures).1
  have hreturns : (readAggregate runtime request hash sources snapshots).Returns WorkBudget.empty
      response _ := Prod.ext hread rfl
  unfold readAggregate at hreturns
  obtain ⟨scan, _, hscan, hreturns⟩ := Script.returns_bind.mp hreturns
  obtain ⟨groups, _, hgroups, hreturns⟩ := Script.returns_bind.mp hreturns
  obtain ⟨output, _, houtput, hreturns⟩ := Script.returns_bind.mp hreturns
  obtain ⟨ranked, _, hranked, hreturns⟩ := Script.returns_bind.mp hreturns
  obtain ⟨_, _, -, hreturns⟩ := Script.returns_bind.mp hreturns
  obtain ⟨hresponse, -⟩ := Script.returns_pure.mp hreturns
  obtain ⟨hmatching, hevidence, -⟩ := records_ok (resolves_of_validate hrows).filters hscan
  have hshown := finishGroups_shown (groupRows_grouped hgroups) (groupRows_drawn hgroups) hnodup
    houtput
  have hlength := length_of_groupRows hdimensions hgroups
  rw [hmatching] at hshown hlength hresponse
  rw [hevidence] at hresponse
  obtain ⟨hfirst, hranks⟩ := rankCategories_ok hranked
  rw [groupPage_ok runtime.slices request.offset request.limit hfirst hranks hshown.keys] at hresponse
  exact ⟨snapshots, scan, groups, output, _, _, _, hsnapshots, hscan, hgroups, houtput, hshown,
    hlength, hresponse.symm⟩

end Reads

/-- The request of another page of the same groups. -/
def groupsRequest (request : SnapshotAggregateRequest) (offset limit : ℕ) :
    SnapshotAggregateRequest :=
  { request with offset := offset, limit := limit }

/-- What the pages of an aggregation list: every record of a snapshot of each source that matches, at
one place, in groups of one order. -/
structure AggregateListing (runtime : Runtime) (request : SnapshotAggregateRequest)
    (sources : List Source) (snapshots : List StoredSnapshot)
    (listing : List SnapshotAggregateGroup) : Prop where
  loaded : (snapshots.map StoredSnapshot.sourceId).Perm (sources.map Source.id)
  shown : AllShown request (matching runtime (aggregateTable request) snapshots) listing
  ordered : listing.Pairwise (GroupPrecedes request.order)

/-- The pages of groups are slices of one listing whatever the order of the hash map at each read,
and the listing shows every matching record once. -/
theorem aggregate_pages_exact (runtime : Runtime) (request : SnapshotAggregateRequest)
    (hash : HashOrder) (serde : Serde) (sources : List Source) (db : Database)
    (response : SnapshotAggregateResponse)
    (h : snapshotAggregate runtime request hash serde sources db = .ok response) :
    ∃ snapshots listing,
      tableSnapshots serde sources db runtime request.snapshotIds true = .ok snapshots ∧
      AggregateListing runtime request sources snapshots listing ∧
      (∀ measure ∈ request.measures,
        (listing.flatMap fun shown ↦ shown.series.map (countedBy measure)).sum =
          response.matchedRows) ∧
      (∀ hash' offset limit page,
        snapshotAggregate runtime (groupsRequest request offset limit) hash' serde sources db =
          .ok page →
        page = ⟨(listing.drop offset).take limit, listing.length, response.matchedRows, offset, limit,
          snapshots.flatMap (snapshotEvidence request.path sources)⟩) ∧
      ∀ (limit count : ℕ) (hashes : ℕ → HashOrder) (pages : ℕ → SnapshotAggregateResponse),
        (∀ n < count, snapshotAggregate runtime (groupsRequest request (n * limit) limit) (hashes n)
          serde sources db = .ok (pages n)) →
        response.totalGroups ≤ count * limit →
        ((List.range count).flatMap fun n ↦ (pages n).groups) = listing := by
  obtain ⟨snapshots, scan, groups, output, _, _, _, hsnapshots, hscan, hgroups, houtput, hshown,
    -, hresponse⟩ := snapshotAggregate_ok h
  have hperm := perm_groupListing request.order output
  have hmatched : response.matchedRows =
      (matching runtime (aggregateTable request) snapshots).length := by rw [hresponse]
  have hpage (hash' : HashOrder) (offset limit : ℕ) (page : SnapshotAggregateResponse)
      (hread : snapshotAggregate runtime (groupsRequest request offset limit) hash' serde sources db =
        .ok page) :
      page = ⟨((groupListing request.order output).drop offset).take limit,
        (groupListing request.order output).length, response.matchedRows, offset, limit,
        snapshots.flatMap (snapshotEvidence request.path sources)⟩ := by
    obtain ⟨snapshots', scan', groups', output', _, _, _, hsnapshots', hscan', hgroups', houtput', -,
      -, rfl⟩ := snapshotAggregate_ok hread
    -- the page is not read before the groups are selected
    obtain rfl := Except.ok.inj (hsnapshots'.symm.trans hsnapshots)
    obtain ⟨rfl, rfl⟩ := Script.Returns.unique hscan' hscan
    obtain ⟨rfl, rfl⟩ := Script.Returns.unique hgroups' hgroups
    have houtputs : output'.Perm output := finishGroups_perm houtput houtput'
    have hlisting : groupListing request.order output' = groupListing request.order output :=
      groupListing_perm hshown.keys houtputs
    rw [hmatched, hperm.length_eq, ← houtputs.length_eq, ← hlisting]
    rfl
  refine ⟨snapshots, groupListing request.order output, hsnapshots,
    ⟨tableSnapshots_complete hsnapshots, hshown.perm hperm, pairwise_groupListing _ hshown.keys⟩,
    ?_, hpage, ?_⟩
  · intro measure hmeasure
    rw [hmatched]
    exact (hshown.perm hperm).conserved hmeasure
  · intro limit count hashes pages hpages hcount
    calc
      ((List.range count).flatMap fun n ↦ (pages n).groups)
        = (List.range count).flatMap fun n ↦
            ((groupListing request.order output).drop (n * limit)).take limit := by
          apply List.flatMap_congr
          intro n hn
          rw [hpage _ _ _ _ (hpages n (List.mem_range.mp hn))]
      _ = (groupListing request.order output).take (count * limit) := flatMap_slices _ _ _
      _ = groupListing request.order output := by
          apply List.take_of_length_le
          rw [hperm.length_eq]
          rw [hresponse] at hcount
          exact hcount

/-- The losses as groups, the largest one first, two groups a page. -/
def sampleGroupsRequest : SnapshotAggregateRequest :=
  ⟨["run-1"], [], "/rows", none, none, [], ["/loss"],
    [⟨"records", .count, none⟩, ⟨"largest", .max, some "/loss"⟩], some ⟨"largest", .desc⟩, 0, 2⟩

def HashOrder.kept : HashOrder := ⟨fun list ↦ list, fun list ↦ List.Perm.refl list⟩

def HashOrder.reversed : HashOrder := ⟨List.reverse, List.reverse_perm⟩

theorem aggregate_pages_exact_sample :
    ∃ store first second, Store.init.run (.inverse sampleStates) sampleListed = some store ∧
      snapshotAggregate sampleRuntime sampleGroupsRequest .kept (.inverse sampleStates)
        sampleSources store.db = .ok first ∧
      snapshotAggregate sampleRuntime (groupsRequest sampleGroupsRequest 2 2) .reversed
        (.inverse sampleStates) sampleSources store.db = .ok second ∧
      ∃ snapshots listing,
        AggregateListing sampleRuntime sampleGroupsRequest sampleSources snapshots listing ∧
        first.groups ++ second.groups = listing := by
  have hrun : ((Store.init.run (.inverse sampleStates) sampleListed).bind fun store ↦
      (snapshotAggregate sampleRuntime sampleGroupsRequest .kept (.inverse sampleStates)
        sampleSources store.db).toOption.bind fun first ↦
        (snapshotAggregate sampleRuntime (groupsRequest sampleGroupsRequest 2 2) .reversed
          (.inverse sampleStates) sampleSources store.db).toOption.map fun second ↦
          (first.totalGroups, (first.groups ++ second.groups).map fun shown ↦
            shown.cells.map TableCell.text)) =
      some (3, [["3"], ["2"], ["1"]]) := by decide +kernel
  obtain ⟨store, hstore, hrun⟩ := Option.bind_eq_some_iff.mp hrun
  obtain ⟨first, hfirst, hrun⟩ := Option.bind_eq_some_iff.mp hrun
  obtain ⟨second, hsecond, hrun⟩ := Option.map_eq_some_iff.mp hrun
  rw [toOption_eq_some] at hfirst hsecond
  obtain ⟨snapshots, listing, -, hlisting, -, -, hpages⟩ :=
    aggregate_pages_exact _ _ _ _ _ _ first hfirst
  refine ⟨store, first, second, hstore, hfirst, hsecond, snapshots, listing, hlisting, ?_⟩
  have hall := hpages 2 2 (fun n ↦ if n = 0 then .kept else .reversed)
    (fun n ↦ if n = 0 then first else second) ?_ ?_
  · simpa [List.range_succ] using hall
  · intro n hn
    obtain rfl | rfl : n = 0 ∨ n = 1 := by omega
    · exact hfirst
    · exact hsecond
  · rw [(Prod.mk.inj hrun).1]
    decide

end Rvx.Tables
