import Mathlib.Data.List.DropRight
import Rvx.Tracking.StepMachine

/-!
# History queries

The retained steps and the open row as a history query lists them.  The loop meets the rows newest
first, suppresses a step it has met, tests the range, merges, projects and drops rows without
values, and stops at the limit.  The reference takes all rows oldest first, works on each of them
and keeps the newest ones.
-/

namespace Rvx.Tracking

open Core Check

structure HistoryQuery where
  limit : Option ℕ
  metrics : Option (List String)
  fromStep : Option ℤ
  toStep : Option ℤ
  includeMeta : Bool
  includeOpen : Bool
  fillMissing : Bool
  dropna : Bool
  maxBytes : ℕ

/-- A row before it is projected. -/
structure HistoryRow where
  step : ℤ
  observedAtNs : ℤ
  metrics : Metrics

def HistoryEntry.row (entry : HistoryEntry) : HistoryRow :=
  ⟨entry.record.step, entry.record.observedAtNs, entry.record.metrics⟩

namespace HistoryQuery

def default : HistoryQuery where
  limit := some 50
  metrics := none
  fromStep := none
  toStep := none
  includeMeta := true
  includeOpen := true
  fillMissing := false
  dropna := false
  maxBytes := 16 * 1024 * 1024

variable (floats : FloatText) (query : HistoryQuery) (state : TrackerState)

/-- The step of the open row, when it is listed. -/
def openStep : Option ℤ := if query.includeOpen then state.openStep else none

def InRange (step : ℤ) : Prop :=
  (query.fromStep.any fun first ↦ step < first) = false ∧
    (query.toStep.any fun stop ↦ step ≥ stop) = false

instance (step : ℤ) : Decidable (query.InRange step) := inferInstanceAs (Decidable (_ ∧ _))

def selected : Option (OrderedSet String) := query.metrics.map OrderedSet.ofList

/-- `values.entry(key).or_insert(Value::Null)`. -/
def fillNull (values : Metrics) (key : String) : Metrics :=
  if key ∈ values then values else values.insert key .null

/-- The selected metrics, those that are missing as null when they are to be filled. -/
def project (metrics : Metrics) : Metrics :=
  let values := metrics.retain fun key _ ↦
    query.selected.all fun selected ↦ decide (key ∈ selected)
  if query.fillMissing then
    (query.selected.elim [] OrderedMap.keys).foldl fillNull values
  else values

def allNull (values : Metrics) : Bool := values.entries.all fun entry ↦ entry.2.value.isNull

/-- The values of a row with its step and time. -/
def withMeta (row : HistoryRow) (values : Metrics) : Metrics :=
  if query.includeMeta then
    (values.insert "_step" (.int row.step)).insert "_time"
      (jsonFloat floats (Float.ofInt row.observedAtNs / 1e9))
  else values

/-- The metrics of a row, those of the open row over the retained ones of its step. -/
def merged (row : HistoryRow) : Metrics :=
  if query.openStep state = some row.step then
    ((state.history.find? row.step).elim .empty fun entry ↦ entry.record.metrics).extend row.metrics
  else row.metrics

/-- The rows in the order of the loop: the open row, then the retained steps from the newest on. -/
def candidates (now : ℤ) : List HistoryRow :=
  ((query.openStep state).map fun step ↦ ⟨step, now, state.openMetrics⟩).toList ++
    state.history.entries.reverse.map HistoryEntry.row

/-- The loop.  A vector is always shorter than `usize::MAX`, which stands for no limit. -/
def collect : List HistoryRow → OrderedSet ℤ → ℕ → List Json → Except TrackerError (List Json)
  | [], _, _, rows => .ok rows
  | row :: rest, seen, bytes, rows =>
    if query.limit.any fun limit ↦ rows.length ≥ limit then .ok rows
    else
      let seen' := OrderedSet.insert row.step seen
      if row.step ∈ seen ∨ ¬ query.InRange row.step then collect rest seen' bytes rows
      else
        let values := query.project (query.merged state row)
        if query.dropna = true ∧ allNull values = true then collect rest seen' bytes rows
        else
          let object := Json.object (query.withMeta floats row values)
          let bytes := bytes + (String.utf8Len object.value.print + 1)
          if bytes > query.maxBytes then
            .error (.invalidInput "history result exceeds byte budget; narrow selection")
          else collect rest seen' bytes (rows ++ [object])

end HistoryQuery

/-- `history::query`, with the time at which the open row is observed. -/
def historyQuery (floats : FloatText) (state : TrackerState) (now : ℤ) (query : HistoryQuery) :
    Except TrackerError Json := do
  reject ((query.fromStep.any fun first ↦ query.toStep.any fun stop ↦ first > stop) = true ∨
      query.maxBytes = 0 ∨ query.maxBytes > 16 * 1024 * 1024 ∨
      (query.limit.any fun limit ↦ limit > 1000000) = true)
    (.invalidInput "invalid history range, limit or byte budget")
  reject ((query.metrics.any fun names ↦ names.length > 4096) = true)
    (.invalidInput "history field selection exceeds 4096")
  let rows ← query.collect floats state (query.candidates state now) OrderedMap.empty 2 []
  return .array rows.reverse

namespace HistoryQuery

/-! ## The reference result -/

section Reference

variable (floats : FloatText) (query : HistoryQuery) (state : TrackerState)

/-- The retained steps and, once and last, the open row over the retained entry of its step. -/
def timeline (now : ℤ) : List HistoryRow :=
  match query.openStep state with
  | none => state.history.entries.map HistoryEntry.row
  | some step =>
    (state.history.entries.filter fun entry ↦ entry.record.step ≠ step).map HistoryEntry.row ++
      [⟨step, now, ((state.history.find? step).elim .empty fun entry ↦
        entry.record.metrics).extend state.openMetrics⟩]

/-- The last rows of a list, up to the limit. -/
def newest (rows : List Json) : List Json := query.limit.elim rows rows.rtake

/-- The rows in range, projected, without those that hold no value, oldest first. -/
def reference (now : ℤ) : List Json :=
  query.newest <|
    ((((query.timeline state now).filter fun row ↦ query.InRange row.step).map fun row ↦
        (row, query.project row.metrics)).filter fun pair ↦
          ¬ (query.dropna = true ∧ allNull pair.2 = true)).map fun pair ↦
            .object (query.withMeta floats pair.1 pair.2)

/-- Whether a query asks for a metric. -/
def Selects (key : String) : Prop := ∀ names ∈ query.metrics, key ∈ names

instance (key : String) : Decidable (query.Selects key) :=
  decidable_of_iff ((query.metrics.all fun names ↦ decide (key ∈ names)) = true)
    (by simp [Selects, Option.all_eq_true])

/-- The selected metrics with their values; a missing one that was named is null when filled. -/
structure Projects (metrics values : Metrics) : Prop where
  unselected : ∀ key, ¬ query.Selects key → values.get? key = none
  present : ∀ key json, query.Selects key → metrics.get? key = some json →
    values.get? key = some json
  missing : ∀ key, query.Selects key → metrics.get? key = none →
    values.get? key =
      if query.fillMissing = true ∧ query.metrics.isSome = true then some .null else none

end Reference

/-! ## Projection -/

theorem get?_fillNull (values : Metrics) (name key : String) :
    (fillNull values name).get? key =
      (values.get? key).or (if key = name then some .null else none) := by
  unfold fillNull
  by_cases hmem : name ∈ values
  · rw [if_pos hmem]
    split_ifs with hkey
    · obtain ⟨json, hjson⟩ := Option.isSome_iff_exists.mp (OrderedMap.get?_isSome.mpr hmem)
      rw [hkey, hjson, Option.some_or]
    · rw [Option.or_none]
  · rw [if_neg hmem, OrderedMap.get?_insert]
    split_ifs with hkey
    · have hnone : values.get? name = none := by
        rw [← Option.not_isSome_iff_eq_none, OrderedMap.get?_isSome]
        exact hmem
      rw [hkey, hnone, Option.none_or]
    · rw [Option.or_none]

theorem get?_foldl_fillNull (names : List String) (values : Metrics) (key : String) :
    (names.foldl fillNull values).get? key =
      (values.get? key).or (if key ∈ names then some .null else none) := by
  induction names generalizing values with
  | nil => simp
  | cons name rest ih =>
    rw [List.foldl_cons, ih, get?_fillNull, Option.or_assoc]
    congr 1
    by_cases hkey : key = name
    · simp [hkey]
    · simp [hkey]

theorem selected_all (query : HistoryQuery) (key : String) :
    (query.selected.all fun selected ↦ decide (key ∈ selected)) = true ↔ query.Selects key := by
  unfold selected Selects
  cases query.metrics with
  | none => simp
  | some names => simp

theorem mem_selectedKeys (query : HistoryQuery) (key : String) :
    key ∈ query.selected.elim [] OrderedMap.keys ↔
      query.metrics.isSome = true ∧ query.Selects key := by
  unfold selected Selects
  cases query.metrics with
  | none => simp
  | some names =>
    simp only [Option.map_some, Option.elim_some, Option.isSome_some, true_and, Option.mem_def,
      Option.some.injEq, forall_eq', ← OrderedMap.mem_def, OrderedSet.mem_ofList]

theorem get?_kept (query : HistoryQuery) (metrics : Metrics) (key : String) (json : Json) :
    (metrics.retain fun key _ ↦ query.selected.all fun selected ↦ decide (key ∈ selected)).get? key =
        some json ↔ metrics.get? key = some json ∧ query.Selects key := by
  rw [OrderedMap.get?_retain, selected_all]

theorem project_projects (query : HistoryQuery) (metrics : Metrics) :
    query.Projects metrics (query.project metrics) := by
  have hproject (key : String) : (query.project metrics).get? key =
      ((metrics.retain fun key _ ↦ query.selected.all fun selected ↦ decide (key ∈ selected)).get?
        key).or (if query.fillMissing = true ∧ query.metrics.isSome = true ∧ query.Selects key then
          some .null else none) := by
    unfold project
    dsimp only
    by_cases hfill : query.fillMissing = true
    · rw [if_pos hfill, get?_foldl_fillNull]
      simp only [mem_selectedKeys, hfill, true_and]
    · rw [if_neg hfill, if_neg (fun h ↦ hfill h.1), Option.or_none]
  have hkept := get?_kept query metrics
  refine ⟨fun key hselects ↦ ?_, fun key json hselects hget ↦ ?_, fun key hselects hget ↦ ?_⟩
  · rw [hproject, if_neg (fun h ↦ hselects h.2.2), Option.or_none, Option.eq_none_iff_forall_ne_some]
    exact fun json hjson ↦ hselects ((hkept key json).mp hjson).2
  · rw [hproject, (hkept key json).mpr ⟨hget, hselects⟩, Option.some_or]
  · have hnone : (metrics.retain fun key _ ↦
        query.selected.all fun selected ↦ decide (key ∈ selected)).get? key = none := by
      rw [Option.eq_none_iff_forall_ne_some]
      intro json hjson
      rw [((hkept key json).mp hjson).1] at hget
      simp at hget
    rw [hproject, hnone, Option.none_or]
    simp only [hselects, and_true]

/-! ## The loop -/

section Loop

variable (floats : FloatText) (query : HistoryQuery) (state : TrackerState)

/-- The rows of a list at which the loop meets a new step. -/
def visible : OrderedSet ℤ → List HistoryRow → List HistoryRow
  | _, [] => []
  | seen, row :: rest =>
    if row.step ∈ seen then visible (OrderedSet.insert row.step seen) rest
    else row :: visible (OrderedSet.insert row.step seen) rest

/-- The row with the metrics it is listed with. -/
def resolve (row : HistoryRow) : HistoryRow := { row with metrics := query.merged state row }

/-- What is listed for a row. -/
def answer (row : HistoryRow) : Option Json :=
  let values := query.project row.metrics
  if query.InRange row.step ∧ ¬ (query.dropna = true ∧ allNull values = true) then
    some (.object (query.withMeta floats row values))
  else none

/-- The first rows of a list, up to what the limit leaves. -/
def upToLimit (used : ℕ) (rows : List Json) : List Json :=
  query.limit.elim rows fun limit ↦ rows.take (limit - used)

variable {floats query state}

/-- Of rows with distinct steps, those are listed whose step was not met before. -/
theorem visible_of_nodup {rows : List HistoryRow} (hnodup : (rows.map HistoryRow.step).Nodup)
    (seen : OrderedSet ℤ) : visible seen rows = rows.filter fun row ↦ row.step ∉ seen := by
  induction rows generalizing seen with
  | nil => rfl
  | cons row rest ih =>
    rw [List.map_cons, List.nodup_cons] at hnodup
    have hrest : (rest.filter fun other ↦ other.step ∉ OrderedSet.insert row.step seen) =
        rest.filter fun other ↦ other.step ∉ seen := by
      refine List.filter_congr fun other hother ↦ ?_
      have hne : other.step ≠ row.step := fun heq ↦ hnodup.1 (heq ▸ List.mem_map_of_mem hother)
      simp [hne]
    rw [visible, ih hnodup.2, hrest]
    by_cases hseen : row.step ∈ seen
    · rw [if_pos hseen, List.filter_cons_of_neg (by simpa using hseen)]
    · rw [if_neg hseen, List.filter_cons_of_pos (by simpa using hseen)]

theorem upToLimit_append (rows : List Json) (row : Json) (rest : List Json)
    (h : (query.limit.any fun limit ↦ rows.length ≥ limit) = false) :
    rows ++ query.upToLimit rows.length (row :: rest) =
      (rows ++ [row]) ++ query.upToLimit (rows ++ [row]).length rest := by
  unfold upToLimit
  cases hlimit : query.limit with
  | none => simp
  | some limit =>
    rw [hlimit, Option.any_some, decide_eq_false_iff_not, not_le] at h
    obtain ⟨left, hleft⟩ := Nat.exists_eq_add_of_lt h
    have hfirst : limit - rows.length = left + 1 := by omega
    have hsecond : limit - (rows ++ [row]).length = left := by
      rw [List.length_append, List.length_singleton]
      omega
    rw [Option.elim_some, Option.elim_some, hfirst, hsecond, List.take_succ_cons, List.append_assoc,
      List.singleton_append]

/-- The loop lists the answers of the rows it has not met, as many as the limit leaves. -/
theorem collect_spec {rows : List HistoryRow} {seen : OrderedSet ℤ} {bytes : ℕ}
    {listed result : List Json}
    (h : query.collect floats state rows seen bytes listed = .ok result) :
    result = listed ++
      query.upToLimit listed.length
        (((visible seen rows).map (query.resolve state)).filterMap (query.answer floats)) := by
  induction rows generalizing seen bytes listed with
  | nil =>
    rw [collect, Except.ok.injEq] at h
    cases hlimit : query.limit <;> simp [visible, upToLimit, hlimit, h]
  | cons row rest ih =>
    rw [collect] at h
    dsimp only at h
    by_cases hfull : (query.limit.any fun limit ↦ listed.length ≥ limit) = true
    · rw [if_pos hfull, Except.ok.injEq] at h
      obtain ⟨limit, hlimit, hle⟩ := (Option.any_eq_true _ _).mp hfull
      have hnone : limit - listed.length = 0 := Nat.sub_eq_zero_of_le (of_decide_eq_true hle)
      rw [upToLimit, hlimit, Option.elim_some, hnone, List.take_zero, List.append_nil, h]
    rw [if_neg hfull] at h
    rw [visible]
    by_cases hseen : row.step ∈ seen
    · rw [if_pos (Or.inl hseen)] at h
      rw [if_pos hseen]
      exact ih h
    rw [if_neg hseen, List.map_cons, List.filterMap_cons]
    by_cases hrange : query.InRange row.step
    · rw [if_neg (by simp [hseen, hrange])] at h
      by_cases hdrop : query.dropna = true ∧ allNull (query.project (query.merged state row)) = true
      · rw [if_pos hdrop] at h
        have hanswer : query.answer floats (query.resolve state row) = none :=
          if_neg fun hkeep ↦ hkeep.2 hdrop
        rw [hanswer]
        exact ih h
      · rw [if_neg hdrop] at h
        have hanswer : query.answer floats (query.resolve state row) = some (.object
            (query.withMeta floats row (query.project (query.merged state row)))) :=
          if_pos ⟨hrange, hdrop⟩
        rw [hanswer]
        dsimp only
        rw [upToLimit_append _ _ _ (Bool.eq_false_iff.mpr hfull)]
        split_ifs at h with hbytes
        exact ih h
    · rw [if_pos (Or.inr hrange)] at h
      have hanswer : query.answer floats (query.resolve state row) = none :=
        if_neg fun hkeep ↦ hrange hkeep.1
      rw [hanswer]
      exact ih h

/-! ## The result -/

theorem reference_eq (now : ℤ) : query.reference floats state now =
    query.newest ((query.timeline state now).filterMap (query.answer floats)) := by
  unfold reference
  congr 1
  induction query.timeline state now with
  | nil => rfl
  | cons row rest ih =>
    rw [List.filterMap_cons]
    by_cases hrange : query.InRange row.step
    · rw [List.filter_cons_of_pos (by simpa using hrange), List.map_cons]
      by_cases hdrop : query.dropna = true ∧ allNull (query.project row.metrics) = true
      · rw [List.filter_cons_of_neg (by simpa using hdrop), ih]
        have hanswer : query.answer floats row = none := if_neg fun hkeep ↦ hkeep.2 hdrop
        rw [hanswer]
      · rw [List.filter_cons_of_pos (by rwa [decide_eq_true_iff]), List.map_cons, ih]
        have hanswer : query.answer floats row =
            some (.object (query.withMeta floats row (query.project row.metrics))) :=
          if_pos ⟨hrange, hdrop⟩
        rw [hanswer]
    · rw [List.filter_cons_of_neg (by simpa using hrange), ih]
      have hanswer : query.answer floats row = none := if_neg fun hkeep ↦ hrange hkeep.1
      rw [hanswer]

theorem merged_of_ne {row : HistoryRow} (h : query.openStep state ≠ some row.step) :
    query.resolve state row = row := by
  rw [resolve, merged, if_neg h]

/-- The rows the loop lists are those of the timeline, newest first. -/
theorem visible_candidates (hnodup : state.history.steps.Nodup) (now : ℤ) :
    (visible OrderedMap.empty (query.candidates state now)).map (query.resolve state) =
      (query.timeline state now).reverse := by
  have hsteps : ((state.history.entries.reverse.map HistoryEntry.row).map HistoryRow.step).Nodup := by
    rw [List.map_map, List.map_reverse, List.nodup_reverse]
    exact hnodup
  unfold candidates timeline
  cases hopen : query.openStep state with
  | none =>
    rw [Option.map_none, Option.toList_none, List.nil_append, visible_of_nodup hsteps,
      List.filter_eq_self.mpr (by simp), List.map_map, ← List.map_reverse]
    refine List.map_congr_left fun entry _ ↦ ?_
    exact merged_of_ne (by simp [hopen])
  | some step =>
    rw [Option.map_some, Option.toList_some, List.singleton_append, visible,
      if_neg (OrderedMap.not_mem_empty _), visible_of_nodup hsteps, List.map_cons,
      List.reverse_append, List.reverse_singleton, List.singleton_append, ← List.map_reverse,
      ← List.filter_reverse, List.filter_map, List.map_map]
    congr 1
    · simp [resolve, merged, hopen]
    · have hkept : (state.history.entries.reverse.filter ((fun row : HistoryRow ↦ decide
          (row.step ∉ OrderedSet.insert step OrderedMap.empty)) ∘ HistoryEntry.row)) =
          state.history.entries.reverse.filter fun entry ↦ entry.record.step ≠ step := by
        refine List.filter_congr fun entry _ ↦ decide_eq_decide.mpr ?_
        simp [HistoryEntry.row]
      rw [hkept]
      refine List.map_congr_left fun entry hentry ↦ merged_of_ne ?_
      rw [hopen]
      intro heq
      exact of_decide_eq_true (List.mem_filter.mp hentry).2 (Option.some.inj heq).symm

theorem reverse_upToLimit (rows : List Json) :
    (query.upToLimit 0 rows.reverse).reverse = query.newest rows := by
  unfold upToLimit newest
  cases query.limit with
  | none => exact List.reverse_reverse rows
  | some limit =>
    rw [Option.elim_some, Option.elim_some, List.rtake_eq_reverse_take_reverse, Nat.sub_zero]

/-- A query of a state with distinct retained steps lists the reference result. -/
theorem historyQuery_ok {now : ℤ} {result : Json} (hnodup : state.history.steps.Nodup)
    (h : historyQuery floats state now query = .ok result) :
    result = .array (query.reference floats state now) := by
  simp only [historyQuery, bind_eq_ok, exists_unit, pure_eq_ok] at h
  obtain ⟨-, -, rows, hrows, rfl⟩ := h
  rw [collect_spec hrows, List.nil_append, List.length_nil, visible_candidates hnodup,
    List.filterMap_reverse, reverse_upToLimit, reference_eq]

theorem timeline_nodup (hnodup : state.history.steps.Nodup) (now : ℤ) :
    ((query.timeline state now).map HistoryRow.step).Nodup := by
  unfold timeline
  cases query.openStep state with
  | none =>
    rw [List.map_map]
    exact hnodup
  | some step =>
    rw [List.map_append, List.map_singleton, List.map_map, List.nodup_append]
    refine ⟨hnodup.sublist (List.filter_sublist.map _), List.nodup_singleton _, ?_⟩
    intro kept hkept other hother heq
    obtain ⟨entry, hentry, rfl⟩ := List.mem_map.mp hkept
    exact of_decide_eq_true (List.mem_filter.mp hentry).2 (heq.trans (List.mem_singleton.mp hother))

end Loop

end HistoryQuery

namespace Tracker

/-- In every state a run of a tracker reaches, a history query that succeeds lists the reference
result: the retained steps and the open row, each step once, in range, projected, without the rows
that hold no value, the newest ones up to the limit, oldest first. -/
theorem history_query {producer : Snapshots.SnapshotProducer} {config : Json}
    {options : TrackerOptions} {floats : FloatText} {rules : List AlertRule} {time : ℤ}
    {tracker : Tracker} {state : TrackerState}
    (hnew : Tracker.new producer config options floats rules time = .ok (tracker, state))
    (actions : List Action) :
    ∃ session, tracker.run actions (.start state) = some session ∧
      ∀ (query : HistoryQuery) (now : ℤ),
        ((query.timeline session.state now).map HistoryRow.step).Nodup ∧
        (∀ metrics, query.Projects metrics (query.project metrics)) ∧
        ∀ result, historyQuery tracker.floats session.state now query = .ok result →
          result = .array (query.reference tracker.floats session.state now) := by
  obtain ⟨session, hrun, hsound⟩ := run_sound (start_new hnew) actions
  have hnodup := hsound.state.retained.nodup
  exact ⟨session, hrun, fun query now ↦ ⟨HistoryQuery.timeline_nodup hnodup now,
    query.project_projects, fun result ↦ HistoryQuery.historyQuery_ok hnodup⟩⟩

section Sample

/-- The open row patches the retained step 3; step 2 holds none of the selected metrics. -/
def sampleRows : List Action :=
  [.call (fun _ ↦ 1) (.log (.literal [("epoch", .int 1)]) (some 2) (some true) 1),
   .call (fun _ ↦ 2) (.log (.literal [("loss", .int 4), ("rate", .int 1)]) (some 3) (some true) 2),
   .call (fun _ ↦ 3) (.log (.literal [("loss", .int 5)]) (some 3) (some false) 3)]

def sampleQuery : HistoryQuery :=
  { HistoryQuery.default with
    metrics := some ["loss", "none", "rate"]
    includeMeta := false
    fillMissing := true
    dropna := true }

theorem history_query_sample : ∃ tracker state session result,
    Tracker.new sampleProducer (.literal []) sampleOptions AlertEngine.sampleText [] 0 =
        .ok (tracker, state) ∧
      tracker.run sampleRows (.start state) = some session ∧
      historyQuery tracker.floats session.state 9 sampleQuery = .ok result ∧
      result = .array [.literal [("loss", .int 5), ("none", .null), ("rate", .int 1)]] ∧
      result = .array (sampleQuery.reference tracker.floats session.state 9) := by
  have hsample : ((Tracker.new sampleProducer (.literal []) sampleOptions AlertEngine.sampleText [] 0
      ).toOption.bind fun (tracker, state) ↦ (tracker.run sampleRows (.start state)).bind
        fun session ↦ (historyQuery tracker.floats session.state 9 sampleQuery).toOption) =
      some (.array [.literal [("loss", .int 5), ("none", .null), ("rate", .int 1)]]) := by
    decide +kernel
  obtain ⟨⟨tracker, state⟩, hnew, hrun⟩ := Option.bind_eq_some_iff.mp hsample
  obtain ⟨session, hrun, hquery⟩ := Option.bind_eq_some_iff.mp hrun
  have hnew := toOption_eq_some.mp hnew
  have hquery := toOption_eq_some.mp hquery
  obtain ⟨reached, hreached, hanswers⟩ := history_query hnew sampleRows
  obtain rfl : reached = session := Option.some.inj (hreached.symm.trans hrun)
  exact ⟨tracker, state, reached, _, hnew, hrun, hquery, rfl,
    (hanswers sampleQuery 9).2.2 _ hquery⟩

end Sample

end Tracker

end Rvx.Tracking
