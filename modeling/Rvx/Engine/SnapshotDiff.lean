import Rvx.Core.SnapshotChanges
import Rvx.Engine.Heads
import Rvx.Engine.Query
import Rvx.Engine.StoreRuns

/-!
# Diffs of stored snapshots

A diff walks two stored states together and lists what differs, up to a number of changes and the
size of a response.  What it lists is a prefix of all changes, and all of them unless it says that it
stopped.
-/

namespace Rvx.Engine

open Core Check

def MAX_SNAPSHOT_DIFF_CHANGES : ℕ := 1000

structure SnapshotDiffRequest where
  beforeId : ℤ
  afterId : ℤ

structure SnapshotDiffResponse where
  beforeId : ℤ
  afterId : ℤ
  changes : List SnapshotChange
  truncated : Bool

/-- List a change, unless there is no room for it. -/
def recordChange (path : String) (before after : Option Value) :
    SnapshotDiffResponse × ℕ → SnapshotDiffResponse × ℕ
  | (response, bytes) =>
    let change := SnapshotChange.of path before after
    let size := String.utf8Len change.chars + 1
    if response.changes.length ≥ MAX_SNAPSHOT_DIFF_CHANGES ∨
        bytes + size > MAX_SNAPSHOT_PAGE_BYTES then ({ response with truncated := true }, bytes)
    else ({ response with changes := response.changes ++ [change] }, bytes + size)

/-- Walk two values; a loop stops once there is no more room. -/
def diffValues : ℕ → String → Option Value → Option Value → SnapshotDiffResponse × ℕ →
    SnapshotDiffResponse × ℕ
  | 0, _, _, _, output => output
  | fuel + 1, path, before, after, output =>
    if before = after ∨ output.1.truncated then output
    else
      match before, after with
      | some (.object a), some (.object b) =>
        (unionKeys a b).foldl (fun output key ↦
          if output.1.truncated then output
          else diffValues fuel (path ++ "/" ++ escapeKey key) ((Value.object a).get? key)
            ((Value.object b).get? key) output) output
      | some (.array a), some (.array b) =>
        (List.range (max a.length b.length)).foldl (fun output index ↦
          if output.1.truncated then output
          else diffValues fuel (path ++ "/" ++ indexToken index) a[index]? b[index]? output) output
      | _, _ => recordChange path before after output

/-- A stored snapshot by its ID. -/
def loadSnapshot (serde : Serde) (id : ℤ) (db : Database) : Except EngineError StateSnapshot :=
  match db.snapshots.find? fun row ↦ (row.id : ℤ) = id with
  | none => invalid ("unknown snapshot ID " ++ String.ofList (printInt id))
  | some row =>
    match serde.snapshot row.snapshotJson with
    | none => .error .json
    | some snapshot => .ok snapshot

def diff (serde : Serde) (request : SnapshotDiffRequest) (db : Database) :
    Except EngineError SnapshotDiffResponse := do
  reject (request.beforeId ≤ 0 ∨ request.afterId ≤ 0) (.invalidInput "snapshot IDs must be positive")
  let before ← loadSnapshot serde request.beforeId db
  let after ← loadSnapshot serde request.afterId db
  return (diffValues (before.state.value.depth + 1) "" (some before.state.value)
    (some after.state.value) (⟨request.beforeId, request.afterId, [], false⟩,
      PAGE_ENVELOPE_RESERVE)).1

/-! ## The walk lists differences -/

/-- List a difference below a path, unless the walk has stopped. -/
def recordDifference (tokens : List String) (output : SnapshotDiffResponse × ℕ)
    (difference : Difference) : SnapshotDiffResponse × ℕ :=
  if output.1.truncated then output
  else recordChange (pathText (tokens ++ difference.path)) difference.before difference.after output

theorem recordDifference_truncated {tokens : List String} {output : SnapshotDiffResponse × ℕ}
    (h : output.1.truncated = true) (list : List Difference) :
    list.foldl (recordDifference tokens) output = output := by
  induction list with
  | nil => rfl
  | cons difference rest ih => rw [List.foldl_cons, recordDifference, if_pos h, ih]

theorem recordDifference_below (tokens : List String) (token : String) (list : List Difference)
    (output : SnapshotDiffResponse × ℕ) :
    (list.map (·.below token)).foldl (recordDifference tokens) output =
      list.foldl (recordDifference (tokens ++ [token])) output := by
  have hstep (output : SnapshotDiffResponse × ℕ) (difference : Difference) :
      recordDifference tokens output (difference.below token) =
        recordDifference (tokens ++ [token]) output difference := by
    simp only [recordDifference, Difference.below, List.append_assoc, List.singleton_append]
  rw [List.foldl_map]
  simp only [hstep]

/-- A loop over children lists the differences of all of them. -/
theorem foldl_children {α : Type} {keys : List α} {token : α → String}
    {family : α → List Difference} {tokens : List String}
    {child : α → SnapshotDiffResponse × ℕ → SnapshotDiffResponse × ℕ}
    (h : ∀ key output, child key output =
      (family key).foldl (recordDifference (tokens ++ [token key])) output)
    (output : SnapshotDiffResponse × ℕ) :
    keys.foldl (fun output key ↦ if output.1.truncated then output else child key output) output =
      (keys.flatMap fun key ↦ (family key).map (·.below (token key))).foldl
        (recordDifference tokens) output := by
  induction keys generalizing output with
  | nil => rfl
  | cons key rest ih =>
    rw [List.foldl_cons, ih, List.flatMap_cons, List.foldl_append, recordDifference_below]
    split_ifs with hstop
    · rw [recordDifference_truncated hstop, recordDifference_truncated hstop,
        recordDifference_truncated hstop]
    · rw [h]

theorem diffValues_truncated {output : SnapshotDiffResponse × ℕ} (h : output.1.truncated = true)
    (fuel : ℕ) (path : String) (before after : Option Value) :
    diffValues fuel path before after output = output := by
  cases fuel with
  | zero => rfl
  | succ fuel => exact if_pos (Or.inr h)

theorem diffValues_eq (fuel : ℕ) (tokens : List String) (before after : Option Value)
    (output : SnapshotDiffResponse × ℕ) :
    diffValues fuel (pathText tokens) before after output =
      (differences fuel before after).foldl (recordDifference tokens) output := by
  by_cases hstop : output.1.truncated = true
  · rw [recordDifference_truncated hstop, diffValues_truncated hstop]
  fun_induction differences fuel before after generalizing tokens output with
  | case1 => rfl
  | case2 => exact if_pos (Or.inl rfl)
  | case3 fuel a b hne ih =>
    rw [diffValues, if_neg (not_or.mpr ⟨hne, hstop⟩)]
    refine foldl_children (fun key output ↦ ?_) output
    rw [← pathText_append]
    by_cases hstop : output.1.truncated = true
    · rw [recordDifference_truncated hstop, diffValues_truncated hstop]
    · exact ih key _ output hstop
  | case4 fuel a b hne ih =>
    rw [diffValues, if_neg (not_or.mpr ⟨hne, hstop⟩)]
    refine foldl_children (fun index output ↦ ?_) output
    rw [← escapeKey_indexToken index, ← pathText_append, escapeKey_indexToken]
    by_cases hstop : output.1.truncated = true
    · rw [recordDifference_truncated hstop, diffValues_truncated hstop]
    · exact ih index _ output hstop
  | case5 fuel before after hne hobjects harrays =>
    rw [diffValues.eq_4 _ _ _ _ _ hobjects harrays, if_neg (not_or.mpr ⟨hne, hstop⟩),
      List.foldl_cons, List.foldl_nil, recordDifference, if_neg hstop, List.append_nil]

/-! ## The budget -/

/-- The bytes of listed changes. -/
def changesSize (changes : List SnapshotChange) : ℕ :=
  (changes.map fun change ↦ String.utf8Len change.chars + 1).sum

/-- The changes fit into a response that already lists some. -/
def Fits (output : SnapshotDiffResponse × ℕ) (changes : List SnapshotChange) : Prop :=
  output.1.changes.length + changes.length ≤ MAX_SNAPSHOT_DIFF_CHANGES ∧
    output.2 + changesSize changes ≤ MAX_SNAPSHOT_PAGE_BYTES

/-- The walk lists changes from the first, and stops exactly where the next one has no room. -/
theorem foldl_recordDifference {list : List Difference} {output : SnapshotDiffResponse × ℕ}
    (hopen : output.1.truncated = false) (hroom : Fits output []) :
    ∃ taken, (list.foldl (recordDifference []) output).1.changes = output.1.changes ++ taken ∧
      taken <+: list.map Difference.change ∧
      ((list.foldl (recordDifference []) output).1.truncated = false ↔
        taken = list.map Difference.change) ∧
      (taken = list.map Difference.change ↔ Fits output (list.map Difference.change)) := by
  induction list generalizing output with
  | nil => exact ⟨[], by simp, List.prefix_rfl, by simp [hopen], by simp [hroom]⟩
  | cons difference rest ih =>
    obtain ⟨response, bytes⟩ := output
    rw [List.foldl_cons]
    have hstep : recordDifference [] (response, bytes) difference =
        recordChange (pathText difference.path) difference.before difference.after
          (response, bytes) := by
      rw [recordDifference, if_neg (Bool.eq_false_iff.mp hopen), List.nil_append]
    by_cases hfull : response.changes.length ≥ MAX_SNAPSHOT_DIFF_CHANGES ∨
        bytes + (String.utf8Len difference.change.chars + 1) > MAX_SNAPSHOT_PAGE_BYTES
    · have hstop : recordChange (pathText difference.path) difference.before difference.after
          (response, bytes) = ({ response with truncated := true }, bytes) := if_pos hfull
      rw [hstep, hstop, recordDifference_truncated rfl]
      refine ⟨[], by simp, List.nil_prefix, by simp, ?_⟩
      simp only [List.map_cons, Fits, changesSize, List.length_cons, List.sum_cons]
      simp
      omega
    · have hpush : recordChange (pathText difference.path) difference.before difference.after
          (response, bytes) = ({ response with changes := response.changes ++ [difference.change] },
            bytes + (String.utf8Len difference.change.chars + 1)) := if_neg hfull
      rw [hstep, hpush]
      obtain ⟨taken, hchanges, hprefix, htruncated, hfits⟩ := @ih
        ({ response with changes := response.changes ++ [difference.change] },
          bytes + (String.utf8Len difference.change.chars + 1)) hopen (by
            simp only [Fits, changesSize, List.length_append, List.length_cons, List.length_nil,
              List.map_nil, List.sum_nil]
            omega)
      refine ⟨difference.change :: taken, ?_, ?_, ?_, ?_⟩
      · rw [hchanges, List.append_assoc, List.singleton_append]
      · rw [List.map_cons]
        exact (List.prefix_cons_inj _).mpr hprefix
      · rw [htruncated, List.map_cons, List.cons.injEq, and_iff_right rfl]
      · rw [List.map_cons, List.cons.injEq, and_iff_right rfl, hfits]
        simp only [Fits, changesSize, List.length_append, List.length_cons, List.length_nil,
          List.map_cons, List.sum_cons]
        constructor <;> rintro ⟨hlength, hsize⟩ <;> constructor <;> omega

/-! ## Diffs of stored snapshots -/

theorem diffValues_changes (before after : Json) (beforeId afterId : ℤ) :
    ∃ response, (diffValues (before.value.depth + 1) "" (some before.value) (some after.value)
        (⟨beforeId, afterId, [], false⟩, PAGE_ENVELOPE_RESERVE)).1 = response ∧
      response.changes <+: changesBetween before after ∧
      (response.truncated = false ↔ response.changes = changesBetween before after) ∧
      (response.truncated = false ↔
        (changesBetween before after).length ≤ MAX_SNAPSHOT_DIFF_CHANGES ∧
          PAGE_ENVELOPE_RESERVE + changesSize (changesBetween before after) ≤
            MAX_SNAPSHOT_PAGE_BYTES) := by
  have hwalk := diffValues_eq (before.value.depth + 1) [] (some before.value) (some after.value)
    (⟨beforeId, afterId, [], false⟩, PAGE_ENVELOPE_RESERVE)
  obtain ⟨taken, hchanges, hprefix, htruncated, hfits⟩ := @foldl_recordDifference
    (differences (before.value.depth + 1) (some before.value) (some after.value))
    (⟨beforeId, afterId, [], false⟩, PAGE_ENVELOPE_RESERVE) rfl (by simp only [Fits]; decide)
  rw [← hwalk, List.nil_append] at hchanges
  rw [← hwalk] at htruncated
  refine ⟨_, rfl, ?_, ?_, ?_⟩
  · rw [show pathText [] = "" from rfl] at hchanges
    rw [hchanges]
    exact hprefix
  · rw [show pathText [] = "" from rfl] at hchanges htruncated
    rw [hchanges]
    exact htruncated
  · refine htruncated.trans (hfits.trans ?_)
    rw [Fits, List.length_nil, Nat.zero_add]
    rfl

theorem RowsValid.loadSnapshot {serde : Serde} (hserde : serde.RoundTrip) {db : Database}
    (hdb : RowsValid db) {row : SnapshotRow} (hrow : row ∈ db.snapshots) :
    ∃ snapshot, WrittenFrom row snapshot ∧ loadSnapshot serde row.id db = .ok snapshot := by
  obtain ⟨snapshot, hwritten⟩ := hdb.written row hrow
  refine ⟨snapshot, hwritten, ?_⟩
  have hfind : db.snapshots.find? (fun other ↦ (other.id : ℤ) = row.id) = some row := by
    cases hfound : db.snapshots.find? fun other ↦ (other.id : ℤ) = row.id with
    | none => exact absurd (List.find?_eq_none.mp hfound row hrow) (by simp)
    | some other =>
      have hid : other.id = row.id := by simpa using List.find?_some hfound
      rw [hdb.eq_of_id (List.mem_of_find?_eq_some hfound) hrow hid]
  rw [Engine.loadSnapshot, hfind]
  simp only [hwritten.json, hserde snapshot hwritten.valid]

/-- A diff of stored snapshots lists a prefix of the changes from the older state to the newer one,
and every change unless it is truncated; the changes turn the older state into the newer one. -/
theorem Store.diff_exact {serde : Serde} (hserde : serde.RoundTrip) {store : Store}
    (hstore : store.Reachable serde) {row row' : SnapshotRow} (hrow : row ∈ store.db.snapshots)
    (hrow' : row' ∈ store.db.snapshots) :
    ∃ before after response, WrittenFrom row before ∧ WrittenFrom row' after ∧
      diff serde ⟨row.id, row'.id⟩ store.db = .ok response ∧
      response.changes <+: changesBetween before.state after.state ∧
      (response.truncated = false →
        response.changes = changesBetween before.state after.state ∧
        SnapshotChange.applyAll response.changes before.state.value = some after.state.value ∧
        (response.changes = [] ↔ before.state = after.state)) ∧
      (response.truncated = false ↔
        (changesBetween before.state after.state).length ≤ MAX_SNAPSHOT_DIFF_CHANGES ∧
          PAGE_ENVELOPE_RESERVE + changesSize (changesBetween before.state after.state) ≤
            MAX_SNAPSHOT_PAGE_BYTES) ∧
      PathsApart response.changes := by
  have hrows := hstore.consistent.rows
  obtain ⟨before, hbefore, hload⟩ := hrows.loadSnapshot hserde hrow
  obtain ⟨after, hafter, hload'⟩ := hrows.loadSnapshot hserde hrow'
  obtain ⟨response, hresponse, hprefix, hwhole, hbudget⟩ :=
    diffValues_changes before.state after.state row.id row'.id
  have hpositive := hrows.ids_pos row hrow
  have hpositive' := hrows.ids_pos row' hrow'
  refine ⟨before, after, response, hbefore, hafter, ?_, hprefix, fun hopen ↦ ?_, hbudget,
    (changesBetween_apart _ _).sublist hprefix⟩
  · have hids : ¬ ((row.id : ℤ) ≤ 0 ∨ (row'.id : ℤ) ≤ 0) := by omega
    simp only [diff, reject, if_neg hids, hload, hload', ← hresponse]
    rfl
  · have hall := hwhole.mp hopen
    rw [hall]
    exact ⟨rfl, applyAll_changesBetween _ _, changesBetween_eq_nil⟩

/-- A state that loses all but one element of an array. -/
def sampleShrinking : List StateSnapshot :=
  [sampleSnapshot 0 (.literal [("a", .array ((List.range 12).map fun i ↦ .int i))]),
    sampleSnapshot 1 (.literal [("a", .array [.int 0]), ("b", .null)])]

def sampleDiff : List Action :=
  openNew ++ [.ingestBatch [sampleDelivery 0 none sampleShrinking]]

theorem Store.diff_exact_sample :
    ∃ (store : Store) (row row' : SnapshotRow) (before after : StateSnapshot)
      (response : SnapshotDiffResponse), store.Reachable (.inverse sampleShrinking) ∧
      row ∈ store.db.snapshots ∧ row' ∈ store.db.snapshots ∧ row.id = 1 ∧ row'.id = 2 ∧
      WrittenFrom row before ∧ WrittenFrom row' after ∧
      diff (.inverse sampleShrinking) ⟨row.id, row'.id⟩ store.db = .ok response ∧
      response.changes <+: changesBetween before.state after.state := by
  have hrows : (Store.init.run (.inverse sampleShrinking) sampleDiff).map (fun store ↦
      store.db.snapshots.map SnapshotRow.id) = some [1, 2] := by decide +kernel
  obtain ⟨store, hstore, hids⟩ := Option.map_eq_some_iff.mp hrows
  have hfirst : 1 ∈ store.db.snapshots.map SnapshotRow.id := by simp [hids]
  have hsecond : 2 ∈ store.db.snapshots.map SnapshotRow.id := by simp [hids]
  obtain ⟨row, hrow, hid⟩ := List.mem_map.mp hfirst
  obtain ⟨row', hrow', hid'⟩ := List.mem_map.mp hsecond
  obtain ⟨before, after, response, hbefore, hafter, hdiff, hprefix, -⟩ :=
    Store.diff_exact (Serde.inverse_roundTrip _) ⟨sampleDiff, hstore⟩ hrow hrow'
  exact ⟨store, row, row', before, after, response, ⟨sampleDiff, hstore⟩, hrow, hrow', hid, hid',
    hbefore, hafter, hdiff, hprefix⟩

/-- Applied in the order they are listed in, removals from an array move the elements later changes
refer to; and as a text the path of an element can begin with the path of another one. -/
theorem Store.listed_order_fails :
    ∃ store response, Store.init.run (.inverse sampleShrinking) sampleDiff = some store ∧
      diff (.inverse sampleShrinking) ⟨1, 2⟩ store.db = .ok response ∧
      response.truncated = false ∧
      response.changes.foldlM (fun state change ↦ change.apply state)
        (some (Json.literal [("a", .array ((List.range 12).map fun i ↦ .int i))]).value) = none ∧
      ∃ change ∈ response.changes, ∃ other ∈ response.changes, change.path ≠ other.path ∧
        change.path.toList <+: other.path.toList := by
  have hrun : ((Store.init.run (.inverse sampleShrinking) sampleDiff).bind fun store ↦
      (diff (.inverse sampleShrinking) ⟨1, 2⟩ store.db).toOption.map fun response ↦
        (response.truncated, response.changes.foldlM (fun state change ↦ change.apply state)
            (some (Json.literal [("a", .array ((List.range 12).map fun i ↦ .int i))]).value),
          decide (∃ change ∈ response.changes, ∃ other ∈ response.changes,
            change.path ≠ other.path ∧ change.path.toList <+: other.path.toList))) =
      some (false, none, true) := by decide +kernel
  obtain ⟨store, hstore, hdiff⟩ := Option.bind_eq_some_iff.mp hrun
  obtain ⟨response, hresponse, hvalues⟩ := Option.map_eq_some_iff.mp hdiff
  simp only [Prod.mk.injEq, decide_eq_true_eq] at hvalues
  refine ⟨store, response, hstore, ?_, hvalues⟩
  cases hcases : diff (.inverse sampleShrinking) ⟨1, 2⟩ store.db with
  | error error =>
    rw [hcases] at hresponse
    cases hresponse
  | ok other =>
    rw [hcases] at hresponse
    rw [Option.some.inj hresponse]

end Rvx.Engine
