import Rvx.Core.Pointer
import Rvx.Core.Tracker
import Rvx.Lib.Check
import Rvx.Lib.OrderedMap

/-!
# Snapshots and history pages

The data a producer captures and a collector stores, its JSON text, and the validation both sides
run on it.  Every validation comes with the fact its success establishes.
-/

namespace Rvx.Core

open Check (reject bind_eq_ok reject_ok exists_unit)

def SNAPSHOT_SCHEMA_VERSION : ℕ := 1
def MAX_SNAPSHOT_BYTES : ℕ := 4 * 1024 * 1024
def MAX_SNAPSHOT_PAGE_BYTES : ℕ := 16 * 1024 * 1024
def MAX_SNAPSHOT_DEPTH : ℕ := 64
def MAX_SNAPSHOT_NODES : ℕ := 100000
def MAX_SNAPSHOT_HISTORY_LIMIT : ℕ := 256

structure SnapshotDescriptor where
  protocolVersion : ℕ
  sourceSessionId : String
  project : String
  experiment : String
  runId : String
  attemptId : String
  role : String
  nodeId : Option String
  labels : OrderedMap String String
  schemaVersion : ℕ

structure StateSnapshot where
  sourceSessionId : String
  sequence : ℕ
  observedAtNs : ℤ
  schemaVersion : ℕ
  axes : OrderedMap String ℤ
  state : Json
deriving DecidableEq

structure SnapshotHistoryResponse where
  protocolVersion : ℕ
  sourceSessionId : String
  oldestSequence : ℕ
  nextSequence : ℕ
  droppedBefore : Option ℕ
  snapshots : List StateSnapshot
deriving DecidableEq

/-! ## Text -/

namespace StateSnapshot

/-- The text of the axes. -/
def printAxes (axes : OrderedMap String ℤ) : List Char :=
  printObject (axes.entries.map fun entry ↦ member entry.1 (printInt entry.2))

def chars (snapshot : StateSnapshot) : List Char :=
  printObject
    [member "source_session_id" (quote snapshot.sourceSessionId),
     member "sequence" (printNat snapshot.sequence),
     member "observed_at_ns" (printInt snapshot.observedAtNs),
     member "schema_version" (printNat snapshot.schemaVersion),
     member "axes" (printAxes snapshot.axes),
     member "state" snapshot.state.value.print]

/-- `serde_json::to_string(snapshot)`. -/
def encode (snapshot : StateSnapshot) : String := String.ofList snapshot.chars

/-- `serde_json::to_vec(snapshot).len()`. -/
def encodedLength (snapshot : StateSnapshot) : ℕ := String.utf8Len snapshot.chars

end StateSnapshot

namespace SnapshotHistoryResponse

def chars (response : SnapshotHistoryResponse) : List Char :=
  printObject
    [member "protocol_version" (printNat response.protocolVersion),
     member "source_session_id" (quote response.sourceSessionId),
     member "oldest_sequence" (printNat response.oldestSequence),
     member "next_sequence" (printNat response.nextSequence),
     member "dropped_before" (response.droppedBefore.elim Value.null.print printNat),
     member "snapshots" (printArray (response.snapshots.map StateSnapshot.chars))]

def encodedLength (response : SnapshotHistoryResponse) : ℕ := String.utf8Len response.chars

end SnapshotHistoryResponse

/-! ## Validation -/

def validateSnapshotDescriptor (descriptor : SnapshotDescriptor) : Except ProtocolError Unit := do
  reject (descriptor.protocolVersion ≠ PROTOCOL_VERSION)
    (.unsupportedVersion descriptor.protocolVersion)
  reject (descriptor.schemaVersion ≠ SNAPSHOT_SCHEMA_VERSION)
    (.invalidSnapshot "unsupported schema_version")
  let identifier (field value : String) : Except ProtocolError Unit := do
    validateName field value
    reject (value.utf8ByteSize > 4096) (.invalidSnapshot "descriptor identifier exceeds 4096 bytes")
  identifier "source_session_id" descriptor.sourceSessionId
  identifier "project" descriptor.project
  identifier "experiment" descriptor.experiment
  identifier "run_id" descriptor.runId
  identifier "attempt_id" descriptor.attemptId
  identifier "role" descriptor.role

/-- The traversal of the state; `remaining` counts down from `MAX_SNAPSHOT_NODES`. -/
def checkNodes : (remaining : ℕ) → (stack : List (Value × ℕ)) → Except ProtocolError Unit
  | _, [] => .ok ()
  | 0, _ :: _ => .error (.invalidSnapshot "state exceeds 100000 JSON nodes")
  | remaining + 1, (value, depth) :: stack =>
    if depth > MAX_SNAPSHOT_DEPTH then
      .error (.invalidSnapshot "JSON nesting exceeds 64 levels")
    else match value with
      | .object entries =>
        checkNodes remaining ((entries.map fun entry ↦ (entry.2, depth + 1)).reverse ++ stack)
      | .array items =>
        checkNodes remaining ((items.map fun item ↦ (item, depth + 1)).reverse ++ stack)
      | .number number =>
        if !number.isI64 && !number.isU64 && !number.isF64 then
          .error (.invalidSnapshot
            "state numbers must be signed/unsigned 64-bit integers or finite floats")
        else checkNodes remaining stack
      | _ => checkNodes remaining stack

def validateStateSnapshot (snapshot : StateSnapshot) : Except ProtocolError Unit := do
  let _ ← trackerHeader snapshot.state.value
  validateName "source_session_id" snapshot.sourceSessionId
  reject (snapshot.sourceSessionId.utf8ByteSize > 4096)
    (.invalidSnapshot "session identifier exceeds 4096 bytes")
  reject (snapshot.schemaVersion ≠ SNAPSHOT_SCHEMA_VERSION ∨ ¬ snapshot.state.value.isObject)
    (.invalidSnapshot "schema_version must be 1 and state must be an object")
  reject (snapshot.sequence ≥ I64_MAX) (.invalidSnapshot "sequence exceeds durable cursor range")
  reject (snapshot.axes.size > MAX_SNAPSHOT_AXES) .tooManyAxes
  checkNodes MAX_SNAPSHOT_NODES [(snapshot.state.value, 0)]
  reject (snapshot.encodedLength > MAX_SNAPSHOT_BYTES) (.invalidSnapshot "snapshot exceeds 4 MiB")

/-- The loop over a page's snapshots, returning the last sequence. -/
def checkSnapshots (response : SnapshotHistoryResponse) :
    (prior : Option ℕ) → List StateSnapshot → Except ProtocolError (Option ℕ)
  | prior, [] => .ok prior
  | prior, snapshot :: rest => do
    validateStateSnapshot snapshot
    reject (snapshot.sourceSessionId ≠ response.sourceSessionId) .sessionMismatch
    reject (snapshot.sequence < response.oldestSequence ∨
      (prior.any fun n ↦ snapshot.sequence ≠ n + 1)) .nonIncreasingSequence
    checkSnapshots response (some snapshot.sequence) rest

def validateSnapshotHistoryResponse (response : SnapshotHistoryResponse) :
    Except ProtocolError Unit := do
  reject (response.protocolVersion ≠ PROTOCOL_VERSION)
    (.unsupportedVersion response.protocolVersion)
  validateName "source_session_id" response.sourceSessionId
  reject (response.snapshots.length > MAX_SNAPSHOT_HISTORY_LIMIT)
    (.invalidSnapshot "history page exceeds 256 snapshots")
  reject (response.oldestSequence > response.nextSequence ∨ response.nextSequence > I64_MAX)
    .invalidNextSequence
  reject (response.droppedBefore.any fun n ↦ n ≠ response.oldestSequence)
    (.invalidSnapshot "dropped_before must equal oldest_sequence")
  let prior ← checkSnapshots response none response.snapshots
  reject (prior.any fun n ↦ response.nextSequence ≠ n + 1) .invalidNextSequence
  reject (response.encodedLength > MAX_SNAPSHOT_PAGE_BYTES)
    (.invalidSnapshot "history page exceeds 16 MiB")

/-- Malformed escapes are rejected instead of being treated as missing fields. -/
def validateSnapshotPointer (path : String) : Except ProtocolError Unit := do
  reject (path.utf8ByteSize > 4096 ∨ (path ≠ "" ∧ path.toList.head? ≠ some '/'))
    (.invalidSnapshot "field path must be an RFC 6901 JSON pointer")
  reject (escapesValid path.toList = false) (.invalidSnapshot "invalid JSON pointer escape")

/-! ## What validation establishes -/

/-- Every number of the tree has a finite double. -/
inductive Value.Finite : Value → Prop
  | null : Value.Finite .null
  | bool (value : Bool) : Value.Finite (.bool value)
  | string (value : String) : Value.Finite (.string value)
  | number {number : Number} (finite : number.asF64.isSome) : Value.Finite (.number number)
  | array {items : List Value} (all : ∀ item ∈ items, Value.Finite item) :
    Value.Finite (.array items)
  | object {entries : List (String × Value)} (all : ∀ entry ∈ entries, Value.Finite entry.2) :
    Value.Finite (.object entries)

/-- The traversal of a validation visits every value it has on its stack. -/
theorem finite_of_checkNodes {remaining : ℕ} {stack : List (Value × ℕ)}
    (h : checkNodes remaining stack = .ok ()) : ∀ node ∈ stack, Value.Finite node.1 := by
  fun_induction checkNodes remaining stack with
  | case1 => simp
  | case2 => simp at h
  | case3 => simp at h
  | case4 remaining depth stack hdepth entries ih =>
    have hall := ih h
    simp only [List.mem_append, List.mem_reverse, List.mem_map] at hall
    intro node hnode
    cases List.mem_cons.mp hnode with
    | inl heq =>
      rw [heq]
      exact .object fun entry hentry ↦ hall (entry.2, depth + 1) (Or.inl ⟨entry, hentry, rfl⟩)
    | inr hrest => exact hall node (Or.inr hrest)
  | case5 remaining depth stack hdepth items ih =>
    have hall := ih h
    simp only [List.mem_append, List.mem_reverse, List.mem_map] at hall
    intro node hnode
    cases List.mem_cons.mp hnode with
    | inl heq =>
      rw [heq]
      exact .array fun item hitem ↦ hall (item, depth + 1) (Or.inl ⟨item, hitem, rfl⟩)
    | inr hrest => exact hall node (Or.inr hrest)
  | case6 => simp at h
  | case7 remaining depth stack hdepth number hnumber ih =>
    intro node hnode
    cases List.mem_cons.mp hnode with
    | inl heq =>
      rw [heq]
      refine .number (Number.asF64_isSome ?_)
      by_contra hnone
      simp only [not_or, Bool.not_eq_true] at hnone
      exact hnumber (by simp [hnone])
    | inr hrest => exact ih h node hrest
  | case8 remaining value depth stack hdepth hobject harray hnumber ih =>
    intro node hnode
    cases List.mem_cons.mp hnode with
    | inl heq =>
      rw [heq]
      cases value with
      | null => exact .null
      | bool value => exact .bool value
      | string value => exact .string value
      | number number => exact absurd rfl (hnumber number)
      | array items => exact absurd rfl (harray items)
      | object entries => exact absurd rfl (hobject entries)
    | inr hrest => exact ih h node hrest

theorem Value.Finite.pointerStep {value child : Value} {token : List Char} (h : Value.Finite value)
    (hstep : Value.pointerStep value token = some child) : Value.Finite child := by
  cases h with
  | null | bool | string | number => simp [Value.pointerStep] at hstep
  | array all =>
    simp only [Value.pointerStep, Option.bind_eq_some_iff] at hstep
    obtain ⟨index, -, hitem⟩ := hstep
    exact all child (List.mem_of_getElem? hitem)
  | object all =>
    simp only [Value.pointerStep, Value.get?, Option.map_eq_some_iff] at hstep
    obtain ⟨entry, hentry, rfl⟩ := hstep
    exact all entry (List.mem_of_find?_eq_some hentry)

theorem Value.Finite.pointer {value child : Value} {path : String} (h : Value.Finite value)
    (hpointer : value.pointer path = some child) : Value.Finite child := by
  unfold Value.pointer at hpointer
  split_ifs at hpointer
  · exact Option.some.inj hpointer ▸ h
  · generalize Value.pointerTokens path = tokens at hpointer
    induction tokens generalizing value with
    | nil => exact (by simpa using hpointer : value = child) ▸ h
    | cons token rest ih =>
      obtain ⟨middle, hstep, hrest⟩ : ∃ middle, Value.pointerStep value token = some middle ∧
          rest.foldlM Value.pointerStep middle = some child := by
        simpa [List.foldlM_cons, Option.bind_eq_some_iff] using hpointer
      exact ih (h.pointerStep hstep) hrest

/-- A snapshot that passed validation. -/
abbrev StateSnapshot.Valid (snapshot : StateSnapshot) : Prop :=
  validateStateSnapshot snapshot = .ok ()

namespace StateSnapshot

theorem valid_iff {snapshot : StateSnapshot} :
    snapshot.Valid ↔ (∃ header, trackerHeader snapshot.state.value = .ok header) ∧
      isBlank snapshot.sourceSessionId = false ∧ snapshot.sourceSessionId.utf8ByteSize ≤ 4096 ∧
      snapshot.schemaVersion = SNAPSHOT_SCHEMA_VERSION ∧ snapshot.state.value.isObject = true ∧
      snapshot.sequence < I64_MAX ∧ snapshot.axes.size ≤ MAX_SNAPSHOT_AXES ∧
      checkNodes MAX_SNAPSHOT_NODES [(snapshot.state.value, 0)] = .ok () ∧
      snapshot.encodedLength ≤ MAX_SNAPSHOT_BYTES := by
  simp only [Valid, validateStateSnapshot, bind_eq_ok, exists_unit, reject_ok, validateName_ok,
    exists_and_right, not_or, not_not, not_lt, not_le, ge_iff_le, gt_iff_lt, ne_eq, and_assoc]

theorem Valid.header {snapshot : StateSnapshot} (h : snapshot.Valid) :
    ∃ header, trackerHeader snapshot.state.value = .ok header := (valid_iff.mp h).1

theorem Valid.sequence_lt {snapshot : StateSnapshot} (h : snapshot.Valid) :
    snapshot.sequence < I64_MAX := (valid_iff.mp h).2.2.2.2.2.1

theorem Valid.nodes {snapshot : StateSnapshot} (h : snapshot.Valid) :
    checkNodes MAX_SNAPSHOT_NODES [(snapshot.state.value, 0)] = .ok () :=
  (valid_iff.mp h).2.2.2.2.2.2.2.1

/-- Every number of a valid state is finite. -/
theorem Valid.finite {snapshot : StateSnapshot} (h : snapshot.Valid) :
    snapshot.state.value.Finite :=
  finite_of_checkNodes h.nodes (snapshot.state.value, 0) (List.mem_singleton.mpr rfl)

/-- The kind of a valid snapshot's record. -/
def isEvent (snapshot : StateSnapshot) : Bool :=
  match isTrackerEvent snapshot.state.value with
  | .ok event => event
  | .error _ => false

theorem Valid.isTrackerEvent {snapshot : StateSnapshot} (h : snapshot.Valid) :
    isTrackerEvent snapshot.state.value = .ok snapshot.isEvent := by
  obtain ⟨header, hheader⟩ := h.header
  simp [isEvent, isTrackerEvent_ok hheader]

end StateSnapshot

/-- A page that passed validation: a consecutive run of valid snapshots that ends at the page's
next sequence and starts at or after its oldest one. -/
structure SnapshotHistoryResponse.WellFormed (page : SnapshotHistoryResponse) : Prop where
  version : page.protocolVersion = PROTOCOL_VERSION
  named : isBlank page.sourceSessionId = false
  count : page.snapshots.length ≤ MAX_SNAPSHOT_HISTORY_LIMIT
  next_le : page.nextSequence ≤ I64_MAX
  dropped : ∀ n ∈ page.droppedBefore, n = page.oldestSequence
  valid : ∀ snapshot ∈ page.snapshots, snapshot.Valid
  session : ∀ snapshot ∈ page.snapshots, snapshot.sourceSessionId = page.sourceSessionId
  room : page.oldestSequence + page.snapshots.length ≤ page.nextSequence
  consecutive : page.snapshots.map StateSnapshot.sequence =
    List.range' (page.nextSequence - page.snapshots.length) page.snapshots.length
  size : page.encodedLength ≤ MAX_SNAPSHOT_PAGE_BYTES

theorem checkSnapshots_some {response : SnapshotHistoryResponse} {snapshots : List StateSnapshot}
    {n : ℕ} {last : Option ℕ} (hn : response.oldestSequence ≤ n) :
    checkSnapshots response (some n) snapshots = .ok last ↔
      (∀ snapshot ∈ snapshots, snapshot.Valid ∧
        snapshot.sourceSessionId = response.sourceSessionId) ∧
      snapshots.map StateSnapshot.sequence = List.range' (n + 1) snapshots.length ∧
      last = some (n + snapshots.length) := by
  induction snapshots generalizing n with
  | nil => simp [checkSnapshots, eq_comm]
  | cons snapshot rest ih =>
    simp only [checkSnapshots, bind_eq_ok, exists_unit, reject_ok, Option.any_some, not_or, not_lt,
      decide_eq_true_eq, ne_eq, not_not, List.mem_cons, forall_eq_or_imp, List.map_cons,
      List.length_cons, List.range'_succ, List.cons.injEq]
    constructor
    · rintro ⟨hvalid, hsession, ⟨-, hseq⟩, hrest⟩
      rw [hseq, ih (by omega)] at hrest
      refine ⟨⟨⟨hvalid, hsession⟩, hrest.1⟩, ⟨hseq, hrest.2.1⟩, ?_⟩
      rw [hrest.2.2]
      congr 1
      omega
    · rintro ⟨⟨⟨hvalid, hsession⟩, hall⟩, ⟨hseq, hmap⟩, hlast⟩
      refine ⟨hvalid, hsession, ⟨by omega, hseq⟩, ?_⟩
      rw [hseq, ih (by omega)]
      refine ⟨hall, hmap, ?_⟩
      rw [hlast]
      congr 1
      omega

theorem wellFormed_iff {page : SnapshotHistoryResponse} :
    validateSnapshotHistoryResponse page = .ok () ↔ page.WellFormed := by
  simp only [validateSnapshotHistoryResponse, bind_eq_ok, exists_unit, reject_ok, validateName_ok,
    not_or, not_lt, ne_eq, not_not, gt_iff_lt]
  constructor
  · rintro ⟨hversion, hnamed, hcount, ⟨hoc, hnext⟩, hdropped, prior, hprior, hlast, hsize⟩
    have hdrop : ∀ n ∈ page.droppedBefore, n = page.oldestSequence := by
      intro n hn
      simpa [Option.mem_def.mp hn] using hdropped
    cases hlist : page.snapshots with
    | nil =>
      exact ⟨hversion, hnamed, hcount, hnext, hdrop, by simp [hlist], by simp [hlist],
        by simpa [hlist] using hoc, by simp [hlist], hsize⟩
    | cons snapshot rest =>
      rw [hlist] at hprior
      simp only [checkSnapshots, bind_eq_ok, exists_unit, reject_ok, Option.any_none, Bool.false_eq_true,
        or_false, not_lt, ne_eq, not_not] at hprior
      obtain ⟨hvalid, hsession, hold, hrest⟩ := hprior
      rw [checkSnapshots_some hold] at hrest
      obtain ⟨hall, hmap, rfl⟩ := hrest
      have hnext' : page.nextSequence = snapshot.sequence + rest.length + 1 := by
        simpa using hlast
      refine ⟨hversion, hnamed, hcount, hnext, hdrop, ?_, ?_, ?_, ?_, hsize⟩
      · simpa [hlist] using ⟨hvalid, fun s hs ↦ (hall s hs).1⟩
      · simpa [hlist] using ⟨hsession, fun s hs ↦ (hall s hs).2⟩
      · simp only [hlist, List.length_cons]
        omega
      · have hfirst : page.nextSequence - (rest.length + 1) = snapshot.sequence := by omega
        simp only [hlist, List.map_cons, List.length_cons, List.range'_succ, hfirst, hmap]
  · intro h
    have hoc : page.oldestSequence ≤ page.nextSequence := le_trans (Nat.le_add_right _ _) h.room
    have hdrop : ¬ (page.droppedBefore.any fun n ↦ decide (¬ n = page.oldestSequence)) = true := by
      cases hd : page.droppedBefore with
      | none => simp
      | some n => simpa using h.dropped n hd
    refine ⟨h.version, h.named, h.count, ⟨hoc, h.next_le⟩, hdrop, ?_⟩
    cases hlist : page.snapshots with
    | nil => exact ⟨none, rfl, by simp, h.size⟩
    | cons snapshot rest =>
      have hroom := h.room
      have hmap := h.consecutive
      have hvalid := h.valid
      have hsession := h.session
      simp only [hlist, List.map_cons, List.length_cons, List.range'_succ, List.cons.injEq,
        List.mem_cons, forall_eq_or_imp] at hroom hmap hvalid hsession
      have hold : page.oldestSequence ≤ snapshot.sequence := by omega
      refine ⟨some (snapshot.sequence + rest.length), ?_, ?_, h.size⟩
      · simp only [checkSnapshots, bind_eq_ok, exists_unit, reject_ok, Option.any_none, Bool.false_eq_true,
          or_false, not_lt, ne_eq, not_not]
        refine ⟨hvalid.1, hsession.1, hold, ?_⟩
        rw [checkSnapshots_some hold]
        refine ⟨fun s hs ↦ ⟨hvalid.2 s hs, hsession.2 s hs⟩, ?_, rfl⟩
        rw [hmap.1, hmap.2]
      · simp only [Option.any_some, decide_eq_true_eq, not_not]
        omega

/-- A valid pointer is empty or starts with a slash, and its escapes are well formed. -/
theorem validateSnapshotPointer_ok {path : String} (h : validateSnapshotPointer path = .ok ()) :
    (path = "" ∨ path.toList.head? = some '/') ∧ escapesValid path.toList = true := by
  simp only [validateSnapshotPointer, bind_eq_ok, exists_unit, reject_ok, not_or, not_and,
    not_not, Bool.not_eq_false, ne_eq] at h
  refine ⟨?_, h.2⟩
  by_cases hempty : path = ""
  · exact Or.inl hempty
  · exact Or.inr (h.1.2 hempty)

end Rvx.Core
