import Rvx.Core.Protocol

/-!
# Tracker records

A state whose `tracker` member carries a `record_version` is a tracker record: its header must
decode, and it is an event or an observation.  Every other state is a plain observation.
-/

namespace Rvx.Core

def TRACKER_RECORD_VERSION : ℕ := 1

inductive TrackerRecordKind where
  | observation
  | event
deriving DecidableEq

structure TrackerHeader where
  recordVersion : ℕ
  kind : TrackerRecordKind
  step : ℤ
  status : String
  commit : ℕ
  nonfinite : List String
deriving DecidableEq

def TrackerRecordKind.decode (value : Value) : Option TrackerRecordKind :=
  match value.asVariant with
  | some "observation" => some .observation
  | some "event" => some .event
  | _ => none

/-- `serde_json::from_value::<TrackerHeader>`; unknown members are ignored. -/
def TrackerHeader.decode (value : Value) : Option TrackerHeader := do
  let recordVersion ← (← value.get? "record_version").asU32
  let kind ← TrackerRecordKind.decode (← value.get? "kind")
  let step ← (← value.get? "step").asI64
  let status ← (← value.get? "status").asText
  let commit ← (← value.get? "commit").asU64
  let nonfinite ← match value.get? "nonfinite" with
    | none => some []
    | some texts => texts.asTexts
  return { recordVersion, kind, step, status, commit, nonfinite }

/-- Only an explicitly versioned tracker record has a header. -/
def trackerHeader (state : Value) : Except ProtocolError (Option TrackerHeader) :=
  match (state.get? "tracker").filter fun value ↦ (value.get? "record_version").isSome with
  | none => .ok none
  | some value =>
    match TrackerHeader.decode value with
    | none => .error .invalidTrackerHeader
    | some header =>
      if header.recordVersion ≠ TRACKER_RECORD_VERSION ∨ header.step < 0 then
        .error (.invalidSnapshot "unsupported tracker record version or step")
      else .ok (some header)

/-- The kind test on a header that may be absent. -/
def TrackerHeader.isEvent (header : Option TrackerHeader) : Bool :=
  header.any fun header ↦ header.kind = .event

def isTrackerEvent (state : Value) : Except ProtocolError Bool :=
  (trackerHeader state).map TrackerHeader.isEvent

theorem isTrackerEvent_ok {state : Value} {header : Option TrackerHeader}
    (h : trackerHeader state = .ok header) :
    isTrackerEvent state = .ok (TrackerHeader.isEvent header) := by
  simp [isTrackerEvent, h, Except.map]

end Rvx.Core
