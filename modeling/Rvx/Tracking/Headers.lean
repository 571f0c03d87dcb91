import Rvx.Tracking.State

/-!
# Headers of captured records

The snapshot a record becomes carries its kind, step and commit number in a header every reader of
the snapshot decodes.
-/

namespace Rvx.Tracking

open Core

theorem asTexts_array (texts : List String) :
    (Json.array (texts.map Json.text)).value.asTexts = some texts := by
  have hitems : ∀ texts : List String, (texts.map Value.string).mapM Value.asText = some texts := by
    intro texts
    induction texts with
    | nil => rfl
    | cons text rest ih =>
      rw [List.map_cons, List.mapM_cons, ih]
      rfl
  have hvalues : (texts.map Json.text).map Json.value = texts.map Value.string := by
    rw [List.map_map]
    rfl
  rw [Json.array, Value.asTexts, hvalues, hitems]

theorem asI64_int {step : ℤ} (hlow : 0 ≤ step) (hhigh : step < 2 ^ 63) :
    (Json.int step).value.asI64 = some step :=
  Number.asI64_ofInt (by omega) hhigh

theorem asU64_int {n : ℕ} (h : n < 2 ^ 64) : (Json.int n).value.asU64 = some n :=
  Number.asU64_ofInt h

theorem decode_kind (kind : TrackerRecordKind) :
    TrackerRecordKind.decode (Json.text (kindText kind)).value = some kind := by
  cases kind <;> rfl

namespace TrackerRecord

/-- What a reader decodes. -/
def expectedHeader (record : TrackerRecord) : TrackerHeader where
  recordVersion := TRACKER_RECORD_VERSION
  kind := record.kind
  step := record.step
  status := record.status.text
  commit := record.commit
  nonfinite := record.nonfinite

theorem decode_header {record : TrackerRecord} (hlow : 0 ≤ record.step)
    (hhigh : record.step < 2 ^ 63) (hcommit : record.commit < 2 ^ 64) :
    TrackerHeader.decode record.header.value = some record.expectedHeader := by
  have hversion : record.header.value.get? "record_version" =
      some (Json.int TRACKER_RECORD_VERSION).value := by simp [header, Json.get?_literal]
  have hkind : record.header.value.get? "kind" = some (Json.text (kindText record.kind)).value := by
    simp [header, Json.get?_literal]
  have hstep : record.header.value.get? "step" = some (Json.int record.step).value := by
    simp [header, Json.get?_literal]
  have hstatus : record.header.value.get? "status" =
      some (Json.text record.status.text).value := by simp [header, Json.get?_literal]
  have hnumber : record.header.value.get? "commit" = some (Json.int record.commit).value := by
    simp [header, Json.get?_literal]
  have hnonfinite : record.header.value.get? "nonfinite" =
      some (Json.array (record.nonfinite.map Json.text)).value := by
    simp [header, Json.get?_literal]
  have hone : (Json.int TRACKER_RECORD_VERSION).value.asU32 = some TRACKER_RECORD_VERSION := by
    rw [Value.asU32, asU64_int (by decide)]
    rfl
  have htext : (Json.text record.status.text).value.asText = some record.status.text := rfl
  simp only [TrackerHeader.decode, hversion, hkind, hstep, hstatus, hnumber, hnonfinite, hone,
    htext, decode_kind, asI64_int hlow hhigh, asU64_int hcommit, asTexts_array,
    Option.bind_eq_bind, Option.bind_some]
  rfl

/-- Every reader finds the header of a record in its snapshot. -/
theorem trackerHeader_event (floats : FloatText) (config : Json) (options : TrackerOptions)
    {record : TrackerRecord} (hlow : 0 ≤ record.step) (hhigh : record.step < 2 ^ 63)
    (hcommit : record.commit < 2 ^ 64) :
    trackerHeader (record.event floats config options).state.value =
      .ok (some record.expectedHeader) := by
  have hmember : (record.event floats config options).state.value.get? "tracker" =
      some record.header.value := by simp [event, Json.get?_literal]
  have hversion : (record.header.value.get? "record_version").isSome := by
    simp [header, Json.get?_literal]
  rw [trackerHeader, hmember, Option.filter_some, if_pos hversion]
  dsimp only
  rw [decode_header hlow hhigh hcommit]
  dsimp only
  rw [if_neg]
  simp [expectedHeader, hlow]

end TrackerRecord

end Rvx.Tracking
