import Rvx.Core.SnapshotText

/-!
# Stored snapshots

A snapshot as a page returns it: under its row, with the fields of the snapshot among those of the
row.  Its text is not much longer than the text of the snapshot.
-/

namespace Rvx.Core

open Printer (commaSeparated)

structure StoredSnapshot where
  id : ℕ
  runId : String
  sourceId : String
  ingestedAtNs : ℤ
  snapshot : StateSnapshot
deriving DecidableEq

/-- The fields of a snapshot in declaration order. -/
def StateSnapshot.members (snapshot : StateSnapshot) : List (List Char) :=
  [member "source_session_id" (quote snapshot.sourceSessionId),
   member "sequence" (printNat snapshot.sequence),
   member "observed_at_ns" (printInt snapshot.observedAtNs),
   member "schema_version" (printNat snapshot.schemaVersion),
   member "axes" (StateSnapshot.printAxes snapshot.axes),
   member "state" snapshot.state.value.print]

theorem StateSnapshot.chars_eq (snapshot : StateSnapshot) :
    snapshot.chars = printObject snapshot.members := rfl

/-! ## Lengths -/

/-- The values of `i64`. -/
def IsI64 (value : ℤ) : Prop := -2 ^ 63 ≤ value ∧ value < 2 ^ 63

instance (value : ℤ) : Decidable (IsI64 value) := inferInstanceAs (Decidable (_ ∧ _))

theorem utf8Len_printInt_le {value : ℤ} (h : IsI64 value) : String.utf8Len (printInt value) ≤ 20 := by
  unfold IsI64 at h
  cases value with
  | ofNat n =>
    have hn : n ≤ I64_MAX := by
      rw [Int.ofNat_eq_natCast] at h
      unfold I64_MAX
      omega
    exact le_trans (utf8Len_printNat_le hn) (by norm_num)
  | negSucc n =>
    have hdigits : String.utf8Len (printNat (n + 1)) ≤ 19 := by
      rw [utf8Len_printNat, Nat.length_toDigits_le_iff (by norm_num) (by norm_num)]
      omega
    have hminus : Char.utf8Size '-' = 1 := by decide
    rw [printInt, String.utf8Len_cons, hminus]
    omega

/-- The texts of a list, each with its comma, are as long as the joined text and one comma. -/
theorem utf8Len_commaSeparated {texts : List (List Char)} (h : texts ≠ []) :
    String.utf8Len (commaSeparated texts) + 1 =
      (texts.map fun text ↦ String.utf8Len text + 1).sum := by
  induction texts with
  | nil => exact absurd rfl h
  | cons text rest ih =>
    cases rest with
    | nil => simp [commaSeparated]
    | cons next rest =>
      have hcomma : Char.utf8Size ',' = 1 := by decide
      have hrest := ih (by simp)
      simp only [commaSeparated, String.utf8Len_append, String.utf8Len_cons, hcomma,
        List.map_cons, List.sum_cons] at hrest ⊢
      omega

/-- The braces take the room of two commas. -/
theorem utf8Len_printObject {members : List (List Char)} (h : members ≠ []) :
    String.utf8Len (printObject members) =
      (members.map fun text ↦ String.utf8Len text + 1).sum + 1 := by
  have hopen : Char.utf8Size '{' = 1 := by decide
  have hclose : Char.utf8Size '}' = 1 := by decide
  have hsum := utf8Len_commaSeparated h
  simp only [printObject, String.utf8Len_cons, String.utf8Len_append, String.utf8Len_nil, hopen,
    hclose]
  omega

theorem utf8Len_member (key : String) (value : List Char) :
    String.utf8Len (member key value) = String.utf8Len (quote key) + String.utf8Len value + 1 := by
  have hcolon : Char.utf8Size ':' = 1 := by decide
  rw [member, String.utf8Len_append, String.utf8Len_cons, hcolon]
  omega

namespace StoredSnapshot

/-- `serde_json::to_vec(&snapshot)`, with the snapshot flattened into its row. -/
def chars (stored : StoredSnapshot) : List Char :=
  printObject
    ([member "id" (printNat stored.id), member "run_id" (quote stored.runId),
      member "source_id" (quote stored.sourceId),
      member "ingested_at_ns" (printInt stored.ingestedAtNs)] ++ stored.snapshot.members)

def encodedLength (stored : StoredSnapshot) : ℕ := String.utf8Len stored.chars

/-- The fields of the row take less than 50000 bytes. -/
theorem encodedLength_le {stored : StoredSnapshot} (hid : stored.id ≤ I64_MAX)
    (hrun : stored.runId.utf8ByteSize ≤ 4096) (hsource : stored.sourceId.utf8ByteSize ≤ 4096)
    (hingested : IsI64 stored.ingestedAtNs) :
    stored.encodedLength ≤ stored.snapshot.encodedLength + 50000 := by
  have hsnapshot : stored.snapshot.encodedLength =
      (stored.snapshot.members.map fun text ↦ String.utf8Len text + 1).sum + 1 := by
    rw [StateSnapshot.encodedLength, StateSnapshot.chars_eq]
    exact utf8Len_printObject (by simp [StateSnapshot.members])
  have hprintId := utf8Len_printNat_le hid
  have hprintRun := utf8Len_quote_le stored.runId
  have hprintSource := utf8Len_quote_le stored.sourceId
  have hprintIngested := utf8Len_printInt_le hingested
  have k1 : String.utf8Len (quote "id") = 4 := by decide
  have k2 : String.utf8Len (quote "run_id") = 8 := by decide
  have k3 : String.utf8Len (quote "source_id") = 11 := by decide
  have k4 : String.utf8Len (quote "ingested_at_ns") = 16 := by decide
  rw [encodedLength, chars, utf8Len_printObject (by simp), List.map_append, List.sum_append]
  simp only [List.map_cons, List.map_nil, List.sum_cons, List.sum_nil, utf8Len_member, k1, k2, k3,
    k4]
  omega

end StoredSnapshot

end Rvx.Core
