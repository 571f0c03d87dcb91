import Rvx.Core.Artifacts
import Rvx.Core.StoredSnapshot

/-!
# Lineage records

The text of an artifact record determines the record, and a valid record is not much longer than the
value it was decoded from.  A lineage page returns it under the snapshot that lists it.
-/

namespace Rvx.Core

open Printer (commaSeparated UnambiguousAt)

/-! ## Lengths of values -/

theorem utf8Len_le_of_mem {texts : List (List Char)} {text : List Char} (h : text ∈ texts) :
    String.utf8Len text ≤ String.utf8Len (commaSeparated texts) := by
  have hsum := utf8Len_commaSeparated (List.ne_nil_of_mem h)
  have hmem := List.le_sum_of_mem (List.mem_map_of_mem (f := fun text ↦ String.utf8Len text + 1) h)
  omega

namespace Value

theorem utf8Len_item_le {items : List Value} {item : Value} (h : item ∈ items) :
    String.utf8Len item.print ≤ String.utf8Len (Value.array items).print := by
  have hmem := utf8Len_le_of_mem (List.mem_map_of_mem (f := print) h)
  simp only [print, printArray, printItems_eq, String.utf8Len_cons, String.utf8Len_append]
  omega

theorem utf8Len_get?_le {value child : Value} {key : String} (h : value.get? key = some child) :
    String.utf8Len child.print ≤ String.utf8Len value.print := by
  unfold get? at h
  split at h
  · rename_i entries
    obtain ⟨entry, hfind, rfl⟩ := Option.map_eq_some_iff.mp h
    have hmem := utf8Len_le_of_mem
      (List.mem_map_of_mem (f := printEntry) (List.mem_of_find?_eq_some hfind))
    rw [printEntry, utf8Len_member] at hmem
    simp only [print, printObject, printEntries_eq, String.utf8Len_cons, String.utf8Len_append]
    omega
  · simp at h

/-- An array has no more items than its text has bytes. -/
theorem length_items_le (items : List Value) :
    items.length ≤ String.utf8Len (Value.array items).print := by
  cases items with
  | nil => exact Nat.zero_le _
  | cons first rest =>
    have hsum := utf8Len_commaSeparated
      (show (first :: rest).map print ≠ [] by simp)
    have hlength := List.length_le_sum_of_one_le
      (((first :: rest).map print).map fun text ↦ String.utf8Len text + 1) (by simp)
    have hopen : Char.utf8Size '[' = 1 := by decide
    rw [List.length_map, List.length_map] at hlength
    simp only [print, printArray, printItems_eq, String.utf8Len_cons, String.utf8Len_append, hopen]
    omega

end Value

/-! ## Artifact records -/

theorem ArtifactAction.text_injective : Function.Injective ArtifactAction.text := by
  intro action other h
  cases action <;> cases other <;> first | rfl | exact absurd h (by decide)

namespace ArtifactRecord

/-- The fields of a record in declaration order. -/
def members (record : ArtifactRecord) : List (List Char) :=
  [member "record_version" (printNat record.recordVersion),
   member "action" (quote record.action.text), member "name" (quote record.name),
   member "type" (quote record.kind), member "digest" (quote record.digest),
   member "size" (printNat record.size), member "uri" (quote record.uri),
   member "aliases" (printArray (record.aliases.map quote)),
   member "metadata" record.metadata.print]

theorem encode_eq (record : ArtifactRecord) :
    record.encode = String.ofList (printObject record.members) := rfl

theorem unambiguousAt_texts (texts : List String) :
    UnambiguousAt (fun texts ↦ printArray (texts.map quote)) (fun _ ↦ True) texts := by
  intro others rest rest' _ _ heq
  simp only [printArray, List.cons_append, List.cons.injEq, true_and] at heq
  exact Printer.unambiguousAt_commaSeparated (fun text _ ↦ unambiguousAt_quote text)
    (fun _ ↦ trivial) (fun _ ↦ trivial) (by decide)
    (fun text ↦ ⟨quoteChar, _, rfl, by decide⟩) trivial trivial heq

/-- Equal texts are texts of equal records: every field is read off in turn. -/
theorem encode_injective : Function.Injective encode := by
  intro record other h
  have h := String.ofList_inj.mp h
  simp only [printObject, commaSeparated, member, List.cons_append, List.append_assoc,
    List.cons.injEq, true_and, List.append_cancel_left_eq] at h
  obtain ⟨hversion, h⟩ := unambiguousAt_printNat _ (StateSnapshot.noDigit_comma _)
    (StateSnapshot.noDigit_comma _) h
  simp only [List.cons.injEq, true_and, List.append_cancel_left_eq] at h
  obtain ⟨haction, h⟩ := unambiguousAt_quote _ trivial trivial h
  simp only [List.cons.injEq, true_and, List.append_cancel_left_eq] at h
  obtain ⟨hname, h⟩ := unambiguousAt_quote _ trivial trivial h
  simp only [List.cons.injEq, true_and, List.append_cancel_left_eq] at h
  obtain ⟨hkind, h⟩ := unambiguousAt_quote _ trivial trivial h
  simp only [List.cons.injEq, true_and, List.append_cancel_left_eq] at h
  obtain ⟨hdigest, h⟩ := unambiguousAt_quote _ trivial trivial h
  simp only [List.cons.injEq, true_and, List.append_cancel_left_eq] at h
  obtain ⟨hsize, h⟩ := unambiguousAt_printNat _ (StateSnapshot.noDigit_comma _)
    (StateSnapshot.noDigit_comma _) h
  simp only [List.cons.injEq, true_and, List.append_cancel_left_eq] at h
  obtain ⟨huri, h⟩ := unambiguousAt_quote _ trivial trivial h
  simp only [List.cons.injEq, true_and, List.append_cancel_left_eq] at h
  obtain ⟨haliases, h⟩ := unambiguousAt_texts _ trivial trivial h
  simp only [List.cons.injEq, true_and, List.append_cancel_left_eq] at h
  obtain ⟨hmetadata, -⟩ := Value.unambiguousAt_print _ (Value.noNumber_brace _)
    (Value.noNumber_brace _) h
  cases record
  cases other
  simp_all [ArtifactAction.text_injective.eq_iff]

/-! ### Lengths -/

theorem validText_le {text : String} (h : validText text = true) : text.utf8ByteSize ≤ 4096 := by
  simp only [validText, Bool.and_eq_true, decide_eq_true_eq] at h
  exact h.1.2

/-- The texts of a valid record are bounded, and so is their number. -/
theorem validate_ok {record : ArtifactRecord} (h : record.validate = .ok ()) :
    record.recordVersion = 1 ∧ (∀ text ∈ [record.name, record.kind, record.digest, record.uri],
      text.utf8ByteSize ≤ 4096) ∧ record.aliases.length ≤ 256 ∧
      ∀ text ∈ record.aliases, text.utf8ByteSize ≤ 4096 := by
  unfold validate at h
  split at h
  · simp at h
  · rename_i hvalid
    simp only [not_or, not_not, not_lt, List.any_eq_true, Bool.not_eq_eq_eq_not, Bool.not_true,
      not_exists, not_and, Bool.not_eq_false, ne_eq] at hvalid
    obtain ⟨hversion, hname, hkind, hdigest, huri, hlength, haliases, -⟩ := hvalid
    refine ⟨hversion, ?_, hlength, fun text htext ↦ validText_le (haliases text htext)⟩
    simp only [List.mem_cons, List.not_mem_nil, or_false, forall_eq_or_imp, forall_eq]
    exact ⟨validText_le hname, validText_le hkind, validText_le hdigest, validText_le huri⟩

/-- A field is a part of the value. -/
theorem fields_le {value child : Value} {values : List (Option Value)}
    (h : fields value = some values) (hchild : some child ∈ values) :
    String.utf8Len child.print ≤ String.utf8Len value.print := by
  unfold fields at h
  split at h
  · split at h
    · obtain rfl := Option.some.inj h
      obtain ⟨name, -, hget⟩ := List.mem_map.mp hchild
      exact Value.utf8Len_get?_le hget
    · simp at h
  · split at h
    · obtain rfl := Option.some.inj h
      obtain ⟨index, -, hget⟩ := List.mem_map.mp hchild
      exact Value.utf8Len_item_le (List.mem_of_getElem? hget)
    · simp at h
  · simp at h

/-- The metadata is a part of the value or null, and the size is a value of `u64`. -/
theorem decode_le {value : Value} {record : ArtifactRecord} (h : decode value = some record) :
    String.utf8Len record.metadata.print ≤ String.utf8Len value.print + 4 ∧ record.size < 2 ^ 64 := by
  unfold decode at h
  split at h
  · rename_i recordVersion action name kind digest size uri aliases metadata hfields
    simp only [Option.bind_eq_bind, Option.bind_eq_some_iff, Option.pure_def,
      Option.some.injEq] at h
    obtain ⟨_, -, _, -, _, -, _, -, _, -, _, -, _, -, _, -, _, -, sized, -, size, hsize, _, -, _, -,
      _, -, rfl⟩ := h
    constructor
    · cases hmetadata : metadata with
      | none =>
        have hnull : String.utf8Len Value.null.print = 4 := by decide
        rw [Option.getD_none, hnull]
        omega
      | some child =>
        have hle := fields_le hfields (by simp [hmetadata] : some child ∈ _)
        rw [Option.getD_some]
        exact le_trans hle (Nat.le_add_right _ 4)
    · unfold Value.asU64 Number.asU64 at hsize
      obtain ⟨number, -, hnumber⟩ := Option.bind_eq_some_iff.mp hsize
      split at hnumber
      · rename_i hvalid
        exact Option.some.inj hnumber ▸ hvalid.2.2
      · simp at hnumber
  · simp at h

/-- A list of bounded texts is bounded. -/
theorem utf8Len_texts_le {texts : List String} (h : ∀ text ∈ texts, text.utf8ByteSize ≤ 4096) :
    String.utf8Len (printArray (texts.map quote)) ≤ 24579 * texts.length + 2 := by
  have hjoined := Printer.utf8Len_commaSeparated_le (texts.map quote)
  have hitems : ((texts.map quote).map fun text ↦ String.utf8Len text + 1).sum ≤
      24579 * texts.length := by
    clear hjoined
    induction texts with
    | nil => simp
    | cons text rest ih =>
      simp only [List.mem_cons, forall_eq_or_imp] at h
      have hquote := utf8Len_quote_le text
      have hrest := ih h.2
      simp only [List.map_cons, List.sum_cons, List.length_cons] at hrest ⊢
      omega
  have hopen : Char.utf8Size '[' = 1 := by decide
  have hclose : Char.utf8Size ']' = 1 := by decide
  simp only [printArray, String.utf8Len_cons, String.utf8Len_append, String.utf8Len_nil, hopen,
    hclose]
  omega

/-- Besides its metadata a valid record has less than 6500000 bytes. -/
theorem utf8ByteSize_encode_le {value : Value} {record : ArtifactRecord}
    (hdecode : decode value = some record) (hvalid : record.validate = .ok ()) :
    record.encode.utf8ByteSize ≤ String.utf8Len value.print + 6500000 := by
  obtain ⟨hversion, htexts, hlength, haliases⟩ := validate_ok hvalid
  obtain ⟨hmetadata, hsize⟩ := decode_le hdecode
  simp only [List.mem_cons, List.not_mem_nil, or_false, forall_eq_or_imp, forall_eq] at htexts
  obtain ⟨hname, hkind, hdigest, huri⟩ := htexts
  have hdigits : String.utf8Len (printNat record.size) ≤ 20 := by
    rw [utf8Len_printNat, Nat.length_toDigits_le_iff (by norm_num) (by norm_num)]
    exact lt_trans hsize (by norm_num)
  have haction : String.utf8Len (quote record.action.text) = 5 := by
    cases record.action <;> decide
  have hone : String.utf8Len (printNat 1) = 1 := by decide
  have hprintName := utf8Len_quote_le record.name
  have hprintKind := utf8Len_quote_le record.kind
  have hprintDigest := utf8Len_quote_le record.digest
  have hprintUri := utf8Len_quote_le record.uri
  have hprintAliases := utf8Len_texts_le haliases
  have k1 : String.utf8Len (quote "record_version") = 16 := by decide
  have k2 : String.utf8Len (quote "action") = 8 := by decide
  have k3 : String.utf8Len (quote "name") = 6 := by decide
  have k4 : String.utf8Len (quote "type") = 6 := by decide
  have k5 : String.utf8Len (quote "digest") = 8 := by decide
  have k6 : String.utf8Len (quote "size") = 6 := by decide
  have k7 : String.utf8Len (quote "uri") = 5 := by decide
  have k8 : String.utf8Len (quote "aliases") = 9 := by decide
  have k9 : String.utf8Len (quote "metadata") = 10 := by decide
  rw [encode_eq, String.utf8ByteSize_ofList, utf8Len_printObject (by simp [members])]
  simp only [members, List.map_cons, List.map_nil, List.sum_cons, List.sum_nil, utf8Len_member,
    hversion, hone, haction, k1, k2, k3, k4, k5, k6, k7, k8, k9]
  omega

end ArtifactRecord

/-! ## Lineage records -/

structure ArtifactLineageRecord where
  snapshotId : ℕ
  artifactIndex : ℕ
  runId : String
  sourceId : String
  observedAtNs : ℤ
  step : Option ℤ
  record : ArtifactRecord

namespace ArtifactLineageRecord

/-- `serde_json::to_vec(&artifact)`, with the record flattened into it. -/
def chars (artifact : ArtifactLineageRecord) : List Char :=
  printObject
    ([member "snapshot_id" (printNat artifact.snapshotId),
      member "artifact_index" (printNat artifact.artifactIndex),
      member "run_id" (quote artifact.runId), member "source_id" (quote artifact.sourceId),
      member "observed_at_ns" (printInt artifact.observedAtNs),
      member "step" (artifact.step.elim Value.null.print printInt)] ++ artifact.record.members)

def encodedLength (artifact : ArtifactLineageRecord) : ℕ := String.utf8Len artifact.chars

/-- The other fields take less than 50000 bytes. -/
theorem encodedLength_le {artifact : ArtifactLineageRecord} (hid : artifact.snapshotId ≤ I64_MAX)
    (hindex : artifact.artifactIndex ≤ I64_MAX) (hrun : artifact.runId.utf8ByteSize ≤ 4096)
    (hsource : artifact.sourceId.utf8ByteSize ≤ 4096) (hobserved : IsI64 artifact.observedAtNs)
    (hstep : ∀ step ∈ artifact.step, IsI64 step) :
    artifact.encodedLength ≤ artifact.record.encode.utf8ByteSize + 50000 := by
  have hrecord : artifact.record.encode.utf8ByteSize =
      (artifact.record.members.map fun text ↦ String.utf8Len text + 1).sum + 1 := by
    rw [ArtifactRecord.encode_eq, String.utf8ByteSize_ofList]
    exact utf8Len_printObject (by simp [ArtifactRecord.members])
  have hprintId := utf8Len_printNat_le hid
  have hprintIndex := utf8Len_printNat_le hindex
  have hprintRun := utf8Len_quote_le artifact.runId
  have hprintSource := utf8Len_quote_le artifact.sourceId
  have hprintObserved := utf8Len_printInt_le hobserved
  have hprintStep : String.utf8Len (artifact.step.elim Value.null.print printInt) ≤ 20 := by
    cases hsome : artifact.step with
    | none => decide
    | some step => exact utf8Len_printInt_le (hstep step hsome)
  have k1 : String.utf8Len (quote "snapshot_id") = 13 := by decide
  have k2 : String.utf8Len (quote "artifact_index") = 16 := by decide
  have k3 : String.utf8Len (quote "run_id") = 8 := by decide
  have k4 : String.utf8Len (quote "source_id") = 11 := by decide
  have k5 : String.utf8Len (quote "observed_at_ns") = 16 := by decide
  have k6 : String.utf8Len (quote "step") = 6 := by decide
  rw [encodedLength, chars, utf8Len_printObject (by simp), List.map_append, List.sum_append]
  simp only [List.map_cons, List.map_nil, List.sum_cons, List.sum_nil, utf8Len_member, k1, k2, k3,
    k4, k5, k6]
  omega

end ArtifactLineageRecord

end Rvx.Core
