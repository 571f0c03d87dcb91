import Rvx.Core.Snapshots

/-!
# The text of snapshots and pages

Stored text determines the snapshot it was written from, the length of a snapshot's text depends
on its sequence only through the number of digits, and a page is at most as long as its snapshots
and the reserve a producer sets aside for the envelope.
-/

namespace Rvx.Core

open Printer (UnambiguousAt Avoids commaSeparated)

/-! ## Unambiguity -/

namespace StateSnapshot

/-- The text of one axis. -/
def printAxis (entry : String × ℤ) : List Char := member entry.1 (printInt entry.2)

theorem noDigit_comma (rest : List Char) : NoDigit (',' :: rest) := by
  simp only [NoDigit, Printer.avoids_cons]
  decide

theorem noDigit_brace (rest : List Char) : NoDigit ('}' :: rest) := by
  simp only [NoDigit, Printer.avoids_cons]
  decide

theorem unambiguousAt_printAxis (entry : String × ℤ) :
    UnambiguousAt printAxis NoDigit entry := by
  intro other rest rest' hrest hrest' h
  simp only [printAxis, member, List.append_assoc, List.cons_append] at h
  obtain ⟨hkey, htail⟩ := unambiguousAt_quote entry.1 trivial trivial h
  have hvalue := unambiguousAt_printInt entry.2 hrest hrest' (List.cons.inj htail).2
  exact ⟨Prod.ext hkey hvalue.1, hvalue.2⟩

theorem unambiguousAt_printAxes (axes : OrderedMap String ℤ) :
    UnambiguousAt printAxes (fun _ ↦ True) axes := by
  intro other rest rest' _ _ h
  simp only [printAxes, printObject, List.cons_append, List.cons.injEq, true_and] at h
  have hentries := Printer.unambiguousAt_commaSeparated
    (fun entry _ ↦ unambiguousAt_printAxis entry) noDigit_comma noDigit_brace (by decide)
    (fun entry ↦ ⟨quoteChar, _, rfl, by decide⟩) trivial trivial h
  obtain ⟨entries, _⟩ := axes
  obtain ⟨entries', _⟩ := other
  exact ⟨by simpa using hentries.1, hentries.2⟩

/-- Equal texts are texts of equal snapshots: every field is read off in turn. -/
theorem chars_injective : Function.Injective chars := by
  intro snapshot other h
  simp only [chars, printObject, commaSeparated, member, List.cons_append, List.append_assoc,
    List.cons.injEq, true_and, List.append_cancel_left_eq] at h
  obtain ⟨hsession, h⟩ := unambiguousAt_quote _ trivial trivial h
  simp only [List.cons.injEq, true_and, List.append_cancel_left_eq] at h
  obtain ⟨hsequence, h⟩ := unambiguousAt_printNat _ (noDigit_comma _) (noDigit_comma _) h
  simp only [List.cons.injEq, true_and, List.append_cancel_left_eq] at h
  obtain ⟨hobserved, h⟩ := unambiguousAt_printInt _ (noDigit_comma _) (noDigit_comma _) h
  simp only [List.cons.injEq, true_and, List.append_cancel_left_eq] at h
  obtain ⟨hschema, h⟩ := unambiguousAt_printNat _ (noDigit_comma _) (noDigit_comma _) h
  simp only [List.cons.injEq, true_and, List.append_cancel_left_eq] at h
  obtain ⟨haxes, h⟩ := unambiguousAt_printAxes _ trivial trivial h
  simp only [List.cons.injEq, true_and, List.append_cancel_left_eq] at h
  obtain ⟨hstate, -⟩ := Value.unambiguousAt_print _ (Value.noNumber_brace _)
    (Value.noNumber_brace _) h
  obtain ⟨session, sequence, observed, schema, axes, state, _⟩ := snapshot
  obtain ⟨session', sequence', observed', schema', axes', state', _⟩ := other
  dsimp only at hsession hsequence hobserved hschema haxes hstate
  subst hsession hsequence hobserved hschema haxes hstate
  rfl

theorem encode_injective : Function.Injective encode := by
  intro snapshot other h
  exact chars_injective (String.ofList_inj.mp h)

end StateSnapshot

/-! ## Lengths -/

theorem utf8Len_eq_length {text : List Char} (h : ∀ c ∈ text, c.utf8Size = 1) :
    String.utf8Len text = text.length := by
  induction text with
  | nil => rfl
  | cons c rest ih =>
    rw [String.utf8Len_cons, ih (fun d hd ↦ h d (by simp [hd])), h c (by simp), List.length_cons]

theorem utf8Size_of_isDigit {c : Char} (h : c.isDigit = true) : c.utf8Size = 1 := by
  simp only [Char.isDigit, Bool.and_eq_true, decide_eq_true_eq] at h
  have hle : c.val ≤ 0x7f := UInt32.le_trans h.2 (by decide)
  simp [Char.utf8Size, hle]

theorem utf8Len_printNat (n : ℕ) : String.utf8Len (printNat n) = (Nat.toDigits 10 n).length :=
  utf8Len_eq_length fun _ hc ↦ utf8Size_of_isDigit
    (Nat.isDigit_of_mem_toDigits (by norm_num) (by norm_num) hc)

/-- `checked_ilog10().unwrap_or(0) + 1` counts the decimal digits. -/
theorem length_toDigits (n : ℕ) : (Nat.toDigits 10 n).length = Nat.log 10 n + 1 := by
  apply le_antisymm
  · exact (Nat.length_toDigits_le_iff (by norm_num) (by omega)).mpr
      (Nat.lt_pow_succ_log_self (by norm_num) n)
  · by_contra hlt
    have hlength : (Nat.toDigits 10 n).length ≤ Nat.log 10 n := by omega
    have hpos : 0 < Nat.log 10 n := lt_of_lt_of_le Nat.length_toDigits_pos hlength
    have hn : n ≠ 0 := by
      rintro rfl
      simp at hpos
    have hsmall := (Nat.length_toDigits_le_iff (by norm_num) hpos).mp hlength
    exact absurd (Nat.pow_log_le_self 10 hn) (by omega)

theorem utf8Len_printNat_le {n : ℕ} (h : n ≤ I64_MAX) : String.utf8Len (printNat n) ≤ 19 := by
  rw [utf8Len_printNat, Nat.length_toDigits_le_iff (by norm_num) (by norm_num)]
  exact lt_of_le_of_lt h (by norm_num [I64_MAX])

theorem utf8Len_escapeChar_le (c : Char) :
    String.utf8Len (escapeChar c) ≤ 6 * String.utf8Len [c] := by
  have hpos : 1 ≤ c.utf8Size := Char.utf8Size_pos c
  have hslash : Char.utf8Size '\\' = 1 := by decide
  have hdigit (n : ℕ) : (Nat.digitChar n).utf8Size = 1 := by
    have hsmall : ∀ n < 16, (Nat.digitChar n).utf8Size = 1 := by decide
    by_cases hn : n < 16
    · exact hsmall n hn
    · have hstar : Nat.digitChar n = '*' := by
        simp only [Nat.digitChar]
        repeat rw [if_neg (by omega)]
      rw [hstar]
      decide
  unfold escapeChar
  split_ifs
  all_goals
    simp only [String.utf8Len_cons, String.utf8Len_nil, hslash, hdigit]
    have hb : Char.utf8Size 'b' = 1 := by decide
    have hf : Char.utf8Size 'f' = 1 := by decide
    have hn : Char.utf8Size 'n' = 1 := by decide
    have hr : Char.utf8Size 'r' = 1 := by decide
    have ht : Char.utf8Size 't' = 1 := by decide
    have hu : Char.utf8Size 'u' = 1 := by decide
    have hz : Char.utf8Size '0' = 1 := by decide
    omega

/-- Escaping makes a text at most six times as long. -/
theorem utf8Len_quote_le (text : String) :
    String.utf8Len (quote text) ≤ 6 * text.utf8ByteSize + 2 := by
  have hbody (chars : List Char) :
      String.utf8Len (chars.flatMap escapeChar) ≤ 6 * String.utf8Len chars := by
    induction chars with
    | nil => simp
    | cons c rest ih =>
      have hc := utf8Len_escapeChar_le c
      simp only [List.flatMap_cons, String.utf8Len_append, String.utf8Len_cons,
        String.utf8Len_nil] at hc ⊢
      omega
  have hsize : text.utf8ByteSize = String.utf8Len text.toList := by
    rw [← String.utf8ByteSize_ofList, String.ofList_toList]
  have hquote : quoteChar.utf8Size = 1 := by decide
  have hb := hbody text.toList
  simp only [quote, String.utf8Len_cons, String.utf8Len_append, String.utf8Len_nil, hquote]
  omega

namespace StateSnapshot

theorem encodedLength_withSequence (snapshot : StateSnapshot) (n : ℕ) :
    ({ snapshot with sequence := n } : StateSnapshot).encodedLength =
      ({ snapshot with sequence := 0 } : StateSnapshot).encodedLength + Nat.log 10 n := by
  have hzero : String.utf8Len (printNat 0) = 1 := by decide
  have hn : String.utf8Len (printNat n) = Nat.log 10 n + 1 := by
    rw [utf8Len_printNat, length_toDigits]
  simp only [encodedLength, chars, printObject, commaSeparated, member, String.utf8Len_cons,
    String.utf8Len_append, hzero, hn]
  omega

end StateSnapshot

namespace SnapshotHistoryResponse

/-- The envelope of a page fits the producer's reserve. -/
theorem encodedLength_le {page : SnapshotHistoryResponse} (hversion : page.protocolVersion = 1)
    (hoc : page.oldestSequence ≤ I64_MAX) (hnext : page.nextSequence ≤ I64_MAX)
    (hdropped : ∀ n ∈ page.droppedBefore, n ≤ I64_MAX) :
    page.encodedLength ≤ 1024 + page.sourceSessionId.utf8ByteSize * 6 +
      (page.snapshots.map fun snapshot ↦ snapshot.encodedLength + 1).sum := by
  have hv : String.utf8Len (printNat 1) = 1 := by decide
  have ho := utf8Len_printNat_le hoc
  have hn := utf8Len_printNat_le hnext
  have hd : String.utf8Len (page.droppedBefore.elim Value.null.print printNat) ≤ 19 := by
    cases hd : page.droppedBefore with
    | none => decide
    | some n => exact utf8Len_printNat_le (hdropped n hd)
  have hq := utf8Len_quote_le page.sourceSessionId
  have hs := Printer.utf8Len_commaSeparated_le (page.snapshots.map StateSnapshot.chars)
  have hsum : (((page.snapshots.map StateSnapshot.chars).map fun text ↦
      String.utf8Len text + 1).sum) =
      (page.snapshots.map fun snapshot ↦ snapshot.encodedLength + 1).sum := by
    rw [List.map_map]
    rfl
  rw [hsum] at hs
  have k1 : String.utf8Len (quote "protocol_version") = 18 := by decide
  have k2 : String.utf8Len (quote "source_session_id") = 19 := by decide
  have k3 : String.utf8Len (quote "oldest_sequence") = 17 := by decide
  have k4 : String.utf8Len (quote "next_sequence") = 15 := by decide
  have k5 : String.utf8Len (quote "dropped_before") = 16 := by decide
  have k6 : String.utf8Len (quote "snapshots") = 11 := by decide
  have c1 : Char.utf8Size ':' = 1 := by decide
  have c2 : Char.utf8Size ',' = 1 := by decide
  have c3 : Char.utf8Size '{' = 1 := by decide
  have c4 : Char.utf8Size '}' = 1 := by decide
  have c5 : Char.utf8Size '[' = 1 := by decide
  have c6 : Char.utf8Size ']' = 1 := by decide
  simp only [encodedLength, chars, printObject, printArray, commaSeparated, member,
    String.utf8Len_cons, String.utf8Len_append, String.utf8Len_nil, hversion, hv, k1, k2, k3, k4,
    k5, k6, c1, c2, c3, c4, c5, c6]
  omega

end SnapshotHistoryResponse

end Rvx.Core
