import Mathlib.Data.List.Basic
import Mathlib.Data.String.Basic
import Mathlib.Data.UInt

/-!
# Lossy UTF-8

The text in which a byte string is shown: characters are kept, and every maximal part that is no
beginning of a character is replaced by U+FFFD.  Texts are shown as they are; other byte strings are
not told apart.
-/

namespace Rvx.LossyUtf8

/-- U+FFFD. -/
def replacement : List UInt8 := [0xEF, 0xBF, 0xBD]

/-- The first and last byte a continuation may be. -/
def tail : UInt8 × UInt8 := (0x80, 0xBF)

/-- The bytes that follow a first byte, `none` where no character starts with it. -/
def following (lead : UInt8) : Option (List (UInt8 × UInt8)) :=
  if lead ≤ 0x7F then some []
  else if 0xC2 ≤ lead ∧ lead ≤ 0xDF then some [tail]
  else if lead = 0xE0 then some [(0xA0, 0xBF), tail]
  else if lead = 0xED then some [(0x80, 0x9F), tail]
  else if 0xE1 ≤ lead ∧ lead ≤ 0xEF then some [tail, tail]
  else if lead = 0xF0 then some [(0x90, 0xBF), tail, tail]
  else if 0xF1 ≤ lead ∧ lead ≤ 0xF3 then some [tail, tail, tail]
  else if lead = 0xF4 then some [(0x80, 0x8F), tail, tail]
  else none

/-- The text so far, and the character begun with what it still expects. -/
structure Decoder where
  text : List UInt8
  pending : List UInt8
  expected : List (UInt8 × UInt8)

def Decoder.start (text : List UInt8) (lead : UInt8) : Decoder :=
  match following lead with
  | none => ⟨text ++ replacement, [], []⟩
  | some [] => ⟨text ++ [lead], [], []⟩
  | some (range :: more) => ⟨text, [lead], range :: more⟩

def Decoder.accept (decoder : Decoder) (byte : UInt8) : Decoder :=
  match decoder.expected with
  | [] => .start decoder.text byte
  | (low, high) :: more =>
    if low ≤ byte ∧ byte ≤ high then
      match more with
      | [] => ⟨decoder.text ++ (decoder.pending ++ [byte]), [], []⟩
      | range :: others => ⟨decoder.text, decoder.pending ++ [byte], range :: others⟩
    else .start (decoder.text ++ replacement) byte

def Decoder.finish (decoder : Decoder) : List UInt8 :=
  match decoder.expected with
  | [] => decoder.text
  | _ :: _ => decoder.text ++ replacement

/-- The bytes of the text a byte string is shown as. -/
def lossy (bytes : List UInt8) : List UInt8 := (bytes.foldl Decoder.accept ⟨[], [], []⟩).finish

example : lossy [0x61, 0xFF, 0xC3, 0xA9, 0xE2, 0x82] =
    [0x61, 0xEF, 0xBF, 0xBD, 0xC3, 0xA9, 0xEF, 0xBF, 0xBD] := by decide

/-! ## The bytes of the text -/

/-- All bytes kept so far are of a kind. -/
def Decoder.Of (member : UInt8 → Prop) (decoder : Decoder) : Prop :=
  (∀ byte ∈ decoder.text, member byte) ∧ ∀ byte ∈ decoder.pending, member byte

section

variable {member : UInt8 → Prop}

theorem Decoder.Of.start (hreplacement : ∀ byte ∈ replacement, member byte) {text : List UInt8}
    (htext : ∀ byte ∈ text, member byte) {lead : UInt8} (hlead : member lead) :
    (Decoder.start text lead).Of member := by
  unfold Decoder.start
  split
  · exact ⟨List.forall_mem_append.mpr ⟨htext, hreplacement⟩, by simp⟩
  · exact ⟨List.forall_mem_append.mpr ⟨htext, by simpa using hlead⟩, by simp⟩
  · exact ⟨htext, by simpa using hlead⟩

theorem Decoder.Of.accept (hreplacement : ∀ byte ∈ replacement, member byte) {decoder : Decoder}
    (h : decoder.Of member) {byte : UInt8} (hbyte : member byte) :
    (decoder.accept byte).Of member := by
  have hpending : ∀ other ∈ decoder.pending ++ [byte], member other :=
    List.forall_mem_append.mpr ⟨h.2, by simpa using hbyte⟩
  unfold Decoder.accept
  split
  · exact .start hreplacement h.1 hbyte
  · split
    · split
      · exact ⟨List.forall_mem_append.mpr ⟨h.1, hpending⟩, by simp⟩
      · exact ⟨h.1, hpending⟩
    · exact .start hreplacement (List.forall_mem_append.mpr ⟨h.1, hreplacement⟩) hbyte

theorem Decoder.Of.foldl (hreplacement : ∀ byte ∈ replacement, member byte) {bytes : List UInt8}
    (hbytes : ∀ byte ∈ bytes, member byte) {decoder : Decoder} (h : decoder.Of member) :
    (bytes.foldl Decoder.accept decoder).Of member := by
  induction bytes generalizing decoder with
  | nil => exact h
  | cons byte rest ih =>
    rw [List.forall_mem_cons] at hbytes
    exact ih hbytes.2 (h.accept hreplacement hbytes.1)

/-- The text holds bytes of the byte string and of U+FFFD only. -/
theorem forall_mem_lossy (hreplacement : ∀ byte ∈ replacement, member byte) {bytes : List UInt8}
    (hbytes : ∀ byte ∈ bytes, member byte) : ∀ byte ∈ lossy bytes, member byte := by
  have h : (bytes.foldl Decoder.accept ⟨[], [], []⟩).Of member :=
    .foldl hreplacement hbytes ⟨by simp, by simp⟩
  unfold lossy Decoder.finish
  split
  · exact h.1
  · exact List.forall_mem_append.mpr ⟨h.1, hreplacement⟩

end

/-! ## Texts -/

theorem accept_idle {text : List UInt8} {byte : UInt8} :
    Decoder.accept ⟨text, [], []⟩ byte = .start text byte := rfl

theorem accept_more {text pending : List UInt8} {low high byte : UInt8} {range : UInt8 × UInt8}
    {more : List (UInt8 × UInt8)} (h : low ≤ byte ∧ byte ≤ high) :
    Decoder.accept ⟨text, pending, (low, high) :: range :: more⟩ byte =
      ⟨text, pending ++ [byte], range :: more⟩ := by
  simp [Decoder.accept, h]

theorem accept_last {text pending : List UInt8} {low high byte : UInt8}
    (h : low ≤ byte ∧ byte ≤ high) :
    Decoder.accept ⟨text, pending, [(low, high)]⟩ byte = ⟨text ++ (pending ++ [byte]), [], []⟩ := by
  simp [Decoder.accept, h]

/-- A byte by its number. -/
theorem toNat_ofNat {value : ℕ} (h : value < 256) : (UInt8.ofNat value).toNat = value := by
  simpa using Nat.mod_eq_of_lt h

theorem tail_ofNat (value : ℕ) :
    tail.1 ≤ UInt8.ofNat (value % 0x40 + 0x80) ∧ UInt8.ofNat (value % 0x40 + 0x80) ≤ tail.2 := by
  rw [UInt8.le_iff_toNat_le, UInt8.le_iff_toNat_le, toNat_ofNat (by omega)]
  simp only [tail, UInt8.reduceToNat]
  omega

/-- Two bytes for the characters from U+0080 to U+07FF. -/
theorem following_two {value : ℕ} (hlow : 0x7F < value) (hhigh : value ≤ 0x7FF) :
    following (UInt8.ofNat (value / 64 % 0x20 + 0xC0)) = some [tail] := by
  have hlead := @toNat_ofNat (value / 64 % 0x20 + 0xC0) (by omega)
  unfold following
  simp only [UInt8.le_iff_toNat_le, hlead, UInt8.reduceToNat]
  rw [if_neg (by omega), if_pos (by omega)]

/-- Three bytes for the characters up to U+FFFF, which are no surrogates. -/
theorem following_three {value : ℕ} (hlow : 0x7FF < value) (hhigh : value ≤ 0xFFFF)
    (hsurrogate : value < 0xD800 ∨ 0xDFFF < value) :
    ∃ low high, following (UInt8.ofNat (value / 4096 % 0x10 + 0xE0)) = some [(low, high), tail] ∧
      low ≤ UInt8.ofNat (value / 64 % 0x40 + 0x80) ∧
      UInt8.ofNat (value / 64 % 0x40 + 0x80) ≤ high := by
  have hlead := @toNat_ofNat (value / 4096 % 0x10 + 0xE0) (by omega)
  have hnext := @toNat_ofNat (value / 64 % 0x40 + 0x80) (by omega)
  unfold following
  simp only [UInt8.le_iff_toNat_le, ← UInt8.toNat_inj, hlead, hnext, UInt8.reduceToNat]
  rw [if_neg (by omega), if_neg (by omega)]
  split_ifs
  · exact ⟨_, _, rfl, by simp only [UInt8.reduceToNat]; omega⟩
  · exact ⟨_, _, rfl, by simp only [UInt8.reduceToNat]; omega⟩
  · exact ⟨_, _, rfl, by simp only [UInt8.reduceToNat]; omega⟩
  all_goals omega

/-- Four bytes for the characters up to U+10FFFF. -/
theorem following_four {value : ℕ} (hlow : 0xFFFF < value) (hhigh : value ≤ 0x10FFFF) :
    ∃ low high, following (UInt8.ofNat (value / 262144 % 0x08 + 0xF0)) =
        some [(low, high), tail, tail] ∧
      low ≤ UInt8.ofNat (value / 4096 % 0x40 + 0x80) ∧
      UInt8.ofNat (value / 4096 % 0x40 + 0x80) ≤ high := by
  have hlead := @toNat_ofNat (value / 262144 % 0x08 + 0xF0) (by omega)
  have hnext := @toNat_ofNat (value / 4096 % 0x40 + 0x80) (by omega)
  unfold following
  simp only [UInt8.le_iff_toNat_le, ← UInt8.toNat_inj, hlead, hnext, UInt8.reduceToNat]
  rw [if_neg (by omega), if_neg (by omega), if_neg (by omega), if_neg (by omega),
    if_neg (by omega)]
  split_ifs
  · exact ⟨_, _, rfl, by simp only [UInt8.reduceToNat]; omega⟩
  · exact ⟨_, _, rfl, by simp only [UInt8.reduceToNat]; omega⟩
  · exact ⟨_, _, rfl, by simp only [UInt8.reduceToNat]; omega⟩
  all_goals omega

/-- A character is kept. -/
theorem foldl_accept_encode (text : List UInt8) (c : Char) :
    (String.utf8EncodeChar c).foldl Decoder.accept ⟨text, [], []⟩ =
      ⟨text ++ String.utf8EncodeChar c, [], []⟩ := by
  have hvalid : c.val.toNat < 0xD800 ∨ 0xDFFF < c.val.toNat ∧ c.val.toNat < 0x110000 := c.valid
  unfold String.utf8EncodeChar
  dsimp only
  generalize c.val.toNat = value at hvalid ⊢
  split_ifs with hone htwo hthree
  · have hle : UInt8.ofNat value ≤ 0x7F := by
      rw [UInt8.le_iff_toNat_le, toNat_ofNat (by omega)]
      exact hone
    have hlead : following (UInt8.ofNat value) = some [] := if_pos hle
    simp only [List.foldl_cons, List.foldl_nil, accept_idle, Decoder.start, hlead]
  · have hlead := following_two (by omega) htwo
    simp only [List.foldl_cons, List.foldl_nil, accept_idle, Decoder.start, hlead,
      accept_last (tail_ofNat value), List.cons_append, List.nil_append]
  · obtain ⟨low, high, hlead, hnext⟩ := following_three (by omega) hthree (by omega)
    simp only [List.foldl_cons, List.foldl_nil, accept_idle, Decoder.start, hlead,
      accept_more hnext, accept_last (tail_ofNat value), List.cons_append, List.nil_append]
  · obtain ⟨low, high, hlead, hnext⟩ := @following_four value (by omega) (by omega)
    simp only [List.foldl_cons, List.foldl_nil, accept_idle, Decoder.start, hlead,
      accept_more hnext, accept_more (tail_ofNat _), accept_last (tail_ofNat value),
      List.cons_append, List.nil_append]

/-- A text is shown as it is. -/
theorem lossy_encode (chars : List Char) :
    lossy (chars.flatMap String.utf8EncodeChar) = chars.flatMap String.utf8EncodeChar := by
  have h (text : List UInt8) : (chars.flatMap String.utf8EncodeChar).foldl Decoder.accept
      ⟨text, [], []⟩ = ⟨text ++ chars.flatMap String.utf8EncodeChar, [], []⟩ := by
    induction chars generalizing text with
    | nil => simp
    | cons c rest ih => simp [foldl_accept_encode, ih]
  rw [lossy, h]
  rfl

end Rvx.LossyUtf8
