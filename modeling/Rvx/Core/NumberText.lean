import Rvx.Core.JsonText

/-!
# Reading numbers

The number grammar of the JSON library, and the standard library's reading of signed integers.  A
token is read as exactly the number whose token it is.
-/

namespace Rvx.Core

def digitOf (c : Char) : Option (Fin 10) :=
  if c.isDigit then some (Fin.ofNat 10 (c.toNat - 48)) else none

/-- The digits a text begins with, and what follows them. -/
def takeDigits : List Char → List (Fin 10) × List Char
  | [] => ([], [])
  | c :: rest =>
    match digitOf c with
    | none => ([], c :: rest)
    | some digit => (digit :: (takeDigits rest).1, (takeDigits rest).2)

theorem digitOf_digitChar (digit : Fin 10) : digitOf (digitChar digit) = some digit := by
  revert digit
  decide

theorem digitOf_eq_none {c : Char} : digitOf c = none ↔ c.isDigit = false := by
  unfold digitOf
  split <;> simp_all

theorem digitChar_of_digitOf {c : Char} {digit : Fin 10} (h : digitOf c = some digit) :
    digitChar digit = c := by
  unfold digitOf at h
  split at h
  · rename_i hdigit
    have hbounds : 48 ≤ c.toNat ∧ c.toNat ≤ 57 := Char.isDigit_iff_toNat.mp hdigit
    have hall : ∀ code < 58, 48 ≤ code →
        digitChar (Fin.ofNat 10 (code - 48)) = Char.ofNat code := by decide
    rw [← Option.some.inj h, hall c.toNat (by omega) hbounds.1, Char.ofNat_toNat]
  · cases h

theorem takeDigits_digits (digits : List (Fin 10)) {rest : List Char} (h : NoDigit rest) :
    takeDigits (digits.map digitChar ++ rest) = (digits, rest) := by
  induction digits with
  | nil =>
    cases rest with
    | nil => rfl
    | cons c rest =>
      have hc : digitOf c = none := digitOf_eq_none.mpr (by simpa using h)
      simp [takeDigits, hc]
  | cons digit digits ih => simp [takeDigits, digitOf_digitChar, ih]

theorem takeDigits_spec (text : List Char) :
    text = (takeDigits text).1.map digitChar ++ (takeDigits text).2 ∧
      NoDigit (takeDigits text).2 := by
  induction text with
  | nil => exact ⟨rfl, by simp [takeDigits]⟩
  | cons c rest ih =>
    cases hc : digitOf c with
    | none =>
      have hdigit := digitOf_eq_none.mp hc
      simp [takeDigits, hc, hdigit]
    | some digit =>
      simp only [takeDigits, hc, List.map_cons, List.cons_append, digitChar_of_digitOf hc]
      exact ⟨by rw [← ih.1], ih.2⟩

/-! ## Integers -/

/-- A sign that `str::parse` accepts before the digits, and the digits. -/
def splitSign : List Char → Bool × List Char
  | '-' :: rest => (true, rest)
  | '+' :: rest => (false, rest)
  | text => (false, text)

def signed (negative : Bool) (magnitude : ℕ) : ℤ := if negative then -(magnitude : ℤ) else magnitude

/-- `text.parse::<i64>()`. -/
def parseI64 (text : List Char) : Option ℤ :=
  match takeDigits (splitSign text).2 with
  | (first :: others, []) =>
    let value := signed (splitSign text).1 (digitsValue (first :: others))
    if -2 ^ 63 ≤ value ∧ value < 2 ^ 63 then some value else none
  | _ => none

theorem splitSign_digits {digits : List (Fin 10)} (h : digits ≠ []) :
    splitSign (digits.map digitChar) = (false, digits.map digitChar) := by
  obtain ⟨c, text, hstart, hc⟩ := digits_start h
  have hminus : c ≠ '-' := by
    rintro rfl
    exact absurd hc (by decide)
  have hplus : c ≠ '+' := by
    rintro rfl
    exact absurd hc (by decide)
  rw [hstart, splitSign.eq_def]
  simp [hminus, hplus]

/-- Signed digits are read as their value, when it is in range. -/
theorem parseI64_signed {text : List Char} {negative : Bool} {digits : List (Fin 10)}
    (htext : splitSign text = (negative, digits.map digitChar)) (h : digits ≠ []) :
    parseI64 text =
      if -2 ^ 63 ≤ signed negative (digitsValue digits) ∧
          signed negative (digitsValue digits) < 2 ^ 63 then
        some (signed negative (digitsValue digits))
      else none := by
  have htake := takeDigits_digits digits Printer.avoids_nil
  rw [List.append_nil] at htake
  obtain ⟨first, others, rfl⟩ := List.exists_cons_of_ne_nil h
  rw [parseI64, htext, htake]

/-! ## Natural numbers -/

theorem printNat_below {fuel n : ℕ} (hn : n ≠ 0) (h : n ≤ fuel) :
    printNat n = (Number.digitsBelow fuel n).map digitChar := by
  induction fuel generalizing n with
  | zero => omega
  | succ fuel ih =>
    rw [Number.digitsBelow, if_neg hn, List.map_append, printNat, Nat.toDigits_eq_if (by norm_num)]
    have hlast : digitChar (Fin.ofNat 10 n) = (n % 10).digitChar := rfl
    split
    · rename_i hsmall
      have hnone : Number.digitsBelow fuel (n / 10) = [] := by
        rw [Nat.div_eq_of_lt hsmall]
        cases fuel <;> simp [Number.digitsBelow]
      rw [hnone, List.map_singleton, hlast, Nat.mod_eq_of_lt hsmall]
      rfl
    · have hrest := ih (n := n / 10) (by omega) (by omega)
      rw [← hrest, List.map_singleton, hlast]
      rfl

/-- A natural number is printed as its digits. -/
theorem printNat_eq (n : ℕ) : printNat n = (Number.decimalDigits n).map digitChar := by
  unfold Number.decimalDigits
  split
  · rename_i hn
    rw [hn]
    rfl
  · rename_i hn
    exact printNat_below hn le_rfl

theorem parseI64_printNat {n : ℕ} (h : n < 2 ^ 63) : parseI64 (printNat n) = some (n : ℤ) := by
  have hne := Number.decimalDigits_ne_nil n
  rw [printNat_eq, parseI64_signed (splitSign_digits hne) hne, Number.digitsValue_decimalDigits, signed,
    if_neg Bool.false_ne_true, if_pos ⟨by omega, by exact_mod_cast h⟩]

/-! ## Tokens -/

namespace Number

/-- A fraction with its point. -/
def readFraction : List Char → Option (List (Fin 10)) × List Char
  | '.' :: rest => (some (takeDigits rest).1, (takeDigits rest).2)
  | text => (none, text)

def readSign : List Char → Option Bool × List Char
  | '-' :: rest => (some true, rest)
  | '+' :: rest => (some false, rest)
  | text => (none, text)

/-- An exponent that ends the text, or nothing. -/
def readExponent : List Char → Option (Option Exponent)
  | [] => some none
  | c :: rest =>
    if c = 'e' ∨ c = 'E' then
      if h : (takeDigits (readSign rest).2).1 ≠ [] ∧ (takeDigits (readSign rest).2).2 = [] then
        some (some ⟨c = 'E', (readSign rest).1, (takeDigits (readSign rest).2).1, h.1⟩)
      else none
    else none

/-- The number of these parts, if they are those of a token. -/
def ofParts (negative : Bool) (integer : List (Fin 10)) (fraction : Option (List (Fin 10)))
    (exponent : Option Exponent) : Option Number :=
  if h : integer ≠ [] ∧ (integer.head? = some 0 → integer = [0]) ∧ fraction ≠ some [] then
    some ⟨negative, integer, fraction, exponent, h.1, h.2.1, h.2.2⟩
  else none

/-- A token without its sign. -/
def readUnsigned (negative : Bool) (text : List Char) : Option Number :=
  let integer := takeDigits text
  let fraction := readFraction integer.2
  (readExponent fraction.2).bind (ofParts negative integer.1 fraction.1)

/-- The number a text is the token of. -/
def read : List Char → Option Number
  | '-' :: rest => readUnsigned true rest
  | text => readUnsigned false text

theorem readSign_digits {digits : List (Fin 10)} (h : digits ≠ []) :
    readSign (digits.map digitChar) = (none, digits.map digitChar) := by
  obtain ⟨c, text, hstart, hc⟩ := digits_start h
  have hminus : c ≠ '-' := by
    rintro rfl
    exact absurd hc (by decide)
  have hplus : c ≠ '+' := by
    rintro rfl
    exact absurd hc (by decide)
  rw [hstart, readSign.eq_def]
  simp [hminus, hplus]

theorem readExponent_exponentChars (number : Number) :
    readExponent number.exponentChars = some number.exponent := by
  unfold exponentChars
  cases number.exponent with
  | none => rfl
  | some exponent =>
    obtain ⟨upper, sign, digits, hdigits⟩ := exponent
    have htake := takeDigits_digits digits Printer.avoids_nil
    rw [List.append_nil] at htake
    have hsign : readSign (Exponent.signChars sign ++ digits.map digitChar) =
        (sign, digits.map digitChar) := by
      rcases sign with _ | _ | _
      · exact readSign_digits hdigits
      · rfl
      · rfl
    simp only [Exponent.chars_eq, readExponent, hsign, htake]
    cases upper <;> simp [hdigits]

theorem readFraction_fractionChars (number : Number) :
    readFraction (number.fractionChars ++ number.exponentChars) =
      (number.fraction, number.exponentChars) := by
  have havoid := number.exponentChars_avoid Printer.avoids_nil
  rw [List.append_nil] at havoid
  unfold fractionChars
  cases number.fraction with
  | none =>
    rw [List.nil_append]
    unfold readFraction
    split
    · rename_i rest hrest
      rw [hrest] at havoid
      simp at havoid
    · rfl
  | some digits =>
    have hdigits : NoDigit number.exponentChars := fun c hc hdigit ↦ havoid c hc (Or.inl hdigit)
    have htake := takeDigits_digits digits hdigits
    simp only [List.cons_append, readFraction, htake]

theorem ofParts_eq (number : Number) :
    ofParts number.negative number.integer number.fraction number.exponent = some number :=
  dif_pos ⟨number.integer_ne_nil, number.integer_canonical, number.fraction_ne_nil⟩

theorem parts_of_ofParts {negative : Bool} {integer : List (Fin 10)}
    {fraction : Option (List (Fin 10))} {exponent : Option Exponent} {number : Number}
    (h : ofParts negative integer fraction exponent = some number) :
    number.negative = negative ∧ number.integer = integer ∧ number.fraction = fraction ∧
      number.exponent = exponent := by
  simp only [ofParts, Option.dite_none_right_eq_some, Option.some.injEq] at h
  obtain ⟨-, rfl⟩ := h
  exact ⟨rfl, rfl, rfl, rfl⟩

theorem readUnsigned_parts (number : Number) :
    readUnsigned number.negative (number.integer.map digitChar ++
      (number.fractionChars ++ number.exponentChars)) = some number := by
  have havoid := number.fractionChars_avoid Printer.avoids_nil
  rw [List.append_nil] at havoid
  rw [readUnsigned, takeDigits_digits _ havoid, readFraction_fractionChars,
    readExponent_exponentChars, Option.bind_some, ofParts_eq]

/-- A token is read back. -/
theorem read_chars (number : Number) : read number.chars = some number := by
  have hparts := chars_append number []
  simp only [List.append_nil] at hparts
  rw [hparts]
  have hunsigned := readUnsigned_parts number
  cases hneg : number.negative with
  | true =>
    rw [hneg] at hunsigned
    exact hunsigned
  | false =>
    rw [hneg] at hunsigned
    obtain ⟨c, text, hstart, hc⟩ := digits_start number.integer_ne_nil
    have hminus : c ≠ '-' := by
      rintro rfl
      exact absurd hc (by decide)
    rw [if_neg Bool.false_ne_true, List.nil_append, read.eq_def]
    split
    · rename_i rest hrest
      rw [hstart, List.cons_append, List.cons.injEq] at hrest
      exact absurd hrest.1 hminus
    · exact hunsigned

theorem exponentChars_of_readExponent {text : List Char} {number : Number}
    (h : readExponent text = some number.exponent) : number.exponentChars = text := by
  unfold exponentChars
  generalize number.exponent = exponent at h ⊢
  cases text with
  | nil =>
    obtain rfl := Option.some.inj h
    rfl
  | cons c rest =>
    simp only [readExponent, Option.ite_none_right_eq_some, Option.dite_none_right_eq_some,
      Option.some.injEq] at h
    obtain ⟨hmark, ⟨hdigits, hend⟩, rfl⟩ := h
    have hspec := (takeDigits_spec (readSign rest).2).1
    rw [hend, List.append_nil] at hspec
    have hsign : Exponent.signChars (readSign rest).1 ++ (readSign rest).2 = rest := by
      unfold readSign
      split <;> rfl
    simp only [Exponent.chars_eq]
    rw [← hspec, hsign]
    rcases hmark with rfl | rfl <;> rfl

theorem readFraction_eq (text : List Char) :
    (∃ rest, text = '.' :: rest ∧
      readFraction text = (some (takeDigits rest).1, (takeDigits rest).2)) ∨
    readFraction text = (none, text) := by
  unfold readFraction
  split
  · exact Or.inl ⟨_, rfl, rfl⟩
  · exact Or.inr rfl

theorem fractionChars_of_readFraction {text : List Char} {number : Number}
    (h : number.fraction = (readFraction text).1) :
    number.fractionChars ++ (readFraction text).2 = text := by
  unfold fractionChars
  rw [h]
  rcases readFraction_eq text with ⟨rest, rfl, hread⟩ | hread
  · rw [hread]
    exact congrArg (List.cons '.') (takeDigits_spec rest).1.symm
  · rw [hread]
    rfl

/-- What is read is the number of the token. -/
theorem chars_of_read {text : List Char} {number : Number} (h : read text = some number) :
    number.chars = text := by
  have hunsigned {negative : Bool} {text : List Char}
      (h : readUnsigned negative text = some number) :
      number.chars = (if negative then ['-'] else []) ++ text := by
    obtain ⟨exponent, hexponent, hparts⟩ := Option.bind_eq_some_iff.mp h
    obtain ⟨hnegative, hinteger, hfraction, rfl⟩ := parts_of_ofParts hparts
    have hchars := chars_append number []
    simp only [List.append_nil] at hchars
    rw [hchars, exponentChars_of_readExponent hexponent,
      fractionChars_of_readFraction hfraction, hinteger, hnegative, ← (takeDigits_spec text).1]
  unfold read at h
  split at h
  · exact hunsigned h
  · exact hunsigned h

end Number

end Rvx.Core
