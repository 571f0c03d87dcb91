import Mathlib.Data.Bool.AllAny
import Mathlib.Data.List.TakeWhile
import Rvx.Core.NumberText
import Rvx.Lib.Ascii
import Rvx.Tracking.Parser

/-!
# Spelled tokens

What a token of the alert language looks like in a text, and how a text is laid out from a list of
tokens: any white space may stand between two of them, and none has to where the first one ends by
itself.
-/

namespace Rvx.Tracking

open Core Check Printer

/-- An unsigned decimal, with digits on at least one side of the point. -/
structure Numeral where
  integer : List (Fin 10)
  fraction : Option (List (Fin 10))
  exponent : Option Exponent
  digits_ne_nil : integer ++ fraction.getD [] ≠ []

namespace Numeral

def fractionChars (numeral : Numeral) : List Char :=
  numeral.fraction.elim [] fun digits ↦ '.' :: digits.map digitChar

def exponentChars (numeral : Numeral) : List Char := numeral.exponent.elim [] Exponent.chars

def chars (numeral : Numeral) : List Char :=
  numeral.integer.map digitChar ++ (numeral.fractionChars ++ numeral.exponentChars)

/-- The double next to the decimal. -/
def value (numeral : Numeral) : Float :=
  let fraction := numeral.fraction.getD []
  let exponent := numeral.exponent.elim 0 Exponent.value - fraction.length
  Float.ofScientific (digitsValue (numeral.integer ++ fraction)) (exponent < 0) exponent.natAbs

end Numeral

/-- The signs: each with its token and the characters that would make it another one. -/
def SIGNS : List (List Char × Token × List Char) :=
  [(['('], .lParen, []), ([')'], .rParen, []), (['['], .lBracket, []), ([']'], .rBracket, []),
    ([','], .comma, []), (['+'], .plus, []), (['-'], .minus, []), (['*'], .star, []),
    (['/'], .slash, []), (['%'], .percent, []), (['!', '='], .ne, []), (['!'], .not, ['=']),
    (['=', '='], .eq, []), (['<', '='], .le, []), (['<'], .lt, ['=']), (['>', '='], .ge, []),
    (['>'], .gt, ['=']), (['&', '&'], .and, []), (['&'], .and, ['&']), (['|', '|'], .or, []),
    (['|'], .or, ['|'])]

/-- The words that are operators, in lower case. -/
def KEYWORDS : List (String × Token) := [("and", .and), ("or", .or), ("not", .not)]

def QUOTES : List Char := ['"', '\'', Char.ofNat 0x60]

/-- A text, the token it spells, and the characters that may not follow without a space. -/
inductive Lexeme : List Char → Token → (Char → Prop) → Prop
  | number (numeral : Numeral) (finite : numeral.value.isFinite = true) :
    Lexeme numeral.chars (.number numeral.value)
      fun c ↦ c.isDigit = true ∨ c = '.' ∨ Lexer.isAsciiAlphabetic c = true
  | duration (numeral : Numeral) (unit : String) (multiplier : Float)
      (finite : numeral.value.isFinite = true) (known : Lexer.multiplier unit = some multiplier)
      (bound : ¬ numeral.value * multiplier > Float.ofInt (2 ^ 63 - 1)) :
    Lexeme (numeral.chars ++ unit.toList) (.duration (Double.toI64 (numeral.value * multiplier)))
      fun c ↦ Lexer.isAsciiAlphabetic c = true
  | bare (first : Char) (rest : List Char) (start : Lexer.isIdentStart first = true)
      (continues : ∀ c ∈ rest, Lexer.isIdentContinue c = true)
      (free : asciiLower (String.ofList (first :: rest)) ∉ KEYWORDS.map Prod.fst) :
    Lexeme (first :: rest) (.ident (String.ofList (first :: rest)))
      fun c ↦ Lexer.isIdentContinue c = true
  | quoted (quote : Char) (name : List Char) (known : quote ∈ QUOTES) (free : quote ∉ name) :
    Lexeme (quote :: (name ++ [quote])) (.ident (String.ofList name)) fun _ ↦ False
  | keyword (first : Char) (rest : List Char) (token : Token)
      (start : Lexer.isIdentStart first = true)
      (continues : ∀ c ∈ rest, Lexer.isIdentContinue c = true)
      (known : (asciiLower (String.ofList (first :: rest)), token) ∈ KEYWORDS) :
    Lexeme (first :: rest) token fun c ↦ Lexer.isIdentContinue c = true
  | sign (text : List Char) (token : Token) (follow : List Char)
      (known : (text, token, follow) ∈ SIGNS) :
    Lexeme text token fun c ↦ c ∈ follow

/-- A text laid out from tokens. -/
inductive Layout : List Token → List Char → Prop
  | finish {space : List Char} (blank : ∀ c ∈ space, isWhitespace c = true) : Layout [] space
  | token {token : Token} {tokens : List Token} {space text rest : List Char}
      {follow : Char → Prop} (blank : ∀ c ∈ space, isWhitespace c = true)
      (lexeme : Lexeme text token follow) (separate : Avoids follow rest)
      (layout : Layout tokens rest) : Layout (token :: tokens) (space ++ (text ++ rest))

def Token.Spelled (token : Token) : Prop := ∃ text follow, Lexeme text token follow

/-! ## Numbers -/

namespace Lexer

theorem not_alphabetic_of_digit {c : Char} (h : c.isDigit = true) : isAsciiAlphabetic c = false := by
  have hbounds : 48 ≤ c.toNat ∧ c.toNat ≤ 57 := Char.isDigit_iff_toNat.mp h
  unfold isAsciiAlphabetic
  simp only [Bool.or_eq_false_iff, Bool.and_eq_false_iff, decide_eq_false_iff_not, Char.le_def,
    UInt32.le_iff_toNat_le]
  have hlow : 'a'.val.toNat = 97 ∧ 'A'.val.toNat = 65 := by decide
  have hcode : c.val.toNat = c.toNat := rfl
  omega

theorem takeWhile_digits (digits : List (Fin 10)) {rest : List Char} (h : NoDigit rest) :
    (digits.map digitChar ++ rest).takeWhile Char.isDigit = digits.map digitChar ∧
      (digits.map digitChar ++ rest).dropWhile Char.isDigit = rest := by
  have hdigit : ∀ c ∈ digits.map digitChar, c.isDigit = true := by
    simp [isDigit_digitChar]
  have hrest : rest.takeWhile Char.isDigit = [] ∧ rest.dropWhile Char.isDigit = rest := by
    cases rest with
    | nil => exact ⟨rfl, rfl⟩
    | cons c rest =>
      have hc : ¬ c.isDigit = true := by simpa using h
      simp [hc]
  rw [List.takeWhile_append_of_pos hdigit, List.dropWhile_append_of_pos hdigit, hrest.1, hrest.2]
  simp

theorem digitsNat_digits (digits : List (Fin 10)) :
    digitsNat (digits.map digitChar) = digitsValue digits := by
  have hdigit : ∀ digit : Fin 10, (digitChar digit).toNat - 48 = digit.val := by decide
  rw [digitsNat, digitsValue, List.foldl_map]
  simp only [hdigit]

theorem parseExponent_eq (chars : List Char) :
    parseExponent chars =
      if (splitSign chars).2 ≠ [] ∧ (splitSign chars).2.all Char.isDigit then
        some (signed (splitSign chars).1 (digitsNat (splitSign chars).2))
      else none := by
  cases chars with
  | nil => rfl
  | cons c rest =>
    by_cases hminus : c = '-'
    · subst hminus
      rfl
    by_cases hplus : c = '+'
    · subst hplus
      rfl
    have hsplit : splitSign (c :: rest) = (false, c :: rest) := by
      rw [splitSign.eq_def]
      simp [hminus, hplus]
    rw [hsplit, parseExponent.eq_def]
    simp [hminus, hplus, signed]

theorem parseExponent_exponent (exponent : Exponent) :
    ∃ mark text, exponent.chars = mark :: text ∧ (mark = 'e' ∨ mark = 'E') ∧
      parseExponent text = some exponent.value := by
  obtain ⟨upper, sign, digits, hne⟩ := exponent
  refine ⟨_, _, rfl, by cases upper <;> simp, ?_⟩
  have hall : digits.map digitChar ≠ [] ∧ (digits.map digitChar).all Char.isDigit = true := by
    simp [hne, isDigit_digitChar]
  have hsigned {text : List Char} {negative : Bool}
      (hsplit : splitSign text = (negative, digits.map digitChar)) :
      parseExponent text = some (signed negative (digitsValue digits)) := by
    rw [parseExponent_eq, hsplit, if_pos hall, digitsNat_digits]
  cases sign with
  | none => exact hsigned (splitSign_digits hne)
  | some minus =>
    cases minus
    · exact @hsigned ('+' :: digits.map digitChar) _ rfl
    · exact @hsigned ('-' :: digits.map digitChar) _ rfl

/-- The exponent read from what follows the digits and the point. -/
def exponentOf (left : List Char) : Option ℤ :=
  match left with
  | [] => some 0
  | c :: rest => if c = 'e' || c = 'E' then parseExponent rest else none

theorem parseFloat_parts (integer fraction : List (Fin 10)) {point : Bool} {left : List Char}
    (hpoint : point = false → fraction = [] ∧ left.head? ≠ some '.') (hleft : NoDigit left) :
    parseFloat (integer.map digitChar ++
        ((if point then '.' :: fraction.map digitChar else []) ++ left)) =
      (exponentOf left).bind fun exponent ↦
        if integer ++ fraction = [] then none
        else
          let exponent := exponent - fraction.length
          some (Float.ofScientific (digitsValue (integer ++ fraction)) (exponent < 0)
            exponent.natAbs) := by
  have hjoin : integer.map digitChar ++ fraction.map digitChar =
      (integer ++ fraction).map digitChar := List.map_append.symm
  cases point with
  | true =>
    have hdot : NoDigit ('.' :: (fraction.map digitChar ++ left)) := by simp
    obtain ⟨htake, hdrop⟩ := takeWhile_digits integer hdot
    obtain ⟨htake', hdrop'⟩ := takeWhile_digits fraction hleft
    unfold parseFloat
    simp only [if_true, List.cons_append, htake, hdrop, htake', hdrop', hjoin, digitsNat_digits,
      List.length_map, List.map_eq_nil_iff]
    cases left with
    | nil => rfl
    | cons c rest =>
      unfold exponentOf
      dsimp only
      split_ifs <;> rfl
  | false =>
    obtain ⟨rfl, hhead⟩ := hpoint rfl
    obtain ⟨htake, hdrop⟩ := takeWhile_digits integer hleft
    unfold parseFloat
    simp only [Bool.false_eq_true, if_false, List.nil_append, List.append_nil, htake, hdrop]
    cases left with
    | nil =>
      simp only [List.append_nil, digitsNat_digits, List.map_eq_nil_iff]
      rfl
    | cons c rest =>
      have hc : c ≠ '.' := fun heq ↦ hhead (congrArg some heq)
      by_cases hmark : c = 'e' ∨ c = 'E' <;> simp [hc, hmark, digitsNat_digits, exponentOf]

theorem noDigit_exponentChars (exponent : Option Exponent) :
    NoDigit (exponent.elim [] Exponent.chars) := by
  cases exponent with
  | none => exact avoids_nil
  | some exponent =>
    obtain ⟨upper, sign, digits, hne⟩ := exponent
    cases upper <;> simp [Exponent.chars]

theorem exponentOf_exponentChars (exponent : Option Exponent) :
    exponentOf (exponent.elim [] Exponent.chars) = some (exponent.elim 0 Exponent.value) := by
  cases exponent with
  | none => rfl
  | some exponent =>
    obtain ⟨mark, text, hchars, hmark, hparse⟩ := parseExponent_exponent exponent
    simp only [Option.elim_some, hchars, exponentOf, Bool.or_eq_true, decide_eq_true_eq,
      if_pos hmark, hparse]

theorem head?_exponentChars (exponent : Option Exponent) :
    (exponent.elim [] Exponent.chars).head? ≠ some '.' := by
  cases exponent with
  | none => simp
  | some exponent =>
    obtain ⟨upper, sign, digits, hne⟩ := exponent
    cases upper <;> simp [Exponent.chars]

theorem parseFloat_numeral (numeral : Numeral) : parseFloat numeral.chars = some numeral.value := by
  obtain ⟨integer, fraction, exponent, hne⟩ := numeral
  have hparts := @parseFloat_parts integer (fraction.getD []) fraction.isSome
    (exponent.elim [] Exponent.chars) (fun hnone ↦ by
      rw [Option.isSome_eq_false_iff, Option.isNone_iff_eq_none] at hnone
      rw [hnone]
      exact ⟨rfl, head?_exponentChars exponent⟩) (noDigit_exponentChars exponent)
  rw [exponentOf_exponentChars, Option.bind_some, if_neg hne] at hparts
  have hpoint : (if fraction.isSome then '.' :: (fraction.getD []).map digitChar else []) =
      fraction.elim [] fun digits ↦ '.' :: digits.map digitChar := by
    cases fraction <;> rfl
  rw [hpoint] at hparts
  exact hparts

/-- An exponent that is read is one. -/
theorem exponent_of_exponentOf {left : List Char} {z : ℤ} (h : exponentOf left = some z) :
    ∃ exponent : Option Exponent, left = exponent.elim [] Exponent.chars := by
  unfold exponentOf at h
  cases left with
  | nil => exact ⟨none, rfl⟩
  | cons c rest =>
    dsimp only at h
    split_ifs at h with hmark
    rw [parseExponent_eq] at h
    split_ifs at h with hdigits
    obtain ⟨hrest, htail⟩ := takeDigits_spec (splitSign rest).2
    have hnone : (takeDigits (splitSign rest).2).2 = [] := by
      cases htext : (takeDigits (splitSign rest).2).2 with
      | nil => rfl
      | cons d more =>
        rw [htext] at hrest htail
        have hd : d ∈ (splitSign rest).2 := by
          rw [hrest]
          exact List.mem_append_right _ (List.mem_cons_self ..)
        exact absurd (List.all_eq_true.mp hdigits.2 d hd) (by simpa using htail)
    rw [hnone, List.append_nil] at hrest
    have hne : (takeDigits (splitSign rest).2).1 ≠ [] := by
      intro hnil
      rw [hnil] at hrest
      exact hdigits.1 hrest
    have hupper : c = if c = 'E' then 'E' else 'e' := by
      simp only [Bool.or_eq_true, decide_eq_true_eq] at hmark
      split_ifs with hE
      · exact hE
      · exact hmark.resolve_right hE
    have hsign : ∃ sign : Option Bool,
        rest = (sign.elim [] fun minus ↦ [if minus then '-' else '+']) ++ (splitSign rest).2 := by
      unfold splitSign
      split
      · exact ⟨some true, rfl⟩
      · exact ⟨some false, rfl⟩
      · exact ⟨none, rfl⟩
    obtain ⟨sign, hsign⟩ := hsign
    refine ⟨some ⟨decide (c = 'E'), sign, _, hne⟩, ?_⟩
    simp only [Option.elim_some, Exponent.chars, decide_eq_true_eq, ← hrest, ← hupper]
    rw [List.cons_append]
    congr 1
    cases sign <;> exact hsign

/-- Every text is digits, perhaps a point and more digits, and a rest. -/
theorem exists_parts (text : List Char) :
    ∃ (integer fraction : List (Fin 10)) (point : Bool) (left : List Char),
      text = integer.map digitChar ++
        ((if point then '.' :: fraction.map digitChar else []) ++ left) ∧
      (point = false → fraction = [] ∧ left.head? ≠ some '.') ∧ NoDigit left := by
  obtain ⟨htext, hrest⟩ := takeDigits_spec text
  by_cases hpoint : (takeDigits text).2.head? = some '.'
  · obtain ⟨rest, htail⟩ : ∃ rest, (takeDigits text).2 = '.' :: rest := by
      cases hcases : (takeDigits text).2 with
      | nil => simp [hcases] at hpoint
      | cons c rest =>
        obtain rfl : c = '.' := by simpa [hcases] using hpoint
        exact ⟨rest, rfl⟩
    obtain ⟨hfraction, hleft⟩ := takeDigits_spec rest
    refine ⟨(takeDigits text).1, (takeDigits rest).1, true, (takeDigits rest).2, ?_, by simp, hleft⟩
    rw [if_pos rfl, List.cons_append, ← hfraction, ← htail]
    exact htext
  · exact ⟨(takeDigits text).1, [], false, (takeDigits text).2, htext, fun _ ↦ ⟨rfl, hpoint⟩, hrest⟩

/-- What is read as a double is a numeral. -/
theorem numeral_of_parseFloat {text : List Char} {value : Float} (h : parseFloat text = some value) :
    ∃ numeral : Numeral, text = numeral.chars ∧ value = numeral.value := by
  obtain ⟨integer, fraction, point, left, htext, hpoint, hleft⟩ := exists_parts text
  have hparse := parseFloat_parts integer fraction hpoint hleft
  rw [← htext, h] at hparse
  cases hexponent : exponentOf left with
  | none =>
    rw [hexponent] at hparse
    cases hparse
  | some z =>
    obtain ⟨exponent, rfl⟩ := exponent_of_exponentOf hexponent
    rw [hexponent, Option.bind_some] at hparse
    split_ifs at hparse with hnil
    have hgetD : (if point then some fraction else none).getD [] = fraction := by
      cases point with
      | true => rfl
      | false => exact (hpoint rfl).1.symm
    let numeral : Numeral :=
      ⟨integer, if point then some fraction else none, exponent, by rwa [hgetD]⟩
    have hchars : text = numeral.chars := by
      rw [htext]
      cases point <;> rfl
    refine ⟨numeral, hchars, ?_⟩
    have hvalue := parseFloat_numeral numeral
    rw [← hchars, h] at hvalue
    exact Option.some.inj hvalue

/-! ## Splitting a number off -/

theorem numberChars_stop {exponent : Bool} {rest : List Char}
    (h : Avoids (fun c ↦ c.isDigit = true ∨ c = '.' ∨ isAsciiAlphabetic c = true) rest) :
    numberChars exponent false rest = ([], rest) := by
  cases rest with
  | nil => rfl
  | cons c rest =>
    simp only [avoids_cons, not_or, Bool.not_eq_true] at h
    have hmark : ¬ (c = 'e' ∨ c = 'E') := by
      rintro (rfl | rfl) <;> exact absurd h.2.2 (by decide)
    simp [numberChars, h.1, h.2.1, hmark]

theorem numberChars_digit {exponent signAllowed : Bool} {c : Char}
    (h : c.isDigit = true ∨ c = '.') (rest : List Char) :
    numberChars exponent signAllowed (c :: rest) =
      (c :: (numberChars exponent false rest).1, (numberChars exponent false rest).2) := by
  rcases h with h | rfl
  · simp [numberChars, h]
  · simp [numberChars]

theorem numberChars_digits {exponent : Bool} (digits : List (Fin 10)) {rest : List Char} :
    numberChars exponent false (digits.map digitChar ++ rest) =
      (digits.map digitChar ++ (numberChars exponent false rest).1,
        (numberChars exponent false rest).2) := by
  induction digits with
  | nil => rfl
  | cons digit digits ih =>
    rw [List.map_cons, List.cons_append, numberChars_digit (Or.inl (isDigit_digitChar digit)), ih]
    rfl

theorem numberChars_exponent (exponent : Exponent) {rest : List Char}
    (h : numberChars true false rest = ([], rest)) :
    numberChars false false (exponent.chars ++ rest) = (exponent.chars, rest) := by
  obtain ⟨upper, sign, digits, hne⟩ := exponent
  obtain ⟨digit, digits, rfl⟩ := List.exists_cons_of_ne_nil hne
  have hdigits {signAllowed : Bool} :
      numberChars true signAllowed ((digit :: digits).map digitChar ++ rest) =
        ((digit :: digits).map digitChar, rest) := by
    rw [List.map_cons, List.cons_append, numberChars_digit (Or.inl (isDigit_digitChar digit)),
      numberChars_digits, h, List.append_nil]
  have hmark (text : List Char) : numberChars false false ((if upper then 'E' else 'e') :: text) =
      ((if upper then 'E' else 'e') :: (numberChars true true text).1,
        (numberChars true true text).2) := by
    cases upper <;> simp [numberChars]
  have hsign {c : Char} (hc : c = '+' ∨ c = '-') (text : List Char) :
      numberChars true true (c :: text) =
        (c :: (numberChars true false text).1, (numberChars true false text).2) := by
    rcases hc with rfl | rfl <;> simp [numberChars]
  cases sign with
  | none =>
    change numberChars false false (_ :: ((digit :: digits).map digitChar ++ rest)) = _
    rw [hmark, hdigits]
    rfl
  | some minus =>
    change numberChars false false
      (_ :: (if minus then '-' else '+') :: ((digit :: digits).map digitChar ++ rest)) = _
    rw [hmark, hsign (by cases minus <;> simp), hdigits]
    rfl

theorem numberChars_numeral (numeral : Numeral) {rest : List Char}
    (h : ∀ exponent, numberChars exponent false rest = ([], rest)) :
    numberChars false false (numeral.chars ++ rest) = (numeral.chars, rest) := by
  have htail : numberChars false false (numeral.exponentChars ++ rest) =
      (numeral.exponentChars, rest) := by
    unfold Numeral.exponentChars
    cases numeral.exponent with
    | none => exact h false
    | some exponent => exact numberChars_exponent exponent (h true)
  have hfraction : numberChars false false
      (numeral.fractionChars ++ (numeral.exponentChars ++ rest)) =
        (numeral.fractionChars ++ numeral.exponentChars, rest) := by
    unfold Numeral.fractionChars
    cases numeral.fraction with
    | none => exact htail
    | some digits =>
      rw [Option.elim_some, List.cons_append, numberChars_digit (Or.inr rfl), numberChars_digits,
        htail]
      rfl
  rw [Numeral.chars, List.append_assoc, List.append_assoc, numberChars_digits, hfraction]

theorem number_number {numeral : Numeral} (finite : numeral.value.isFinite = true)
    {rest : List Char}
    (h : Avoids (fun c ↦ c.isDigit = true ∨ c = '.' ∨ isAsciiAlphabetic c = true) rest) :
    number (numeral.chars ++ rest) = .ok (.number numeral.value, rest) := by
  have hunit : rest.takeWhile isAsciiAlphabetic = [] ∧ rest.dropWhile isAsciiAlphabetic = rest := by
    cases rest with
    | nil => exact ⟨rfl, rfl⟩
    | cons c rest =>
      simp only [avoids_cons, not_or] at h
      simp [h.2.2]
  unfold number
  simp only [numberChars_numeral numeral fun _ ↦ numberChars_stop h, parseFloat_numeral, finite,
    reject, hunit]
  rfl

/-- A unit is a word that cannot continue a number. -/
theorem unit_of_multiplier {unit : String} {factor : Float} (h : multiplier unit = some factor) :
    ∃ first rest, unit.toList = first :: rest ∧ first.isDigit = false ∧ first ≠ '.' ∧
      first ≠ 'e' ∧ first ≠ 'E' ∧ ∀ c ∈ first :: rest, isAsciiAlphabetic c = true := by
  unfold multiplier at h
  split at h
  all_goals first
    | exact ⟨_, _, rfl, by decide, by decide, by decide, by decide,
        List.all_iff_forall_prop.mp (by decide)⟩
    | cases h

theorem number_duration {numeral : Numeral} {unit : String} {factor : Float}
    (finite : numeral.value.isFinite = true) (known : multiplier unit = some factor)
    (bound : ¬ numeral.value * factor > Float.ofInt (2 ^ 63 - 1)) {rest : List Char}
    (h : Avoids (fun c ↦ isAsciiAlphabetic c = true) rest) :
    number (numeral.chars ++ (unit.toList ++ rest)) =
      .ok (.duration (Double.toI64 (numeral.value * factor)), rest) := by
  obtain ⟨first, tail, hunit, hdigit, hpoint, hlower, hupper, halpha⟩ := unit_of_multiplier known
  have hstop (exponent : Bool) :
      numberChars exponent false (unit.toList ++ rest) = ([], unit.toList ++ rest) := by
    rw [hunit]
    simp [numberChars, hdigit, hpoint, hlower, hupper]
  have hrest : rest.takeWhile isAsciiAlphabetic = [] ∧ rest.dropWhile isAsciiAlphabetic = rest := by
    cases rest with
    | nil => exact ⟨rfl, rfl⟩
    | cons c rest => simp_all
  have htake : (unit.toList ++ rest).takeWhile isAsciiAlphabetic = unit.toList ∧
      (unit.toList ++ rest).dropWhile isAsciiAlphabetic = rest := by
    rw [hunit, List.takeWhile_append_of_pos halpha, List.dropWhile_append_of_pos halpha, hrest.1,
      hrest.2, List.append_nil]
    exact ⟨rfl, rfl⟩
  have hne : unit.toList ≠ [] := by simp [hunit]
  unfold number
  simp only [numberChars_numeral numeral hstop, parseFloat_numeral, finite, reject, htake, hne,
    String.ofList_toList, known, bound]
  rfl

end Lexer

/-! ## The next token -/

namespace Lexer

theorem isIdentContinue_of_start {c : Char} (h : isIdentStart c = true) :
    isIdentContinue c = true := by
  unfold isIdentStart at h
  unfold isIdentContinue
  simp only [Bool.or_eq_true, decide_eq_true_eq] at h ⊢
  rcases h with h | rfl
  · exact Or.inl (Or.inl h)
  · exact Or.inr (by decide)

theorem identifier_parts {word rest : List Char} (hword : ∀ c ∈ word, isIdentContinue c = true)
    (h : Avoids (fun c ↦ isIdentContinue c = true) rest) :
    (word ++ rest).takeWhile isIdentContinue = word ∧
      (word ++ rest).dropWhile isIdentContinue = rest := by
  have hrest : rest.takeWhile isIdentContinue = [] ∧ rest.dropWhile isIdentContinue = rest := by
    cases rest with
    | nil => exact ⟨rfl, rfl⟩
    | cons c rest => simp_all
  rw [List.takeWhile_append_of_pos hword, List.dropWhile_append_of_pos hword, hrest.1, hrest.2,
    List.append_nil]
  exact ⟨rfl, rfl⟩

theorem identifier_bare {word rest : List Char} (hword : ∀ c ∈ word, isIdentContinue c = true)
    (h : Avoids (fun c ↦ isIdentContinue c = true) rest)
    (hfree : asciiLower (String.ofList word) ∉ KEYWORDS.map Prod.fst) :
    identifier (word ++ rest) = (.ident (String.ofList word), rest) := by
  obtain ⟨htake, hdrop⟩ := identifier_parts hword h
  unfold identifier
  rw [htake, hdrop]
  dsimp only
  split
  all_goals first | rfl | (rename_i hlower; exact absurd (hlower ▸ hfree) (by decide))

theorem identifier_keyword {word rest : List Char} {token : Token}
    (hword : ∀ c ∈ word, isIdentContinue c = true)
    (h : Avoids (fun c ↦ isIdentContinue c = true) rest)
    (hknown : (asciiLower (String.ofList word), token) ∈ KEYWORDS) :
    identifier (word ++ rest) = (token, rest) := by
  obtain ⟨htake, hdrop⟩ := identifier_parts hword h
  unfold identifier
  rw [htake, hdrop]
  simp only [KEYWORDS, List.mem_cons, Prod.mk.injEq, List.not_mem_nil, or_false] at hknown
  dsimp only
  rcases hknown with ⟨hlower, rfl⟩ | ⟨hlower, rfl⟩ | ⟨hlower, rfl⟩ <;> simp only [hlower]

theorem quoted_name {quote : Char} {name rest : List Char} (h : quote ∉ name) :
    quoted quote (name ++ quote :: rest) = .ok (.ident (String.ofList name), rest) := by
  have hname : ∀ c ∈ name, decide (c ≠ quote) = true := by
    intro c hc
    rw [decide_eq_true_eq]
    rintro rfl
    exact h hc
  unfold quoted
  rw [List.dropWhile_append_of_pos hname, List.takeWhile_append_of_pos hname]
  simp

/-- A sign is read when no character follows that would make it another one. -/
theorem punctuation_sign {text rest follow : List Char} {token : Token}
    (known : (text, token, follow) ∈ SIGNS) (h : Avoids (fun c ↦ c ∈ follow) rest) :
    punctuation (text ++ rest) = some (token, rest) := by
  have hfollow {c : Char} {more : List Char} (heq : rest = c :: more) : c ∉ follow := by
    rw [heq] at h
    exact avoids_cons.mp h
  simp only [SIGNS, List.mem_cons, Prod.mk.injEq, List.not_mem_nil, or_false] at known
  rcases known with h | h | h | h | h | h | h | h | h | h | h | h | h | h | h | h | h | h | h | h |
    h <;> obtain ⟨rfl, rfl, rfl⟩ := h <;> first
      | rfl
      | (cases rest with
          | nil => rfl
          | cons c more =>
            have hc := hfollow rfl
            rw [List.mem_singleton] at hc
            simp [punctuation, hc])

theorem nextToken_space {space text : List Char} (blank : ∀ c ∈ space, isWhitespace c = true) :
    nextToken (space ++ text) = nextToken text := by
  unfold nextToken
  rw [List.dropWhile_append_of_pos blank]

theorem nextToken_cons {c : Char} (hblank : isWhitespace c = false) (rest : List Char) :
    nextToken (c :: rest) =
      if c.isDigit || (c = '.' && rest.head?.any Char.isDigit) then number (c :: rest)
      else if c = '"' || c = '\'' || c = Char.ofNat 0x60 then quoted c rest
      else if isIdentStart c then .ok (identifier (c :: rest))
      else (punctuation (c :: rest)).elim (.error (.unexpectedCharacter c)) .ok := by
  unfold nextToken
  rw [List.dropWhile_cons_of_neg (by simp [hblank])]
  dsimp only
  cases punctuation (c :: rest) <;> rfl

/-- How a numeral starts. -/
theorem numeral_start (numeral : Numeral) (rest : List Char) :
    ∃ c more, numeral.chars ++ rest = c :: more ∧ isWhitespace c = false ∧
      (c.isDigit || (c = '.' && more.head?.any Char.isDigit)) = true := by
  obtain ⟨integer, fraction, exponent, hne⟩ := numeral
  have hblank : ∀ digit, isWhitespace (digitChar digit) = false := by decide
  cases integer with
  | cons digit integer => exact ⟨_, _, rfl, hblank digit, by simp [isDigit_digitChar]⟩
  | nil =>
    cases fraction with
    | none => exact absurd rfl hne
    | some digits =>
      obtain ⟨digit, digits, rfl⟩ := List.exists_cons_of_ne_nil hne
      exact ⟨_, _, rfl, by decide, by simp [isDigit_digitChar]⟩

/-- The first letter of a word starts no number, no quoted name and no white space. -/
theorem identStart_class {c : Char} (h : isIdentStart c = true) :
    isWhitespace c = false ∧ c.isDigit = false ∧ c ≠ '.' ∧ c ∉ QUOTES := by
  have hcode : c = '_' ∨ (97 ≤ c.toNat ∧ c.toNat ≤ 122) ∨ (65 ≤ c.toNat ∧ c.toNat ≤ 90) := by
    unfold isIdentStart isAsciiAlphabetic at h
    simp only [Bool.or_eq_true, Bool.and_eq_true, decide_eq_true_eq, Char.le_def,
      UInt32.le_iff_toNat_le] at h
    have hletters : 'a'.val.toNat = 97 ∧ 'z'.val.toNat = 122 ∧ 'A'.val.toNat = 65 ∧
        'Z'.val.toNat = 90 := by decide
    have hval : c.val.toNat = c.toNat := rfl
    rcases h with h | h
    · right
      omega
    · exact Or.inl h
  rcases hcode with rfl | hcode
  · decide
  · refine ⟨?_, ?_, ?_, ?_⟩
    · unfold isWhitespace
      simp only [Bool.or_eq_false_iff, Bool.and_eq_false_iff, decide_eq_false_iff_not]
      omega
    · rw [Bool.eq_false_iff]
      intro hdigit
      have hbounds : 48 ≤ c.toNat ∧ c.toNat ≤ 57 := Char.isDigit_iff_toNat.mp hdigit
      omega
    · rintro rfl
      revert hcode
      decide
    · intro hquote
      simp only [QUOTES, List.mem_cons, List.not_mem_nil, or_false] at hquote
      rcases hquote with rfl | rfl | rfl <;> revert hcode <;> decide

theorem nextToken_word {first : Char} {rest : List Char} (start : isIdentStart first = true) :
    nextToken (first :: rest) = .ok (identifier (first :: rest)) := by
  obtain ⟨hblank, hdigit, hpoint, hquote⟩ := identStart_class start
  simp only [QUOTES, List.mem_cons, List.not_mem_nil, or_false, not_or] at hquote
  rw [nextToken_cons hblank]
  simp [hdigit, hpoint, hquote, start]

/-- The next token of a text that starts with a lexeme. -/
theorem nextToken_lexeme {text rest : List Char} {token : Token} {follow : Char → Prop}
    (h : Lexeme text token follow) (separate : Avoids follow rest) :
    nextToken (text ++ rest) = .ok (token, rest) := by
  cases h with
  | number numeral finite =>
    obtain ⟨c, more, hstart, hblank, hnumber⟩ := numeral_start numeral rest
    rw [hstart, nextToken_cons hblank, if_pos hnumber, ← hstart, number_number finite separate]
  | duration numeral unit factor finite known bound =>
    obtain ⟨c, more, hstart, hblank, hnumber⟩ := numeral_start numeral (unit.toList ++ rest)
    rw [List.append_assoc, hstart, nextToken_cons hblank, if_pos hnumber, ← hstart,
      number_duration finite known bound separate]
  | bare first name start continues free =>
    have hword : ∀ c ∈ first :: name, isIdentContinue c = true :=
      List.forall_mem_cons.mpr ⟨isIdentContinue_of_start start, continues⟩
    rw [List.cons_append, nextToken_word start, ← List.cons_append,
      identifier_bare hword separate free]
  | keyword first name _ start continues known =>
    have hword : ∀ c ∈ first :: name, isIdentContinue c = true :=
      List.forall_mem_cons.mpr ⟨isIdentContinue_of_start start, continues⟩
    rw [List.cons_append, nextToken_word start, ← List.cons_append,
      identifier_keyword hword separate known]
  | quoted quote name known free =>
    have hclass : ∀ c ∈ QUOTES, isWhitespace c = false ∧ c.isDigit = false ∧ c ≠ '.' :=
      List.all_iff_forall_prop.mp (by decide)
    obtain ⟨hblank, hdigit, hpoint⟩ := hclass quote known
    simp only [QUOTES, List.mem_cons, List.not_mem_nil, or_false] at known
    rw [List.cons_append, nextToken_cons hblank, if_neg (by simp [hdigit, hpoint]),
      if_pos (by simpa [or_assoc] using known), List.append_assoc, List.singleton_append,
      quoted_name free]
  | sign _ _ signs known =>
    have hclass : ∀ sign ∈ SIGNS, ∃ c more, sign.1 = c :: more ∧ isWhitespace c = false ∧
        c.isDigit = false ∧ c ≠ '.' ∧ c ∉ QUOTES ∧ isIdentStart c = false := by
      simp only [SIGNS, List.forall_mem_cons]
      refine ⟨?_, ?_, ?_, ?_, ?_, ?_, ?_, ?_, ?_, ?_, ?_, ?_, ?_, ?_, ?_, ?_, ?_, ?_, ?_, ?_, ?_,
        by simp⟩ <;> exact ⟨_, _, rfl, by decide⟩
    obtain ⟨c, more, rfl, hblank, hdigit, hpoint, hquote, hstart⟩ := hclass _ known
    simp only [QUOTES, List.mem_cons, List.not_mem_nil, or_false, not_or] at hquote
    have hsign := punctuation_sign known separate
    rw [List.cons_append] at hsign ⊢
    rw [nextToken_cons hblank]
    simp [hdigit, hpoint, hquote, hstart, hsign]

theorem nextToken_blank {space : List Char} (blank : ∀ c ∈ space, isWhitespace c = true) :
    nextToken space = .ok (.finish, []) := by
  have hspace := @nextToken_space space [] blank
  rw [List.append_nil] at hspace
  rw [hspace]
  rfl

/-! ## What the lexer returns is spelled -/

theorem spelled_of_number {input rest : List Char} {token : Token}
    (h : number input = .ok (token, rest)) : token.Spelled := by
  unfold number at h
  cases hparse : parseFloat (numberChars false false input).1 with
  | none =>
    simp only [hparse] at h
    cases h
  | some value =>
    obtain ⟨numeral, -, rfl⟩ := numeral_of_parseFloat hparse
    simp only [hparse, bind_eq_ok, exists_unit, reject_ok, Bool.not_eq_false] at h
    obtain ⟨finite, h⟩ := h
    split_ifs at h with hunit
    · cases h
      exact ⟨_, _, .number numeral finite⟩
    · split at h
      · cases h
      · rename_i factor known
        simp only [bind_eq_ok, exists_unit, reject_ok] at h
        obtain ⟨bound, h⟩ := h
        cases h
        exact ⟨_, _, .duration numeral _ factor finite known bound⟩

theorem avoids_dropWhile (member : Char → Bool) (text : List Char) :
    Avoids (fun c ↦ member c = true) (text.dropWhile member) := by
  intro c hc
  have hhead := List.head?_dropWhile_not member text
  rw [Option.mem_def.mp hc] at hhead
  simpa using hhead

theorem spelled_of_identifier {first : Char} {rest : List Char}
    (start : isIdentStart first = true) : (identifier (first :: rest)).1.Spelled := by
  have hcontinues : ∀ c ∈ rest.takeWhile isIdentContinue, isIdentContinue c = true :=
    fun c hc ↦ List.mem_takeWhile_imp hc
  have hword : ∀ c ∈ first :: rest.takeWhile isIdentContinue, isIdentContinue c = true :=
    List.forall_mem_cons.mpr ⟨isIdentContinue_of_start start, hcontinues⟩
  have hleft := avoids_dropWhile isIdentContinue rest
  have htext : first :: rest =
      (first :: rest.takeWhile isIdentContinue) ++ rest.dropWhile isIdentContinue := by
    rw [List.cons_append, List.takeWhile_append_dropWhile]
  rw [htext]
  by_cases hfree : asciiLower (String.ofList (first :: rest.takeWhile isIdentContinue)) ∈
      KEYWORDS.map Prod.fst
  · obtain ⟨⟨name, token⟩, hmem, hname⟩ := List.mem_map.mp hfree
    dsimp only at hname
    rw [hname] at hmem
    rw [identifier_keyword hword hleft hmem]
    exact ⟨_, _, .keyword first _ token start hcontinues hmem⟩
  · rw [identifier_bare hword hleft hfree]
    exact ⟨_, _, .bare first _ start hcontinues hfree⟩

theorem spelled_of_quoted {quote : Char} {input rest : List Char} {token : Token}
    (known : quote ∈ QUOTES) (h : quoted quote input = .ok (token, rest)) : token.Spelled := by
  unfold quoted at h
  split at h
  · cases h
  · cases h
    refine ⟨_, _, .quoted quote _ known fun hmem ↦ ?_⟩
    simpa using List.mem_takeWhile_imp hmem

theorem spelled_of_punctuation {input rest : List Char} {token : Token}
    (h : punctuation input = some (token, rest)) : token.Spelled := by
  have hsigns : ∀ token ∈ SIGNS.map fun sign ↦ sign.2.1, Token.Spelled token := by
    intro token htoken
    obtain ⟨⟨text, _, follow⟩, hmem, rfl⟩ := List.mem_map.mp htoken
    exact ⟨text, _, .sign text _ follow hmem⟩
  apply hsigns
  unfold punctuation at h
  split at h <;> first | (cases h; decide) | cases h

/-- Every token before the end of the input is spelled somehow. -/
theorem nextToken_spelled {input rest : List Char} {token : Token}
    (h : nextToken input = .ok (token, rest)) : token = .finish ∨ token.Spelled := by
  unfold nextToken at h
  split at h
  · cases h
    exact Or.inl rfl
  · rename_i c left _
    right
    split_ifs at h with hnumber hquote hword
    · exact spelled_of_number h
    · refine spelled_of_quoted ?_ h
      simpa [QUOTES, or_assoc] using hquote
    · have hidentifier := Except.ok.inj h
      have hspelled := @spelled_of_identifier c left hword
      rwa [hidentifier] at hspelled
    · split at h
      · rename_i hsign
        rw [Except.ok.inj h] at hsign
        exact spelled_of_punctuation hsign
      · cases h

theorem tokens_spelled {fuel count : ℕ} {input : List Char} {tokens : List Token}
    (h : tokensFrom fuel count input = .ok tokens) :
    ∃ front, tokens = front ++ [.finish] ∧ ∀ token ∈ front, token ≠ .finish ∧ token.Spelled := by
  induction fuel generalizing count input tokens with
  | zero => cases h
  | succ fuel ih =>
    simp only [tokensFrom, bind_eq_ok] at h
    obtain ⟨⟨token, rest⟩, hnext, -, -, h⟩ := h
    split_ifs at h with hfinish
    · refine ⟨[], ?_, by simp⟩
      rw [← pure_eq_ok.mp h, hfinish]
      rfl
    · obtain ⟨left, htokens, h⟩ := bind_eq_ok.mp h
      obtain ⟨front, rfl, hfront⟩ := ih htokens
      refine ⟨token :: front, (pure_eq_ok.mp h).symm, List.forall_mem_cons.mpr ⟨?_, hfront⟩⟩
      exact ⟨hfinish, (nextToken_spelled hnext).resolve_left hfinish⟩

end Lexer

/-! ## Lower case -/

theorem asciiLower_asciiLower (name : String) : asciiLower (asciiLower name) = asciiLower name := by
  have hcomp : Char.toLower ∘ Char.toLower = Char.toLower := funext Ascii.toLower_toLower
  simp [asciiLower, hcomp]

/-- A name that can be written can be quoted. -/
theorem exists_quote {name : String} (h : (Token.ident name).Spelled) :
    ∃ quote ∈ QUOTES, quote ∉ name.toList := by
  obtain ⟨text, follow, h⟩ := h
  cases h with
  | bare first rest start continues free =>
    have hquote : Lexer.isIdentContinue '"' = false := by decide
    refine ⟨'"', by decide, fun hmem ↦ ?_⟩
    rw [String.toList_ofList] at hmem
    rcases List.mem_cons.mp hmem with rfl | hmem
    · exact absurd (Lexer.isIdentContinue_of_start start) (by simp [hquote])
    · exact absurd (continues _ hmem) (by simp [hquote])
  | quoted quote name known free => exact ⟨quote, known, by rwa [String.toList_ofList]⟩
  | keyword _ _ _ _ _ known => simp [KEYWORDS] at known
  | sign _ _ _ known => simp [SIGNS] at known

theorem Token.Spelled.lower {name : String} (h : (Token.ident name).Spelled) :
    (Token.ident (asciiLower name)).Spelled := by
  obtain ⟨quote, hquote, hfree⟩ := exists_quote h
  refine ⟨_, _, .quoted quote (name.toList.map Char.toLower) hquote fun hmem ↦ ?_⟩
  obtain ⟨c, hc, heq⟩ := List.mem_map.mp hmem
  have hcodes : ∀ quote ∈ QUOTES, quote.toNat = 34 ∨ quote.toNat = 39 ∨ quote.toNat = 96 :=
    List.all_iff_forall_prop.mp (by decide)
  have hcode := Ascii.toNat_toLower c
  rw [heq] at hcode
  have hsame : c = quote := by
    apply Char.ext
    apply UInt32.toNat.inj
    change c.toNat = quote.toNat
    have hquotes := hcodes quote hquote
    split_ifs at hcode <;> omega
  exact hfree (hsame ▸ hc)

/-! ## Layouts -/

theorem Lexeme.ne_finish {text : List Char} {token : Token} {follow : Char → Prop}
    (h : Lexeme text token follow) : token ≠ .finish := by
  cases h with
  | keyword _ _ _ _ _ known =>
    rintro rfl
    simp [KEYWORDS] at known
  | sign _ _ _ known =>
    rintro rfl
    simp [SIGNS] at known
  | _ => exact Token.noConfusion

namespace Layout

theorem nextToken {token : Token} {tokens : List Token} {text : List Char}
    (h : Layout (token :: tokens) text) :
    token ≠ .finish ∧ ∃ rest, Lexer.nextToken text = .ok (token, rest) ∧ Layout tokens rest := by
  cases h with
  | token blank lexeme separate layout =>
    exact ⟨lexeme.ne_finish, _, by
      rw [Lexer.nextToken_space blank, Lexer.nextToken_lexeme lexeme separate], layout⟩

theorem tokensFrom {tokens : List Token} {text : List Char} (h : Layout tokens text)
    {fuel count : ℕ} (hfuel : tokens.length < fuel) (hcount : count + tokens.length < 256) :
    Lexer.tokensFrom fuel count text = .ok (tokens ++ [.finish]) := by
  obtain ⟨fuel, rfl⟩ : ∃ fewer, fuel = fewer + 1 := ⟨fuel - 1, by omega⟩
  induction tokens generalizing fuel count text with
  | nil =>
    cases h with
    | finish blank =>
      have hsmall : ¬ count + 1 > 256 := by
        rw [List.length_nil] at hcount
        omega
      simp [Lexer.tokensFrom, Lexer.nextToken_blank blank, reject, hsmall, bind, Except.bind, pure,
        Except.pure]
  | cons token tokens ih =>
    obtain ⟨hfinish, rest, hnext, hrest⟩ := h.nextToken
    rw [List.length_cons] at hfuel hcount
    obtain ⟨fuel, rfl⟩ : ∃ fewer, fuel = fewer + 1 := ⟨fuel - 1, by omega⟩
    have hsmall : ¬ count + 1 > 256 := by omega
    have htail : Lexer.tokensFrom (fuel + 1) (count + 1) rest = .ok (tokens ++ [.finish]) :=
      ih hrest (by omega) fuel (by omega)
    rw [Lexer.tokensFrom, hnext]
    simp [reject, hsmall, hfinish, htail, bind, Except.bind, pure, Except.pure]

/-- The end of the input is a token, too. -/
theorem tokensFrom_error {tokens : List Token} {text : List Char} (h : Layout tokens text)
    {fuel count : ℕ} (hcount : 256 ≤ count + tokens.length) :
    ∃ error, Lexer.tokensFrom fuel count text = .error error := by
  induction fuel generalizing tokens count text with
  | zero => exact ⟨_, rfl⟩
  | succ fuel ih =>
    cases tokens with
    | nil =>
      cases h with
      | finish blank =>
        rw [List.length_nil] at hcount
        refine ⟨.invalidInput "alert expression exceeds 256 tokens", ?_⟩
        rw [Lexer.tokensFrom, Lexer.nextToken_blank blank]
        simp only [reject]
        rw [if_pos (by omega)]
        rfl
    | cons token tokens =>
      obtain ⟨hfinish, rest, hnext, hrest⟩ := h.nextToken
      rw [List.length_cons] at hcount
      obtain ⟨error, herror⟩ : ∃ error, Lexer.tokensFrom fuel (count + 1) rest = .error error :=
        ih hrest (by omega)
      rw [Lexer.tokensFrom, hnext]
      by_cases hbig : count + 1 > 256
      · exact ⟨_, by simp only [reject, if_pos hbig]; rfl⟩
      · refine ⟨error, ?_⟩
        simp [reject, hbig, hfinish, herror, bind, Except.bind]

/-- A text is laid out from one list of tokens. -/
theorem unique {tokens tokens' : List Token} {text : List Char} (h : Layout tokens text)
    (h' : Layout tokens' text) : tokens = tokens' := by
  induction tokens generalizing tokens' text with
  | nil =>
    cases h with
    | finish blank =>
      cases tokens' with
      | nil => rfl
      | cons token' tokens' =>
        obtain ⟨hfinish, rest, hnext, -⟩ := h'.nextToken
        rw [Lexer.nextToken_blank blank] at hnext
        exact absurd (congrArg Prod.fst (Except.ok.inj hnext)).symm hfinish
  | cons token tokens ih =>
    obtain ⟨hfinish, rest, hnext, hrest⟩ := h.nextToken
    cases tokens' with
    | nil =>
      cases h' with
      | finish blank =>
        rw [Lexer.nextToken_blank blank] at hnext
        exact absurd (congrArg Prod.fst (Except.ok.inj hnext)).symm hfinish
    | cons token' tokens' =>
      obtain ⟨-, rest', hnext', hrest'⟩ := h'.nextToken
      rw [hnext] at hnext'
      obtain ⟨rfl, rfl⟩ := Prod.mk.inj (Except.ok.inj hnext')
      rw [ih hrest hrest']

end Layout

/-- A space may follow every lexeme. -/
theorem Lexeme.not_follow_space {text : List Char} {token : Token} {follow : Char → Prop}
    (h : Lexeme text token follow) : ¬ follow ' ' := by
  cases h with
  | sign _ _ follow known =>
    have hsigns : ∀ sign ∈ SIGNS, ' ' ∉ sign.2.2 := by
      simp [SIGNS]
    exact hsigns _ known
  | _ => decide

/-- Spelled tokens can be laid out. -/
theorem exists_layout {tokens : List Token} (h : ∀ token ∈ tokens, token.Spelled) :
    ∃ text, Layout tokens text := by
  suffices hspace : ∃ text, Layout tokens (' ' :: text) from hspace.imp' _ fun _ ↦ id
  induction tokens with
  | nil => exact ⟨[], .finish (by simp [isWhitespace])⟩
  | cons token tokens ih =>
    obtain ⟨⟨text, follow, hlexeme⟩, htokens⟩ := List.forall_mem_cons.mp h
    obtain ⟨rest, hrest⟩ := ih htokens
    have hspace : ∀ c ∈ [' '], isWhitespace c = true := List.forall_mem_singleton.mpr rfl
    exact ⟨text ++ ' ' :: rest,
      .token hspace hlexeme (avoids_cons.mpr hlexeme.not_follow_space) hrest⟩

end Rvx.Tracking
