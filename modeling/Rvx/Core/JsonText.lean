import Rvx.Core.Value
import Rvx.Lib.Printer

/-!
# Compact JSON text

The text `serde_json::to_string` writes, as a list of characters; its UTF-8 length is what
`to_vec(..).len()` measures.  Every printer here is unambiguous, so stored text determines the
value it was written from.
-/

namespace Rvx.Core

open Printer (UnambiguousAt Avoids commaSeparated)

/-! ## Printers -/

/-- The characters one character of a string is written as. -/
def escapeChar (c : Char) : List Char :=
  if c.toNat = 0x22 then ['\\', c]
  else if c.toNat = 0x5c then ['\\', c]
  else if c.toNat = 0x08 then ['\\', 'b']
  else if c.toNat = 0x0c then ['\\', 'f']
  else if c.toNat = 0x0a then ['\\', 'n']
  else if c.toNat = 0x0d then ['\\', 'r']
  else if c.toNat = 0x09 then ['\\', 't']
  else if c.toNat < 0x20 then
    ['\\', 'u', '0', '0', Nat.digitChar (c.toNat / 16), Nat.digitChar (c.toNat % 16)]
  else [c]

/-- The quotation mark. -/
def quoteChar : Char := Char.ofNat 0x22

def quote (text : String) : List Char :=
  quoteChar :: (text.toList.flatMap escapeChar ++ [quoteChar])

def printNat (n : ℕ) : List Char := Nat.toDigits 10 n

def printInt : ℤ → List Char
  | .ofNat n => printNat n
  | .negSucc n => '-' :: printNat (n + 1)

/-- One `"key":value` member of an object. -/
def member (key : String) (value : List Char) : List Char := quote key ++ ':' :: value

def printObject (members : List (List Char)) : List Char :=
  '{' :: (commaSeparated members ++ ['}'])

def printArray (items : List (List Char)) : List Char :=
  '[' :: (commaSeparated items ++ [']'])

namespace Value

mutual

def print : Value → List Char
  | .null => ['n', 'u', 'l', 'l']
  | .bool true => ['t', 'r', 'u', 'e']
  | .bool false => ['f', 'a', 'l', 's', 'e']
  | .number token => token.chars
  | .string text => quote text
  | .array items => printArray (printItems items)
  | .object entries => printObject (printEntries entries)

def printItems : List Value → List (List Char)
  | [] => []
  | item :: rest => print item :: printItems rest

def printEntries : List (String × Value) → List (List Char)
  | [] => []
  | (key, value) :: rest => member key (print value) :: printEntries rest

end

theorem printItems_eq (items : List Value) : printItems items = items.map print := by
  induction items with
  | nil => rfl
  | cons item rest ih => simp [printItems, ih]

/-- The text of one object entry. -/
def printEntry (entry : String × Value) : List Char := member entry.1 (print entry.2)

theorem printEntries_eq (entries : List (String × Value)) :
    printEntries entries = entries.map printEntry := by
  induction entries with
  | nil => rfl
  | cons entry rest ih => simp [printEntries, printEntry, ih]

end Value

/-! ## Strings -/

/-- The character an escape sequence or a plain character stands for. -/
def readEscaped : List Char → Option (Char × List Char)
  | '\\' :: 'u' :: '0' :: '0' :: high :: low :: rest =>
    some (Char.ofNat (16 * (high.toNat - 48) +
      if low.toNat < 58 then low.toNat - 48 else low.toNat - 87), rest)
  | '\\' :: 'b' :: rest => some (Char.ofNat 0x08, rest)
  | '\\' :: 'f' :: rest => some (Char.ofNat 0x0c, rest)
  | '\\' :: 'n' :: rest => some (Char.ofNat 0x0a, rest)
  | '\\' :: 'r' :: rest => some (Char.ofNat 0x0d, rest)
  | '\\' :: 't' :: rest => some (Char.ofNat 0x09, rest)
  | '\\' :: c :: rest => some (c, rest)
  | c :: rest => some (c, rest)
  | [] => none

theorem readEscaped_escapeChar (c : Char) (rest : List Char) :
    readEscaped (escapeChar c ++ rest) = some (c, rest) := by
  have hchar (code : ℕ) (h : c.toNat = code) : c = Char.ofNat code := by
    rw [← h, Char.ofNat_toNat]
  unfold escapeChar
  split_ifs with h1 h2 h3 h4 h5 h6 h7 h8
  · rw [hchar _ h1]
    rfl
  · rw [hchar _ h2]
    rfl
  · rw [hchar _ h3]
    rfl
  · rw [hchar _ h4]
    rfl
  · rw [hchar _ h5]
    rfl
  · rw [hchar _ h6]
    rfl
  · rw [hchar _ h7]
    rfl
  · have hall : ∀ code < 0x20, readEscaped (['\\', 'u', '0', '0', Nat.digitChar (code / 16),
        Nat.digitChar (code % 16)]) = some (Char.ofNat code, []) := by decide
    have hcode := hall c.toNat h8
    simp only [readEscaped, Option.some.injEq, Prod.mk.injEq, and_true] at hcode
    simp only [List.cons_append, List.nil_append, readEscaped, hcode, Char.ofNat_toNat]
  · have hne : c ≠ '\\' := fun heq ↦ h2 (by rw [heq]; rfl)
    simp [readEscaped, hne]

theorem unambiguousAt_escapeChar (c : Char) : UnambiguousAt escapeChar (fun _ ↦ True) c :=
  Printer.unambiguousAt_of_read
    (fun value rest _ ↦ readEscaped_escapeChar value rest) c

theorem escapeChar_start (c : Char) : ∃ d text, escapeChar c = d :: text ∧ d ≠ quoteChar := by
  by_cases hquote : c.toNat = 0x22
  · exact ⟨'\\', [c], by simp [escapeChar, hquote], by decide⟩
  · have hne : c ≠ quoteChar := fun heq ↦ hquote (by rw [heq]; rfl)
    unfold escapeChar
    split_ifs
    all_goals exact ⟨_, _, rfl, by first | exact hne | decide⟩

theorem unambiguousAt_quote (text : String) : UnambiguousAt quote (fun _ ↦ True) text := by
  intro other rest rest' _ _ h
  have hbody' : text.toList.flatMap escapeChar ++ [quoteChar] ++ rest =
      other.toList.flatMap escapeChar ++ [quoteChar] ++ rest' := by simpa [quote] using h
  have hbody := Printer.unambiguousAt_flatMap unambiguousAt_escapeChar escapeChar_start text.toList
    trivial trivial hbody'
  exact ⟨String.toList_inj.mp hbody.1, hbody.2⟩

/-! ## Numbers -/

theorem isDigit_digitChar (digit : Fin 10) : (digitChar digit).isDigit = true := by
  revert digit
  decide

theorem digitChar_injective : Function.Injective digitChar := by
  unfold Function.Injective
  decide

/-- What may follow a printed natural number. -/
abbrev NoDigit : List Char → Prop := Avoids fun c ↦ c.isDigit = true

theorem unambiguousAt_printNat (n : ℕ) : UnambiguousAt printNat NoDigit n := by
  intro other rest rest' hrest hrest' h
  have hdigits (m : ℕ) : ∀ c ∈ printNat m, c.isDigit = true := fun c hc ↦
    Nat.isDigit_of_mem_toDigits (by norm_num) (by norm_num) hc
  have hrun := Printer.append_inj_of_class (hdigits n) (hdigits other) hrest hrest' h
  refine ⟨?_, hrun.2⟩
  calc
    n = Nat.ofDigitChars 10 (printNat n) 0 := Nat.ofDigitChars_ten_toDigits.symm
    _ = Nat.ofDigitChars 10 (printNat other) 0 := by rw [hrun.1]
    _ = other := Nat.ofDigitChars_ten_toDigits

theorem printNat_start (n : ℕ) : ∃ c text, printNat n = c :: text ∧ c.isDigit = true := by
  cases hprint : printNat n with
  | nil => exact absurd hprint Nat.toDigits_ne_nil
  | cons c text =>
    have hmem : c ∈ Nat.toDigits 10 n := by
      change c ∈ printNat n
      simp [hprint]
    exact ⟨c, text, rfl, Nat.isDigit_of_mem_toDigits (by norm_num) (by norm_num) hmem⟩

theorem unambiguousAt_printInt (z : ℤ) : UnambiguousAt printInt NoDigit z := by
  have hminus (n : ℕ) (text rest : List Char) : printNat n ++ rest ≠ '-' :: text := by
    obtain ⟨c, tail, hprint, hdigit⟩ := printNat_start n
    rw [hprint]
    rintro heq
    simp only [List.cons_append, List.cons.injEq] at heq
    rw [heq.1] at hdigit
    exact absurd hdigit (by decide)
  intro other rest rest' hrest hrest' h
  cases z with
  | ofNat n =>
    cases other with
    | ofNat m =>
      have hnat := unambiguousAt_printNat n hrest hrest' h
      exact ⟨by rw [hnat.1], hnat.2⟩
    | negSucc m => exact absurd h (hminus n _ rest)
  | negSucc n =>
    cases other with
    | ofNat m => exact absurd h.symm (hminus m _ rest')
    | negSucc m =>
      simp only [printInt, List.cons_append, List.cons.injEq, true_and] at h
      have hnat := unambiguousAt_printNat (n + 1) hrest hrest' h
      exact ⟨by rw [Nat.succ.inj hnat.1], hnat.2⟩

theorem unambiguousAt_digits (digits : List (Fin 10)) :
    UnambiguousAt (List.map digitChar) NoDigit digits := by
  intro other rest rest' hrest hrest' h
  have hclass (ds : List (Fin 10)) : ∀ c ∈ ds.map digitChar, c.isDigit = true := by
    simp [isDigit_digitChar]
  have hrun := Printer.append_inj_of_class (hclass digits) (hclass other) hrest hrest' h
  exact ⟨List.map_injective_iff.mpr digitChar_injective hrun.1, hrun.2⟩

/-- The sign of an exponent. -/
def Exponent.signChars (sign : Option Bool) : List Char :=
  match sign with
  | none => []
  | some minus => [if minus then '-' else '+']

theorem Exponent.chars_eq (exponent : Exponent) :
    exponent.chars = (if exponent.upper then 'E' else 'e') ::
      (signChars exponent.sign ++ exponent.digits.map digitChar) := rfl

theorem digits_start {digits : List (Fin 10)} (h : digits ≠ []) :
    ∃ c text, digits.map digitChar = c :: text ∧ c.isDigit = true := by
  cases digits with
  | nil => exact absurd rfl h
  | cons digit rest => exact ⟨_, _, rfl, isDigit_digitChar digit⟩

theorem unambiguousAt_exponent (exponent : Exponent) :
    UnambiguousAt Exponent.chars NoDigit exponent := by
  intro other rest rest' hrest hrest' h
  obtain ⟨upper, sign, digits, hdigits⟩ := exponent
  obtain ⟨upper', sign', digits', hdigits'⟩ := other
  obtain ⟨c, text, hstart, hc⟩ := digits_start hdigits
  obtain ⟨c', text', hstart', hc'⟩ := digits_start hdigits'
  simp only [Exponent.chars_eq, List.cons_append, List.append_assoc, List.cons.injEq] at h
  obtain ⟨hupper, htail⟩ := h
  have hmarker : upper = upper' := by
    cases upper <;> cases upper' <;> simp_all
  have hsign : sign = sign' ∧
      digits.map digitChar ++ rest = digits'.map digitChar ++ rest' := by
    rcases sign with _ | _ | _ <;> rcases sign' with _ | _ | _ <;>
      simp only [Exponent.signChars, hstart, hstart', List.nil_append, List.cons_append,
        List.cons.injEq, if_true, if_false, Bool.false_eq_true] at htail ⊢ <;>
      first
        | exact ⟨trivial, htail⟩
        | exact ⟨trivial, htail.2⟩
        | exact absurd htail.1 (by decide)
        | (rw [htail.1] at hc; exact absurd hc (by decide))
        | (rw [← htail.1] at hc'; exact absurd hc' (by decide))
  have hdig := unambiguousAt_digits digits hrest hrest' hsign.2
  refine ⟨?_, hdig.2⟩
  simp only [Exponent.mk.injEq]
  exact ⟨hmarker, hsign.1, hdig.1⟩

/-- The characters of number tokens. -/
def IsNumberChar (c : Char) : Prop := c.isDigit = true ∨ c ∈ ['+', '-', '.', 'e', 'E']

/-- What may follow a printed value. -/
abbrev NoNumber : List Char → Prop := Avoids IsNumberChar

theorem NoNumber.noDigit {rest : List Char} (h : NoNumber rest) : NoDigit rest :=
  fun c hc hdigit ↦ h c hc (Or.inl hdigit)

namespace Number

def fractionChars (number : Number) : List Char :=
  match number.fraction with
  | none => []
  | some digits => '.' :: digits.map digitChar

def exponentChars (number : Number) : List Char :=
  match number.exponent with
  | none => []
  | some exponent => exponent.chars

theorem chars_append (number : Number) (rest : List Char) :
    number.chars ++ rest = (if number.negative then ['-'] else []) ++
      (number.integer.map digitChar ++ (number.fractionChars ++
        (number.exponentChars ++ rest))) := by
  unfold chars fractionChars exponentChars
  cases number.fraction <;> cases number.exponent <;>
    simp only [List.append_assoc, List.nil_append, List.append_nil]

theorem exponentChars_avoid (number : Number) {rest : List Char} (h : NoNumber rest) :
    Avoids (fun c ↦ c.isDigit = true ∨ c = '.') (number.exponentChars ++ rest) := by
  unfold exponentChars
  cases number.exponent with
  | none =>
    intro c hc hor
    refine h c hc ?_
    cases hor with
    | inl hdigit => exact Or.inl hdigit
    | inr hdot => exact Or.inr (by simp [hdot])
  | some exponent =>
    simp only [Exponent.chars_eq, List.cons_append, Printer.avoids_cons]
    split <;> decide

theorem fractionChars_avoid (number : Number) {rest : List Char} (h : NoNumber rest) :
    NoDigit (number.fractionChars ++ (number.exponentChars ++ rest)) := by
  unfold fractionChars
  cases number.fraction with
  | none => exact fun c hc hdigit ↦ number.exponentChars_avoid h c hc (Or.inl hdigit)
  | some digits =>
    simp only [List.cons_append, Printer.avoids_cons]
    decide

theorem exponent_unique {number other : Number} {rest rest' : List Char} (hrest : NoNumber rest)
    (hrest' : NoNumber rest')
    (h : number.exponentChars ++ rest = other.exponentChars ++ rest') :
    number.exponent = other.exponent ∧ rest = rest' := by
  have hmarker (exponent : Exponent) (text : List Char) : ¬ NoNumber (exponent.chars ++ text) := by
    simp only [Exponent.chars_eq, List.cons_append, Printer.avoids_cons, not_not]
    split
    · exact Or.inr (by simp)
    · exact Or.inr (by simp)
  unfold exponentChars at h
  cases hleft : number.exponent with
  | none =>
    cases hright : other.exponent with
    | none => exact ⟨rfl, by simpa [hleft, hright] using h⟩
    | some exponent =>
      simp only [hleft, hright, List.nil_append] at h
      exact absurd (h ▸ hrest) (hmarker exponent rest')
  | some exponent =>
    cases hright : other.exponent with
    | none =>
      simp only [hleft, hright, List.nil_append] at h
      exact absurd (h ▸ hrest') (hmarker exponent rest)
    | some exponent' =>
      simp only [hleft, hright] at h
      have hexp := unambiguousAt_exponent exponent hrest.noDigit hrest'.noDigit h
      exact ⟨by rw [hexp.1], hexp.2⟩

theorem fraction_unique {number other : Number} {rest rest' : List Char} (hrest : NoNumber rest)
    (hrest' : NoNumber rest')
    (h : number.fractionChars ++ (number.exponentChars ++ rest) =
      other.fractionChars ++ (other.exponentChars ++ rest')) :
    number.fraction = other.fraction ∧
      number.exponentChars ++ rest = other.exponentChars ++ rest' := by
  have hdot {token : Number} {tail text : List Char} (htail : NoNumber tail)
      (heq : token.exponentChars ++ tail = '.' :: text) : False :=
    token.exponentChars_avoid htail '.' (by simp [heq]) (Or.inr rfl)
  have hdigit (token : Number) {tail : List Char} (htail : NoNumber tail) :
      NoDigit (token.exponentChars ++ tail) :=
    fun c hc hd ↦ token.exponentChars_avoid htail c hc (Or.inl hd)
  unfold fractionChars at h
  cases hleft : number.fraction with
  | none =>
    cases hright : other.fraction with
    | none => exact ⟨rfl, by simpa [hleft, hright] using h⟩
    | some digits =>
      simp only [hleft, hright, List.nil_append, List.cons_append] at h
      exact (hdot hrest h).elim
  | some digits =>
    cases hright : other.fraction with
    | none =>
      simp only [hleft, hright, List.nil_append, List.cons_append] at h
      exact (hdot hrest' h.symm).elim
    | some digits' =>
      simp only [hleft, hright, List.cons_append, List.cons.injEq, true_and] at h
      have hdigits := unambiguousAt_digits digits (hdigit number hrest) (hdigit other hrest') h
      exact ⟨by rw [hdigits.1], hdigits.2⟩

theorem unambiguousAt_chars (number : Number) : UnambiguousAt chars NoNumber number := by
  intro other rest rest' hrest hrest' h
  rw [chars_append, chars_append] at h
  obtain ⟨c, text, hstart, hc⟩ := digits_start number.integer_ne_nil
  obtain ⟨c', text', hstart', hc'⟩ := digits_start other.integer_ne_nil
  have hminus : ('-' : Char).isDigit = false := by decide
  have hsign : number.negative = other.negative ∧
      number.integer.map digitChar ++ (number.fractionChars ++ (number.exponentChars ++ rest)) =
        other.integer.map digitChar ++
          (other.fractionChars ++ (other.exponentChars ++ rest')) := by
    cases hneg : number.negative <;> cases hneg' : other.negative <;>
      simp only [hneg, hneg', if_true, if_false, Bool.false_eq_true, List.nil_append,
        List.cons_append, List.cons.injEq, true_and] at h ⊢
    · exact h
    · rw [hstart] at h
      simp only [List.cons_append, List.cons.injEq] at h
      rw [h.1, hminus] at hc
      exact absurd hc (by decide)
    · rw [hstart'] at h
      simp only [List.cons_append, List.cons.injEq] at h
      rw [← h.1, hminus] at hc'
      exact absurd hc' (by decide)
    · exact h
  have hint := unambiguousAt_digits number.integer (number.fractionChars_avoid hrest)
    (other.fractionChars_avoid hrest') hsign.2
  have hfrac := fraction_unique hrest hrest' hint.2
  have hexp := exponent_unique hrest hrest' hfrac.2
  refine ⟨?_, hexp.2⟩
  obtain ⟨negative, integer, fraction, exponent, _, _, _⟩ := number
  obtain ⟨negative', integer', fraction', exponent', _, _, _⟩ := other
  simp only [Number.mk.injEq]
  exact ⟨hsign.1, hint.1, hfrac.1, hexp.1⟩

end Number

/-! ## Values -/

namespace Value

/-- The position of a value's constructor. -/
def kind : Value → ℕ
  | .null => 0
  | .bool _ => 1
  | .number _ => 2
  | .string _ => 3
  | .array _ => 4
  | .object _ => 5

/-- The constructor a text's first character announces. -/
def opening (c : Char) : ℕ :=
  if c = 'n' then 0 else if c = 't' then 1 else if c = 'f' then 1 else if c = quoteChar then 3
  else if c = '[' then 4 else if c = '{' then 5 else 2

theorem opening_digit (digit : Fin 10) : opening (digitChar digit) = 2 := by
  revert digit
  decide

theorem print_number_start (token : Number) :
    ∃ c text, (number token).print = c :: text ∧ opening c = 2 ∧ c ≠ ']' := by
  have htext := token.chars_append []
  rw [List.append_nil] at htext
  cases hneg : token.negative with
  | true =>
    simp only [hneg, if_true, List.cons_append, List.nil_append] at htext
    exact ⟨'-', _, htext, by decide, by decide⟩
  | false =>
    cases hint : token.integer with
    | nil => exact absurd hint token.integer_ne_nil
    | cons digit rest =>
      simp only [hneg, hint, Bool.false_eq_true, if_false, List.nil_append, List.map_cons,
        List.cons_append] at htext
      have hne : ∀ digit : Fin 10, digitChar digit ≠ ']' := by decide
      exact ⟨digitChar digit, _, htext, opening_digit digit, hne digit⟩

theorem print_start (value : Value) :
    ∃ c text, value.print = c :: text ∧ opening c = value.kind ∧ c ≠ ']' := by
  cases value with
  | null => exact ⟨'n', _, rfl, rfl, by decide⟩
  | bool b => cases b with
    | true => exact ⟨'t', _, rfl, rfl, by decide⟩
    | false => exact ⟨'f', _, rfl, rfl, by decide⟩
  | number token => exact print_number_start token
  | string text => exact ⟨quoteChar, _, rfl, rfl, by decide⟩
  | array items => exact ⟨'[', _, rfl, rfl, by decide⟩
  | object entries => exact ⟨'{', _, rfl, rfl, by decide⟩

theorem kind_eq_of_print {value other : Value} {rest rest' : List Char}
    (h : value.print ++ rest = other.print ++ rest') : value.kind = other.kind := by
  obtain ⟨c, text, hprint, hopen, -⟩ := value.print_start
  obtain ⟨c', text', hprint', hopen', -⟩ := other.print_start
  rw [hprint, hprint', List.cons_append, List.cons_append, List.cons.injEq] at h
  rw [← hopen, ← hopen', h.1]

theorem print_start_ne (value : Value) : ∃ c text, value.print = c :: text ∧ c ≠ ']' := by
  obtain ⟨c, text, hprint, -, hne⟩ := value.print_start
  exact ⟨c, text, hprint, hne⟩

theorem noNumber_comma (rest : List Char) : NoNumber (',' :: rest) := by
  simp only [NoNumber, Printer.avoids_cons, IsNumberChar]
  decide

theorem noNumber_bracket (rest : List Char) : NoNumber (']' :: rest) := by
  simp only [NoNumber, Printer.avoids_cons, IsNumberChar]
  decide

theorem noNumber_brace (rest : List Char) : NoNumber ('}' :: rest) := by
  simp only [NoNumber, Printer.avoids_cons, IsNumberChar]
  decide

theorem unambiguousAt_entry {entry : String × Value}
    (h : UnambiguousAt print NoNumber entry.2) : UnambiguousAt printEntry NoNumber entry := by
  intro other rest rest' hrest hrest' heq
  simp only [printEntry, member, List.append_assoc, List.cons_append] at heq
  obtain ⟨hkey, hvalue⟩ := unambiguousAt_quote entry.1 trivial trivial heq
  have hprint := h hrest hrest' (List.cons.inj hvalue).2
  exact ⟨Prod.ext hkey hprint.1, hprint.2⟩

theorem printEntry_start (entry : String × Value) :
    ∃ c text, printEntry entry = c :: text ∧ c ≠ '}' :=
  ⟨quoteChar, _, rfl, by decide⟩

theorem unambiguousAt_array {items : List Value}
    (h : ∀ item ∈ items, UnambiguousAt print NoNumber item) :
    UnambiguousAt (fun items ↦ printArray (printItems items)) (fun _ ↦ True) items := by
  intro others rest rest' _ _ heq
  simp only [printArray, printItems_eq, List.cons_append, List.cons.injEq, true_and] at heq
  exact Printer.unambiguousAt_commaSeparated h noNumber_comma noNumber_bracket (by decide)
    print_start_ne trivial trivial heq

theorem unambiguousAt_object {entries : List (String × Value)}
    (h : ∀ entry ∈ entries, UnambiguousAt print NoNumber entry.2) :
    UnambiguousAt (fun entries ↦ printObject (printEntries entries)) (fun _ ↦ True) entries := by
  intro others rest rest' _ _ heq
  simp only [printObject, printEntries_eq, List.cons_append, List.cons.injEq, true_and] at heq
  exact Printer.unambiguousAt_commaSeparated (fun entry hentry ↦ unambiguousAt_entry (h entry hentry))
    noNumber_comma noNumber_brace (by decide) printEntry_start trivial trivial heq

mutual

/-- The text of a value determines the value, by recursion over the tree. -/
theorem unambiguousAt_print : ∀ value : Value, UnambiguousAt print NoNumber value
  | .null => fun other rest rest' _ _ h ↦ by
    have hkind := kind_eq_of_print h
    cases other <;> simp_all [kind, print]
  | .bool b => fun other rest rest' _ _ h ↦ by
    have hkind := kind_eq_of_print h
    cases other with
    | bool b' => cases b <;> cases b' <;> simp_all [print]
    | _ => simp [kind] at hkind
  | .number token => fun other rest rest' hrest hrest' h ↦ by
    have hkind := kind_eq_of_print h
    cases other with
    | number token' =>
      have htoken := token.unambiguousAt_chars hrest hrest' h
      exact ⟨by rw [htoken.1], htoken.2⟩
    | _ => simp [kind] at hkind
  | .string text => fun other rest rest' _ _ h ↦ by
    have hkind := kind_eq_of_print h
    cases other with
    | string text' =>
      have htext := unambiguousAt_quote text trivial trivial h
      exact ⟨by rw [htext.1], htext.2⟩
    | _ => simp [kind] at hkind
  | .array items => fun other rest rest' _ _ h ↦ by
    have hkind := kind_eq_of_print h
    cases other with
    | array items' =>
      have hitems := unambiguousAt_array (unambiguousAt_items items) trivial trivial h
      exact ⟨by rw [hitems.1], hitems.2⟩
    | _ => simp [kind] at hkind
  | .object entries => fun other rest rest' _ _ h ↦ by
    have hkind := kind_eq_of_print h
    cases other with
    | object entries' =>
      have hentries := unambiguousAt_object (unambiguousAt_entries entries) trivial trivial h
      exact ⟨by rw [hentries.1], hentries.2⟩
    | _ => simp [kind] at hkind

theorem unambiguousAt_items : ∀ items : List Value,
    ∀ item ∈ items, UnambiguousAt print NoNumber item
  | [], _, h => by simp at h
  | first :: rest, item, h => by
    cases List.mem_cons.mp h with
    | inl heq => rw [heq]; exact unambiguousAt_print first
    | inr hmem => exact unambiguousAt_items rest item hmem

theorem unambiguousAt_entries : ∀ entries : List (String × Value),
    ∀ entry ∈ entries, UnambiguousAt print NoNumber entry.2
  | [], _, h => by simp at h
  | (_, value) :: rest, entry, h => by
    cases List.mem_cons.mp h with
    | inl heq => rw [heq]; exact unambiguousAt_print value
    | inr hmem => exact unambiguousAt_entries rest entry hmem

end

end Value

end Rvx.Core
