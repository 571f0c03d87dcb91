import Rvx.Tables.Cells

/-!
# Tagged scalars

Record identities and group keys are lists of scalars, each written with its kind.  A number in a
group key is written in a canonical form, so one key stands for one tuple of kinds and values.
-/

namespace Rvx.Tables

open Core Engine Decimal

inductive ScalarKind where
  | missing | null | boolean | number | string
deriving DecidableEq

def ScalarKind.name : ScalarKind → String
  | .missing => "missing"
  | .null => "null"
  | .boolean => "boolean"
  | .number => "number"
  | .string => "string"

/-- A kind with the text of the value, if there is one. -/
abbrev Component : Type := ScalarKind × Option String

/-- The text of an exponent. -/
def DecimalExponent.chars : DecimalExponent → List Char
  | .small value => printInt value
  | .large negative digits => (if negative then ['-'] else []) ++ digits

/-- `trim_end_matches`. -/
def trimEnd (unwanted : Char) (text : List Char) : List Char :=
  (text.reverse.dropWhile fun c ↦ c = unwanted).reverse

def canonicalNumber (number : Number) : String :=
  let key := NumericKey.new number
  if key.digits = [] then "0"
  else
    let digits := key.digits.filter fun c ↦ c ≠ '.'
    String.ofList ((if key.negative then ['-'] else []) ++ ['0', '.'] ++ trimEnd '0' digits ++
      'e' :: key.magnitude.chars)

/-- A scalar of an identity, or of a group key. -/
def scalar (identity : Bool) : Cell → Except EngineError Component
  | .key text => .ok (.string, some text)
  | .value (.string text) => .ok (.string, some text)
  | .value (.bool value) =>
    if identity then .error (.invalidInput
      "record identity values require present, non-null strings or exact 64-bit integers")
    else .ok (.boolean, some (String.ofList (Value.bool value).print))
  | .value (.number number) =>
    if identity then
      match NumericKey.wideInteger number with
      | some integer => .ok (.number, some (String.ofList (printInt integer)))
      | none => .error (.invalidInput "record identity values must not be floats")
    else .ok (.number, some (canonicalNumber number))
  | .missing =>
    if identity then .error (.invalidInput
      "record identity values require present, non-null strings or exact 64-bit integers")
    else .ok (.missing, none)
  | .value .null =>
    if identity then .error (.invalidInput
      "record identity values require present, non-null strings or exact 64-bit integers")
    else .ok (.null, none)
  | .value _ =>
    if identity then .error (.invalidInput
      "record identity values require present, non-null strings or exact 64-bit integers")
    else .error (.invalidInput "group_by values must be scalar, missing, or null")

/-- The components as a JSON array of pairs. -/
def componentsValue (components : List Component) : Value :=
  .array (components.map fun component ↦
    .array [.string component.1.name, component.2.elim .null .string])

def componentsText (components : List Component) : String :=
  String.ofList (componentsValue components).print

/-! ## Canonical numbers -/

theorem trimEnd_digits (digits : List (Fin 10)) :
    trimEnd '0' (digits.map digitChar) = (trimmed digits).map digitChar := by
  rw [trimEnd, ← List.map_reverse, DecimalExponent.dropWhile_zeros, ← List.map_reverse, trimmed]

/-- Digits without leading zeros are those of their value. -/
theorem decimalDigits_natural {digits : List (Fin 10)} (hne : digits ≠ [])
    (hhead : digits.head? ≠ some 0) : Number.decimalDigits (natural digits) = digits := by
  have hpos : natural digits ≠ 0 := by
    have hfraction := fraction_pos hne hhead
    have hvalue := fraction_mul_pow digits
    intro hzero
    rw [hzero, Nat.cast_zero] at hvalue
    exact absurd hvalue (by positivity)
  have hhead' : (Number.decimalDigits (natural digits)).head? ≠ some 0 := by
    rw [Number.decimalDigits, if_neg hpos]
    exact Number.head?_digitsBelow hpos le_rfl
  have hsame : natural (Number.decimalDigits (natural digits)) = natural digits :=
    Number.digitsValue_decimalDigits _
  have hcompare := compare_natural (Number.decimalDigits_ne_nil _) hne hhead' hhead
  rw [hsame, compare_eq_iff_eq.mpr rfl, eq_comm, Ordering.then_eq_eq, compare_eq_iff_eq] at hcompare
  rw [comparePadded_eq_compare 0 hcompare.1] at hcompare
  exact Std.LawfulEqOrd.eq_of_compare hcompare.2

/-- The text of an exponent is that of the integer it stands for. -/
theorem DecimalExponent.Denotes.chars_eq {exponent : DecimalExponent} {value : ℤ}
    (h : exponent.Denotes value) : exponent.chars = printInt value := by
  cases h with
  | small low high => rfl
  | positive leading big =>
    rw [DecimalExponent.chars, if_neg Bool.false_ne_true, List.nil_append]
    change _ = printNat _
    rw [printNat_eq, decimalDigits_natural (DecimalExponent.ne_nil_of_big big) leading]
  | @negative digits leading big =>
    have hprint : printInt (-(natural digits : ℤ)) = '-' :: printNat (natural digits) := by
      obtain ⟨n, hn⟩ : ∃ n, natural digits = n + 1 := ⟨natural digits - 1, by omega⟩
      rw [hn]
      rfl
    rw [hprint, printNat_eq,
      decimalDigits_natural (DecimalExponent.ne_nil_of_big big.le) leading]
    rfl

/-- The canonical text of a number other than zero. -/
def canonicalChars (negative : Bool) (digits : List (Fin 10)) (exponent : ℤ) : List Char :=
  (if negative then ['-'] else []) ++ ['0', '.'] ++ (trimmed digits).map digitChar ++
    'e' :: printInt exponent

theorem canonicalChars_injective {negative negative' : Bool} {digits digits' : List (Fin 10)}
    {exponent exponent' : ℤ}
    (h : canonicalChars negative digits exponent = canonicalChars negative' digits' exponent') :
    negative = negative' ∧ trimmed digits = trimmed digits' ∧ exponent = exponent' := by
  have htail : negative = negative' ∧
      (trimmed digits).map digitChar ++ 'e' :: printInt exponent =
        (trimmed digits').map digitChar ++ 'e' :: printInt exponent' := by
    unfold canonicalChars at h
    cases negative <;> cases negative' <;> simp at h ⊢ <;> exact h
  have hmark (z : ℤ) : NoDigit ('e' :: printInt z) := by simp
  obtain ⟨hdigits, hrest⟩ :=
    unambiguousAt_digits (trimmed digits) (hmark exponent) (hmark exponent') htail.2
  have hexponent := List.cons.inj hrest
  have hint := unambiguousAt_printInt exponent Printer.avoids_nil Printer.avoids_nil
    (congrArg (· ++ []) hexponent.2)
  exact ⟨htail.1, hdigits, hint.1⟩

theorem canonicalChars_ne_zero (negative : Bool) (digits : List (Fin 10)) (exponent : ℤ) :
    canonicalChars negative digits exponent ≠ ['0'] := by
  unfold canonicalChars
  cases negative <;> simp

/-- Sign, digits and exponent of a number other than zero are unique. -/
theorem value_injective {negative negative' : Bool} {digits digits' : List (Fin 10)}
    (hne : digits ≠ []) (hne' : digits' ≠ []) (hhead : digits.head? ≠ some 0)
    (hhead' : digits'.head? ≠ some 0) {exponent exponent' : ℤ}
    (h : NumericKey.value negative digits exponent = NumericKey.value negative' digits' exponent') :
    negative = negative' ∧ trimmed digits = trimmed digits' ∧ exponent = exponent' := by
  have hsign : negative = negative' := by
    have hpos := NumericKey.value_pos hne hhead exponent
    have hneg := NumericKey.value_neg hne hhead exponent
    have hpos' := NumericKey.value_pos hne' hhead' exponent'
    have hneg' := NumericKey.value_neg hne' hhead' exponent'
    cases negative <;> cases negative' <;> first | rfl | linarith
  subst hsign
  have hscaled : fraction digits * (10 : ℚ) ^ exponent = fraction digits' * 10 ^ exponent' := by
    unfold NumericKey.value at h
    cases negative with
    | true => simpa using h
    | false => simpa using h
  have hcompare := compare_scaled hne hne' hhead hhead' exponent exponent'
  rw [hscaled, compare_eq_iff_eq.mpr rfl, eq_comm, Ordering.then_eq_eq, compare_eq_iff_eq,
    ← compare_fraction, compare_eq_iff_eq] at hcompare
  refine ⟨rfl, fraction_injective (getLast?_trimmed _) (getLast?_trimmed _) ?_, hcompare.1⟩
  rw [fraction_trimmed, fraction_trimmed, hcompare.2]

/-- The canonical text of a number, by whether it is zero. -/
theorem canonicalNumber_cases {number : Number} (h : number.chars.length < 2 ^ 63) :
    (number.toRat = 0 ∧ canonicalNumber number = "0") ∨
    ∃ negative digits exponent, digits ≠ [] ∧ digits.head? ≠ some 0 ∧
      number.toRat = NumericKey.value negative digits exponent ∧
      canonicalNumber number = String.ofList (canonicalChars negative digits exponent) := by
  unfold canonicalNumber
  rcases (NumericKey.new_denotes h).form with ⟨hzero, hvalue⟩ |
    ⟨digits, exponent, hnonzero, hdigits, hne, hhead, hexponent, hvalue⟩
  · rw [if_pos hzero]
    exact Or.inl ⟨hvalue, rfl⟩
  · simp only [if_neg hnonzero, hdigits, trimEnd_digits, hexponent.chars_eq]
    exact Or.inr ⟨_, digits, exponent, hne, hhead, hvalue, rfl⟩

theorem value_ne_zero (negative : Bool) {digits : List (Fin 10)} (hne : digits ≠ [])
    (hhead : digits.head? ≠ some 0) (exponent : ℤ) :
    NumericKey.value negative digits exponent ≠ 0 := by
  cases negative with
  | true => exact (NumericKey.value_neg hne hhead exponent).ne
  | false => exact (NumericKey.value_pos hne hhead exponent).ne'

theorem canonicalNumber_eq_iff {a b : Number} (ha : a.chars.length < 2 ^ 63)
    (hb : b.chars.length < 2 ^ 63) : canonicalNumber a = canonicalNumber b ↔ a.toRat = b.toRat := by
  rcases canonicalNumber_cases ha with ⟨hzero, htext⟩ |
    ⟨negative, digits, exponent, hne, hhead, hvalue, htext⟩ <;>
  rcases canonicalNumber_cases hb with ⟨hzero', htext'⟩ |
    ⟨negative', digits', exponent', hne', hhead', hvalue', htext'⟩
  · simp [hzero, hzero', htext, htext']
  · refine iff_of_false ?_ ?_
    · rw [htext, htext']
      intro heq
      exact canonicalChars_ne_zero _ _ _ (String.ofList_injective heq).symm
    · rw [hzero, hvalue']
      exact (value_ne_zero _ hne' hhead' _).symm
  · refine iff_of_false ?_ ?_
    · rw [htext, htext']
      intro heq
      exact canonicalChars_ne_zero _ _ _ (String.ofList_injective heq)
    · rw [hzero', hvalue]
      exact value_ne_zero _ hne hhead _
  · rw [htext, htext', hvalue, hvalue']
    constructor
    · intro heq
      obtain ⟨rfl, hdigits, rfl⟩ := canonicalChars_injective (String.ofList_injective heq)
      rw [NumericKey.value, NumericKey.value, ← fraction_trimmed digits, hdigits,
        fraction_trimmed]
    · intro heq
      obtain ⟨rfl, hdigits, rfl⟩ := value_injective hne hne' hhead hhead' heq
      rw [canonicalChars, canonicalChars, hdigits]

/-! ## Group keys -/

/-- The kind and the value of a cell that can be grouped by. -/
inductive Category where
  | missing
  | null
  | boolean (value : Bool)
  | number (value : ℚ)
  | string (text : String)

/-- Arrays and objects have none. -/
def Cell.category : Cell → Option Category
  | .missing => some .missing
  | .key text => some (.string text)
  | .value .null => some .null
  | .value (.bool flag) => some (.boolean flag)
  | .value (.number token) => some (.number token.toRat)
  | .value (.string text) => some (.string text)
  | .value _ => none

/-- A number of a cell is a string in memory, which is shorter than `2 ^ 63` bytes. -/
def Cell.Fits (cell : Cell) : Prop :=
  ∀ number, cell = .value (.number number) → number.chars.length < 2 ^ 63

/-- What a component says of its cell. -/
inductive Tagged : Component → Option Category → Prop
  | missing : Tagged (.missing, none) (some .missing)
  | null : Tagged (.null, none) (some .null)
  | boolean (value : Bool) :
    Tagged (.boolean, some (String.ofList (Value.bool value).print)) (some (.boolean value))
  | number (number : Number) (fits : number.chars.length < 2 ^ 63) :
    Tagged (.number, some (canonicalNumber number)) (some (.number number.toRat))
  | string (text : String) : Tagged (.string, some text) (some (.string text))

theorem tagged_of_scalar {cell : Cell} {component : Component} (hfits : cell.Fits)
    (h : scalar false cell = .ok component) : Tagged component cell.category := by
  cases cell with
  | missing =>
    obtain rfl := Except.ok.inj h
    exact .missing
  | key text =>
    obtain rfl := Except.ok.inj h
    exact .string text
  | value value =>
    cases value with
    | null =>
      obtain rfl := Except.ok.inj h
      exact .null
    | bool value =>
      obtain rfl := Except.ok.inj h
      exact .boolean value
    | number number =>
      obtain rfl := Except.ok.inj h
      exact .number number (hfits number rfl)
    | string text =>
      obtain rfl := Except.ok.inj h
      exact .string text
    | array items => cases h
    | object entries => cases h

theorem Tagged.eq_iff {component component' : Component} {category category' : Option Category}
    (h : Tagged component category) (h' : Tagged component' category') :
    component = component' ↔ category = category' := by
  cases h with
  | boolean value =>
    cases h' with
    | boolean value' => cases value <;> cases value' <;> simp [Value.print]
    | _ => simp
  | number number fits =>
    cases h' with
    | number number' fits' => simpa using canonicalNumber_eq_iff fits fits'
    | _ => simp
  | _ => cases h' <;> simp

/-- Components agree exactly when the cells do. -/
theorem components_eq_iff {cells cells' : List Cell} {components components' : List Component}
    (hfits : ∀ cell ∈ cells, cell.Fits) (hfits' : ∀ cell ∈ cells', cell.Fits)
    (h : cells.mapM (scalar false) = .ok components)
    (h' : cells'.mapM (scalar false) = .ok components') :
    components = components' ↔ cells.map Cell.category = cells'.map Cell.category := by
  induction cells generalizing cells' components components' with
  | nil =>
    obtain rfl := Except.ok.inj h
    cases cells' with
    | nil =>
      obtain rfl := Except.ok.inj h'
      simp
    | cons cell' cells' =>
      simp only [List.mapM_cons, Check.bind_eq_ok, Check.pure_eq_ok] at h'
      obtain ⟨component, -, rest, -, rfl⟩ := h'
      simp
  | cons cell cells ih =>
    simp only [List.mapM_cons, Check.bind_eq_ok, Check.pure_eq_ok] at h
    obtain ⟨component, hscalar, rest, hrest, rfl⟩ := h
    cases cells' with
    | nil =>
      obtain rfl := Except.ok.inj h'
      simp
    | cons cell' cells' =>
      simp only [List.mapM_cons, Check.bind_eq_ok, Check.pure_eq_ok] at h'
      obtain ⟨component', hscalar', rest', hrest', rfl⟩ := h'
      rw [List.forall_mem_cons] at hfits hfits'
      have hfirst := (tagged_of_scalar hfits.1 hscalar).eq_iff (tagged_of_scalar hfits'.1 hscalar')
      rw [List.cons.injEq, List.map_cons, List.map_cons, List.cons.injEq, hfirst,
        ih hfits.2 hfits'.2 hrest hrest']

theorem print_injective : Function.Injective Value.print := fun value _ h ↦
  (Value.unambiguousAt_print value Printer.avoids_nil Printer.avoids_nil
    (congrArg (· ++ []) h)).1

theorem ScalarKind.name_injective : Function.Injective ScalarKind.name := by
  intro kind kind' h
  cases kind <;> cases kind' <;> first | rfl | exact absurd h (by decide)

theorem componentsText_injective : Function.Injective componentsText := by
  intro components components' h
  have hvalue := print_injective (String.ofList_injective h)
  simp only [componentsValue, Value.array.injEq] at hvalue
  refine List.map_injective_iff.mpr ?_ hvalue
  rintro ⟨kind, value⟩ ⟨kind', value'⟩ heq
  simp only [Value.array.injEq, List.cons.injEq, Value.string.injEq, and_true] at heq
  obtain rfl := ScalarKind.name_injective heq.1
  cases value <;> cases value' <;> simp_all

/-- Numbers have one canonical text each, and group keys are equal exactly when the cells agree in
kind and value, one by one. -/
theorem group_keys_exact :
    (∀ a b : Number, a.chars.length < 2 ^ 63 → b.chars.length < 2 ^ 63 →
      (canonicalNumber a = canonicalNumber b ↔ a.toRat = b.toRat)) ∧
    ∀ (cells cells' : List Cell) (components components' : List Component),
      (∀ cell ∈ cells, cell.Fits) → (∀ cell ∈ cells', cell.Fits) →
      cells.mapM (scalar false) = .ok components → cells'.mapM (scalar false) = .ok components' →
      (componentsText components = componentsText components' ↔
        cells.map Cell.category = cells'.map Cell.category) := by
  refine ⟨fun a b ha hb ↦ canonicalNumber_eq_iff ha hb, ?_⟩
  intro cells cells' components components' hfits hfits' h h'
  rw [componentsText_injective.eq_iff, components_eq_iff hfits hfits' h h']

/-- A group key of `1` is also that of `10e-1`, and not that of the string `"1"`. -/
theorem group_keys_exact_sample :
    let one : Number := ⟨false, [1], none, none, by decide, by decide, by decide⟩
    let tenths : Number := ⟨false, [1, 0], none, some ⟨false, some true, [1], by decide⟩,
      by decide, by decide, by decide⟩
    canonicalNumber one = canonicalNumber tenths ∧
      componentsText [(.number, some (canonicalNumber one))] ≠
        componentsText [(.string, some "1")] := by
  intro one tenths
  constructor
  · refine (group_keys_exact.1 one tenths (by decide) (by decide)).mpr ?_
    simp [one, tenths, Number.toRat, digitsValue, Exponent.value]
  · intro heq
    have hcells := (group_keys_exact.2 [.value (.number one)] [.value (.string "1")] _ _
      (fun cell hcell number hnumber ↦ by
        rw [List.mem_singleton.mp hcell] at hnumber
        cases hnumber
        decide)
      (fun cell hcell number hnumber ↦ by
        rw [List.mem_singleton.mp hcell] at hnumber
        cases hnumber) rfl rfl).mp heq
    simp [Cell.category] at hcells

end Rvx.Tables
