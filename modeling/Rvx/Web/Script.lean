import Mathlib.Algebra.Order.Ring.Rat
import Mathlib.Data.List.TakeWhile
import Rvx.Web.Preferences

/-!
# Values of a script

What a response parses to in the browser: numbers are doubles, given by their values, and a missing
property is undefined.  Strings are measured in UTF-16 code units, and trimming also removes byte
order marks.
-/

namespace Rvx.Web

open Core

inductive Js where
  | null
  | bool (value : Bool)
  | number (value : ℚ)
  | string (text : String)
  | array (items : List Js)
  | object (entries : List (String × Js))

namespace Js

/-- A property; `none` is undefined. -/
def get (value : Js) (key : String) : Option Js :=
  match value with
  | .object entries => (entries.find? fun entry ↦ entry.1 = key).map Prod.snd
  | _ => none

/-- `Object.entries`. -/
def entries : Js → List (String × Js)
  | .object entries => entries
  | _ => []

def isRecord : Js → Bool
  | .object _ => true
  | _ => false

def text? : Js → Option String
  | .string text => some text
  | _ => none

def number? : Js → Option ℚ
  | .number value => some value
  | _ => none

def items? : Js → Option (List Js)
  | .array items => some items
  | _ => none

def isBool : Js → Bool
  | .bool _ => true
  | _ => false

/-- A text property. -/
def text (value : Js) (key : String) : Option String := (value.get key).bind text?

/-- An array property. -/
def items (value : Js) (key : String) : Option (List Js) := (value.get key).bind items?

/-- A property that is absent or passes a check. -/
def optional (value : Js) (key : String) (check : Js → Bool) : Bool := (value.get key).all check

/-- A text among those listed. -/
def isOneOf (values : List String) (value : Js) : Bool := value.text?.any (· ∈ values)

def isTrue (value : Js) (check : String → Bool) : Bool := value.text?.any check

/-- An integer between two bounds. -/
def isInteger (low high : ℕ) (value : Js) : Bool :=
  value.number?.any fun n ↦ n.den = 1 && (low : ℚ) ≤ n && n ≤ (high : ℚ)

/-- A number between two bounds. -/
def isNumber (low high : ℚ) (value : Js) : Bool := value.number?.any fun n ↦ low ≤ n && n ≤ high

/-- An object with the fields that are present. -/
def record (fields : List (String × Option Js)) : Js :=
  .object (fields.filterMap fun field ↦ field.2.map fun value ↦ (field.1, value))

/-! ## Records -/

@[simp]
theorem isRecord_record (fields : List (String × Option Js)) : (record fields).isRecord = true := rfl

@[simp]
theorem get_record_nil (key : String) : (record []).get key = none := rfl

@[simp]
theorem get_record_cons (name : String) (value : Option Js) (rest : List (String × Option Js))
    (key : String) :
    (record ((name, value) :: rest)).get key =
      if name = key then value.or ((record rest).get key) else (record rest).get key := by
  cases value with
  | none => simp [record]
  | some value =>
    by_cases h : name = key <;> simp [record, get, h]

theorem mem_entries_record {fields : List (String × Option Js)} {entry : String × Js}
    (h : entry ∈ (record fields).entries) : entry.1 ∈ fields.map Prod.fst := by
  obtain ⟨field, hfield, hentry⟩ := List.mem_filterMap.mp h
  obtain ⟨value, -, rfl⟩ := Option.map_eq_some_iff.mp hentry
  exact List.mem_map_of_mem hfield

end Js

/-! ## Texts -/

/-- A text with a character that is no white space of a script. -/
def Visible (text : String) : Prop := ∃ c ∈ text.toList, isSpace c = false

theorem dropWhile_eq_self {p : Char → Bool} {text : List Char} :
    text.dropWhile p = text ↔ ∀ c ∈ text.head?, p c = false := by
  cases text with
  | nil => simp
  | cons c rest =>
    rw [List.dropWhile_cons]
    split_ifs with hspace
    · refine ⟨fun h ↦ ?_, fun h ↦ ?_⟩
      · have hlength := congrArg List.length h
        have hle := (List.dropWhile_suffix (l := rest) p).length_le
        rw [List.length_cons] at hlength
        omega
      · exact absurd (h c rfl) (by simp [hspace])
    · simp [hspace]

/-- Nothing is removed at either end. -/
theorem strip_eq_self {p : Char → Bool} {text : List Char} :
    ((text.dropWhile p).reverse.dropWhile p).reverse = text ↔
      (∀ c ∈ text.head?, p c = false) ∧ ∀ c ∈ text.getLast?, p c = false := by
  constructor
  · intro h
    have hfirst : text.dropWhile p = text := by
      have hle := (List.dropWhile_suffix (l := text) p).length_le
      have hle' := (List.dropWhile_suffix (l := (text.dropWhile p).reverse) p).length_le
      have hlength := congrArg List.length h
      rw [List.length_reverse] at hlength hle'
      exact (List.dropWhile_suffix p).eq_of_length (by omega)
    refine ⟨dropWhile_eq_self.mp hfirst, ?_⟩
    rw [hfirst, List.reverse_eq_iff] at h
    rw [← List.head?_reverse]
    exact dropWhile_eq_self.mp h
  · rintro ⟨hhead, hlast⟩
    rw [dropWhile_eq_self.mpr hhead, List.reverse_eq_iff, dropWhile_eq_self, List.head?_reverse]
    exact hlast

/-- A script also removes byte order marks, and keeps the next-line character. -/
theorem isSpace_iff {c : Char} :
    isSpace c = true ↔ c.toNat = 0xfeff ∨ isWhitespace c = true ∧ c.toNat ≠ 0x85 := by
  unfold isSpace isWhitespace
  simp only [Bool.or_eq_true, Bool.and_eq_true, decide_eq_true_eq, List.mem_cons, List.not_mem_nil,
    or_false]
  omega

theorem trimmed_ne_empty {text : String} : trimmed text ≠ "" ↔ Visible text := by
  have hempty : trimmed text = "" ↔ ∀ c ∈ text.toList, isSpace c = true := by
    rw [← strip_eq_nil, trimmed, ← String.toList_inj, String.toList_ofList]
    rfl
  rw [ne_eq, hempty, Visible]
  simp

theorem toList_trimmed (text : String) (p : Char → Bool) :
    String.ofList ((text.toList.dropWhile p).reverse.dropWhile p).reverse = text ↔
      (∀ c ∈ text.toList.head?, p c = false) ∧ ∀ c ∈ text.toList.getLast?, p c = false := by
  rw [← strip_eq_self, ← String.toList_inj, String.toList_ofList]

/-- Where the server trims nothing, the browser trims at most a byte order mark. -/
theorem trimmed_eq_self {text : String} (h : trim text = text) :
    trimmed text = text ↔ (∀ c ∈ text.toList.head?, c.toNat ≠ 0xfeff) ∧
      ∀ c ∈ text.toList.getLast?, c.toNat ≠ 0xfeff := by
  obtain ⟨hhead, hlast⟩ := (toList_trimmed text isWhitespace).mp h
  have hmark {c : Char} (hc : isWhitespace c = false) : isSpace c = false ↔ c.toNat ≠ 0xfeff := by
    rw [← Bool.not_eq_true, isSpace_iff]
    simp [hc]
  rw [trimmed, toList_trimmed]
  exact and_congr (forall₂_congr fun c hc ↦ hmark (hhead c hc))
    (forall₂_congr fun c hc ↦ hmark (hlast c hc))

end Rvx.Web
