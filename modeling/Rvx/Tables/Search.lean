import Mathlib.Data.Bool.AllAny
import Rvx.Lib.Ascii
import Rvx.Tables.Cells

/-!
# Case-insensitive search

A search looks at every key, string and scalar inside a value.  The needle is lower-cased, and so
are keys and strings; a number is searched as it is spelled, so an upper-case exponent is missed.
-/

namespace Rvx.Tables

open Core Engine

/-! ## The texts of a value -/

inductive Leaf where
  /-- A key or a string. -/
  | word (text : String)
  /-- The text of a boolean or of null. -/
  | literal (text : List Char)
  | token (number : Number)
deriving DecidableEq

/-- The text as it stands. -/
def Leaf.text : Leaf → String
  | .word text => text
  | .literal text => String.ofList text
  | .token number => String.ofList number.chars

mutual

def leaves : Value → List Leaf
  | .string text => [.word text]
  | .array items => leavesItems items
  | .object entries => leavesEntries entries
  | .null => [.literal Value.null.print]
  | .bool value => [.literal (Value.bool value).print]
  | .number number => [.token number]

def leavesItems : List Value → List Leaf
  | [] => []
  | item :: rest => leaves item ++ leavesItems rest

def leavesEntries : List (String × Value) → List Leaf
  | [] => []
  | (key, value) :: rest => .word key :: (leaves value ++ leavesEntries rest)

end

/-- What is compared with the needle. -/
def Leaf.shown (lower : String → String) : Leaf → String
  | .word text => lower text
  | .literal text => String.ofList text
  | .token number => String.ofList number.chars

/-! ## What the search finds -/

section Found

variable {runtime : Runtime} {needle : String} {budget budget' : WorkBudget} {answer : Bool}

/-- Some leaf shows the needle. -/
def Finds (lower : String → String) (needle : String) (found : List Leaf) : Prop :=
  ∃ leaf ∈ found, includes (leaf.shown lower) needle = true

theorem finds_singleton {lower : String → String} {leaf : Leaf} :
    Finds lower needle [leaf] ↔ includes (leaf.shown lower) needle = true := by
  simp [Finds]

theorem finds_append {lower : String → String} {found more : List Leaf} :
    Finds lower needle (found ++ more) ↔ Finds lower needle found ∨ Finds lower needle more := by
  simp only [Finds, List.mem_append, or_and_right, exists_or]

theorem containsKey_spec {text : String}
    (h : (containsKey runtime needle text).Returns budget answer budget') :
    answer = true ↔ Finds runtime.toLowercase needle [.word text] := by
  simp only [containsKey, Script.returns_bind, Script.returns_pure] at h
  obtain ⟨_, _, -, _, _, -, rfl, -⟩ := h
  rw [finds_singleton]
  rfl

theorem containsText_spec {text : List Char} {leaf : Leaf}
    (hleaf : leaf.shown runtime.toLowercase = String.ofList text)
    (h : (containsText needle text).Returns budget answer budget') :
    answer = true ↔ Finds runtime.toLowercase needle [leaf] := by
  simp only [containsText, Script.returns_bind, Script.returns_pure] at h
  obtain ⟨_, _, -, _, _, -, rfl, -⟩ := h
  rw [finds_singleton, hleaf]

/-- A search of one part, and of the rest if nothing was found. -/
theorem search_or {first rest : Work Bool} {here there : List Leaf}
    (hfirst : ∀ {budget answer budget'}, first.Returns budget answer budget' →
      (answer = true ↔ Finds runtime.toLowercase needle here))
    (hrest : ∀ {budget answer budget'}, rest.Returns budget answer budget' →
      (answer = true ↔ Finds runtime.toLowercase needle there))
    (h : (do
      if ← first then
        return true
      rest : Work Bool).Returns budget answer budget') :
    answer = true ↔ Finds runtime.toLowercase needle (here ++ there) := by
  rw [finds_append]
  obtain ⟨found, _, hfound, h⟩ := Script.returns_bind.mp h
  rw [← hfirst hfound]
  cases found with
  | true =>
    obtain ⟨rfl, -⟩ := Script.returns_pure.mp h
    simp
  | false =>
    rw [← hrest h]
    simp

mutual

/-- The loops over items and entries stop at the first part that shows the needle. -/
theorem containsValue_spec : ∀ (value : Value) {budget answer budget'},
    (containsValue runtime needle value).Returns budget answer budget' →
      (answer = true ↔ Finds runtime.toLowercase needle (leaves value))
  | .string text, budget, answer, budget', h => by
    rw [containsValue] at h
    exact containsKey_spec h
  | .array items, budget, answer, budget', h => by
    rw [containsValue] at h
    obtain ⟨_, _, -, h⟩ := Script.returns_bind.mp h
    exact containsItems_spec items h
  | .object entries, budget, answer, budget', h => by
    rw [containsValue] at h
    obtain ⟨_, _, -, h⟩ := Script.returns_bind.mp h
    exact containsEntries_spec entries h
  | .null, budget, answer, budget', h => by
    rw [containsValue] at h
    exact containsText_spec rfl h
  | .bool value, budget, answer, budget', h => by
    rw [containsValue] at h
    exact containsText_spec rfl h
  | .number number, budget, answer, budget', h => by
    rw [containsValue] at h
    exact containsText_spec rfl h

theorem containsItems_spec : ∀ (items : List Value) {budget answer budget'},
    (containsItems runtime needle items).Returns budget answer budget' →
      (answer = true ↔ Finds runtime.toLowercase needle (leavesItems items))
  | [], budget, answer, budget', h => by
    rw [containsItems] at h
    obtain ⟨rfl, -⟩ := Script.returns_pure.mp h
    simp [Finds, leavesItems]
  | item :: rest, budget, answer, budget', h => by
    rw [containsItems] at h
    exact search_or (containsValue_spec item) (containsItems_spec rest) h

theorem containsEntries_spec : ∀ (entries : List (String × Value)) {budget answer budget'},
    (containsEntries runtime needle entries).Returns budget answer budget' →
      (answer = true ↔ Finds runtime.toLowercase needle (leavesEntries entries))
  | [], budget, answer, budget', h => by
    rw [containsEntries] at h
    obtain ⟨rfl, -⟩ := Script.returns_pure.mp h
    simp [Finds, leavesEntries]
  | (key, value) :: rest, budget, answer, budget', h => by
    rw [containsEntries] at h
    exact search_or containsKey_spec
      (search_or (containsValue_spec value) (containsEntries_spec rest)) h

end

end Found

/-! ## Lower case -/

/-- The characters of a number; an `E` is that of its exponent. -/
theorem mem_chars {number : Number} {c : Char} (hc : c ∈ number.chars) :
    c.isDigit = true ∨ c ∈ ['-', '+', '.', 'e'] ∨
      c = 'E' ∧ ∃ exponent ∈ number.exponent, exponent.upper = true := by
  have hdigits {digits : List (Fin 10)} (hmem : c ∈ digits.map digitChar) : c.isDigit = true := by
    obtain ⟨digit, -, rfl⟩ := List.mem_map.mp hmem
    exact isDigit_digitChar digit
  rw [Number.chars, List.mem_append, List.mem_append, List.mem_append] at hc
  obtain ((hsign | hinteger) | hfraction) | hexponent := hc
  · split at hsign
    · rw [List.mem_singleton.mp hsign]
      exact Or.inr (Or.inl (by decide))
    · cases hsign
  · exact Or.inl (hdigits hinteger)
  · split at hfraction
    · cases hfraction
    · obtain rfl | hmem := List.mem_cons.mp hfraction
      · exact Or.inr (Or.inl (by decide))
      · exact Or.inl (hdigits hmem)
  · split at hexponent
    · cases hexponent
    rename_i exponent hsome
    rw [Exponent.chars, List.cons_append, List.mem_cons, List.mem_append] at hexponent
    obtain hmark | hsign | hmem := hexponent
    · cases hupper : exponent.upper with
      | false =>
        rw [hupper] at hmark
        exact Or.inr (Or.inl (hmark ▸ by decide))
      | true =>
        rw [hupper] at hmark
        exact Or.inr (Or.inr ⟨hmark, exponent, hsome, hupper⟩)
    · split at hsign
      · cases hsign
      · rename_i minus _
        rw [List.mem_singleton.mp hsign]
        cases minus <;> exact Or.inr (Or.inl (by decide))
    · exact Or.inl (hdigits hmem)

section Lower

variable {lower : String → String} {search : String} {value : Value}

mutual

/-- The literals of a value are lower-case ASCII. -/
theorem ascii_literals : ∀ (value : Value) {text : List Char}, Leaf.literal text ∈ leaves value →
    ∀ c ∈ text, c.toNat < 128 ∧ c.toLower = c
  | .string word, text, h => by simp [leaves] at h
  | .array items, text, h => ascii_literalsItems items (by rwa [leaves] at h)
  | .object entries, text, h => ascii_literalsEntries entries (by rwa [leaves] at h)
  | .null, text, h => by
    rw [leaves, List.mem_singleton, Leaf.literal.injEq] at h
    rw [h]
    exact List.all_iff_forall_prop.mp (by decide)
  | .bool value, text, h => by
    rw [leaves, List.mem_singleton, Leaf.literal.injEq] at h
    rw [h]
    cases value <;> exact List.all_iff_forall_prop.mp (by decide)
  | .number number, text, h => by simp [leaves] at h

theorem ascii_literalsItems : ∀ (items : List Value) {text : List Char},
    Leaf.literal text ∈ leavesItems items → ∀ c ∈ text, c.toNat < 128 ∧ c.toLower = c
  | [], text, h => by simp [leavesItems] at h
  | item :: rest, text, h => by
    rw [leavesItems, List.mem_append] at h
    exact h.elim (ascii_literals item) (ascii_literalsItems rest)

theorem ascii_literalsEntries : ∀ (entries : List (String × Value)) {text : List Char},
    Leaf.literal text ∈ leavesEntries entries → ∀ c ∈ text, c.toNat < 128 ∧ c.toLower = c
  | [], text, h => by simp [leavesEntries] at h
  | (key, value) :: rest, text, h => by
    rw [leavesEntries, List.mem_cons, List.mem_append] at h
    obtain h | h | h := h
    · cases h
    · exact ascii_literals value h
    · exact ascii_literalsEntries rest h

end

end Lower

end Rvx.Tables
