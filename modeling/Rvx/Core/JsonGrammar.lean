import Mathlib
import Rvx.Core.NumberText

/-!
# The grammar of JSON texts

A text spells a tree: the blanks between its tokens are dropped, strings stay as they are spelled and
objects keep all members in their order.  The reader finds the tree of exactly the texts that spell
one.
-/

namespace Rvx.Core

/-! ## Strings -/

/-- A character of a string that stands for itself. -/
abbrev IsPlain (c : Char) : Prop := c ≠ quoteChar ∧ c ≠ '\\' ∧ 0x20 ≤ c.toNat

def hexValue? (c : Char) : Option ℕ :=
  if '0' ≤ c ∧ c ≤ '9' then some (c.toNat - 48)
  else if 'a' ≤ c ∧ c ≤ 'f' then some (c.toNat - 87)
  else if 'A' ≤ c ∧ c ≤ 'F' then some (c.toNat - 55)
  else none

/-- The code unit that an escaped letter stands for. -/
def escaped? (c : Char) : Option ℕ :=
  if c = quoteChar ∨ c = '\\' ∨ c = '/' then some c.toNat
  else if c = 'b' then some 0x08
  else if c = 'f' then some 0x0c
  else if c = 'n' then some 0x0a
  else if c = 'r' then some 0x0d
  else if c = 't' then some 0x09
  else none

/-- An element of a string, as it is spelled. -/
inductive Piece where
  | plain (c : Char) (h : IsPlain c)
  | letter (c : Char) (h : (escaped? c).isSome)
  | code (digits : List Char) (hlength : digits.length = 4) (h : ∀ c ∈ digits, (hexValue? c).isSome)
deriving DecidableEq

/-- The UTF-16 code units of a character. -/
def unitsOf (c : Char) : List ℕ :=
  if c.toNat < 0x10000 then [c.toNat]
  else [0xd800 + (c.toNat - 0x10000) / 0x400, 0xdc00 + (c.toNat - 0x10000) % 0x400]

namespace Piece

def chars : Piece → List Char
  | plain c _ => [c]
  | letter c _ => ['\\', c]
  | code digits _ _ => '\\' :: 'u' :: digits

/-- The code units that an element stands for. -/
def units : Piece → List ℕ
  | plain c _ => unitsOf c
  | letter c _ => (escaped? c).toList
  | code digits _ _ => [digits.foldl (fun value c ↦ 16 * value + (hexValue? c).getD 0) 0]

end Piece

/-- The text between the quotation marks. -/
def spelling (pieces : List Piece) : List Char := pieces.flatMap Piece.chars

def quoted (pieces : List Piece) : List Char := quoteChar :: (spelling pieces ++ [quoteChar])

/-- The value of a string, in code units. -/
def decode (pieces : List Piece) : List ℕ := pieces.flatMap Piece.units

/-- A string that has begun, up to its closing quotation mark. -/
def readPieces : List Char → Option (List Piece × List Char)
  | [] => none
  | '\\' :: 'u' :: a :: b :: c :: d :: rest =>
    if h : ∀ digit ∈ [a, b, c, d], (hexValue? digit).isSome then
      (readPieces rest).map fun found ↦ (.code [a, b, c, d] rfl h :: found.1, found.2)
    else none
  | '\\' :: c :: rest =>
    if h : (escaped? c).isSome then
      (readPieces rest).map fun found ↦ (.letter c h :: found.1, found.2)
    else none
  | c :: rest =>
    if c = quoteChar then some ([], rest)
    else if h : IsPlain c then (readPieces rest).map fun found ↦ (.plain c h :: found.1, found.2)
    else none

/-! ## Trees -/

inductive JsonTree where
  | null
  | bool (value : Bool)
  | number (token : Number)
  | string (pieces : List Piece)
  | array (items : List JsonTree)
  | object (members : List (List Piece × JsonTree))

def blanks : List Char := [' ', '\t', '\n', '\r']

/-- White space between tokens. -/
abbrev Blank (text : List Char) : Prop := ∀ c ∈ text, c ∈ blanks

def wordChars : Bool → List Char
  | true => ['t', 'r', 'u', 'e']
  | false => ['f', 'a', 'l', 's', 'e']

/-- What a part of a text spells; items and members are those between two brackets. -/
inductive Part where
  | value (tree : JsonTree)
  | items (items : List JsonTree)
  | members (members : List (List Piece × JsonTree))

/-- A text spells a part. -/
inductive Spells : Part → List Char → Prop where
  | null : Spells (.value .null) ['n', 'u', 'l', 'l']
  | bool (value : Bool) : Spells (.value (.bool value)) (wordChars value)
  | number (token : Number) : Spells (.value (.number token)) token.chars
  | string (pieces : List Piece) : Spells (.value (.string pieces)) (quoted pieces)
  | emptyArray {blank : List Char} (hblank : Blank blank) :
    Spells (.value (.array [])) ('[' :: (blank ++ [']']))
  | array {items : List JsonTree} {text : List Char} (hne : items ≠ [])
    (h : Spells (.items items) text) : Spells (.value (.array items)) ('[' :: (text ++ [']']))
  | emptyObject {blank : List Char} (hblank : Blank blank) :
    Spells (.value (.object [])) ('{' :: (blank ++ ['}']))
  | object {members : List (List Piece × JsonTree)} {text : List Char} (hne : members ≠ [])
    (h : Spells (.members members) text) : Spells (.value (.object members)) ('{' :: (text ++ ['}']))
  | lastItem {item : JsonTree} {before text after : List Char} (hbefore : Blank before)
    (hafter : Blank after) (h : Spells (.value item) text) :
    Spells (.items [item]) (before ++ (text ++ after))
  | item {item : JsonTree} {items : List JsonTree} {before text after rest : List Char}
    (hbefore : Blank before) (hafter : Blank after) (h : Spells (.value item) text)
    (hne : items ≠ []) (hrest : Spells (.items items) rest) :
    Spells (.items (item :: items)) (before ++ (text ++ (after ++ ',' :: rest)))
  | lastMember {key : List Piece} {value : JsonTree} {before middle next text after : List Char}
    (hbefore : Blank before) (hmiddle : Blank middle) (hnext : Blank next) (hafter : Blank after)
    (h : Spells (.value value) text) :
    Spells (.members [(key, value)])
      (before ++ (quoted key ++ (middle ++ ':' :: (next ++ (text ++ after)))))
  | member {key : List Piece} {value : JsonTree} {members : List (List Piece × JsonTree)}
    {before middle next text after rest : List Char} (hbefore : Blank before)
    (hmiddle : Blank middle) (hnext : Blank next) (hafter : Blank after)
    (h : Spells (.value value) text) (hne : members ≠ []) (hrest : Spells (.members members) rest) :
    Spells (.members ((key, value) :: members))
      (before ++ (quoted key ++ (middle ++ ':' :: (next ++ (text ++ (after ++ ',' :: rest))))))

/-! ## The reader -/

def skipBlank (text : List Char) : List Char := text.dropWhile fun c ↦ c ∈ blanks

/-- What follows a character, after blanks. -/
def expect (wanted : Char) (text : List Char) : Option (List Char) :=
  match skipBlank text with
  | [] => none
  | c :: rest => if c = wanted then some rest else none

def isNumberChar (c : Char) : Bool := c.isDigit || c ∈ ['+', '-', '.', 'e', 'E']

def readNumber (text : List Char) : Option (JsonTree × List Char) :=
  (Number.read (text.takeWhile isNumberChar)).map fun token ↦
    (.number token, text.dropWhile isNumberChar)

def readWord : List Char → Option (JsonTree × List Char)
  | 'n' :: 'u' :: 'l' :: 'l' :: rest => some (.null, rest)
  | 't' :: 'r' :: 'u' :: 'e' :: rest => some (.bool true, rest)
  | 'f' :: 'a' :: 'l' :: 's' :: 'e' :: rest => some (.bool false, rest)
  | _ => none

mutual

def readValue : ℕ → List Char → Option (JsonTree × List Char)
  | 0, _ => none
  | _ + 1, [] => none
  | fuel + 1, c :: rest =>
    if c = quoteChar then (readPieces rest).map fun found ↦ (.string found.1, found.2)
    else if c = '[' then
      match expect ']' rest with
      | some rest => some (.array [], rest)
      | none => (readItems fuel rest).map fun found ↦ (.array found.1, found.2)
    else if c = '{' then
      match expect '}' rest with
      | some rest => some (.object [], rest)
      | none => (readMembers fuel rest).map fun found ↦ (.object found.1, found.2)
    else if isNumberChar c then readNumber (c :: rest)
    else readWord (c :: rest)

def readItems : ℕ → List Char → Option (List JsonTree × List Char)
  | 0, _ => none
  | fuel + 1, text => do
    let (item, text) ← readValue fuel (skipBlank text)
    match expect ',' text with
    | some text => (readItems fuel text).map fun found ↦ (item :: found.1, found.2)
    | none => (expect ']' text).map fun text ↦ ([item], text)

def readMembers : ℕ → List Char → Option (List (List Piece × JsonTree) × List Char)
  | 0, _ => none
  | fuel + 1, text => do
    let (key, text) ← (expect quoteChar text).bind readPieces
    let text ← expect ':' text
    let (value, text) ← readValue fuel (skipBlank text)
    match expect ',' text with
    | some text => (readMembers fuel text).map fun found ↦ ((key, value) :: found.1, found.2)
    | none => (expect '}' text).map fun text ↦ ([(key, value)], text)

end

/-- The tree of a whole text; every step of the reader takes a character. -/
def readText (text : List Char) : Option JsonTree :=
  (readValue (2 * text.length + 1) (skipBlank text)).bind fun found ↦
    if skipBlank found.2 = [] then some found.1 else none

/-! ## Blanks -/

theorem skipBlank_append {blank : List Char} (h : Blank blank) (rest : List Char) :
    skipBlank (blank ++ rest) = skipBlank rest :=
  List.dropWhile_append_of_pos (by simpa using h)

theorem skipBlank_cons {c : Char} (h : c ∉ blanks) (rest : List Char) :
    skipBlank (c :: rest) = c :: rest := by
  rw [skipBlank, List.dropWhile_cons_of_neg (by simpa using h)]

theorem exists_blank (text : List Char) :
    ∃ blank, Blank blank ∧ text = blank ++ skipBlank text := by
  refine ⟨text.takeWhile fun c ↦ c ∈ blanks, fun c hc ↦ ?_, List.takeWhile_append_dropWhile.symm⟩
  simpa using List.mem_takeWhile_imp hc

theorem expect_blank {wanted c : Char} {blank : List Char} (hblank : Blank blank) (hc : c ∉ blanks)
    (rest : List Char) :
    expect wanted (blank ++ c :: rest) = if c = wanted then some rest else none := by
  unfold expect
  rw [skipBlank_append hblank, skipBlank_cons hc]

theorem expect_eq_some {wanted : Char} {text rest : List Char}
    (h : expect wanted text = some rest) :
    ∃ blank, Blank blank ∧ text = blank ++ wanted :: rest := by
  obtain ⟨blank, hblank, htext⟩ := exists_blank text
  unfold expect at h
  split at h
  · cases h
  · rename_i c rest' hskip
    obtain ⟨rfl, rfl⟩ := Option.ite_none_right_eq_some.mp h |>.imp_right Option.some.inj
    rw [hskip] at htext
    exact ⟨blank, hblank, htext⟩

/-! ## Strings are read back -/

theorem readPieces_spelling (pieces : List Piece) (rest : List Char) :
    readPieces (spelling pieces ++ quoteChar :: rest) = some (pieces, rest) := by
  induction pieces with
  | nil => simp [spelling, readPieces, quoteChar]
  | cons piece pieces ih =>
    rw [spelling, List.flatMap_cons, List.append_assoc, ← spelling]
    cases piece with
    | plain c h =>
      obtain ⟨hquote, hescape, -⟩ := id h
      rw [Piece.chars, List.singleton_append, readPieces, if_neg hquote, dif_pos h, ih]
      · rfl
      · exact fun _ _ _ _ _ heq _ ↦ hescape heq
      · exact fun _ _ heq _ ↦ hescape heq
    | letter c h =>
      have hne : c ≠ 'u' := by
        rintro rfl
        exact absurd h (by decide)
      rw [Piece.chars, List.cons_append, List.singleton_append, readPieces, dif_pos h, ih]
      · rfl
      · exact fun _ _ _ _ _ heq _ ↦ hne heq
    | code digits hlength h =>
      obtain ⟨a, b, c, d, rfl⟩ := List.length_eq_four.mp hlength
      simp only [Piece.chars, List.cons_append, List.nil_append]
      rw [readPieces, dif_pos h, ih]
      rfl

theorem spelling_of_readPieces {text rest : List Char} {pieces : List Piece}
    (h : readPieces text = some (pieces, rest)) : text = spelling pieces ++ quoteChar :: rest := by
  induction text using readPieces.induct generalizing pieces with
  | case1 => cases h
  | case2 a b c d text hdigits ih =>
    rw [readPieces, dif_pos hdigits] at h
    obtain ⟨found, hfound, heq⟩ := Option.map_eq_some_iff.mp h
    obtain ⟨rfl, rfl⟩ := Prod.mk.inj heq
    rw [ih hfound]
    rfl
  | case3 a b c d text hdigits =>
    rw [readPieces, dif_neg hdigits] at h
    cases h
  | case4 c text hne hletter ih =>
    rw [readPieces, dif_pos hletter] at h
    · obtain ⟨found, hfound, heq⟩ := Option.map_eq_some_iff.mp h
      obtain ⟨rfl, rfl⟩ := Prod.mk.inj heq
      rw [ih hfound]
      rfl
    · exact hne
  | case5 c text hne hletter =>
    rw [readPieces, dif_neg hletter] at h
    · cases h
    · exact hne
  | case6 text hne hne' =>
    rw [readPieces, if_pos rfl] at h
    · obtain ⟨rfl, rfl⟩ := Prod.mk.inj (Option.some.inj h)
      rfl
    · exact hne
    · exact hne'
  | case7 c text hne hne' hquote hplain ih =>
    rw [readPieces, if_neg hquote, dif_pos hplain] at h
    · obtain ⟨found, hfound, heq⟩ := Option.map_eq_some_iff.mp h
      obtain ⟨rfl, rfl⟩ := Prod.mk.inj heq
      rw [ih hfound]
      rfl
    · exact hne
    · exact hne'
  | case8 c text hne hne' hquote hplain =>
    rw [readPieces, if_neg hquote, dif_neg hplain] at h
    · cases h
    · exact hne
    · exact hne'

/-! ## Numbers are read back -/

theorem isNumberChar_iff (c : Char) : isNumberChar c = true ↔ IsNumberChar c := by
  simp [isNumberChar, IsNumberChar]

theorem isNumberChar_digitChar (digit : Fin 10) : isNumberChar (digitChar digit) = true := by
  rw [isNumberChar, isDigit_digitChar, Bool.true_or]

theorem isNumberChar_exponent (exponent : Exponent) :
    ∀ c ∈ exponent.chars, isNumberChar c = true := by
  have hmarks : ∀ c ∈ ['e', 'E', '+', '-'], isNumberChar c = true := by simp [isNumberChar]
  intro c hc
  rw [Exponent.chars_eq, List.mem_cons, List.mem_append] at hc
  obtain rfl | hsign | hdigits := hc
  · cases exponent.upper
    · exact hmarks 'e' (by simp)
    · exact hmarks 'E' (by simp)
  · apply hmarks
    rcases hsigned : exponent.sign with _ | _ | _
    all_goals
      rw [hsigned] at hsign
      simp [Exponent.signChars] at hsign
    all_goals simp [hsign]
  · obtain ⟨digit, -, rfl⟩ := List.mem_map.mp hdigits
    exact isNumberChar_digitChar digit

theorem isNumberChar_chars (token : Number) : ∀ c ∈ token.chars, isNumberChar c = true := by
  have hdigits (digits : List (Fin 10)) : ∀ c ∈ digits.map digitChar, isNumberChar c = true := by
    intro c hc
    obtain ⟨digit, -, rfl⟩ := List.mem_map.mp hc
    exact isNumberChar_digitChar digit
  have hparts := token.chars_append []
  rw [List.append_nil, List.append_nil] at hparts
  intro c hc
  rw [hparts] at hc
  simp only [List.mem_append] at hc
  obtain hsign | hinteger | hfraction | hexponent := hc
  · cases hnegative : token.negative with
    | false => simp [hnegative] at hsign
    | true =>
      obtain rfl : c = '-' := by simpa [hnegative] using hsign
      decide
  · exact hdigits _ c hinteger
  · unfold Number.fractionChars at hfraction
    cases hsome : token.fraction with
    | none => simp [hsome] at hfraction
    | some digits =>
      rw [hsome] at hfraction
      obtain rfl | hmem := List.mem_cons.mp hfraction
      · decide
      · exact hdigits digits c hmem
  · unfold Number.exponentChars at hexponent
    cases hsome : token.exponent with
    | none => simp [hsome] at hexponent
    | some exponent =>
      rw [hsome] at hexponent
      exact isNumberChar_exponent exponent c hexponent

theorem chars_ne_nil (token : Number) : token.chars ≠ [] := by
  have hparts := token.chars_append []
  rw [List.append_nil] at hparts
  rw [hparts]
  simp [token.integer_ne_nil]

theorem readNumber_chars (token : Number) {rest : List Char} (h : NoNumber rest) :
    readNumber (token.chars ++ rest) = some (.number token, rest) := by
  have hstop : rest.takeWhile isNumberChar = [] ∧ rest.dropWhile isNumberChar = rest := by
    cases rest with
    | nil => exact ⟨rfl, rfl⟩
    | cons c rest =>
      have hc : ¬ isNumberChar c = true :=
        mt (isNumberChar_iff c).mp (by simpa using h)
      exact ⟨List.takeWhile_cons_of_neg hc, List.dropWhile_cons_of_neg hc⟩
  unfold readNumber
  rw [List.takeWhile_append_of_pos (isNumberChar_chars token),
    List.dropWhile_append_of_pos (isNumberChar_chars token), hstop.1, hstop.2, List.append_nil,
    Number.read_chars]
  rfl

theorem chars_of_readNumber {text rest : List Char} {tree : JsonTree}
    (h : readNumber text = some (tree, rest)) :
    ∃ token, tree = .number token ∧ text = token.chars ++ rest := by
  obtain ⟨token, htoken, heq⟩ := Option.map_eq_some_iff.mp h
  obtain ⟨rfl, rfl⟩ := Prod.mk.inj heq
  refine ⟨token, rfl, ?_⟩
  rw [Number.chars_of_read htoken, List.takeWhile_append_dropWhile]

/-! ## What the grammar spells is read -/

theorem not_isNumberChar_of_blank {c : Char} (h : c ∈ blanks) : ¬ IsNumberChar c := by
  rw [← isNumberChar_iff]
  have hblanks : ∀ c ∈ blanks, ¬ isNumberChar c = true := by
    simp [blanks, isNumberChar, Char.isDigit]
  exact hblanks c h

theorem noNumber_blank {blank rest : List Char} (h : Blank blank) (hrest : NoNumber rest) :
    NoNumber (blank ++ rest) := by
  cases blank with
  | nil => exact hrest
  | cons c blank =>
    rw [List.cons_append, NoNumber, Printer.avoids_cons]
    exact not_isNumberChar_of_blank (h c List.mem_cons_self)

/-- The first character of a value announces it. -/
theorem Spells.start {part : Part} {text : List Char} (h : Spells part text) :
    ∀ tree, part = .value tree → ∃ c rest, text = c :: rest ∧ c ∉ blanks ∧ c ≠ ']' := by
  cases h with
  | null => exact fun _ _ ↦ ⟨_, _, rfl, by decide, by decide⟩
  | bool value =>
    cases value
    · exact fun _ _ ↦ ⟨_, _, rfl, by decide, by decide⟩
    · exact fun _ _ ↦ ⟨_, _, rfl, by decide, by decide⟩
  | number token =>
    obtain ⟨c, rest, hchars⟩ := List.exists_cons_of_ne_nil (chars_ne_nil token)
    have hc : isNumberChar c = true :=
      isNumberChar_chars token c (hchars ▸ List.mem_cons_self)
    refine fun _ _ ↦ ⟨c, rest, hchars, fun hblank ↦ ?_, ?_⟩
    · exact not_isNumberChar_of_blank hblank ((isNumberChar_iff c).mp hc)
    · rintro rfl
      exact absurd hc (by decide)
  | string pieces => exact fun _ _ ↦ ⟨_, _, rfl, by decide, by decide⟩
  | emptyArray | array => exact fun _ _ ↦ ⟨_, _, rfl, by decide, by decide⟩
  | emptyObject | object => exact fun _ _ ↦ ⟨_, _, rfl, by decide, by decide⟩
  | lastItem | item | lastMember | member => exact fun _ heq ↦ by cases heq

theorem Spells.items_start {items : List JsonTree} {text : List Char}
    (h : Spells (.items items) text) :
    ∃ blank c rest, Blank blank ∧ text = blank ++ c :: rest ∧ c ∉ blanks ∧ c ≠ ']' := by
  cases h with
  | lastItem hbefore _ hitem =>
    obtain ⟨c, rest, rfl, hc, hne⟩ := hitem.start _ rfl
    exact ⟨_, c, _, hbefore, rfl, hc, hne⟩
  | item hbefore _ hitem =>
    obtain ⟨c, rest, rfl, hc, hne⟩ := hitem.start _ rfl
    exact ⟨_, c, _, hbefore, rfl, hc, hne⟩

theorem Spells.members_start {members : List (List Piece × JsonTree)} {text : List Char}
    (h : Spells (.members members) text) :
    ∃ blank rest, Blank blank ∧ text = blank ++ quoteChar :: rest := by
  cases h with
  | lastMember hbefore => exact ⟨_, _, hbefore, rfl⟩
  | member hbefore => exact ⟨_, _, hbefore, rfl⟩

/-- A part is read, with enough fuel, whatever follows it. -/
def Reads : Part → List Char → Prop
  | .value tree, text => ∀ fuel rest, 2 * text.length < fuel → NoNumber rest →
    readValue fuel (text ++ rest) = some (tree, rest)
  | .items items, text => ∀ fuel rest, 2 * text.length + 1 < fuel →
    readItems fuel (text ++ ']' :: rest) = some (items, rest)
  | .members members, text => ∀ fuel rest, 2 * text.length + 1 < fuel →
    readMembers fuel (text ++ '}' :: rest) = some (members, rest)

/-- The value after some blanks. -/
theorem readValue_blank {tree : JsonTree} {before text rest : List Char} (fuel : ℕ)
    (hbefore : Blank before) (h : Spells (.value tree) text) (hread : Reads (.value tree) text)
    (hfuel : 2 * text.length < fuel) (hrest : NoNumber rest) :
    readValue fuel (skipBlank (before ++ (text ++ rest))) = some (tree, rest) := by
  obtain ⟨c, text', rfl, hc, -⟩ := h.start tree rfl
  rw [skipBlank_append hbefore, List.cons_append, skipBlank_cons hc, ← List.cons_append]
  exact hread fuel rest hfuel hrest

theorem readMembers_key {key : List Piece} {before middle text : List Char} {fuel : ℕ}
    (hbefore : Blank before) (hmiddle : Blank middle) :
    readMembers (fuel + 1) (before ++ (quoted key ++ (middle ++ ':' :: text))) =
      (do
        let (value, text) ← readValue fuel (skipBlank text)
        match expect ',' text with
        | some text => (readMembers fuel text).map fun found ↦ ((key, value) :: found.1, found.2)
        | none => (expect '}' text).map fun text ↦ ([(key, value)], text)) := by
  rw [readMembers, quoted, List.cons_append, expect_blank hbefore (by decide), if_pos rfl,
    Option.bind_some, List.append_assoc, List.singleton_append, readPieces_spelling]
  simp only [Option.bind_eq_bind, Option.bind_some]
  rw [expect_blank hmiddle (by decide), if_pos rfl, Option.bind_some]

theorem Spells.reads {part : Part} {text : List Char} (h : Spells part text) : Reads part text := by
  induction h with
  | null =>
    intro fuel rest hfuel _
    obtain ⟨fuel, rfl⟩ := Nat.exists_eq_succ_of_ne_zero (Nat.ne_zero_of_lt hfuel)
    rfl
  | bool value =>
    intro fuel rest hfuel _
    obtain ⟨fuel, rfl⟩ := Nat.exists_eq_succ_of_ne_zero (Nat.ne_zero_of_lt hfuel)
    cases value <;> rfl
  | number token =>
    intro fuel rest hfuel hrest
    obtain ⟨fuel, rfl⟩ := Nat.exists_eq_succ_of_ne_zero (Nat.ne_zero_of_lt hfuel)
    obtain ⟨c, chars, hchars⟩ := List.exists_cons_of_ne_nil (chars_ne_nil token)
    have hc : isNumberChar c = true :=
      isNumberChar_chars token c (hchars ▸ List.mem_cons_self)
    have hread := readNumber_chars token hrest
    rw [hchars, List.cons_append] at hread ⊢
    have hne {d : Char} (hd : ¬ isNumberChar d = true) : c ≠ d := fun heq ↦ hd (heq ▸ hc)
    rw [readValue, if_neg (hne (by decide)), if_neg (hne (by decide)), if_neg (hne (by decide)),
      if_pos hc, hread]
  | string pieces =>
    intro fuel rest hfuel _
    obtain ⟨fuel, rfl⟩ := Nat.exists_eq_succ_of_ne_zero (Nat.ne_zero_of_lt hfuel)
    rw [quoted, List.cons_append, List.append_assoc, List.singleton_append, readValue, if_pos rfl,
      readPieces_spelling]
    rfl
  | emptyArray hblank =>
    intro fuel rest hfuel _
    obtain ⟨fuel, rfl⟩ := Nat.exists_eq_succ_of_ne_zero (Nat.ne_zero_of_lt hfuel)
    rw [List.cons_append, List.append_assoc, List.singleton_append, readValue, if_neg (by decide),
      if_pos rfl, expect_blank hblank (by decide), if_pos rfl]
  | @array items text hne hitems ih =>
    intro fuel rest hfuel _
    obtain ⟨fuel, rfl⟩ := Nat.exists_eq_succ_of_ne_zero (Nat.ne_zero_of_lt hfuel)
    have hread := ih fuel rest (by simp at hfuel; omega)
    obtain ⟨blank, c, rest', hblank, rfl, hc, hclose⟩ := hitems.items_start
    rw [List.cons_append, List.append_assoc, List.singleton_append, readValue, if_neg (by decide),
      if_pos rfl, hread, List.append_assoc, List.cons_append, expect_blank hblank hc, if_neg hclose]
    rfl
  | emptyObject hblank =>
    intro fuel rest hfuel _
    obtain ⟨fuel, rfl⟩ := Nat.exists_eq_succ_of_ne_zero (Nat.ne_zero_of_lt hfuel)
    rw [List.cons_append, List.append_assoc, List.singleton_append, readValue, if_neg (by decide),
      if_neg (by decide), if_pos rfl, expect_blank hblank (by decide), if_pos rfl]
  | @object members text hne hmembers ih =>
    intro fuel rest hfuel _
    obtain ⟨fuel, rfl⟩ := Nat.exists_eq_succ_of_ne_zero (Nat.ne_zero_of_lt hfuel)
    have hread := ih fuel rest (by simp at hfuel; omega)
    obtain ⟨blank, rest', hblank, rfl⟩ := hmembers.members_start
    rw [List.cons_append, List.append_assoc, List.singleton_append, readValue, if_neg (by decide),
      if_neg (by decide), if_pos rfl, hread, List.append_assoc, List.cons_append,
      expect_blank hblank (by decide), if_neg (by decide)]
    rfl
  | @lastItem item before text after hbefore hafter hitem ih =>
    intro fuel rest hfuel
    obtain ⟨fuel, rfl⟩ := Nat.exists_eq_succ_of_ne_zero (Nat.ne_zero_of_lt hfuel)
    have hread := readValue_blank fuel hbefore hitem ih (by simp at hfuel; omega)
      (noNumber_blank hafter (Value.noNumber_bracket rest))
    simp only [List.append_assoc]
    rw [readItems, hread, Option.bind_eq_bind, Option.bind_some]
    dsimp only
    rw [expect_blank hafter (by decide), if_neg (by decide), expect_blank hafter (by decide),
      if_pos rfl]
    rfl
  | @item item items before text after rest hbefore hafter hitem hne hitems ih ihrest =>
    intro fuel rest' hfuel
    obtain ⟨fuel, rfl⟩ := Nat.exists_eq_succ_of_ne_zero (Nat.ne_zero_of_lt hfuel)
    have hread := readValue_blank fuel hbefore hitem ih (by simp at hfuel; omega)
      (noNumber_blank hafter (Value.noNumber_comma (rest ++ ']' :: rest')))
    simp only [List.append_assoc, List.cons_append]
    rw [readItems, hread, Option.bind_eq_bind, Option.bind_some]
    dsimp only
    rw [expect_blank hafter (by decide), if_pos rfl]
    dsimp only
    rw [ihrest fuel rest' (by simp at hfuel; omega)]
    rfl
  | @lastMember key value before middle next text after hbefore hmiddle hnext hafter hvalue ih =>
    intro fuel rest hfuel
    obtain ⟨fuel, rfl⟩ := Nat.exists_eq_succ_of_ne_zero (Nat.ne_zero_of_lt hfuel)
    have hread := readValue_blank fuel hnext hvalue ih (by simp at hfuel; omega)
      (noNumber_blank hafter (Value.noNumber_brace rest))
    simp only [List.append_assoc, List.cons_append]
    rw [readMembers_key hbefore hmiddle, hread, Option.bind_eq_bind, Option.bind_some]
    dsimp only
    rw [expect_blank hafter (by decide), if_neg (by decide), expect_blank hafter (by decide),
      if_pos rfl]
    rfl
  | @member key value members before middle next text after rest hbefore hmiddle hnext hafter hvalue
      hne hmembers ih ihrest =>
    intro fuel rest' hfuel
    obtain ⟨fuel, rfl⟩ := Nat.exists_eq_succ_of_ne_zero (Nat.ne_zero_of_lt hfuel)
    have hread := readValue_blank fuel hnext hvalue ih (by simp at hfuel; omega)
      (noNumber_blank hafter (Value.noNumber_comma (rest ++ '}' :: rest')))
    simp only [List.append_assoc, List.cons_append]
    rw [readMembers_key hbefore hmiddle, hread, Option.bind_eq_bind, Option.bind_some]
    dsimp only
    rw [expect_blank hafter (by decide), if_pos rfl]
    dsimp only
    rw [ihrest fuel rest' (by simp at hfuel; omega)]
    rfl

/-! ## What is read is spelled -/

theorem spells_of_readWord {text rest : List Char} {tree : JsonTree}
    (h : readWord text = some (tree, rest)) :
    ∃ lexeme, text = lexeme ++ rest ∧ Spells (.value tree) lexeme := by
  unfold readWord at h
  split at h
  · obtain ⟨rfl, rfl⟩ := Prod.mk.inj (Option.some.inj h)
    exact ⟨_, rfl, .null⟩
  · obtain ⟨rfl, rfl⟩ := Prod.mk.inj (Option.some.inj h)
    exact ⟨_, rfl, .bool true⟩
  · obtain ⟨rfl, rfl⟩ := Prod.mk.inj (Option.some.inj h)
    exact ⟨_, rfl, .bool false⟩
  · cases h

/-- What the reader returns with this fuel is spelled by what it took. -/
structure ReadsSpelled (fuel : ℕ) : Prop where
  value : ∀ text tree rest, readValue fuel text = some (tree, rest) →
    ∃ lexeme, text = lexeme ++ rest ∧ Spells (.value tree) lexeme
  items : ∀ text items rest, readItems fuel text = some (items, rest) →
    items ≠ [] ∧ ∃ lexeme, text = lexeme ++ ']' :: rest ∧ Spells (.items items) lexeme
  members : ∀ text members rest, readMembers fuel text = some (members, rest) →
    members ≠ [] ∧ ∃ lexeme, text = lexeme ++ '}' :: rest ∧ Spells (.members members) lexeme

theorem readsSpelled (fuel : ℕ) : ReadsSpelled fuel := by
  induction fuel with
  | zero =>
    constructor
    · rintro text tree rest ⟨⟩
    · rintro text items rest ⟨⟩
    · rintro text members rest ⟨⟩
  | succ fuel ih =>
    constructor
    · intro text tree rest h
      cases text with
      | nil => cases h
      | cons c text =>
        rw [readValue] at h
        split_ifs at h with hquote hopen hbrace hnumber
        · obtain ⟨found, hfound, heq⟩ := Option.map_eq_some_iff.mp h
          obtain ⟨rfl, rfl⟩ := Prod.mk.inj heq
          refine ⟨quoted found.1, ?_, .string found.1⟩
          rw [hquote, spelling_of_readPieces hfound]
          simp [quoted]
        · subst hopen
          split at h
          · rename_i rest' hclose
            obtain ⟨rfl, rfl⟩ := Prod.mk.inj (Option.some.inj h)
            obtain ⟨blank, hblank, rfl⟩ := expect_eq_some hclose
            exact ⟨'[' :: (blank ++ [']']), by simp, .emptyArray hblank⟩
          · obtain ⟨found, hfound, heq⟩ := Option.map_eq_some_iff.mp h
            obtain ⟨rfl, rfl⟩ := Prod.mk.inj heq
            obtain ⟨hne, lexeme, rfl, hspells⟩ := ih.items _ _ _ hfound
            exact ⟨'[' :: (lexeme ++ [']']), by simp, .array hne hspells⟩
        · subst hbrace
          split at h
          · rename_i rest' hclose
            obtain ⟨rfl, rfl⟩ := Prod.mk.inj (Option.some.inj h)
            obtain ⟨blank, hblank, rfl⟩ := expect_eq_some hclose
            exact ⟨'{' :: (blank ++ ['}']), by simp, .emptyObject hblank⟩
          · obtain ⟨found, hfound, heq⟩ := Option.map_eq_some_iff.mp h
            obtain ⟨rfl, rfl⟩ := Prod.mk.inj heq
            obtain ⟨hne, lexeme, rfl, hspells⟩ := ih.members _ _ _ hfound
            exact ⟨'{' :: (lexeme ++ ['}']), by simp, .object hne hspells⟩
        · obtain ⟨token, rfl, htext⟩ := chars_of_readNumber h
          exact ⟨token.chars, htext, .number token⟩
        · exact spells_of_readWord h
    · intro text items rest h
      obtain ⟨before, hbefore, htext⟩ := exists_blank text
      rw [readItems] at h
      obtain ⟨⟨item, text'⟩, hitem, h⟩ := Option.bind_eq_some_iff.mp h
      obtain ⟨lexeme, hlexeme, hspells⟩ := ih.value _ _ _ hitem
      rw [hlexeme] at htext
      dsimp only at h
      split at h
      · rename_i text'' hcomma
        obtain ⟨after, hafter, rfl⟩ := expect_eq_some hcomma
        obtain ⟨found, hfound, heq⟩ := Option.map_eq_some_iff.mp h
        obtain ⟨rfl, rfl⟩ := Prod.mk.inj heq
        obtain ⟨hne, lexeme', rfl, hrest⟩ := ih.items _ _ _ hfound
        refine ⟨List.cons_ne_nil _ _, before ++ (lexeme ++ (after ++ ',' :: lexeme')), ?_,
          .item hbefore hafter hspells hne hrest⟩
        simp [htext]
      · obtain ⟨text'', hclose, heq⟩ := Option.map_eq_some_iff.mp h
        obtain ⟨rfl, rfl⟩ := Prod.mk.inj heq
        obtain ⟨after, hafter, rfl⟩ := expect_eq_some hclose
        refine ⟨List.cons_ne_nil _ _, before ++ (lexeme ++ after), ?_,
          .lastItem hbefore hafter hspells⟩
        simp [htext]
    · intro text members rest h
      rw [readMembers] at h
      obtain ⟨⟨key, text'⟩, hkey, hafterKey⟩ := Option.bind_eq_some_iff.mp h
      obtain ⟨spelled, hquote, hpieces⟩ := Option.bind_eq_some_iff.mp hkey
      obtain ⟨before, hbefore, hbegin⟩ := expect_eq_some hquote
      have hspelled := spelling_of_readPieces hpieces
      obtain ⟨text'', hcolon, hafterColon⟩ := Option.bind_eq_some_iff.mp hafterKey
      obtain ⟨middle, hmiddle, hcolonText⟩ := expect_eq_some hcolon
      obtain ⟨⟨value, text₃⟩, hvalue, hafterValue⟩ := Option.bind_eq_some_iff.mp hafterColon
      obtain ⟨next, hnext, htext⟩ := exists_blank text''
      obtain ⟨lexeme, hlexeme, hspells⟩ := ih.value _ _ _ hvalue
      rw [hlexeme] at htext
      rw [hspelled, hcolonText, htext] at hbegin
      dsimp only at hafterValue
      split at hafterValue
      · rename_i rest' hcomma
        obtain ⟨after, hafter, rfl⟩ := expect_eq_some hcomma
        obtain ⟨found, hfound, heq⟩ := Option.map_eq_some_iff.mp hafterValue
        obtain ⟨rfl, rfl⟩ := Prod.mk.inj heq
        obtain ⟨hne, lexeme', rfl, hrest⟩ := ih.members _ _ _ hfound
        refine ⟨List.cons_ne_nil _ _, before ++ (quoted key ++ (middle ++ ':' :: (next ++
          (lexeme ++ (after ++ ',' :: lexeme'))))), ?_,
          .member hbefore hmiddle hnext hafter hspells hne hrest⟩
        simp [hbegin, quoted]
      · obtain ⟨rest', hclose, heq⟩ := Option.map_eq_some_iff.mp hafterValue
        obtain ⟨rfl, rfl⟩ := Prod.mk.inj heq
        obtain ⟨after, hafter, rfl⟩ := expect_eq_some hclose
        refine ⟨List.cons_ne_nil _ _, before ++ (quoted key ++ (middle ++ ':' :: (next ++
          (lexeme ++ after)))), ?_, .lastMember hbefore hmiddle hnext hafter hspells⟩
        simp [hbegin, quoted]

/-! ## Whole texts -/

theorem noNumber_of_blank {blank : List Char} (h : Blank blank) : NoNumber blank := by
  have hblank := noNumber_blank h Printer.avoids_nil
  rwa [List.append_nil] at hblank

/-- Exactly the texts that spell a value, between blanks, are read. -/
theorem readText_eq_some {text : List Char} {tree : JsonTree} :
    readText text = some tree ↔ ∃ before lexeme after, Blank before ∧ Blank after ∧
      text = before ++ (lexeme ++ after) ∧ Spells (.value tree) lexeme := by
  unfold readText
  constructor
  · intro h
    obtain ⟨⟨found, rest⟩, hfound, h⟩ := Option.bind_eq_some_iff.mp h
    obtain ⟨hend, hsome⟩ := Option.ite_none_right_eq_some.mp h
    obtain rfl := Option.some.inj hsome
    obtain ⟨before, hbefore, htext⟩ := exists_blank text
    obtain ⟨lexeme, hlexeme, hspells⟩ := (readsSpelled _).value _ _ _ hfound
    obtain ⟨after, hafter, hrest⟩ := exists_blank rest
    rw [hend, List.append_nil] at hrest
    rw [hlexeme, hrest] at htext
    exact ⟨before, lexeme, after, hbefore, hafter, htext, hspells⟩
  · rintro ⟨before, lexeme, after, hbefore, hafter, rfl, hspells⟩
    have hread := readValue_blank (2 * (before ++ (lexeme ++ after)).length + 1) hbefore hspells
      hspells.reads (by simp; omega) (noNumber_of_blank hafter)
    have hend : skipBlank after = [] := by
      have hskip := skipBlank_append hafter []
      rwa [List.append_nil] at hskip
    rw [hread, Option.bind_some, if_pos hend]

end Rvx.Core
