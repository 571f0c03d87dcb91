import Rvx.Core.JsonGrammar
import Rvx.Lib.Check
import Rvx.Lib.StableSort

/-!
# Exact numbers in responses

A parsed response holds doubles.  Beside every object and array it keeps the texts of the numbers
that a double would print differently, and writing uses these texts while the numbers are unchanged.
So what is written of a parsed text is the value of that text, with every number as it was spelled.
-/

namespace Rvx.Web.ExactJson

open Core StableSort

/-! ## Objects of a script -/

/-- The key of an array's item. -/
def indexKey (n : ℕ) : List ℕ := (printNat n).map Char.toNat

/-- The array index that a key is. -/
def index? (key : List ℕ) : Option ℕ :=
  let n := key.foldl (fun value unit ↦ 10 * value + (unit - 48)) 0
  if key = indexKey n ∧ n < 2 ^ 32 - 1 then some n else none

/-- Indices are enumerated first, by size. -/
def keyRank (key : List ℕ) : ℕ := (index? key).getD (2 ^ 32)

section Properties

variable {α : Type}

def setProperty (key : List ℕ) (value : α) : List (List ℕ × α) → List (List ℕ × α)
  | [] => [(key, value)]
  | (other, old) :: rest =>
    if other = key then (key, value) :: rest else (other, old) :: setProperty key value rest

/-- The properties of an object with these members; the last one of a key counts. -/
def properties (members : List (List ℕ × α)) : List (List ℕ × α) :=
  sortOn (fun entry ↦ keyRank entry.1)
    (members.foldl (fun entries member ↦ setProperty member.1 member.2 entries) [])

def lookup (key : List ℕ) (entries : List (List ℕ × α)) : Option α :=
  (entries.find? fun entry ↦ entry.1 = key).map Prod.snd

end Properties

/-! ## Native parsing -/

/-- What a text denotes: strings are decoded and every key counts once. -/
inductive Datum where
  | null
  | bool (value : Bool)
  | number (token : Number)
  | string (units : List ℕ)
  | array (items : List Datum)
  | object (entries : List (List ℕ × Datum))

mutual

def meaning : JsonTree → Datum
  | .null => .null
  | .bool value => .bool value
  | .number token => .number token
  | .string pieces => .string (decode pieces)
  | .array items => .array (meaningItems items)
  | .object members => .object (properties (meaningMembers members))

def meaningItems : List JsonTree → List Datum
  | [] => []
  | item :: rest => meaning item :: meaningItems rest

def meaningMembers : List (List Piece × JsonTree) → List (List ℕ × Datum)
  | [] => []
  | (key, value) :: rest => (decode key, meaning value) :: meaningMembers rest

end

/-- A parsed value; `sources` are the texts kept beside an object or an array. -/
inductive JsValue (ν : Type) where
  | null
  | bool (value : Bool)
  | number (value : ν)
  | string (units : List ℕ)
  | array (items : List (JsValue ν)) (sources : List (List ℕ × List Char))
  | object (entries : List (List ℕ × JsValue ν)) (sources : List (List ℕ × List Char))

/-- `Number(text)` and `String(value)`; only a finite number is printed as a token. -/
structure Numerals (ν : Type) where
  ofText : List Char → ν
  toText : ν → List Char
  isFinite : ν → Bool
  isFinite_of_token : ∀ value (token : Number), toText value = token.chars → isFinite value = true

/-- What the browser supports. -/
structure Native where
  sourceContext : Bool
  rawJson : Bool

inductive ExactError where
  | unavailable
  | malformed
  | message (text : String)
  | aborted
deriving DecidableEq

section Values

variable {ν : Type} [DecidableEq ν] (numerals : Numerals ν) (native : Native)

/-- The text of a number that is not the text of its double. -/
def changed : Datum → Option (List Char)
  | .number token =>
    if numerals.toText (numerals.ofText token.chars) ≠ token.chars then some token.chars else none
  | _ => none

def sourcesOf (entries : List (List ℕ × Datum)) : List (List ℕ × List Char) :=
  entries.filterMap fun entry ↦ (changed numerals entry.2).map fun source ↦ (entry.1, source)

/-- The items of an array from an index on, under their keys. -/
def keyed {α : Type} (index : ℕ) : List α → List (List ℕ × α)
  | [] => []
  | item :: rest => (indexKey index, item) :: keyed (index + 1) rest

mutual

/-- A parsed value, with the texts of its numbers or without them. -/
def revive (exact : Bool) : Datum → JsValue ν
  | .null => .null
  | .bool value => .bool value
  | .number token => .number (numerals.ofText token.chars)
  | .string units => .string units
  | .array items =>
    .array (reviveItems exact items) (if exact then sourcesOf numerals (keyed 0 items) else [])
  | .object entries =>
    .object (reviveEntries exact entries) (if exact then sourcesOf numerals entries else [])

def reviveItems (exact : Bool) : List Datum → List (JsValue ν)
  | [] => []
  | item :: rest => revive exact item :: reviveItems exact rest

def reviveEntries (exact : Bool) : List (List ℕ × Datum) → List (List ℕ × JsValue ν)
  | [] => []
  | (key, value) :: rest => (key, revive exact value) :: reviveEntries exact rest

end

/-- `JSON.parse`. -/
def parseJson (text : List Char) : Except ExactError Datum :=
  match readText text with
  | none => .error .malformed
  | some tree => .ok (meaning tree)

def parseExactJson (text : List Char) : Except ExactError (JsValue ν) :=
  if native.sourceContext = false ∨ native.rawJson = false then .error .unavailable
  else do
    let datum ← parseJson text
    match datum with
    | .array _ | .object _ => return revive numerals true datum
    | _ => .error (.message "Expected a snapshot JSON response object.")

/-! ## Writing -/

/-- The raw text of a property whose number is unchanged. -/
def rawProperty (sources : List (List ℕ × List Char)) (key : List ℕ) (value : JsValue ν) :
    Except ExactError (Option (List Char)) :=
  match lookup key sources, value with
  | some source, .number value =>
    if value ≠ numerals.ofText source then .ok none
    else if native.rawJson = false then .error .unavailable
    else .ok (some source)
  | _, _ => .ok none

end Values

def isSurrogate (unit : ℕ) : Bool := 0xd800 ≤ unit && unit ≤ 0xdfff

def hexDigits (unit : ℕ) : List Char :=
  [Nat.digitChar (unit / 4096 % 16), Nat.digitChar (unit / 256 % 16),
    Nat.digitChar (unit / 16 % 16), Nat.digitChar (unit % 16)]

theorem isSome_hexDigits (unit : ℕ) : ∀ c ∈ hexDigits unit, (hexValue? c).isSome := by
  have hdigit : ∀ digit < 16, (hexValue? (Nat.digitChar digit)).isSome := by decide
  intro c hc
  simp only [hexDigits, List.mem_cons, List.not_mem_nil, or_false] at hc
  obtain rfl | rfl | rfl | rfl := hc <;> exact hdigit _ (Nat.mod_lt _ (by decide))

def codePiece (unit : ℕ) : Piece := .code (hexDigits unit) rfl (isSome_hexDigits unit)

/-- How `JSON.stringify` writes a character. -/
def pieceOf (c : Char) : Piece :=
  if h : IsPlain c then .plain c h
  else if h : c = quoteChar ∨ c = '\\' then .letter c (by rcases h with rfl | rfl <;> rfl)
  else if c.toNat = 0x08 then .letter 'b' rfl
  else if c.toNat = 0x09 then .letter 't' rfl
  else if c.toNat = 0x0a then .letter 'n' rfl
  else if c.toNat = 0x0c then .letter 'f' rfl
  else if c.toNat = 0x0d then .letter 'r' rfl
  else codePiece c.toNat

/-- The character of a surrogate pair. -/
def pairChar (high low : ℕ) : Char :=
  Char.ofNat (0x10000 + (high - 0xd800) * 0x400 + (low - 0xdc00))

def unitPiece (unit : ℕ) : Piece :=
  if isSurrogate unit then codePiece unit else pieceOf (Char.ofNat unit)

/-- How a string is written; a surrogate without its pair is escaped. -/
def requote : List ℕ → List Piece
  | [] => []
  | [unit] => [unitPiece unit]
  | high :: low :: rest =>
    if 0xd800 ≤ high ∧ high < 0xdc00 ∧ 0xdc00 ≤ low ∧ low < 0xe000 then
      pieceOf (pairChar high low) :: requote rest
    else unitPiece high :: requote (low :: rest)

/-- A line break and the indentation of a level, if there is a gap. -/
def newline (gap indent : ℕ) : List Char :=
  if gap = 0 then [] else '\n' :: List.replicate indent ' '

/-- Texts between brackets; `indent` is that of the bracket. -/
def bracketed (gap indent : ℕ) (start stop : Char) (texts : List (List Char)) : List Char :=
  if texts = [] then [start, stop]
  else start :: (Printer.commaSeparated (texts.map fun text ↦ newline gap (indent + gap) ++ text) ++
    (newline gap indent ++ [stop]))

def memberText (gap : ℕ) (key : List ℕ) (text : List Char) : List Char :=
  quoted (requote key) ++ ':' :: ((if gap = 0 then [] else [' ']) ++ text)

section Writing

variable {ν : Type} [DecidableEq ν] (numerals : Numerals ν) (native : Native)

/-- The raw text of a property, or its value as it is written. -/
def orWritten (raw : Except ExactError (Option (List Char)))
    (text : Except ExactError (List Char)) : Except ExactError (List Char) := do
  match ← raw with
  | some source => return source
  | none => text

mutual

def write (gap indent : ℕ) : JsValue ν → Except ExactError (List Char)
  | .null => .ok ['n', 'u', 'l', 'l']
  | .bool value => .ok (wordChars value)
  | .number value =>
    .ok (if numerals.isFinite value then numerals.toText value else ['n', 'u', 'l', 'l'])
  | .string units => .ok (quoted (requote units))
  | .array items sources => do
    let texts ← writeItems gap (indent + gap) sources 0 items
    return bracketed gap indent '[' ']' texts
  | .object entries sources => do
    let texts ← writeEntries gap (indent + gap) sources entries
    return bracketed gap indent '{' '}' texts

def writeItems (gap indent : ℕ) (sources : List (List ℕ × List Char)) :
    ℕ → List (JsValue ν) → Except ExactError (List (List Char))
  | _, [] => .ok []
  | index, item :: rest => do
    let text ← orWritten (rawProperty numerals native sources (indexKey index) item)
      (write gap indent item)
    return text :: (← writeItems gap indent sources (index + 1) rest)

def writeEntries (gap indent : ℕ) (sources : List (List ℕ × List Char)) :
    List (List ℕ × JsValue ν) → Except ExactError (List (List Char))
  | [] => .ok []
  | (key, value) :: rest => do
    let text ← orWritten (rawProperty numerals native sources key value) (write gap indent value)
    return memberText gap key text :: (← writeEntries gap indent sources rest)

end

/-- At most ten spaces indent a level. -/
def stringifyExact (value : JsValue ν) (space : ℕ) : Except ExactError (List Char) :=
  write numerals native (min 10 space) 0 value

/-- A property of an object or an array, and the texts kept beside it. -/
def property (parent : JsValue ν) (key : List ℕ) :
    Option (JsValue ν) × List (List ℕ × List Char) :=
  match parent with
  | .array items sources => (lookup key (keyed 0 items), sources)
  | .object entries sources => (lookup key entries, sources)
  | _ => (none, [])

def exactProperty (parent : JsValue ν) (key : List ℕ) (space : ℕ) :
    Except ExactError (List Char) :=
  match property parent key with
  | (none, _) => .error (.message "Cannot serialize an absent JSON value.")
  | (some value, sources) =>
    orWritten (rawProperty numerals native sources key value)
      (stringifyExact numerals native value space)

end Writing

/-! ## Properties -/

section Properties

variable {α : Type} {key other : List ℕ} {value : α} {entries members : List (List ℕ × α)}

theorem keys_setProperty :
    other ∈ (setProperty key value entries).map Prod.fst ↔
      other = key ∨ other ∈ entries.map Prod.fst := by
  induction entries with
  | nil => simp [setProperty]
  | cons entry rest ih =>
    rw [setProperty]
    split_ifs with hkey
    · simp [← hkey]
    · rw [List.map_cons, List.mem_cons, ih, List.map_cons, List.mem_cons]
      tauto

theorem mem_setProperty {entry : List ℕ × α} (h : entry ∈ setProperty key value entries) :
    entry = (key, value) ∨ entry ∈ entries := by
  induction entries with
  | nil => simpa [setProperty] using h
  | cons first rest ih =>
    rw [setProperty] at h
    split_ifs at h
    · exact (List.mem_cons.mp h).imp_right (List.mem_cons_of_mem first)
    · obtain rfl | hrest := List.mem_cons.mp h
      · exact Or.inr List.mem_cons_self
      · exact (ih hrest).imp_right (List.mem_cons_of_mem first)

theorem nodup_setProperty (h : (entries.map Prod.fst).Nodup) :
    ((setProperty key value entries).map Prod.fst).Nodup := by
  induction entries with
  | nil => simp [setProperty]
  | cons entry rest ih =>
    rw [List.map_cons, List.nodup_cons] at h
    rw [setProperty]
    split_ifs with hkey
    · rw [List.map_cons, List.nodup_cons]
      exact ⟨hkey ▸ h.1, h.2⟩
    · rw [List.map_cons, List.nodup_cons, keys_setProperty, not_or]
      exact ⟨⟨hkey, h.1⟩, ih h.2⟩

theorem setProperty_of_notMem (h : key ∉ entries.map Prod.fst) :
    setProperty key value entries = entries ++ [(key, value)] := by
  induction entries with
  | nil => rfl
  | cons entry rest ih =>
    rw [List.map_cons, List.mem_cons, not_or] at h
    rw [setProperty, if_neg (Ne.symm h.1), ih h.2]
    rfl

/-- The properties of members are distinct members. -/
theorem foldl_setProperty (h : (entries.map Prod.fst).Nodup) :
    ((members.foldl (fun entries member ↦ setProperty member.1 member.2 entries) entries).map
        Prod.fst).Nodup ∧
      ∀ entry ∈ members.foldl (fun entries member ↦ setProperty member.1 member.2 entries) entries,
        entry ∈ entries ∨ entry ∈ members := by
  induction members generalizing entries with
  | nil => exact ⟨h, fun entry hentry ↦ Or.inl hentry⟩
  | cons member rest ih =>
    obtain ⟨hnodup, hmem⟩ := ih (@nodup_setProperty α member.1 member.2 entries h)
    refine ⟨hnodup, fun entry hentry ↦ ?_⟩
    obtain hset | hrest := hmem entry hentry
    · obtain rfl | hold := mem_setProperty hset
      · exact Or.inr List.mem_cons_self
      · exact Or.inl hold
    · exact Or.inr (List.mem_cons_of_mem member hrest)

theorem foldl_setProperty_of_nodup (h : ((entries ++ members).map Prod.fst).Nodup) :
    members.foldl (fun entries member ↦ setProperty member.1 member.2 entries) entries =
      entries ++ members := by
  induction members generalizing entries with
  | nil => exact (List.append_nil entries).symm
  | cons member rest ih =>
    have hnew : member.1 ∉ entries.map Prod.fst := by
      rw [List.map_append, List.nodup_append] at h
      intro hmem
      exact h.2.2 member.1 hmem member.1 (by simp) rfl
    rw [List.foldl_cons, setProperty_of_notMem hnew, ih, List.append_assoc, List.singleton_append]
    rwa [List.append_assoc, List.singleton_append]

theorem nodup_properties (members : List (List ℕ × α)) :
    ((properties members).map Prod.fst).Nodup := by
  rw [properties, ((perm_sortOn _ _).map Prod.fst).nodup_iff]
  exact (@foldl_setProperty α [] members List.nodup_nil).1

theorem ordered_properties (members : List (List ℕ × α)) :
    (properties members).Pairwise fun a b ↦ keyRank a.1 ≤ keyRank b.1 :=
  pairwise_le_sortOn _ _

theorem mem_of_mem_properties {entry : List ℕ × α} (h : entry ∈ properties members) :
    entry ∈ members := by
  rw [properties, mem_sortOn] at h
  exact ((@foldl_setProperty α [] members List.nodup_nil).2 entry h).resolve_left List.not_mem_nil

/-- Properties that are in order already are kept. -/
theorem properties_eq_self (hnodup : (members.map Prod.fst).Nodup)
    (hordered : members.Pairwise fun a b ↦ keyRank a.1 ≤ keyRank b.1) :
    properties members = members := by
  have hfold := @foldl_setProperty_of_nodup α [] members hnodup
  rw [List.nil_append] at hfold
  rw [properties, hfold]
  exact hordered.insertionSort_eq

theorem lookup_of_mem (hnodup : (entries.map Prod.fst).Nodup) (h : (key, value) ∈ entries) :
    lookup key entries = some value := by
  induction entries with
  | nil => cases h
  | cons entry rest ih =>
    rw [List.map_cons, List.nodup_cons] at hnodup
    obtain rfl | hrest := List.mem_cons.mp h
    · simp [lookup]
    · have hne : entry.1 ≠ key := fun heq ↦ hnodup.1 (heq ▸ List.mem_map_of_mem hrest)
      rw [lookup, List.find?_cons_of_neg (by simpa using hne)]
      exact ih hnodup.2 hrest

theorem keys_foldl_setProperty :
    key ∈ (members.foldl (fun entries member ↦ setProperty member.1 member.2 entries) entries).map
        Prod.fst ↔ key ∈ members.map Prod.fst ∨ key ∈ entries.map Prod.fst := by
  induction members generalizing entries with
  | nil => simp
  | cons member members ih =>
    rw [List.foldl_cons, ih, keys_setProperty, List.map_cons, List.mem_cons]
    tauto

/-- A key with one value has that value. -/
theorem lookup_properties (h : (key, value) ∈ members)
    (hunique : ∀ other, (key, other) ∈ members → other = value) :
    lookup key (properties members) = some value := by
  have hkey : key ∈ (properties members).map Prod.fst := by
    rw [properties, ((perm_sortOn _ _).map Prod.fst).mem_iff, keys_foldl_setProperty]
    exact Or.inl (List.mem_map_of_mem h)
  obtain ⟨⟨_, other⟩, hentry, rfl⟩ := List.mem_map.mp hkey
  obtain rfl := hunique other (mem_of_mem_properties hentry)
  exact lookup_of_mem (nodup_properties members) hentry

end Properties

/-! ## Strings are kept -/

theorem isSurrogate_iff (unit : ℕ) : isSurrogate unit = true ↔ 0xd800 ≤ unit ∧ unit ≤ 0xdfff := by
  simp [isSurrogate]

theorem hexValue_hexDigits {unit : ℕ} (h : unit < 0x10000) :
    (hexDigits unit).foldl (fun value c ↦ 16 * value + (hexValue? c).getD 0) 0 = unit := by
  have hdigit : ∀ digit < 16, (hexValue? (Nat.digitChar digit)).getD 0 = digit := by decide
  have hvalue (n : ℕ) : (hexValue? (Nat.digitChar (n % 16))).getD 0 = n % 16 :=
    hdigit _ (Nat.mod_lt n (by decide))
  simp only [hexDigits, List.foldl_cons, List.foldl_nil, hvalue]
  omega

theorem units_codePiece {unit : ℕ} (h : unit < 0x10000) : (codePiece unit).units = [unit] :=
  congrArg (fun unit ↦ [unit]) (hexValue_hexDigits h)

theorem units_pieceOf (c : Char) : (pieceOf c).units = unitsOf c := by
  have hsmall {code : ℕ} (hc : c.toNat = code) (hcode : code < 0x10000) : unitsOf c = [code] := by
    rw [unitsOf, hc, if_pos hcode]
  unfold pieceOf
  split_ifs with hplain hletter h8 h9 ha hc hd
  · rfl
  · obtain rfl | rfl := hletter <;> rfl
  · exact (hsmall h8 (by decide)).symm
  · exact (hsmall h9 (by decide)).symm
  · exact (hsmall ha (by decide)).symm
  · exact (hsmall hc (by decide)).symm
  · exact (hsmall hd (by decide)).symm
  · -- what is neither plain nor a quotation mark or a backslash is a control character
    have hcontrol : c.toNat < 0x20 := by
      by_contra hlarge
      exact hplain ⟨fun heq ↦ hletter (Or.inl heq), fun heq ↦ hletter (Or.inr heq),
        not_lt.mp hlarge⟩
    rw [units_codePiece (by omega), hsmall rfl (by omega)]

theorem toNat_char {code : ℕ} (h : code.isValidChar) : (Char.ofNat code).toNat = code := by
  rw [Char.ofNat, dif_pos h]
  rfl

theorem units_unitPiece {unit : ℕ} (h : unit < 0x10000) : (unitPiece unit).units = [unit] := by
  unfold unitPiece
  split_ifs with hsurrogate
  · exact units_codePiece h
  · rw [isSurrogate_iff] at hsurrogate
    have hvalid : unit.isValidChar := by
      unfold Nat.isValidChar
      omega
    rw [units_pieceOf, unitsOf, toNat_char hvalid, if_pos h]

theorem unitsOf_pairChar {high low : ℕ} (hhigh : 0xd800 ≤ high ∧ high < 0xdc00)
    (hlow : 0xdc00 ≤ low ∧ low < 0xe000) : unitsOf (pairChar high low) = [high, low] := by
  have hvalid : (0x10000 + (high - 0xd800) * 0x400 + (low - 0xdc00)).isValidChar := by
    unfold Nat.isValidChar
    omega
  unfold unitsOf pairChar
  rw [toNat_char hvalid, if_neg (by omega)]
  simp only [List.cons.injEq, and_true]
  omega

/-- What is written of a string denotes it. -/
theorem decode_requote {units : List ℕ} (h : ∀ unit ∈ units, unit < 0x10000) :
    decode (requote units) = units := by
  induction units using requote.induct with
  | case1 => rfl
  | case2 unit =>
    rw [requote, decode, List.flatMap_singleton, units_unitPiece (h unit List.mem_cons_self)]
  | case3 high low rest hpair ih =>
    have hrest := ih fun unit hunit ↦ h unit (List.mem_cons_of_mem _ (List.mem_cons_of_mem _ hunit))
    rw [requote, if_pos hpair, decode, List.flatMap_cons, ← decode, hrest, units_pieceOf,
      unitsOf_pairChar ⟨hpair.1, hpair.2.1⟩ hpair.2.2]
    rfl
  | case4 high low rest hpair ih =>
    have hrest := ih fun unit hunit ↦ h unit (List.mem_cons_of_mem _ hunit)
    rw [requote, if_neg hpair, decode, List.flatMap_cons, ← decode, hrest,
      units_unitPiece (h high List.mem_cons_self)]
    rfl

theorem unitsOf_lt (c : Char) : ∀ unit ∈ unitsOf c, unit < 0x10000 := by
  have hvalid : c.toNat < 0x110000 := by
    have hc := c.valid
    change c.toNat < 0xd800 ∨ 0xdfff < c.toNat ∧ c.toNat < 0x110000 at hc
    omega
  unfold unitsOf
  split_ifs with hsmall
  · simpa using hsmall
  · intro unit hunit
    simp only [List.mem_cons, List.not_mem_nil, or_false] at hunit
    omega

theorem escaped_lt {c : Char} : ∀ unit ∈ escaped? c, unit < 0x10000 := by
  intro unit hunit
  have hsmall : unit ∈ (some c.toNat : Option ℕ) → c.toNat < 0x10000 → unit < 0x10000 := by
    rintro ⟨⟩ h
    exact h
  unfold escaped? at hunit
  split_ifs at hunit with hself
  · apply hsmall hunit
    obtain rfl | rfl | rfl := hself <;> decide
  all_goals cases hunit
  all_goals decide

theorem hexValue_lt {c : Char} : (hexValue? c).getD 0 < 16 := by
  unfold hexValue?
  split_ifs with hdigit hlower hupper
  · have hbound : c.toNat ≤ 57 := hdigit.2
    rw [Option.getD_some]
    omega
  · have hbound : c.toNat ≤ 102 := hlower.2
    rw [Option.getD_some]
    omega
  · have hbound : c.toNat ≤ 70 := hupper.2
    rw [Option.getD_some]
    omega
  · decide

theorem units_lt (piece : Piece) : ∀ unit ∈ piece.units, unit < 0x10000 := by
  cases piece with
  | plain c h => exact unitsOf_lt c
  | letter c h => exact fun unit hunit ↦ escaped_lt unit (Option.mem_toList.mp hunit)
  | code digits hlength h =>
    obtain ⟨a, b, c, d, rfl⟩ := List.length_eq_four.mp hlength
    intro unit hunit
    rw [Piece.units, List.mem_singleton] at hunit
    subst hunit
    simp only [List.foldl_cons, List.foldl_nil]
    have ha := @hexValue_lt a
    have hb := @hexValue_lt b
    have hc := @hexValue_lt c
    have hd := @hexValue_lt d
    omega

theorem decode_lt (pieces : List Piece) : ∀ unit ∈ decode pieces, unit < 0x10000 := by
  intro unit hunit
  obtain ⟨piece, -, hmem⟩ := List.mem_flatMap.mp hunit
  exact units_lt piece unit hmem

/-! ## What texts denote -/

/-- The properties of an object are distinct and in their order. -/
structure InOrder {α : Type} (entries : List (List ℕ × α)) : Prop where
  nodup : (entries.map Prod.fst).Nodup
  ordered : entries.Pairwise fun a b ↦ keyRank a.1 ≤ keyRank b.1

mutual

/-- All objects of a value list their properties in order. -/
def Settled : Datum → Prop
  | .null => True
  | .bool _ => True
  | .number _ => True
  | .string units => ∀ unit ∈ units, unit < 0x10000
  | .array items => SettledItems items
  | .object entries => InOrder entries ∧ SettledEntries entries

def SettledItems : List Datum → Prop
  | [] => True
  | item :: rest => Settled item ∧ SettledItems rest

def SettledEntries : List (List ℕ × Datum) → Prop
  | [] => True
  | (key, value) :: rest => (∀ unit ∈ key, unit < 0x10000) ∧ Settled value ∧ SettledEntries rest

end

theorem settledItems_iff {items : List Datum} :
    SettledItems items ↔ ∀ item ∈ items, Settled item := by
  induction items with
  | nil => simp [SettledItems]
  | cons item rest ih => rw [SettledItems, ih, List.forall_mem_cons]

theorem settledEntries_iff {entries : List (List ℕ × Datum)} : SettledEntries entries ↔
    ∀ entry ∈ entries, (∀ unit ∈ entry.1, unit < 0x10000) ∧ Settled entry.2 := by
  induction entries with
  | nil => simp [SettledEntries]
  | cons entry rest ih => rw [SettledEntries, ih, List.forall_mem_cons, and_assoc]

mutual

theorem settled_meaning : ∀ tree, Settled (meaning tree)
  | .null => trivial
  | .bool _ => trivial
  | .number _ => trivial
  | .string pieces => decode_lt pieces
  | .array items => settledItems_meaning items
  | .object members => by
    have hmembers := settledEntries_iff.mp (settledEntries_meaning members)
    exact ⟨⟨nodup_properties _, ordered_properties _⟩, settledEntries_iff.mpr fun entry hentry ↦
      hmembers entry (mem_of_mem_properties hentry)⟩

theorem settledItems_meaning : ∀ items, SettledItems (meaningItems items)
  | [] => trivial
  | item :: rest => ⟨settled_meaning item, settledItems_meaning rest⟩

theorem settledEntries_meaning : ∀ members, SettledEntries (meaningMembers members)
  | [] => trivial
  | (key, value) :: rest => ⟨decode_lt key, settled_meaning value, settledEntries_meaning rest⟩

end

/-! ## Exact texts -/

mutual

/-- The text of a value, with every number as it was spelled. -/
def print (gap indent : ℕ) : Datum → List Char
  | .null => ['n', 'u', 'l', 'l']
  | .bool value => wordChars value
  | .number token => token.chars
  | .string units => quoted (requote units)
  | .array items => bracketed gap indent '[' ']' (printItems gap (indent + gap) items)
  | .object entries => bracketed gap indent '{' '}' (printEntries gap (indent + gap) entries)

def printItems (gap indent : ℕ) : List Datum → List (List Char)
  | [] => []
  | item :: rest => print gap indent item :: printItems gap indent rest

def printEntries (gap indent : ℕ) : List (List ℕ × Datum) → List (List Char)
  | [] => []
  | (key, value) :: rest =>
    memberText gap key (print gap indent value) :: printEntries gap indent rest

end

mutual

/-- The tree that the text of a value spells. -/
def canonical : Datum → JsonTree
  | .null => .null
  | .bool value => .bool value
  | .number token => .number token
  | .string units => .string (requote units)
  | .array items => .array (canonicalItems items)
  | .object entries => .object (canonicalEntries entries)

def canonicalItems : List Datum → List JsonTree
  | [] => []
  | item :: rest => canonical item :: canonicalItems rest

def canonicalEntries : List (List ℕ × Datum) → List (List Piece × JsonTree)
  | [] => []
  | (key, value) :: rest => (requote key, canonical value) :: canonicalEntries rest

end

mutual

theorem meaning_canonical : ∀ datum, Settled datum → meaning (canonical datum) = datum
  | .null, _ => rfl
  | .bool _, _ => rfl
  | .number _, _ => rfl
  | .string _, h => congrArg Datum.string (decode_requote h)
  | .array items, h => congrArg Datum.array (meaningItems_canonical items h)
  | .object entries, h => by
    rw [canonical, meaning, meaningMembers_canonical entries h.2,
      properties_eq_self h.1.nodup h.1.ordered]

theorem meaningItems_canonical :
    ∀ items, SettledItems items → meaningItems (canonicalItems items) = items
  | [], _ => rfl
  | item :: rest, h => by
    rw [canonicalItems, meaningItems, meaning_canonical item h.1, meaningItems_canonical rest h.2]

theorem meaningMembers_canonical :
    ∀ entries, SettledEntries entries → meaningMembers (canonicalEntries entries) = entries
  | [], _ => rfl
  | (key, value) :: rest, h => by
    rw [canonicalEntries, meaningMembers, decode_requote h.1, meaning_canonical value h.2.1,
      meaningMembers_canonical rest h.2.2]

end

theorem blank_nil : Blank [] := fun _ h ↦ absurd h List.not_mem_nil

theorem blank_newline (gap indent : ℕ) : Blank (newline gap indent) := by
  unfold newline
  split_ifs
  · exact blank_nil
  · intro c hc
    obtain rfl | hspace := List.mem_cons.mp hc
    · decide
    · rw [List.eq_of_mem_replicate hspace]
      decide

theorem blank_space : Blank [' '] := fun c hc ↦ by
  rw [List.mem_singleton.mp hc]
  exact List.mem_cons_self

theorem blank_gap (gap : ℕ) : Blank (if gap = 0 then [] else [' ']) := by
  split_ifs
  · exact blank_nil
  · exact blank_space

mutual

theorem spells_print (gap indent : ℕ) :
    ∀ datum, Spells (.value (canonical datum)) (print gap indent datum)
  | .null => .null
  | .bool value => .bool value
  | .number token => .number token
  | .string units => .string (requote units)
  | .array [] => .emptyArray blank_nil
  | .array (item :: rest) => by
    have hitems := spells_printItems gap (indent + gap) (item :: rest) (List.cons_ne_nil item rest)
      (newline gap (indent + gap)) (newline gap indent) (blank_newline _ _) (blank_newline _ _)
    have harray := Spells.array (List.cons_ne_nil _ _) hitems
    rw [List.append_assoc] at harray
    exact harray
  | .object [] => .emptyObject blank_nil
  | .object ((key, value) :: rest) => by
    have hmembers := spells_printEntries gap (indent + gap) ((key, value) :: rest)
      (List.cons_ne_nil _ rest) (newline gap (indent + gap)) (newline gap indent)
      (blank_newline _ _) (blank_newline _ _)
    have hobject := Spells.object (List.cons_ne_nil _ _) hmembers
    rw [List.append_assoc] at hobject
    exact hobject

theorem spells_printItems (gap indent : ℕ) : ∀ items : List Datum, items ≠ [] →
    ∀ before after, Blank before → Blank after → Spells (.items (canonicalItems items))
      (Printer.commaSeparated ((printItems gap indent items).map fun text ↦ before ++ text) ++
        after)
  | [], h, _, _, _, _ => absurd rfl h
  | [item], _, before, after, hbefore, hafter => by
    have hitem := Spells.lastItem hbefore hafter (spells_print gap indent item)
    rw [← List.append_assoc] at hitem
    exact hitem
  | item :: next :: rest, _, before, after, hbefore, hafter => by
    have hrest := spells_printItems gap indent (next :: rest) (List.cons_ne_nil _ _) before after
      hbefore hafter
    have hitem := Spells.item hbefore blank_nil (spells_print gap indent item)
      (List.cons_ne_nil _ _) hrest
    rw [List.nil_append, ← List.append_assoc, ← List.cons_append, ← List.append_assoc] at hitem
    exact hitem

theorem spells_printEntries (gap indent : ℕ) : ∀ entries : List (List ℕ × Datum), entries ≠ [] →
    ∀ before after, Blank before → Blank after → Spells (.members (canonicalEntries entries))
      (Printer.commaSeparated ((printEntries gap indent entries).map fun text ↦ before ++ text) ++
        after)
  | [], h, _, _, _, _ => absurd rfl h
  | [(key, value)], _, before, after, hbefore, hafter => by
    have hmember := @Spells.lastMember (requote key) _ _ _ _ _ _ hbefore blank_nil (blank_gap gap)
      hafter (spells_print gap indent value)
    simp only [printEntries, List.map_cons, List.map_nil, Printer.commaSeparated, memberText,
      List.append_assoc, List.cons_append]
    exact hmember
  | (key, value) :: (key', value') :: rest, _, before, after, hbefore, hafter => by
    have hrest := spells_printEntries gap indent ((key', value') :: rest) (List.cons_ne_nil _ _)
      before after hbefore hafter
    have hmember := @Spells.member (requote key) _ _ _ _ _ _ _ _ hbefore blank_nil (blank_gap gap)
      blank_nil (spells_print gap indent value) (List.cons_ne_nil _ _) hrest
    simp only [printEntries, List.map_cons, Printer.commaSeparated, memberText,
      List.append_assoc, List.cons_append, List.nil_append] at hmember ⊢
    exact hmember

end

theorem parseJson_of_spells {tree : JsonTree} {lexeme : List Char}
    (h : Spells (.value tree) lexeme) : parseJson lexeme = .ok (meaning tree) := by
  have hread : readText lexeme = some tree :=
    readText_eq_some.mpr ⟨[], lexeme, [], blank_nil, blank_nil, by simp, h⟩
  rw [parseJson, hread]

theorem parseJson_print {datum : Datum} (h : Settled datum) (gap indent : ℕ) :
    parseJson (print gap indent datum) = .ok datum := by
  rw [parseJson_of_spells (spells_print gap indent datum), meaning_canonical datum h]

theorem settled_of_parseJson {text : List Char} {datum : Datum} (h : parseJson text = .ok datum) :
    Settled datum := by
  unfold parseJson at h
  split at h
  · cases h
  · rename_i tree _
    obtain rfl := Except.ok.inj h
    exact settled_meaning tree

/-! ## The texts beside a value -/

theorem indexKey_injective : Function.Injective indexKey := by
  intro m n h
  have hprint : printNat m = printNat n :=
    List.map_injective_iff.mpr (fun _ _ heq ↦ Char.toNat_inj.mp heq) h
  exact (unambiguousAt_printNat m Printer.avoids_nil Printer.avoids_nil
    (by rw [List.append_nil, List.append_nil, hprint])).1

theorem mem_keyed {α : Type} {items : List α} {start : ℕ} {key : List ℕ}
    (h : key ∈ (keyed start items).map Prod.fst) :
    ∃ index, start ≤ index ∧ key = indexKey index := by
  induction items generalizing start with
  | nil => cases h
  | cons item rest ih =>
    obtain rfl | hrest := List.mem_cons.mp h
    · exact ⟨start, le_rfl, rfl⟩
    · obtain ⟨index, hle, rfl⟩ := ih hrest
      exact ⟨index, by omega, rfl⟩

theorem mem_of_mem_keyed {α : Type} {items : List α} {start : ℕ} {entry : List ℕ × α}
    (h : entry ∈ keyed start items) : entry.2 ∈ items := by
  induction items generalizing start with
  | nil => cases h
  | cons item rest ih =>
    obtain rfl | hrest := List.mem_cons.mp h
    · exact List.mem_cons_self
    · exact List.mem_cons_of_mem item (ih hrest)

theorem nodup_keyed {α : Type} (items : List α) (start : ℕ) :
    ((keyed start items).map Prod.fst).Nodup := by
  induction items generalizing start with
  | nil => exact List.nodup_nil
  | cons item rest ih =>
    refine List.nodup_cons.mpr ⟨fun hmem ↦ ?_, ih (start + 1)⟩
    obtain ⟨index, hle, heq⟩ := mem_keyed hmem
    have hsame := indexKey_injective heq
    omega

theorem mem_of_lookup {α : Type} {key : List ℕ} {value : α} {entries : List (List ℕ × α)}
    (h : lookup key entries = some value) : (key, value) ∈ entries := by
  obtain ⟨entry, hfind, rfl⟩ := Option.map_eq_some_iff.mp h
  have hkey : entry.1 = key := by simpa using List.find?_some hfind
  rw [← hkey]
  exact List.mem_of_find?_eq_some hfind

/-- A value that has properties. -/
def HasProperties : Datum → Prop
  | .array _ => True
  | .object _ => True
  | _ => False

/-- The property of a value under a key. -/
def child (key : List ℕ) : Datum → Option Datum
  | .array items => lookup key (keyed 0 items)
  | .object entries => lookup key entries
  | _ => none

section Sources

variable {ν : Type} {numerals : Numerals ν} {native : Native}

theorem lookup_sourcesOf {entries : List (List ℕ × Datum)} (hnodup : (entries.map Prod.fst).Nodup)
    {key : List ℕ} {value : Datum} (h : (key, value) ∈ entries) :
    lookup key (sourcesOf numerals entries) = changed numerals value := by
  induction entries with
  | nil => cases h
  | cons entry rest ih =>
    rw [List.map_cons, List.nodup_cons] at hnodup
    obtain rfl | hrest := List.mem_cons.mp h
    · rw [sourcesOf, List.filterMap_cons]
      cases hchanged : changed numerals value with
      | none =>
        -- no later entry has the key
        rw [Option.map_none]
        apply Option.map_eq_none_iff.mpr
        rw [List.find?_eq_none]
        intro found hfound
        obtain ⟨other, hother, hsource⟩ := List.mem_filterMap.mp hfound
        obtain ⟨source, -, rfl⟩ := Option.map_eq_some_iff.mp hsource
        rw [decide_eq_true_eq]
        rintro rfl
        exact hnodup.1 (List.mem_map.mpr ⟨other, hother, rfl⟩)
      | some source => simp [lookup]
    · have hne : entry.1 ≠ key := fun heq ↦ hnodup.1 (heq ▸ List.mem_map_of_mem hrest)
      have hlater := ih hnodup.2 hrest
      rw [sourcesOf, List.filterMap_cons]
      cases changed numerals entry.2 with
      | none => exact hlater
      | some source =>
        rw [Option.map_some]
        dsimp only
        rw [lookup, List.find?_cons_of_neg (by simpa using hne)]
        exact hlater

theorem lookup_reviveEntries (exact : Bool) (key : List ℕ) (entries : List (List ℕ × Datum)) :
    lookup key (reviveEntries numerals exact entries) =
      (lookup key entries).map (revive numerals exact) := by
  induction entries with
  | nil => rfl
  | cons entry rest ih =>
    obtain ⟨other, value⟩ := entry
    rw [reviveEntries]
    unfold lookup at ih ⊢
    by_cases hkey : other = key
    · rw [List.find?_cons_of_pos (by simpa using hkey),
        List.find?_cons_of_pos (by simpa using hkey)]
      rfl
    · rw [List.find?_cons_of_neg (by simpa using hkey),
        List.find?_cons_of_neg (by simpa using hkey), ih]

theorem keyed_reviveItems (exact : Bool) (start : ℕ) (items : List Datum) :
    keyed start (reviveItems numerals exact items) =
      reviveEntries numerals exact (keyed start items) := by
  induction items generalizing start with
  | nil => rfl
  | cons item rest ih => rw [reviveItems, keyed, keyed, reviveEntries, ih]

theorem changed_of_hasProperties {datum : Datum} (h : HasProperties datum) :
    changed numerals datum = none := by
  cases datum with
  | array | object => rfl
  | null | bool | number | string => exact h.elim

theorem settled_child {datum field : Datum} {key : List ℕ} (h : Settled datum)
    (hfield : child key datum = some field) : Settled field := by
  cases datum with
  | array items => exact settledItems_iff.mp h _ (mem_of_mem_keyed (mem_of_lookup hfield))
  | object entries => exact (settledEntries_iff.mp h.2 _ (mem_of_lookup hfield)).2
  | null | bool | number | string => cases hfield

/-- A property is found with the texts that its own text is looked up in. -/
theorem property_revive {datum field : Datum} {key : List ℕ} (hsettled : Settled datum)
    (h : child key datum = some field) :
    ∃ sources, property (revive numerals true datum) key =
        (some (revive numerals true field), sources) ∧
      lookup key sources = changed numerals field := by
  cases datum with
  | array items =>
    refine ⟨sourcesOf numerals (keyed 0 items), ?_,
      lookup_sourcesOf (nodup_keyed items 0) (mem_of_lookup h)⟩
    have hitem : lookup key (keyed 0 items) = some field := h
    rw [revive, if_pos rfl, property, keyed_reviveItems, lookup_reviveEntries, hitem]
    rfl
  | object entries =>
    refine ⟨sourcesOf numerals entries, ?_,
      lookup_sourcesOf hsettled.1.nodup (mem_of_lookup h)⟩
    have hentry : lookup key entries = some field := h
    rw [revive, if_pos rfl, property, lookup_reviveEntries, hentry]
    rfl
  | null | bool | number | string => cases h

theorem parseExactJson_eq_ok {text : List Char} {value : JsValue ν} :
    parseExactJson numerals native text = .ok value ↔
      native.sourceContext = true ∧ native.rawJson = true ∧ ∃ datum, parseJson text = .ok datum ∧
        HasProperties datum ∧ value = revive numerals true datum := by
  unfold parseExactJson
  constructor
  · intro h
    split_ifs at h with hnative
    rw [not_or, Bool.not_eq_false, Bool.not_eq_false] at hnative
    refine ⟨hnative.1, hnative.2, ?_⟩
    obtain ⟨datum, hparse, h⟩ := Check.bind_eq_ok.mp h
    refine ⟨datum, hparse, ?_⟩
    cases datum with
    | array | object => exact ⟨trivial, (Except.ok.inj h).symm⟩
    | null | bool | number | string => cases h
  · rintro ⟨hsource, hraw, datum, hparse, hdatum, rfl⟩
    rw [if_neg (by simp [hsource, hraw]), hparse]
    cases datum with
    | array | object => rfl
    | null | bool | number | string => exact hdatum.elim

end Sources

/-! ## Writing keeps the texts -/

section Exact

variable {ν : Type} [DecidableEq ν] {numerals : Numerals ν} {native : Native}

/-- A number's own text is kept only where it is not that of its double. -/
theorem rawProperty_revive (hnative : native.rawJson = true) {exact : Bool} {datum : Datum}
    {sources : List (List ℕ × List Char)} {key : List ℕ}
    (h : lookup key sources = changed numerals datum) :
    rawProperty numerals native sources key (revive numerals exact datum) =
      .ok (changed numerals datum) := by
  unfold rawProperty
  rw [h]
  cases datum with
  | number token =>
    rw [changed, revive]
    by_cases hchanged : numerals.toText (numerals.ofText token.chars) ≠ token.chars
    · rw [if_pos hchanged]
      dsimp only
      rw [if_neg (not_not.mpr rfl), hnative, if_neg Bool.noConfusion]
    · rw [if_neg hchanged]
  | null | bool | string | array | object => rfl

/-- What is written of a property. -/
def Written (numerals : Numerals ν) (native : Native) (datum : Datum) : Prop :=
  ∀ gap indent, orWritten (.ok (changed numerals datum))
    (write numerals native gap indent (revive numerals true datum)) = .ok (print gap indent datum)

theorem written_number (token : Number) : Written numerals native (.number token) := by
  intro gap indent
  rw [changed, revive, write, print]
  by_cases hchanged : numerals.toText (numerals.ofText token.chars) ≠ token.chars
  · rw [if_pos hchanged]
    rfl
  · have hsame := not_not.mp hchanged
    rw [if_neg hchanged, if_pos (numerals.isFinite_of_token _ token hsame), hsame]
    rfl

theorem writeItems_revive (hnative : native.rawJson = true) {sources : List (List ℕ × List Char)}
    {items : List Datum} {gap indent index : ℕ}
    (hsources : ∀ entry ∈ keyed index items, lookup entry.1 sources = changed numerals entry.2)
    (h : ∀ item ∈ items, Written numerals native item) :
    writeItems numerals native gap indent sources index (reviveItems numerals true items) =
      .ok (printItems gap indent items) := by
  induction items generalizing index with
  | nil => rfl
  | cons item rest ih =>
    rw [keyed, List.forall_mem_cons] at hsources
    rw [List.forall_mem_cons] at h
    rw [reviveItems, writeItems, rawProperty_revive hnative hsources.1, h.1 gap indent,
      ih hsources.2 h.2]
    rfl

theorem writeEntries_revive (hnative : native.rawJson = true)
    {sources : List (List ℕ × List Char)} {entries : List (List ℕ × Datum)} {gap indent : ℕ}
    (hsources : ∀ entry ∈ entries, lookup entry.1 sources = changed numerals entry.2)
    (h : ∀ entry ∈ entries, Written numerals native entry.2) :
    writeEntries numerals native gap indent sources (reviveEntries numerals true entries) =
      .ok (printEntries gap indent entries) := by
  induction entries with
  | nil => rfl
  | cons entry rest ih =>
    rw [List.forall_mem_cons] at hsources h
    obtain ⟨key, value⟩ := entry
    rw [reviveEntries, writeEntries, rawProperty_revive hnative hsources.1, h.1 gap indent,
      ih hsources.2 h.2]
    rfl

mutual

theorem written (hnative : native.rawJson = true) :
    ∀ datum, Settled datum → Written numerals native datum
  | .null, _ => fun _ _ ↦ rfl
  | .bool _, _ => fun _ _ ↦ rfl
  | .number token, _ => written_number token
  | .string _, _ => fun _ _ ↦ rfl
  | .array items, h => fun gap indent ↦ by
    have hitems : writeItems numerals native gap (indent + gap)
        (sourcesOf numerals (keyed 0 items)) 0 (reviveItems numerals true items) =
        .ok (printItems gap (indent + gap) items) :=
      writeItems_revive hnative
        (fun entry hentry ↦ lookup_sourcesOf (nodup_keyed items 0) hentry)
        (writtenItems hnative items h)
    rw [revive, if_pos rfl, write, hitems]
    rfl
  | .object entries, h => fun gap indent ↦ by
    have hentries : writeEntries numerals native gap (indent + gap) (sourcesOf numerals entries)
        (reviveEntries numerals true entries) = .ok (printEntries gap (indent + gap) entries) :=
      writeEntries_revive hnative (fun entry hentry ↦ lookup_sourcesOf h.1.nodup hentry)
        (writtenEntries hnative entries h.2)
    rw [revive, if_pos rfl, write, hentries]
    rfl

theorem writtenItems (hnative : native.rawJson = true) :
    ∀ items, SettledItems items → ∀ item ∈ items, Written numerals native item
  | [], _ => fun _ hitem ↦ absurd hitem List.not_mem_nil
  | item :: rest, h =>
    List.forall_mem_cons.mpr ⟨written hnative item h.1, writtenItems hnative rest h.2⟩

theorem writtenEntries (hnative : native.rawJson = true) :
    ∀ entries, SettledEntries entries → ∀ entry ∈ entries, Written numerals native entry.2
  | [], _ => fun _ hentry ↦ absurd hentry List.not_mem_nil
  | (_, value) :: rest, h =>
    List.forall_mem_cons.mpr ⟨written hnative value h.2.1, writtenEntries hnative rest h.2.2⟩

end

/-- What is written of a parsed response, or of one of its properties, denotes the same value, with
every number as it was spelled; and reading it back gives the same response with the same texts. -/
theorem exact_text_kept {text : List Char} {value : JsValue ν}
    (h : parseExactJson numerals native text = .ok value) (space : ℕ) :
    ∃ datum, parseJson text = .ok datum ∧
      (∃ out, stringifyExact numerals native value space = .ok out ∧ parseJson out = .ok datum ∧
        parseExactJson numerals native out = .ok value) ∧
      ∀ key field, child key datum = some field →
        ∃ out, exactProperty numerals native value key space = .ok out ∧
          parseJson out = .ok field := by
  obtain ⟨hsource, hraw, datum, hparse, hdatum, rfl⟩ := parseExactJson_eq_ok.mp h
  have hsettled := settled_of_parseJson hparse
  refine ⟨datum, hparse, ⟨print (min 10 space) 0 datum, ?_, parseJson_print hsettled _ _,
    parseExactJson_eq_ok.mpr ⟨hsource, hraw, datum, parseJson_print hsettled _ _, hdatum, rfl⟩⟩, ?_⟩
  · have hwritten := @written ν _ numerals native hraw datum hsettled (min 10 space) 0
    rwa [changed_of_hasProperties hdatum] at hwritten
  · intro key field hfield
    have hsettledField := settled_child hsettled hfield
    refine ⟨print (min 10 space) 0 field, ?_, parseJson_print hsettledField _ _⟩
    obtain ⟨sources, hproperty, hlookup⟩ := property_revive hsettled hfield
    rw [exactProperty, hproperty]
    dsimp only
    rw [rawProperty_revive hraw hlookup]
    exact written hraw field hsettledField (min 10 space) 0

end Exact

def wideDigits : List (Fin 10) := [9, 0, 0, 7, 1, 9, 9, 2, 5, 4, 7, 4, 0, 9, 9, 3]

theorem wideDigits_ne_nil : wideDigits ≠ [] := List.cons_ne_nil _ _

theorem wideDigits_canonical : wideDigits.head? = some 0 → wideDigits = [0] := by decide

theorem no_fraction : (none : Option (List (Fin 10))) ≠ some [] := by decide

/-- The first integer that is not a double. -/
def wideToken : Number :=
  ⟨false, wideDigits, none, none, wideDigits_ne_nil, wideDigits_canonical, no_fraction⟩

/-- Numbers by the texts of their doubles, on texts that hold no other wide number. -/
def roundedNumerals : Numerals (List Char) where
  ofText text :=
    if text = wideToken.chars then
      ['9', '0', '0', '7', '1', '9', '9', '2', '5', '4', '7', '4', '0', '9', '9', '2']
    else text
  toText := id
  isFinite _ := true
  isFinite_of_token _ _ _ := rfl

def idPieces : List Piece := [.plain 'i' (by decide), .plain 'd' (by decide)]

def wideTree : JsonTree := .object [(idPieces, .number wideToken)]

def wideText : List Char :=
  ['{', quoteChar, 'i', 'd', quoteChar, ':', ' ', '9', '0', '0', '7', '1', '9', '9', '2', '5', '4',
    '7', '4', '0', '9', '9', '3', '}']

theorem spells_wideText : Spells (.value wideTree) wideText :=
  .object (List.cons_ne_nil _ _) (@Spells.lastMember idPieces _ [] [] [' '] _ [] blank_nil blank_nil
    blank_space blank_nil (.number wideToken))

theorem parseJson_wideText : parseJson wideText = .ok (meaning wideTree) :=
  parseJson_of_spells spells_wideText

theorem exact_text_kept_sample :
    parseExactJson roundedNumerals ⟨true, true⟩ wideText =
        .ok (revive roundedNumerals true (meaning wideTree)) ∧
      ∃ datum, parseJson wideText = .ok datum ∧
        (∃ out, stringifyExact roundedNumerals ⟨true, true⟩
            (revive roundedNumerals true (meaning wideTree)) 2 = .ok out ∧
          parseJson out = .ok datum ∧
          parseExactJson roundedNumerals ⟨true, true⟩ out =
            .ok (revive roundedNumerals true (meaning wideTree))) ∧
        ∀ key field, child key datum = some field →
          ∃ out, exactProperty roundedNumerals ⟨true, true⟩
              (revive roundedNumerals true (meaning wideTree)) key 2 = .ok out ∧
            parseJson out = .ok field :=
  have hparse : parseExactJson roundedNumerals ⟨true, true⟩ wideText =
      .ok (revive roundedNumerals true (meaning wideTree)) :=
    parseExactJson_eq_ok.mpr ⟨rfl, rfl, meaning wideTree, parseJson_wideText, trivial, rfl⟩
  ⟨hparse, exact_text_kept hparse 2⟩

end Rvx.Web.ExactJson
