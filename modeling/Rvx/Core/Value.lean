import Mathlib.Data.List.Sort
import Rvx.Core.Number
import Rvx.Lib.OrderedMap

/-!
# JSON values

`Value` follows the JSON library's own tree.  An object is the list of its entries; the library
keeps them in a map ordered by key, so the trees that really occur list every object's keys in
strictly ascending order.  `Json` packages a tree with that fact, which makes equality of `Json`
the library's equality of values.
-/

namespace Rvx.Core

/-- A JSON tree. -/
inductive Value where
  | null
  | bool (value : Bool)
  | number (value : Number)
  | string (value : String)
  | array (items : List Value)
  | object (entries : List (String × Value))

namespace Value

/-! ## Decidable equality -/

mutual

def decEq : (left right : Value) → Decidable (left = right)
  | .null, .null => isTrue rfl
  | .bool a, .bool b => decidable_of_iff (a = b) (by simp)
  | .number a, .number b => decidable_of_iff (a = b) (by simp)
  | .string a, .string b => decidable_of_iff (a = b) (by simp)
  | .array a, .array b =>
    match decEqItems a b with
    | isTrue h => isTrue (by rw [h])
    | isFalse h => isFalse (by simpa using h)
  | .object a, .object b =>
    match decEqEntries a b with
    | isTrue h => isTrue (by rw [h])
    | isFalse h => isFalse (by simpa using h)
  | .null, .bool _ | .null, .number _ | .null, .string _ | .null, .array _ | .null, .object _
  | .bool _, .null | .bool _, .number _ | .bool _, .string _ | .bool _, .array _
  | .bool _, .object _ | .number _, .null | .number _, .bool _ | .number _, .string _
  | .number _, .array _ | .number _, .object _ | .string _, .null | .string _, .bool _
  | .string _, .number _ | .string _, .array _ | .string _, .object _ | .array _, .null
  | .array _, .bool _ | .array _, .number _ | .array _, .string _ | .array _, .object _
  | .object _, .null | .object _, .bool _ | .object _, .number _ | .object _, .string _
  | .object _, .array _ => isFalse (by simp)

def decEqItems : (left right : List Value) → Decidable (left = right)
  | [], [] => isTrue rfl
  | [], _ :: _ => isFalse (by simp)
  | _ :: _, [] => isFalse (by simp)
  | a :: as, b :: bs =>
    match decEq a b, decEqItems as bs with
    | isTrue h, isTrue h' => isTrue (by rw [h, h'])
    | isFalse h, _ => isFalse (by simp [h])
    | _, isFalse h => isFalse (by simp [h])

def decEqEntries : (left right : List (String × Value)) → Decidable (left = right)
  | [], [] => isTrue rfl
  | [], _ :: _ => isFalse (by simp)
  | _ :: _, [] => isFalse (by simp)
  | (k, a) :: as, (l, b) :: bs =>
    match decEq a b, decEqEntries as bs with
    | isTrue h, isTrue h' => decidable_of_iff (k = l) (by simp [h, h'])
    | isFalse h, _ => isFalse (by simp [h])
    | _, isFalse h => isFalse (by simp [h])

end

instance : DecidableEq Value := decEq

/-! ## Reading -/

/-- The entry of an object under a key; no other value has entries. -/
def get? (value : Value) (key : String) : Option Value :=
  match value with
  | .object entries => (entries.find? fun entry ↦ entry.1 = key).map Prod.snd
  | _ => none

def isObject : Value → Bool
  | .object _ => true
  | _ => false

def isNull : Value → Bool
  | .null => true
  | _ => false

def asNumber? : Value → Option Number
  | .number token => some token
  | _ => none

def asI64 (value : Value) : Option ℤ := value.asNumber?.bind Number.asI64

def asF64 (value : Value) : Option ℚ := value.asNumber?.bind Number.asF64

/-! ## Key order -/

mutual

/-- Every object of the tree lists its keys in strictly ascending order. -/
def sorted : Value → Bool
  | .null => true
  | .bool _ => true
  | .number _ => true
  | .string _ => true
  | .array items => sortedItems items
  | .object entries =>
    decide ((entries.map Prod.fst).Pairwise (· < ·)) && sortedEntries entries

def sortedItems : List Value → Bool
  | [] => true
  | item :: rest => sorted item && sortedItems rest

def sortedEntries : List (String × Value) → Bool
  | [] => true
  | (_, value) :: rest => sorted value && sortedEntries rest

end

theorem sortedItems_eq (items : List Value) :
    sortedItems items = items.all sorted := by
  induction items with
  | nil => rfl
  | cons item rest ih => simp [sortedItems, ih]

theorem sortedEntries_eq (entries : List (String × Value)) :
    sortedEntries entries = entries.all fun entry ↦ sorted entry.2 := by
  induction entries with
  | nil => rfl
  | cons entry rest ih => simp [sortedEntries, ih]

end Value

/-- A tree whose objects are ordered by key, as the JSON library keeps them. -/
structure Json where
  value : Value
  sorted : value.sorted = true
deriving DecidableEq

/-! ## Building values -/

namespace Json

def null : Json := ⟨.null, rfl⟩

def text (value : String) : Json := ⟨.string value, rfl⟩

def bool (value : Bool) : Json := ⟨.bool value, rfl⟩

def number (value : Number) : Json := ⟨.number value, rfl⟩

def int (value : ℤ) : Json := number (.ofInt value)

def array (items : List Json) : Json where
  value := .array (items.map Json.value)
  sorted := by
    rw [Value.sorted, Value.sortedItems_eq, List.all_map, List.all_eq_true]
    exact fun item _ ↦ item.sorted

def object (entries : OrderedMap String Json) : Json where
  value := .object (entries.entries.map fun entry ↦ (entry.1, entry.2.value))
  sorted := by
    rw [Value.sorted, Value.sortedEntries_eq, List.map_map, List.all_map]
    have hkeys : (Prod.fst ∘ fun entry : String × Json ↦ (entry.1, entry.2.value)) = Prod.fst := by
      funext entry
      rfl
    rw [hkeys, decide_eq_true entries.ascending, Bool.true_and, List.all_eq_true]
    exact fun entry _ ↦ entry.2.sorted

/-- `json!` on an object literal. -/
def literal (entries : List (String × Json)) : Json := object (.ofList entries)

theorem get?_object (entries : OrderedMap String Json) (key : String) :
    (object entries).value.get? key = (entries.get? key).map Json.value := by
  simp only [object, Value.get?, OrderedMap.get?, List.find?_map, Option.map_map]
  rfl

/-- The last entry with a key is the one an object literal keeps. -/
theorem get?_literal (entries : List (String × Json)) (key : String) :
    (literal entries).value.get? key =
      (entries.reverse.find? fun entry ↦ entry.1 = key).map fun entry ↦ entry.2.value := by
  rw [literal, get?_object]
  induction entries using List.reverseRecOn with
  | nil => rfl
  | append_singleton rest last ih =>
    rw [OrderedMap.ofList, List.foldl_append, List.foldl_cons, List.foldl_nil,
      ← OrderedMap.ofList, OrderedMap.get?_insert, List.reverse_append, List.reverse_singleton,
      List.singleton_append]
    by_cases hkey : key = last.1
    · rw [if_pos hkey, List.find?_cons_of_pos (by simpa using hkey.symm)]
      rfl
    · rw [if_neg hkey, List.find?_cons_of_neg (by simpa using Ne.symm hkey), ih]

end Json

end Rvx.Core
