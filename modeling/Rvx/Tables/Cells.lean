import Rvx.Core.Tables
import Rvx.Engine.Pages
import Rvx.Lib.Selection
import Rvx.Tables.NumericKey

/-!
# Cells

A record of a loaded collection, the cell at one of its columns, and what is done with a cell: it is
previewed, made a sort key and tested by filters and by the search.  Work on cells is counted
against a budget.
-/

namespace Rvx.Tables

open Core Engine Check

def MAX_TABLE_NODES : ℕ := 1000000
def MAX_TABLE_SCAN_BYTES : ℕ := 64 * 1024 * 1024
def MAX_COLUMNS : ℕ := 128
def MAX_CELL_BYTES : ℕ := 1024
def MAX_TEXT_WORK : ℕ := 64 * 1024 * 1024

/-- What a read uses of the standard library and of the float formatter. -/
structure Runtime where
  slices : Selection.SliceOps
  /-- `str::to_lowercase`. -/
  toLowercase : String → String
  /-- The text of a string under `{:?}`. -/
  debug : String → String
  /-- The token of a finite double. -/
  floatToken : Float → Number

/-! ## Budget -/

structure WorkBudget where
  nodes : ℕ
  textBytes : ℕ

/-- Work that is counted against the budget of a read. -/
abbrev Work (α : Type) : Type := Script WorkBudget EngineError α

namespace WorkBudget

def empty : WorkBudget := ⟨0, 0⟩

def visit : Work Unit := do
  Script.modify fun budget ↦ { budget with nodes := budget.nodes + 1 }
  let nodes ← Script.read WorkBudget.nodes
  Script.check (reject (nodes > MAX_TABLE_NODES)
    (.invalidInput "table scan exceeds 1000000 visited nodes; narrow Sources/columns/filters"))

def text (bytes : ℕ) : Work Unit := do
  Script.modify fun budget ↦ { budget with textBytes := budget.textBytes + bytes }
  let bytes ← Script.read WorkBudget.textBytes
  Script.check (reject (bytes > MAX_TEXT_WORK)
    (.invalidInput ("table search/filter/sort exceeds 64 MiB of text work; " ++
      "narrow Sources/filters or sort by a shorter column")))

mutual

/-- Every node of a state is visited. -/
def tree : Value → Work Unit
  | .array items => do
    visit
    treeItems items
  | .object entries => do
    visit
    treeEntries entries
  | .null | .bool _ | .number _ | .string _ => visit

def treeItems : List Value → Work Unit
  | [] => pure ()
  | item :: rest => do
    tree item
    treeItems rest

def treeEntries : List (String × Value) → Work Unit
  | [] => pure ()
  | (_, value) :: rest => do
    tree value
    treeEntries rest

end

end WorkBudget

/-- The passes of a sort over this many entries. -/
def levels (count : ℕ) : ℕ := if count = 0 then 0 else count.log2 + 1

/-! ## Records and cells -/

structure Record where
  snapshot : StoredSnapshot
  key : String
  position : ℕ
  value : Value

inductive Cell where
  | missing
  | key (text : String)
  | value (value : Value)

def Cell.isMissing : Cell → Bool
  | .missing => true
  | _ => false

/-- The cell at a column of a record. -/
def Record.cell (record : Record) (path : String) : Cell :=
  if path = "$key" then .key record.key
  else if path = "$value" then
    if record.value.isObject then .missing else .value record.value
  else (record.value.pointer path).elim .missing .value

/-- The bytes a comparison of a cell reads. -/
def cellBytes : Cell → ℕ
  | .key text => text.utf8ByteSize
  | .value (.string text) => text.utf8ByteSize
  | .value (.number number) => String.utf8Len number.chars
  | _ => 0

/-- A column path, decoded once. -/
inductive FieldPath where
  | key
  | value
  | pointer (parts : List String)

namespace FieldPath

def new (path : String) : FieldPath :=
  if path = "$key" then .key
  else if path = "$value" then .value
  else if path = "" then .pointer []
  else .pointer ((path.toList.tail.splitOn '/').map unescapeToken)

/-- `text.parse::<usize>()`. -/
def parseUsize (text : List Char) : Option ℕ :=
  match takeDigits (match text with
    | '+' :: rest => rest
    | _ => text) with
  | (first :: others, []) =>
    if digitsValue (first :: others) < 2 ^ 64 then some (digitsValue (first :: others)) else none
  | _ => none

/-- The member or the item a component selects. -/
def step (value : Value) (part : String) : Option Value :=
  match value with
  | .object _ => value.get? part
  | .array items =>
    if part.toList.head? ≠ some '+' ∧ ¬ (part.toList.head? = some '0' ∧ part.utf8ByteSize > 1) then
      (parseUsize part.toList).bind fun index ↦ items[index]?
    else none
  | _ => none

def cell (field : FieldPath) (record : Record) : Cell :=
  match field with
  | .key => .key record.key
  | .value => if record.value.isObject then .missing else .value record.value
  | .pointer parts => (parts.foldlM step record.value).elim .missing .value

end FieldPath

/-! ## Previews -/

/-- The longest prefix that fits the room. -/
def clip : (room : ℕ) → List Char → List Char
  | _, [] => []
  | room, c :: rest => if c.utf8Size ≤ room then c :: clip (room - c.utf8Size) rest else []

/-- A cell with this text; only a part of a container is ever shown. -/
def shown (kind : TableCellKind) (text : List Char) (container : Bool) : TableCell where
  kind := kind
  text := String.ofList (clip MAX_CELL_BYTES text)
  truncated := container || decide (String.utf8Len text > MAX_CELL_BYTES)

def preview : Cell → TableCell
  | .key text => shown .string text.toList false
  | .value (.string text) => shown .string text.toList false
  | .missing => shown .missing [] false
  | .value .null => shown .null Value.null.print false
  | .value (.bool value) => shown .boolean (Value.bool value).print false
  | .value (.number number) => shown .number number.chars false
  | .value (.array items) =>
    shown .array ('[' :: (printNat items.length ++ " items]".toList)) true
  | .value (.object entries) =>
    shown .object ('{' :: (printNat entries.length ++ " fields".toList ++ ['}'])) true

/-! ## Sort keys -/

inductive SortKey where
  | missing
  | null
  | boolean (value : Bool)
  | number (key : NumericKey)
  | string (text : String)
  | array (length : ℕ)
  | object (length : ℕ)

namespace SortKey

def new : Cell → SortKey
  | .missing => .missing
  | .value .null => .null
  | .value (.bool value) => .boolean value
  | .value (.number token) => .number (.new token)
  | .key text => .string text
  | .value (.string text) => .string text
  | .value (.array items) => .array items.length
  | .value (.object entries) => .object entries.length

def rank : SortKey → ℕ
  | .missing => 0
  | .null => 1
  | .boolean _ => 2
  | .number _ => 3
  | .string _ => 4
  | .array _ => 5
  | .object _ => 6

protected def compare (key other : SortKey) : Ordering :=
  (Ord.compare key.rank other.rank).then
    (match key, other with
    | .boolean a, .boolean b => Ord.compare a b
    | .number a, .number b => a.compare b
    | .string a, .string b => Ord.compare a b
    | .array a, .array b => Ord.compare a b
    | .object a, .object b => Ord.compare a b
    | _, _ => .eq)

end SortKey

/-! ## Filters -/

/-- `str::contains`. -/
def includes (text needle : String) : Bool := decide (needle.toList <:+: text.toList)

/-- The white space of JSON. -/
def isJsonSpace (c : Char) : Bool := c = ' ' || c = '\n' || c = '\t' || c = '\r'

/-- `serde_json::from_str::<Number>(text).ok()`. -/
def parseNumber (text : String) : Option Number :=
  Number.read ((text.toList.dropWhile isJsonSpace).reverse.dropWhile isJsonSpace).reverse

section Contains

variable (runtime : Runtime) (needle : String)

def containsKey (text : String) : Work Bool := do
  WorkBudget.visit
  WorkBudget.text text.utf8ByteSize
  return includes (runtime.toLowercase text) needle

/-- A scalar that is no string is searched in its own text. -/
def containsText (text : List Char) : Work Bool := do
  WorkBudget.visit
  WorkBudget.text (String.utf8Len text)
  return includes (String.ofList text) needle

mutual

def containsValue : Value → Work Bool
  | .string text => containsKey runtime needle text
  | .array items => do
    WorkBudget.visit
    containsItems items
  | .object entries => do
    WorkBudget.visit
    containsEntries entries
  | .null => containsText needle Value.null.print
  | .bool value => containsText needle (Value.bool value).print
  | .number number => containsText needle number.chars

def containsItems : List Value → Work Bool
  | [] => return false
  | item :: rest => do
    if ← containsValue item then
      return true
    containsItems rest

def containsEntries : List (String × Value) → Work Bool
  | [] => return false
  | (key, value) :: rest => do
    if ← containsKey runtime needle key then
      return true
    if ← containsValue value then
      return true
    containsEntries rest

end

def contains : Cell → Work Bool
  | .missing => do
    WorkBudget.visit
    return false
  | .key text => containsKey runtime needle text
  | .value value => containsValue runtime needle value

end Contains

structure CompiledFilter where
  filter : TableFilter
  number : Option NumericKey
  contains : String

namespace CompiledFilter

variable (runtime : Runtime)

def new (filter : TableFilter) : Except EngineError CompiledFilter := do
  let number := parseNumber filter.value
  reject (filter.op ≠ .contains ∧ number.any fun number ↦ number.asF64.isNone)
    (.invalidInput "numeric filters require a finite JSON number")
  reject ((filter.op = .gt ∨ filter.op = .lt) ∧ number = none)
    (.invalidInput "gt/lt filters require a finite JSON number")
  return ⟨filter,
    number.map fun number ↦
      .fromToken (trim filter.value).toList (NumericKey.wideInteger number),
    runtime.toLowercase filter.value⟩

/-- The comparison of a number with the operand. -/
def compareOperand (compiled : CompiledFilter) (wanted : Ordering) (number : Number) :
    Work Bool := do
  WorkBudget.text (String.utf8Len number.chars + compiled.filter.value.utf8ByteSize)
  return compiled.number.any fun operand ↦ (NumericKey.new number).compare operand = wanted

def equalsText (compiled : CompiledFilter) (text : String) : Work Bool := do
  WorkBudget.text text.utf8ByteSize
  return text = compiled.filter.value

def compares (compiled : CompiledFilter) (wanted : Ordering) : Cell → Work Bool
  | .value (.number number) => compiled.compareOperand wanted number
  | _ => return false

def equals (compiled : CompiledFilter) : Cell → Work Bool
  | .missing => return false
  | .value .null => return compiled.filter.value = "null"
  | .value (.bool value) =>
    return compiled.filter.value = String.ofList (Value.bool value).print
  | .value (.number number) =>
    if compiled.number.isSome then compiled.compareOperand .eq number else return false
  | .key text => compiled.equalsText text
  | .value (.string text) => compiled.equalsText text
  | .value _ => Script.check (.error (.invalidInput
    "eq on an array/object is unsupported; select a scalar column or use contains"))

def matchesCell (compiled : CompiledFilter) (cell : Cell) : Work Bool := do
  WorkBudget.visit
  match compiled.filter.op with
  | .contains => Tables.contains runtime compiled.contains cell
  | .gt => compiled.compares .gt cell
  | .lt => compiled.compares .lt cell
  | .eq => compiled.equals cell

end CompiledFilter

end Rvx.Tables
