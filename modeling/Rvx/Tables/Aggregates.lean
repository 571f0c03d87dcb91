import Rvx.Tables.Rows
import Rvx.Tables.Scalars

/-!
# Aggregates

The matching records of all sources are grouped by the scalars of one or two columns.  A group keeps
its sources apart, and of every source an accumulator for each measure.  The groups are ranked by one
measure and by their keys, and a page of them is returned.
-/

namespace Rvx.Tables

open Core Engine Check

/-- A hash map is iterated in some order. -/
structure HashOrder where
  order : {α : Type} → List α → List α
  perm : ∀ {α : Type} (list : List α), (order list).Perm list

/-- The records are those of a table without columns. -/
def aggregateTable (request : SnapshotAggregateRequest) : TableRowsRequest where
  runIds := request.runIds
  sourceIds := request.sourceIds
  path := request.path
  columns := none
  snapshotIds := request.snapshotIds
  search := request.search
  filters := request.filters
  sort := none
  offset := request.offset
  limit := request.limit

def numericCell (text : List Char) : TableCell := ⟨.number, String.ofList text, false⟩

/-! ## Sums of doubles -/

structure StableSum where
  scale : Float
  sum : Float
  correction : Float

namespace StableSum

def empty : StableSum := ⟨0, 0, 0⟩

/-- The terms added so far, under a larger scale. -/
def rescale (state : StableSum) (scale : Float) : StableSum :=
  let factor := state.scale / scale
  ⟨scale, state.sum * factor, state.correction * factor⟩

def add (state : StableSum) (value : Float) : StableSum :=
  if value == 0 then state
  else
    let state := if value.abs > state.scale then state.rescale value.abs else state
    let term := value / state.scale
    let next := state.sum + term
    let rounding := if state.sum.abs ≥ term.abs then (state.sum - next) + term
      else (term - next) + state.sum
    ⟨state.scale, next, state.correction + rounding⟩

def total (state : StableSum) : Float := (state.sum + state.correction) * state.scale

end StableSum

/-- A double, which a rational of this form is exactly. -/
def doubleOf (value : ℚ) : Float := (Float.ofInt value.num).scaleB (-(value.den.log2 : ℤ))

def finiteDouble (number : Number) : Except EngineError Float :=
  match number.asF64 with
  | some value => .ok (doubleOf value)
  | none => .error (.invalidInput "aggregate sum requires finite inputs")

/-! ## Accumulators -/

/-- What is known of the cells of a measure; a number stands with its key. -/
structure Accumulator where
  count : ℕ
  missing : ℕ
  nonNumeric : ℕ
  integerSum : ℤ
  floatSum : Option StableSum
  bound : Option Number
  minimumMagnitude : Option Number

namespace Accumulator

def empty : Accumulator := ⟨0, 0, 0, 0, none, none, none⟩

/-- A number replaces the bound if it is the first one, or on the wanted side of it. -/
def addBound (state : Accumulator) (wanted : Ordering) (number : Number) : Accumulator :=
  if state.bound.all fun current ↦
      (NumericKey.new number).compare (NumericKey.new current) = wanted then
    { state with bound := some number }
  else state

/-- The smallest absolute value other than zero. -/
def addMagnitude (state : Accumulator) (number : Number) : Accumulator :=
  if (NumericKey.new number).abs.digits ≠ [] ∧ state.minimumMagnitude.all fun current ↦
      (NumericKey.new number).abs.compare (NumericKey.new current).abs = .lt then
    { state with minimumMagnitude := some number }
  else state

/-- Integers are added exactly as long as there are only integers of 64 bits. -/
def addSum (state : Accumulator) (number : Number) : Except EngineError Accumulator :=
  match state.floatSum, NumericKey.wideInteger number with
  | some sum, _ => do
    let value ← finiteDouble number
    return { state with floatSum := some (sum.add value) }
  | none, some integer => do
    let sum := state.integerSum + integer
    reject (¬ (-2 ^ 127 ≤ sum ∧ sum < 2 ^ 127)) (.invalidInput "aggregate integer sum overflow")
    return { state with integerSum := sum }
  | none, none => do
    let value ← finiteDouble number
    return { state with
      floatSum := some ((StableSum.empty.add (Float.ofInt state.integerSum)).add value) }

def addNumber (measure : SnapshotMeasure) (number : Number) (state : Accumulator) :
    Work Accumulator := do
  WorkBudget.text (String.utf8Len number.chars * 2)
  let state := { state with count := state.count + 1 }
  match measure.op with
  | .count => return state
  | .sum => Script.check (state.addSum number)
  | .min => do
    WorkBudget.text (String.utf8Len number.chars * 2)
    return (state.addMagnitude number).addBound .lt number
  | .max => return state.addBound .gt number

/-- The cell of one more record; a count may be of records rather than of cells. -/
def add (measure : SnapshotMeasure) (cell : Option Cell) (state : Accumulator) :
    Work Accumulator :=
  if measure.op = .count then
    match cell with
    | some .missing | some (.value .null) => return { state with missing := state.missing + 1 }
    | _ => return { state with count := state.count + 1 }
  else
    match cell with
    | some (.value (.number number)) => state.addNumber measure number
    | some .missing | some (.value .null) | none =>
      return { state with missing := state.missing + 1 }
    | _ => return { state with nonNumeric := state.nonNumeric + 1 }

/-- The text of the result; a bound exists once a number was counted. -/
def result (runtime : Runtime) (measure : SnapshotMeasure) (state : Accumulator) :
    Except EngineError TableCell :=
  if measure.op = .count then .ok (numericCell (printNat state.count))
  else if state.count = 0 then .ok (preview .missing)
  else if measure.op = .sum then
    match state.floatSum with
    | some sum =>
      if sum.total.isFinite then .ok (numericCell (runtime.floatToken sum.total).chars)
      else .error (.invalidInput "aggregate sum overflow or nonfinite result")
    | none => .ok (numericCell (printInt state.integerSum))
  else .ok (numericCell (state.bound.elim [] Number.chars))

def finish (runtime : Runtime) (measure : SnapshotMeasure) (state : Accumulator) :
    Except EngineError SnapshotAggregateValue := do
  let value ← state.result runtime measure
  return {
    value := value
    minimumMagnitude := if measure.op = .min then
        some (state.minimumMagnitude.elim (preview .missing) fun number ↦
          numericCell (number.chars.dropWhile fun c ↦ c = '-'))
      else none
    count := state.count
    missing := state.missing
    nonNumeric := state.nonNumeric
    approximate := state.floatSum.isSome }

end Accumulator

/-! ## Groups -/

structure Series where
  snapshot : StoredSnapshot
  measures : List Accumulator

structure Group where
  cells : List TableCell
  series : OrderedMap (String ×ₗ String) Series

section Groups

variable (runtime : Runtime) (request : SnapshotAggregateRequest)

def dimensions : List FieldPath := request.groupBy.map FieldPath.new

/-- The cell a measure is about, if it is about one. -/
def measuredCell (record : Record) (measure : SnapshotMeasure) : Option Cell :=
  measure.path.map fun path ↦ (FieldPath.new path).cell record

/-- The loop over the measures of a series. -/
def addMeasures (record : Record) :
    List SnapshotMeasure → List Accumulator → Work (List Accumulator)
  | measure :: measures, state :: states => do
    WorkBudget.visit
    let state ← state.add measure (measuredCell record measure)
    let states ← addMeasures record measures states
    return state :: states
  | _, _ => return []

def addRow (groups : OrderedMap String Group) (record : Record) :
    Work (OrderedMap String Group) := do
  let components ← Script.collect (dimensions request) fun dimension ↦ do
    WorkBudget.visit
    Script.check (scalar false (dimension.cell record))
  let key := componentsText components
  WorkBudget.text key.utf8ByteSize
  Script.check (reject (key ∉ groups ∧ groups.size ≥ MAX_SNAPSHOT_GROUPS)
    (.invalidInput "aggregate exceeds 50000 groups; narrow Sources/filters"))
  let group := (groups.get? key).getD
    ⟨(dimensions request).map fun dimension ↦ preview (dimension.cell record), OrderedMap.empty⟩
  let series := (group.series.get? (sourceKey record.snapshot)).getD
    ⟨record.snapshot, request.measures.map fun _ ↦ Accumulator.empty⟩
  let states ← addMeasures record request.measures series.measures
  return groups.insert key { group with
    series := group.series.insert (sourceKey record.snapshot) { series with measures := states } }

def groupRows (rows : List Record) : Work (OrderedMap String Group) :=
  rows.foldlM (addRow request) OrderedMap.empty

/-! ## Output -/

def finishMeasures (values : OrderedMap String SnapshotAggregateValue) :
    List SnapshotMeasure → List Accumulator → Work (OrderedMap String SnapshotAggregateValue)
  | measure :: measures, state :: states => do
    WorkBudget.visit
    let value ← Script.check (state.finish runtime measure)
    finishMeasures (values.insert measure.id value) measures states
  | _, _ => return values

def finishSeries (entry : (String ×ₗ String) × Series) : Work SnapshotAggregateSeries := do
  let values ← finishMeasures runtime OrderedMap.empty request.measures entry.2.measures
  return ⟨(ofLex entry.1).1, (ofLex entry.1).2, String.ofList (printNat entry.2.snapshot.id), values⟩

def finishGroup (entry : String × Group) : Work SnapshotAggregateGroup := do
  let series ← Script.collect entry.2.series.entries (finishSeries runtime request)
  return ⟨entry.1, entry.2.cells, series⟩

/-- The groups, in the order of the hash map. -/
def finishGroups (hash : HashOrder) (groups : OrderedMap String Group) :
    Work (List SnapshotAggregateGroup) := do
  let output ← Script.collect (hash.order groups.entries) (finishGroup runtime request)
  WorkBudget.text ((output.map fun group ↦ group.key.utf8ByteSize).sum *
    (2 * levels output.length + 2))
  return output

/-- The largest value of a measure among the sources of a group. -/
def largestOf (count : ℕ) (measure : String) :
    (maximum : Option Number) → List SnapshotAggregateSeries → Work (Option Number)
  | maximum, [] => return maximum
  | maximum, series :: rest => do
    WorkBudget.visit
    match (series.measures.get? measure).map SnapshotAggregateValue.value with
    | some ⟨.number, text, _⟩ =>
      WorkBudget.text (text.utf8ByteSize * (2 * levels count + 2))
      match parseNumber text with
      | none => Script.check (.error .json)
      | some number =>
        if maximum.all fun current ↦
            (NumericKey.new number).compare (NumericKey.new current) = .gt then
          largestOf count measure (some number) rest
        else largestOf count measure maximum rest
    | _ => largestOf count measure maximum rest

/-- Every group with its rank. -/
def rankCategories (output : List SnapshotAggregateGroup) :
    Work (List (SnapshotAggregateGroup × Option Number)) :=
  match request.order with
  | none => return output.map fun group ↦ (group, none)
  | some order => Script.collect output fun group ↦ do
    let rank ← largestOf output.length order.measure none group.series
    return (group, rank)

/-- Ranked groups come first, whichever the direction. -/
def compareRanks (direction : TableSortDirection) : Option Number → Option Number → Ordering
  | some a, some b => directed direction ((NumericKey.new a).compare (NumericKey.new b))
  | none, none => .eq
  | none, some _ => .gt
  | some _, none => .lt

def groupOrder (a b : SnapshotAggregateGroup × Option Number) : Ordering :=
  (request.order.elim .eq fun order ↦ compareRanks order.direction a.2 b.2).then
    (Ord.compare a.1.key b.1.key)

/-- The page of groups of snapshots that were loaded. -/
def readAggregate (hash : HashOrder) (sources : List Source) (snapshots : List StoredSnapshot) :
    Work SnapshotAggregateResponse := do
  let scanned ← records runtime (aggregateTable request) .projection snapshots sources
  let groups ← groupRows request scanned.rows
  let output ← finishGroups runtime request hash groups
  let ranked ← rankCategories request output
  let page := Selection.selectPage runtime.slices (groupOrder request) request.offset request.limit
    ranked
  let response : SnapshotAggregateResponse :=
    ⟨page.map Prod.fst, output.length, scanned.rows.length, request.offset, request.limit,
      scanned.snapshots⟩
  Script.check (boundedResponse response.chars)
  return response

def snapshotAggregate (hash : HashOrder) (serde : Serde) (sources : List Source) (db : Database) :
    Except EngineError SnapshotAggregateResponse := do
  request.validate.mapError .invalidInput
  validateRows (aggregateTable request)
  let snapshots ← tableSnapshots serde sources db runtime request.snapshotIds true
  (readAggregate runtime request hash sources snapshots WorkBudget.empty).1

end Groups

end Rvx.Tables
