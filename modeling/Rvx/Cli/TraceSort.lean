import Rvx.Core.Double
import Rvx.Core.JsonText
import Rvx.Lib.Check
import Rvx.Lib.FloatBits
import Rvx.Lib.LittleEndian
import Rvx.Lib.RunMerging
import Rvx.Lib.Script
import Rvx.Lib.StableSort

/-!
# Sorting trace events outside memory

The trace export collects events in a bounded chunk.  A full chunk is sorted and spilled to a run
file; at the end the runs are merged, a few at a time, until one is left, which becomes the document.

The scratch directory holds what was written to it.  No chunk has two records of one rank, so the
unstable sort of a chunk has one result.
-/

namespace Rvx.Cli

open Core Check LittleEndian RunMerging

def PAGE_BYTES : ℕ := 16 * 1024 * 1024
def CHUNK_BYTES : ℕ := 8 * 1024 * 1024
def MERGE_FAN_IN : ℕ := 8

/-- `size_of::<Record>()`: two words and a vector. -/
def RECORD_BYTES : ℕ := 40

/-- A message, a clash in the scratch directory, or more merge passes than runs. -/
inductive TraceError where
  | message (text : String)
  | alreadyExists (pass run : ℕ)
  | notFound (pass run : ℕ)
  | endless
deriving DecidableEq

def utf8 (text : List Char) : List UInt8 := text.flatMap String.utf8EncodeChar

structure Record where
  timestamp : Float
  ordinal : UInt64
  payload : List UInt8

namespace Record

/-- `cmp` compares timestamps, then ordinals. -/
def rank (record : Record) : ℤ ×ₗ ℕ :=
  toLex (Double.totalKey record.timestamp, record.ordinal.toNat)

def write (record : Record) : List UInt8 :=
  toBytes 8 record.timestamp.toBits.toNat ++ toBytes 8 record.ordinal.toNat ++
    toBytes 4 (record.payload.length % 2 ^ 32) ++ record.payload

/-- `read_exact`. -/
def readExact (count : ℕ) (input : List UInt8) (truncated : String) :
    Except TraceError (List UInt8 × List UInt8) :=
  if input.length < count then .error (.message truncated)
  else .ok (input.take count, input.drop count)

def read : List UInt8 → Except TraceError (Option (Record × List UInt8))
  | [] => .ok none
  | first :: input => do
    let (others, input) ← readExact 19 input "truncated trace sort record"
    let header := first :: others
    let timestamp := Float.ofBits (UInt64.ofNat (ofBytes (header.take 8)))
    let ordinal := UInt64.ofNat (ofBytes ((header.drop 8).take 8))
    let length := ofBytes (header.drop 16)
    reject (timestamp.isFinite = false ∨ PAGE_BYTES < length) (.message "invalid trace sort record")
    let (payload, rest) ← readExact length input "truncated trace sort payload"
    return some (⟨timestamp, ordinal, payload⟩, rest)

theorem readExact_eq_ok {count : ℕ} {input : List UInt8} {truncated : String}
    {found : List UInt8 × List UInt8} :
    readExact count input truncated = .ok found ↔
      count ≤ input.length ∧ found = (input.take count, input.drop count) := by
  unfold readExact
  split_ifs with h
  · simp only [false_iff, not_and]
    omega
  · simp only [Except.ok.injEq, eq_comm, not_lt.mp h, true_and]

theorem length_lt_of_read {input rest : List UInt8} {record : Record}
    (h : read input = .ok (some (record, rest))) : rest.length < input.length := by
  cases input with
  | nil => simp [read] at h
  | cons first input =>
    simp only [read, bind_eq_ok, readExact_eq_ok, pure_eq_ok, Option.some.injEq, Prod.mk.injEq] at h
    obtain ⟨_, ⟨_, rfl⟩, _, _, _, ⟨_, rfl⟩, _, rfl⟩ := h
    simp only [List.length_drop, List.length_cons]
    omega

end Record

/-- The records of a run file. -/
def records : Reader TraceError Record (List UInt8) where
  next := Record.read
  size := List.length
  size_lt := Record.length_lt_of_read

structure SortedTrace where
  directory : ℕ → ℕ → Option (List UInt8)
  chunk : List Record
  chunkBytes : ℕ
  runs : ℕ
  count : UInt64

namespace SortedTrace

abbrev Call (α : Type) : Type := Script SortedTrace TraceError α

def initial : SortedTrace := ⟨fun _ _ ↦ none, [], 0, 0, 0⟩

/-! ## The scratch directory -/

def setFile (pass run : ℕ) (file : Option (List UInt8)) (trace : SortedTrace) : SortedTrace :=
  { trace with directory := fun pass' run' ↦
      if pass' = pass ∧ run' = run then file else trace.directory pass' run' }

/-- `File::open`. -/
def openRun (pass run : ℕ) : Call (List UInt8) := do
  let file ← Script.read fun trace ↦ trace.directory pass run
  Script.check (file.elim (.error (.notFound pass run)) .ok)

/-- `create_new(true)`. -/
def createRun (pass run : ℕ) : Call Unit := do
  let file ← Script.read fun trace ↦ trace.directory pass run
  Script.check (reject (file.isSome = true) (.alreadyExists pass run))
  Script.modify (setFile pass run (some []))

def writeRun (pass run : ℕ) (records : List Record) : Call Unit :=
  Script.modify (setFile pass run (some (records.flatMap Record.write)))

/-- `remove_file`. -/
def removeRun (pass run : ℕ) : Call Unit := do
  let _ ← openRun pass run
  Script.modify (setFile pass run none)

/-! ## Runs -/

def flushRun : Call Unit := do
  let trace ← Script.read fun trace ↦ trace
  if trace.chunk.isEmpty then pure ()
  else
    let chunk := StableSort.sortOn Record.rank trace.chunk
    Script.modify fun trace ↦ { trace with chunk := chunk }
    createRun 0 trace.runs
    writeRun 0 trace.runs chunk
    Script.modify fun trace ↦ { trace with chunk := [], chunkBytes := 0, runs := trace.runs + 1 }

def flushWhen (full : SortedTrace → Bool) : Call Unit := do
  let full ← Script.read full
  if full then flushRun else pure ()

def push (timestamp : Float) (event : Value) : Call Unit := do
  let payload := utf8 event.print
  Script.check (reject (PAGE_BYTES < payload.length ∨ timestamp.isFinite = false)
    (.message "trace event exceeds its byte limit or has an invalid timestamp"))
  let bytes := payload.length + RECORD_BYTES
  flushWhen fun trace ↦ CHUNK_BYTES < trace.chunkBytes + bytes && !trace.chunk.isEmpty
  let ordinal ← Script.read count
  Script.check (reject (ordinal.toNat + 1 = 2 ^ 64) (.message "trace event count overflow"))
  Script.modify fun trace ↦ { trace with
    count := ordinal + 1
    chunk := trace.chunk ++ [⟨timestamp, ordinal, payload⟩]
    chunkBytes := trace.chunkBytes + bytes }
  flushWhen fun trace ↦ CHUNK_BYTES ≤ trace.chunkBytes

/-- Merge the runs from `start` up to `stop` into a run of the next pass. -/
def merge (pass start stop next : ℕ) : Call Unit := do
  let starts ← Script.collect (List.range' start (stop - start)) fun run ↦ do
    let input ← openRun pass run
    Script.check (records.first input)
  createRun (pass + 1) next
  let merged ← Script.check
    (records.merge Record.rank (Reader.heapOf starts) (starts.map Prod.snd))
  writeRun (pass + 1) next merged

/-- The inner loop of `write_trace`; it returns the runs of the next pass. -/
def mergeRuns (pass runs start next : ℕ) : Call ℕ :=
  if start < runs then do
    let stop := min (start + MERGE_FAN_IN) runs
    merge pass start stop next
    Script.forEach (List.range' start (stop - start)) fun run ↦ removeRun pass run
    mergeRuns pass runs stop (next + 1)
  else pure next
termination_by runs - start
decreasing_by simp only [MERGE_FAN_IN]; omega

/-- The outer loop of `write_trace`, for at most `passes` passes. -/
def mergePasses (passes pass runs : ℕ) : Call (ℕ × ℕ) :=
  if 1 < runs then
    match passes with
    | 0 => throw .endless
    | passes + 1 => do
      let next ← mergeRuns pass runs 0 0
      mergePasses passes (pass + 1) next
  else pure (pass, runs)

/-- The payloads with a comma before every one but the first. -/
def eventBytes : Bool → List Record → List UInt8
  | _, [] => []
  | first, record :: rest =>
    (if first then [] else utf8 [',']) ++ record.payload ++ eventBytes false rest

/-- The records of the only run left, if there is one. -/
def lastRecords (pass runs : ℕ) : Call (List Record) :=
  if 0 < runs then do
    let input ← openRun pass 0
    Script.check (records.all input)
  else pure []

/-- What is written to the output file. -/
def writeTrace : Call (List UInt8) := do
  flushRun
  let runs ← Script.read runs
  let (pass, runs) ← mergePasses runs 0 runs
  let events ← lastRecords pass runs
  return utf8 "\x7b\"traceEvents\":[".toList ++ eventBytes true events ++
    utf8 "],\"displayTimeUnit\":\"ms\"\x7d".toList

end SortedTrace

/-! ## Runs of the writer -/

inductive TraceCall where
  | push (timestamp : Float) (event : Value)
  | flushRun

namespace TraceCall

def script : TraceCall → SortedTrace.Call Unit
  | push timestamp event => SortedTrace.push timestamp event
  | flushRun => SortedTrace.flushRun

def pushed : TraceCall → List (Float × Value)
  | push timestamp event => [(timestamp, event)]
  | flushRun => []

end TraceCall

/-- A writer with the events it has taken. -/
structure Export where
  trace : SortedTrace
  taken : List (Float × Value)

namespace Export

/-- A failed call may have flushed the chunk, but takes no event. -/
def after (spool : Export) (call : TraceCall) : Export :=
  match call.script spool.trace with
  | (.ok (), trace) => ⟨trace, spool.taken ++ call.pushed⟩
  | (.error _, trace) => ⟨trace, spool.taken⟩

def run (calls : List TraceCall) : Export := calls.foldl after ⟨.initial, []⟩

end Export

end Rvx.Cli
