import Rvx.Engine.Batch
import Rvx.Lib.Runs
import Rvx.Registry.Repository

/-!
# The ingestor

The worker that groups admitted pages into durable writes.  Pages arrive at any moment through a
bounded channel and are answered over a reply channel of their own, whose number is that of the
admission.  Other threads change both stores between the steps of the worker, and either
transaction of a group can fail.
-/

namespace Rvx.Registry

open Core Engine

def MAX_BATCH_PAGES : ℕ := 64

def MAX_BATCH_RECORDS : ℕ := 1024

def MAX_BATCH_BYTES : ℕ := MAX_SNAPSHOT_PAGE_BYTES + 256 * 1024

structure Pending where
  reply : ℕ
  delivery : Delivery
  bytes : ℕ

def Pending.records (pending : Pending) : ℕ := pending.delivery.page.snapshots.length

inductive ReplyError where
  | page (error : EngineError)
  /-- `Runtime("grouped ingestion failed: ...")` with the error. -/
  | group (error : EngineError)

structure Reply where
  reply : ℕ
  result : Except ReplyError ℕ

structure Stores where
  snapshots : Database
  repository : Repository

/-- The transactions of a group that fail outside the program. -/
structure Failures where
  snapshots : Option EngineError
  metadata : Option EngineError

/-- A call of `write`: the group, the stores and failures it met, and the replies it sent. -/
structure Group where
  batch : List Pending
  stores : Stores
  failures : Failures
  now : ℤ
  replies : List Reply

/-- What the thread does: a group is collected with its bytes and records. -/
inductive IngestWorker where
  | receiving
  | collecting (batch : List Pending) (bytes records : ℕ)
  | writing (batch : List Pending)
  | stopped

/-- The channel, the worker and the stores.  The last two fields are a record of what happened. -/
structure Ingestor where
  queue : List Pending
  closed : Bool
  deferred : Option Pending
  worker : IngestWorker
  stores : Stores
  admitted : List Pending
  groups : List Group

inductive IngestAction where
  | commit (delivery : Delivery) (bytes : ℕ)
  | close
  | store (stores : Stores)
  | work (failures : Failures) (now : ℤ)

namespace Ingestor

/-! ## Writing -/

def fail (batch : List Pending) (error : EngineError) : List Reply :=
  batch.map fun pending ↦ ⟨pending.reply, .error (.group error)⟩

/-- `ingest_batch_timed`; a failed transaction is rolled back. -/
def ingestGroup (serde : Serde) (failures : Failures) (batch : List Pending) (db : Database) :
    Except EngineError (List (Except EngineError ℕ)) × Database :=
  match failures.snapshots with
  | some error => (.error error, db)
  | none => ingestBatch serde (batch.map Pending.delivery) db

def successful (batch : List Pending) (results : List (Except EngineError ℕ)) :
    List (String × SnapshotDescriptor) :=
  (batch.zip results).filterMap fun (pending, result) ↦
    match result with
    | .ok _ => some (pending.delivery.source.id, pending.delivery.descriptor)
    | .error _ => none

/-- `update_source_success_batch`, which opens no transaction for an empty list. -/
def updateMetadata (failures : Failures) (reports : List (String × SnapshotDescriptor)) (now : ℤ)
    (repository : Repository) : Except EngineError Repository :=
  if reports = [] then .ok repository
  else
    match failures.metadata with
    | some error => .error error
    | none => repository.updateSourceSuccessBatch reports now

def write (serde : Serde) (failures : Failures) (now : ℤ) (batch : List Pending)
    (stores : Stores) : List Reply × Stores :=
  match ingestGroup serde failures batch stores.snapshots with
  | (.error error, db) => (fail batch error, { stores with snapshots := db })
  | (.ok results, db) =>
    match updateMetadata failures (successful batch results) now stores.repository with
    | .error error => (fail batch error, { stores with snapshots := db })
    | .ok repository =>
      ((batch.zip results).map fun (pending, result) ↦
        ⟨pending.reply, result.mapError .page⟩, ⟨db, repository⟩)

/-! ## The loop -/

def start (stores : Stores) : Ingestor := ⟨[], false, none, .receiving, stores, [], []⟩

variable (serde : Serde) (ingestor : Ingestor)

/-- A group begins with the page put aside before, or else with the next of the channel. -/
def receive : Option Ingestor :=
  match ingestor.deferred, ingestor.queue with
  | some first, _ =>
    some { ingestor with
      deferred := none, worker := .collecting [first] first.bytes first.records }
  | none, first :: rest =>
    some { ingestor with
      queue := rest, worker := .collecting [first] first.bytes first.records }
  | none, [] => if ingestor.closed = true then some { ingestor with worker := .stopped } else none

def collect (batch : List Pending) (bytes records : ℕ) : Ingestor :=
  if batch.length < MAX_BATCH_PAGES then
    match ingestor.queue with
    | [] => { ingestor with worker := .writing batch }
    | next :: rest =>
      if bytes + next.bytes > MAX_BATCH_BYTES ∨ records + next.records > MAX_BATCH_RECORDS then
        { ingestor with queue := rest, deferred := some next, worker := .writing batch }
      else
        { ingestor with
          queue := rest
          worker := .collecting (batch ++ [next]) (bytes + next.bytes) (records + next.records) }
  else { ingestor with worker := .writing batch }

def finish (batch : List Pending) (failures : Failures) (now : ℤ) : Ingestor :=
  let (replies, stores) := write serde failures now batch ingestor.stores
  { ingestor with
    worker := .receiving
    stores
    groups := ingestor.groups ++ [⟨batch, ingestor.stores, failures, now, replies⟩] }

def work (failures : Failures) (now : ℤ) : Option Ingestor :=
  match ingestor.worker with
  | .receiving => ingestor.receive
  | .collecting batch bytes records => some (ingestor.collect batch bytes records)
  | .writing batch => some (ingestor.finish serde batch failures now)
  | .stopped => none

/-- A page is admitted while the channel is open and has room. -/
def commit (delivery : Delivery) (bytes : ℕ) : Option Ingestor :=
  if bytes ≤ MAX_BATCH_BYTES ∧ ingestor.closed = false ∧
      ingestor.queue.length < MAX_BATCH_PAGES then
    let pending : Pending := ⟨ingestor.admitted.length, delivery, bytes⟩
    some { ingestor with
      queue := ingestor.queue ++ [pending], admitted := ingestor.admitted ++ [pending] }
  else none

def step : IngestAction → Option Ingestor
  | .commit delivery bytes => ingestor.commit delivery bytes
  | .close => some { ingestor with closed := true }
  | .store stores => some { ingestor with stores }
  | .work failures now => ingestor.work serde failures now

def run (actions : List IngestAction) : Option Ingestor := Runs.after (step serde) actions ingestor

end Ingestor

end Rvx.Registry
