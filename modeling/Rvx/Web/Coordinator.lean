import Rvx.Lib.InFlight
import Rvx.Lib.Runs
import Mathlib.Algebra.BigOperators.Group.List.Basic

/-!
# The read coordinator

Reads of the browser that share transports and a cache.  Every callback is an action of its own: the
completion of a transport, the reaction that caches its value, the one that takes the flight from
the map of pending ones, the one that frees its slot, and the reaction of each consumer.  The order
in which the microtasks run is not assumed, only that a reaction follows what it reacts to.  A
loader starts a transport and does nothing else.
-/

namespace Rvx.Web

variable {ν ε : Type}

/-- `DOMException("Aborted", "AbortError")`, or the error of a transport. -/
inductive ReadError (ε : Type) where
  | aborted
  | transport (error : ε)
deriving DecidableEq

abbrev ReadOutcome (ν ε : Type) : Type := Except (ReadError ε) ν

/-! ## The cache -/

structure CachedRead (ν : Type) where
  key : String
  value : ν
  bytes : ℕ
  expires : ℤ

/-- The entries in the order of their insertion. -/
structure ReadCache (ν : Type) where
  entries : List (CachedRead ν)
  bytes : ℤ

namespace ReadCache

def empty : ReadCache ν := ⟨[], 0⟩

def get? (cache : ReadCache ν) (key : String) : Option (CachedRead ν) :=
  cache.entries.find? fun entry ↦ entry.key = key

def delete (key : String) (entries : List (CachedRead ν)) : List (CachedRead ν) :=
  entries.filter fun entry ↦ entry.key ≠ key

/-- Move an entry behind the others. -/
def touch (entry : CachedRead ν) (cache : ReadCache ν) : ReadCache ν :=
  { cache with entries := delete entry.key cache.entries ++ [entry] }

def prune (now : ℤ) (cache : ReadCache ν) : ReadCache ν :=
  let expired := cache.entries.filter fun entry ↦ entry.expires ≤ now
  ⟨cache.entries.filter fun entry ↦ ¬ entry.expires ≤ now,
    cache.bytes - (expired.map CachedRead.bytes).sum⟩

/-- The loop that evicts the oldest entries. -/
def evict (budget added : ℕ) : List (CachedRead ν) → ℤ → ReadCache ν
  | [], bytes => ⟨[], bytes⟩
  | oldest :: rest, bytes =>
    if (oldest :: rest).length ≥ 64 ∨ bytes + added > budget then
      evict budget added rest (bytes - oldest.bytes)
    else ⟨oldest :: rest, bytes⟩

/-- Cache a value of a weight, which is `none` where it is infinite. -/
def put (budget : ℕ) (ttl now : ℤ) (key : String) (value : ν) (weight : Option ℕ)
    (cache : ReadCache ν) : ReadCache ν :=
  let cleared : ReadCache ν :=
    match cache.get? key with
    | some previous => ⟨delete key cache.entries, cache.bytes - previous.bytes⟩
    | none => cache
  match weight with
  | none => cleared
  | some bytes =>
    if bytes > budget then cleared
    else
      let kept := evict budget bytes cleared.entries cleared.bytes
      ⟨kept.entries ++ [⟨key, value, bytes, now + ttl⟩], kept.bytes + bytes⟩

end ReadCache

/-! ## Flights -/

/-- Where the transport of a flight is.  A settled one keeps its slot until its reaction has run; a
cancelled one never started. -/
inductive Transport where
  | queued
  | loading
  | settled
  | finished
  | cancelled
deriving DecidableEq

/-- How far the chain of a flight's promises is settled. -/
inductive Chain (ν ε : Type) where
  | pending
  | resolved (outcome : ReadOutcome ν ε)
  | stored (outcome : ReadOutcome ν ε)
  | cleared (outcome : ReadOutcome ν ε)

structure Flight (ν ε : Type) where
  key : String
  users : ℕ
  aborted : Bool
  transport : Transport
  chain : Chain ν ε

structure Scheduler (ν ε : Type) where
  flights : List (Flight ν ε)
  active : ℕ
  queue : List ℕ

namespace Scheduler

def empty : Scheduler ν ε := ⟨[], 0, []⟩

variable (scheduler : Scheduler ν ε)

/-- `start`: a flight begins its transport, unless it is aborted. -/
def start (index : ℕ) : Scheduler ν ε :=
  match scheduler.flights[index]? with
  | none => scheduler
  | some flight =>
    if flight.aborted = true then
      { scheduler with
        flights := scheduler.flights.set index
          { flight with transport := .cancelled, chain := .resolved (.error .aborted) } }
    else
      { scheduler with
        flights := scheduler.flights.set index { flight with transport := .loading }
        active := scheduler.active + 1 }

/-- A new flight, which starts at once or is queued. -/
def schedule (key : String) : Scheduler ν ε :=
  let index := scheduler.flights.length
  let added : Scheduler ν ε := { scheduler with
    flights := scheduler.flights ++ [⟨key, 0, false, .queued, .pending⟩] }
  if scheduler.active < 2 then added.start index
  else { added with queue := scheduler.queue ++ [index] }

/-- `controller.abort()` with the listener of a queued flight. -/
def abort (index : ℕ) : Scheduler ν ε :=
  match scheduler.flights[index]? with
  | none => scheduler
  | some flight =>
    if flight.aborted = true then scheduler
    else if flight.transport = .queued then
      { scheduler with
        flights := scheduler.flights.set index { flight with
          aborted := true, transport := .cancelled, chain := .resolved (.error .aborted) }
        queue := scheduler.queue.filter (· ≠ index) }
    else
      { scheduler with flights := scheduler.flights.set index { flight with aborted := true } }

/-- A transport settles. -/
def complete (index : ℕ) (flight : Flight ν ε) (outcome : ReadOutcome ν ε) : Scheduler ν ε :=
  { scheduler with
    flights := scheduler.flights.set index
      { flight with transport := .settled, chain := .resolved outcome } }

/-- The slot of a settled transport goes to the first queued flight. -/
def finish (index : ℕ) (flight : Flight ν ε) : Scheduler ν ε :=
  let freed := { scheduler with
    flights := scheduler.flights.set index { flight with transport := .finished }
    active := scheduler.active - 1 }
  match scheduler.queue with
  | [] => freed
  | next :: rest => { freed with queue := rest }.start next

def setChain (index : ℕ) (flight : Flight ν ε) (chain : Chain ν ε) : Scheduler ν ε :=
  { scheduler with flights := scheduler.flights.set index { flight with chain } }

def setUsers (index : ℕ) (flight : Flight ν ε) (users : ℕ) : Scheduler ν ε :=
  { scheduler with flights := scheduler.flights.set index { flight with users } }

end Scheduler

/-! ## The coordinator -/

/-- A call of `read`, with the flight it waits for until it is settled. -/
structure Consumer where
  key : String
  waiting : Option ℕ
deriving DecidableEq

/-- The coordinator and the calls of `read`.  The last two fields are a record of what happened:
the consumers settled, and what the transports of each key returned. -/
structure Coordinator (ν ε : Type) where
  cache : ReadCache ν
  scheduler : Scheduler ν ε
  pending : List (String × ℕ)
  consumers : List Consumer
  settlements : List (ℕ × ReadOutcome ν ε)
  completions : List (String × Except ε ν)

inductive ReadAction (ν ε : Type) where
  | read (key : String) (fresh aborted : Bool) (now : ℤ)
  | abort (consumer : ℕ)
  | complete (flight : ℕ) (outcome : Except ε ν)
  | finish (flight : ℕ)
  | store (flight : ℕ) (now : ℤ)
  | clear (flight : ℕ)
  | deliver (consumer : ℕ)
  | prune (now : ℤ)
  | destroy

namespace Coordinator

def start : Coordinator ν ε := ⟨.empty, .empty, [], [], [], []⟩

variable (coordinator : Coordinator ν ε)

/-- A call that is settled at once. -/
def answer (key : String) (outcome : ReadOutcome ν ε) : Coordinator ν ε :=
  { coordinator with
    consumers := coordinator.consumers ++ [⟨key, none⟩]
    settlements := coordinator.settlements ++ [(coordinator.consumers.length, outcome)] }

/-- A call that waits for a flight. -/
def join (key : String) (index : ℕ) (flight : Flight ν ε) : Coordinator ν ε :=
  { coordinator with
    scheduler := coordinator.scheduler.setUsers index flight (flight.users + 1)
    consumers := coordinator.consumers ++ [⟨key, some index⟩] }

/-- The flight of a key that is pending and not aborted. -/
def shared (key : String) : Option (ℕ × Flight ν ε) :=
  match coordinator.pending.lookup key with
  | none => none
  | some index =>
    match coordinator.scheduler.flights[index]? with
    | none => none
    | some flight => if flight.aborted = true then none else some (index, flight)

/-- `pending.set`, which keeps the place of a key. -/
def setPending (key : String) (index : ℕ) (pending : List (String × ℕ)) : List (String × ℕ) :=
  if (pending.lookup key).isSome then
    pending.map fun entry ↦ if entry.1 = key then (key, index) else entry
  else pending ++ [(key, index)]

def launch (key : String) : Coordinator ν ε :=
  { coordinator with
    scheduler := coordinator.scheduler.schedule key
    pending := setPending key coordinator.scheduler.flights.length coordinator.pending }

/-- A call answered from the cache, or waiting for a flight of its key, which is launched if there is
none. -/
def serve (key : String) (fresh : Bool) : Option (Coordinator ν ε) :=
  match if fresh = true then none else coordinator.cache.get? key with
  | some cached =>
    some ({ coordinator with cache := coordinator.cache.touch cached }.answer key
      (.ok cached.value))
  | none =>
    match coordinator.shared key with
    | some (index, flight) => some (coordinator.join key index flight)
    | none =>
      let launched := coordinator.launch key
      let index := coordinator.scheduler.flights.length
      launched.scheduler.flights[index]?.map fun flight ↦ launched.join key index flight

def read (key : String) (fresh aborted : Bool) (now : ℤ) : Option (Coordinator ν ε) :=
  if aborted = true then some (coordinator.answer key (.error .aborted))
  else { coordinator with cache := coordinator.cache.prune now }.serve key fresh

/-- A consumer is settled and leaves its flight; the last one aborts it. -/
def release (consumer index : ℕ) (reader : Consumer) (flight : Flight ν ε)
    (outcome : ReadOutcome ν ε) : Coordinator ν ε :=
  let left := { coordinator with
    scheduler := coordinator.scheduler.setUsers index flight (flight.users - 1)
    consumers := coordinator.consumers.set consumer { reader with waiting := none }
    settlements := coordinator.settlements ++ [(consumer, outcome)] }
  if flight.users - 1 = 0 then { left with scheduler := left.scheduler.abort index } else left

/-- The consumer with the flight it waits for. -/
def waitingFor (consumer : ℕ) : Option (Consumer × ℕ × Flight ν ε) :=
  match coordinator.consumers[consumer]? with
  | none => none
  | some reader =>
    match reader.waiting with
    | none => none
    | some index => coordinator.scheduler.flights[index]?.map fun flight ↦ (reader, index, flight)

def abort (consumer : ℕ) : Option (Coordinator ν ε) :=
  (coordinator.waitingFor consumer).map fun (reader, index, flight) ↦
    coordinator.release consumer index reader flight (.error .aborted)

/-- The reaction of a consumer to its flight. -/
def deliver (consumer : ℕ) : Option (Coordinator ν ε) :=
  match coordinator.waitingFor consumer with
  | some (reader, index, flight) =>
    match flight.chain with
    | .cleared outcome => some (coordinator.release consumer index reader flight outcome)
    | _ => none
  | none => none

def complete (index : ℕ) (outcome : Except ε ν) : Option (Coordinator ν ε) :=
  match coordinator.scheduler.flights[index]? with
  | none => none
  | some flight =>
    if flight.transport = .loading then
      some { coordinator with
        scheduler := coordinator.scheduler.complete index flight (outcome.mapError .transport)
        completions := coordinator.completions ++ [(flight.key, outcome)] }
    else none

def finish (index : ℕ) : Option (Coordinator ν ε) :=
  match coordinator.scheduler.flights[index]? with
  | none => none
  | some flight =>
    if flight.transport = .settled then
      some { coordinator with scheduler := coordinator.scheduler.finish index flight }
    else none

/-- The cache after the reaction to an outcome. -/
def cacheAfter (budget : ℕ) (ttl : ℤ) (readWeight : ν → Option ℕ) (now : ℤ)
    (flight : Flight ν ε) (cache : ReadCache ν) : ReadOutcome ν ε → ReadCache ν
  | .ok value =>
    if flight.aborted = true then cache
    else cache.put budget ttl now flight.key value (readWeight value)
  | .error _ => cache

/-- The reaction that caches a value. -/
def store (budget : ℕ) (ttl : ℤ) (readWeight : ν → Option ℕ) (index : ℕ) (now : ℤ) :
    Option (Coordinator ν ε) :=
  match coordinator.scheduler.flights[index]? with
  | none => none
  | some flight =>
    match flight.chain with
    | .resolved outcome =>
      some { coordinator with
        cache := cacheAfter budget ttl readWeight now flight coordinator.cache outcome
        scheduler := coordinator.scheduler.setChain index flight (.stored outcome) }
    | _ => none

/-- The pending flights without one that is over. -/
def unlist (index : ℕ) (key : String) (pending : List (String × ℕ)) : List (String × ℕ) :=
  if pending.lookup key = some index then pending.filter (·.1 ≠ key) else pending

/-- The reaction that takes a flight from the pending ones. -/
def clear (index : ℕ) : Option (Coordinator ν ε) :=
  match coordinator.scheduler.flights[index]? with
  | none => none
  | some flight =>
    match flight.chain with
    | .stored outcome =>
      some { coordinator with
        scheduler := coordinator.scheduler.setChain index flight (.cleared outcome)
        pending := unlist index flight.key coordinator.pending }
    | _ => none

def destroy : Coordinator ν ε :=
  { coordinator with
    cache := .empty
    scheduler := (coordinator.pending.map Prod.snd).foldl Scheduler.abort coordinator.scheduler
    pending := [] }

end Coordinator

/-- The coordinator after one action. -/
def Coordinator.step (budget : ℕ) (ttl : ℤ) (readWeight : ν → Option ℕ)
    (coordinator : Coordinator ν ε) : ReadAction ν ε → Option (Coordinator ν ε)
  | .read key fresh aborted now => coordinator.read key fresh aborted now
  | .abort consumer => coordinator.abort consumer
  | .complete index outcome => coordinator.complete index outcome
  | .finish index => coordinator.finish index
  | .store index now => coordinator.store budget ttl readWeight index now
  | .clear index => coordinator.clear index
  | .deliver consumer => coordinator.deliver consumer
  | .prune now => some { coordinator with cache := coordinator.cache.prune now }
  | .destroy => some coordinator.destroy

end Rvx.Web
