import Rvx.Engine.Lifecycle
import Rvx.Snapshots.History

/-!
# A producer session and its collector

One producer session, the store that collects it, and the pages between them.  A page that was
served once may be delivered at any later time, any number of times and in any order; a pull asks
from the store's own cursor and delivers at once.  The store lives its own life meanwhile: it is
stopped and reopened, and ingests the pages of other sessions.
-/

namespace Rvx.Collector

open Core Snapshots Engine

/-- A producer and the source it is registered as; the collector checks the identity before it
asks for a page, and registration assigns the source's identifier. -/
structure Pairing where
  producer : SnapshotProducer
  source : Source
  registered : producer.descriptor.runId = source.runId ∧
    producer.descriptor.attemptId = source.attemptId ∧ producer.descriptor.role = source.role
  identified : checkIds [source.id] 1 = .ok ()

/-- A page together with the producer's state it was served from. -/
structure Serving where
  page : SnapshotHistoryResponse
  state : ProducerState

structure System where
  session : Session
  store : Store
  /-- All pages served so far. -/
  served : List Serving
  /-- The gaps recorded for the session, each with the serving that recorded it. -/
  recorded : List ((ℕ × ℕ) × Serving)

inductive Event where
  /-- An operation of the producer. -/
  | produce (action : Snapshots.Action)
  /-- Answer a history request. -/
  | serve (after limit : ℕ)
  /-- Deliver a page that was served before. -/
  | deliver (index : ℕ) (now : ℕ → ℤ)
  /-- Read the cursor, request the page from there on, and deliver it at once. -/
  | pull (limit : ℕ) (now : ℕ → ℤ)
  /-- A step of the store that does not concern the session. -/
  | operate (action : Engine.Action)

def Event.isPull : Event → Bool
  | .pull _ _ => true
  | _ => false

def System.init : System := ⟨.init, .init, [], []⟩

namespace Pairing

variable (pairing : Pairing) (serde : Serde)

def sessionId : String := pairing.producer.descriptor.sourceSessionId

/-- The page as the collector hands it to the store. -/
def delivery (page : SnapshotHistoryResponse) (now : ℕ → ℤ) : Delivery :=
  ⟨pairing.source, pairing.producer.descriptor, page, now⟩

/-- The store's cursor of the session. -/
def cursor (store : Store) : ℕ := store.db.cursor pairing.source.id pairing.sessionId

/-- The intervals the store recorded as lost for the session. -/
def lost (store : Store) : List (ℕ × ℕ) :=
  store.db.lostIntervals pairing.source.id pairing.sessionId

/-- Answer a request. -/
def serve (after limit : ℕ) (system : System) : Except ProducerError (Serving × System) :=
  (pairing.producer.history after limit system.session.state).map fun page ↦
    let serving : Serving := ⟨page, system.session.state⟩
    (serving, { system with served := system.served ++ [serving] })

/-- Ingest a page; the gaps the store adds are recorded with its serving. -/
def deliver (serving : Serving) (now : ℕ → ℤ) (system : System) : Option System :=
  (system.store.step serde (.ingestBatch [pairing.delivery serving.page now])).map fun store ↦
    let gaps := (pairing.lost store).drop (pairing.lost system.store).length
    { system with store, recorded := system.recorded ++ gaps.map fun gap ↦ (gap, serving) }

/-- A step of the store without pages of the session. -/
def Foreign : Engine.Action → Prop
  | .ingestBatch pages => ∀ delivery ∈ pages,
    (delivery.source.id, delivery.page.sourceSessionId) ≠ (pairing.source.id, pairing.sessionId)
  | _ => True

instance (action : Engine.Action) : Decidable (pairing.Foreign action) :=
  match action with
  | .ingestBatch pages => inferInstanceAs (Decidable (∀ delivery ∈ pages, _ ≠ _))
  | .beginOpen | .continueOpen | .stop | .useOlder _ => isTrue trivial

def step (system : System) : Event → Option System
  | .produce action =>
    (system.session.step pairing.producer action).map fun session ↦ { system with session }
  | .serve after limit =>
    match pairing.serve after limit system with
    | .ok (_, system') => some system'
    | .error _ => some system
  | .deliver index now =>
    (system.served[index]?).bind fun serving ↦ pairing.deliver serde serving now system
  | .pull limit now =>
    match pairing.serve (pairing.cursor system.store) limit system with
    | .ok (serving, system') => pairing.deliver serde serving now system'
    | .error _ => some system
  | .operate action =>
    if pairing.Foreign action then
      (system.store.step serde action).map fun store ↦ { system with store }
    else none

/-- The system after a sequence of events. -/
def run (events : List Event) (system : System) : Option System :=
  Runs.after (pairing.step serde) events system

end Pairing

end Rvx.Collector
