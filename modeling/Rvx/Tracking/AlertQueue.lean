import Rvx.Lib.InFlight
import Rvx.Lib.Runs
import Rvx.Tracking.AlertModel

/-!
# The alert queue

A bounded channel between the callers of `send` and the one worker that calls the sink.  Counters,
the stop flag and the channel are shared, and every access to one of them is a step of its own, so
the steps of calls and of the worker interleave in any order.

The worker looks at the channel a last time before it closes the sink, and the channel goes with it.
An event that is enqueued in between is neither delivered nor dropped.
-/

namespace Rvx.Tracking

open Core InFlight

/-- A flush names the call of `close` that waits for its reply. -/
inductive QueueMessage where
  | event (event : AlertEvent) (bytes : ℕ)
  | flush (ticket : ℕ)
deriving DecidableEq

/-- What a call of `send` has still to do. -/
inductive SendCall where
  | encoding (event : AlertEvent)
  | reserved (event : AlertEvent) (bytes : ℕ)
  | checked (event : AlertEvent) (bytes : ℕ)
  | refused (bytes : ℕ)
  | dropping
deriving DecidableEq

/-- What a call of `close` has still to do. -/
inductive CloseCall where
  | submitting (ticket : ℕ)
  | waiting (ticket : ℕ)
  | stopping (flushed : Bool)
  | joining (flushed : Bool)
deriving DecidableEq

/-- Where the worker is.  An event it holds is counted before its bytes are released. -/
inductive SinkWorker where
  | ready
  | receiving
  | delivering (bytes : ℕ)
  | delivered (bytes : ℕ)
  | flushing (ticket : ℕ)
  | draining
  | discarding (bytes : ℕ)
  | discarded (bytes : ℕ)
  | closing
  | exited
deriving DecidableEq

/-- The queue with all that shares it.  The last three fields are a record of what happened: the
events that were enqueued, those the sink received, and what was in the channel when the worker
ended. -/
structure AlertQueue where
  accepted : ℕ
  completed : ℕ
  dropped : ℕ
  bytes : ℕ
  stop : Bool
  connected : Bool
  channel : List QueueMessage
  worker : SinkWorker
  handle : Bool
  sends : List SendCall
  closes : List CloseCall
  tickets : ℕ
  replies : List (ℕ × Bool)
  results : List Bool
  enqueued : List AlertEvent
  received : List AlertEvent
  lost : List QueueMessage
deriving DecidableEq

inductive QueueAction where
  | send (event : AlertEvent)
  | advanceSend (index : ℕ)
  /-- A step of the worker; a flush of the sink may be complete or not. -/
  | work (complete : Bool)
  | close
  /-- A step of a call of `close`, before or after its deadline. -/
  | advanceClose (index : ℕ) (expired : Bool)
  | drop

namespace AlertQueue

def start : AlertQueue where
  accepted := 0
  completed := 0
  dropped := 0
  bytes := 0
  stop := false
  connected := true
  channel := []
  worker := .ready
  handle := true
  sends := []
  closes := []
  tickets := 0
  replies := []
  results := []
  enqueued := []
  received := []
  lost := []

section Step

variable (encode : AlertEvent → Option ℕ) (capacity maxBytes : ℕ) (queue : AlertQueue)

/-- The channel takes a message while the worker lives and there is room. -/
def Open : Prop := queue.worker ≠ .exited ∧ queue.channel.length < capacity

instance : Decidable (queue.Open capacity) := inferInstanceAs (Decidable (_ ∧ _))

/-- The next step of a call of `send`; `encode` is the size of the encoded event. -/
def advanceSend (index : ℕ) : Option AlertQueue :=
  match queue.sends[index]? with
  | none => none
  | some (.encoding event) =>
    match encode event with
    | none => some { queue with sends := resume queue.sends index (some .dropping) }
    | some bytes =>
      if queue.bytes + bytes ≤ maxBytes then
        some { queue with
          bytes := queue.bytes + bytes
          sends := resume queue.sends index (some (.reserved event bytes)) }
      else some { queue with sends := resume queue.sends index (some .dropping) }
  | some (.reserved event bytes) =>
    if queue.stop = true then
      some { queue with sends := resume queue.sends index (some (.refused bytes)) }
    else some { queue with sends := resume queue.sends index (some (.checked event bytes)) }
  | some (.checked event bytes) =>
    if queue.Open capacity then
      some { queue with
        channel := queue.channel ++ [.event event bytes]
        sends := resume queue.sends index none
        enqueued := queue.enqueued ++ [event] }
    else some { queue with sends := resume queue.sends index (some (.refused bytes)) }
  | some (.refused bytes) =>
    some { queue with
      bytes := queue.bytes - bytes
      sends := resume queue.sends index (some .dropping) }
  | some .dropping =>
    some { queue with dropped := queue.dropped + 1, sends := resume queue.sends index none }

/-- The next step of the worker. -/
def work (complete : Bool) : Option AlertQueue :=
  match queue.worker with
  | .ready => some { queue with worker := if queue.stop = true then .draining else .receiving }
  | .receiving =>
    match queue.channel with
    | [] => some { queue with worker := if queue.connected = true then .ready else .closing }
    | .event event bytes :: rest =>
      some { queue with
        channel := rest, worker := .delivering bytes, received := queue.received ++ [event] }
    | .flush ticket :: rest => some { queue with channel := rest, worker := .flushing ticket }
  | .delivering bytes =>
    some { queue with completed := queue.completed + 1, worker := .delivered bytes }
  | .delivered bytes => some { queue with bytes := queue.bytes - bytes, worker := .ready }
  | .flushing ticket =>
    some { queue with replies := queue.replies ++ [(ticket, complete)], worker := .ready }
  | .draining =>
    match queue.channel with
    | [] => some { queue with worker := .closing }
    | .event _ bytes :: rest => some { queue with channel := rest, worker := .discarding bytes }
    | .flush _ :: rest => some { queue with channel := rest }
  | .discarding bytes =>
    some { queue with dropped := queue.dropped + 1, worker := .discarded bytes }
  | .discarded bytes => some { queue with bytes := queue.bytes - bytes, worker := .draining }
  | .closing => some { queue with channel := [], worker := .exited, lost := queue.channel }
  | .exited => none

/-- The next step of a call of `close`.  A call that finds the channel full tries again until its
deadline, one whose flush was discarded waits no longer, and the first to stop the worker joins it. -/
def advanceClose (index : ℕ) (expired : Bool) : Option AlertQueue :=
  match queue.closes[index]? with
  | none => none
  | some (.submitting ticket) =>
    if queue.Open capacity then
      some { queue with
        channel := queue.channel ++ [.flush ticket]
        closes := resume queue.closes index (some (.waiting ticket)) }
    else if expired = true ∨ queue.worker = .exited then
      some { queue with closes := resume queue.closes index (some (.stopping false)) }
    else none
  | some (.waiting ticket) =>
    match queue.replies.find? fun reply ↦ reply.1 = ticket with
    | some reply => some { queue with closes := resume queue.closes index (some (.stopping reply.2)) }
    | none =>
      if expired = true ∨ .flush ticket ∉ queue.channel ∧ queue.worker ≠ .flushing ticket then
        some { queue with closes := resume queue.closes index (some (.stopping false)) }
      else none
  | some (.stopping flushed) =>
    if queue.handle = true then
      some { queue with
        stop := true
        handle := false
        closes := resume queue.closes index (some (.joining flushed)) }
    else
      some { queue with
        stop := true
        closes := resume queue.closes index none
        results := queue.results ++ [flushed] }
  | some (.joining flushed) =>
    if queue.worker = .exited then
      some { queue with
        closes := resume queue.closes index none, results := queue.results ++ [flushed] }
    else if expired = true then
      some { queue with
        closes := resume queue.closes index none, results := queue.results ++ [false] }
    else none

/-- A call needs the queue, and the queue is dropped when no call uses it. -/
def step : QueueAction → Option AlertQueue
  | .send event =>
    if queue.connected = true then
      some { queue with
        accepted := queue.accepted + 1, sends := queue.sends ++ [.encoding event] }
    else none
  | .advanceSend index => advanceSend encode capacity maxBytes queue index
  | .work complete => work queue complete
  | .close =>
    if queue.connected = true then
      some { queue with
        closes := queue.closes ++ [.submitting queue.tickets], tickets := queue.tickets + 1 }
    else none
  | .advanceClose index expired => advanceClose capacity queue index expired
  | .drop =>
    if queue.connected = true ∧ queue.sends = [] ∧ queue.closes = [] then
      some { queue with stop := true, connected := false }
    else none

end Step

end AlertQueue

end Rvx.Tracking
