import Rvx.Lib.InFlight
import Rvx.Lib.Runs
import Rvx.Tracking.AlertModel

/-!
# The HTTP dispatcher

One queue and one worker for each channel, and shared statistics.  An accepted event is a pending
value that a call of `send`, the queue or the worker owns; dropping it releases its bytes and then
counts it, unless it was finished before.

The statistics and a byte counter change under their locks, so what happens under both is one step.
A worker is cancelled only where it awaits.  The rate limiter decides whether it sleeps first, and
the network whether a request succeeds; both are left open.
-/

namespace Rvx.Tracking

open Core InFlight

structure DeliveryStats where
  accepted : ℕ
  completed : ℕ
  dropped : ℕ
  pending : ℕ
  failed : ℕ
  suppressed : ℕ
deriving DecidableEq

/-- What decides the events a channel takes. -/
structure ChannelConfig where
  name : String
  minLevel : AlertLevel
  levels : List AlertLevel
  tags : List String
deriving DecidableEq

structure DeliveryConfig where
  rateLimitPerMinute : ℕ
  dedupWindowSeconds : ℕ
  queueCapacity : ℕ
  maxPendingBytes : ℕ

def AlertLevel.rank : AlertLevel → ℕ
  | .info => 0
  | .warning => 1
  | .error => 2
  | .critical => 3

/-- The level in debug format. -/
def AlertLevel.debug : AlertLevel → String
  | .info => "Info"
  | .warning => "Warning"
  | .error => "Error"
  | .critical => "Critical"

def accepts (channel : ChannelConfig) (event : AlertEvent) : Bool :=
  (event.channels.isEmpty || channel.name ∈ event.channels) &&
    (if channel.levels.isEmpty then decide (event.level.rank ≥ channel.minLevel.rank)
      else event.level ∈ channel.levels) &&
    (channel.tags.isEmpty || event.tags.any (· ∈ channel.tags))

/-- The key by which a worker knows an event it has sent. -/
def dedupKey (event : AlertEvent) : List Char :=
  event.level.debug.toList ++ Char.ofNat 0 :: (event.rule.toList ++ Char.ofNat 0 ::
    event.message.toList)

/-- The ticket is the number of the event among those accepted. -/
structure Pending where
  ticket : ℕ
  event : AlertEvent
  bytes : ℕ
deriving DecidableEq

/-- A call of `Shared::finish`. -/
structure Finish where
  ticket : ℕ
  dropped : Bool
  failed : Bool
  suppressed : Bool

/-! ## Channels -/

/-- Where the worker of a channel is.  An abandoned event is dropped when the loop is left, a
discarded one when the queue is drained; either releases its bytes before it is counted. -/
inductive ChannelWorker where
  | ready
  | taken (pending : Pending)
  | waiting (pending : Pending)
  | delivering (pending : Pending)
  | finished (pending : Pending)
  | abandoned (pending : Pending)
  | reporting (pending : Pending)
  | closing
  | draining
  | discarding (pending : Pending)
  | discarded (pending : Pending)
  | exited
deriving DecidableEq

/-- What a worker decided about an event. -/
inductive Delivery where
  | sent (event : AlertEvent)
  | suppressed (event : AlertEvent)
deriving DecidableEq

structure DispatchChannel where
  config : ChannelConfig
  bytes : ℕ
  queue : List Pending
  isOpen : Bool
  worker : ChannelWorker
  dedup : List (List Char × ℕ)
  deliveries : List Delivery
deriving DecidableEq

namespace DispatchChannel

def start (config : ChannelConfig) : DispatchChannel := ⟨config, 0, [], true, .ready, [], []⟩

/-- `dedup.contains_key`. -/
def Knows (dedup : List (List Char × ℕ)) (event : AlertEvent) : Prop :=
  ∃ entry ∈ dedup, entry.1 = dedupKey event

instance (dedup : List (List Char × ℕ)) (event : AlertEvent) : Decidable (Knows dedup event) :=
  inferInstanceAs (Decidable (∃ entry ∈ dedup, _))

/-- The entries that are younger than the window. -/
def recent (config : DeliveryConfig) (now : ℕ) (dedup : List (List Char × ℕ)) :
    List (List Char × ℕ) :=
  dedup.filter fun entry ↦ (now - entry.2) / 1000000000 < config.dedupWindowSeconds

/-- What the worker remembers after it has sent an event. -/
def remember (config : DeliveryConfig) (now : ℕ) (event : AlertEvent)
    (dedup : List (List Char × ℕ)) : List (List Char × ℕ) :=
  if config.dedupWindowSeconds > 0 then
    let kept := if dedup.length ≥ config.queueCapacity then [] else dedup
    kept.filter (fun entry ↦ entry.1 ≠ dedupKey event) ++ [(dedupKey event, now)]
  else dedup

variable (config : DeliveryConfig) (channel : DispatchChannel)

/-- The next step of the worker.  The choice is whether the rate limiter makes it wait, or whether
the request succeeds. -/
def work (now : ℕ) (choice : Bool) : Option (DispatchChannel × Option Finish) :=
  match channel.worker with
  | .ready =>
    match channel.queue with
    | [] => none
    | pending :: rest => some ({ channel with queue := rest, worker := .taken pending }, none)
  | .taken pending =>
    let dedup := recent config now channel.dedup
    if Knows dedup pending.event then
      some ({ channel with
        dedup
        worker := .finished pending
        deliveries := channel.deliveries ++ [.suppressed pending.event] },
        some ⟨pending.ticket, false, false, true⟩)
    else if config.rateLimitPerMinute > 0 ∧ choice = true then
      some ({ channel with dedup, worker := .waiting pending }, none)
    else some ({ channel with dedup, worker := .delivering pending }, none)
  | .waiting pending => some ({ channel with worker := .delivering pending }, none)
  | .delivering pending =>
    if choice = true then
      some ({ channel with
        dedup := remember config now pending.event channel.dedup
        worker := .finished pending
        deliveries := channel.deliveries ++ [.sent pending.event] },
        some ⟨pending.ticket, false, false, false⟩)
    else
      some ({ channel with worker := .finished pending },
        some ⟨pending.ticket, false, true, false⟩)
  | .finished pending =>
    some ({ channel with bytes := channel.bytes - pending.bytes, worker := .ready }, none)
  | .abandoned pending =>
    some ({ channel with bytes := channel.bytes - pending.bytes, worker := .reporting pending },
      none)
  | .reporting pending =>
    some ({ channel with worker := .closing }, some ⟨pending.ticket, true, false, false⟩)
  | .closing => some ({ channel with isOpen := false, worker := .draining }, none)
  | .draining =>
    match channel.queue with
    | [] => some ({ channel with worker := .exited }, none)
    | pending :: rest => some ({ channel with queue := rest, worker := .discarding pending }, none)
  | .discarding pending =>
    some ({ channel with bytes := channel.bytes - pending.bytes, worker := .discarded pending },
      none)
  | .discarded pending =>
    some ({ channel with worker := .draining }, some ⟨pending.ticket, true, false, false⟩)
  | .exited => none

/-- The worker leaves its loop where it awaits. -/
def cancel : Option DispatchChannel :=
  match channel.worker with
  | .ready => some { channel with worker := .closing }
  | .waiting pending | .delivering pending => some { channel with worker := .abandoned pending }
  | _ => none

end DispatchChannel

/-! ## Calls -/

/-- What a call of `send` has still to do: the channels left, and the event it owns. -/
inductive DispatchCall where
  | admitting (event : AlertEvent) (size : ℕ) (rest : List ℕ)
  | queueing (pending : Pending) (channel : ℕ) (rest : List ℕ)
  | refused (pending : Pending) (channel : ℕ) (rest : List ℕ)
  | reporting (pending : Pending) (rest : List ℕ)
deriving DecidableEq

/-- The dispatcher with all that shares it.  The last two fields are a record of what happened: the
events accepted with their channels, and the tickets of the events finished. -/
structure Dispatcher where
  stats : DeliveryStats
  closed : Bool
  cancelled : Bool
  channels : List DispatchChannel
  sends : List DispatchCall
  admitted : List (AlertEvent × ℕ)
  finishes : List ℕ
deriving DecidableEq

inductive DispatchAction where
  | send (event : AlertEvent)
  | advanceSend (index : ℕ)
  | work (channel : ℕ) (now : ℕ) (choice : Bool)
  | cancelWorker (channel : ℕ)
  | close
  | cancel

namespace Dispatcher

def start (channels : List ChannelConfig) : Dispatcher :=
  ⟨⟨0, 0, 0, 0, 0, 0⟩, false, false, channels.map DispatchChannel.start, [], [], []⟩

/-- `Shared::finish`. -/
def finish (finish : Finish) (dispatcher : Dispatcher) : Dispatcher :=
  let stats := dispatcher.stats
  { dispatcher with
    stats := { stats with
      pending := stats.pending - 1
      dropped := if finish.dropped then stats.dropped + 1 else stats.dropped
      completed := if finish.dropped then stats.completed else stats.completed + 1
      failed := if finish.failed then stats.failed + 1 else stats.failed
      suppressed := if finish.suppressed then stats.suppressed + 1 else stats.suppressed }
    finishes := dispatcher.finishes ++ [finish.ticket] }

variable (encode : AlertEvent → Option ℕ) (config : DeliveryConfig) (dispatcher : Dispatcher)

/-- The admission of an event to a channel, under the locks of both counters. -/
def accept (index : ℕ) (event : AlertEvent) (size channel : ℕ) (rest : List ℕ)
    (state : DispatchChannel) : Dispatcher :=
  let stats := { dispatcher.stats with accepted := dispatcher.stats.accepted + 1 }
  let admitted := dispatcher.admitted ++ [(event, channel)]
  let ticket := dispatcher.stats.accepted
  if dispatcher.closed = true ∨ size > config.maxPendingBytes - state.bytes then
    { dispatcher with
      stats := { stats with dropped := stats.dropped + 1 }
      sends := resume dispatcher.sends index (some (.admitting event size rest))
      admitted
      finishes := dispatcher.finishes ++ [ticket] }
  else
    { dispatcher with
      stats := { stats with pending := stats.pending + 1 }
      channels := dispatcher.channels.set channel { state with bytes := state.bytes + size }
      sends := resume dispatcher.sends index (some (.queueing ⟨ticket, event, size⟩ channel rest))
      admitted }

/-- The next step of a call of `send`. -/
def advanceSend (index : ℕ) : Option Dispatcher :=
  match dispatcher.sends[index]? with
  | none => none
  | some (.admitting _ _ []) =>
    some { dispatcher with sends := resume dispatcher.sends index none }
  | some (.admitting event size (channel :: rest)) =>
    match dispatcher.channels[channel]? with
    | none => none
    | some state =>
      if accepts state.config event then
        some (dispatcher.accept config index event size channel rest state)
      else
        some { dispatcher with
          sends := resume dispatcher.sends index (some (.admitting event size rest)) }
  | some (.queueing pending channel rest) =>
    match dispatcher.channels[channel]? with
    | none => none
    | some state =>
      if state.isOpen = true ∧ state.queue.length < config.queueCapacity then
        some { dispatcher with
          channels := dispatcher.channels.set channel
            { state with queue := state.queue ++ [pending] }
          sends := resume dispatcher.sends index
            (some (.admitting pending.event pending.bytes rest)) }
      else
        some { dispatcher with
          sends := resume dispatcher.sends index (some (.refused pending channel rest)) }
  | some (.refused pending channel rest) =>
    match dispatcher.channels[channel]? with
    | none => none
    | some state =>
      some { dispatcher with
        channels := dispatcher.channels.set channel
          { state with bytes := state.bytes - pending.bytes }
        sends := resume dispatcher.sends index (some (.reporting pending rest)) }
  | some (.reporting pending rest) =>
    some ({ dispatcher with
      sends := resume dispatcher.sends index
        (some (.admitting pending.event pending.bytes rest)) }.finish
        ⟨pending.ticket, true, false, false⟩)

/-- An event that cannot be encoded is not sent.  `close` and dropping the dispatcher both set the
flag and then cancel the workers; reading the statistics and waiting for them change nothing. -/
def step : DispatchAction → Option Dispatcher
  | .send event =>
    match encode event with
    | none => some dispatcher
    | some size =>
      some { dispatcher with
        sends := dispatcher.sends ++
          [.admitting event size (List.range dispatcher.channels.length)] }
  | .advanceSend index => advanceSend config dispatcher index
  | .work channel now choice =>
    match dispatcher.channels[channel]? with
    | none => none
    | some state =>
      match state.work config now choice with
      | none => none
      | some (state', none) =>
        some { dispatcher with channels := dispatcher.channels.set channel state' }
      | some (state', some done) =>
        some ({ dispatcher with channels := dispatcher.channels.set channel state' }.finish done)
  | .cancelWorker channel =>
    if dispatcher.cancelled = true then
      match dispatcher.channels[channel]? with
      | none => none
      | some state =>
        state.cancel.map fun state' ↦
          { dispatcher with channels := dispatcher.channels.set channel state' }
    else none
  | .close => some { dispatcher with closed := true }
  | .cancel => if dispatcher.closed = true then some { dispatcher with cancelled := true } else none

end Dispatcher

end Rvx.Tracking
