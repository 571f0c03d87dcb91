import Rvx.Tracking.Dispatcher

/-!
# The dispatcher accounts for its events

Every ticket is held by one owner or finished, in every interleaving; a byte counter holds the bytes
of the events of its channel that are not released; and a channel suppresses an event only after it
has sent one with the same key.
-/

namespace Rvx.Tracking

open Core InFlight

/-! ## What is held -/

section Weights

variable (weight : ℕ → ℕ)

/-- The weight of the ticket a worker holds and has not finished. -/
def ChannelWorker.live : ChannelWorker → ℕ
  | .taken pending | .waiting pending | .delivering pending | .abandoned pending
  | .reporting pending | .discarding pending | .discarded pending => weight pending.ticket
  | .ready | .finished _ | .closing | .draining | .exited => 0

/-- The bytes a worker holds and has not released. -/
def ChannelWorker.held : ChannelWorker → ℕ
  | .taken pending | .waiting pending | .delivering pending | .finished pending
  | .abandoned pending | .discarding pending => pending.bytes
  | .ready | .reporting _ | .discarded _ | .closing | .draining | .exited => 0

namespace DispatchChannel

def live (channel : DispatchChannel) : ℕ :=
  total (fun pending : Pending ↦ weight pending.ticket) channel.queue + channel.worker.live weight

def held (channel : DispatchChannel) : ℕ := total Pending.bytes channel.queue + channel.worker.held

end DispatchChannel

namespace DispatchCall

def live : DispatchCall → ℕ
  | .queueing pending _ _ | .refused pending _ _ | .reporting pending _ => weight pending.ticket
  | .admitting _ _ _ => 0

/-- The bytes a call has reserved in a channel. -/
def held (channel : ℕ) : DispatchCall → ℕ
  | .queueing pending owner _ | .refused pending owner _ =>
    if owner = channel then pending.bytes else 0
  | .admitting _ _ _ | .reporting _ _ => 0

end DispatchCall

/-- The weight of the ticket that is finished, if one is. -/
def finishWeight (finish : Option Finish) : ℕ := finish.elim 0 fun done ↦ weight done.ticket

end Weights

/-! ## One worker -/

namespace DispatchChannel

variable {config : DeliveryConfig} {channel channel' : DispatchChannel} {finish : Option Finish}
  {now : ℕ} {choice : Bool}

/-- A step of a worker hands a ticket on or finishes it, and releases bytes that are held. -/
structure Hands (channel channel' : DispatchChannel) (finish : Option Finish) : Prop where
  live : ∀ weight, channel'.live weight + finishWeight weight finish = channel.live weight
  held : ∀ reserved, channel.bytes = channel.held + reserved →
    channel'.bytes = channel'.held + reserved
  bytes : channel'.bytes ≤ channel.bytes

/-- The worker goes on with the event it holds, or finishes it. -/
theorem Hands.of_worker {old new : ChannelWorker} (hworker : channel.worker = old)
    (hworker' : channel'.worker = new) (hqueue : channel'.queue = channel.queue)
    (hbytes : channel'.bytes = channel.bytes)
    (hlive : ∀ weight, new.live weight + finishWeight weight finish = old.live weight)
    (hheld : new.held = old.held) : Hands channel channel' finish := by
  subst hworker hworker'
  refine ⟨fun weight ↦ ?_, fun reserved hreserved ↦ ?_, hbytes.le⟩
  · rw [DispatchChannel.live, DispatchChannel.live, hqueue, ← hlive, Nat.add_assoc]
  · rw [hbytes, hreserved, DispatchChannel.held, DispatchChannel.held, hqueue, hheld]

/-- The worker releases the bytes of the event it holds. -/
theorem Hands.of_release {old new : ChannelWorker} {bytes : ℕ} (hworker : channel.worker = old)
    (hlive : ∀ weight, new.live weight = old.live weight) (hold : old.held = bytes)
    (hnew : new.held = 0) :
    Hands channel { channel with bytes := channel.bytes - bytes, worker := new } none := by
  subst hworker hold
  refine ⟨fun weight ↦ ?_, fun reserved hreserved ↦ ?_, Nat.sub_le _ _⟩
  · rw [DispatchChannel.live, DispatchChannel.live, hlive]
    rfl
  · rw [DispatchChannel.held] at hreserved ⊢
    dsimp only
    omega

/-- The worker takes the first event of the queue. -/
theorem Hands.of_take {old new : ChannelWorker} {pending : Pending} {rest : List Pending}
    (hworker : channel.worker = old) (hqueue : channel.queue = pending :: rest)
    (hold : old.held = 0 ∧ ∀ weight, old.live weight = 0)
    (hnew : new.held = pending.bytes ∧ ∀ weight, new.live weight = weight pending.ticket) :
    Hands channel { channel with queue := rest, worker := new } none := by
  subst hworker
  refine ⟨fun weight ↦ ?_, fun reserved hreserved ↦ ?_, le_rfl⟩
  · rw [DispatchChannel.live, DispatchChannel.live, hqueue, total_cons, hold.2, hnew.2,
      finishWeight, Option.elim_none]
    dsimp only
    omega
  · rw [DispatchChannel.held, hqueue, total_cons, hold.1] at hreserved
    rw [DispatchChannel.held, hnew.1]
    dsimp only
    omega

theorem work_hands (h : channel.work config now choice = some (channel', finish)) :
    Hands channel channel' finish := by
  unfold work at h
  split at h
  · rename_i hworker
    split at h
    · simp at h
    · rename_i pending rest hqueue
      obtain ⟨rfl, rfl⟩ := Prod.mk.inj (Option.some.inj h)
      exact .of_take hworker hqueue ⟨rfl, fun _ ↦ rfl⟩ ⟨rfl, fun _ ↦ rfl⟩
  · rename_i pending hworker
    dsimp only at h
    split_ifs at h
    · obtain ⟨rfl, rfl⟩ := Prod.mk.inj (Option.some.inj h)
      exact .of_worker hworker rfl rfl rfl (fun _ ↦ Nat.zero_add _) rfl
    · obtain ⟨rfl, rfl⟩ := Prod.mk.inj (Option.some.inj h)
      exact .of_worker hworker rfl rfl rfl (fun _ ↦ rfl) rfl
    · obtain ⟨rfl, rfl⟩ := Prod.mk.inj (Option.some.inj h)
      exact .of_worker hworker rfl rfl rfl (fun _ ↦ rfl) rfl
  · rename_i pending hworker
    obtain ⟨rfl, rfl⟩ := Prod.mk.inj (Option.some.inj h)
    exact .of_worker hworker rfl rfl rfl (fun _ ↦ rfl) rfl
  · rename_i pending hworker
    split_ifs at h
    · obtain ⟨rfl, rfl⟩ := Prod.mk.inj (Option.some.inj h)
      exact .of_worker hworker rfl rfl rfl (fun _ ↦ Nat.zero_add _) rfl
    · obtain ⟨rfl, rfl⟩ := Prod.mk.inj (Option.some.inj h)
      exact .of_worker hworker rfl rfl rfl (fun _ ↦ Nat.zero_add _) rfl
  · rename_i pending hworker
    obtain ⟨rfl, rfl⟩ := Prod.mk.inj (Option.some.inj h)
    exact .of_release hworker (fun _ ↦ rfl) rfl rfl
  · rename_i pending hworker
    obtain ⟨rfl, rfl⟩ := Prod.mk.inj (Option.some.inj h)
    exact .of_release hworker (fun _ ↦ rfl) rfl rfl
  · rename_i pending hworker
    obtain ⟨rfl, rfl⟩ := Prod.mk.inj (Option.some.inj h)
    exact .of_worker hworker rfl rfl rfl (fun _ ↦ Nat.zero_add _) rfl
  · rename_i hworker
    obtain ⟨rfl, rfl⟩ := Prod.mk.inj (Option.some.inj h)
    exact .of_worker hworker rfl rfl rfl (fun _ ↦ rfl) rfl
  · rename_i hworker
    split at h
    · obtain ⟨rfl, rfl⟩ := Prod.mk.inj (Option.some.inj h)
      exact .of_worker hworker rfl rfl rfl (fun _ ↦ rfl) rfl
    · rename_i pending rest hqueue
      obtain ⟨rfl, rfl⟩ := Prod.mk.inj (Option.some.inj h)
      exact .of_take hworker hqueue ⟨rfl, fun _ ↦ rfl⟩ ⟨rfl, fun _ ↦ rfl⟩
  · rename_i pending hworker
    obtain ⟨rfl, rfl⟩ := Prod.mk.inj (Option.some.inj h)
    exact .of_release hworker (fun _ ↦ rfl) rfl rfl
  · rename_i pending hworker
    obtain ⟨rfl, rfl⟩ := Prod.mk.inj (Option.some.inj h)
    exact .of_worker hworker rfl rfl rfl (fun _ ↦ Nat.zero_add _) rfl
  · simp at h

theorem cancel_hands (h : channel.cancel = some channel') : Hands channel channel' none := by
  unfold cancel at h
  split at h
  · rename_i hworker
    obtain rfl := Option.some.inj h
    exact .of_worker hworker rfl rfl rfl (fun _ ↦ rfl) rfl
  · rename_i pending hworker
    obtain rfl := Option.some.inj h
    exact .of_worker hworker rfl rfl rfl (fun _ ↦ rfl) rfl
  · rename_i pending hworker
    obtain rfl := Option.some.inj h
    exact .of_worker hworker rfl rfl rfl (fun _ ↦ rfl) rfl
  · simp at h

/-! ## Duplicates -/

/-- The events a worker has sent. -/
def Sent (deliveries : List Delivery) (key : List Char) : Prop :=
  ∃ event, .sent event ∈ deliveries ∧ dedupKey event = key

/-- Whatever is remembered was sent, and whatever is suppressed was sent before. -/
structure Justified (channel : DispatchChannel) : Prop where
  known : ∀ entry ∈ channel.dedup, Sent channel.deliveries entry.1
  suppressed : ∀ before event after,
    channel.deliveries = before ++ .suppressed event :: after → Sent before (dedupKey event)

theorem Sent.append {deliveries : List Delivery} {key : List Char} (h : Sent deliveries key)
    (more : List Delivery) : Sent (deliveries ++ more) key := by
  obtain ⟨event, hsent, hkey⟩ := h
  exact ⟨event, List.mem_append_left more hsent, hkey⟩

/-- The record after one more delivery. -/
theorem suppressed_concat {deliveries : List Delivery} {delivery : Delivery}
    (h : ∀ before event after, deliveries = before ++ .suppressed event :: after →
      Sent before (dedupKey event))
    (hlast : ∀ event, delivery = .suppressed event → Sent deliveries (dedupKey event)) :
    ∀ before event after, deliveries ++ [delivery] = before ++ .suppressed event :: after →
      Sent before (dedupKey event) := by
  intro before event after hsplit
  cases after using List.reverseRecOn with
  | nil =>
    obtain ⟨rfl, heq⟩ := List.append_inj' hsplit rfl
    exact hlast event (by simpa using heq)
  | append_singleton after last =>
    rw [← List.cons_append, ← List.append_assoc] at hsplit
    exact h before event after (List.append_inj' hsplit rfl).1

theorem Justified.start (config : ChannelConfig) : Justified (start config) where
  known := by simp [DispatchChannel.start]
  suppressed before event after h := by simp [DispatchChannel.start] at h

theorem mem_remember {event : AlertEvent} {dedup : List (List Char × ℕ)} {entry : List Char × ℕ}
    (h : entry ∈ remember config now event dedup) : entry ∈ dedup ∨ entry.1 = dedupKey event := by
  unfold remember at h
  split at h
  · dsimp only at h
    rcases List.mem_append.mp h with hold | hnew
    · have hkept := List.mem_of_mem_filter hold
      split at hkept
      · simp at hkept
      · exact Or.inl hkept
    · exact Or.inr (congrArg Prod.fst (List.mem_singleton.mp hnew))
  · exact Or.inl h

theorem Justified.work (hjustified : Justified channel)
    (h : channel.work config now choice = some (channel', finish)) : Justified channel' := by
  have hrecent : ∀ entry ∈ recent config now channel.dedup, Sent channel.deliveries entry.1 :=
    fun entry hentry ↦ hjustified.known entry (List.mem_of_mem_filter hentry)
  unfold DispatchChannel.work at h
  split at h
  · split at h
    · simp at h
    · obtain ⟨rfl, rfl⟩ := Prod.mk.inj (Option.some.inj h)
      exact ⟨hjustified.known, hjustified.suppressed⟩
  · rename_i pending hworker
    dsimp only at h
    split_ifs at h with hknows
    · obtain ⟨rfl, rfl⟩ := Prod.mk.inj (Option.some.inj h)
      obtain ⟨entry, hentry, hkey⟩ := hknows
      refine ⟨fun other hother ↦ (hrecent other hother).append _,
        suppressed_concat hjustified.suppressed fun event heq ↦ ?_⟩
      obtain rfl := Delivery.suppressed.inj heq
      exact hkey ▸ hrecent entry hentry
    · obtain ⟨rfl, rfl⟩ := Prod.mk.inj (Option.some.inj h)
      exact ⟨hrecent, hjustified.suppressed⟩
    · obtain ⟨rfl, rfl⟩ := Prod.mk.inj (Option.some.inj h)
      exact ⟨hrecent, hjustified.suppressed⟩
  · obtain ⟨rfl, rfl⟩ := Prod.mk.inj (Option.some.inj h)
    exact ⟨hjustified.known, hjustified.suppressed⟩
  · rename_i pending hworker
    split_ifs at h
    · obtain ⟨rfl, rfl⟩ := Prod.mk.inj (Option.some.inj h)
      refine ⟨fun entry hentry ↦ ?_,
        suppressed_concat hjustified.suppressed fun event heq ↦ by simp at heq⟩
      rcases mem_remember hentry with hold | hnew
      · exact (hjustified.known entry hold).append _
      · exact ⟨pending.event, List.mem_append_right _ (List.mem_singleton_self _), hnew.symm⟩
    · obtain ⟨rfl, rfl⟩ := Prod.mk.inj (Option.some.inj h)
      exact ⟨hjustified.known, hjustified.suppressed⟩
  · obtain ⟨rfl, rfl⟩ := Prod.mk.inj (Option.some.inj h)
    exact ⟨hjustified.known, hjustified.suppressed⟩
  · obtain ⟨rfl, rfl⟩ := Prod.mk.inj (Option.some.inj h)
    exact ⟨hjustified.known, hjustified.suppressed⟩
  · obtain ⟨rfl, rfl⟩ := Prod.mk.inj (Option.some.inj h)
    exact ⟨hjustified.known, hjustified.suppressed⟩
  · obtain ⟨rfl, rfl⟩ := Prod.mk.inj (Option.some.inj h)
    exact ⟨hjustified.known, hjustified.suppressed⟩
  · split at h
    · obtain ⟨rfl, rfl⟩ := Prod.mk.inj (Option.some.inj h)
      exact ⟨hjustified.known, hjustified.suppressed⟩
    · obtain ⟨rfl, rfl⟩ := Prod.mk.inj (Option.some.inj h)
      exact ⟨hjustified.known, hjustified.suppressed⟩
  · obtain ⟨rfl, rfl⟩ := Prod.mk.inj (Option.some.inj h)
    exact ⟨hjustified.known, hjustified.suppressed⟩
  · obtain ⟨rfl, rfl⟩ := Prod.mk.inj (Option.some.inj h)
    exact ⟨hjustified.known, hjustified.suppressed⟩
  · simp at h

theorem Justified.cancel (hjustified : Justified channel) (h : channel.cancel = some channel') :
    Justified channel' := by
  unfold DispatchChannel.cancel at h
  split at h
  · obtain rfl := Option.some.inj h
    exact ⟨hjustified.known, hjustified.suppressed⟩
  · obtain rfl := Option.some.inj h
    exact ⟨hjustified.known, hjustified.suppressed⟩
  · obtain rfl := Option.some.inj h
    exact ⟨hjustified.known, hjustified.suppressed⟩
  · simp at h

/-! ## The end of a worker -/

end DispatchChannel

/-- The worker has closed its queue. -/
def ChannelWorker.Drains : ChannelWorker → Prop
  | .draining | .discarding _ | .discarded _ | .exited => True
  | .ready | .taken _ | .waiting _ | .delivering _ | .finished _ | .abandoned _ | .reporting _
  | .closing => False

namespace DispatchChannel

variable {config : DeliveryConfig} {channel channel' : DispatchChannel} {finish : Option Finish}
  {now : ℕ} {choice : Bool}

/-- A worker that drains has closed its queue, and one that has ended has emptied it. -/
structure Ending (channel : DispatchChannel) : Prop where
  closed : channel.worker.Drains → channel.isOpen = false
  emptied : channel.worker = .exited → channel.queue = []

theorem Ending.start (config : ChannelConfig) : Ending (start config) :=
  ⟨False.elim, fun _ ↦ rfl⟩

theorem Ending.work (hending : Ending channel)
    (h : channel.work config now choice = some (channel', finish)) : Ending channel' := by
  unfold DispatchChannel.work at h
  split at h
  · split at h
    · simp at h
    · obtain ⟨rfl, rfl⟩ := Prod.mk.inj (Option.some.inj h)
      exact ⟨False.elim, fun hexited ↦ by simp at hexited⟩
  · dsimp only at h
    split_ifs at h
    · obtain ⟨rfl, rfl⟩ := Prod.mk.inj (Option.some.inj h)
      exact ⟨False.elim, fun hexited ↦ by simp at hexited⟩
    · obtain ⟨rfl, rfl⟩ := Prod.mk.inj (Option.some.inj h)
      exact ⟨False.elim, fun hexited ↦ by simp at hexited⟩
    · obtain ⟨rfl, rfl⟩ := Prod.mk.inj (Option.some.inj h)
      exact ⟨False.elim, fun hexited ↦ by simp at hexited⟩
  · obtain ⟨rfl, rfl⟩ := Prod.mk.inj (Option.some.inj h)
    exact ⟨False.elim, fun hexited ↦ by simp at hexited⟩
  · split_ifs at h
    · obtain ⟨rfl, rfl⟩ := Prod.mk.inj (Option.some.inj h)
      exact ⟨False.elim, fun hexited ↦ by simp at hexited⟩
    · obtain ⟨rfl, rfl⟩ := Prod.mk.inj (Option.some.inj h)
      exact ⟨False.elim, fun hexited ↦ by simp at hexited⟩
  · obtain ⟨rfl, rfl⟩ := Prod.mk.inj (Option.some.inj h)
    exact ⟨False.elim, fun hexited ↦ by simp at hexited⟩
  · obtain ⟨rfl, rfl⟩ := Prod.mk.inj (Option.some.inj h)
    exact ⟨False.elim, fun hexited ↦ by simp at hexited⟩
  · obtain ⟨rfl, rfl⟩ := Prod.mk.inj (Option.some.inj h)
    exact ⟨False.elim, fun hexited ↦ by simp at hexited⟩
  · obtain ⟨rfl, rfl⟩ := Prod.mk.inj (Option.some.inj h)
    exact ⟨fun _ ↦ rfl, fun hexited ↦ by simp at hexited⟩
  · rename_i hworker
    have hclosed := hending.closed (hworker ▸ trivial)
    split at h
    · rename_i hqueue
      obtain ⟨rfl, rfl⟩ := Prod.mk.inj (Option.some.inj h)
      exact ⟨fun _ ↦ hclosed, fun _ ↦ hqueue⟩
    · obtain ⟨rfl, rfl⟩ := Prod.mk.inj (Option.some.inj h)
      exact ⟨fun _ ↦ hclosed, fun hexited ↦ by simp at hexited⟩
  · rename_i pending hworker
    obtain ⟨rfl, rfl⟩ := Prod.mk.inj (Option.some.inj h)
    exact ⟨fun _ ↦ hending.closed (hworker ▸ trivial), fun hexited ↦ by simp at hexited⟩
  · rename_i pending hworker
    obtain ⟨rfl, rfl⟩ := Prod.mk.inj (Option.some.inj h)
    exact ⟨fun _ ↦ hending.closed (hworker ▸ trivial), fun hexited ↦ by simp at hexited⟩
  · simp at h

theorem Ending.cancel (h : channel.cancel = some channel') : Ending channel' := by
  unfold DispatchChannel.cancel at h
  split at h
  · obtain rfl := Option.some.inj h
    exact ⟨False.elim, fun hexited ↦ by simp at hexited⟩
  · obtain rfl := Option.some.inj h
    exact ⟨False.elim, fun hexited ↦ by simp at hexited⟩
  · obtain rfl := Option.some.inj h
    exact ⟨False.elim, fun hexited ↦ by simp at hexited⟩
  · simp at h

end DispatchChannel

/-! ## The dispatcher -/

namespace Dispatcher

open DispatchChannel

/-- The invariant of every interleaving.  A finish may be owed: its owner has given up the event and
has not counted it. -/
structure Accounted (config : DeliveryConfig) (owed : Option Finish) (dispatcher : Dispatcher) :
    Prop where
  tickets : ∀ weight, total weight dispatcher.finishes + finishWeight weight owed +
      (total (DispatchCall.live weight) dispatcher.sends +
        total (DispatchChannel.live weight) dispatcher.channels) =
    total weight (List.range dispatcher.stats.accepted)
  pending : dispatcher.stats.pending = finishWeight (fun _ ↦ 1) owed +
    (total (DispatchCall.live fun _ ↦ 1) dispatcher.sends +
      total (DispatchChannel.live fun _ ↦ 1) dispatcher.channels)
  settled : dispatcher.stats.completed + dispatcher.stats.dropped = dispatcher.finishes.length
  admitted : dispatcher.admitted.length = dispatcher.stats.accepted
  bytes : ∀ index channel, dispatcher.channels[index]? = some channel →
    channel.bytes = channel.held + total (DispatchCall.held index) dispatcher.sends ∧
      channel.bytes ≤ config.maxPendingBytes
  justified : ∀ channel ∈ dispatcher.channels, Justified channel
  ending : ∀ channel ∈ dispatcher.channels, Ending channel

variable {config : DeliveryConfig} {dispatcher dispatcher' : Dispatcher} {owed : Option Finish}

theorem accounted_start (channels : List ChannelConfig) :
    Accounted config none (start channels) := by
  have hlive (weight : ℕ → ℕ) :
      total (DispatchChannel.live weight) (channels.map DispatchChannel.start) = 0 := by
    induction channels with
    | nil => rfl
    | cons channel rest ih => rw [List.map_cons, total_cons, ih]; rfl
  refine ⟨fun weight ↦ ?_, ?_, rfl, rfl, fun index channel hchannel ↦ ?_, ?_, ?_⟩
  · simp [start, finishWeight, hlive]
  · simp [start, finishWeight, hlive]
  · have hmem : channel ∈ channels.map DispatchChannel.start := List.mem_of_getElem? hchannel
    obtain ⟨config', -, rfl⟩ := List.mem_map.mp hmem
    exact ⟨rfl, Nat.zero_le _⟩
  · intro channel hchannel
    obtain ⟨config', -, rfl⟩ := List.mem_map.mp hchannel
    exact .start config'
  · intro channel hchannel
    obtain ⟨config', -, rfl⟩ := List.mem_map.mp hchannel
    exact .start config'

/-- The finish that is owed is counted. -/
theorem Accounted.finish {done : Finish} (h : Accounted config (some done) dispatcher) :
    Accounted config none (dispatcher.finish done) := by
  have hpending := h.pending
  have hsettled := h.settled
  simp only [finishWeight, Option.elim_some] at hpending
  refine { h with tickets := fun weight ↦ ?_, pending := ?_, settled := ?_ }
  · have htickets := h.tickets weight
    simp only [Dispatcher.finish, finishWeight, total_append, total_cons, total_nil,
      Option.elim_some, Option.elim_none] at htickets ⊢
    omega
  · simp only [Dispatcher.finish, finishWeight, Option.elim_none]
    omega
  · simp only [Dispatcher.finish, List.length_append, List.length_singleton]
    split <;> omega

/-- A worker makes a step. -/
theorem Accounted.worked (h : Accounted config none dispatcher) {index : ℕ}
    {channel channel' : DispatchChannel} {finish : Option Finish}
    (hchannel : dispatcher.channels[index]? = some channel)
    (hands : Hands channel channel' finish) (hjustified : Justified channel')
    (hending : Ending channel') :
    Accounted config finish
      { dispatcher with channels := dispatcher.channels.set index channel' } := by
  have hmem (other : DispatchChannel) (hother : other ∈ dispatcher.channels.set index channel') :
      other = channel' ∨ other ∈ dispatcher.channels := (List.mem_or_eq_of_mem_set hother).symm
  refine { h with
    tickets := fun weight ↦ ?_, pending := ?_, bytes := ?_, justified := ?_, ending := ?_ }
  · have htotal := @total_set _ (DispatchChannel.live weight) _ _ _ hchannel channel'
    have htickets := h.tickets weight
    have hlive := hands.live weight
    simp only [finishWeight, Option.elim_none] at htickets hlive ⊢
    omega
  · have htotal := @total_set _ (DispatchChannel.live fun _ ↦ 1) _ _ _ hchannel channel'
    have hpending := h.pending
    have hlive := hands.live fun _ ↦ 1
    simp only [finishWeight, Option.elim_none] at hpending hlive ⊢
    omega
  · intro other state hstate
    dsimp only at hstate ⊢
    rw [List.getElem?_set] at hstate
    split at hstate
    · rename_i heq
      subst heq
      split at hstate
      · obtain rfl := Option.some.inj hstate
        obtain ⟨hbytes, hfits⟩ := h.bytes index channel hchannel
        exact ⟨hands.held _ hbytes, hands.bytes.trans hfits⟩
      · simp at hstate
    · exact h.bytes other state hstate
  · intro other hother
    exact (hmem other hother).elim (fun heq ↦ heq ▸ hjustified) (h.justified other)
  · intro other hother
    exact (hmem other hother).elim (fun heq ↦ heq ▸ hending) (h.ending other)

/-- A call of `send` goes on with the event it owns, gives it up, or ends. -/
theorem Accounted.resumed (h : Accounted config none dispatcher) {index : ℕ} {call : DispatchCall}
    (hcall : dispatcher.sends[index]? = some call) (next : Option DispatchCall)
    (hlive : ∀ weight, total (DispatchCall.live weight) next.toList + finishWeight weight owed =
      call.live weight)
    (hheld : ∀ channel, total (DispatchCall.held channel) next.toList = call.held channel) :
    Accounted config owed { dispatcher with sends := resume dispatcher.sends index next } := by
  refine { h with tickets := fun weight ↦ ?_, pending := ?_, bytes := ?_ }
  · have htotal := @total_resume _ (DispatchCall.live weight) _ _ _ hcall next
    have htickets := h.tickets weight
    have hweight := hlive weight
    simp only [finishWeight, Option.elim_none] at htickets hweight ⊢
    omega
  · have htotal := @total_resume _ (DispatchCall.live fun _ ↦ 1) _ _ _ hcall next
    have hpending := h.pending
    have hweight := hlive fun _ ↦ 1
    simp only [finishWeight, Option.elim_none] at hpending hweight ⊢
    omega
  · intro channel state hstate
    obtain ⟨hbytes, hfits⟩ := h.bytes channel state hstate
    have htotal := @total_resume _ (DispatchCall.held channel) _ _ _ hcall next
    have hsame := hheld channel
    refine ⟨?_, hfits⟩
    dsimp only
    omega

section Exchange

variable {index channel : ℕ} {call next : DispatchCall} {state state' : DispatchChannel}

/-- The byte counters when a call of `send` changes a channel together with what it owns itself. -/
theorem Accounted.exchanged_bytes (h : Accounted config none dispatcher)
    (hcall : dispatcher.sends[index]? = some call)
    (hstate : dispatcher.channels[channel]? = some state)
    (hothers : ∀ other, other ≠ channel → next.held other = call.held other)
    (hheld : ∀ reserved, state.bytes = state.held + (call.held channel + reserved) →
      state'.bytes = state'.held + (next.held channel + reserved) ∧
        state'.bytes ≤ config.maxPendingBytes) :
    ∀ other found, (dispatcher.channels.set channel state')[other]? = some found →
      found.bytes = found.held + total (DispatchCall.held other)
          (resume dispatcher.sends index (some next)) ∧
        found.bytes ≤ config.maxPendingBytes := by
  intro other found hfound
  have hcalls := @total_resume _ (DispatchCall.held other) _ _ _ hcall (some next)
  have herase := @total_eraseIdx _ (DispatchCall.held other) _ _ _ hcall
  simp only [Option.toList_some, total_cons, total_nil] at hcalls
  rw [List.getElem?_set] at hfound
  split at hfound
  · rename_i heq
    subst heq
    split at hfound
    · obtain rfl := Option.some.inj hfound
      have hbytes := (h.bytes channel state hstate).1
      obtain ⟨hnew, hfits⟩ := hheld
        (total (DispatchCall.held channel) (dispatcher.sends.eraseIdx index)) (by omega)
      exact ⟨by omega, hfits⟩
    · simp at hfound
  · rename_i hne
    have hsame := hothers other (Ne.symm hne)
    obtain ⟨hbytes, hfits⟩ := h.bytes other found hfound
    exact ⟨by omega, hfits⟩

/-- What holds of every channel holds when one is changed. -/
theorem mem_exchanged {property : DispatchChannel → Prop}
    (h : ∀ found ∈ dispatcher.channels, property found)
    (hstate : dispatcher.channels[channel]? = some state)
    (hproperty : property state → property state') :
    ∀ found ∈ dispatcher.channels.set channel state', property found := by
  intro found hfound
  rcases List.mem_or_eq_of_mem_set hfound with hmem | rfl
  · exact h found hmem
  · exact hproperty (h state (List.mem_of_getElem? hstate))

/-- A call of `send` hands the event on to a channel, or releases its bytes. -/
theorem Accounted.exchanged (h : Accounted config none dispatcher)
    (hcall : dispatcher.sends[index]? = some call)
    (hstate : dispatcher.channels[channel]? = some state)
    (hlive : ∀ weight, next.live weight + state'.live weight = call.live weight + state.live weight)
    (hothers : ∀ other, other ≠ channel → next.held other = call.held other)
    (hheld : ∀ reserved, state.bytes = state.held + (call.held channel + reserved) →
      state'.bytes = state'.held + (next.held channel + reserved))
    (hbytes : state'.bytes ≤ state.bytes)
    (hjustified : Justified state → Justified state') (hending : Ending state → Ending state') :
    Accounted config none { dispatcher with
      channels := dispatcher.channels.set channel state'
      sends := resume dispatcher.sends index (some next) } := by
  have hfits := hbytes.trans (h.bytes channel state hstate).2
  refine { h with
    tickets := fun weight ↦ ?_
    pending := ?_
    bytes := h.exchanged_bytes hcall hstate hothers fun reserved hreserved ↦
      ⟨hheld reserved hreserved, hfits⟩
    justified := mem_exchanged h.justified hstate hjustified
    ending := mem_exchanged h.ending hstate hending }
  · have hcalls := @total_resume _ (DispatchCall.live weight) _ _ _ hcall (some next)
    have hchannels := @total_set _ (DispatchChannel.live weight) _ _ _ hstate state'
    have htickets := h.tickets weight
    have hsame := hlive weight
    simp only [Option.toList_some, total_cons, total_nil] at hcalls
    dsimp only
    omega
  · have hcalls := @total_resume _ (DispatchCall.live fun _ ↦ 1) _ _ _ hcall (some next)
    have hchannels := @total_set _ (DispatchChannel.live fun _ ↦ 1) _ _ _ hstate state'
    have hpending := h.pending
    have hsame := hlive fun _ ↦ 1
    simp only [Option.toList_some, total_cons, total_nil] at hcalls
    dsimp only
    omega

end Exchange

/-- An event is accepted for a channel: it is dropped at once or gets an owner. -/
theorem Accounted.accept (h : Accounted config none dispatcher) {index channel size : ℕ}
    {event : AlertEvent} {rest : List ℕ} {state : DispatchChannel}
    (hcall : dispatcher.sends[index]? = some (.admitting event size (channel :: rest)))
    (hstate : dispatcher.channels[channel]? = some state) :
    Accounted config none (dispatcher.accept config index event size channel rest state) := by
  have hadmitted := h.admitted
  have hsettled := h.settled
  have hpending := h.pending
  unfold Dispatcher.accept
  dsimp only
  split_ifs with hrefused
  · have hresumed : Accounted config none { dispatcher with
        sends := resume dispatcher.sends index (some (.admitting event size rest)) } :=
      h.resumed hcall _ (fun _ ↦ rfl) fun _ ↦ rfl
    refine { hresumed with tickets := fun weight ↦ ?_, settled := ?_, admitted := ?_ }
    · have htickets := hresumed.tickets weight
      simp only [total_append, total_cons, total_nil, List.range_succ] at htickets ⊢
      omega
    · simp only [List.length_append, List.length_singleton]
      omega
    · simp only [List.length_append, List.length_singleton]
      omega
  · obtain ⟨-, hfits⟩ := not_or.mp hrefused
    have hroom : state.bytes + size ≤ config.maxPendingBytes := by
      have hle := (h.bytes channel state hstate).2
      omega
    have hbytes : ∀ other found,
        (dispatcher.channels.set channel { state with bytes := state.bytes + size })[other]? =
            some found →
          found.bytes = found.held + total (DispatchCall.held other) (resume dispatcher.sends index
              (some (.queueing ⟨dispatcher.stats.accepted, event, size⟩ channel rest))) ∧
            found.bytes ≤ config.maxPendingBytes := by
      refine h.exchanged_bytes hcall hstate (fun other hne ↦ ?_) fun reserved hreserved ↦ ?_
      · simp [DispatchCall.held, Ne.symm hne]
      · simp only [DispatchCall.held, DispatchChannel.held, if_pos] at hreserved ⊢
        omega
    refine { h with
      tickets := fun weight ↦ ?_
      pending := ?_
      admitted := by
        simp only [List.length_append, List.length_singleton]
        omega
      bytes := hbytes
      justified := mem_exchanged h.justified hstate fun hold ↦ ⟨hold.known, hold.suppressed⟩
      ending := mem_exchanged h.ending hstate fun hold ↦ ⟨hold.closed, hold.emptied⟩ }
    · have hcalls := @total_resume _ (DispatchCall.live weight) _ _ _ hcall
        (some (.queueing ⟨dispatcher.stats.accepted, event, size⟩ channel rest))
      have hchannels := @total_set _ (DispatchChannel.live weight) _ _ _ hstate
        { state with bytes := state.bytes + size }
      have htickets := h.tickets weight
      simp only [Option.toList_some, total_cons, total_nil, total_append, List.range_succ,
        DispatchCall.live, DispatchChannel.live] at hcalls hchannels htickets ⊢
      omega
    · have hcalls := @total_resume _ (DispatchCall.live fun _ ↦ 1) _ _ _ hcall
        (some (.queueing ⟨dispatcher.stats.accepted, event, size⟩ channel rest))
      have hchannels := @total_set _ (DispatchChannel.live fun _ ↦ 1) _ _ _ hstate
        { state with bytes := state.bytes + size }
      simp only [Option.toList_some, total_cons, total_nil, DispatchCall.live,
        DispatchChannel.live] at hcalls hchannels hpending ⊢
      omega

theorem Accounted.advanceSend (h : Accounted config none dispatcher) {index : ℕ}
    (hstep : dispatcher.advanceSend config index = some dispatcher') :
    Accounted config none dispatcher' := by
  unfold Dispatcher.advanceSend at hstep
  split at hstep
  · simp at hstep
  · rename_i hcall
    obtain rfl := Option.some.inj hstep
    exact h.resumed hcall _ (fun _ ↦ rfl) fun _ ↦ rfl
  · rename_i event size channel rest hcall
    split at hstep
    · simp at hstep
    · rename_i state hstate
      split_ifs at hstep
      · exact Option.some.inj hstep ▸ h.accept hcall hstate
      · obtain rfl := Option.some.inj hstep
        exact h.resumed hcall _ (fun _ ↦ rfl) fun _ ↦ rfl
  · rename_i pending channel rest hcall
    split at hstep
    · simp at hstep
    · rename_i state hstate
      split_ifs at hstep with hroom
      · obtain rfl := Option.some.inj hstep
        refine h.exchanged hcall hstate (fun weight ↦ ?_) (fun other hne ↦ ?_)
          (fun reserved hreserved ↦ ?_) le_rfl (fun hold ↦ ⟨hold.known, hold.suppressed⟩)
          (fun hold ↦ ⟨hold.closed, fun hexited ↦ ?_⟩)
        · simp only [DispatchCall.live, DispatchChannel.live, total_append, total_cons, total_nil]
          omega
        · simp [DispatchCall.held, Ne.symm hne]
        · simp only [DispatchCall.held, DispatchChannel.held, total_append, total_cons, total_nil,
            if_pos] at hreserved ⊢
          omega
        · have hclosed := hold.closed (by dsimp only at hexited; rw [hexited]; trivial)
          simp [hroom.1] at hclosed
      · obtain rfl := Option.some.inj hstep
        exact h.resumed hcall _ (fun _ ↦ rfl) fun _ ↦ rfl
  · rename_i pending channel rest hcall
    split at hstep
    · simp at hstep
    · rename_i state hstate
      obtain rfl := Option.some.inj hstep
      refine h.exchanged hcall hstate (fun _ ↦ rfl) (fun other hne ↦ ?_)
        (fun reserved hreserved ↦ ?_) (Nat.sub_le _ _)
        (fun hold ↦ ⟨hold.known, hold.suppressed⟩) (fun hold ↦ ⟨hold.closed, hold.emptied⟩)
      · simp [DispatchCall.held, Ne.symm hne]
      · simp only [DispatchCall.held, DispatchChannel.held, if_pos] at hreserved ⊢
        omega
  · rename_i pending rest hcall
    obtain rfl := Option.some.inj hstep
    exact (h.resumed hcall _ (fun _ ↦ Nat.zero_add _) fun _ ↦ rfl).finish

/-- The step lemma: every step keeps the account. -/
theorem Accounted.step {encode : AlertEvent → Option ℕ} (h : Accounted config none dispatcher)
    {action : DispatchAction} (hstep : dispatcher.step encode config action = some dispatcher') :
    Accounted config none dispatcher' := by
  unfold Dispatcher.step at hstep
  cases action with
  | send event =>
    dsimp only at hstep
    split at hstep
    · exact Option.some.inj hstep ▸ h
    · obtain rfl := Option.some.inj hstep
      refine { h with tickets := fun weight ↦ ?_, pending := ?_, bytes := ?_ }
      · simpa [DispatchCall.live] using h.tickets weight
      · simpa [DispatchCall.live] using h.pending
      · simpa [DispatchCall.held] using h.bytes
  | advanceSend index => exact h.advanceSend hstep
  | work channel now choice =>
    dsimp only at hstep
    split at hstep
    · simp at hstep
    · rename_i state hstate
      have hmem := List.mem_of_getElem? hstate
      split at hstep
      · simp at hstep
      · rename_i state' hwork
        obtain rfl := Option.some.inj hstep
        exact h.worked hstate (work_hands hwork) ((h.justified state hmem).work hwork)
          ((h.ending state hmem).work hwork)
      · rename_i state' done hwork
        obtain rfl := Option.some.inj hstep
        exact (h.worked hstate (work_hands hwork) ((h.justified state hmem).work hwork)
          ((h.ending state hmem).work hwork)).finish
  | cancelWorker channel =>
    dsimp only at hstep
    split_ifs at hstep
    split at hstep
    · simp at hstep
    · rename_i state hstate
      obtain ⟨state', hcancel, rfl⟩ := Option.map_eq_some_iff.mp hstep
      have hmem := List.mem_of_getElem? hstate
      exact h.worked hstate (cancel_hands hcancel) ((h.justified state hmem).cancel hcancel)
        (.cancel hcancel)
  | close => exact Option.some.inj hstep ▸ { h with }
  | cancel =>
    dsimp only at hstep
    split_ifs at hstep
    exact Option.some.inj hstep ▸ { h with }

/-! ## Every interleaving -/

/-- The calls, queues and workers that own the event with a ticket and have not finished it. -/
def owners (dispatcher : Dispatcher) (ticket : ℕ) : ℕ :=
  total (DispatchCall.live fun other ↦ if other = ticket then 1 else 0) dispatcher.sends +
    total (DispatchChannel.live fun other ↦ if other = ticket then 1 else 0) dispatcher.channels

theorem total_one (list : List ℕ) : total (fun _ ↦ 1) list = list.length := by
  simp [total]

theorem total_indicator (list : List ℕ) (ticket : ℕ) :
    total (fun other ↦ if other = ticket then 1 else 0) list = list.count ticket := by
  induction list with
  | nil => rfl
  | cons head rest ih => simp only [total_cons, ih, List.count_cons, beq_iff_eq, Nat.add_comm]

/-- The numbers of events and of tickets with their owners. -/
theorem Accounted.counts (h : Accounted config none dispatcher) :
    dispatcher.stats.accepted =
        dispatcher.stats.completed + dispatcher.stats.dropped + dispatcher.stats.pending ∧
      ∀ ticket, dispatcher.finishes.count ticket + dispatcher.owners ticket =
        if ticket < dispatcher.admitted.length then 1 else 0 := by
  constructor
  · have hcount := h.tickets fun _ ↦ 1
    have hpending := h.pending
    have hsettled := h.settled
    simp only [total_one, List.length_range, finishWeight, Option.elim_none] at hcount hpending
    omega
  · intro ticket
    have hcount := h.tickets fun other ↦ if other = ticket then 1 else 0
    simp only [total_indicator, finishWeight, Option.elim_none, Nat.add_zero] at hcount
    rw [owners, hcount, h.admitted, List.nodup_range.count]
    simp

/-- A worker that has ended owns nothing. -/
theorem Accounted.exited (h : Accounted config none dispatcher) {channel : DispatchChannel}
    (hchannel : channel ∈ dispatcher.channels) (hexited : channel.worker = .exited) :
    (∀ weight, channel.live weight = 0) ∧ channel.held = 0 := by
  have hqueue := (h.ending channel hchannel).emptied hexited
  refine ⟨fun weight ↦ ?_, ?_⟩
  · rw [DispatchChannel.live, hqueue, hexited]
    rfl
  · rw [DispatchChannel.held, hqueue, hexited]
    rfl

theorem total_eq_zero {weight : DispatchChannel → ℕ} {channels : List DispatchChannel}
    (h : ∀ channel ∈ channels, weight channel = 0) : total weight channels = 0 := by
  induction channels with
  | nil => rfl
  | cons channel rest ih =>
    rw [total_cons, h channel List.mem_cons_self,
      ih fun other hother ↦ h other (List.mem_cons_of_mem channel hother)]

/-- Once every worker has ended and no call is in progress, every event is finished. -/
theorem Accounted.drained (h : Accounted config none dispatcher) (hsends : dispatcher.sends = [])
    (hexited : ∀ channel ∈ dispatcher.channels, channel.worker = .exited) :
    dispatcher.stats.pending = 0 ∧ (∀ channel ∈ dispatcher.channels, channel.bytes = 0) ∧
      dispatcher.finishes.Perm (List.range dispatcher.admitted.length) := by
  have hlive (weight : ℕ → ℕ) : total (DispatchChannel.live weight) dispatcher.channels = 0 :=
    total_eq_zero fun channel hchannel ↦ (h.exited hchannel (hexited channel hchannel)).1 weight
  refine ⟨?_, fun channel hchannel ↦ ?_, List.perm_iff_count.mpr fun ticket ↦ ?_⟩
  · have hpending := h.pending
    rwa [hsends, hlive, total_nil] at hpending
  · obtain ⟨index, hindex⟩ := List.getElem?_of_mem hchannel
    have hbytes := (h.bytes index channel hindex).1
    rwa [hsends, total_nil, (h.exited hchannel (hexited channel hchannel)).2] at hbytes
  · have hcount := h.counts.2 ticket
    rw [owners, hsends, hlive, total_nil] at hcount
    rw [List.nodup_range.count]
    simpa using hcount

/-! ## Keys -/

/-- A text is determined up to its first separator. -/
theorem append_cons_inj {separator : Char} {first first' rest rest' : List Char}
    (h : separator ∉ first) (h' : separator ∉ first')
    (heq : first ++ separator :: rest = first' ++ separator :: rest') :
    first = first' ∧ rest = rest' := by
  have hspan (first rest : List Char) (h : separator ∉ first) :
      (first ++ separator :: rest).takeWhile (· ≠ separator) = first := by
    have hall : ∀ character ∈ first, decide (character ≠ separator) = true :=
      fun character hmem ↦ decide_eq_true fun heq ↦ h (heq ▸ hmem)
    rw [List.takeWhile_append_of_pos hall, List.takeWhile_cons_of_neg (by simp), List.append_nil]
  have hfirst : first = first' := by
    rw [← hspan first rest h, heq, hspan first' rest' h']
  subst hfirst
  exact ⟨rfl, (List.cons.inj (List.append_cancel_left heq)).2⟩

/-- Where the names of the rules contain no NUL, the key is the level, the rule and the message. -/
theorem dedupKey_inj {event event' : AlertEvent} (h : Char.ofNat 0 ∉ event.rule.toList)
    (h' : Char.ofNat 0 ∉ event'.rule.toList) (hkey : dedupKey event = dedupKey event') :
    event.level = event'.level ∧ event.rule = event'.rule ∧ event.message = event'.message := by
  have hdebug (level : AlertLevel) : Char.ofNat 0 ∉ level.debug.toList := by
    cases level <;> decide
  obtain ⟨hlevel, hrest⟩ := append_cons_inj (hdebug _) (hdebug _) hkey
  obtain ⟨hrule, hmessage⟩ := append_cons_inj h h' hrest
  refine ⟨?_, String.toList_injective hrule, String.toList_injective hmessage⟩
  revert hlevel
  cases event.level <;> cases event'.level <;> decide

/-- In every interleaving: every accepted event is completed, dropped or pending; a byte counter
holds what its channel and the calls of `send` have reserved and not released, within its bound;
every accepted event is finished once or has one owner; a channel suppresses an event only after it
sent one with the same key; and once the workers have ended, every event is finished. -/
theorem dispatcher_accounting {encode : AlertEvent → Option ℕ} {channels : List ChannelConfig}
    {actions : List DispatchAction}
    (h : Runs.after (step encode config) actions (start channels) = some dispatcher) :
    dispatcher.stats.accepted =
        dispatcher.stats.completed + dispatcher.stats.dropped + dispatcher.stats.pending ∧
      (∀ index channel, dispatcher.channels[index]? = some channel →
        channel.bytes = channel.held + total (DispatchCall.held index) dispatcher.sends ∧
          channel.bytes ≤ config.maxPendingBytes) ∧
      (∀ ticket, dispatcher.finishes.count ticket + dispatcher.owners ticket =
        if ticket < dispatcher.admitted.length then 1 else 0) ∧
      (∀ channel ∈ dispatcher.channels, ∀ before event after,
        channel.deliveries = before ++ .suppressed event :: after →
          ∃ earlier, .sent earlier ∈ before ∧ dedupKey earlier = dedupKey event ∧
            (Char.ofNat 0 ∉ earlier.rule.toList → Char.ofNat 0 ∉ event.rule.toList →
              earlier.level = event.level ∧ earlier.rule = event.rule ∧
                earlier.message = event.message)) ∧
      (dispatcher.sends = [] → (∀ channel ∈ dispatcher.channels, channel.worker = .exited) →
        dispatcher.stats.pending = 0 ∧ (∀ channel ∈ dispatcher.channels, channel.bytes = 0) ∧
          dispatcher.finishes.Perm (List.range dispatcher.admitted.length)) := by
  have haccounted := Runs.invariant (Accounted config none) (fun hold hstep ↦ hold.step hstep)
    (accounted_start channels) h
  obtain ⟨haccepted, htickets⟩ := haccounted.counts
  refine ⟨haccepted, haccounted.bytes, htickets, ?_, haccounted.drained⟩
  intro channel hchannel before event after hsplit
  obtain ⟨earlier, hsent, hkey⟩ :=
    (haccounted.justified channel hchannel).suppressed before event after hsplit
  exact ⟨earlier, hsent, hkey, fun hrule hrule' ↦ dedupKey_inj hrule hrule' hkey⟩

section Sample

def sampleChannel : ChannelConfig := ⟨"team", .warning, [], []⟩

def sampleLimits : DeliveryConfig := ⟨20, 300, 4, 10⟩

def sampleNotice (rule message : String) (step : ℤ) : AlertEvent :=
  ⟨rule, .error, message, step, 100, false, [], []⟩

/-- An event is sent to the one channel and its worker takes it. -/
def sampleTaken (event : AlertEvent) : List DispatchAction :=
  [.send event, .advanceSend 0, .advanceSend 0, .advanceSend 0, .work 0 0 false]

def sampleRequest : List DispatchAction := [.work 0 0 false, .work 0 0 true, .work 0 0 true]

/-- A sent event, a duplicate at a later step and an event that is cancelled. -/
def sampleDispatch : List DispatchAction :=
  sampleTaken (sampleNotice "loss" "high" 1) ++ sampleRequest ++
    sampleTaken (sampleNotice "loss" "high" 2) ++ [.work 0 0 false, .work 0 0 false] ++
    sampleTaken (sampleNotice "rate" "low" 3) ++
    [.work 0 0 false, .close, .cancel, .cancelWorker 0, .work 0 0 false, .work 0 0 false,
     .work 0 0 false, .work 0 0 false]

theorem dispatcher_accounting_sample : ∃ dispatcher,
    Runs.after (step (fun _ ↦ some 2) sampleLimits) sampleDispatch (start [sampleChannel]) =
        some dispatcher ∧
      dispatcher.stats = ⟨3, 2, 1, 0, 0, 1⟩ ∧
      dispatcher.finishes.Perm (List.range dispatcher.admitted.length) := by
  have hsample : (Runs.after (step (fun _ ↦ some 2) sampleLimits) sampleDispatch
      (start [sampleChannel])).map (fun dispatcher ↦ (dispatcher.stats, dispatcher.sends,
        dispatcher.channels.all fun channel ↦ channel.worker = .exited)) =
      some (⟨3, 2, 1, 0, 0, 1⟩, [], true) := by decide +kernel
  obtain ⟨dispatcher, hafter, hviews⟩ := Option.map_eq_some_iff.mp hsample
  simp only [Prod.mk.injEq, List.all_eq_true, decide_eq_true_eq] at hviews
  obtain ⟨-, -, -, -, hdrained⟩ := dispatcher_accounting hafter
  exact ⟨dispatcher, hafter, hviews.1, (hdrained hviews.2.1 hviews.2.2).2.2⟩

/-- A channel suppresses an event of a later step, and one with another rule and another message,
though it has sent neither. -/
theorem dispatcher_suppresses_other : ∃ actions dispatcher,
    Runs.after (step (fun _ ↦ some 2) sampleLimits) actions (start [sampleChannel]) =
        some dispatcher ∧
      dispatcher.channels.map DispatchChannel.deliveries =
        [[.sent (sampleNotice "a\x00b" "c" 1), .suppressed (sampleNotice "a\x00b" "c" 2),
          .suppressed (sampleNotice "a" "b\x00c" 3)]] := by
  have hrun : (Runs.after (step (fun _ ↦ some 2) sampleLimits)
      (sampleTaken (sampleNotice "a\x00b" "c" 1) ++ sampleRequest ++
        sampleTaken (sampleNotice "a\x00b" "c" 2) ++ [.work 0 0 false, .work 0 0 false] ++
        sampleTaken (sampleNotice "a" "b\x00c" 3) ++ [.work 0 0 false, .work 0 0 false])
      (start [sampleChannel])).map
        (fun dispatcher ↦ dispatcher.channels.map DispatchChannel.deliveries) =
      some [[.sent (sampleNotice "a\x00b" "c" 1), .suppressed (sampleNotice "a\x00b" "c" 2),
        .suppressed (sampleNotice "a" "b\x00c" 3)]] := by decide +kernel
  obtain ⟨dispatcher, hafter, hdeliveries⟩ := Option.map_eq_some_iff.mp hrun
  exact ⟨_, dispatcher, hafter, hdeliveries⟩

end Sample

end Dispatcher

end Rvx.Tracking
