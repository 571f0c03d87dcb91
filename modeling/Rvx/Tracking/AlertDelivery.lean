import Rvx.Tracking.AlertQueue

/-!
# Alert delivery accounts for its events

The bytes that are reserved, the events that are counted and the order in which the sink receives
them, in every interleaving.  What is enqueued after the last look of the worker is lost; no other
event is.
-/

namespace Rvx.Tracking

open Core InFlight

def QueueMessage.bytes : QueueMessage → ℕ
  | .event _ bytes => bytes
  | .flush _ => 0

def QueueMessage.count : QueueMessage → ℕ
  | .event _ _ => 1
  | .flush _ => 0

def QueueMessage.event? : QueueMessage → Option AlertEvent
  | .event alert _ => some alert
  | .flush _ => none

/-- The bytes a call of `send` has reserved. -/
def SendCall.bytes : SendCall → ℕ
  | .reserved _ bytes | .checked _ bytes | .refused bytes => bytes
  | .encoding _ | .dropping => 0

/-- The bytes of the event the worker holds. -/
def SinkWorker.bytes : SinkWorker → ℕ
  | .delivering bytes | .delivered bytes | .discarding bytes | .discarded bytes => bytes
  | .ready | .receiving | .flushing _ | .draining | .closing | .exited => 0

/-- The events the worker holds and has not counted. -/
def SinkWorker.count : SinkWorker → ℕ
  | .delivering _ | .discarding _ => 1
  | .delivered _ | .discarded _ | .ready | .receiving | .flushing _ | .draining | .closing
  | .exited => 0

/-- The worker still hands events to the sink. -/
def SinkWorker.Serves : SinkWorker → Prop
  | .ready | .receiving | .delivering _ | .delivered _ | .flushing _ => True
  | .draining | .discarding _ | .discarded _ | .closing | .exited => False

namespace AlertQueue

/-- The events among messages. -/
def events (messages : List QueueMessage) : List AlertEvent :=
  messages.filterMap QueueMessage.event?

theorem events_flush (messages : List QueueMessage) (ticket : ℕ) :
    events (messages ++ [.flush ticket]) = events messages := by
  simp [events, QueueMessage.event?]

/-- The invariant of every interleaving. -/
structure Accounted (maxBytes : ℕ) (queue : AlertQueue) : Prop where
  bytes : queue.bytes = total QueueMessage.bytes queue.channel + queue.worker.bytes +
    total SendCall.bytes queue.sends + total QueueMessage.bytes queue.lost
  fits : queue.bytes ≤ maxBytes
  counts : queue.accepted = queue.completed + queue.dropped +
    (total QueueMessage.count queue.channel + queue.worker.count + queue.sends.length +
      total QueueMessage.count queue.lost)
  order : ∃ discarded, (queue.worker.Serves → discarded = []) ∧
    queue.enqueued = queue.received ++ discarded ++ events queue.channel ++ events queue.lost
  alive : queue.worker ≠ .exited → queue.lost = []
  ended : queue.worker = .exited → queue.channel = []

variable {encode : AlertEvent → Option ℕ} {capacity maxBytes : ℕ} {queue queue' : AlertQueue}

theorem accounted_start : Accounted maxBytes start where
  bytes := rfl
  fits := Nat.zero_le _
  counts := rfl
  order := ⟨[], fun _ ↦ rfl, rfl⟩
  alive _ := rfl
  ended _ := rfl

/-- A call of `send` that goes on with the bytes it had. -/
theorem Accounted.resumed (h : Accounted maxBytes queue) {index : ℕ} {call next : SendCall}
    (hcall : queue.sends[index]? = some call) (hbytes : next.bytes = call.bytes) :
    Accounted maxBytes { queue with sends := resume queue.sends index (some next) } := by
  have htotal := @total_resume _ SendCall.bytes _ _ _ hcall (some next)
  have hlength := length_resume hcall (some next)
  have hsum := h.bytes
  have hcounts := h.counts
  simp only [Option.toList_some, total_cons, total_nil, List.length_singleton] at htotal hlength
  exact { h with
    bytes := by
      dsimp only
      omega
    counts := by
      dsimp only
      omega }

theorem Accounted.advanceSend (h : Accounted maxBytes queue) {index : ℕ}
    (hstep : queue.advanceSend encode capacity maxBytes index = some queue') :
    Accounted maxBytes queue' := by
  have hsum := h.bytes
  have hcounts := h.counts
  unfold AlertQueue.advanceSend at hstep
  split at hstep
  · simp at hstep
  · rename_i event hcall
    split at hstep
    · obtain rfl := Option.some.inj hstep
      exact h.resumed hcall rfl
    · rename_i bytes hbytes
      split_ifs at hstep with hfits
      · obtain rfl := Option.some.inj hstep
        have htotal := @total_resume _ SendCall.bytes _ _ _ hcall (some (.reserved event bytes))
        have hlength := length_resume hcall (some (.reserved event bytes))
        simp only [Option.toList_some, total_cons, total_nil, List.length_singleton,
          SendCall.bytes] at htotal hlength
        exact { h with
          bytes := by
            dsimp only
            omega
          fits := hfits
          counts := by
            dsimp only
            omega }
      · obtain rfl := Option.some.inj hstep
        exact h.resumed hcall rfl
  · rename_i event bytes hcall
    split_ifs at hstep
    · obtain rfl := Option.some.inj hstep
      exact h.resumed hcall rfl
    · obtain rfl := Option.some.inj hstep
      exact h.resumed hcall rfl
  · rename_i event bytes hcall
    split_ifs at hstep with hopen
    · obtain rfl := Option.some.inj hstep
      have htotal := @total_resume _ SendCall.bytes _ _ _ hcall none
      have hlength := length_resume hcall none
      simp only [Option.toList_none, total_nil, List.length_nil, SendCall.bytes] at htotal hlength
      obtain ⟨discarded, hserves, horder⟩ := h.order
      have hlost := h.alive hopen.1
      exact { h with
        bytes := by
          simp only [total_append, total_cons, total_nil, QueueMessage.bytes]
          omega
        counts := by
          simp only [total_append, total_cons, total_nil, QueueMessage.count]
          omega
        order := by
          refine ⟨discarded, hserves, ?_⟩
          dsimp only
          rw [horder, hlost]
          simp [events, QueueMessage.event?]
        ended := fun hexited ↦ absurd hexited hopen.1 }
    · obtain rfl := Option.some.inj hstep
      exact h.resumed hcall rfl
  · rename_i bytes hcall
    obtain rfl := Option.some.inj hstep
    have htotal := @total_resume _ SendCall.bytes _ _ _ hcall (some .dropping)
    have hlength := length_resume hcall (some .dropping)
    have hfits := h.fits
    simp only [Option.toList_some, total_cons, total_nil, List.length_singleton,
      SendCall.bytes] at htotal hlength
    exact { h with
      bytes := by
        dsimp only
        omega
      fits := by
        dsimp only
        omega
      counts := by
        dsimp only
        omega }
  · rename_i hcall
    obtain rfl := Option.some.inj hstep
    have htotal := @total_resume _ SendCall.bytes _ _ _ hcall none
    have hlength := length_resume hcall none
    simp only [Option.toList_none, total_nil, List.length_nil, SendCall.bytes] at htotal hlength
    exact { h with
      bytes := by
        dsimp only
        omega
      counts := by
        dsimp only
        omega }

/-- The worker moves on with the event it holds. -/
theorem Accounted.moved (h : Accounted maxBytes queue) {old worker : SinkWorker}
    (hworker : queue.worker = old) (hbytes : worker.bytes = old.bytes)
    (hcount : worker.count = old.count) (hserves : worker.Serves → old.Serves)
    (halive : old ≠ .exited) (hexited : worker ≠ .exited) :
    Accounted maxBytes { queue with worker } := by
  subst hworker
  obtain ⟨discarded, hdiscarded, horder⟩ := h.order
  exact { h with
    bytes := by
      dsimp only
      rw [hbytes]
      exact h.bytes
    counts := by
      dsimp only
      rw [hcount]
      exact h.counts
    order := ⟨discarded, fun hworker ↦ hdiscarded (hserves hworker), horder⟩
    alive := fun _ ↦ h.alive halive
    ended := fun heq ↦ absurd heq hexited }

/-- A flush is no event. -/
theorem Accounted.flushed (h : Accounted maxBytes queue) {ticket : ℕ} {rest : List QueueMessage}
    (hchannel : queue.channel = .flush ticket :: rest) :
    Accounted maxBytes { queue with channel := rest } := by
  have hsum := h.bytes
  have hcounts := h.counts
  have horder := h.order
  have hended := h.ended
  rw [hchannel] at hsum hcounts horder hended
  exact { h with
    bytes := by simpa [QueueMessage.bytes] using hsum
    counts := by simpa [QueueMessage.count] using hcounts
    order := horder
    ended := fun hexited ↦ by simpa using hended hexited }

/-- The worker takes an event out of the channel, for the sink or to discard it. -/
theorem Accounted.took (h : Accounted maxBytes queue) {event : AlertEvent} {bytes : ℕ}
    {rest : List QueueMessage} {old worker : SinkWorker} {received discarded : List AlertEvent}
    (hworker : queue.worker = old) (hold : old.bytes = 0 ∧ old.count = 0 ∧ old ≠ .exited)
    (hnew : worker.bytes = bytes ∧ worker.count = 1 ∧ worker ≠ .exited)
    (hchannel : queue.channel = .event event bytes :: rest)
    (hserves : worker.Serves → discarded = [])
    (horder : queue.enqueued = received ++ discarded ++ events rest ++ events queue.lost) :
    Accounted maxBytes { queue with channel := rest, worker, received } := by
  have hsum := h.bytes
  have hcounts := h.counts
  rw [hworker, hchannel, total_cons, QueueMessage.bytes, hold.1] at hsum
  rw [hworker, hchannel, total_cons, QueueMessage.count, hold.2.1] at hcounts
  exact { h with
    bytes := by
      dsimp only
      rw [hnew.1]
      omega
    counts := by
      dsimp only
      rw [hnew.2.1]
      omega
    order := ⟨discarded, hserves, horder⟩
    alive := fun _ ↦ h.alive (hworker ▸ hold.2.2)
    ended := fun heq ↦ absurd heq hnew.2.2 }

/-- The worker counts the event it holds. -/
theorem Accounted.counted (h : Accounted maxBytes queue) {old worker : SinkWorker}
    {completed dropped : ℕ} (hworker : queue.worker = old) (hbytes : worker.bytes = old.bytes)
    (hcount : old.count = 1 ∧ worker.count = 0)
    (hcounts : completed + dropped = queue.completed + queue.dropped + 1)
    (hserves : worker.Serves → old.Serves) (halive : old ≠ .exited) (hexited : worker ≠ .exited) :
    Accounted maxBytes { queue with completed, dropped, worker } := by
  subst hworker
  have hsum := h.counts
  obtain ⟨discarded, hdiscarded, horder⟩ := h.order
  exact { h with
    bytes := by
      dsimp only
      rw [hbytes]
      exact h.bytes
    counts := by
      dsimp only
      omega
    order := ⟨discarded, fun hworker ↦ hdiscarded (hserves hworker), horder⟩
    alive := fun _ ↦ h.alive halive
    ended := fun heq ↦ absurd heq hexited }

/-- The worker releases the bytes of the event it has counted. -/
theorem Accounted.released (h : Accounted maxBytes queue) {old worker : SinkWorker} {bytes : ℕ}
    (hworker : queue.worker = old) (hold : old.bytes = bytes ∧ old.count = 0 ∧ old ≠ .exited)
    (hnew : worker.bytes = 0 ∧ worker.count = 0 ∧ worker ≠ .exited)
    (hserves : worker.Serves → old.Serves) :
    Accounted maxBytes { queue with bytes := queue.bytes - bytes, worker } := by
  subst hworker
  have hsum := h.bytes
  have hcounts := h.counts
  have hfits := h.fits
  obtain ⟨discarded, hdiscarded, horder⟩ := h.order
  exact { h with
    bytes := by
      dsimp only
      omega
    fits := (Nat.sub_le _ _).trans hfits
    counts := by
      dsimp only
      omega
    order := ⟨discarded, fun hworker ↦ hdiscarded (hserves hworker), horder⟩
    alive := fun _ ↦ h.alive hold.2.2
    ended := fun heq ↦ absurd heq hnew.2.2 }

/-- A step of the worker keeps the account. -/
theorem Accounted.work (h : Accounted maxBytes queue) {complete : Bool}
    (hstep : queue.work complete = some queue') : Accounted maxBytes queue' := by
  obtain ⟨discarded, hdiscarded, horder⟩ := h.order
  unfold AlertQueue.work at hstep
  split at hstep
  · rename_i hworker
    obtain rfl := Option.some.inj hstep
    split
    · exact h.moved hworker rfl rfl False.elim (by simp) (by simp)
    · exact h.moved hworker rfl rfl id (by simp) (by simp)
  · rename_i hworker
    split at hstep
    · obtain rfl := Option.some.inj hstep
      split
      · exact h.moved hworker rfl rfl id (by simp) (by simp)
      · exact h.moved hworker rfl rfl False.elim (by simp) (by simp)
    · rename_i event bytes rest hchannel
      obtain rfl := Option.some.inj hstep
      have hnone : discarded = [] := hdiscarded (by rw [hworker]; trivial)
      refine h.took hworker (by simp [SinkWorker.bytes, SinkWorker.count])
        (by simp [SinkWorker.bytes, SinkWorker.count]) hchannel (fun _ ↦ rfl) ?_
      rw [horder, hnone, hchannel]
      simp [events, QueueMessage.event?]
    · rename_i ticket rest hchannel
      obtain rfl := Option.some.inj hstep
      have hflushed := h.flushed hchannel
      exact hflushed.moved hworker rfl rfl id (by simp) (by simp)
  · rename_i bytes hworker
    obtain rfl := Option.some.inj hstep
    exact h.counted hworker rfl ⟨rfl, rfl⟩ (by omega) id (by simp) (by simp)
  · rename_i bytes hworker
    obtain rfl := Option.some.inj hstep
    exact h.released hworker ⟨rfl, rfl, by simp⟩ ⟨rfl, rfl, by simp⟩ id
  · rename_i ticket hworker
    obtain rfl := Option.some.inj hstep
    have hmoved : Accounted maxBytes { queue with worker := .ready } :=
      h.moved hworker rfl rfl id (by simp) (by simp)
    exact { hmoved with }
  · rename_i hworker
    split at hstep
    · obtain rfl := Option.some.inj hstep
      exact h.moved hworker rfl rfl False.elim (by simp) (by simp)
    · rename_i event bytes rest hchannel
      obtain rfl := Option.some.inj hstep
      refine @Accounted.took _ _ h _ _ _ _ _ _ (discarded ++ [event]) hworker
        (by simp [SinkWorker.bytes, SinkWorker.count])
        (by simp [SinkWorker.bytes, SinkWorker.count]) hchannel False.elim ?_
      rw [horder, hchannel]
      simp [events, QueueMessage.event?]
    · rename_i ticket rest hchannel
      obtain rfl := Option.some.inj hstep
      exact h.flushed hchannel
  · rename_i bytes hworker
    obtain rfl := Option.some.inj hstep
    exact h.counted hworker rfl ⟨rfl, rfl⟩ (by omega) id (by simp) (by simp)
  · rename_i bytes hworker
    obtain rfl := Option.some.inj hstep
    exact h.released hworker ⟨rfl, rfl, by simp⟩ ⟨rfl, rfl, by simp⟩ False.elim
  · rename_i hworker
    obtain rfl := Option.some.inj hstep
    have hlost := h.alive (by simp [hworker])
    have hsum := h.bytes
    have hcounts := h.counts
    rw [hworker, hlost] at hsum hcounts
    simp only [SinkWorker.bytes, SinkWorker.count, total_nil] at hsum hcounts
    exact { h with
      bytes := by
        simp only [SinkWorker.bytes, total_nil]
        omega
      counts := by
        simp only [SinkWorker.count, total_nil]
        omega
      order := by
        refine ⟨discarded, False.elim, ?_⟩
        dsimp only
        rw [horder, hlost]
        simp [events]
      alive := fun hne ↦ absurd rfl hne
      ended := fun _ ↦ rfl }
  · simp at hstep

/-- A call of `close` enqueues a flush, sets the stop flag and changes nothing else. -/
theorem advanceClose_spec {index : ℕ} {expired : Bool}
    (hstep : queue.advanceClose capacity index expired = some queue') :
    ∃ channel stop handle closes results, queue' =
        { queue with channel, stop, handle, closes, results } ∧ queue.closes ≠ [] ∧
      (stop = true ∨ stop = queue.stop) ∧
      (channel = queue.channel ∨
        queue.Open capacity ∧ ∃ ticket, channel = queue.channel ++ [.flush ticket]) := by
  have hcalls {call : CloseCall} (hcall : queue.closes[index]? = some call) : queue.closes ≠ [] := by
    intro hnil
    simp [hnil] at hcall
  unfold AlertQueue.advanceClose at hstep
  split at hstep
  · simp at hstep
  · rename_i ticket hcall
    split_ifs at hstep with hopen
    · exact ⟨_, _, _, _, _, (Option.some.inj hstep).symm, hcalls hcall, Or.inr rfl,
        Or.inr ⟨hopen, ticket, rfl⟩⟩
    · exact ⟨_, _, _, _, _, (Option.some.inj hstep).symm, hcalls hcall, Or.inr rfl, Or.inl rfl⟩
  · rename_i ticket hcall
    split at hstep
    · exact ⟨_, _, _, _, _, (Option.some.inj hstep).symm, hcalls hcall, Or.inr rfl, Or.inl rfl⟩
    · split_ifs at hstep
      exact ⟨_, _, _, _, _, (Option.some.inj hstep).symm, hcalls hcall, Or.inr rfl, Or.inl rfl⟩
  · rename_i flushed hcall
    split_ifs at hstep
    · exact ⟨_, _, _, _, _, (Option.some.inj hstep).symm, hcalls hcall, Or.inl rfl, Or.inl rfl⟩
    · exact ⟨_, _, _, _, _, (Option.some.inj hstep).symm, hcalls hcall, Or.inl rfl, Or.inl rfl⟩
  · rename_i flushed hcall
    split_ifs at hstep
    · exact ⟨_, _, _, _, _, (Option.some.inj hstep).symm, hcalls hcall, Or.inr rfl, Or.inl rfl⟩
    · exact ⟨_, _, _, _, _, (Option.some.inj hstep).symm, hcalls hcall, Or.inr rfl, Or.inl rfl⟩

theorem Accounted.advanceClose (h : Accounted maxBytes queue) {index : ℕ} {expired : Bool}
    (hstep : queue.advanceClose capacity index expired = some queue') :
    Accounted maxBytes queue' := by
  obtain ⟨channel, stop, handle, closes, results, rfl, -, -, hchannel⟩ := advanceClose_spec hstep
  rcases hchannel with rfl | ⟨hopen, ticket, rfl⟩
  · exact { h with }
  · obtain ⟨discarded, hdiscarded, horder⟩ := h.order
    exact { h with
      bytes := by simpa [QueueMessage.bytes] using h.bytes
      counts := by simpa [QueueMessage.count] using h.counts
      order := ⟨discarded, hdiscarded, by rwa [events_flush]⟩
      ended := fun hexited ↦ absurd hexited hopen.1 }

/-- The step lemma: every step keeps the account. -/
theorem Accounted.step (h : Accounted maxBytes queue) {action : QueueAction}
    (hstep : queue.step encode capacity maxBytes action = some queue') :
    Accounted maxBytes queue' := by
  cases action with
  | send event =>
    simp only [AlertQueue.step] at hstep
    split_ifs at hstep
    obtain rfl := Option.some.inj hstep
    have hcounts := h.counts
    exact { h with
      bytes := by simpa [SendCall.bytes] using h.bytes
      counts := by
        simp only [List.length_append, List.length_singleton]
        omega }
  | advanceSend index => exact h.advanceSend hstep
  | work complete => exact h.work hstep
  | close =>
    simp only [AlertQueue.step] at hstep
    split_ifs at hstep
    exact Option.some.inj hstep ▸ { h with }
  | advanceClose index expired => exact h.advanceClose hstep
  | drop =>
    simp only [AlertQueue.step] at hstep
    split_ifs at hstep
    exact Option.some.inj hstep ▸ { h with }

/-! ## No event is lost -/

/-- No event is enqueued between the last look of the worker and its end. -/
def Timely (queue : AlertQueue) (action : QueueAction) : Prop :=
  ∀ index event bytes, action = .advanceSend index →
    queue.sends[index]? = some (.checked event bytes) → queue.worker ≠ .closing

/-- A worker that has had its last look leaves no event behind. -/
def Complete (queue : AlertQueue) : Prop :=
  (queue.worker = .closing → events queue.channel = []) ∧ events queue.lost = []

theorem Complete.advanceSend (h : Complete queue) {index : ℕ}
    (htimely : Timely queue (.advanceSend index))
    (hstep : queue.advanceSend encode capacity maxBytes index = some queue') :
    Complete queue' := by
  unfold AlertQueue.advanceSend at hstep
  split at hstep
  · simp at hstep
  · split at hstep
    · exact Option.some.inj hstep ▸ h
    · split_ifs at hstep
      · exact Option.some.inj hstep ▸ h
      · exact Option.some.inj hstep ▸ h
  · split_ifs at hstep
    · exact Option.some.inj hstep ▸ h
    · exact Option.some.inj hstep ▸ h
  · rename_i event bytes hcall
    split_ifs at hstep
    · obtain rfl := Option.some.inj hstep
      exact ⟨fun hclosing ↦ absurd hclosing (htimely index event bytes rfl hcall), h.2⟩
    · exact Option.some.inj hstep ▸ h
  · exact Option.some.inj hstep ▸ h
  · exact Option.some.inj hstep ▸ h

theorem Complete.work (h : Complete queue) {complete : Bool}
    (hstep : queue.work complete = some queue') : Complete queue' := by
  unfold AlertQueue.work at hstep
  split at hstep
  · obtain rfl := Option.some.inj hstep
    exact ⟨fun hclosing ↦ by dsimp only at hclosing; split at hclosing <;> simp at hclosing, h.2⟩
  · split at hstep
    · rename_i hchannel
      obtain rfl := Option.some.inj hstep
      exact ⟨fun _ ↦ by dsimp only; rw [hchannel]; rfl, h.2⟩
    · obtain rfl := Option.some.inj hstep
      exact ⟨fun hclosing ↦ by simp at hclosing, h.2⟩
    · obtain rfl := Option.some.inj hstep
      exact ⟨fun hclosing ↦ by simp at hclosing, h.2⟩
  · obtain rfl := Option.some.inj hstep
    exact ⟨fun hclosing ↦ by simp at hclosing, h.2⟩
  · obtain rfl := Option.some.inj hstep
    exact ⟨fun hclosing ↦ by simp at hclosing, h.2⟩
  · obtain rfl := Option.some.inj hstep
    exact ⟨fun hclosing ↦ by simp at hclosing, h.2⟩
  · rename_i hworker
    split at hstep
    · rename_i hchannel
      obtain rfl := Option.some.inj hstep
      exact ⟨fun _ ↦ by dsimp only; rw [hchannel]; rfl, h.2⟩
    · obtain rfl := Option.some.inj hstep
      exact ⟨fun hclosing ↦ by simp at hclosing, h.2⟩
    · obtain rfl := Option.some.inj hstep
      exact ⟨fun hclosing ↦ by simp [hworker] at hclosing, h.2⟩
  · obtain rfl := Option.some.inj hstep
    exact ⟨fun hclosing ↦ by simp at hclosing, h.2⟩
  · obtain rfl := Option.some.inj hstep
    exact ⟨fun hclosing ↦ by simp at hclosing, h.2⟩
  · rename_i hworker
    obtain rfl := Option.some.inj hstep
    exact ⟨fun hclosing ↦ by simp at hclosing, h.1 hworker⟩
  · simp at hstep

theorem Complete.step (h : Complete queue) {action : QueueAction} (htimely : Timely queue action)
    (hstep : queue.step encode capacity maxBytes action = some queue') : Complete queue' := by
  cases action with
  | send event =>
    simp only [AlertQueue.step] at hstep
    split_ifs at hstep
    exact Option.some.inj hstep ▸ h
  | advanceSend index => exact h.advanceSend htimely hstep
  | work complete => exact h.work hstep
  | close =>
    simp only [AlertQueue.step] at hstep
    split_ifs at hstep
    exact Option.some.inj hstep ▸ h
  | advanceClose index expired =>
    obtain ⟨channel, stop, handle, closes, results, rfl, -, -, hchannel⟩ := advanceClose_spec hstep
    rcases hchannel with rfl | ⟨-, ticket, rfl⟩
    · exact h
    · exact ⟨fun hclosing ↦ (events_flush _ _).trans (h.1 hclosing), h.2⟩
  | drop =>
    simp only [AlertQueue.step] at hstep
    split_ifs at hstep
    exact Option.some.inj hstep ▸ h

/-! ## The calls of the tracker -/

/-- The tracker sends under its state lock while it is not finished, and closes the queue after the
transaction that finishes it. -/
def Disciplined (queue : AlertQueue) : QueueAction → Prop
  | .send _ => queue.tickets = 0
  | .close => queue.sends = []
  | _ => True

instance (queue : AlertQueue) : ∀ action, Decidable (queue.Disciplined action)
  | .send _ => inferInstanceAs (Decidable (_ = _))
  | .close => inferInstanceAs (Decidable (_ = _))
  | .advanceSend _ | .work _ | .advanceClose _ _ | .drop => .isTrue trivial

/-- The worker has read the stop flag, or found the queue dropped. -/
def SinkWorker.Ends : SinkWorker → Prop
  | .draining | .discarding _ | .discarded _ | .closing | .exited => True
  | .ready | .receiving | .delivering _ | .delivered _ | .flushing _ => False

/-- Once a call of `close` has begun or the queue is dropped no call of `send` is in progress, and
only then the worker ends. -/
structure Settled (queue : AlertQueue) : Prop where
  closed : 0 < queue.tickets ∨ queue.connected = false → queue.sends = []
  calls : queue.closes ≠ [] → 0 < queue.tickets
  stopped : queue.stop = true → 0 < queue.tickets ∨ queue.connected = false
  ending : SinkWorker.Ends queue.worker → queue.stop = true
  disconnected : queue.connected = false → queue.stop = true

theorem settled_start : Settled start where
  closed _ := rfl
  calls h := absurd rfl h
  stopped h := by simp [start] at h
  ending h := False.elim h
  disconnected h := by simp [start] at h

/-- A step of a call of `send` leaves the worker and the calls of `close` alone. -/
theorem advanceSend_spec {index : ℕ}
    (hstep : queue.advanceSend encode capacity maxBytes index = some queue') :
    queue.sends ≠ [] ∧ ∃ dropped bytes channel sends enqueued,
      queue' = { queue with dropped, bytes, channel, sends, enqueued } := by
  have hcalls {call : SendCall} (hcall : queue.sends[index]? = some call) : queue.sends ≠ [] := by
    intro hnil
    simp [hnil] at hcall
  unfold AlertQueue.advanceSend at hstep
  split at hstep
  · simp at hstep
  · rename_i event hcall
    refine ⟨hcalls hcall, ?_⟩
    split at hstep
    · exact ⟨_, _, _, _, _, (Option.some.inj hstep).symm⟩
    · split_ifs at hstep
      · exact ⟨_, _, _, _, _, (Option.some.inj hstep).symm⟩
      · exact ⟨_, _, _, _, _, (Option.some.inj hstep).symm⟩
  · rename_i event bytes hcall
    refine ⟨hcalls hcall, ?_⟩
    split_ifs at hstep
    · exact ⟨_, _, _, _, _, (Option.some.inj hstep).symm⟩
    · exact ⟨_, _, _, _, _, (Option.some.inj hstep).symm⟩
  · rename_i event bytes hcall
    refine ⟨hcalls hcall, ?_⟩
    split_ifs at hstep
    · exact ⟨_, _, _, _, _, (Option.some.inj hstep).symm⟩
    · exact ⟨_, _, _, _, _, (Option.some.inj hstep).symm⟩
  · rename_i bytes hcall
    exact ⟨hcalls hcall, _, _, _, _, _, (Option.some.inj hstep).symm⟩
  · rename_i hcall
    exact ⟨hcalls hcall, _, _, _, _, _, (Option.some.inj hstep).symm⟩

/-- A step of the worker leaves the calls alone, and it ends by the stop flag or by itself. -/
theorem work_spec {complete : Bool} (hstep : queue.work complete = some queue') :
    ∃ completed dropped bytes channel worker replies received lost, queue' =
        { queue with completed, dropped, bytes, channel, worker, replies, received, lost } ∧
      (SinkWorker.Ends worker →
        SinkWorker.Ends queue.worker ∨ queue.stop = true ∨ queue.connected = false) := by
  unfold AlertQueue.work at hstep
  split at hstep
  · refine ⟨_, _, _, _, _, _, _, _, (Option.some.inj hstep).symm, fun hends ↦ ?_⟩
    split at hends
    · rename_i hstop
      exact Or.inr (Or.inl hstop)
    · exact False.elim hends
  · split at hstep
    · refine ⟨_, _, _, _, _, _, _, _, (Option.some.inj hstep).symm, fun hends ↦ ?_⟩
      split at hends
      · exact False.elim hends
      · rename_i hconnected
        exact Or.inr (Or.inr (Bool.eq_false_iff.mpr hconnected))
    · exact ⟨_, _, _, _, _, _, _, _, (Option.some.inj hstep).symm, False.elim⟩
    · exact ⟨_, _, _, _, _, _, _, _, (Option.some.inj hstep).symm, False.elim⟩
  · exact ⟨_, _, _, _, _, _, _, _, (Option.some.inj hstep).symm, False.elim⟩
  · exact ⟨_, _, _, _, _, _, _, _, (Option.some.inj hstep).symm, False.elim⟩
  · exact ⟨_, _, _, _, _, _, _, _, (Option.some.inj hstep).symm, False.elim⟩
  · rename_i hworker
    have hends : SinkWorker.Ends queue.worker := by
      rw [hworker]
      trivial
    split at hstep
    · exact ⟨_, _, _, _, _, _, _, _, (Option.some.inj hstep).symm, fun _ ↦ Or.inl hends⟩
    · exact ⟨_, _, _, _, _, _, _, _, (Option.some.inj hstep).symm, fun _ ↦ Or.inl hends⟩
    · exact ⟨_, _, _, _, _, _, _, _, (Option.some.inj hstep).symm, fun _ ↦ Or.inl hends⟩
  · rename_i bytes hworker
    exact ⟨_, _, _, _, _, _, _, _, (Option.some.inj hstep).symm, fun _ ↦ Or.inl (hworker ▸ trivial)⟩
  · rename_i bytes hworker
    exact ⟨_, _, _, _, _, _, _, _, (Option.some.inj hstep).symm, fun _ ↦ Or.inl (hworker ▸ trivial)⟩
  · rename_i hworker
    exact ⟨_, _, _, _, _, _, _, _, (Option.some.inj hstep).symm, fun _ ↦ Or.inl (hworker ▸ trivial)⟩
  · simp at hstep

theorem Settled.step (h : Settled queue) {action : QueueAction}
    (hdisciplined : Disciplined queue action)
    (hstep : queue.step encode capacity maxBytes action = some queue') : Settled queue' := by
  cases action with
  | send event =>
    simp only [AlertQueue.step] at hstep
    split_ifs at hstep with hconnected
    obtain rfl := Option.some.inj hstep
    have hzero : queue.tickets = 0 := hdisciplined
    exact { h with
      closed := fun hclosed ↦ by simp [hzero, hconnected] at hclosed }
  | advanceSend index =>
    obtain ⟨hsends, dropped, bytes, channel, sends, enqueued, rfl⟩ := advanceSend_spec hstep
    exact { h with
      closed := fun hclosed ↦ absurd (h.closed hclosed) hsends }
  | work complete =>
    obtain ⟨_, _, _, _, worker, _, _, _, rfl, hends⟩ := work_spec hstep
    exact { h with
      ending := fun hworker ↦ by
        rcases hends hworker with hold | hstop | hdropped
        · exact h.ending hold
        · exact hstop
        · exact h.disconnected hdropped }
  | close =>
    simp only [AlertQueue.step] at hstep
    split_ifs at hstep
    obtain rfl := Option.some.inj hstep
    exact { h with
      closed := fun _ ↦ hdisciplined
      calls := fun _ ↦ Nat.succ_pos queue.tickets
      stopped := fun _ ↦ Or.inl (Nat.succ_pos queue.tickets) }
  | advanceClose index expired =>
    obtain ⟨channel, stop, handle, closes, results, rfl, hcalls, hstop, -⟩ :=
      advanceClose_spec hstep
    have htickets := h.calls hcalls
    exact { h with
      calls := fun _ ↦ htickets
      stopped := fun _ ↦ Or.inl htickets
      ending := fun hends ↦ hstop.elim id fun heq ↦ heq.trans (h.ending hends)
      disconnected := fun hdropped ↦ hstop.elim id fun heq ↦ heq.trans (h.disconnected hdropped) }
  | drop =>
    simp only [AlertQueue.step] at hstep
    split_ifs at hstep with hidle
    obtain rfl := Option.some.inj hstep
    exact { h with
      closed := fun _ ↦ hidle.2.1
      stopped := fun _ ↦ Or.inr rfl
      ending := fun _ ↦ rfl
      disconnected := fun _ ↦ rfl }

theorem Settled.timely (h : Settled queue) (action : QueueAction) : Timely queue action := by
  intro index event bytes _ hcall hclosing
  have hstop : queue.stop = true := h.ending (by rw [hclosing]; trivial)
  rw [h.closed (h.stopped hstop)] at hcall
  simp at hcall

theorem total_of_events_nil {messages : List QueueMessage} (h : events messages = []) :
    total QueueMessage.bytes messages = 0 ∧ total QueueMessage.count messages = 0 := by
  induction messages with
  | nil => exact ⟨rfl, rfl⟩
  | cons message rest ih =>
    cases message with
    | event alert bytes => simp [events, QueueMessage.event?] at h
    | flush ticket =>
      rw [events, List.filterMap_cons_none rfl] at h
      simpa [QueueMessage.bytes, QueueMessage.count] using ih h

/-- In every interleaving the reserved bytes stay within their bound and the sink receives the
events from the first one on in the order in which they were enqueued.  As long as no event is
enqueued after the last look of the worker, the reserved bytes are those of the events in the
channel, with the worker and with calls of `send`; and once the worker has ended and no call is in
progress, every accepted event is completed or dropped.  The calls of the tracker enqueue none. -/
theorem alert_queue_accounting {actions : List QueueAction}
    (h : Runs.after (step encode capacity maxBytes) actions start = some queue) :
    queue.bytes ≤ maxBytes ∧ queue.received <+: queue.enqueued ∧
      (Runs.Along (step encode capacity maxBytes) Timely actions start →
        queue.bytes = total QueueMessage.bytes queue.channel + queue.worker.bytes +
            total SendCall.bytes queue.sends ∧
          (queue.worker = .exited → queue.sends = [] →
            queue.accepted = queue.completed + queue.dropped ∧ queue.bytes = 0)) ∧
      (Runs.Along (step encode capacity maxBytes) Disciplined actions start →
        Runs.Along (step encode capacity maxBytes) Timely actions start) := by
  have haccounted := Runs.invariant (Accounted maxBytes) (fun hold hstep ↦ hold.step hstep)
    accounted_start h
  obtain ⟨discarded, -, horder⟩ := haccounted.order
  refine ⟨haccounted.fits, ?_, fun htimely ↦ ?_, fun hdisciplined ↦ ?_⟩
  · rw [horder, List.append_assoc, List.append_assoc]
    exact List.prefix_append _ _
  · have hcomplete := Runs.invariant_along Complete
      (fun hold htimely hstep ↦ hold.step htimely hstep) ⟨fun _ ↦ rfl, rfl⟩ htimely h
    obtain ⟨hbytes, hcount⟩ := total_of_events_nil hcomplete.2
    have hsum := haccounted.bytes
    have hcounts := haccounted.counts
    refine ⟨by omega, fun hexited hsends ↦ ?_⟩
    rw [haccounted.ended hexited, hexited, hsends, total_nil] at hsum hcounts
    simp only [total_nil, List.length_nil, SinkWorker.bytes, SinkWorker.count] at hsum hcounts
    omega
  · exact Runs.Along.weaken Settled (fun hold hcondition hstep ↦ hold.step hcondition hstep)
      (fun hold _ ↦ hold.timely _) settled_start hdisciplined

section Sample

def sampleAlert : AlertEvent := ⟨"loss", .error, "loss is high", 3, 100, false, [], []⟩

/-- A call of `send` up to the enqueuing of its event. -/
def sampleSend : List QueueAction :=
  [.send sampleAlert, .advanceSend 0, .advanceSend 0, .advanceSend 0]

/-- A call of `close` whose flush is answered, up to the stop flag. -/
def sampleClose : List QueueAction :=
  [.close, .advanceClose 0 false, .work true, .work true, .work true, .advanceClose 0 false,
   .advanceClose 0 false]

/-- An event is delivered; another one is refused, since it has more bytes than are left. -/
def sampleDelivery : List QueueAction :=
  sampleSend ++ [.send sampleAlert, .advanceSend 0, .advanceSend 0, .work true, .work true,
    .work true, .work true] ++ sampleClose ++ [.work true, .work true, .work true]

theorem alert_queue_accounting_sample : ∃ queue,
    Runs.after (step (fun _ ↦ some 2) 1 3) sampleDelivery start = some queue ∧
      queue.received = [sampleAlert] ∧ queue.accepted = 2 ∧ queue.worker = .exited ∧
      queue.accepted = queue.completed + queue.dropped ∧ queue.bytes = 0 := by
  have hsample : (Runs.after (step (fun _ ↦ some 2) 1 3) sampleDelivery start).map
      (fun queue ↦ (queue.received, queue.accepted, queue.worker, queue.sends)) =
      some ([sampleAlert], 2, .exited, []) := by decide +kernel
  obtain ⟨queue, hafter, hviews⟩ := Option.map_eq_some_iff.mp hsample
  simp only [Prod.mk.injEq] at hviews
  obtain ⟨hreceived, haccepted, hworker, hsends⟩ := hviews
  obtain ⟨-, -, htimely, hdisciplined⟩ := alert_queue_accounting hafter
  obtain ⟨-, hended⟩ := htimely (hdisciplined (by decide +kernel))
  exact ⟨queue, hafter, hreceived, haccepted, hworker, hended hworker hsends⟩

/-- An event that is enqueued after the last look of the worker stays accepted for ever and keeps
its bytes, though the call of `close` reports a complete delivery. -/
theorem alert_queue_loses_late_event : ∃ actions queue,
    Runs.after (step (fun _ ↦ some 2) 1 3) actions start = some queue ∧
      queue.worker = .exited ∧ queue.sends = [] ∧ queue.results = [true] ∧
      queue.accepted = 1 ∧ queue.completed + queue.dropped = 0 ∧ queue.bytes = 2 := by
  have hrun : (Runs.after (step (fun _ ↦ some 2) 1 3)
      ([.send sampleAlert, .advanceSend 0, .advanceSend 0] ++ sampleClose ++
        [.work true, .work true, .advanceSend 0, .work true, .advanceClose 0 false]) start).map
      (fun queue ↦ (queue.worker, queue.sends, queue.results, queue.accepted,
        queue.completed + queue.dropped, queue.bytes)) =
      some (.exited, [], [true], 1, 0, 2) := by decide +kernel
  obtain ⟨queue, hafter, hviews⟩ := Option.map_eq_some_iff.mp hrun
  simp only [Prod.mk.injEq] at hviews
  exact ⟨_, queue, hafter, hviews⟩

end Sample

end AlertQueue

end Rvx.Tracking
