import Rvx.Web.SharedReads

/-!
# Every shared read is settled

What one action can write into the cache and which flights it can abort, and what is left when every
reaction has run: nothing is queued and no consumer waits.
-/

namespace Rvx.Web

open InFlight Scheduler

variable {ν ε : Type}

namespace Coordinator

variable {budget : ℕ} {coordinator : Coordinator ν ε}

/-! ## Writes and aborts -/

theorem entries_serve {key : String} {fresh : Bool} {coordinator' : Coordinator ν ε}
    (hstep : coordinator.serve key fresh = some coordinator') :
    coordinator'.cache.entries ⊆ coordinator.cache.entries := by
  rcases serve_some hstep with ⟨cached, hmem, -, rfl⟩ | ⟨index, flight, -, -, rfl⟩ |
    ⟨flight, -, -, rfl⟩
  · exact List.append_subset.mpr ⟨List.filter_sublist.subset, by simpa using hmem⟩
  · exact List.Subset.refl _
  · exact List.Subset.refl _

theorem cache_release {consumer index : ℕ} {reader : Consumer} {flight : Flight ν ε}
    {outcome : ReadOutcome ν ε} :
    (coordinator.release consumer index reader flight outcome).cache = coordinator.cache := by
  unfold Coordinator.release
  dsimp only
  split_ifs <;> rfl

/-- A value enters the cache in the reaction of a flight of its key that is not aborted. -/
theorem cache_written (h : coordinator.Sound budget) {ttl : ℤ} {readWeight : ν → Option ℕ}
    {action : ReadAction ν ε} {coordinator' : Coordinator ν ε}
    (hstep : coordinator.step budget ttl readWeight action = some coordinator')
    {entry : CachedRead ν} (hentry : entry ∈ coordinator'.cache.entries)
    (hnew : entry ∉ coordinator.cache.entries) :
    ∃ (index : ℕ) (flight : Flight ν ε), coordinator.scheduler.flights[index]? = some flight ∧
      flight.aborted = false ∧ flight.key = entry.key ∧
      flight.chain.outcome = some (.ok entry.value) := by
  cases action with
  | read key fresh aborted now =>
    rw [step, Coordinator.read] at hstep
    split_ifs at hstep
    · rw [← Option.some.inj hstep] at hentry
      exact absurd hentry hnew
    · exact absurd (List.filter_sublist.subset (entries_serve hstep hentry)) hnew
  | abort consumer =>
    obtain ⟨reader, index, flight, -, rfl⟩ := abort_some hstep
    exact absurd (cache_release ▸ hentry) hnew
  | deliver consumer =>
    obtain ⟨reader, index, flight, outcome, -, -, rfl⟩ := deliver_some hstep
    exact absurd (cache_release ▸ hentry) hnew
  | complete index outcome =>
    obtain ⟨flight, -, -, rfl⟩ := complete_some hstep
    exact absurd hentry hnew
  | finish index =>
    obtain ⟨flight, -, -, rfl⟩ := finish_some hstep
    exact absurd hentry hnew
  | store index now =>
    obtain ⟨flight, outcome, hget, hchain, rfl⟩ := store_some hstep
    obtain ⟨haborted, hkey, houtcome⟩ := (mem_cacheAfter h.cache hentry).resolve_left hnew
    exact ⟨index, flight, hget, haborted, hkey, by rw [hchain, houtcome]; rfl⟩
  | clear index =>
    obtain ⟨flight, outcome, -, -, rfl⟩ := clear_some hstep
    exact absurd hentry hnew
  | prune now =>
    rw [← Option.some.inj hstep] at hentry
    exact absurd (List.filter_sublist.subset hentry) hnew
  | destroy =>
    rw [← Option.some.inj hstep] at hentry
    cases hentry

/-- No consumer waits for the flight. -/
def Deserted (index : ℕ) (consumers : List Consumer) : Prop :=
  ∀ consumer ∈ consumers, consumer.waiting ≠ some index

theorem deserted_of_total {index : ℕ} {consumers : List Consumer}
    (h : total (Consumer.waitsFor index) consumers = 0) : Deserted index consumers := by
  intro consumer hconsumer hwaiting
  have hzero := List.sum_eq_zero_iff_forall_eq_nat.mp h _ (List.mem_map_of_mem hconsumer)
  rw [Consumer.waitsFor, if_pos hwaiting] at hzero
  cases hzero

/-- Whether a flight is aborted in a scheduler. -/
def Aborted (scheduler : Scheduler ν ε) (index : ℕ) : Prop :=
  ∃ flight, scheduler.flights[index]? = some flight ∧ flight.aborted = true

theorem aborted_of_same {scheduler scheduler' : Scheduler ν ε}
    (hsame : Same Flight.aborted scheduler scheduler') {index : ℕ}
    (h : Aborted scheduler' index) : Aborted scheduler index := by
  obtain ⟨flight', hget', haborted⟩ := h
  obtain ⟨flight, hget, hview⟩ := hsame.of_getElem? hget'
  exact ⟨flight, hget, hview.trans haborted⟩

theorem aborted_of_schedule {scheduler : Scheduler ν ε} {key : String} {index : ℕ}
    (h : Aborted (scheduler.schedule key) index) : Aborted scheduler index := by
  obtain ⟨flight, hget, haborted⟩ := h
  obtain ⟨transport, hflights⟩ := @flights_schedule _ _ scheduler key
  rw [hflights, List.getElem?_append] at hget
  split_ifs at hget
  · exact ⟨flight, hget, haborted⟩
  · have hmem := List.mem_of_getElem? hget
    rw [List.mem_singleton] at hmem
    rw [hmem] at haborted
    cases haborted

theorem aborted_of_serve {key : String} {fresh : Bool} {coordinator' : Coordinator ν ε}
    (hstep : coordinator.serve key fresh = some coordinator') {index : ℕ}
    (h : Aborted coordinator'.scheduler index) : Aborted coordinator.scheduler index := by
  rcases serve_some hstep with ⟨cached, -, -, rfl⟩ | ⟨found, flight, -, hget, rfl⟩ |
    ⟨flight, -, hget, rfl⟩
  · exact h
  · exact aborted_of_same (same_set hget (by rfl)) h
  · exact aborted_of_schedule (aborted_of_same (same_set hget (by rfl)) h)

/-- The flight a consumer leaves is aborted if it is the last. -/
theorem aborted_of_release (h : coordinator.Sound budget) {consumer found : ℕ}
    {reader : Consumer} {flight : Flight ν ε}
    (hwaiting : coordinator.waitingFor consumer = some (reader, found, flight))
    {outcome : ReadOutcome ν ε} {index : ℕ}
    (haborted : Aborted (coordinator.release consumer found reader flight outcome).scheduler index) :
    Aborted coordinator.scheduler index ∨
      Deserted index (coordinator.release consumer found reader flight outcome).consumers := by
  obtain ⟨hreader, hindex, hget⟩ := waitingFor_some hwaiting
  have hsame : Same Flight.aborted coordinator.scheduler
      (coordinator.scheduler.setUsers found flight (flight.users - 1)) :=
    same_set hget (by rfl)
  unfold Coordinator.release at haborted ⊢
  dsimp only at haborted ⊢
  split_ifs at haborted ⊢ with hlast
  · by_cases heq : index = found
    · have hshared := h.shared.leave hreader hindex hget
      have husers := hshared.users found { flight with users := flight.users - 1 }
        (by simp [Scheduler.setUsers, getElem?_set_of_some hget])
      rw [heq]
      exact Or.inr (deserted_of_total (husers.symm.trans hlast))
    · rw [Aborted, getElem?_abort heq] at haborted
      exact Or.inl (aborted_of_same hsame haborted)
  · exact Or.inl (aborted_of_same hsame haborted)

/-- A flight is aborted by destruction, or when no consumer is left that waits for it. -/
theorem aborted_step (h : coordinator.Sound budget) {ttl : ℤ} {readWeight : ν → Option ℕ}
    {action : ReadAction ν ε} {coordinator' : Coordinator ν ε}
    (hstep : coordinator.step budget ttl readWeight action = some coordinator') {index : ℕ}
    (haborted : Aborted coordinator'.scheduler index) :
    Aborted coordinator.scheduler index ∨ action = .destroy ∨
      Deserted index coordinator'.consumers := by
  cases action with
  | read key fresh aborted now =>
    rw [step, Coordinator.read] at hstep
    split_ifs at hstep
    · rw [← Option.some.inj hstep] at haborted
      exact Or.inl haborted
    · exact Or.inl (aborted_of_serve hstep haborted)
  | abort consumer =>
    obtain ⟨reader, found, flight, hwaiting, rfl⟩ := abort_some hstep
    exact (aborted_of_release h hwaiting haborted).imp_right Or.inr
  | deliver consumer =>
    obtain ⟨reader, found, flight, outcome, hwaiting, -, rfl⟩ := deliver_some hstep
    exact (aborted_of_release h hwaiting haborted).imp_right Or.inr
  | complete found outcome =>
    obtain ⟨flight, hget, -, rfl⟩ := complete_some hstep
    exact Or.inl (aborted_of_same (same_set hget (by rfl)) haborted)
  | finish found =>
    obtain ⟨flight, hget, -, rfl⟩ := finish_some hstep
    exact Or.inl (aborted_of_same (same_finish (fun _ _ _ ↦ rfl) hget) haborted)
  | store found now =>
    obtain ⟨flight, outcome, hget, -, rfl⟩ := store_some hstep
    exact Or.inl (aborted_of_same (same_set hget (by rfl)) haborted)
  | clear found =>
    obtain ⟨flight, outcome, hget, -, rfl⟩ := clear_some hstep
    exact Or.inl (aborted_of_same (same_set hget (by rfl)) haborted)
  | prune now =>
    rw [← Option.some.inj hstep] at haborted
    exact Or.inl haborted
  | destroy => exact Or.inr (Or.inl rfl)

/-! ## Rest -/

/-- No transport is under way and every reaction has run. -/
structure Rests (budget : ℕ) (ttl : ℤ) (readWeight : ν → Option ℕ)
    (coordinator : Coordinator ν ε) : Prop where
  transports : ∀ flight ∈ coordinator.scheduler.flights, flight.transport ≠ .loading
  finish : ∀ index, coordinator.finish index = none
  store : ∀ index now, coordinator.store budget ttl readWeight index now = none
  clear : ∀ index, coordinator.clear index = none
  deliver : ∀ index, coordinator.deliver index = none

/-- At rest nothing is queued and no consumer waits. -/
theorem settled_of_rests (h : coordinator.Sound budget) {ttl : ℤ} {readWeight : ν → Option ℕ}
    (hrests : Rests budget ttl readWeight coordinator) :
    coordinator.scheduler.queue = [] ∧
      ∀ consumer ∈ coordinator.consumers, consumer.waiting = none := by
  have hslots : ∀ flight ∈ coordinator.scheduler.flights, flight.slots = 0 := by
    intro flight hflight
    obtain ⟨index, hget⟩ := List.mem_iff_getElem?.mp hflight
    have hsettled : flight.transport ≠ .settled := fun hsettled ↦ by
      simpa [Coordinator.finish, hget, hsettled] using hrests.finish index
    have hloading := hrests.transports flight hflight
    unfold Flight.slots
    split
    · next htransport => exact absurd htransport hloading
    · next htransport => exact absurd htransport hsettled
    · rfl
  have hqueue : coordinator.scheduler.queue = [] := by
    by_contra hne
    have hfull := h.scheduler.full hne
    have hzero : total Flight.slots coordinator.scheduler.flights = 0 :=
      List.sum_eq_zero_iff_forall_eq_nat.mpr (List.forall_mem_map.mpr hslots)
    rw [h.scheduler.active, hzero] at hfull
    cases hfull
  refine ⟨hqueue, fun consumer hconsumer ↦ ?_⟩
  obtain ⟨number, hnumber⟩ := List.mem_iff_getElem?.mp hconsumer
  by_contra hwaits
  obtain ⟨index, hindex⟩ := Option.ne_none_iff_exists'.mp hwaits
  obtain ⟨flight, hget, -⟩ := h.shared.consumers consumer hconsumer index hindex
  have hflight := h.scheduler.flights flight (List.mem_of_getElem? hget)
  have hmem := List.mem_of_getElem? hget
  have hnone := hslots flight hmem
  have hqueued : flight.transport ≠ .queued := fun htransport ↦ by
    have hin := (h.scheduler.queued index).mpr ⟨flight, hget, htransport⟩
    rw [hqueue] at hin
    cases hin
  match hchain : flight.chain with
  | .pending =>
    rw [Flight.Sound, hchain] at hflight
    split at hflight
    · next htransport => exact hqueued htransport
    · next htransport => exact hrests.transports flight hmem htransport
    all_goals exact hflight rfl
  | .resolved outcome =>
    have hstore := hrests.store index 0
    simp [Coordinator.store, hget, hchain] at hstore
  | .stored outcome =>
    have hclear := hrests.clear index
    simp [Coordinator.clear, hget, hchain] at hclear
  | .cleared outcome =>
    have hdeliver := hrests.deliver number
    simp [Coordinator.deliver, Coordinator.waitingFor, hnumber, hindex, hget, hchain] at hdeliver

/-! ## The end of the reactions -/

/-- The reactions a flight has still to run. -/
def flightRemaining (flight : Flight ν ε) : ℕ :=
  (match flight.transport with
    | .queued => 3
    | .loading => 2
    | .settled => 1
    | .finished => 0
    | .cancelled => 0) +
  match flight.chain with
  | .pending => 3
  | .resolved _ => 2
  | .stored _ => 1
  | .cleared _ => 0

def consumerRemaining (consumer : Consumer) : ℕ := if consumer.waiting = none then 0 else 1

/-- A bound on the transports and reactions without a new read. -/
def remaining (coordinator : Coordinator ν ε) : ℕ :=
  total flightRemaining coordinator.scheduler.flights +
    total consumerRemaining coordinator.consumers

/-- The completion of a transport or a reaction. -/
def IsReaction : ReadAction ν ε → Prop
  | .complete _ _ => True
  | .finish _ => True
  | .store _ _ => True
  | .clear _ => True
  | .deliver _ => True
  | _ => False

theorem total_set_lt {scheduler : Scheduler ν ε} {index : ℕ} {flight flight' : Flight ν ε}
    (hget : scheduler.flights[index]? = some flight)
    (hless : flightRemaining flight' < flightRemaining flight) :
    total flightRemaining (scheduler.flights.set index flight') <
      total flightRemaining scheduler.flights := by
  have htotal := @total_set _ flightRemaining _ _ _ hget flight'
  omega

theorem total_abort_le (scheduler : Scheduler ν ε) (index : ℕ) :
    total flightRemaining (scheduler.abort index).flights ≤
      total flightRemaining scheduler.flights := by
  unfold Scheduler.abort
  split
  · exact le_rfl
  · next flight hget =>
    split_ifs with haborted hqueued
    · exact le_rfl
    · refine (total_set_lt hget ?_).le
      simp only [flightRemaining, hqueued]
      omega
    · have htotal := @total_set _ flightRemaining _ _ _ hget { flight with aborted := true }
      have hsame : flightRemaining { flight with aborted := true } = flightRemaining flight := rfl
      dsimp only
      omega

theorem total_finish_lt {scheduler : Scheduler ν ε} (h : scheduler.Sound) {index : ℕ}
    {flight : Flight ν ε} (hget : scheduler.flights[index]? = some flight)
    (hsettled : flight.transport = .settled) :
    total flightRemaining (scheduler.finish index flight).flights <
      total flightRemaining scheduler.flights := by
  have hfreed : total flightRemaining
      (scheduler.flights.set index { flight with transport := .finished }) <
        total flightRemaining scheduler.flights := by
    refine total_set_lt hget ?_
    simp only [flightRemaining, hsettled]
    omega
  unfold Scheduler.finish
  dsimp only
  split
  · exact hfreed
  · next next rest hqueue =>
    obtain ⟨queued, hnext, htransport⟩ := (h.queued next).mp (by simp [hqueue])
    have hne : next ≠ index := fun heq ↦ by
      rw [heq, hget, Option.some.injEq] at hnext
      rw [← hnext, hsettled] at htransport
      cases htransport
    have hget' : (scheduler.flights.set index { flight with transport := .finished })[next]? =
        some queued := by rw [getElem?_set_of_some hget, if_neg hne, hnext]
    have hqueued := h.flights queued (List.mem_of_getElem? hnext)
    rw [Flight.Sound, htransport] at hqueued
    rw [start_queued (by exact hget') hqueued.1]
    have htotal := @total_set _ flightRemaining _ _ _ hget' { queued with transport := .loading }
    have hloading : flightRemaining { queued with transport := .loading } + 1 =
        flightRemaining queued := by
      simp only [flightRemaining, htransport]
      omega
    dsimp only
    omega

theorem remaining_release {consumer index : ℕ} {reader : Consumer} {flight : Flight ν ε}
    (hwaiting : coordinator.waitingFor consumer = some (reader, index, flight))
    (outcome : ReadOutcome ν ε) :
    (coordinator.release consumer index reader flight outcome).remaining <
      coordinator.remaining := by
  obtain ⟨hreader, hindex, hget⟩ := waitingFor_some hwaiting
  have hconsumers := @total_set _ consumerRemaining _ _ _ hreader { reader with waiting := none }
  have hone : consumerRemaining reader = 1 := by simp [consumerRemaining, hindex]
  have hzero : consumerRemaining { reader with waiting := none } = 0 := rfl
  have hflights := @total_set _ flightRemaining _ _ _ hget
    { flight with users := flight.users - 1 }
  have hsame : flightRemaining { flight with users := flight.users - 1 } =
      flightRemaining flight := rfl
  have habort := total_abort_le (coordinator.scheduler.setUsers index flight (flight.users - 1))
    index
  rw [Scheduler.setUsers] at habort
  unfold Coordinator.release Coordinator.remaining
  dsimp only [Scheduler.setUsers] at habort ⊢
  split_ifs
  · dsimp only
    omega
  · dsimp only
    omega

theorem remaining_reaction (h : coordinator.Sound budget) {ttl : ℤ} {readWeight : ν → Option ℕ}
    {action : ReadAction ν ε} (haction : IsReaction action) {coordinator' : Coordinator ν ε}
    (hstep : coordinator.step budget ttl readWeight action = some coordinator') :
    coordinator'.remaining < coordinator.remaining := by
  cases action with
  | complete index outcome =>
    obtain ⟨flight, hget, hloading, rfl⟩ := complete_some hstep
    have hflight := h.scheduler.flights flight (List.mem_of_getElem? hget)
    rw [Flight.Sound, hloading] at hflight
    refine Nat.add_lt_add_right (total_set_lt hget ?_) _
    cases hchain : flight.chain with
    | pending => simp [flightRemaining, hloading, hchain]
    | resolved _ | stored _ | cleared _ => simp [hchain, Chain.outcome] at hflight
  | finish index =>
    obtain ⟨flight, hget, hsettled, rfl⟩ := finish_some hstep
    exact Nat.add_lt_add_right (total_finish_lt h.scheduler hget hsettled) _
  | store index now =>
    obtain ⟨flight, outcome, hget, hchain, rfl⟩ := store_some hstep
    refine Nat.add_lt_add_right (total_set_lt hget ?_) _
    simp [flightRemaining, hchain]
  | clear index =>
    obtain ⟨flight, outcome, hget, hchain, rfl⟩ := clear_some hstep
    refine Nat.add_lt_add_right (total_set_lt hget ?_) _
    simp [flightRemaining, hchain]
  | deliver consumer =>
    obtain ⟨reader, index, flight, outcome, hwaiting, -, rfl⟩ := deliver_some hstep
    exact remaining_release hwaiting outcome
  | read _ _ _ _ | abort _ | prune _ | destroy => cases haction

/-! ## All runs -/

/-- In every run the cache is accounted for and within its budget and 64 entries; at most two slots
are taken, and both of them while a read is queued; and every consumer that no longer waits is
settled once, with an outcome of its own key.  A value enters the cache only for a flight that is not
aborted, and a flight is aborted only by destruction or when no consumer waits for it.  Without new
reads the reactions come to an end, and then nothing is queued and no consumer waits. -/
theorem reads_shared (budget : ℕ) (ttl : ℤ) (readWeight : ν → Option ℕ)
    {actions : List (ReadAction ν ε)} {coordinator : Coordinator ν ε}
    (h : Runs.after (step budget ttl readWeight) actions start = some coordinator) :
    (coordinator.cache.bytes = total CachedRead.bytes coordinator.cache.entries ∧
      coordinator.cache.bytes ≤ budget ∧ coordinator.cache.entries.length ≤ 64) ∧
    (total Flight.slots coordinator.scheduler.flights ≤ 2 ∧
      ∀ flight ∈ coordinator.scheduler.flights, flight.transport = .queued →
        total Flight.slots coordinator.scheduler.flights = 2) ∧
    Settled coordinator.consumers coordinator.settlements coordinator.completions ∧
    (∀ action coordinator', coordinator.step budget ttl readWeight action = some coordinator' →
      (∀ entry ∈ coordinator'.cache.entries, entry ∉ coordinator.cache.entries →
        ∃ (index : ℕ) (flight : Flight ν ε), coordinator.scheduler.flights[index]? = some flight ∧
          flight.aborted = false ∧ flight.key = entry.key ∧
          flight.chain.outcome = some (.ok entry.value)) ∧
      ∀ index, Aborted coordinator'.scheduler index → Aborted coordinator.scheduler index ∨
        action = .destroy ∨ Deserted index coordinator'.consumers) ∧
    (Rests budget ttl readWeight coordinator → coordinator.scheduler.queue = [] ∧
      ∀ consumer ∈ coordinator.consumers, consumer.waiting = none) ∧
    ∀ (reactions : List (ReadAction ν ε)) (later : Coordinator ν ε),
      (∀ action ∈ reactions, IsReaction action) →
      Runs.after (step budget ttl readWeight) reactions coordinator = some later →
      reactions.length ≤ coordinator.remaining := by
  have hsound := sound_run h
  have haccounted := hsound.cache.accounted
  have hactive := hsound.scheduler.active
  refine ⟨⟨haccounted, ?_, hsound.cache.size⟩, ⟨hactive ▸ hsound.scheduler.limit, ?_⟩,
    hsound.settled, fun action coordinator' hstep ↦ ⟨fun entry hentry hnew ↦
      cache_written hsound hstep hentry hnew, fun index haborted ↦
      aborted_step hsound hstep haborted⟩, settled_of_rests hsound, fun reactions later hall hrun ↦
      Runs.length_le_measure (Sound budget) remaining IsReaction (fun hsound hstep ↦
        hsound.step hstep) (fun hsound haction hstep ↦ remaining_reaction hsound haction hstep)
        hall hsound hrun⟩
  · rw [haccounted]
    exact_mod_cast hsound.cache.budget
  · intro flight hflight hqueued
    obtain ⟨index, hget⟩ := List.mem_iff_getElem?.mp hflight
    have hmem := (hsound.scheduler.queued index).mpr ⟨flight, hget, hqueued⟩
    rw [← hactive]
    exact hsound.scheduler.full (List.ne_nil_of_mem hmem)

/-- Two consumers share a flight and one leaves; a third key waits for a slot; the value is read again
from the cache. -/
def sampleReads : List (ReadAction ℕ Unit) :=
  [.read "a" false false 0, .read "a" false false 0, .read "b" false false 0,
    .read "c" false false 0, .abort 0, .complete 0 (.ok 7), .store 0 1, .finish 0, .clear 0,
    .deliver 1, .read "a" false false 2, .complete 1 (.error ()), .complete 2 (.ok 8), .store 1 3,
    .store 2 3, .clear 1, .clear 2, .deliver 2, .finish 1, .finish 2, .deliver 3]

theorem reads_shared_sample : ∃ coordinator : Coordinator ℕ Unit,
    Runs.after (step 100 1000 fun _ ↦ some 40) sampleReads start = some coordinator ∧
      coordinator.settlements = [(0, .error .aborted), (1, .ok 7), (4, .ok 7),
        (2, .error (.transport ())), (3, .ok 8)] ∧
      coordinator.cache.bytes = 80 ∧ coordinator.cache.bytes ≤ 100 := by
  have hsample : (Runs.after (step 100 1000 fun _ ↦ some 40) sampleReads
      (start : Coordinator ℕ Unit)).map (fun coordinator ↦
        (coordinator.settlements, coordinator.cache.bytes)) =
      some ([(0, .error .aborted), (1, .ok 7), (4, .ok 7), (2, .error (.transport ())),
        (3, .ok 8)], 80) := by decide +kernel
  obtain ⟨coordinator, hrun, hviews⟩ := Option.map_eq_some_iff.mp hsample
  rw [Prod.mk.injEq] at hviews
  exact ⟨coordinator, hrun, hviews.1, hviews.2,
    (reads_shared 100 1000 (fun _ ↦ some 40) hrun).1.2.1⟩

end Coordinator

end Rvx.Web
