import Rvx.Web.ReadCaching

/-!
# Shared reads

What holds in every interleaving of reads, aborts, transports, their reactions and destruction: the
cache is within its budget, a read is queued only while both slots are taken, and every consumer is
settled once with an outcome of its own key.
-/

namespace Rvx.Web

open InFlight Scheduler

variable {ν ε : Type}

/-- An outcome a read of a key can have: what a transport of the key returned, or an abort. -/
def Own (completions : List (String × Except ε ν)) (key : String) : ReadOutcome ν ε → Prop
  | .ok value => (key, .ok value) ∈ completions
  | .error .aborted => True
  | .error (.transport error) => (key, .error error) ∈ completions

theorem Own.mono {completions completions' : List (String × Except ε ν)} {key : String}
    {outcome : ReadOutcome ν ε} (h : Own completions key outcome)
    (hsubset : completions ⊆ completions') : Own completions' key outcome := by
  match outcome with
  | .ok value => exact hsubset h
  | .error .aborted => trivial
  | .error (.transport error) => exact hsubset h

/-- Whether a consumer waits for a flight. -/
def Consumer.waitsFor (index : ℕ) (consumer : Consumer) : ℕ :=
  if consumer.waiting = some index then 1 else 0

namespace Coordinator

/-- The users of a flight are the consumers that wait for it, and consumers and pending flights
have the keys of their flights. -/
structure Shared (scheduler : Scheduler ν ε) (pending : List (String × ℕ))
    (consumers : List Consumer) : Prop where
  users : ∀ index flight, scheduler.flights[index]? = some flight →
    flight.users = total (Consumer.waitsFor index) consumers
  consumers : ∀ consumer ∈ consumers, ∀ index ∈ consumer.waiting,
    ∃ flight, scheduler.flights[index]? = some flight ∧ flight.key = consumer.key
  pending : ∀ entry ∈ pending,
    ∃ flight, scheduler.flights[entry.2]? = some flight ∧ flight.key = entry.1

/-- Every consumer that no longer waits is settled once, with an outcome of its key. -/
structure Settled (consumers : List Consumer) (settlements : List (ℕ × ReadOutcome ν ε))
    (completions : List (String × Except ε ν)) : Prop where
  once : (settlements.map Prod.fst).Nodup
  complete : ∀ index, index ∈ settlements.map Prod.fst ↔
    ∃ consumer, consumers[index]? = some consumer ∧ consumer.waiting = none
  own : ∀ settlement ∈ settlements, ∃ consumer,
    consumers[settlement.1]? = some consumer ∧ Own completions consumer.key settlement.2

structure Sound (budget : ℕ) (coordinator : Coordinator ν ε) : Prop where
  cache : coordinator.cache.Sound budget
  stored : ∀ entry ∈ coordinator.cache.entries,
    (entry.key, .ok entry.value) ∈ coordinator.completions
  scheduler : coordinator.scheduler.Sound
  outcomes : coordinator.scheduler.Outcomes (Own coordinator.completions)
  shared : Shared coordinator.scheduler coordinator.pending coordinator.consumers
  settled : Settled coordinator.consumers coordinator.settlements coordinator.completions

variable {budget : ℕ} {coordinator : Coordinator ν ε}

theorem sound_start : (start : Coordinator ν ε).Sound budget where
  cache := ReadCache.sound_empty
  stored := by simp [start, ReadCache.empty]
  scheduler := sound_empty
  outcomes := by simp [start, Outcomes, Scheduler.empty]
  shared := ⟨by simp [start, Scheduler.empty], by simp [start], by simp [start]⟩
  settled := ⟨List.nodup_nil, by simp [start], by simp [start]⟩

/-! ## What the actions do -/

theorem shared_some {key : String} {index : ℕ} {flight : Flight ν ε}
    (h : coordinator.shared key = some (index, flight)) :
    (key, index) ∈ coordinator.pending ∧
      coordinator.scheduler.flights[index]? = some flight ∧ flight.aborted = false := by
  unfold Coordinator.shared at h
  split at h
  · cases h
  · next found hlookup =>
    split at h
    · cases h
    · next flight' hget =>
      rw [Option.ite_none_left_eq_some, Option.some.injEq, Prod.mk.injEq] at h
      obtain ⟨haborted, rfl, rfl⟩ := h
      obtain ⟨before, after, hpending, -⟩ := List.lookup_eq_some_iff.mp hlookup
      exact ⟨by simp [hpending], hget, by simpa using haborted⟩

theorem flights_schedule {scheduler : Scheduler ν ε} (key : String) :
    ∃ transport, (scheduler.schedule key).flights =
      scheduler.flights ++ [⟨key, 0, false, transport, .pending⟩] := by
  unfold Scheduler.schedule
  dsimp only
  split_ifs
  · refine ⟨.loading, ?_⟩
    simp [Scheduler.start]
  · exact ⟨.queued, rfl⟩

/-- A read finds its key in the cache, shares a flight or launches one. -/
theorem serve_some {key : String} {fresh : Bool} {coordinator' : Coordinator ν ε}
    (hstep : coordinator.serve key fresh = some coordinator') :
    (∃ cached ∈ coordinator.cache.entries, cached.key = key ∧
      coordinator' = { coordinator with cache := coordinator.cache.touch cached }.answer key
        (.ok cached.value)) ∨
    (∃ index flight, (key, index) ∈ coordinator.pending ∧
      coordinator.scheduler.flights[index]? = some flight ∧
      coordinator' = coordinator.join key index flight) ∨
    ∃ flight, flight.key = key ∧ (coordinator.launch key).scheduler.flights[
        coordinator.scheduler.flights.length]? = some flight ∧
      coordinator' = (coordinator.launch key).join key coordinator.scheduler.flights.length
        flight := by
  unfold Coordinator.serve at hstep
  split at hstep
  · next cached hcached =>
    split_ifs at hcached
    obtain ⟨hmem, hkey⟩ := ReadCache.mem_of_get? hcached
    exact Or.inl ⟨cached, hmem, hkey, (Option.some.inj hstep).symm⟩
  · split at hstep
    · next index flight hshared =>
      obtain ⟨hpending, hget, -⟩ := shared_some hshared
      exact Or.inr (Or.inl ⟨index, flight, hpending, hget, (Option.some.inj hstep).symm⟩)
    · obtain ⟨flight, hget, hjoined⟩ := Option.map_eq_some_iff.mp hstep
      obtain ⟨transport, hflights⟩ := @flights_schedule _ _ coordinator.scheduler key
      have hflight : flight = ⟨key, 0, false, transport, .pending⟩ := by
        simpa [Coordinator.launch, hflights, eq_comm] using hget
      exact Or.inr (Or.inr ⟨flight, by rw [hflight], hget, hjoined.symm⟩)

theorem waitingFor_some {consumer index : ℕ} {reader : Consumer} {flight : Flight ν ε}
    (h : coordinator.waitingFor consumer = some (reader, index, flight)) :
    coordinator.consumers[consumer]? = some reader ∧ reader.waiting = some index ∧
      coordinator.scheduler.flights[index]? = some flight := by
  unfold Coordinator.waitingFor at h
  split at h
  · cases h
  · next reader' hreader =>
    split at h
    · cases h
    · next index' hwaiting =>
      obtain ⟨flight', hget, heq⟩ := Option.map_eq_some_iff.mp h
      rw [Prod.mk.injEq, Prod.mk.injEq] at heq
      obtain ⟨rfl, rfl, rfl⟩ := heq
      exact ⟨hreader, hwaiting, hget⟩

theorem abort_some {consumer : ℕ} {coordinator' : Coordinator ν ε}
    (hstep : coordinator.abort consumer = some coordinator') :
    ∃ reader index flight, coordinator.waitingFor consumer = some (reader, index, flight) ∧
      coordinator' = coordinator.release consumer index reader flight (.error .aborted) := by
  obtain ⟨⟨reader, index, flight⟩, hwaiting, heq⟩ := Option.map_eq_some_iff.mp hstep
  exact ⟨reader, index, flight, hwaiting, heq.symm⟩

theorem deliver_some {consumer : ℕ} {coordinator' : Coordinator ν ε}
    (hstep : coordinator.deliver consumer = some coordinator') :
    ∃ reader index flight outcome,
      coordinator.waitingFor consumer = some (reader, index, flight) ∧
      flight.chain.outcome = some outcome ∧
      coordinator' = coordinator.release consumer index reader flight outcome := by
  unfold Coordinator.deliver at hstep
  split at hstep
  · next reader index flight hwaiting =>
    split at hstep
    · next outcome hchain =>
      exact ⟨reader, index, flight, outcome, hwaiting, by rw [hchain, Chain.outcome],
        (Option.some.inj hstep).symm⟩
    · cases hstep
  · cases hstep

theorem complete_some {index : ℕ} {outcome : Except ε ν} {coordinator' : Coordinator ν ε}
    (hstep : coordinator.complete index outcome = some coordinator') :
    ∃ flight, coordinator.scheduler.flights[index]? = some flight ∧
      flight.transport = .loading ∧ coordinator' = { coordinator with
        scheduler := coordinator.scheduler.complete index flight (outcome.mapError .transport)
        completions := coordinator.completions ++ [(flight.key, outcome)] } := by
  unfold Coordinator.complete at hstep
  split at hstep
  · cases hstep
  · next flight hget =>
    rw [Option.ite_none_right_eq_some, Option.some.injEq] at hstep
    exact ⟨flight, hget, hstep.1, hstep.2.symm⟩

theorem finish_some {index : ℕ} {coordinator' : Coordinator ν ε}
    (hstep : coordinator.finish index = some coordinator') :
    ∃ flight, coordinator.scheduler.flights[index]? = some flight ∧
      flight.transport = .settled ∧ coordinator' = { coordinator with
        scheduler := coordinator.scheduler.finish index flight } := by
  unfold Coordinator.finish at hstep
  split at hstep
  · cases hstep
  · next flight hget =>
    rw [Option.ite_none_right_eq_some, Option.some.injEq] at hstep
    exact ⟨flight, hget, hstep.1, hstep.2.symm⟩

theorem store_some {ttl : ℤ} {readWeight : ν → Option ℕ} {index : ℕ} {now : ℤ}
    {coordinator' : Coordinator ν ε}
    (hstep : coordinator.store budget ttl readWeight index now = some coordinator') :
    ∃ flight outcome, coordinator.scheduler.flights[index]? = some flight ∧
      flight.chain = .resolved outcome ∧ coordinator' = { coordinator with
        cache := cacheAfter budget ttl readWeight now flight coordinator.cache outcome
        scheduler := coordinator.scheduler.setChain index flight (.stored outcome) } := by
  unfold Coordinator.store at hstep
  split at hstep
  · cases hstep
  · next flight hget =>
    split at hstep
    · next outcome hchain =>
      exact ⟨flight, outcome, hget, hchain, (Option.some.inj hstep).symm⟩
    · cases hstep

theorem clear_some {index : ℕ} {coordinator' : Coordinator ν ε}
    (hstep : coordinator.clear index = some coordinator') :
    ∃ flight outcome, coordinator.scheduler.flights[index]? = some flight ∧
      flight.chain = .stored outcome ∧ coordinator' = { coordinator with
        scheduler := coordinator.scheduler.setChain index flight (.cleared outcome)
        pending := unlist index flight.key coordinator.pending } := by
  unfold Coordinator.clear at hstep
  split at hstep
  · cases hstep
  · next flight hget =>
    split at hstep
    · next outcome hchain =>
      exact ⟨flight, outcome, hget, hchain, (Option.some.inj hstep).symm⟩
    · cases hstep

/-! ## Consumers -/

/-- Flights with the same keys have the same consumers and places. -/
theorem exists_of_same_key {scheduler scheduler' : Scheduler ν ε}
    (hsame : Same Flight.key scheduler scheduler') {index : ℕ} {key : String}
    (h : ∃ flight, scheduler.flights[index]? = some flight ∧ flight.key = key) :
    ∃ flight, scheduler'.flights[index]? = some flight ∧ flight.key = key := by
  obtain ⟨flight, hget, hflight⟩ := h
  have hview := hsame index
  rw [hget, Option.map_some, Option.map_eq_some_iff] at hview
  obtain ⟨flight', hget', hkey⟩ := hview
  exact ⟨flight', hget', hkey.trans hflight⟩

theorem Shared.of_same {scheduler scheduler' : Scheduler ν ε} {pending : List (String × ℕ)}
    {consumers : List Consumer} (h : Shared scheduler pending consumers)
    (hsame : Same face scheduler scheduler') : Shared scheduler' pending consumers := by
  have hkey : Same Flight.key scheduler scheduler' := fun index ↦ by
    simpa [Function.comp_def, face] using congrArg (Option.map Prod.fst) (hsame index)
  refine ⟨fun index flight' hget' ↦ ?_, fun consumer hconsumer index hindex ↦
    exists_of_same_key hkey (h.consumers consumer hconsumer index hindex), fun entry hentry ↦
    exists_of_same_key hkey (h.pending entry hentry)⟩
  obtain ⟨flight, hget, hface⟩ := hsame.of_getElem? hget'
  exact (congrArg Prod.snd hface).symm.trans (h.users index flight hget)

theorem Settled.mono {consumers : List Consumer} {settlements : List (ℕ × ReadOutcome ν ε)}
    {completions completions' : List (String × Except ε ν)}
    (h : Settled consumers settlements completions) (hsubset : completions ⊆ completions') :
    Settled consumers settlements completions' :=
  ⟨h.once, h.complete, fun settlement hmem ↦
    (h.own settlement hmem).imp fun _ hconsumer ↦ ⟨hconsumer.1, hconsumer.2.mono hsubset⟩⟩

/-- A call that waits. -/
theorem Settled.wait {consumers : List Consumer} {settlements : List (ℕ × ReadOutcome ν ε)}
    {completions : List (String × Except ε ν)} (h : Settled consumers settlements completions)
    (key : String) (index : ℕ) :
    Settled (consumers ++ [⟨key, some index⟩]) settlements completions := by
  refine ⟨h.once, fun other ↦ ?_, fun settlement hmem ↦ ?_⟩
  · rw [h.complete, List.getElem?_append]
    by_cases hlt : other < consumers.length
    · rw [if_pos hlt]
    · rw [if_neg hlt, List.getElem?_eq_none (Nat.le_of_not_lt hlt)]
      cases hsub : other - consumers.length <;> simp
  · obtain ⟨consumer, hget, hown⟩ := h.own settlement hmem
    exact ⟨consumer, List.getElem?_append_left (List.getElem?_eq_some_iff.mp hget).1 ▸ hget, hown⟩

/-- A call that is answered at once. -/
theorem Settled.answer {consumers : List Consumer} {settlements : List (ℕ × ReadOutcome ν ε)}
    {completions : List (String × Except ε ν)} (h : Settled consumers settlements completions)
    {key : String} {outcome : ReadOutcome ν ε} (hown : Own completions key outcome) :
    Settled (consumers ++ [⟨key, none⟩]) (settlements ++ [(consumers.length, outcome)])
      completions := by
  have hfresh : consumers.length ∉ settlements.map Prod.fst := fun hmem ↦ by
    obtain ⟨consumer, hget, -⟩ := (h.complete _).mp hmem
    simp at hget
  refine ⟨?_, fun other ↦ ?_, fun settlement hmem ↦ ?_⟩
  · rw [List.map_append, List.map_singleton]
    exact h.once.append (List.nodup_singleton _) (by simpa using hfresh)
  · rw [List.map_append, List.map_singleton, List.mem_append, h.complete, List.mem_singleton,
      List.getElem?_append]
    by_cases hlt : other < consumers.length
    · rw [if_pos hlt, or_iff_left (by omega)]
    · rw [if_neg hlt, List.getElem?_eq_none (Nat.le_of_not_lt hlt)]
      by_cases heq : other = consumers.length
      · simp [heq]
      · have hgt : ¬ other - consumers.length = 0 := by omega
        simp [heq, hgt]
  · cases List.mem_append.mp hmem with
    | inl hold =>
      obtain ⟨consumer, hget, hconsumer⟩ := h.own settlement hold
      exact ⟨consumer, List.getElem?_append_left (List.getElem?_eq_some_iff.mp hget).1 ▸ hget,
        hconsumer⟩
    | inr hnew =>
      rw [List.mem_singleton] at hnew
      exact ⟨⟨key, none⟩, by simp [hnew], hnew ▸ hown⟩

/-- A consumer that waited is settled. -/
theorem Settled.release {consumers : List Consumer} {settlements : List (ℕ × ReadOutcome ν ε)}
    {completions : List (String × Except ε ν)} (h : Settled consumers settlements completions)
    {index flight : ℕ} {reader : Consumer} (hget : consumers[index]? = some reader)
    (hwaiting : reader.waiting = some flight) {outcome : ReadOutcome ν ε}
    (hown : Own completions reader.key outcome) :
    Settled (consumers.set index { reader with waiting := none })
      (settlements ++ [(index, outcome)]) completions := by
  have hfresh : index ∉ settlements.map Prod.fst := fun hmem ↦ by
    obtain ⟨consumer, hconsumer, hnone⟩ := (h.complete _).mp hmem
    rw [hget, Option.some.injEq] at hconsumer
    rw [hconsumer, hnone] at hwaiting
    cases hwaiting
  refine ⟨?_, fun other ↦ ?_, fun settlement hmem ↦ ?_⟩
  · rw [List.map_append, List.map_singleton]
    exact h.once.append (List.nodup_singleton _) (by simpa using hfresh)
  · rw [List.map_append, List.map_singleton, List.mem_append, h.complete, List.mem_singleton,
      getElem?_set_of_some hget]
    by_cases heq : other = index
    · simp [heq]
    · simp [heq]
  · cases List.mem_append.mp hmem with
    | inl hold =>
      obtain ⟨consumer, hconsumer, hkey⟩ := h.own settlement hold
      have hne : settlement.1 ≠ index := fun heq ↦
        hfresh (heq ▸ List.mem_map_of_mem hold)
      exact ⟨consumer, by rw [getElem?_set_of_some hget, if_neg hne, hconsumer], hkey⟩
    | inr hnew =>
      rw [List.mem_singleton] at hnew
      exact ⟨{ reader with waiting := none }, by simp [hnew, getElem?_set_of_some hget],
        hnew ▸ hown⟩

section

variable {scheduler : Scheduler ν ε} {pending : List (String × ℕ)} {consumers : List Consumer}

theorem Shared.answer (h : Shared scheduler pending consumers) (key : String) :
    Shared scheduler pending (consumers ++ [⟨key, none⟩]) := by
  refine ⟨fun index flight hget ↦ ?_, ?_, h.pending⟩
  · rw [total_append, h.users index flight hget]
    simp [Consumer.waitsFor]
  · exact List.forall_mem_append.mpr ⟨h.consumers, by simp⟩

/-- A call that joins a flight. -/
theorem Shared.join (h : Shared scheduler pending consumers) {index : ℕ} {flight : Flight ν ε}
    (hget : scheduler.flights[index]? = some flight) :
    Shared (scheduler.setUsers index flight (flight.users + 1)) pending
      (consumers ++ [⟨flight.key, some index⟩]) := by
  have hsame : Same Flight.key scheduler (scheduler.setUsers index flight (flight.users + 1)) :=
    same_set hget (by rfl)
  refine ⟨fun other flight' hget' ↦ ?_, List.forall_mem_append.mpr ⟨fun consumer hconsumer other
    hother ↦ exists_of_same_key hsame (h.consumers consumer hconsumer other hother), ?_⟩,
    fun entry hentry ↦ exists_of_same_key hsame (h.pending entry hentry)⟩
  · rw [Scheduler.setUsers, getElem?_set_of_some hget] at hget'
    rw [total_append]
    split_ifs at hget' with heq
    · rw [← Option.some.inj hget', heq, h.users index flight hget]
      simp [Consumer.waitsFor]
    · rw [h.users other flight' hget']
      simp [Consumer.waitsFor, Ne.symm heq]
  · simpa using exists_of_same_key hsame ⟨flight, hget, rfl⟩

/-- A consumer that leaves its flight. -/
theorem Shared.leave (h : Shared scheduler pending consumers) {consumer index : ℕ}
    {reader : Consumer} {flight : Flight ν ε} (hreader : consumers[consumer]? = some reader)
    (hwaiting : reader.waiting = some index)
    (hget : scheduler.flights[index]? = some flight) :
    Shared (scheduler.setUsers index flight (flight.users - 1)) pending
      (consumers.set consumer { reader with waiting := none }) := by
  have hsame : Same Flight.key scheduler (scheduler.setUsers index flight (flight.users - 1)) :=
    same_set hget (by rfl)
  refine ⟨fun other flight' hget' ↦ ?_, fun left hleft other hother ↦ ?_,
    fun entry hentry ↦ exists_of_same_key hsame (h.pending entry hentry)⟩
  · have htotal := @total_set _ (Consumer.waitsFor other) _ _ _ hreader { reader with waiting := none }
    have hnone : ({ reader with waiting := none } : Consumer).waitsFor other = 0 := by
      simp [Consumer.waitsFor]
    rw [Scheduler.setUsers, getElem?_set_of_some hget] at hget'
    split_ifs at hget' with heq
    · have husers := h.users index flight hget
      have hone : reader.waitsFor index = 1 := by simp [Consumer.waitsFor, hwaiting]
      rw [← Option.some.inj hget', heq]
      rw [heq] at htotal hnone
      dsimp only
      omega
    · have husers := h.users other flight' hget'
      have hzero : reader.waitsFor other = 0 := by
        simp [Consumer.waitsFor, hwaiting, Ne.symm heq]
      omega
  · refine exists_of_same_key hsame ?_
    cases List.mem_or_eq_of_mem_set hleft with
    | inl hmem => exact h.consumers left hmem other hother
    | inr heq =>
      rw [heq] at hother
      cases hother

theorem mem_setPending {key : String} {index : ℕ} {entry : String × ℕ}
    (h : entry ∈ setPending key index pending) : entry ∈ pending ∨ entry = (key, index) := by
  unfold setPending at h
  split_ifs at h
  · obtain ⟨old, hold, heq⟩ := List.mem_map.mp h
    split_ifs at heq
    · exact Or.inr heq.symm
    · exact Or.inl (heq ▸ hold)
  · simpa using h

/-- A new flight without users. -/
theorem Shared.launch (h : Shared scheduler pending consumers) (key : String) :
    Shared (scheduler.schedule key) (setPending key scheduler.flights.length pending)
      consumers := by
  obtain ⟨transport, hflights⟩ := @flights_schedule _ _ scheduler key
  have hold {index : ℕ} {key' : String}
      (hexists : ∃ flight, scheduler.flights[index]? = some flight ∧ flight.key = key') :
      ∃ flight, (scheduler.schedule key).flights[index]? = some flight ∧ flight.key = key' :=
    hexists.imp fun flight hflight ↦ ⟨by
      rw [hflights, List.getElem?_append_left (List.getElem?_eq_some_iff.mp hflight.1).1]
      exact hflight.1, hflight.2⟩
  refine ⟨fun index flight hget ↦ ?_, fun consumer hconsumer index hindex ↦
    hold (h.consumers consumer hconsumer index hindex), fun entry hentry ↦ ?_⟩
  · rw [hflights, List.getElem?_append] at hget
    split_ifs at hget with hlt
    · exact h.users index flight hget
    · have hunused : total (Consumer.waitsFor index) consumers = 0 := by
        refine List.sum_eq_zero fun weight hweight ↦ ?_
        obtain ⟨consumer, hconsumer, heq⟩ := List.mem_map.mp hweight
        rw [← heq, Consumer.waitsFor, if_neg]
        intro hwaiting
        obtain ⟨flight', hget', -⟩ := h.consumers consumer hconsumer index hwaiting
        exact hlt (List.getElem?_eq_some_iff.mp hget').1
      rw [hunused]
      have hmem := List.mem_of_getElem? hget
      rw [List.mem_singleton] at hmem
      rw [hmem]
  · cases mem_setPending hentry with
    | inl hmem => exact hold (h.pending entry hmem)
    | inr heq => exact ⟨⟨key, 0, false, transport, .pending⟩, by simp [heq, hflights], by rw [heq]⟩

end

/-! ## Parts of the steps -/

theorem own_aborted {completions : List (String × Except ε ν)} (key : String) :
    Own completions key (.error .aborted) := trivial

theorem Sound.setCache (h : coordinator.Sound budget) {cache : ReadCache ν}
    (hcache : cache.Sound budget)
    (hstored : ∀ entry ∈ cache.entries, (entry.key, .ok entry.value) ∈ coordinator.completions) :
    Sound budget { coordinator with cache } :=
  ⟨hcache, hstored, h.scheduler, h.outcomes, h.shared, h.settled⟩

theorem Sound.prune (h : coordinator.Sound budget) (now : ℤ) :
    Sound budget { coordinator with cache := coordinator.cache.prune now } :=
  h.setCache (h.cache.prune now) fun entry hentry ↦ h.stored entry (List.mem_filter.mp hentry).1

theorem Sound.answer (h : coordinator.Sound budget) {key : String} {outcome : ReadOutcome ν ε}
    (hown : Own coordinator.completions key outcome) :
    (coordinator.answer key outcome).Sound budget :=
  ⟨h.cache, h.stored, h.scheduler, h.outcomes, h.shared.answer key, h.settled.answer hown⟩

theorem Sound.join (h : coordinator.Sound budget) {index : ℕ} {flight : Flight ν ε}
    (hget : coordinator.scheduler.flights[index]? = some flight) :
    (coordinator.join flight.key index flight).Sound budget :=
  ⟨h.cache, h.stored, h.scheduler.setUsers hget _,
    forall_mem_set h.outcomes (h.outcomes flight (List.mem_of_getElem? hget)),
    h.shared.join hget, h.settled.wait flight.key index⟩

theorem Sound.launch (h : coordinator.Sound budget) (key : String) :
    (coordinator.launch key).Sound budget :=
  ⟨h.cache, h.stored, h.scheduler.schedule key, h.outcomes.schedule own_aborted key,
    h.shared.launch key, h.settled⟩

/-! ## The invariant -/

theorem Sound.serve (h : coordinator.Sound budget) {key : String} {fresh : Bool}
    {coordinator' : Coordinator ν ε} (hstep : coordinator.serve key fresh = some coordinator') :
    coordinator'.Sound budget := by
  rcases serve_some hstep with ⟨cached, hmem, hkey, rfl⟩ | ⟨index, flight, hpending, hget, rfl⟩ |
    ⟨flight, hkey, hget, rfl⟩
  · have htouched : ∀ entry ∈ (coordinator.cache.touch cached).entries,
        (entry.key, .ok entry.value) ∈ coordinator.completions :=
      List.forall_mem_append.mpr ⟨fun entry hentry ↦
        h.stored entry (List.mem_filter.mp hentry).1, by simpa using h.stored cached hmem⟩
    have hown : Own coordinator.completions key (.ok cached.value) := hkey ▸ h.stored cached hmem
    exact (h.setCache (h.cache.touch hmem) htouched).answer hown
  · obtain ⟨flight', hget', hkey⟩ := h.shared.pending _ hpending
    rw [hget, Option.some.injEq] at hget'
    obtain rfl : flight.key = key := hget' ▸ hkey
    exact h.join hget
  · rw [← hkey] at hget ⊢
    exact (h.launch flight.key).join hget

theorem Sound.read (h : coordinator.Sound budget) {key : String} {fresh aborted : Bool} {now : ℤ}
    {coordinator' : Coordinator ν ε}
    (hstep : coordinator.read key fresh aborted now = some coordinator') :
    coordinator'.Sound budget := by
  unfold Coordinator.read at hstep
  split_ifs at hstep
  · exact Option.some.inj hstep ▸ h.answer (own_aborted key)
  · exact (h.prune now).serve hstep

/-- The key of a consumer is that of its flight. -/
theorem Sound.key_of_waiting (h : coordinator.Sound budget) {consumer index : ℕ}
    {reader : Consumer} {flight : Flight ν ε}
    (hwaiting : coordinator.waitingFor consumer = some (reader, index, flight)) :
    flight.key = reader.key := by
  obtain ⟨hreader, hindex, hget⟩ := waitingFor_some hwaiting
  obtain ⟨flight', hget', hkey⟩ :=
    h.shared.consumers reader (List.mem_of_getElem? hreader) index hindex
  rw [hget, Option.some.injEq] at hget'
  exact hget' ▸ hkey

theorem Sound.abortFlight (h : coordinator.Sound budget) (index : ℕ) :
    Sound budget { coordinator with scheduler := coordinator.scheduler.abort index } :=
  ⟨h.cache, h.stored, h.scheduler.abort index, h.outcomes.abort own_aborted index,
    h.shared.of_same (same_abort index), h.settled⟩

theorem Sound.release (h : coordinator.Sound budget) {consumer index : ℕ} {reader : Consumer}
    {flight : Flight ν ε}
    (hwaiting : coordinator.waitingFor consumer = some (reader, index, flight))
    {outcome : ReadOutcome ν ε} (hown : Own coordinator.completions reader.key outcome) :
    (coordinator.release consumer index reader flight outcome).Sound budget := by
  obtain ⟨hreader, hindex, hget⟩ := waitingFor_some hwaiting
  have hleft : Sound budget { coordinator with
      scheduler := coordinator.scheduler.setUsers index flight (flight.users - 1)
      consumers := coordinator.consumers.set consumer { reader with waiting := none }
      settlements := coordinator.settlements ++ [(consumer, outcome)] } :=
    ⟨h.cache, h.stored, h.scheduler.setUsers hget _,
      forall_mem_set h.outcomes (h.outcomes flight (List.mem_of_getElem? hget)),
      h.shared.leave hreader hindex hget, h.settled.release hreader hindex hown⟩
  unfold Coordinator.release
  dsimp only
  split_ifs
  · exact hleft.abortFlight index
  · exact hleft

theorem Sound.abort (h : coordinator.Sound budget) {consumer : ℕ}
    {coordinator' : Coordinator ν ε} (hstep : coordinator.abort consumer = some coordinator') :
    coordinator'.Sound budget := by
  obtain ⟨reader, index, flight, hwaiting, rfl⟩ := abort_some hstep
  exact h.release hwaiting (own_aborted reader.key)

theorem Sound.deliver (h : coordinator.Sound budget) {consumer : ℕ}
    {coordinator' : Coordinator ν ε} (hstep : coordinator.deliver consumer = some coordinator') :
    coordinator'.Sound budget := by
  obtain ⟨reader, index, flight, outcome, hwaiting, houtcome, rfl⟩ := deliver_some hstep
  have hmem := List.mem_of_getElem? (waitingFor_some hwaiting).2.2
  exact h.release hwaiting (h.key_of_waiting hwaiting ▸ h.outcomes flight hmem outcome houtcome)

theorem Sound.complete (h : coordinator.Sound budget) {index : ℕ} {outcome : Except ε ν}
    {coordinator' : Coordinator ν ε}
    (hstep : coordinator.complete index outcome = some coordinator') :
    coordinator'.Sound budget := by
  obtain ⟨flight, hget, hloading, rfl⟩ := complete_some hstep
  have hsubset : coordinator.completions ⊆ coordinator.completions ++ [(flight.key, outcome)] :=
    List.subset_append_left _ _
  have hown : Own (coordinator.completions ++ [(flight.key, outcome)]) flight.key
      (outcome.mapError .transport) := by
    cases outcome with
    | ok value => exact List.mem_append_right _ (List.mem_singleton_self _)
    | error error => exact List.mem_append_right _ (List.mem_singleton_self _)
  refine ⟨h.cache, fun entry hentry ↦ hsubset (h.stored entry hentry),
    h.scheduler.complete hget hloading _, forall_mem_set (fun other hother result hresult ↦
      (h.outcomes other hother result hresult).mono hsubset) ?_,
    h.shared.of_same (same_set hget (by rfl)), h.settled.mono hsubset⟩
  simpa [Chain.outcome] using hown

theorem Sound.finish (h : coordinator.Sound budget) {index : ℕ}
    {coordinator' : Coordinator ν ε} (hstep : coordinator.finish index = some coordinator') :
    coordinator'.Sound budget := by
  obtain ⟨flight, hget, hsettled, rfl⟩ := finish_some hstep
  exact ⟨h.cache, h.stored, h.scheduler.finish hget hsettled, h.outcomes.finish own_aborted hget,
    h.shared.of_same (same_finish (fun _ _ _ ↦ rfl) hget), h.settled⟩

theorem Sound.setChain (h : coordinator.Sound budget) {index : ℕ} {flight : Flight ν ε}
    (hget : coordinator.scheduler.flights[index]? = some flight) {chain : Chain ν ε}
    (hchain : chain.outcome = flight.chain.outcome) :
    Sound budget { coordinator with
      scheduler := coordinator.scheduler.setChain index flight chain } := by
  have hflight := h.outcomes flight (List.mem_of_getElem? hget)
  rw [← hchain] at hflight
  exact ⟨h.cache, h.stored, h.scheduler.setChain hget hchain, forall_mem_set h.outcomes hflight,
    h.shared.of_same (same_set hget (by rfl)), h.settled⟩

theorem mem_cacheAfter {ttl now : ℤ} {readWeight : ν → Option ℕ} {flight : Flight ν ε}
    {outcome : ReadOutcome ν ε} {cache : ReadCache ν} (hcache : cache.Sound budget)
    {entry : CachedRead ν}
    (h : entry ∈ (cacheAfter budget ttl readWeight now flight cache outcome).entries) :
    entry ∈ cache.entries ∨
      flight.aborted = false ∧ flight.key = entry.key ∧ outcome = .ok entry.value := by
  cases outcome with
  | error error => exact Or.inl h
  | ok value =>
    rw [cacheAfter] at h
    split_ifs at h with haborted
    · exact Or.inl h
    · exact (ReadCache.mem_put hcache h).imp_right fun hnew ↦
        ⟨by simpa using haborted, hnew.1.symm, by rw [hnew.2]⟩

theorem Sound.store (h : coordinator.Sound budget) {ttl : ℤ} {readWeight : ν → Option ℕ}
    {index : ℕ} {now : ℤ} {coordinator' : Coordinator ν ε}
    (hstep : coordinator.store budget ttl readWeight index now = some coordinator') :
    coordinator'.Sound budget := by
  obtain ⟨flight, outcome, hget, hchain, rfl⟩ := store_some hstep
  have hset : Sound budget { coordinator with
      scheduler := coordinator.scheduler.setChain index flight (.stored outcome) } :=
    h.setChain hget (by rw [hchain]; rfl)
  have hcache : (cacheAfter budget ttl readWeight now flight coordinator.cache outcome).Sound
      budget := by
    unfold cacheAfter
    split
    · split_ifs
      · exact h.cache
      · exact h.cache.put ttl now _ _ _
    · exact h.cache
  refine hset.setCache hcache fun entry hentry ↦ ?_
  cases mem_cacheAfter h.cache hentry with
  | inl hold => exact h.stored entry hold
  | inr hnew =>
    have hown := h.outcomes flight (List.mem_of_getElem? hget) outcome (by rw [hchain]; rfl)
    rw [hnew.2.1, hnew.2.2] at hown
    exact hown

theorem Sound.clear (h : coordinator.Sound budget) {index : ℕ}
    {coordinator' : Coordinator ν ε} (hstep : coordinator.clear index = some coordinator') :
    coordinator'.Sound budget := by
  obtain ⟨flight, outcome, hget, hchain, rfl⟩ := clear_some hstep
  have hset : Sound budget { coordinator with
      scheduler := coordinator.scheduler.setChain index flight (.cleared outcome) } :=
    h.setChain hget (by rw [hchain]; rfl)
  refine ⟨hset.cache, hset.stored, hset.scheduler, hset.outcomes,
    ⟨hset.shared.users, hset.shared.consumers, fun entry hentry ↦ ?_⟩, hset.settled⟩
  dsimp only [unlist] at hentry
  split_ifs at hentry
  · exact hset.shared.pending entry (List.mem_filter.mp hentry).1
  · exact hset.shared.pending entry hentry

theorem Sound.destroy (h : coordinator.Sound budget) : coordinator.destroy.Sound budget := by
  have hfold (indices : List ℕ) {coordinator : Coordinator ν ε} (h : coordinator.Sound budget) :
      Sound budget { coordinator with
        scheduler := indices.foldl Scheduler.abort coordinator.scheduler } := by
    induction indices generalizing coordinator with
    | nil => exact h
    | cons index rest ih => exact ih (h.abortFlight index)
  have haborted := hfold (coordinator.pending.map Prod.snd) h
  exact ⟨ReadCache.sound_empty, by simp [Coordinator.destroy, ReadCache.empty],
    haborted.scheduler, haborted.outcomes, ⟨haborted.shared.users, haborted.shared.consumers,
      by simp [Coordinator.destroy]⟩, haborted.settled⟩

theorem Sound.step (h : coordinator.Sound budget) {ttl : ℤ} {readWeight : ν → Option ℕ}
    {action : ReadAction ν ε} {coordinator' : Coordinator ν ε}
    (hstep : coordinator.step budget ttl readWeight action = some coordinator') :
    coordinator'.Sound budget := by
  cases action with
  | read key fresh aborted now => exact h.read hstep
  | abort consumer => exact h.abort hstep
  | complete index outcome => exact h.complete hstep
  | finish index => exact h.finish hstep
  | store index now => exact h.store hstep
  | clear index => exact h.clear hstep
  | deliver consumer => exact h.deliver hstep
  | prune now => exact Option.some.inj hstep ▸ h.prune now
  | destroy => exact Option.some.inj hstep ▸ h.destroy

theorem sound_run {ttl : ℤ} {readWeight : ν → Option ℕ} {actions : List (ReadAction ν ε)}
    (h : Runs.after (step budget ttl readWeight) actions start = some coordinator) :
    coordinator.Sound budget :=
  Runs.invariant (Sound budget) (fun hsound hstep ↦ hsound.step hstep) sound_start h

end Coordinator

end Rvx.Web
