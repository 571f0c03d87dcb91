import Rvx.Web.Coordinator
import Mathlib.Algebra.Order.Group.Int
import Mathlib.Algebra.Order.Group.Nat
import Mathlib.Data.List.Nodup

/-!
# The cache and the slots of the read coordinator

What the operations on the cache and on the flights keep: the accounted bytes are those of the
entries and within the budget, and a flight is queued only while both slots are taken.
-/

namespace Rvx.Web

open InFlight

variable {ν ε : Type}

/-! ## The cache -/

namespace ReadCache

structure Sound (budget : ℕ) (cache : ReadCache ν) : Prop where
  keys : (cache.entries.map CachedRead.key).Nodup
  accounted : cache.bytes = total CachedRead.bytes cache.entries
  budget : total CachedRead.bytes cache.entries ≤ budget
  size : cache.entries.length ≤ 64

variable {budget : ℕ} {cache : ReadCache ν}

theorem sound_empty : (empty : ReadCache ν).Sound budget :=
  ⟨List.nodup_nil, rfl, Nat.zero_le _, Nat.zero_le _⟩

theorem total_filter (weight : CachedRead ν → ℕ) (keep : CachedRead ν → Bool)
    (entries : List (CachedRead ν)) :
    total weight (entries.filter keep) + total weight (entries.filter fun entry ↦ !keep entry) =
      total weight entries := by
  induction entries with
  | nil => rfl
  | cons entry rest ih => cases hkeep : keep entry <;> simp [hkeep] <;> omega

theorem Sound.prune (h : cache.Sound budget) (now : ℤ) : (cache.prune now).Sound budget := by
  have htotal := total_filter CachedRead.bytes (fun entry ↦ ¬ entry.expires ≤ now) cache.entries
  have hexpired : (cache.entries.filter fun entry ↦ !decide ¬ entry.expires ≤ now) =
      cache.entries.filter fun entry ↦ entry.expires ≤ now :=
    List.filter_congr fun entry _ ↦ by by_cases hle : entry.expires ≤ now <;> simp [hle]
  have hbudget := h.budget
  rw [hexpired] at htotal
  refine ⟨h.keys.sublist (List.filter_sublist.map _), ?_, ?_,
    (List.length_filter_le _ _).trans h.size⟩
  · rw [ReadCache.prune, h.accounted, ← htotal]
    dsimp only [total]
    push_cast
    omega
  · rw [ReadCache.prune]
    dsimp only
    omega

/-- An entry and the entries of the other keys. -/
theorem perm_delete {entries : List (CachedRead ν)} {entry : CachedRead ν}
    (hkeys : (entries.map CachedRead.key).Nodup) (hmem : entry ∈ entries) :
    entries.Perm (entry :: delete entry.key entries) := by
  induction entries with
  | nil => cases hmem
  | cons first rest ih =>
    rw [List.map_cons, List.nodup_cons] at hkeys
    cases List.mem_cons.mp hmem with
    | inl heq =>
      have hrest : delete first.key rest = rest := List.filter_eq_self.mpr fun other hother ↦ by
        simpa using fun hkey : other.key = first.key ↦
          hkeys.1 (hkey ▸ List.mem_map_of_mem hother)
      rw [heq, delete, List.filter_cons_of_neg (by simp), ← delete, hrest]
    | inr hrest =>
      have hne : first.key ≠ entry.key :=
        fun hkey ↦ hkeys.1 (hkey ▸ List.mem_map_of_mem hrest)
      rw [delete, List.filter_cons_of_pos (by simpa using hne), ← delete]
      exact ((ih hkeys.2 hrest).cons first).trans (.swap _ _ _)

theorem mem_of_get? {key : String} {entry : CachedRead ν} (h : cache.get? key = some entry) :
    entry ∈ cache.entries ∧ entry.key = key :=
  ⟨List.mem_of_find?_eq_some h, by simpa using List.find?_some h⟩

theorem notMem_delete (key : String) (entries : List (CachedRead ν)) :
    key ∉ (delete key entries).map CachedRead.key := by
  simp [delete]

theorem Sound.touch (h : cache.Sound budget) {entry : CachedRead ν}
    (hmem : entry ∈ cache.entries) : (cache.touch entry).Sound budget := by
  have hperm : cache.entries.Perm (delete entry.key cache.entries ++ [entry]) :=
    (perm_delete h.keys hmem).trans (List.perm_append_singleton _ _).symm
  have htotal : total CachedRead.bytes (delete entry.key cache.entries ++ [entry]) =
      total CachedRead.bytes cache.entries := ((hperm.map _).sum_eq).symm
  refine ⟨((hperm.map _).nodup_iff).mp h.keys, ?_, ?_, hperm.length_eq ▸ h.size⟩
  · rw [ReadCache.touch, htotal]
    exact h.accounted
  · rw [ReadCache.touch, htotal]
    exact h.budget

/-- Dropping the entry of a key with its bytes. -/
theorem Sound.drop (h : cache.Sound budget) {entry : CachedRead ν}
    (hmem : entry ∈ cache.entries) :
    (⟨delete entry.key cache.entries, cache.bytes - entry.bytes⟩ : ReadCache ν).Sound budget := by
  have hperm := perm_delete h.keys hmem
  have htotal : total CachedRead.bytes cache.entries =
      entry.bytes + total CachedRead.bytes (delete entry.key cache.entries) :=
    (hperm.map _).sum_eq
  have hbudget := h.budget
  refine ⟨h.keys.sublist (List.filter_sublist.map _), ?_, ?_,
    (List.length_filter_le _ _).trans h.size⟩ <;> dsimp only
  rotate_left
  · omega
  rw [h.accounted, htotal]
  push_cast
  omega

/-- What eviction leaves has room for the value. -/
theorem evict_spec {added : ℕ} (hadded : added ≤ budget) {entries : List (CachedRead ν)}
    {bytes : ℤ} (hbytes : bytes = total CachedRead.bytes entries) :
    (evict budget added entries bytes).entries <:+ entries ∧
      (evict budget added entries bytes).bytes =
        total CachedRead.bytes (evict budget added entries bytes).entries ∧
      total CachedRead.bytes (evict budget added entries bytes).entries + added ≤ budget ∧
      (evict budget added entries bytes).entries.length < 64 := by
  induction entries generalizing bytes with
  | nil => exact ⟨List.suffix_rfl, hbytes, by simpa [evict] using hadded, by simp [evict]⟩
  | cons oldest rest ih =>
    rw [evict]
    split_ifs with hfull
    · have hrest := @ih (bytes - oldest.bytes) (by rw [hbytes, total_cons]; push_cast; omega)
      exact ⟨hrest.1.trans (List.suffix_cons _ _), hrest.2⟩
    · rw [not_or, not_le, not_lt, hbytes] at hfull
      exact ⟨List.suffix_rfl, hbytes, by exact_mod_cast hfull.2, hfull.1⟩

/-- The cache without the entry of a key. -/
def cleared (key : String) (cache : ReadCache ν) : ReadCache ν :=
  match cache.get? key with
  | some previous => ⟨delete key cache.entries, cache.bytes - previous.bytes⟩
  | none => cache

theorem put_eq (ttl now : ℤ) (key : String) (value : ν) (weight : Option ℕ) :
    cache.put budget ttl now key value weight =
      match weight with
      | none => cache.cleared key
      | some bytes =>
        if bytes > budget then cache.cleared key
        else
          let kept := evict budget bytes (cache.cleared key).entries (cache.cleared key).bytes
          ⟨kept.entries ++ [⟨key, value, bytes, now + ttl⟩], kept.bytes + bytes⟩ := rfl

theorem Sound.cleared (h : cache.Sound budget) (key : String) :
    (cache.cleared key).Sound budget := by
  unfold ReadCache.cleared
  split
  · next previous hget =>
    obtain ⟨hmem, rfl⟩ := mem_of_get? hget
    exact h.drop hmem
  · exact h

theorem cleared_entries (key : String) :
    (cache.cleared key).entries ⊆ cache.entries ∧
      key ∉ (cache.cleared key).entries.map CachedRead.key := by
  unfold ReadCache.cleared
  split
  · exact ⟨List.filter_sublist.subset, notMem_delete key _⟩
  · next hget =>
    refine ⟨List.Subset.refl _, fun hmem ↦ ?_⟩
    obtain ⟨entry, hentry, hkey⟩ := List.mem_map.mp hmem
    exact absurd hkey (by simpa using List.find?_eq_none.mp hget entry hentry)

theorem Sound.put (h : cache.Sound budget) (ttl now : ℤ) (key : String) (value : ν)
    (weight : Option ℕ) : (cache.put budget ttl now key value weight).Sound budget := by
  have hcleared := h.cleared key
  rw [put_eq]
  split
  · exact hcleared
  · next bytes =>
    split_ifs with hlarge
    · exact hcleared
    · obtain ⟨hsuffix, haccounted, hbudget, hsize⟩ :=
        evict_spec (not_lt.mp hlarge) hcleared.accounted
      have hkey := (@cleared_entries _ cache key).2
      refine ⟨?_, ?_, ?_, ?_⟩
      · rw [List.map_append, List.map_singleton]
        refine (hcleared.keys.sublist (hsuffix.sublist.map _)).append (List.nodup_singleton _) ?_
        simpa using fun entry hentry heq ↦
          hkey (List.mem_map.mpr ⟨entry, hsuffix.subset hentry, heq⟩)
      · simp [haccounted]
      · simpa using hbudget
      · rw [List.length_append]
        exact hsize

/-- Every entry after a value is cached was there before or is the value. -/
theorem mem_put {ttl now : ℤ} {key : String} {value : ν} {weight : Option ℕ}
    {entry : CachedRead ν} (hbytes : cache.Sound budget)
    (h : entry ∈ (cache.put budget ttl now key value weight).entries) :
    entry ∈ cache.entries ∨ entry.key = key ∧ entry.value = value := by
  have hsubset := (@cleared_entries _ cache key).1
  rw [put_eq] at h
  split at h
  · exact Or.inl (hsubset h)
  · split_ifs at h with hlarge
    · exact Or.inl (hsubset h)
    · obtain ⟨hsuffix, -⟩ := evict_spec (not_lt.mp hlarge) (hbytes.cleared key).accounted
      cases List.mem_append.mp h with
      | inl hkept => exact Or.inl (hsubset (hsuffix.subset hkept))
      | inr hnew =>
        rw [List.mem_singleton] at hnew
        exact Or.inr ⟨by rw [hnew], by rw [hnew]⟩

end ReadCache

/-! ## The flights -/

/-- What a flight's promises are settled with. -/
def Chain.outcome : Chain ν ε → Option (ReadOutcome ν ε)
  | .pending => none
  | .resolved outcome => some outcome
  | .stored outcome => some outcome
  | .cleared outcome => some outcome

/-- A queued flight is not aborted, and a flight has an outcome once its transport is over. -/
def Flight.Sound (flight : Flight ν ε) : Prop :=
  match flight.transport with
  | .queued => flight.aborted = false ∧ flight.chain.outcome = none
  | .loading => flight.chain.outcome = none
  | .settled => flight.chain.outcome ≠ none
  | .finished => flight.chain.outcome ≠ none
  | .cancelled => flight.chain.outcome ≠ none

/-- The slots a flight takes. -/
def Flight.slots (flight : Flight ν ε) : ℕ :=
  match flight.transport with
  | .loading => 1
  | .settled => 1
  | _ => 0

namespace Scheduler

structure Sound (scheduler : Scheduler ν ε) : Prop where
  active : scheduler.active = total Flight.slots scheduler.flights
  limit : scheduler.active ≤ 2
  full : scheduler.queue ≠ [] → scheduler.active = 2
  nodup : scheduler.queue.Nodup
  queued : ∀ index, index ∈ scheduler.queue ↔
    ∃ flight, scheduler.flights[index]? = some flight ∧ flight.transport = .queued
  flights : ∀ flight ∈ scheduler.flights, flight.Sound

variable {scheduler : Scheduler ν ε} {index : ℕ} {flight : Flight ν ε}

theorem sound_empty : (empty : Scheduler ν ε).Sound :=
  ⟨rfl, Nat.zero_le _, fun h ↦ absurd rfl h, List.nodup_nil, by simp [empty], by simp [empty]⟩

theorem forall_mem_set {property : Flight ν ε → Prop} {flights : List (Flight ν ε)}
    (h : ∀ flight ∈ flights, property flight) {flight' : Flight ν ε} (hflight : property flight') :
    ∀ flight ∈ flights.set index flight', property flight := fun other hother ↦
  (List.mem_or_eq_of_mem_set hother).elim (h other) fun heq ↦ heq ▸ hflight

/-- A flight that keeps its slot and its place in the queue. -/
theorem Sound.set (h : scheduler.Sound) (hget : scheduler.flights[index]? = some flight)
    {flight' : Flight ν ε} (hslots : flight'.slots = flight.slots)
    (hqueued : flight'.transport = .queued ↔ flight.transport = .queued)
    (hflight : flight'.Sound) :
    Sound { scheduler with flights := scheduler.flights.set index flight' } := by
  refine ⟨?_, h.limit, h.full, h.nodup, fun other ↦ ?_, forall_mem_set h.flights hflight⟩
  · have htotal := @total_set _ Flight.slots _ _ _ hget flight'
    rw [h.active]
    dsimp only
    omega
  · rw [h.queued, getElem?_set_of_some hget]
    by_cases heq : other = index
    · rw [heq, if_pos rfl, hget]
      simp [hqueued]
    · rw [if_neg heq]

theorem Sound.setUsers (h : scheduler.Sound) (hget : scheduler.flights[index]? = some flight)
    (users : ℕ) : (scheduler.setUsers index flight users).Sound :=
  h.set hget rfl Iff.rfl (h.flights flight (List.mem_of_getElem? hget))

theorem Sound.setChain (h : scheduler.Sound) (hget : scheduler.flights[index]? = some flight)
    {chain : Chain ν ε} (hchain : chain.outcome = flight.chain.outcome) :
    (scheduler.setChain index flight chain).Sound := by
  have hflight := h.flights flight (List.mem_of_getElem? hget)
  refine h.set hget rfl Iff.rfl ?_
  unfold Flight.Sound at hflight ⊢
  rwa [hchain]

theorem Sound.complete (h : scheduler.Sound) (hget : scheduler.flights[index]? = some flight)
    (hloading : flight.transport = .loading) (outcome : ReadOutcome ν ε) :
    (scheduler.complete index flight outcome).Sound :=
  h.set hget (by simp [Flight.slots, hloading]) (by simp [hloading])
    (by simp [Flight.Sound, Chain.outcome])

/-- The start of a queued flight that has left the queue. -/
theorem start_queued (hget : scheduler.flights[index]? = some flight)
    (hflight : flight.aborted = false) :
    scheduler.start index = { scheduler with
      flights := scheduler.flights.set index { flight with transport := .loading }
      active := scheduler.active + 1 } := by
  simp [start, hget, hflight]

theorem Sound.schedule (h : scheduler.Sound) (key : String) : (scheduler.schedule key).Sound := by
  have hlast (flight : Flight ν ε) :
      (scheduler.flights ++ [flight])[scheduler.flights.length]? = some flight := by simp
  have hfresh : scheduler.flights.length ∉ scheduler.queue := fun hmem ↦ by
    obtain ⟨flight, hget, -⟩ := (h.queued _).mp hmem
    simp at hget
  unfold Scheduler.schedule
  dsimp only
  split_ifs with hactive
  · have hempty : scheduler.queue = [] := by
      by_contra hne
      have := h.full hne
      omega
    rw [start_queued (hlast _) rfl]
    dsimp only
    refine ⟨?_, ?_, fun hne ↦ absurd hempty hne, h.nodup, fun other ↦ ?_, ?_⟩
    · simp [h.active, Flight.slots]
    · dsimp only
      omega
    · dsimp only
      rw [getElem?_set_of_some (hlast _), h.queued]
      by_cases heq : other = scheduler.flights.length
      · simp [heq]
      · rw [if_neg heq, List.getElem?_append]
        by_cases hlt : other < scheduler.flights.length
        · rw [if_pos hlt]
        · have hgt : ¬ other - scheduler.flights.length = 0 := by omega
          simp [hlt, hgt]
    · refine forall_mem_set (List.forall_mem_append.mpr ⟨h.flights, ?_⟩) ?_
      · simp [Flight.Sound, Chain.outcome]
      · simp [Flight.Sound, Chain.outcome]
  · have hfull : scheduler.active = 2 := by
      have := h.limit
      omega
    refine ⟨?_, h.limit, fun _ ↦ hfull, ?_, fun other ↦ ?_, ?_⟩
    · simp [h.active, Flight.slots]
    · exact h.nodup.append (List.nodup_singleton _) (by simpa using hfresh)
    · rw [List.mem_append, h.queued, List.mem_singleton, List.getElem?_append]
      by_cases hlt : other < scheduler.flights.length
      · have hne : other ≠ scheduler.flights.length := by omega
        simp [hlt, hne]
      · by_cases heq : other = scheduler.flights.length
        · simp [heq]
        · have hgt : ¬ other - scheduler.flights.length = 0 := by omega
          simp [hlt, heq, hgt]
    · refine List.forall_mem_append.mpr ⟨h.flights, ?_⟩
      simp [Flight.Sound, Chain.outcome]

theorem Sound.abort (h : scheduler.Sound) (index : ℕ) : (scheduler.abort index).Sound := by
  unfold Scheduler.abort
  split
  · exact h
  · next flight hget =>
    have hflight := h.flights flight (List.mem_of_getElem? hget)
    split_ifs with haborted hqueued
    · exact h
    · have htotal := @total_set _ Flight.slots _ _ _ hget { flight with
        aborted := true, transport := .cancelled, chain := .resolved (.error .aborted) }
      have hslots : flight.slots = 0 := by simp [Flight.slots, hqueued]
      refine ⟨?_, h.limit, fun hne ↦ h.full fun hempty ↦ hne (by simp [hempty]),
        h.nodup.filter _, fun other ↦ ?_, forall_mem_set h.flights ?_⟩
      · rw [h.active]
        dsimp only
        simp only [Flight.slots] at htotal hslots ⊢
        omega
      · rw [List.mem_filter, h.queued, getElem?_set_of_some hget]
        by_cases heq : other = index
        · simp [heq]
        · simp [heq]
      · simp [Flight.Sound, Chain.outcome]
    · refine h.set hget rfl Iff.rfl ?_
      unfold Flight.Sound at hflight ⊢
      split at hflight
      · next htransport => exact absurd htransport hqueued
      all_goals next htransport => simpa [htransport] using hflight

theorem Sound.finish (h : scheduler.Sound) (hget : scheduler.flights[index]? = some flight)
    (hsettled : flight.transport = .settled) : (scheduler.finish index flight).Sound := by
  have hflight := h.flights flight (List.mem_of_getElem? hget)
  have hfinished : ({ flight with transport := .finished } : Flight ν ε).Sound := by
    simpa [Flight.Sound, hsettled] using hflight
  have htotal := @total_set _ Flight.slots _ _ _ hget { flight with transport := .finished }
  have hslots : flight.slots = 1 := by simp [Flight.slots, hsettled]
  have hfree : ({ flight with transport := .finished } : Flight ν ε).slots = 0 := rfl
  have hfreed : ∀ other, other ∈ scheduler.queue ↔ ∃ flight',
      (scheduler.flights.set index { flight with transport := .finished })[other]? =
        some flight' ∧ flight'.transport = .queued := by
    intro other
    rw [h.queued, getElem?_set_of_some hget]
    by_cases heq : other = index
    · simp [heq, hget, hsettled]
    · rw [if_neg heq]
  have hactive := h.active
  have hlimit := h.limit
  unfold Scheduler.finish
  dsimp only
  split
  · next hqueue =>
    refine ⟨?_, ?_, fun hne ↦ absurd hqueue hne, h.nodup, hfreed,
      forall_mem_set h.flights hfinished⟩
    · dsimp only
      omega
    · dsimp only
      omega
  · next next rest hqueue =>
    have hfull := h.full (by simp [hqueue])
    obtain ⟨queued, hnext, htransport⟩ := (hfreed next).mp (by simp [hqueue])
    have hsound := @forall_mem_set _ _ index _ _ h.flights _ hfinished
    have hqueued := hsound queued (List.mem_of_getElem? hnext)
    rw [Flight.Sound, htransport] at hqueued
    have hnodup := h.nodup
    rw [hqueue, List.nodup_cons] at hnodup
    have htotal' := @total_set _ Flight.slots _ _ _ hnext { queued with transport := .loading }
    have hslots' : queued.slots = 0 := by simp [Flight.slots, htransport]
    have hloading : ({ queued with transport := .loading } : Flight ν ε).slots = 1 := rfl
    rw [start_queued hnext hqueued.1]
    refine ⟨?_, ?_, fun _ ↦ ?_, hnodup.2, fun other ↦ ?_, forall_mem_set hsound hqueued.2⟩
    · dsimp only
      omega
    · dsimp only
      omega
    · dsimp only
      omega
    · have hother := hfreed other
      rw [hqueue, List.mem_cons] at hother
      dsimp only
      rw [getElem?_set_of_some hnext]
      by_cases heq : other = next
      · simp [heq, hnodup.1]
      · rw [if_neg heq, ← hother]
        simp [heq]

/-! ## What the operations leave alone -/

/-- Two schedulers with the same flights as far as a view goes. -/
def Same {α : Type} (view : Flight ν ε → α) (scheduler scheduler' : Scheduler ν ε) : Prop :=
  ∀ index : ℕ, scheduler'.flights[index]?.map view = scheduler.flights[index]?.map view

section

variable {α : Type} {view : Flight ν ε → α}

theorem Same.refl : Same view scheduler scheduler := fun _ ↦ rfl

theorem Same.trans {scheduler' scheduler'' : Scheduler ν ε} (h : Same view scheduler scheduler')
    (h' : Same view scheduler' scheduler'') : Same view scheduler scheduler'' :=
  fun index ↦ (h' index).trans (h index)

theorem Same.of_getElem? {scheduler' : Scheduler ν ε} (h : Same view scheduler scheduler')
    {flight' : Flight ν ε} (hget : scheduler'.flights[index]? = some flight') :
    ∃ flight, scheduler.flights[index]? = some flight ∧ view flight = view flight' := by
  have hview := h index
  rw [hget, Option.map_some, eq_comm, Option.map_eq_some_iff] at hview
  exact hview

theorem same_set (hget : scheduler.flights[index]? = some flight) {flight' : Flight ν ε}
    (hview : view flight' = view flight) {active : ℕ} {queue : List ℕ} :
    Same view scheduler ⟨scheduler.flights.set index flight', active, queue⟩ := by
  intro other
  dsimp only
  rw [getElem?_set_of_some hget]
  split_ifs with heq
  · rw [heq, hget, Option.map_some, Option.map_some, hview]
  · rfl

/-- A view that sees neither transport nor promises. -/
def Ignores (view : Flight ν ε → α) : Prop :=
  ∀ flight transport chain, view { flight with transport, chain } = view flight

theorem same_start (hview : Ignores view) (index : ℕ) :
    Same view scheduler (scheduler.start index) := by
  unfold Scheduler.start
  split
  · exact .refl
  · next flight hget =>
    split_ifs
    · exact same_set hget (hview flight _ _)
    · exact same_set hget (hview flight _ flight.chain)

theorem same_finish (hview : Ignores view) (hget : scheduler.flights[index]? = some flight) :
    Same view scheduler (scheduler.finish index flight) := by
  have hfreed {active : ℕ} {queue : List ℕ} : Same view scheduler
      ⟨scheduler.flights.set index { flight with transport := .finished }, active, queue⟩ :=
    same_set hget (hview flight _ flight.chain)
  unfold Scheduler.finish
  dsimp only
  split
  · exact hfreed
  · exact hfreed.trans (same_start hview _)

end

/-- What a consumer sees of a flight. -/
def face (flight : Flight ν ε) : String × ℕ := (flight.key, flight.users)

theorem same_abort (index : ℕ) : Same face scheduler (scheduler.abort index) := by
  unfold Scheduler.abort
  split
  · exact .refl
  · next flight hget =>
    split_ifs
    · exact .refl
    · exact same_set hget (by rfl)
    · exact same_set hget (by rfl)

/-- Only the flight itself is aborted. -/
theorem getElem?_abort {other : ℕ} (hne : other ≠ index) :
    (scheduler.abort index).flights[other]? = scheduler.flights[other]? := by
  unfold Scheduler.abort
  split
  · rfl
  · next flight hget =>
    split_ifs
    · rfl
    · exact (getElem?_set_of_some hget _ other).trans (if_neg hne)
    · exact (getElem?_set_of_some hget _ other).trans (if_neg hne)

/-! ## Outcomes -/

/-- The outcomes of all flights are of a kind. -/
def Outcomes (property : String → ReadOutcome ν ε → Prop) (scheduler : Scheduler ν ε) : Prop :=
  ∀ flight ∈ scheduler.flights, ∀ outcome ∈ flight.chain.outcome, property flight.key outcome

variable {property : String → ReadOutcome ν ε → Prop}

theorem Outcomes.start (h : scheduler.Outcomes property)
    (haborted : ∀ key, property key (.error .aborted)) (index : ℕ) :
    (scheduler.start index).Outcomes property := by
  unfold Scheduler.start
  split
  · exact h
  · next flight hget =>
    split_ifs
    · exact forall_mem_set h (by simpa [Chain.outcome] using haborted flight.key)
    · exact forall_mem_set h (h flight (List.mem_of_getElem? hget))

theorem Outcomes.schedule (h : scheduler.Outcomes property)
    (haborted : ∀ key, property key (.error .aborted)) (key : String) :
    (scheduler.schedule key).Outcomes property := by
  have hadded {queue : List ℕ} : Outcomes property ⟨scheduler.flights ++
      [⟨key, 0, false, .queued, .pending⟩], scheduler.active, queue⟩ :=
    List.forall_mem_append.mpr ⟨h, by simp [Chain.outcome]⟩
  unfold Scheduler.schedule
  dsimp only
  split_ifs
  · exact hadded.start haborted _
  · exact hadded

theorem Outcomes.abort (h : scheduler.Outcomes property)
    (haborted : ∀ key, property key (.error .aborted)) (index : ℕ) :
    (scheduler.abort index).Outcomes property := by
  unfold Scheduler.abort
  split
  · exact h
  · next flight hget =>
    split_ifs
    · exact h
    · exact forall_mem_set h (by simpa [Chain.outcome] using haborted flight.key)
    · exact forall_mem_set h (h flight (List.mem_of_getElem? hget))

theorem Outcomes.finish (h : scheduler.Outcomes property)
    (haborted : ∀ key, property key (.error .aborted))
    (hget : scheduler.flights[index]? = some flight) :
    (scheduler.finish index flight).Outcomes property := by
  have hfreed {active : ℕ} {queue : List ℕ} : Outcomes property
      ⟨scheduler.flights.set index { flight with transport := .finished }, active, queue⟩ :=
    forall_mem_set h (h flight (List.mem_of_getElem? hget))
  unfold Scheduler.finish
  dsimp only
  split
  · exact hfreed
  · exact hfreed.start haborted _

end Scheduler

end Rvx.Web
