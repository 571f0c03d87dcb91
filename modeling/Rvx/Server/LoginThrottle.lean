import Mathlib.Order.Nat
import Rvx.Lib.KeyedTable
import Rvx.Lib.Windows

/-!
# The login throttle

Attempts to log in are counted per transport peer, in windows of 60 seconds that open at the first
attempt after the last one ran out.  Times are nanoseconds of a monotonic clock.
-/

namespace Rvx.Server

open Windows

inductive IpAddr where
  | v4 (bits : BitVec 32)
  | v6 (bits : BitVec 128)
deriving DecidableEq

def NANOS_PER_SEC : ℕ := 1000000000
def ATTEMPT_WINDOW : ℕ := 60 * NANOS_PER_SEC
def MAX_ATTEMPTS : ℕ := 10
def MAX_PEERS : ℕ := 4096

/-- An entry of the table of peers. -/
structure AttemptWindow where
  peer : Option IpAddr
  began : ℕ
  attempts : ℕ
deriving DecidableEq

structure LoginThrottle where
  peers : KeyedTable AttemptWindow.peer
  cleanupAt : Option ℕ

/-- `Instant::duration_since`, which saturates. -/
def durationSince (now earlier : ℕ) : ℕ := now - earlier

/-- The subtraction of durations, which panics when it underflows. -/
def subDuration (a b : ℕ) : Option ℕ := if b ≤ a then some (a - b) else none

namespace LoginThrottle

def default : LoginThrottle := ⟨.empty, none⟩

/-- Expired windows are dropped once in a while. -/
def cleanup (throttle : LoginThrottle) (now : ℕ) : LoginThrottle :=
  if throttle.cleanupAt.all fun deadline ↦ deadline ≤ now then
    ⟨throttle.peers.retain fun window ↦ durationSince now window.began < ATTEMPT_WINDOW,
      some (now + ATTEMPT_WINDOW)⟩
  else throttle

/-- The seconds to wait, or none if the attempt is accepted. -/
def attempt (throttle : LoginThrottle) (peer : Option IpAddr) (now : ℕ) :
    Option (Option ℕ × LoginThrottle) := do
  let throttle := throttle.cleanup now
  if throttle.peers.find? peer = none ∧ throttle.peers.rows.length ≥ MAX_PEERS then
    return (some (ATTEMPT_WINDOW / NANOS_PER_SEC), throttle)
  let window := (throttle.peers.find? peer).getD ⟨peer, now, 0⟩
  let elapsed := durationSince now window.began
  let window := if elapsed ≥ ATTEMPT_WINDOW then { window with began := now, attempts := 0 }
    else window
  if window.attempts ≥ MAX_ATTEMPTS then
    let left ← subDuration ATTEMPT_WINDOW (durationSince now window.began)
    return (some (min (left / NANOS_PER_SEC + 1) 60),
      { throttle with peers := throttle.peers.put window })
  return (none,
    { throttle with peers := throttle.peers.put { window with attempts := window.attempts + 1 } })

end LoginThrottle

/-! ## Sequences of attempts -/

structure Attempt where
  peer : Option IpAddr
  time : ℕ
deriving DecidableEq

/-- What became of an attempt, and the start of the window its peer was left with. -/
structure Answered where
  peer : Option IpAddr
  time : ℕ
  accepted : Bool
  began : Option ℕ
deriving DecidableEq

/-- One attempt, with the answers before it. -/
def answer (state : List Answered × LoginThrottle) (attempt : Attempt) :
    Option (List Answered × LoginThrottle) := do
  let (retry, throttle) ← state.2.attempt attempt.peer attempt.time
  return (state.1 ++ [⟨attempt.peer, attempt.time, retry.isNone,
    (throttle.peers.find? attempt.peer).map AttemptWindow.began⟩], throttle)

/-- The answers to a sequence of attempts; there are none if a duration underflows. -/
def answers (attempts : List Attempt) : Option (List Answered × LoginThrottle) :=
  attempts.foldlM answer ([], LoginThrottle.default)

/-! ## What one attempt does -/

/-- An attempt finds the table full, its own window used up, a window with room, or opens one. -/
inductive Turn (peer : Option IpAddr) (now : ℕ) (before after : LoginThrottle) : Bool → Prop
  | full (hnone : before.peers.find? peer = none) (hfull : MAX_PEERS ≤ before.peers.rows.length)
      (hafter : after = before) : Turn peer now before after false
  | exhausted (window : AttemptWindow) (hwindow : before.peers.find? peer = some window)
      (hcurrent : now < window.began + ATTEMPT_WINDOW) (hattempts : MAX_ATTEMPTS ≤ window.attempts)
      (hafter : after.peers = before.peers.put window) : Turn peer now before after false
  | counted (window : AttemptWindow) (hwindow : before.peers.find? peer = some window)
      (hcurrent : now < window.began + ATTEMPT_WINDOW) (hattempts : window.attempts < MAX_ATTEMPTS)
      (hafter : after.peers =
        before.peers.put { window with attempts := window.attempts + 1 }) :
      Turn peer now before after true
  | opened (hroom : before.peers.find? peer = none → before.peers.rows.length < MAX_PEERS)
      (hexpired : ∀ window, before.peers.find? peer = some window →
        window.began + ATTEMPT_WINDOW ≤ now)
      (hafter : after.peers = before.peers.put ⟨peer, now, 1⟩) : Turn peer now before after true

theorem LoginThrottle.attempt_turn (throttle : LoginThrottle) (peer : Option IpAddr) (now : ℕ) :
    ∃ retry after, throttle.attempt peer now = some (retry, after) ∧
      Turn peer now (throttle.cleanup now) after retry.isNone := by
  have hwindow_pos : 0 < ATTEMPT_WINDOW := by decide
  unfold attempt
  dsimp only
  generalize throttle.cleanup now = before
  by_cases hfull : before.peers.find? peer = none ∧ before.peers.rows.length ≥ MAX_PEERS
  · rw [if_pos hfull]
    exact ⟨_, _, rfl, .full hfull.1 hfull.2 rfl⟩
  rw [if_neg hfull]
  cases hfind : before.peers.find? peer with
  | none =>
    have hroom : before.peers.rows.length < MAX_PEERS := Nat.not_le.mp fun hle ↦ hfull ⟨hfind, hle⟩
    have hzero : ¬ durationSince now now ≥ ATTEMPT_WINDOW := by
      rw [durationSince, Nat.sub_self]
      omega
    simp only [Option.getD_none, if_neg hzero]
    rw [if_neg (by decide)]
    exact ⟨_, _, rfl, .opened (fun _ ↦ hroom) (by simp [hfind]) rfl⟩
  | some window =>
    simp only [Option.getD_some]
    have hpeer : window.peer = peer := (KeyedTable.find?_eq_some.mp hfind).2
    by_cases hexpired : durationSince now window.began ≥ ATTEMPT_WINDOW
    · rw [if_pos hexpired]
      simp only
      rw [if_neg (by decide), ← hpeer]
      refine ⟨_, _, rfl, .opened (by simp [hpeer, hfind]) (fun other hother ↦ ?_) rfl⟩
      rw [hpeer, hfind] at hother
      rw [← Option.some.inj hother]
      unfold durationSince at hexpired
      omega
    · rw [if_neg hexpired]
      have hcurrent : now < window.began + ATTEMPT_WINDOW := by
        unfold durationSince at hexpired
        omega
      by_cases hattempts : window.attempts ≥ MAX_ATTEMPTS
      · rw [if_pos hattempts, subDuration, if_pos (Nat.not_le.mp hexpired).le]
        exact ⟨_, _, rfl, .exhausted window hfind hcurrent hattempts rfl⟩
      · rw [if_neg hattempts]
        exact ⟨_, _, rfl, .counted window hfind hcurrent (Nat.not_le.mp hattempts) rfl⟩

/-! ## What a sequence of attempts does -/

/-- The accepted attempts of a peer. -/
def hitsOf (peer : Option IpAddr) (log : List Answered) : List Hit :=
  (log.filter fun entry ↦ entry.peer = peer ∧ entry.accepted = true).map fun entry ↦
    ⟨entry.began.getD 0, entry.time⟩

theorem hitsOf_concat (peer : Option IpAddr) (log : List Answered) (entry : Answered) :
    hitsOf peer (log ++ [entry]) = hitsOf peer log ++
      if entry.peer = peer ∧ entry.accepted = true then [⟨entry.began.getD 0, entry.time⟩]
      else [] := by
  rw [hitsOf, List.filter_append, List.map_append, List.filter_singleton, hitsOf]
  by_cases hentry : entry.peer = peer ∧ entry.accepted = true
  · rw [if_pos hentry, decide_eq_true hentry]
    rfl
  · rw [if_neg hentry, decide_eq_false hentry]
    rfl

/-- A window of a peer is the current one, or it is over. -/
def Settled (throttle : LoginThrottle) (now : ℕ) (peer : Option IpAddr) (start : ℕ) : Prop :=
  (∀ window, throttle.peers.find? peer = some window →
    start = window.began ∨ start + ATTEMPT_WINDOW ≤ window.began) ∧
  (throttle.peers.find? peer = none → start + ATTEMPT_WINDOW ≤ now)

/-- A window of a peer is the current one and used up, or it is over. -/
def Spent (throttle : LoginThrottle) (now : ℕ) (peer : Option IpAddr) (start : ℕ) : Prop :=
  (∀ window, throttle.peers.find? peer = some window →
    (start = window.began ∧ MAX_ATTEMPTS ≤ window.attempts) ∨
      start + ATTEMPT_WINDOW ≤ window.began) ∧
  (throttle.peers.find? peer = none → start + ATTEMPT_WINDOW ≤ now)

/-- The table agrees with the answers given until now. -/
structure Throttled (log : List Answered) (throttle : LoginThrottle) (now : ℕ) : Prop where
  size : throttle.peers.rows.length ≤ MAX_PEERS
  window : ∀ peer window, throttle.peers.find? peer = some window → window.began ≤ now ∧
    window.attempts = ((hitsOf peer log).countP fun hit ↦ hit.start = window.began) ∧
    ∃ hit ∈ hitsOf peer log, hit.start = window.began
  spaced : ∀ peer, Spaced ATTEMPT_WINDOW MAX_ATTEMPTS (hitsOf peer log)
  settled : ∀ peer, ∀ hit ∈ hitsOf peer log, Settled throttle now peer hit.start
  accepted : ∀ entry ∈ log, entry.accepted = true → entry.began.isSome = true
  refused : ∀ entry ∈ log, entry.accepted = false → ∀ start ∈ entry.began,
    Spent throttle now entry.peer start
  again : log.Pairwise fun entry later ↦ entry.accepted = false → ∀ start ∈ entry.began,
    later.peer = entry.peer → later.accepted = true → start + ATTEMPT_WINDOW ≤ later.time

section Steps

variable {log : List Answered} {throttle before after : LoginThrottle} {now now' : ℕ}
  {peer : Option IpAddr}

theorem throttled_default : Throttled [] LoginThrottle.default 0 := by
  refine ⟨by decide, ?_, fun _ ↦ spaced_nil, ?_, ?_, ?_, List.Pairwise.nil⟩
  · rintro peer window ⟨⟩
  · rintro peer hit ⟨⟩
  · rintro entry ⟨⟩
  · rintro entry ⟨⟩

theorem Throttled.later (h : Throttled log throttle now) (hnow : now ≤ now') :
    Throttled log throttle now' := by
  refine ⟨h.size, fun peer window hwindow ↦ ?_, h.spaced, fun peer hit hhit ↦ ?_, h.accepted,
    fun entry hentry hrefused start hstart ↦ ?_, h.again⟩
  · obtain ⟨hbegan, hrest⟩ := h.window peer window hwindow
    exact ⟨hbegan.trans hnow, hrest⟩
  · obtain ⟨hsome, hnone⟩ := h.settled peer hit hhit
    exact ⟨hsome, fun habsent ↦ (hnone habsent).trans hnow⟩
  · obtain ⟨hsome, hnone⟩ := h.refused entry hentry hrefused start hstart
    exact ⟨hsome, fun habsent ↦ (hnone habsent).trans hnow⟩

/-- Only windows that are over are dropped. -/
theorem find?_cleanup (throttle : LoginThrottle) (now : ℕ) (peer : Option IpAddr) :
    (throttle.cleanup now).peers.find? peer = throttle.peers.find? peer ∨
      (throttle.cleanup now).peers.find? peer = none ∧
        ∃ window, throttle.peers.find? peer = some window ∧
          window.began + ATTEMPT_WINDOW ≤ now := by
  unfold LoginThrottle.cleanup
  by_cases hdue : (throttle.cleanupAt.all fun deadline ↦ decide (deadline ≤ now)) = true
  · rw [if_pos hdue]
    dsimp only
    cases hfind : throttle.peers.find? peer with
    | none =>
      refine Or.inl (Option.eq_none_iff_forall_ne_some.mpr fun window hwindow ↦ ?_)
      rw [KeyedTable.find?_retain, hfind] at hwindow
      cases hwindow.1
    | some window =>
      by_cases hkeep : durationSince now window.began < ATTEMPT_WINDOW
      · exact Or.inl (KeyedTable.find?_retain.mpr ⟨hfind, decide_eq_true hkeep⟩)
      · refine Or.inr ⟨Option.eq_none_iff_forall_ne_some.mpr fun other hother ↦ ?_, window, rfl, ?_⟩
        · rw [KeyedTable.find?_retain, hfind] at hother
          rw [← Option.some.inj hother.1] at hother
          exact hkeep (of_decide_eq_true hother.2)
        · unfold durationSince at hkeep
          have hpos : 0 < ATTEMPT_WINDOW := by decide
          omega
  · rw [if_neg hdue]
    exact Or.inl rfl

theorem length_cleanup_le (throttle : LoginThrottle) (now : ℕ) :
    (throttle.cleanup now).peers.rows.length ≤ throttle.peers.rows.length := by
  unfold LoginThrottle.cleanup
  split
  · exact List.length_filter_le _ _
  · exact le_refl _

theorem Throttled.cleanup (h : Throttled log throttle now) :
    Throttled log (throttle.cleanup now) now := by
  have hfind (peer : Option IpAddr) := find?_cleanup throttle now peer
  refine ⟨(length_cleanup_le throttle now).trans h.size, fun peer window hwindow ↦ ?_, h.spaced,
    fun peer hit hhit ↦ ?_, h.accepted, fun entry hentry hrefused start hstart ↦ ?_, h.again⟩
  · obtain heq | ⟨hnone, -⟩ := hfind peer
    · exact h.window peer window (heq ▸ hwindow)
    · rw [hnone] at hwindow
      cases hwindow
  · obtain ⟨hsome, hnone⟩ := h.settled peer hit hhit
    obtain heq | ⟨hgone, window, hwindow, hover⟩ := hfind peer
    · exact ⟨heq ▸ hsome, heq ▸ hnone⟩
    · refine ⟨by simp [hgone], fun _ ↦ ?_⟩
      have hstart := hsome window hwindow
      omega
  · obtain ⟨hsome, hnone⟩ := h.refused entry hentry hrefused start hstart
    obtain heq | ⟨hgone, window, hwindow, hover⟩ := hfind entry.peer
    · exact ⟨heq ▸ hsome, heq ▸ hnone⟩
    · refine ⟨by simp [hgone], fun _ ↦ ?_⟩
      have hstart := hsome window hwindow
      omega

/-- An answer that leaves the peer's window as it was, or the peer without one. -/
theorem Throttled.refuse (h : Throttled log throttle now) (hpeers : after.peers.rows.length =
    throttle.peers.rows.length) (hfind : ∀ other, after.peers.find? other = throttle.peers.find? other)
    (hspent : ∀ window, throttle.peers.find? peer = some window → MAX_ATTEMPTS ≤ window.attempts) :
    Throttled (log ++ [⟨peer, now, false, (after.peers.find? peer).map AttemptWindow.began⟩])
      after now := by
  have hhits (other : Option IpAddr) : hitsOf other (log ++ [⟨peer, now, false,
      (after.peers.find? peer).map AttemptWindow.began⟩]) = hitsOf other log := by
    rw [hitsOf_concat, if_neg (by simp), List.append_nil]
  have hsame (other : Option IpAddr) (start : ℕ) (hspent : Spent throttle now other start) :
      Spent after now other start := by
    unfold Spent
    rw [hfind]
    exact hspent
  refine ⟨hpeers ▸ h.size, fun other window hwindow ↦ ?_, fun other ↦ (hhits other).symm ▸ h.spaced other,
    fun other hit hhit ↦ ?_, ?_, ?_, ?_⟩
  · rw [hhits]
    exact h.window other window (hfind other ▸ hwindow)
  · rw [hhits] at hhit
    unfold Settled
    rw [hfind]
    exact h.settled other hit hhit
  · intro entry hentry haccepted
    obtain hentry | hentry := List.mem_append.mp hentry
    · exact h.accepted entry hentry haccepted
    · rw [List.mem_singleton.mp hentry] at haccepted
      cases haccepted
  · intro entry hentry hrefused start hstart
    obtain hentry | hentry := List.mem_append.mp hentry
    · exact hsame entry.peer start (h.refused entry hentry hrefused start hstart)
    · rw [List.mem_singleton.mp hentry] at hstart ⊢
      rw [hfind] at hstart
      obtain ⟨window, hwindow, rfl⟩ := Option.map_eq_some_iff.mp hstart
      refine hsame peer window.began ⟨fun other hother ↦ ?_, fun hnone ↦ ?_⟩
      · rw [hwindow] at hother
        rw [← Option.some.inj hother]
        exact Or.inl ⟨rfl, hspent window hwindow⟩
      · rw [hnone] at hwindow
        cases hwindow
  · refine List.pairwise_append.mpr ⟨h.again, List.pairwise_singleton _ _, ?_⟩
    intro entry hentry later hlater hrefused start hstart hpeer haccepted
    rw [List.mem_singleton.mp hlater] at haccepted
    cases haccepted

/-- An accepted attempt of a window that has room, or of a new one. -/
theorem Throttled.accept (h : Throttled log throttle now) {start attempts : ℕ}
    (hpeers : after.peers = throttle.peers.put ⟨peer, start, attempts⟩)
    (hroom : throttle.peers.find? peer = none → throttle.peers.rows.length < MAX_PEERS)
    (hle : start ≤ now) (hlt : now < start + ATTEMPT_WINDOW)
    (hopened : start = now ∨ ∃ hit ∈ hitsOf peer log, hit.start = start)
    (hattempts : attempts = ((hitsOf peer log).countP fun hit ↦ hit.start = start) + 1)
    (hmost : attempts ≤ MAX_ATTEMPTS)
    (hapart : ∀ hit ∈ hitsOf peer log, hit.start = start ∨ hit.start + ATTEMPT_WINDOW ≤ start)
    (hagain : ∀ entry ∈ log, entry.peer = peer → entry.accepted = false →
      ∀ old ∈ entry.began, old + ATTEMPT_WINDOW ≤ start) :
    Throttled (log ++ [⟨peer, now, true, (after.peers.find? peer).map AttemptWindow.began⟩])
      after now := by
  have hfind (other : Option IpAddr) : after.peers.find? other =
      if other = peer then some ⟨peer, start, attempts⟩ else throttle.peers.find? other := by
    rw [hpeers, KeyedTable.find?_put]
  have hself : after.peers.find? peer = some ⟨peer, start, attempts⟩ := by
    rw [hfind, if_pos rfl]
  rw [hself, Option.map_some]
  have hhits (other : Option IpAddr) : hitsOf other (log ++ [⟨peer, now, true, some start⟩]) =
      hitsOf other log ++ if peer = other then [⟨start, now⟩] else [] := by
    rw [hitsOf_concat]
    simp only [and_true, Option.getD_some]
  have hhitsSelf : hitsOf peer (log ++ [⟨peer, now, true, some start⟩]) =
      hitsOf peer log ++ [⟨start, now⟩] := by
    rw [hhits, if_pos rfl]
  have hhitsOther {other : Option IpAddr} (hne : other ≠ peer) :
      hitsOf other (log ++ [⟨peer, now, true, some start⟩]) = hitsOf other log := by
    rw [hhits, if_neg (Ne.symm hne), List.append_nil]
  refine ⟨?_, fun other window hwindow ↦ ?_, fun other ↦ ?_, fun other hit hhit ↦ ?_, ?_, ?_, ?_⟩
  · rw [hpeers, KeyedTable.length_put]
    split
    · rename_i hnone
      exact hroom hnone
    · exact h.size
  · by_cases heq : other = peer
    · subst heq
      rw [hself] at hwindow
      rw [← Option.some.inj hwindow, hhitsSelf, List.countP_append, List.countP_singleton,
        if_pos (decide_eq_true rfl)]
      exact ⟨hle, hattempts, ⟨start, now⟩, by simp, rfl⟩
    · rw [hfind, if_neg heq] at hwindow
      rw [hhitsOther heq]
      exact h.window other window hwindow
  · by_cases heq : other = peer
    · subst heq
      rw [hhitsSelf]
      exact (h.spaced other).concat hle hlt hopened (by omega) hapart
    · rw [hhitsOther heq]
      exact h.spaced other
  · by_cases heq : other = peer
    · subst heq
      rw [hhitsSelf] at hhit
      refine ⟨fun window hwindow ↦ ?_, fun hnone ↦ ?_⟩
      · rw [hself] at hwindow
        rw [← Option.some.inj hwindow]
        obtain hhit | hhit := List.mem_append.mp hhit
        · exact hapart hit hhit
        · rw [List.mem_singleton.mp hhit]
          exact Or.inl rfl
      · rw [hself] at hnone
        cases hnone
    · rw [hhitsOther heq] at hhit
      unfold Settled
      rw [hfind, if_neg heq]
      exact h.settled other hit hhit
  · intro entry hentry haccepted
    obtain hentry | hentry := List.mem_append.mp hentry
    · exact h.accepted entry hentry haccepted
    · rw [List.mem_singleton.mp hentry]
      rfl
  · intro entry hentry hrefused old hold
    obtain hentry | hentry := List.mem_append.mp hentry
    · by_cases heq : entry.peer = peer
      · refine ⟨fun window hwindow ↦ ?_, fun hnone ↦ ?_⟩
        · rw [heq, hself] at hwindow
          rw [← Option.some.inj hwindow]
          exact Or.inr (hagain entry hentry heq hrefused old hold)
        · rw [heq, hself] at hnone
          cases hnone
      · unfold Spent
        rw [hfind, if_neg heq]
        exact h.refused entry hentry hrefused old hold
    · rw [List.mem_singleton.mp hentry] at hrefused
      cases hrefused
  · refine List.pairwise_append.mpr ⟨h.again, List.pairwise_singleton _ _, ?_⟩
    intro entry hentry later hlater hrefused old hold hpeer haccepted
    rw [List.mem_singleton.mp hlater] at hpeer ⊢
    exact (hagain entry hentry hpeer.symm hrefused old hold).trans hle

theorem Throttled.turn (h : Throttled log before now) {accepted : Bool}
    (hturn : Turn peer now before after accepted) :
    Throttled (log ++ [⟨peer, now, accepted, (after.peers.find? peer).map AttemptWindow.began⟩])
      after now := by
  cases hturn with
  | full hnone hfull hafter =>
    rw [hafter]
    exact h.refuse rfl (fun _ ↦ rfl) (by simp [hnone])
  | exhausted window hwindow hcurrent hattempts hafter =>
    have hpeer : window.peer = peer := (KeyedTable.find?_eq_some.mp hwindow).2
    refine h.refuse ?_ (fun other ↦ ?_) fun other hother ↦ ?_
    · rw [hafter, KeyedTable.length_put, hpeer, if_neg (by simp [hwindow])]
    · rw [hafter, KeyedTable.find?_put, hpeer]
      split
      · rename_i heq
        rw [heq, hwindow]
      · rfl
    · rw [hwindow] at hother
      exact Option.some.inj hother ▸ hattempts
  | counted window hwindow hcurrent hattempts hafter =>
    have hpeer : window.peer = peer := (KeyedTable.find?_eq_some.mp hwindow).2
    obtain ⟨hbegan, hcount, hopened⟩ := h.window peer window hwindow
    rw [← hpeer] at hcount hopened
    rw [← hpeer]
    refine h.accept hafter (by simp [hpeer, hwindow]) hbegan hcurrent (Or.inr hopened)
      (by rw [hcount]) hattempts (fun hit hhit ↦ ?_) fun entry hentry heq hrefused old hold ↦ ?_
    · exact (h.settled _ hit hhit).1 window (hpeer ▸ hwindow)
    · have hspent := (h.refused entry hentry hrefused old hold).1 window (heq ▸ hpeer ▸ hwindow)
      omega
  | opened hroom hexpired hafter =>
    have hover {start : ℕ} (hsome : ∀ window, before.peers.find? peer = some window →
        start = window.began ∨ start + ATTEMPT_WINDOW ≤ window.began)
        (hnone : before.peers.find? peer = none → start + ATTEMPT_WINDOW ≤ now) :
        start + ATTEMPT_WINDOW ≤ now := by
      cases hfind : before.peers.find? peer with
      | none => exact hnone hfind
      | some window =>
        have hstart := hsome window hfind
        have hexpired := hexpired window hfind
        omega
    have hold (hit : Hit) (hhit : hit ∈ hitsOf peer log) : hit.start + ATTEMPT_WINDOW ≤ now :=
      hover (h.settled peer hit hhit).1 (h.settled peer hit hhit).2
    have hpos : 0 < ATTEMPT_WINDOW := by decide
    refine h.accept hafter hroom (le_refl now) (by omega) (Or.inl rfl) ?_ (by decide)
      (fun hit hhit ↦ Or.inr (hold hit hhit)) fun entry hentry heq hrefused start hstart ↦ ?_
    · rw [List.countP_eq_zero.mpr]
      intro hit hhit hstart
      have hle := hold hit hhit
      rw [decide_eq_true_eq] at hstart
      omega
    · obtain ⟨hsome, hnone⟩ := h.refused entry hentry hrefused start hstart
      rw [heq] at hsome hnone
      exact hover (fun window hwindow ↦ (hsome window hwindow).imp_left And.left) hnone

theorem Throttled.answer (h : Throttled log throttle now) {attempt : Attempt}
    (hnow : now ≤ attempt.time) :
    ∃ log' throttle', Server.answer (log, throttle) attempt = some (log', throttle') ∧
      Throttled log' throttle' attempt.time := by
  obtain ⟨retry, after, hattempt, hturn⟩ := throttle.attempt_turn attempt.peer attempt.time
  refine ⟨_, after, ?_, (h.later hnow).cleanup.turn hturn⟩
  unfold Server.answer
  rw [hattempt]
  rfl

/-- A sequence of attempts at nondecreasing times is answered to its end. -/
theorem throttled_answers {attempts : List Attempt}
    (h : attempts.Pairwise fun attempt later ↦ attempt.time ≤ later.time) :
    ∃ log throttle, answers attempts = some (log, throttle) ∧
      ∀ now, (∀ attempt ∈ attempts, attempt.time ≤ now) → Throttled log throttle now := by
  have hrun {rest : List Attempt} {log : List Answered} {throttle : LoginThrottle} {now : ℕ}
      (hstart : Throttled log throttle now) (hnow : ∀ attempt ∈ rest, now ≤ attempt.time)
      (hrest : rest.Pairwise fun attempt later ↦ attempt.time ≤ later.time) :
      ∃ log' throttle', rest.foldlM Server.answer (log, throttle) = some (log', throttle') ∧
        ∀ stop, now ≤ stop → (∀ attempt ∈ rest, attempt.time ≤ stop) →
          Throttled log' throttle' stop := by
    induction rest generalizing log throttle now with
    | nil => exact ⟨log, throttle, rfl, fun stop hstop _ ↦ hstart.later hstop⟩
    | cons attempt rest ih =>
      rw [List.forall_mem_cons] at hnow
      rw [List.pairwise_cons] at hrest
      obtain ⟨log', throttle', hanswer, hnext⟩ := hstart.answer hnow.1
      obtain ⟨log'', throttle'', hrun, hlast⟩ := ih hnext hrest.1 hrest.2
      refine ⟨log'', throttle'', ?_, fun stop _ hstop ↦ ?_⟩
      · rw [List.foldlM_cons, hanswer]
        exact hrun
      · rw [List.forall_mem_cons] at hstop
        exact hlast stop hstop.1 hstop.2
  obtain ⟨log, throttle, hanswers, hthrottled⟩ :=
    hrun throttled_default (fun _ _ ↦ Nat.zero_le _) h
  exact ⟨log, throttle, hanswers, fun now hnow ↦ hthrottled now (Nat.zero_le _) hnow⟩

/-- Every attempt is answered once, in order. -/
theorem attempts_of_answers {attempts : List Attempt} (h : answers attempts = some (log, throttle)) :
    (log.map fun entry ↦ (⟨entry.peer, entry.time⟩ : Attempt)) = attempts := by
  have hrun {rest : List Attempt} {before : List Answered} {start : LoginThrottle}
      (hrest : rest.foldlM Server.answer (before, start) = some (log, throttle)) :
      (log.map fun entry ↦ (⟨entry.peer, entry.time⟩ : Attempt)) =
        (before.map fun entry ↦ (⟨entry.peer, entry.time⟩ : Attempt)) ++ rest := by
    induction rest generalizing before start with
    | nil =>
      rw [List.foldlM_nil] at hrest
      cases hrest
      rw [List.append_nil]
    | cons attempt rest ih =>
      rw [List.foldlM_cons, Option.bind_eq_bind, Option.bind_eq_some_iff] at hrest
      obtain ⟨⟨middle, next⟩, hanswer, hrest⟩ := hrest
      unfold Server.answer at hanswer
      rw [Option.bind_eq_bind, Option.bind_eq_some_iff] at hanswer
      obtain ⟨⟨retry, after⟩, -, hanswer⟩ := hanswer
      cases hanswer
      rw [ih hrest, List.map_append, List.append_assoc]
      rfl
  exact hrun h

theorem exists_last (attempts : List Attempt) : ∃ now, ∀ attempt ∈ attempts, attempt.time ≤ now := by
  induction attempts with
  | nil => exact ⟨0, by simp⟩
  | cons attempt rest ih =>
    obtain ⟨now, hnow⟩ := ih
    refine ⟨max attempt.time now, List.forall_mem_cons.mpr ⟨le_max_left _ _, fun other hother ↦ ?_⟩⟩
    exact (hnow other hother).trans (le_max_right _ _)

theorem countP_hitsOf (peer : Option IpAddr) (log : List Answered) (p : Hit → Bool) :
    (hitsOf peer log).countP p = log.countP fun entry ↦
      decide (entry.peer = peer ∧ entry.accepted = true) && p ⟨entry.began.getD 0, entry.time⟩ := by
  rw [hitsOf, List.countP_map, List.countP_filter]
  exact List.countP_congr fun entry _ ↦ by simp [and_comm]

end Steps

/-- The throttle on every sequence of attempts: the table is bounded and no duration underflows; a
peer is accepted at most 10 times in a window and 19 times in 60 seconds, and once its window is
used up not again before 60 seconds have passed since the window began. -/
theorem login_throttle_bounds (attempts : List Attempt)
    (h : attempts.Pairwise fun attempt later ↦ attempt.time ≤ later.time) :
    ∃ log throttle, answers attempts = some (log, throttle) ∧
      (log.map fun entry ↦ (⟨entry.peer, entry.time⟩ : Attempt)) = attempts ∧
      throttle.peers.rows.length ≤ 4096 ∧
      (∀ now, (∀ attempt ∈ attempts, attempt.time ≤ now) →
        ∀ window ∈ throttle.peers.rows, window.began ≤ now) ∧
      (∀ entry ∈ log, entry.accepted = true → entry.began.isSome = true) ∧
      ∀ peer,
        (∀ start, (log.countP fun entry ↦
          entry.peer = peer ∧ entry.accepted = true ∧ entry.began = some start) ≤ 10) ∧
        (∀ origin, (log.countP fun entry ↦ entry.peer = peer ∧ entry.accepted = true ∧
          origin ≤ entry.time ∧ entry.time < origin + ATTEMPT_WINDOW) ≤ 19) ∧
        log.Pairwise fun entry later ↦ entry.peer = peer → entry.accepted = false →
          ∀ start ∈ entry.began, later.peer = peer → later.accepted = true →
            start + ATTEMPT_WINDOW ≤ later.time := by
  obtain ⟨log, throttle, hanswers, hthrottled⟩ := throttled_answers h
  obtain ⟨last, hlast⟩ := exists_last attempts
  have hfinal := hthrottled last hlast
  refine ⟨log, throttle, hanswers, attempts_of_answers hanswers, hfinal.size,
    fun now hnow window hwindow ↦ ?_, hfinal.accepted, fun peer ↦ ⟨fun start ↦ ?_, fun origin ↦ ?_, ?_⟩⟩
  · exact ((hthrottled now hnow).window window.peer window
      (KeyedTable.find?_eq_some.mpr ⟨hwindow, rfl⟩)).1
  · have hfew := (hfinal.spaced peer).few start
    rw [countP_hitsOf] at hfew
    refine le_trans (List.countP_mono_left fun entry _ hentry ↦ ?_) hfew
    obtain ⟨hpeer, haccepted, hbegan⟩ := of_decide_eq_true hentry
    simp [hpeer, haccepted, hbegan]
  · have hsliding := (hfinal.spaced peer).sliding (by decide) origin
    rw [countP_hitsOf] at hsliding
    refine le_trans (List.countP_mono_left fun entry _ hentry ↦ ?_) hsliding
    obtain ⟨hpeer, haccepted, htime⟩ := of_decide_eq_true hentry
    simp [hpeer, haccepted, htime]
  · refine hfinal.again.imp fun {entry later} hagain hpeer hrefused start hstart hlater ↦ ?_
    exact hagain hrefused start hstart (hlater.trans hpeer.symm)

/-- Ten attempts are accepted, the next one is not, and 60 seconds later one is again. -/
def sampleAttempts : List Attempt :=
  List.replicate 11 ⟨none, 5⟩ ++ [⟨none, 5 + ATTEMPT_WINDOW⟩]

theorem login_throttle_bounds_sample :
    ∃ log throttle, answers sampleAttempts = some (log, throttle) ∧
      log.map Answered.accepted = List.replicate 10 true ++ [false, true] ∧
      throttle.peers.rows.length ≤ 4096 := by
  have hordered : sampleAttempts.Pairwise fun attempt later ↦ attempt.time ≤ later.time := by
    decide
  obtain ⟨log, throttle, hanswers, -, hsize, -⟩ := login_throttle_bounds sampleAttempts hordered
  refine ⟨log, throttle, hanswers, ?_, hsize⟩
  have hrun : (answers sampleAttempts).map (fun state ↦ state.1.map Answered.accepted) =
      some (List.replicate 10 true ++ [false, true]) := by
    decide
  rw [hanswers] at hrun
  exact Option.some.inj hrun

end Rvx.Server
