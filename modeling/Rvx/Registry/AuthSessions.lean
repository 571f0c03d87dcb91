import Mathlib.Data.Int.Order.Basic
import Rvx.Lib.Check
import Rvx.Lib.KeyedTable
import Rvx.Lib.Script

/-!
# Login sessions

Sessions are stored as digests with an expiry, under the digest of one configured key.  Every call
is a transaction: when it fails, at whichever statement, nothing it did remains.
-/

namespace Rvx.Registry

open Check

/-- 32 bytes. -/
abbrev Digest : Type := BitVec 256

def AUTH_SESSION_SECONDS : ℤ := 7 * 24 * 60 * 60
def MAX_AUTH_SESSIONS : ℕ := 10000

inductive AuthError where
  | authSessionUnavailable
  | sqlite
deriving DecidableEq

structure AuthSession where
  digest : Digest
  expiresAt : ℤ
deriving DecidableEq

/-- The tables `auth_session_key`, of at most one row, and `auth_sessions`. -/
structure AuthStore where
  keyDigest : Option Digest
  sessions : KeyedTable AuthSession.digest

/-- The clock in whole seconds. -/
def seconds (nowNs : ℤ) : ℤ := nowNs.tdiv 1000000000

/-- A statement of a transaction; the database may fail it for reasons of its own. -/
def statement {α : Type} (fault : Option ℕ) (index : ℕ) (script : Script AuthStore AuthError α) :
    Script AuthStore AuthError α :=
  if fault = some index then throw .sqlite else script

namespace AuthStore

def initial : AuthStore := ⟨none, .empty⟩

/-- `DELETE FROM auth_sessions`. -/
def delete (doomed : AuthSession → Bool) (store : AuthStore) : AuthStore :=
  { store with sessions := store.sessions.retain fun session ↦ !doomed session }

/-- `INSERT INTO auth_sessions`. -/
def insert (session : AuthSession) (store : AuthStore) : Except AuthError AuthStore :=
  match store.sessions.insert? session with
  | some sessions => .ok { store with sessions := sessions }
  | none => .error .sqlite

def configureAuthSessions (key : Digest) (fault : Option ℕ) : Script AuthStore AuthError Unit := do
  let current ← statement fault 0 (Script.read AuthStore.keyDigest)
  (if current = some key then pure () else do
    statement fault 1 (Script.modify (delete fun _ ↦ true))
    statement fault 2 (Script.modify fun store ↦ { store with keyDigest := some key }))
  statement fault 3 (pure ())

def createAuthSession (key digest : Digest) (previous : Option Digest) (nowNs : ℤ)
    (fault : Option ℕ) : Script AuthStore AuthError Unit := do
  let now := seconds nowNs
  let current ← statement fault 0 (Script.read AuthStore.keyDigest)
  Script.check (reject (current ≠ some key) .authSessionUnavailable)
  statement fault 1 (Script.modify (delete fun session ↦ session.expiresAt ≤ now))
  Script.forEach previous.toList fun previous ↦
    statement fault 2 (Script.modify (delete fun session ↦ session.digest = previous))
  let count ← statement fault 3 (Script.read fun store ↦ store.sessions.rows.length)
  Script.check (reject (count ≥ MAX_AUTH_SESSIONS) .authSessionUnavailable)
  statement fault 4 (Script.attempt (insert ⟨digest, now + AUTH_SESSION_SECONDS⟩))
  statement fault 5 (pure ())

def revokeAuthSession (digest : Digest) (fault : Option ℕ) : Script AuthStore AuthError Unit := do
  statement fault 0 (Script.modify (delete fun session ↦ session.digest = digest))
  statement fault 1 (pure ())

def authSessionActive (store : AuthStore) (key digest : Digest) (nowNs : ℤ) : Bool :=
  ((store.sessions.find? digest).any fun session ↦ seconds nowNs < session.expiresAt) &&
    store.keyDigest = some key

end AuthStore

/-! ## Histories -/

/-- A call that changes the store. -/
inductive AuthCall where
  | configure (key : Digest)
  | create (key digest : Digest) (previous : Option Digest) (nowNs : ℤ)
  | revoke (digest : Digest)
deriving DecidableEq

namespace AuthCall

def script (fault : Option ℕ) : AuthCall → Script AuthStore AuthError Unit
  | configure key => AuthStore.configureAuthSessions key fault
  | create key digest previous nowNs => AuthStore.createAuthSession key digest previous nowNs fault
  | revoke digest => AuthStore.revokeAuthSession digest fault

/-- The reading of the clock a call makes. -/
def reading : AuthCall → Option ℤ
  | create _ _ _ nowNs => some nowNs
  | configure _ | revoke _ => none

end AuthCall

/-- A call with its outcome. -/
structure AuthEvent where
  call : AuthCall
  succeeded : Bool
deriving DecidableEq

/-- One more call, which is a transaction. -/
def AuthStore.call (state : List AuthEvent × AuthStore) (issued : AuthCall × Option ℕ) :
    List AuthEvent × AuthStore :=
  let outcome := (issued.1.script issued.2).atomically state.2
  (state.1 ++ [⟨issued.1, outcome.1.isOk⟩], outcome.2)

/-- What a sequence of calls, some of which may hit a fault of the database, leaves. -/
def authHistory (calls : List (AuthCall × Option ℕ)) : List AuthEvent × AuthStore :=
  calls.foldl AuthStore.call ([], AuthStore.initial)

namespace AuthEvent

/-- The session was created under the key at this time. -/
def Creates (event : AuthEvent) (key digest : Digest) (nowNs : ℤ) : Prop :=
  event.succeeded = true ∧ ∃ previous, event.call = .create key digest previous nowNs

/-- The session was revoked or replaced, or the key was. -/
def Ends (event : AuthEvent) (key digest : Digest) : Prop :=
  event.succeeded = true ∧
    (event.call = .revoke digest ∨
      (∃ other created nowNs, event.call = .create other created (some digest) nowNs) ∨
      ∃ other, event.call = .configure other ∧ other ≠ key)

/-- The key after the event. -/
def keyAfter (key : Option Digest) (event : AuthEvent) : Option Digest :=
  match event.call, event.succeeded with
  | .configure other, true => some other
  | _, _ => key

end AuthEvent

/-- The key that was configured last. -/
def configuredKey (log : List AuthEvent) : Option Digest := log.foldl AuthEvent.keyAfter none

/-- The session was created under the key at this time, and nothing since then ended it. -/
def Alive (log : List AuthEvent) (key digest : Digest) (nowNs : ℤ) : Prop :=
  ∃ before event after, log = before ++ event :: after ∧ event.Creates key digest nowNs ∧
    ∀ later ∈ after, ¬ later.Ends key digest

/-! ## What the calls do -/

@[simp]
theorem returns_statement {α : Type} {fault : Option ℕ} {index : ℕ}
    {script : Script AuthStore AuthError α} {store store' : AuthStore} {value : α} :
    (statement fault index script).Returns store value store' ↔
      fault ≠ some index ∧ script.Returns store value store' := by
  unfold statement
  by_cases hfault : fault = some index
  · rw [if_pos hfault]
    exact iff_of_false Script.returns_throw fun h ↦ h.1 hfault
  · rw [if_neg hfault]
    exact (and_iff_right hfault).symm

theorem configure_spec {key : Digest} {fault : Option ℕ} {store store' : AuthStore}
    (h : (AuthStore.configureAuthSessions key fault).Returns store () store') :
    store'.keyDigest = some key ∧
      store'.sessions.rows = if store.keyDigest = some key then store.sessions.rows else [] := by
  simp only [AuthStore.configureAuthSessions, Script.returns_bind, returns_statement,
    Script.returns_read, Script.returns_ite, Script.returns_pure, Script.returns_modify] at h
  obtain ⟨current, _, ⟨-, rfl, rfl⟩, _, middle, hmiddle, -, -, rfl⟩ := h
  obtain ⟨hcurrent, -, rfl⟩ | ⟨hcurrent, _, _, ⟨-, rfl⟩, -, rfl⟩ := hmiddle
  · rw [if_pos hcurrent]
    exact ⟨hcurrent, rfl⟩
  · rw [if_neg hcurrent]
    exact ⟨rfl, by simp [AuthStore.delete, KeyedTable.retain]⟩

/-- The sessions that make room for another one: those that expired, and the replaced one. -/
def kept (previous : Option Digest) (now : ℤ) (sessions : List AuthSession) : List AuthSession :=
  sessions.filter fun session ↦ now < session.expiresAt ∧ previous ≠ some session.digest

theorem not_expired (session : AuthSession) (now : ℤ) :
    (!decide (session.expiresAt ≤ now)) = decide (now < session.expiresAt) := by
  rw [← decide_not, decide_eq_decide]
  exact Int.not_le

theorem mem_kept {previous : Option Digest} {now : ℤ} {sessions : List AuthSession}
    {session : AuthSession} : session ∈ kept previous now sessions ↔
      session ∈ sessions ∧ now < session.expiresAt ∧ previous ≠ some session.digest := by
  rw [kept, List.mem_filter, decide_eq_true_eq]

theorem create_spec {key digest : Digest} {previous : Option Digest} {nowNs : ℤ}
    {fault : Option ℕ} {store store' : AuthStore}
    (h : (AuthStore.createAuthSession key digest previous nowNs fault).Returns store () store') :
    store.keyDigest = some key ∧ store'.keyDigest = some key ∧
      (kept previous (seconds nowNs) store.sessions.rows).length < MAX_AUTH_SESSIONS ∧
      store'.sessions.rows = kept previous (seconds nowNs) store.sessions.rows ++
        [⟨digest, seconds nowNs + AUTH_SESSION_SECONDS⟩] := by
  simp only [AuthStore.createAuthSession, Script.returns_bind, returns_statement,
    Script.returns_read, Script.returns_check, reject_ok, not_not, Script.returns_modify,
    Script.returns_attempt, Script.returns_pure] at h
  obtain ⟨_, _, ⟨-, rfl, rfl⟩, _, _, ⟨hkey, rfl⟩, _, _, ⟨-, rfl⟩, _, pruned, hpruned, _, _,
    ⟨-, rfl, rfl⟩, _, _, ⟨hcount, rfl⟩, _, inserted, ⟨-, hinsert⟩, -, -, rfl⟩ := h
  have hrows : pruned.keyDigest = store.keyDigest ∧
      pruned.sessions.rows = kept previous (seconds nowNs) store.sessions.rows := by
    cases previous with
    | none =>
      simp only [Option.toList_none, Script.forEach, Script.returns_pure] at hpruned
      rw [← hpruned.2]
      refine ⟨rfl, List.filter_congr fun session _ ↦ ?_⟩
      rw [not_expired]
      simp
    | some previous =>
      simp only [Option.toList_some, Script.forEach, Script.returns_bind, returns_statement,
        Script.returns_modify, Script.returns_pure] at hpruned
      obtain ⟨_, _, ⟨-, rfl⟩, -, rfl⟩ := hpruned
      refine ⟨rfl, ?_⟩
      rw [kept]
      simp only [AuthStore.delete, KeyedTable.retain, List.filter_filter]
      refine List.filter_congr fun session _ ↦ ?_
      rw [not_expired]
      simp [and_comm, eq_comm]
  unfold AuthStore.insert at hinsert
  split at hinsert
  · rename_i sessions hsessions
    cases hinsert
    have hinserted := (KeyedTable.insert?_eq_some hsessions).1
    rw [hrows.2] at hinserted hcount
    exact ⟨hkey, hrows.1.trans hkey, Nat.not_le.mp hcount, hinserted⟩
  · cases hinsert

theorem revoke_spec {digest : Digest} {fault : Option ℕ} {store store' : AuthStore}
    (h : (AuthStore.revokeAuthSession digest fault).Returns store () store') :
    store'.keyDigest = store.keyDigest ∧
      store'.sessions.rows = store.sessions.rows.filter fun session ↦ session.digest ≠ digest := by
  simp only [AuthStore.revokeAuthSession, Script.returns_bind, returns_statement,
    Script.returns_modify, Script.returns_pure] at h
  obtain ⟨_, _, ⟨-, rfl⟩, -, -, rfl⟩ := h
  refine ⟨rfl, List.filter_congr fun session _ ↦ ?_⟩
  simp

/-! ## What the store records of a history -/

section Histories

variable {log : List AuthEvent} {store store' : AuthStore} {event : AuthEvent}

theorem alive_concat {key digest : Digest} {nowNs : ℤ} :
    Alive (log ++ [event]) key digest nowNs ↔
      (Alive log key digest nowNs ∧ ¬ event.Ends key digest) ∨ event.Creates key digest nowNs := by
  constructor
  · rintro ⟨before, created, after, hlog, hcreates, hends⟩
    obtain rfl | ⟨others, last, rfl⟩ := List.eq_nil_or_concat after
    · obtain ⟨rfl, heq⟩ := List.append_inj' hlog rfl
      rw [List.singleton_inj.mp heq]
      exact Or.inr hcreates
    · rw [List.concat_eq_append, ← List.cons_append, ← List.append_assoc] at hlog
      obtain ⟨rfl, heq⟩ := List.append_inj' hlog rfl
      rw [List.singleton_inj.mp heq]
      refine Or.inl ⟨⟨before, created, others, rfl, hcreates, fun later hlater ↦ ?_⟩, ?_⟩
      · exact hends later (by simp [hlater])
      · exact hends last (by simp)
  · rintro (⟨⟨before, created, after, rfl, hcreates, hends⟩, hlast⟩ | hcreates)
    · refine ⟨before, created, after ++ [event], by simp, hcreates, fun later hlater ↦ ?_⟩
      obtain hlater | hlater := List.mem_append.mp hlater
      · exact hends later hlater
      · exact List.mem_singleton.mp hlater ▸ hlast
    · exact ⟨log, event, [], rfl, hcreates, by simp⟩

theorem configuredKey_concat :
    configuredKey (log ++ [event]) = event.keyAfter (configuredKey log) := by
  rw [configuredKey, List.foldl_append]
  rfl

/-- The store holds the sessions that are alive, except some that have expired. -/
structure Recorded (log : List AuthEvent) (store : AuthStore) : Prop where
  key : store.keyDigest = configuredKey log
  size : store.sessions.rows.length ≤ MAX_AUTH_SESSIONS
  alive : ∀ session ∈ store.sessions.rows, ∃ key nowNs,
    Alive log key session.digest nowNs ∧ session.expiresAt = seconds nowNs + AUTH_SESSION_SECONDS
  current : ∀ key digest nowNs, Alive log key digest nowNs → store.keyDigest = some key
  stored : ∀ key digest nowNs, Alive log key digest nowNs → ∀ now,
    (∀ event ∈ log, ∀ earlier ∈ event.call.reading, seconds earlier ≤ now) →
      now < seconds nowNs + AUTH_SESSION_SECONDS →
        ⟨digest, seconds nowNs + AUTH_SESSION_SECONDS⟩ ∈ store.sessions.rows

theorem recorded_initial : Recorded [] AuthStore.initial := by
  have hnone (key digest : Digest) (nowNs : ℤ) : ¬ Alive [] key digest nowNs := by
    rintro ⟨before, event, after, hlog, -⟩
    simp at hlog
  refine ⟨rfl, Nat.zero_le _, ?_, ?_, ?_⟩
  · rintro session ⟨⟩
  · intro key digest nowNs halive
    exact absurd halive (hnone key digest nowNs)
  · intro key digest nowNs halive
    exact absurd halive (hnone key digest nowNs)

/-- A failed call changes nothing. -/
theorem Recorded.failed (h : Recorded log store) (call : AuthCall) :
    Recorded (log ++ [⟨call, false⟩]) store := by
  have halive (key digest : Digest) (nowNs : ℤ) :
      Alive (log ++ [⟨call, false⟩]) key digest nowNs ↔ Alive log key digest nowNs := by
    rw [alive_concat]
    simp [AuthEvent.Ends, AuthEvent.Creates]
  refine ⟨?_, h.size, ?_, ?_, ?_⟩
  · rw [configuredKey_concat, h.key]
    cases call <;> rfl
  · intro session hsession
    obtain ⟨key, nowNs, hmem, hexpires⟩ := h.alive session hsession
    exact ⟨key, nowNs, (halive _ _ _).mpr hmem, hexpires⟩
  · intro key digest nowNs hmem
    exact h.current key digest nowNs ((halive _ _ _).mp hmem)
  · intro key digest nowNs hmem now hnow
    exact h.stored key digest nowNs ((halive _ _ _).mp hmem) now fun event hevent ↦
      hnow event (List.mem_append_left _ hevent)

theorem Recorded.configure (h : Recorded log store) {key : Digest}
    (hkey : store'.keyDigest = some key)
    (hrows : store'.sessions.rows = if store.keyDigest = some key then store.sessions.rows else []) :
    Recorded (log ++ [⟨.configure key, true⟩]) store' := by
  have halive {other digest : Digest} {nowNs : ℤ} :
      Alive (log ++ [⟨.configure key, true⟩]) other digest nowNs ↔
        Alive log other digest nowNs ∧ key = other := by
    rw [alive_concat]
    simp [AuthEvent.Ends, AuthEvent.Creates]
  refine ⟨?_, ?_, ?_, ?_, ?_⟩
  · rw [configuredKey_concat, hkey]
    rfl
  · rw [hrows]
    split
    · exact h.size
    · exact Nat.zero_le _
  · intro session hsession
    rw [hrows] at hsession
    split at hsession
    · rename_i hsame
      obtain ⟨other, nowNs, hmem, hexpires⟩ := h.alive session hsession
      have hother := h.current other _ nowNs hmem
      rw [hsame] at hother
      exact ⟨other, nowNs, halive.mpr ⟨hmem, Option.some.inj hother⟩, hexpires⟩
    · cases hsession
  · intro other digest nowNs hmem
    rw [hkey, (halive.mp hmem).2]
  · intro other digest nowNs hmem now hnow hlt
    obtain ⟨hmem, rfl⟩ := halive.mp hmem
    rw [hrows, if_pos (h.current key digest nowNs hmem)]
    exact h.stored key digest nowNs hmem now
      (fun event hevent ↦ hnow event (List.mem_append_left _ hevent)) hlt

theorem Recorded.create (h : Recorded log store) {key digest : Digest} {previous : Option Digest}
    {nowNs : ℤ} (hcurrent : store.keyDigest = some key) (hkey : store'.keyDigest = some key)
    (hcount : (kept previous (seconds nowNs) store.sessions.rows).length < MAX_AUTH_SESSIONS)
    (hrows : store'.sessions.rows = kept previous (seconds nowNs) store.sessions.rows ++
      [⟨digest, seconds nowNs + AUTH_SESSION_SECONDS⟩]) :
    Recorded (log ++ [⟨.create key digest previous nowNs, true⟩]) store' := by
  have halive {other created : Digest} {time : ℤ} :
      Alive (log ++ [⟨.create key digest previous nowNs, true⟩]) other created time ↔
        (Alive log other created time ∧ previous ≠ some created) ∨
          (key = other ∧ digest = created ∧ nowNs = time) := by
    rw [alive_concat]
    simp [AuthEvent.Ends, AuthEvent.Creates]
  refine ⟨?_, ?_, ?_, ?_, ?_⟩
  · rw [configuredKey_concat, ← h.key, hcurrent, hkey]
    rfl
  · rw [hrows, List.length_append, List.length_singleton]
    exact hcount
  · intro session hsession
    rw [hrows] at hsession
    obtain hsession | hsession := List.mem_append.mp hsession
    · obtain ⟨hmem, -, hprevious⟩ := mem_kept.mp hsession
      obtain ⟨other, time, hmem, hexpires⟩ := h.alive session hmem
      exact ⟨other, time, halive.mpr (Or.inl ⟨hmem, hprevious⟩), hexpires⟩
    · rw [List.mem_singleton.mp hsession]
      exact ⟨key, nowNs, halive.mpr (Or.inr ⟨rfl, rfl, rfl⟩), rfl⟩
  · intro other created time hmem
    obtain ⟨hmem, -⟩ | ⟨rfl, -, -⟩ := halive.mp hmem
    · rw [hkey, ← hcurrent]
      exact h.current other created time hmem
    · exact hkey
  · intro other created time hmem now hnow hlt
    rw [hrows]
    obtain ⟨hmem, hprevious⟩ | ⟨rfl, rfl, rfl⟩ := halive.mp hmem
    · refine List.mem_append_left _ (mem_kept.mpr ⟨?_, ?_, hprevious⟩)
      · exact h.stored other created time hmem now
          (fun event hevent ↦ hnow event (List.mem_append_left _ hevent)) hlt
      · exact Int.lt_of_le_of_lt (hnow _ List.mem_concat_self nowNs rfl) hlt
    · simp

theorem Recorded.revoke (h : Recorded log store) {digest : Digest}
    (hkey : store'.keyDigest = store.keyDigest)
    (hrows : store'.sessions.rows =
      store.sessions.rows.filter fun session ↦ session.digest ≠ digest) :
    Recorded (log ++ [⟨.revoke digest, true⟩]) store' := by
  have halive {other created : Digest} {time : ℤ} :
      Alive (log ++ [⟨.revoke digest, true⟩]) other created time ↔
        Alive log other created time ∧ created ≠ digest := by
    rw [alive_concat]
    simp [AuthEvent.Ends, AuthEvent.Creates, eq_comm]
  refine ⟨?_, ?_, ?_, ?_, ?_⟩
  · rw [configuredKey_concat, hkey, h.key]
    rfl
  · rw [hrows]
    exact Nat.le_trans (List.length_filter_le _ _) h.size
  · intro session hsession
    rw [hrows, List.mem_filter, decide_eq_true_eq] at hsession
    obtain ⟨other, time, hmem, hexpires⟩ := h.alive session hsession.1
    exact ⟨other, time, halive.mpr ⟨hmem, hsession.2⟩, hexpires⟩
  · intro other created time hmem
    rw [hkey]
    exact h.current other created time (halive.mp hmem).1
  · intro other created time hmem now hnow hlt
    obtain ⟨hmem, hne⟩ := halive.mp hmem
    rw [hrows, List.mem_filter, decide_eq_true_eq]
    exact ⟨h.stored other created time hmem now
      (fun event hevent ↦ hnow event (List.mem_append_left _ hevent)) hlt, hne⟩

theorem Recorded.call (h : Recorded log store) (issued : AuthCall × Option ℕ) :
    Recorded (AuthStore.call (log, store) issued).1 (AuthStore.call (log, store) issued).2 := by
  obtain ⟨call, fault⟩ := issued
  unfold AuthStore.call
  rcases hrun : (call.script fault).atomically store with ⟨result, next⟩
  cases result with
  | error reason =>
    obtain rfl := Script.atomically_error hrun
    exact h.failed call
  | ok value =>
    have hreturns := Script.atomically_ok.mp hrun
    cases call with
    | configure key =>
      obtain ⟨hkey, hrows⟩ := configure_spec hreturns
      exact h.configure hkey hrows
    | create key digest previous nowNs =>
      obtain ⟨hcurrent, hkey, hcount, hrows⟩ := create_spec hreturns
      exact h.create hcurrent hkey hcount hrows
    | revoke digest =>
      obtain ⟨hkey, hrows⟩ := revoke_spec hreturns
      exact h.revoke hkey hrows

theorem recorded_authHistory (calls : List (AuthCall × Option ℕ)) :
    Recorded (authHistory calls).1 (authHistory calls).2 := by
  have hrun {rest : List (AuthCall × Option ℕ)} {state : List AuthEvent × AuthStore}
      (hstate : Recorded state.1 state.2) :
      Recorded (rest.foldl AuthStore.call state).1 (rest.foldl AuthStore.call state).2 := by
    induction rest generalizing state with
    | nil => exact hstate
    | cons issued rest ih => exact ih (hstate.call issued)
  exact hrun recorded_initial

theorem seconds_mono {earlier nowNs : ℤ} (h : earlier ≤ nowNs) : seconds earlier ≤ seconds nowNs :=
  Int.tdiv_le_tdiv (by decide) h

/-- Who is logged in is what the history says. -/
theorem Recorded.active_iff (h : Recorded log store) {key digest : Digest} {nowNs : ℤ}
    (hnow : ∀ event ∈ log, ∀ earlier ∈ event.call.reading, earlier ≤ nowNs) :
    store.authSessionActive key digest nowNs = true ↔
      configuredKey log = some key ∧ ∃ createdNs, Alive log key digest createdNs ∧
        seconds nowNs < seconds createdNs + AUTH_SESSION_SECONDS := by
  rw [AuthStore.authSessionActive, Bool.and_eq_true, decide_eq_true_eq, Option.any_eq_true,
    ← h.key]
  constructor
  · rintro ⟨⟨session, hfind, hlt⟩, hkey⟩
    obtain ⟨hmem, rfl⟩ := KeyedTable.find?_eq_some.mp hfind
    obtain ⟨other, createdNs, halive, hexpires⟩ := h.alive session hmem
    have hother := h.current other _ createdNs halive
    rw [hkey] at hother
    obtain rfl := Option.some.inj hother
    rw [decide_eq_true_eq, hexpires] at hlt
    exact ⟨hkey, createdNs, halive, hlt⟩
  · rintro ⟨hkey, createdNs, halive, hlt⟩
    have hmem := h.stored key digest createdNs halive (seconds nowNs)
      (fun event hevent earlier hearlier ↦ seconds_mono (hnow event hevent earlier hearlier)) hlt
    exact ⟨⟨_, KeyedTable.find?_eq_some.mpr ⟨hmem, rfl⟩, decide_eq_true hlt⟩, hkey⟩

end Histories

theorem calls_authHistory (calls : List (AuthCall × Option ℕ)) :
    (authHistory calls).1.map AuthEvent.call = calls.map Prod.fst := by
  have hrun {rest : List (AuthCall × Option ℕ)} {state : List AuthEvent × AuthStore} :
      (rest.foldl AuthStore.call state).1.map AuthEvent.call =
        state.1.map AuthEvent.call ++ rest.map Prod.fst := by
    induction rest generalizing state with
    | nil => simp
    | cons issued rest ih =>
      rw [List.foldl_cons, ih, AuthStore.call, List.map_append, List.append_assoc]
      rfl
  exact hrun

/-- A creation only deletes sessions that expired and the one it replaces. -/
theorem create_keeps (state : List AuthEvent × AuthStore) {key digest : Digest}
    {previous : Option Digest} {nowNs : ℤ} {fault : Option ℕ} {session : AuthSession}
    (hsession : session ∈ state.2.sessions.rows) (hcurrent : seconds nowNs < session.expiresAt)
    (hprevious : previous ≠ some session.digest) :
    session ∈ (AuthStore.call state (.create key digest previous nowNs, fault)).2.sessions.rows := by
  unfold AuthStore.call
  rcases hrun : (AuthCall.script fault (.create key digest previous nowNs)).atomically state.2 with
    ⟨result, next⟩
  cases result with
  | error reason => exact Script.atomically_error hrun ▸ hsession
  | ok value =>
    obtain ⟨-, -, -, hrows⟩ := create_spec (Script.atomically_ok.mp hrun)
    rw [hrows]
    exact List.mem_append_left _ (mem_kept.mpr ⟨hsession, hcurrent, hprevious⟩)

/-- A session is active exactly if it was created under the configured key, nothing since then
revoked it, replaced it or changed the key, and fewer than `AUTH_SESSION_SECONDS` whole seconds of
the clock have passed.  The table stays bounded, and no unexpired session makes room. -/
theorem auth_sessions_exact (calls : List (AuthCall × Option ℕ)) (nowNs : ℤ)
    (hclock : ((calls.filterMap fun issued ↦ issued.1.reading) ++ [nowNs]).Pairwise
      fun earlier later ↦ earlier ≤ later) :
    (∀ key digest, (authHistory calls).2.authSessionActive key digest nowNs = true ↔
      configuredKey (authHistory calls).1 = some key ∧
        ∃ createdNs, Alive (authHistory calls).1 key digest createdNs ∧
          seconds nowNs - seconds createdNs < AUTH_SESSION_SECONDS) ∧
    (authHistory calls).2.sessions.rows.length ≤ MAX_AUTH_SESSIONS ∧
    ∀ key digest previous laterNs fault, ∀ session ∈ (authHistory calls).2.sessions.rows,
      seconds laterNs < session.expiresAt → previous ≠ some session.digest →
        session ∈ (authHistory (calls ++
          [(.create key digest previous laterNs, fault)])).2.sessions.rows := by
  have hrecorded := recorded_authHistory calls
  refine ⟨fun key digest ↦ ?_, hrecorded.size,
    fun key digest previous laterNs fault session hsession hcurrent hprevious ↦ ?_⟩
  · rw [hrecorded.active_iff]
    · refine and_congr_right' (exists_congr fun createdNs ↦ and_congr_right' ?_)
      omega
    · intro event hevent earlier hearlier
      have hcall : event.call ∈ calls.map Prod.fst :=
        calls_authHistory calls ▸ List.mem_map_of_mem hevent
      obtain ⟨issued, hissued, hcall⟩ := List.mem_map.mp hcall
      refine (List.pairwise_append.mp hclock).2.2 earlier ?_ nowNs (List.mem_singleton_self nowNs)
      exact List.mem_filterMap.mpr ⟨issued, hissued, by rw [hcall]; exact hearlier⟩
  · rw [authHistory, List.foldl_append]
    exact create_keeps (authHistory calls) hsession hcurrent hprevious

/-- A session is created in the last tenth of a second. -/
def sampleCalls : List (AuthCall × Option ℕ) :=
  [(.configure 1, none), (.create 1 2 none 900000000, none)]

theorem auth_sessions_exact_sample :
    (authHistory sampleCalls).2.authSessionActive 1 2 1000000000 = true ∧
      ∃ createdNs, Alive (authHistory sampleCalls).1 1 2 createdNs ∧
        seconds 1000000000 - seconds createdNs < AUTH_SESSION_SECONDS := by
  have hactive : (authHistory sampleCalls).2.authSessionActive 1 2 1000000000 = true := by decide
  have hexact := (auth_sessions_exact sampleCalls 1000000000 (by decide)).1 1 2
  exact ⟨hactive, (hexact.mp hactive).2⟩

/-- The clock is read in whole seconds, so a session can end before the last second is over. -/
theorem auth_sessions_whole_seconds :
    ¬ ∀ (calls : List (AuthCall × Option ℕ)) (nowNs : ℤ) (key digest : Digest),
      ((calls.filterMap fun issued ↦ issued.1.reading) ++ [nowNs]).Pairwise
          (fun earlier later ↦ earlier ≤ later) →
        ((authHistory calls).2.authSessionActive key digest nowNs = true ↔
          configuredKey (authHistory calls).1 = some key ∧
            ∃ createdNs, Alive (authHistory calls).1 key digest createdNs ∧
              nowNs - createdNs < AUTH_SESSION_SECONDS * 1000000000) := by
  intro hclaim
  have hactive := (hclaim sampleCalls (604800 * 1000000000 + 100000000) 1 2 (by decide)).mpr
    ⟨by decide, 900000000, ⟨[⟨.configure 1, true⟩], ⟨.create 1 2 none 900000000, true⟩, [],
      by decide, ⟨rfl, none, rfl⟩, by simp⟩, by decide⟩
  revert hactive
  decide

end Rvx.Registry
