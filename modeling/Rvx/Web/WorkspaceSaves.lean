import Rvx.Lib.Runs
import Rvx.Registry.UiSaves
import Rvx.Web.Preferences

/-!
# Workspace saves of many tabs

Any number of tabs share one server.  A request travels on its own: it may be handled at any later
time, also after its tab has given up on it, or be lost, and so may its reply.  Every commit makes
the change of one save to the document that was stored immediately before.
-/

namespace Rvx.Web

open Core Registry

/-! ## The system -/

/-- An attempt to submit a frozen request. -/
structure Attempt (ι : Type) where
  tab : ι
  number : ℕ
  body : SaveWorkspaces

/-- A tab: its store, the revision its workspace view was loaded at, the attempt it awaits with the
outcome that is on its way back, and the bootstrap it awaits with the document on its way back. -/
structure Tab where
  store : PreferencesStore
  loadedRevision : ℕ
  attempts : ℕ
  awaited : Option (ℕ × Option Outcome)
  bootstrap : Option (Option WorkspaceDocument)

namespace Tab

def initial : Tab := ⟨.initial, 0, 0, none, none⟩

/-- Send the frozen request of a store that has begun to save. -/
def submit (store : PreferencesStore) (tab : Tab) : Tab :=
  { tab with store, attempts := tab.attempts + 1, awaited := some (tab.attempts, none) }

/-- End the awaited attempt. -/
def settle (outcome : Outcome) (tab : Tab) : Tab :=
  { tab with store := tab.store.submitted outcome, awaited := none }

end Tab

/-- A request body that was frozen, for a change. -/
structure Frozen where
  change : Change
  body : SaveWorkspaces
deriving DecidableEq

/-- A commit of a request: the document before and after it. -/
structure Commit where
  body : SaveWorkspaces
  before : WorkspaceDocument
  after : WorkspaceDocument
deriving DecidableEq

structure System (ι : Type) where
  server : UiStore
  tabs : ι → Tab
  /-- The attempts on their way to the server. -/
  requests : List (Attempt ι)
  /-- All requests frozen so far. -/
  frozen : List Frozen
  /-- All commits so far. -/
  commits : List Commit

inductive Event (ι : Type) where
  /-- Begin a bootstrap, unless one is under way. -/
  | bootstrap (tab : ι)
  /-- Handle the bootstrap request of a tab. -/
  | serveState (tab : ι) (requested : Option String) (fresh : String)
  /-- The reply to a bootstrap arrives. -/
  | loadState (tab : ι)
  /-- A bootstrap fails. -/
  | loseState (tab : ι)
  /-- The workspace view takes the current revision as the one it was loaded at. -/
  | open (tab : ι)
  /-- The workspace view takes the revision that was saved last. -/
  | reopen (tab : ι)
  /-- Save under the revision the view was loaded at, or under the current one. -/
  | save (tab : ι) (name experimentId : String) (layout : WorkspaceLayout) (loaded : Bool)
    (id : Option String) (fresh mutationId : String)
  | remove (tab : ι) (id mutationId : String)
  | retrySave (tab : ι)
  /-- Handle an attempt; the cookie names the browser. -/
  | handle (index : ℕ) (registry : Repository) (browserId : String)
  /-- An attempt is lost on its way. -/
  | lose (index : ℕ)
  /-- An attempt is turned away before it is handled. -/
  | turnAway (index : ℕ) (outcome : Outcome)
  /-- The outcome of the awaited attempt arrives. -/
  | arrive (tab : ι)
  /-- The awaited attempt times out or its reply is lost. -/
  | giveUp (tab : ι)
  /-- A save that was accepted has awaited what follows it. -/
  | finish (tab : ι)
  /-- Another request is handled. -/
  | other (request : UiStore.UiRequest)

namespace System

variable {ι : Type} [DecidableEq ι]

/-- Tabs that were just opened, before a new server. -/
def initial : System ι := ⟨.initial, fun _ ↦ .initial, [], [], []⟩

def setTab (i : ι) (tab : Tab) (system : System ι) : System ι :=
  { system with tabs := Function.update system.tabs i tab }

/-- The outcome of an attempt is on its way back, if the attempt is still awaited. -/
def reply (request : Attempt ι) (outcome : Outcome) (system : System ι) : System ι :=
  let tab := system.tabs request.tab
  if tab.awaited = some (request.number, none) then
    system.setTab request.tab { tab with awaited := some (request.number, some outcome) }
  else system

/-- A tab has frozen a request for a change and submits it. -/
def submit (i : ι) (store : PreferencesStore) (system : System ι) : Option (System ι) :=
  store.pendingWorkspace.map fun pending ↦
    { system.setTab i ((system.tabs i).submit store) with
      requests := system.requests ++ [⟨i, (system.tabs i).attempts, pending.body⟩] }

/-- A newly frozen request; its mutation was never used before. -/
def freeze (i : ι) (store : Option PreferencesStore) (system : System ι) : Option (System ι) :=
  store.bind fun store ↦ store.pendingWorkspace.bind fun pending ↦
    if ∃ frozen ∈ system.frozen, frozen.body.mutationId = pending.body.mutationId then none
    else submit i store
      { system with frozen := system.frozen ++ [⟨pending.change, pending.body⟩] }

/-- Handle an attempt.  Only a request that is not a repetition of the last one is committed. -/
def handle (text : RequestText) (readable : WorkspaceDocument → Bool) (registry : Repository)
    (browserId : String) (request : Attempt ι) (system : System ι) : System ι :=
  match system.server.saveWorkspaces text registry browserId request.body with
  | .ok (document, server) =>
    let commits := if system.server.workspaces.mutationId = some request.body.mutationId then
        system.commits
      else system.commits ++ [⟨request.body, system.server.workspaces.document, document⟩]
    { system with server, commits }.reply request (.ofAnswer readable (.ok document))
  | .error error => system.reply request (.ofAnswer readable (.error error))

def step (text : RequestText) (readable : WorkspaceDocument → Bool) (system : System ι) :
    Event ι → Option (System ι)
  | .bootstrap i =>
    let tab := system.tabs i
    if tab.bootstrap.isSome then some system
    else some (system.setTab i { tab with bootstrap := some none })
  | .serveState i requested fresh =>
    let tab := system.tabs i
    match tab.bootstrap, system.server.uiState requested fresh with
    | some none, .ok (session, server) => some ({ system with server }.setTab i
        { tab with bootstrap := some (some session.workspaces) })
    | _, _ => none
  | .loadState i =>
    let tab := system.tabs i
    match tab.bootstrap with
    | some (some value) => if readable value then
        some (system.setTab i { tab with store := tab.store.loadState value, bootstrap := none })
      else none
    | _ => none
  | .loseState i => some (system.setTab i { system.tabs i with bootstrap := none })
  | .open i =>
    let tab := system.tabs i
    some (system.setTab i { tab with loadedRevision := tab.store.workspaces.revision })
  | .reopen i =>
    let tab := system.tabs i
    some (system.setTab i { tab with loadedRevision := tab.store.lastSavedRevision })
  | .save i name experimentId layout loaded id fresh mutationId =>
    let tab := system.tabs i
    let revision := if loaded then tab.loadedRevision else tab.store.workspaces.revision
    system.freeze i (tab.store.save name experimentId layout revision id fresh mutationId)
  | .remove i id mutationId => system.freeze i ((system.tabs i).store.remove id mutationId)
  | .retrySave i => (system.tabs i).store.retrySave.bind fun store ↦ system.submit i store
  | .handle index registry browserId => (system.requests[index]?).map fun request ↦
      { system with requests := system.requests.eraseIdx index }.handle text readable registry
        browserId request
  | .lose index => some { system with requests := system.requests.eraseIdx index }
  | .turnAway index outcome =>
    if outcome = .refused ∨ outcome = .failed then (system.requests[index]?).map fun request ↦
      { system with requests := system.requests.eraseIdx index }.reply request outcome
    else none
  | .arrive i =>
    match (system.tabs i).awaited with
    | some (_, some outcome) => some (system.setTab i ((system.tabs i).settle outcome))
    | _ => none
  | .giveUp i =>
    if (system.tabs i).awaited.isSome then
      some (system.setTab i ((system.tabs i).settle .failed))
    else none
  | .finish i =>
    let tab := system.tabs i
    if tab.awaited.isNone then
      some (system.setTab i { tab with store := { tab.store with saving := false } })
    else none
  | .other request =>
    match request.call with
    | .saveWorkspaces _ _ => none
    | _ => some { system with server := system.server.step text request }

/-- The system after a sequence of events. -/
def run (text : RequestText) (readable : WorkspaceDocument → Bool) (events : List (Event ι))
    (system : System ι) : Option (System ι) :=
  Runs.after (step text readable) events system

end System

end Rvx.Web
