import Rvx.Lib.Runs
import Rvx.Registry.UiSaves
import Rvx.Web.Preferences

/-!
# The preferences store of a browser tab: its own preferences

The part of a tab's store that writes the preferences of its browser.  A choice is queued, frozen
into a pending write, and released when the write is accepted; every other outcome keeps it.  Only
one write at a time is awaited.  Whether a workspace document is valid is a parameter.
-/

namespace Rvx.Web

open Core Registry

/-! ## Patches -/

/-- The fields a user has chosen. -/
structure BrowserPatch where
  theme : Option Theme
  sidebarWidth : Option ℕ
  selected : Option (OrderedMap String String)
  runColors : Option (OrderedMap String String)
deriving DecidableEq

namespace BrowserPatch

def empty : BrowserPatch := ⟨none, none, none, none⟩

/-- The selections as a choice of their own. -/
def ofSelected (selected : OrderedMap String String) : BrowserPatch := { empty with selected }

/-- Newer fields over older ones. -/
def merge (patch newer : BrowserPatch) : BrowserPatch where
  theme := newer.theme.or patch.theme
  sidebarWidth := newer.sidebarWidth.or patch.sidebarWidth
  selected := newer.selected.or patch.selected
  runColors := newer.runColors.or patch.runColors

/-- Chosen fields over a document. -/
def apply (patch : BrowserPatch) (browser : BrowserPreferences) : BrowserPreferences where
  revision := browser.revision
  theme := patch.theme.getD browser.theme
  sidebarWidth := patch.sidebarWidth.getD browser.sidebarWidth
  selected := patch.selected.getD browser.selected
  runColors := patch.runColors.getD browser.runColors

end BrowserPatch

/-! ## The store -/

/-- A frozen write with the choices it was made for. -/
structure PendingBrowser where
  body : SaveBrowserPreferences
  patch : BrowserPatch
deriving DecidableEq

/-- The promise of the loop that drains the choices: there is none, it awaits a write, it is about
to test its condition, or it has ended and is about to be forgotten. -/
inductive Drain where
  | absent | writing | testing | ended
deriving DecidableEq

structure BrowserStore where
  workspaces : WorkspaceDocument
  ready : Bool
  browser : BrowserPreferences
  pendingBrowser : Option PendingBrowser
  queuedBrowser : BrowserPatch
  browserDrain : Drain
  browserFailed : Bool
  /-- The last failure of a preference write was a sign-in that is required. -/
  authenticationError : Bool
  aborted : Bool

/-- What a preference write comes to. -/
inductive WriteOutcome where
  | accepted (value : BrowserPreferences)
  | conflict (current : BrowserPreferences)
  /-- Any other status from 400 to 499, except 401. -/
  | refused
  /-- A sign-in is required: status 401, or known before the request is sent. -/
  | unauthorized
  /-- No reply, an unreadable one, or a status from 500. -/
  | failed
deriving DecidableEq

/-- `validBrowserPreferences`. -/
def validBrowserPreferences (value : BrowserPreferences) : Bool :=
  value.revision ≤ MAX_UI_REVISION && 220 ≤ value.sidebarWidth && value.sidebarWidth ≤ 520 &&
    value.runColors.size ≤ 1000 && value.runColors.entries.all fun entry ↦ isHexColor entry.2

/-- The outcome of the server's answer. -/
def WriteOutcome.ofAnswer :
    Except (UiError BrowserPreferences) BrowserPreferences → WriteOutcome
  | .ok value => if validBrowserPreferences value then .accepted value else .failed
  | .error (.uiConflict _ current) =>
    if validBrowserPreferences current then .conflict current else .refused
  | .error (.uiBootstrap _) => .refused
  | .error (.invalidInput _) => .refused
  | .error .sqlite => .failed

/-- The write a browser's choices are sent in. -/
def writeBody (browser : BrowserPreferences) (patch : BrowserPatch) (mutationId : String) :
    SaveBrowserPreferences :=
  let browser := patch.apply browser
  ⟨browser.revision, mutationId, browser.theme, browser.sidebarWidth, browser.selected,
    browser.runColors⟩

namespace BrowserStore

def initial (theme : Theme) : BrowserStore :=
  ⟨⟨0, []⟩, false, ⟨0, theme, 280, .empty, .empty⟩, none, .empty, .absent, false, false, false⟩

/-- `data.selected`. -/
def selected (store : BrowserStore) : OrderedMap String String :=
  store.queuedBrowser.selected.getD store.browser.selected

/-- There is something to write. -/
def hasChoices (store : BrowserStore) : Bool :=
  store.pendingBrowser.isSome || store.queuedBrowser ≠ .empty

/-- The pending write, frozen now unless there is one. -/
def freeze (mutationId : String) (store : BrowserStore) : PendingBrowser :=
  store.pendingBrowser.getD
    ⟨writeBody store.browser store.queuedBrowser mutationId, store.queuedBrowser⟩

/-- `writeBrowser` up to its request. -/
def writeBrowser (mutationId : String) (store : BrowserStore) :
    BrowserStore × Option SaveBrowserPreferences :=
  let pending := store.freeze mutationId
  let store := if store.pendingBrowser.isSome then store
    else { store with
      browser := store.queuedBrowser.apply store.browser, queuedBrowser := .empty }
  ({ store with pendingBrowser := some pending, browserDrain := .writing }, some pending.body)

/-- Start the drain, unless there is one or nothing may be written. -/
def flushBrowser (mutationId : String) (store : BrowserStore) :
    BrowserStore × Option SaveBrowserPreferences :=
  if store.browserDrain = .absent ∧ store.ready ∧ !store.browserFailed ∧ !store.aborted ∧
      store.hasChoices then store.writeBrowser mutationId
  else (store, none)

/-- The condition of the drain. -/
def drainBrowser (mutationId : String) (store : BrowserStore) :
    BrowserStore × Option SaveBrowserPreferences :=
  if !store.browserFailed ∧ !store.aborted ∧ store.hasChoices then store.writeBrowser mutationId
  else ({ store with browserDrain := .ended }, none)

/-- Queue choices over the older ones. -/
def queue (patch : BrowserPatch) (store : BrowserStore) : BrowserStore :=
  { store with queuedBrowser := store.queuedBrowser.merge patch }

/-- The selections after one more. -/
def select (experimentId : String) (id : Option String) (store : BrowserStore) :
    OrderedMap String String :=
  match id with
  | none => store.selected.retain fun experiment _ ↦ experiment ≠ experimentId
  | some id => store.selected.insert experimentId id

/-- The end of `loadState`, before the flush. -/
def loadState (workspaces : WorkspaceDocument) (browser : BrowserPreferences)
    (store : BrowserStore) : BrowserStore :=
  { store with
    workspaces := if workspaces.revision ≥ store.workspaces.revision then workspaces
      else store.workspaces
    browser := if store.browserDrain ≠ .writing ∧ store.pendingBrowser = none ∧
        browser.revision ≥ store.browser.revision then browser else store.browser
    ready := true }

/-- All choices that are not known to be committed: those of the pending write below the newer
ones. -/
def held (store : BrowserStore) : BrowserPatch :=
  ((store.pendingBrowser.map PendingBrowser.patch).getD .empty).merge store.queuedBrowser

/-- A write failed; a closed tab does not report it. -/
def report (unauthorized : Bool) (store : BrowserStore) : BrowserStore :=
  { store with
    browserDrain := .testing
    browserFailed := true
    authenticationError := if store.aborted then store.authenticationError else unauthorized }

/-- `writeBrowser` after its request. -/
def written (outcome : WriteOutcome) (store : BrowserStore) : BrowserStore :=
  match outcome with
  | .accepted value =>
    { store with browser := value, pendingBrowser := none, browserDrain := .testing }
  | .conflict current =>
    ({ store with
      browser := current
      queuedBrowser := store.held
      pendingBrowser := none } : BrowserStore).report false
  | .refused =>
    ({ store with
      queuedBrowser := store.held
      pendingBrowser := none } : BrowserStore).report false
  | .unauthorized => store.report true
  | .failed => store.report false

/-- Whether the tab knows a set of an experiment. -/
def knows (store : BrowserStore) (experiment id : String) : Bool :=
  store.workspaces.sets.any fun set ↦ set.experimentId = experiment && set.id = id

/-- `retry` after its bootstrap, before the flush. -/
def retry (store : BrowserStore) : BrowserStore :=
  { store with
    queuedBrowser := { store.queuedBrowser with
      selected := store.queuedBrowser.selected.map fun selected ↦ selected.retain store.knows }
    browserFailed := false }

/-- `resumeAuthentication` up to its bootstrap. -/
def resumeAuthentication (store : BrowserStore) : BrowserStore :=
  { store with
    authenticationError := false
    browserFailed := store.browserFailed && !store.authenticationError }

end BrowserStore

/-! ## A tab and its server -/

/-- A write that is awaited, with the outcome on its way back. -/
structure Write where
  body : SaveBrowserPreferences
  outcome : Option WriteOutcome

/-- The promise of the bootstrap: there is none, its request is on the way, its reply is, or it
has ended and is about to be forgotten. -/
inductive Bootstrap where
  | absent
  | requested
  | answered (workspaces : WorkspaceDocument) (browser : BrowserPreferences)
  | loaded
  | failed

/-- The promise that is awaited. -/
def Bootstrap.request : Bootstrap → Bootstrap
  | .absent => .requested
  | bootstrap => bootstrap

/-- What goes on after a bootstrap that succeeds. -/
inductive Continuation where
  | retry
  | resume (blocked : Bool)

/-- The latest choice for each field, and for each experiment: the set or none. -/
structure Choices where
  theme : Option Theme
  sidebarWidth : Option ℕ
  selected : String → Option (Option String)
  runColors : Option (OrderedMap String String)

structure Browsing where
  server : UiStore
  store : BrowserStore
  writes : List Write
  bootstrap : Bootstrap
  /-- What awaits the bootstrap. -/
  awaiting : List Continuation
  /-- What goes on next. -/
  resumed : List Continuation
  /-- The documents the server had. -/
  published : List WorkspaceDocument
  /-- What the user chose last. -/
  choices : Choices
  /-- The sets that were missing when something looked for them, since they were chosen. -/
  gone : String → String → Prop
  /-- The write whose last attempt may have been committed or not. -/
  uncertain : Option SaveBrowserPreferences

inductive BrowserEvent where
  | updateBrowser (patch : BrowserPatch) (mutationId : String)
  | select (experimentId : String) (id : Option String) (mutationId : String)
  | bootstrap
  | retry
  | resumeAuthentication
  /-- Handle the bootstrap request. -/
  | serveState (fresh : String)
  /-- The reply to the bootstrap arrives. -/
  | loadState (mutationId : String)
  /-- The bootstrap fails. -/
  | loseState
  /-- The promise of the bootstrap is forgotten. -/
  | settleState
  /-- Go on after a bootstrap. -/
  | resume (mutationId : String)
  /-- Handle a write. -/
  | handle (registry : Repository)
  /-- A write is turned away before it is handled. -/
  | turnAway (outcome : WriteOutcome)
  /-- The outcome of a write arrives. -/
  | arrive
  /-- A write is lost on its way, or its reply is: it was committed by now or never will be. -/
  | lose
  /-- The drain tests its condition. -/
  | drain (mutationId : String)
  /-- The promise of the drain is forgotten. -/
  | forget
  /-- The tab takes a workspace document from a reply to one of its saves. -/
  | adopt (value : WorkspaceDocument)
  /-- The tab is closed. -/
  | destroy
  /-- Another request is handled. -/
  | other (request : UiStore.UiRequest)

namespace Choices

def none : Choices := ⟨.none, .none, fun _ ↦ .none, .none⟩

/-- Chosen fields; chosen selections are a choice for every experiment. -/
def update (patch : BrowserPatch) (choices : Choices) : Choices where
  theme := patch.theme.or choices.theme
  sidebarWidth := patch.sidebarWidth.or choices.sidebarWidth
  selected experiment := (patch.selected.map fun selected ↦ selected.get? experiment).or
    (choices.selected experiment)
  runColors := patch.runColors.or choices.runColors

def select (experimentId : String) (id : Option String) (choices : Choices) : Choices :=
  { choices with selected := Function.update choices.selected experimentId (some id) }

end Choices

namespace Browsing

/-- A new tab of a browser. -/
def start (server : UiStore) (theme : Theme) : Browsing :=
  ⟨server, .initial theme, [], .absent, [], [], [server.workspaces.document], .none,
    fun _ _ ↦ False, none⟩

/-- The mutation the stored row remembers. -/
def used (browserId : String) (system : Browsing) (mutationId : String) : Prop :=
  (system.server.browserRow browserId).bind Stored.mutationId = some mutationId

instance (browserId : String) (system : Browsing) (mutationId : String) :
    Decidable (system.used browserId mutationId) := inferInstanceAs (Decidable (_ = _))

/-- Send what a store has to write; a frozen write gets a mutation of its own. -/
def send (browserId mutationId : String) (result : BrowserStore × Option SaveBrowserPreferences)
    (system : Browsing) : Option Browsing :=
  match result.2 with
  | none => some { system with store := result.1 }
  | some body =>
    if system.store.pendingBrowser = none ∧ system.used browserId mutationId then none
    else some { system with store := result.1, writes := system.writes ++ [⟨body, none⟩] }

/-- `flushBrowser` with what it sends. -/
def flush (browserId mutationId : String) (system : Browsing) : Option Browsing :=
  system.send browserId mutationId (system.store.flushBrowser mutationId)

/-- The outcome of the first write. -/
def settle (outcome : WriteOutcome) (system : Browsing) : Browsing :=
  { system with
    store := system.store.written outcome
    writes := system.writes.tail
    uncertain := if outcome = .unauthorized ∨ outcome = .failed then
        (system.store.pendingBrowser.map PendingBrowser.body)
      else none }

/-- Handle a write. -/
def handle (text : RequestText) (registry : Repository) (browserId : String) (write : Write)
    (rest : List Write) (system : Browsing) : Browsing :=
  match system.server.saveBrowserPreferences text registry browserId write.body with
  | .ok (document, server) =>
    { system with server, writes := ⟨write.body, some (.ofAnswer (.ok document))⟩ :: rest }
  | .error error =>
    { system with writes := ⟨write.body, some (.ofAnswer (.error error))⟩ :: rest }

/-- Whether a request writes the preferences of a browser. -/
def writesBrowser (browserId : String) (request : UiStore.UiRequest) : Bool :=
  match request.call with
  | .saveBrowserPreferences id _ => id = browserId
  | _ => false

def step (text : RequestText) (readable : WorkspaceDocument → Bool) (browserId : String)
    (system : Browsing) : BrowserEvent → Option Browsing
  | .updateBrowser patch mutationId =>
    ({ system with
        store := system.store.queue patch
        choices := system.choices.update patch
        gone := if patch.selected.isSome then fun _ _ ↦ False else system.gone } : Browsing).flush
      browserId mutationId
  | .select experimentId id mutationId =>
    ({ system with
        store := system.store.queue (.ofSelected (system.store.select experimentId id))
        choices := system.choices.select experimentId id
        gone := fun experiment set ↦
          experiment ≠ experimentId ∧ system.gone experiment set } : Browsing).flush
      browserId mutationId
  | .bootstrap => some { system with bootstrap := system.bootstrap.request }
  | .retry => some { system with
      bootstrap := system.bootstrap.request
      awaiting := system.awaiting ++ [.retry] }
  | .resumeAuthentication => some { system with
      store := system.store.resumeAuthentication
      bootstrap := system.bootstrap.request
      awaiting := system.awaiting ++ [.resume system.store.authenticationError] }
  | .serveState fresh =>
    match system.bootstrap, system.server.uiState (some browserId) fresh with
    | .requested, .ok (session, server) => some { system with
        server, bootstrap := .answered session.workspaces session.browser }
    | _, _ => none
  | .loadState mutationId =>
    match system.bootstrap with
    | .answered workspaces browser =>
      if readable workspaces && validBrowserPreferences browser then
        ({ system with
            store := system.store.loadState workspaces browser
            bootstrap := .loaded } : Browsing).flush browserId mutationId
      else none
    | _ => none
  | .loseState =>
    match system.bootstrap with
    | .requested | .answered _ _ => some { system with bootstrap := .failed }
    | _ => none
  | .settleState =>
    match system.bootstrap with
    | .loaded => some { system with
        bootstrap := .absent, awaiting := [], resumed := system.resumed ++ system.awaiting }
    | .failed => some { system with bootstrap := .absent, awaiting := [] }
    | _ => none
  | .resume mutationId =>
    match system.resumed with
    | [] => none
    | .retry :: rest =>
      ({ system with
          store := system.store.retry
          resumed := rest
          gone := fun experiment set ↦ system.gone experiment set ∨
            system.store.knows experiment set = false } : Browsing).flush browserId mutationId
    | .resume blocked :: rest =>
      if blocked then ({ system with resumed := rest } : Browsing).flush browserId mutationId
      else some { system with resumed := rest }
  | .handle registry =>
    match system.writes with
    | ⟨body, none⟩ :: rest => some (system.handle text registry browserId ⟨body, none⟩ rest)
    | _ => none
  | .turnAway outcome =>
    match system.writes with
    | ⟨_, none⟩ :: _ =>
      if outcome = .refused ∨ outcome = .unauthorized ∨ outcome = .failed then
        some (system.settle outcome)
      else none
    | _ => none
  | .arrive =>
    match system.writes with
    | ⟨_, some outcome⟩ :: _ => some (system.settle outcome)
    | _ => none
  | .lose =>
    match system.writes with
    | _ :: _ => some (system.settle .failed)
    | [] => none
  | .drain mutationId =>
    if system.store.browserDrain = .testing then
      system.send browserId mutationId (system.store.drainBrowser mutationId)
    else none
  | .forget =>
    if system.store.browserDrain = .ended then
      some { system with store := { system.store with browserDrain := .absent } }
    else none
  | .adopt value =>
    if value ∈ system.published ∧ value.revision ≥ system.store.workspaces.revision then
      some { system with store := { system.store with workspaces := value } }
    else none
  | .destroy => some { system with store := { system.store with aborted := true } }
  | .other request =>
    if writesBrowser browserId request then none
    else
      let server := system.server.step text request
      some { system with
        server
        published := server.workspaces.document :: system.published
        gone := fun experiment set ↦ system.gone experiment set ∨
          UiStore.selects server.workspaces.document experiment set = false }

/-- The system after a sequence of events. -/
def run (text : RequestText) (readable : WorkspaceDocument → Bool) (browserId : String)
    (events : List BrowserEvent) (system : Browsing) : Option Browsing :=
  Runs.after (step text readable browserId) events system

end Browsing

end Rvx.Web
