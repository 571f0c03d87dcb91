import Rvx.Registry.UiContract
import Rvx.Web.BrowserPreferences

/-!
# Several tabs of one browser

Tabs that write the preferences of one browser, each with its own store and its own requests.  A
patch has whole maps, so beside them it is recorded which keys the tab has changed itself in what
it still holds, and which tab made an entry of the stored preferences what it is.
-/

namespace Rvx.Web

open Core Registry

/-! ## Keys -/

/-- A selection for an experiment or a colour of a run. -/
inductive PreferenceKey where
  | selected (experiment : String)
  | runColor (run : String)
deriving DecidableEq

namespace PreferenceKey

/-- What a document has for a key. -/
def entry (browser : BrowserPreferences) : PreferenceKey → Option String
  | selected experiment => browser.selected.get? experiment
  | runColor run => browser.runColors.get? run

/-- What a patch has for a key, if it has the map. -/
def chosen (patch : BrowserPatch) : PreferenceKey → Option (Option String)
  | selected experiment => patch.selected.map fun selected ↦ selected.get? experiment
  | runColor run => patch.runColors.map fun colors ↦ colors.get? run

end PreferenceKey

/-- What the preferences of a browser have for a key. -/
def storedEntry (browserId : String) (server : UiStore) (key : PreferenceKey) : Option String :=
  (server.preferences browserId).bind fun browser ↦ key.entry browser

/-! ## A tab -/

structure BrowserTab where
  store : BrowserStore
  writes : List Write
  bootstrap : Bootstrap
  awaiting : List Continuation
  resumed : List Continuation
  /-- The keys the tab has changed itself in its pending write. -/
  frozen : PreferenceKey → Bool
  /-- The keys it has changed itself since. -/
  queued : PreferenceKey → Bool

namespace BrowserTab

def initial (theme : Theme) : BrowserTab :=
  ⟨.initial theme, [], .absent, [], [], fun _ ↦ false, fun _ ↦ false⟩

/-- The tab with the server. -/
def view (server : UiStore) (published : List WorkspaceDocument) (tab : BrowserTab) : Browsing :=
  ⟨server, tab.store, tab.writes, tab.bootstrap, tab.awaiting, tab.resumed, published, .none,
    fun _ _ ↦ False, none⟩

/-- `data` for a key. -/
def data (tab : BrowserTab) (key : PreferenceKey) : Option String :=
  key.entry (tab.store.queuedBrowser.apply tab.store.browser)

/-- The keys the tab has changed itself in what it holds. -/
def changed (tab : BrowserTab) (key : PreferenceKey) : Bool := tab.frozen key || tab.queued key

/-- The keys an event changes: the one that is selected, or those where a map differs. -/
def changes (event : BrowserEvent) (tab : BrowserTab) (key : PreferenceKey) : Bool :=
  match event with
  | .updateBrowser patch _ => (key.chosen patch).any fun chosen ↦ chosen ≠ tab.data key
  | .select experimentId _ _ => key = .selected experimentId
  | _ => false

/-- The reply that is on its way accepts the write. -/
def accepted (tab : BrowserTab) : Bool :=
  match tab.writes with
  | ⟨_, some (.accepted _)⟩ :: _ => true
  | _ => false

/-- The tab with the keys an event changes. -/
def change (event : BrowserEvent) (tab : BrowserTab) : BrowserTab :=
  { tab with queued := fun key ↦ tab.queued key || tab.changes event key }

/-- The tab after a step.  The changed keys are frozen with the queue, gone when the write is
accepted, and queued again when it ends in another way. -/
def move (after : Browsing) (tab : BrowserTab) : BrowserTab :=
  let moved : BrowserTab := { tab with
    store := after.store
    writes := after.writes
    bootstrap := after.bootstrap
    awaiting := after.awaiting
    resumed := after.resumed }
  match tab.store.pendingBrowser.isSome, after.store.pendingBrowser.isSome with
  | false, true => { moved with frozen := tab.queued, queued := fun _ ↦ false }
  | true, false => { moved with
      frozen := fun _ ↦ false, queued := if tab.accepted then tab.queued else tab.changed }
  | true, true => moved
  | false, false => moved

end BrowserTab

/-! ## The tabs and their server -/

structure Tabs (ι : Type) where
  server : UiStore
  published : List WorkspaceDocument
  tabs : ι → BrowserTab
  /-- The tab whose write last changed an entry, unless another request did. -/
  madeBy : PreferenceKey → Option ι
  /-- The mutations of the writes that were frozen. -/
  issued : List String

/-- The mutations after a step of a tab; a write that is frozen gets one that no write had. -/
def issue (before after : BrowserStore) (issued : List String) : Option (List String) :=
  match before.pendingBrowser, after.pendingBrowser with
  | none, some pending =>
    if pending.body.mutationId ∈ issued then none else some (pending.body.mutationId :: issued)
  | _, _ => some issued

/-- Whether an event handles a write of the tab. -/
def BrowserEvent.handles : BrowserEvent → Bool
  | .handle _ => true
  | _ => false

namespace Tabs

variable {ι : Type}

def start (server : UiStore) (themes : ι → Theme) : Tabs ι :=
  ⟨server, [server.workspaces.document], fun i ↦ .initial (themes i), fun _ ↦ none, []⟩

/-- An entry is what another tab made of it. -/
def foreign (i : ι) (system : Tabs ι) (key : PreferenceKey) : Prop :=
  ∃ j, system.madeBy key = some j ∧ j ≠ i

section Step

variable [DecidableEq ι]

/-- The system after a step of a tab and the server. -/
def advance (browserId : String) (i : ι) (event : BrowserEvent) (after : Browsing)
    (system : Tabs ι) : Option (Tabs ι) :=
  (issue (system.tabs i).store after.store system.issued).map fun issued ↦
    { server := after.server
      published := after.published
      tabs := Function.update system.tabs i (((system.tabs i).change event).move after)
      madeBy := fun key ↦
        if storedEntry browserId after.server key = storedEntry browserId system.server key then
          system.madeBy key
        else if event.handles then some i else none
      issued }

/-- An event of a tab. -/
def step (text : RequestText) (readable : WorkspaceDocument → Bool) (browserId : String)
    (system : Tabs ι) (action : ι × BrowserEvent) : Option (Tabs ι) :=
  (((system.tabs action.1).view system.server system.published).step text readable browserId
    action.2).bind fun after ↦ system.advance browserId action.1 action.2 after

/-- The system after a sequence of events. -/
def run (text : RequestText) (readable : WorkspaceDocument → Bool) (browserId : String)
    (actions : List (ι × BrowserEvent)) (system : Tabs ι) : Option (Tabs ι) :=
  Runs.after (step text readable browserId) actions system

end Step

/-! ## Taking over documents -/

/-- What a tab holds agrees with a document on what other tabs made of it, except for the keys the
tab has changed itself. -/
def Agrees (i : ι) (system : Tabs ι) (browser : BrowserPreferences) : Prop :=
  ∀ key, system.foreign i key → (system.tabs i).changed key = false →
    key.entry ((system.tabs i).store.held.apply browser) = key.entry browser

/-- A document has the revision of the stored preferences. -/
def Current (browserId : String) (system : Tabs ι) (browser : BrowserPreferences) : Prop :=
  ∀ stored, system.server.preferences browserId = some stored → browser.revision = stored.revision

/-- Whenever a tab takes over the current preferences with a conflict or a bootstrap, what it holds
agrees with them; and a retry drops no selection that another tab made and that is still stored,
unless the tab has changed it itself since its pending write. -/
def Undisturbed (browserId : String) (system : Tabs ι) (action : ι × BrowserEvent) : Prop :=
  let tab := system.tabs action.1
  match action.2 with
  | .arrive => ∀ body current rest, tab.writes = ⟨body, some (.conflict current)⟩ :: rest →
      system.Current browserId current → system.Agrees action.1 current
  | .loadState _ => ∀ workspaces browser, tab.bootstrap = .answered workspaces browser →
      tab.store.browserDrain ≠ .writing → tab.store.pendingBrowser = none →
      tab.store.browser.revision ≤ browser.revision →
      system.Current browserId browser → system.Agrees action.1 browser
  | .resume _ => ∀ rest, tab.resumed = .retry :: rest →
      ∀ selected, tab.store.queuedBrowser.selected = some selected →
      ∀ experiment id, selected.get? experiment = some id →
      storedEntry browserId system.server (.selected experiment) = some id →
      system.foreign action.1 (.selected experiment) →
      tab.queued (.selected experiment) = false → tab.store.knows experiment id = true
  | _ => True

end Tabs

end Rvx.Web
