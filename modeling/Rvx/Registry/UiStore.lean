import Rvx.Core.Ui
import Rvx.Registry.Repository

/-!
# Stored dashboard documents

The shared workspace document and one preference document for each browser.  A save compares its
revision with the stored one and is remembered, so that its repetition is recognised.  Every
operation is one transaction: a failed one changes nothing.  The texts of the requests are the
JSON library's, so the encoders are parameters; of the metadata only the experiments, the sources
and the runs are read.
-/

namespace Rvx.Registry

open Core Check

def MAX_BROWSERS : ℕ := 10000

def BOOTSTRAP : String :=
  "missing, invalid, or unknown rvx_browser cookie; " ++
    "GET /api/ui/state to bootstrap before retrying"

inductive UiError (δ : Type) where
  | uiConflict (error : String) (current : δ)
  | uiBootstrap (reason : String)
  | invalidInput (reason : String)
  | sqlite
deriving DecidableEq

/-- A document with the mutation that was accepted last. -/
structure Stored (δ : Type) where
  document : δ
  mutationId : Option String
  mutationJson : Option String
deriving DecidableEq

structure BrowserRow where
  browserId : String
  stored : Stored BrowserPreferences

structure UiStore where
  workspaces : Stored WorkspaceDocument
  browsers : KeyedTable BrowserRow.browserId

/-- `serde_json::to_string` of the two requests. -/
structure RequestText where
  workspaces : SaveWorkspaces → String
  browser : SaveBrowserPreferences → String

/-- `valid_browser_id`. -/
def validBrowserId (value : String) : Bool :=
  match value.toList with
  | 'b' :: 'r' :: 'o' :: 'w' :: 's' :: 'e' :: 'r' :: '_' :: rest =>
    rest.length = 32 && rest.all fun c ↦ isHexDigit c && !('A' ≤ c && c ≤ 'F')
  | _ => false

namespace UiStore

/-- `initialize`. -/
def initial : UiStore := ⟨⟨⟨0, []⟩, none, none⟩, .empty⟩

section Helpers

variable {α δ : Type}

/-- `browser_row`. -/
def browserRow (id : String) (store : UiStore) : Option (Stored BrowserPreferences) :=
  (store.browsers.find? id).map BrowserRow.stored

def requireBrowser (id : String) (store : UiStore) :
    Except (UiError δ) (Stored BrowserPreferences) :=
  if validBrowserId id then
    match store.browserRow id with
    | some row => .ok row
    | none => .error (.uiBootstrap BOOTSTRAP)
  else .error (.uiBootstrap BOOTSTRAP)

def boundedPayload (encode : α → String) (input : α) : Except (UiError δ) String :=
  if (encode input).utf8ByteSize > MAX_UI_REQUEST_BYTES then
    .error (.invalidInput "UI request exceeds 2 MiB")
  else .ok (encode input)

/-- Whether the request is the mutation accepted last. -/
def retry (row : Stored δ) (id payload : String) : Except (UiError δ) Bool :=
  if row.mutationId ≠ some id then .ok false
  else if row.mutationJson ≠ some payload then
    .error (.uiConflict "mutation_id was already used with a different payload" row.document)
  else .ok true

def revisionMatches (requested revision : ℕ) (current : δ) : Except (UiError δ) Unit :=
  if requested ≠ revision then
    .error (.uiConflict "stale revision; preserve your draft and reconcile with current" current)
  else .ok ()

def increment (revision : ℕ) : Except (UiError δ) ℕ :=
  if revision + 1 ≤ MAX_UI_REVISION then .ok (revision + 1)
  else .error (.invalidInput "UI revision limit reached")

/-- Fail unless every item is registered. -/
def validateWorkspaceRelations (registry : Repository) (input : SaveWorkspaces) :
    Except (UiError δ) Unit :=
  input.sets.forM fun set ↦ do
    reject ((registry.experiments.find? set.experimentId).isNone)
      (.invalidInput "workspace references an unknown experiment")
    reject (∃ id ∈ set.panels.flatMap PanelSpec.sourceIds, (registry.sources.find? id).isNone)
      (.invalidInput "panel references an unknown Source ID")

def validateRunColors (registry : Repository) (input : SaveBrowserPreferences) :
    Except (UiError δ) Unit :=
  input.runColors.keys.forM fun id ↦
    reject ((registry.runs.find? id).isNone)
      (.invalidInput "run_colors must reference registered Run IDs")

/-- Which experiment each set belongs to. -/
def setExperiments (document : WorkspaceDocument) : OrderedMap String String :=
  .ofList (document.sets.map fun set ↦ (set.id, set.experimentId))

/-- Whether a selection names a set of its experiment. -/
def selects (document : WorkspaceDocument) (experiment set : String) : Bool :=
  (setExperiments document).get? set = some experiment

/-- The selections that survive a new workspace document. -/
def kept (document : WorkspaceDocument) (browser : BrowserPreferences) :
    OrderedMap String String :=
  browser.selected.retain (selects document)

/-- A browser that loses a selection gets a new revision and forgets its mutation. -/
def prunedRow (document : WorkspaceDocument) (row : BrowserRow) : BrowserRow :=
  let browser := row.stored.document
  if (kept document browser).size ≠ browser.selected.size then
    { row with stored := ⟨{ browser with
        selected := kept document browser, revision := browser.revision + 1 }, none, none⟩ }
  else row

def pruneSelections (document : WorkspaceDocument) (browsers : KeyedTable BrowserRow.browserId) :
    Except (UiError δ) (KeyedTable BrowserRow.browserId) := do
  browsers.rows.forM fun row ↦
    if (kept document row.stored.document).size ≠ row.stored.document.selected.size then
      (increment row.stored.document.revision).map fun _ ↦ ()
    else pure ()
  pure (browsers.update (prunedRow document) fun row ↦ by unfold prunedRow; dsimp only; split <;> rfl)

end Helpers

/-! ## Operations -/

structure UiSession where
  browserId : String
  initialized : Bool
  workspaces : WorkspaceDocument
  browser : BrowserPreferences

/-- `ui_state`; `fresh` is the identifier a new browser would get. -/
def uiState (requested : Option String) (fresh : String) (store : UiStore) :
    Except (UiError WorkspaceDocument) (UiSession × UiStore) :=
  let existing := (requested.filter validBrowserId).bind fun id ↦
    (store.browserRow id).map fun row ↦ (id, row.document)
  match existing with
  | some (id, browser) => .ok (⟨id, false, store.workspaces.document, browser⟩, store)
  | none =>
    if MAX_BROWSERS ≤ store.browsers.rows.length then
      .error (.invalidInput
        "browser registry limit of 10000 reached; no preferences were evicted")
    else
      match store.browsers.insert? ⟨fresh, ⟨.default, none, none⟩⟩ with
      | none => .error .sqlite
      | some browsers =>
        .ok (⟨fresh, true, store.workspaces.document, .default⟩, { store with browsers })

def saveWorkspaces (text : RequestText) (registry : Repository) (browserId : String)
    (input : SaveWorkspaces) (store : UiStore) :
    Except (UiError WorkspaceDocument) (WorkspaceDocument × UiStore) := do
  let _ ← requireBrowser browserId store
  input.validate.mapError UiError.invalidInput
  let payload ← boundedPayload text.workspaces input
  let current := store.workspaces.document
  if ← retry store.workspaces input.mutationId payload then
    pure (current, store)
  else
    revisionMatches input.revision current.revision current
    validateWorkspaceRelations registry input
    if current.sets = input.sets then
      let document : WorkspaceDocument := ⟨current.revision, input.sets⟩
      pure (document, { store with workspaces := ⟨document, some input.mutationId, some payload⟩ })
    else
      let revision ← increment current.revision
      let document : WorkspaceDocument := ⟨revision, input.sets⟩
      let browsers ← pruneSelections document store.browsers
      pure (document, ⟨⟨document, some input.mutationId, some payload⟩, browsers⟩)

/-- Write one browser's row. -/
def setBrowser (id : String) (stored : Stored BrowserPreferences) (store : UiStore) : UiStore :=
  { store with
    browsers := store.browsers.update
      (fun row ↦ if row.browserId = id then { row with stored } else row)
      fun row ↦ by split <;> rfl }

/-- The document a browser request asks for. -/
def requestedPreferences (revision : ℕ) (input : SaveBrowserPreferences) : BrowserPreferences :=
  ⟨revision, input.theme, input.sidebarWidth, input.selected, input.runColors⟩

def saveBrowserPreferences (text : RequestText) (registry : Repository) (browserId : String)
    (input : SaveBrowserPreferences) (store : UiStore) :
    Except (UiError BrowserPreferences) (BrowserPreferences × UiStore) := do
  let row ← requireBrowser browserId store
  input.validate.mapError UiError.invalidInput
  let payload ← boundedPayload text.browser input
  let current := row.document
  if ← retry row input.mutationId payload then
    pure (current, store)
  else
    revisionMatches input.revision current.revision current
    reject (∃ entry ∈ input.selected.entries,
      selects store.workspaces.document entry.1 entry.2 = false)
      (.invalidInput
        "selected must reference an existing workspace in the specified experiment")
    validateRunColors registry input
    let revision ← if current = requestedPreferences current.revision input then
        pure current.revision
      else increment current.revision
    let document := requestedPreferences revision input
    pure (document,
      store.setBrowser browserId ⟨document, some input.mutationId, some payload⟩)

/-! ## Runs -/

inductive UiCall where
  | uiState (requested : Option String) (fresh : String)
  | saveWorkspaces (browserId : String) (input : SaveWorkspaces)
  | saveBrowserPreferences (browserId : String) (input : SaveBrowserPreferences)

/-- A call and the metadata it reads. -/
structure UiRequest where
  registry : Repository
  call : UiCall

/-- The store after a successful call. -/
def perform (text : RequestText) (store : UiStore) (request : UiRequest) : Option UiStore :=
  match request.call with
  | .uiState requested fresh => (store.uiState requested fresh).toOption.map Prod.snd
  | .saveWorkspaces browserId input =>
    (store.saveWorkspaces text request.registry browserId input).toOption.map Prod.snd
  | .saveBrowserPreferences browserId input =>
    (store.saveBrowserPreferences text request.registry browserId input).toOption.map Prod.snd

/-- A failed call is rolled back. -/
def step (text : RequestText) (store : UiStore) (request : UiRequest) : UiStore :=
  (store.perform text request).getD store

def run (text : RequestText) (requests : List UiRequest) (store : UiStore) : UiStore :=
  requests.foldl (step text) store

end UiStore

end Rvx.Registry
