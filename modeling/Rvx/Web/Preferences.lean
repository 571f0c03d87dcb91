import Rvx.Registry.UiStore

/-!
# The preferences store of a browser tab: shared workspaces

The part of a tab's store that saves and removes workspace sets.  A request is frozen together with
the change it makes before anything is awaited; an attempt with an unknown outcome keeps it, and it
is sent again as it is.  Whether a layout is valid is a parameter.
-/

namespace Rvx.Web

open Core Registry

/-! ## Texts -/

/-- The white space and line terminators of a script. -/
def isSpace (c : Char) : Bool :=
  c.toNat ∈ [0x09, 0x0a, 0x0b, 0x0c, 0x0d, 0x20, 0xa0, 0x1680, 0x2028, 0x2029, 0x202f, 0x205f,
    0x3000, 0xfeff] || (0x2000 ≤ c.toNat && c.toNat ≤ 0x200a)

/-- `String.prototype.trim`. -/
def trimmed (text : String) : String :=
  String.ofList ((text.toList.dropWhile isSpace).reverse.dropWhile isSpace).reverse

/-- `length` of a string: its UTF-16 code units. -/
def codeUnits (text : String) : ℕ :=
  (text.toList.map fun c ↦ if c.toNat < 0x10000 then 1 else 2).sum

/-! ## Documents -/

structure WorkspaceLayout where
  panels : List PanelSpec
  sections : List SectionSpec

section Valid

variable (validLayout : WorkspaceSet → Bool)

def validSet (set : WorkspaceSet) : Bool :=
  set.id ≠ "" && trimmed set.name ≠ "" && codeUnits set.name ≤ 80 && validLayout set

def validWorkspaceDocument (value : WorkspaceDocument) : Bool :=
  value.revision ≤ MAX_UI_REVISION && value.sets.length ≤ 100 &&
    value.sets.all (validSet validLayout) && (value.sets.map WorkspaceSet.id).Nodup

end Valid

/-- What a save or a removal does to the sets. -/
inductive Change where
  | put (record : WorkspaceSet)
  | drop (id : String)
deriving DecidableEq

namespace Change

/-- The set that changes. -/
def id : Change → String
  | put record => record.id
  | drop id => id

def apply (change : Change) (sets : List WorkspaceSet) : List WorkspaceSet :=
  match change with
  | put record => sets.filter (fun set ↦ set.id ≠ record.id) ++ [record]
  | drop id => sets.filter fun set ↦ set.id ≠ id

end Change

/-! ## The store -/

/-- A frozen request, with the change it was made for. -/
structure PendingWorkspace where
  body : SaveWorkspaces
  change : Change
deriving DecidableEq

structure PreferencesStore where
  workspaces : WorkspaceDocument
  ready : Bool
  conflict : Option WorkspaceDocument
  conflictRecord : Option WorkspaceSet
  saving : Bool
  lastSavedRevision : ℕ
  pendingWorkspace : Option PendingWorkspace

/-- What a submitted request comes to. -/
inductive Outcome where
  | saved (value : WorkspaceDocument)
  | conflict (current : WorkspaceDocument)
  /-- Any other status from 400 to 499. -/
  | refused
  /-- No reply, an unreadable one, a sign-in that is required, or a status from 500. -/
  | failed
deriving DecidableEq

/-- The outcome of the server's answer. -/
def Outcome.ofAnswer (readable : WorkspaceDocument → Bool) :
    Except (UiError WorkspaceDocument) WorkspaceDocument → Outcome
  | .ok value => if readable value then .saved value else .failed
  | .error (.uiConflict _ current) => if readable current then .conflict current else .refused
  | .error (.uiBootstrap _) => .refused
  | .error (.invalidInput _) => .refused
  | .error .sqlite => .failed

namespace PreferencesStore

def initial : PreferencesStore := ⟨⟨0, []⟩, false, none, none, false, 0, none⟩

/-- Take a document that is not older. -/
def adopt (value : WorkspaceDocument) (store : PreferencesStore) : PreferencesStore :=
  if value.revision ≥ store.workspaces.revision then { store with workspaces := value } else store

/-- The end of `loadState`. -/
def loadState (value : WorkspaceDocument) (store : PreferencesStore) : PreferencesStore :=
  { store.adopt value with ready := true }

/-- The record a save is made for; an identifier is only drawn for a new name. -/
def recordFor (name experimentId : String) (layout : WorkspaceLayout) (id : Option String)
    (fresh : String) (store : PreferencesStore) : WorkspaceSet :=
  let existing := store.workspaces.sets.find? fun set ↦
    set.experimentId = experimentId && set.name = trimmed name
  ⟨(id.or (existing.map WorkspaceSet.id)).getD fresh, trimmed name, experimentId, layout.panels,
    layout.sections⟩

/-- Copy and freeze the full request before the first await, and submit it. -/
def save (name experimentId : String) (layout : WorkspaceLayout) (loadedRevision : ℕ)
    (id : Option String) (fresh mutationId : String) (store : PreferencesStore) :
    Option PreferencesStore :=
  let record := store.recordFor name experimentId layout id fresh
  let sets := (Change.put record).apply store.workspaces.sets
  if store.saving || store.pendingWorkspace.isSome || !store.ready then none
  else if record.name = "" ∨ codeUnits record.name > 80 ∨ sets.length > 100 then none
  else some { store with
    conflict := none
    conflictRecord := none
    pendingWorkspace := some ⟨⟨loadedRevision, mutationId, sets⟩, .put record⟩
    saving := true }

def remove (id mutationId : String) (store : PreferencesStore) : Option PreferencesStore :=
  if !store.ready || store.saving || store.pendingWorkspace.isSome then none
  else some { store with
    conflict := none
    pendingWorkspace := some ⟨⟨store.workspaces.revision, mutationId,
      (Change.drop id).apply store.workspaces.sets⟩, .drop id⟩
    saving := true }

/-- Submit the frozen request again. -/
def retrySave (store : PreferencesStore) : Option PreferencesStore :=
  if store.pendingWorkspace.isSome && !store.saving then some { store with saving := true } else none

/-- The record of a pending save; a removal has none. -/
def pendingRecord (store : PreferencesStore) : Option WorkspaceSet :=
  store.pendingWorkspace.bind fun pending ↦
    match pending.change with
    | .put record => some record
    | .drop _ => none

/-- `submitWorkspace` after its request.  After a save that was accepted it awaits the preference
writes or the bootstrap, and is still saving until then. -/
def submitted (outcome : Outcome) (store : PreferencesStore) : PreferencesStore :=
  match outcome with
  | .saved value =>
    { store.adopt value with
      lastSavedRevision := value.revision
      pendingWorkspace := none
      conflict := none
      conflictRecord := none }
  | .conflict current =>
    let store' := store.adopt current
    { store' with
      conflict := some store'.workspaces
      conflictRecord := store.pendingRecord
      pendingWorkspace := none
      saving := false }
  | .refused => { store with pendingWorkspace := none, saving := false }
  | .failed => { store with saving := false }

end PreferencesStore

end Rvx.Web
