import Rvx.Registry.UiStore

/-!
# Compare-and-swap of the dashboard documents

What an accepted save does to the stored documents, and from it the contract of every run: a
document only moves by one revision at a time, under a save that carries its current revision or
under the pruning of a workspace save, and the mutation accepted last can be repeated.
-/

namespace Rvx.Registry.UiStore

open Core Check

variable {text : RequestText} {registry : Repository} {store store' : UiStore}

/-! ## Accepted saves -/

section Helpers

variable {α δ : Type}

@[simp]
theorem requireBrowser_ok {id : String} {row : Stored BrowserPreferences} :
    (requireBrowser id store : Except (UiError δ) _) = .ok row ↔
      validBrowserId id = true ∧ store.browserRow id = some row := by
  unfold requireBrowser
  split
  · rename_i hvalid
    cases hrow : store.browserRow id <;> simp [hvalid]
  · rename_i hinvalid
    simp [hinvalid]

@[simp]
theorem boundedPayload_ok {encode : α → String} {input : α} {payload : String} :
    (boundedPayload encode input : Except (UiError δ) _) = .ok payload ↔
      (encode input).utf8ByteSize ≤ MAX_UI_REQUEST_BYTES ∧ payload = encode input := by
  unfold boundedPayload
  split
  · rename_i hlong
    simp [hlong]
  · rename_i hshort
    simp [not_lt.mp hshort, eq_comm]

theorem retry_ok {row : Stored δ} {id payload : String} {repeated : Bool} :
    retry row id payload = .ok repeated ↔
      (repeated = true ∧ row.mutationId = some id ∧ row.mutationJson = some payload) ∨
        (repeated = false ∧ row.mutationId ≠ some id) := by
  unfold retry
  cases repeated <;> split_ifs with hid hjson <;> simp_all

@[simp]
theorem revisionMatches_ok {requested revision : ℕ} {current : δ} {value : Unit} :
    revisionMatches requested revision current = .ok value ↔ requested = revision := by
  unfold revisionMatches
  split <;> simp_all

@[simp]
theorem increment_ok {revision next : ℕ} :
    (increment revision : Except (UiError δ) ℕ) = .ok next ↔
      revision + 1 ≤ MAX_UI_REVISION ∧ next = revision + 1 := by
  unfold increment
  split <;> simp_all [eq_comm]

theorem pruneSelections_ok {document : WorkspaceDocument}
    {browsers browsers' : KeyedTable BrowserRow.browserId}
    (h : (pruneSelections document browsers : Except (UiError δ) _) = .ok browsers') :
    browsers'.rows = browsers.rows.map (prunedRow document) := by
  simp only [pruneSelections, bind_eq_ok, exists_unit, pure_eq_ok] at h
  rw [← h.2]
  rfl

end Helpers

/-- A preference request that passes the checks on its shape and size. -/
structure BrowserAdmitted (text : RequestText) (browserId : String)
    (input : SaveBrowserPreferences) : Prop where
  browser : validBrowserId browserId = true
  valid : input.validate = .ok ()
  bounded : (text.browser input).utf8ByteSize ≤ MAX_UI_REQUEST_BYTES

/-- How an accepted workspace save leaves the store. -/
inductive WorkspacesSaved (text : RequestText) (input : SaveWorkspaces) (store store' : UiStore) :
    WorkspaceDocument → Prop where
  | repeated (hid : store.workspaces.mutationId = some input.mutationId)
    (hjson : store.workspaces.mutationJson = some (text.workspaces input)) (hstore : store' = store) :
    WorkspacesSaved text input store store' store.workspaces.document
  | unchanged (hrevision : input.revision = store.workspaces.document.revision)
    (hworkspaces : store'.workspaces = ⟨store.workspaces.document, some input.mutationId,
      some (text.workspaces input)⟩) (hbrowsers : store'.browsers = store.browsers) :
    WorkspacesSaved text input store store' store.workspaces.document
  | changed (hrevision : input.revision = store.workspaces.document.revision)
    (hworkspaces : store'.workspaces = ⟨⟨input.revision + 1, input.sets⟩, some input.mutationId,
      some (text.workspaces input)⟩)
    (hbrowsers : store'.browsers.rows =
      store.browsers.rows.map (prunedRow ⟨input.revision + 1, input.sets⟩)) :
    WorkspacesSaved text input store store' ⟨input.revision + 1, input.sets⟩

theorem saveWorkspaces_spec {browserId : String} {input : SaveWorkspaces}
    {document : WorkspaceDocument}
    (h : store.saveWorkspaces text registry browserId input = .ok (document, store')) :
    WorkspacesSaved text input store store' document ∧ input.validate = .ok () := by
  simp only [saveWorkspaces, bind_eq_ok, requireBrowser_ok, boundedPayload_ok, exists_unit,
    mapError_eq_ok] at h
  obtain ⟨row, -, hinput, payload, ⟨-, rfl⟩, repeated, hretry, h⟩ := h
  refine ⟨?_, hinput⟩
  obtain ⟨rfl, hid, hjson⟩ | ⟨rfl, -⟩ := retry_ok.mp hretry
  · obtain ⟨rfl, rfl⟩ := Prod.mk.inj (pure_eq_ok.mp h)
    exact .repeated hid hjson rfl
  · simp only [Bool.false_eq_true, if_false, bind_eq_ok, revisionMatches_ok, exists_unit] at h
    obtain ⟨hrevision, -, h⟩ := h
    split at h
    · rename_i hsets
      obtain ⟨rfl, rfl⟩ := Prod.mk.inj (pure_eq_ok.mp h)
      rw [← hsets]
      exact .unchanged hrevision rfl rfl
    · simp only [bind_eq_ok, increment_ok, pure_eq_ok, Prod.mk.injEq] at h
      obtain ⟨revision, ⟨-, rfl⟩, browsers, hbrowsers, rfl, rfl⟩ := h
      rw [← hrevision] at hbrowsers ⊢
      exact .changed hrevision rfl (pruneSelections_ok hbrowsers)

/-- How an accepted preference save leaves the store. -/
inductive BrowserSaved (text : RequestText) (browserId : String) (input : SaveBrowserPreferences)
    (store store' : UiStore) (row : Stored BrowserPreferences) : BrowserPreferences → Prop where
  | repeated (hid : row.mutationId = some input.mutationId)
    (hjson : row.mutationJson = some (text.browser input)) (hstore : store' = store) :
    BrowserSaved text browserId input store store' row row.document
  | written (hrevision : input.revision = row.document.revision)
    (hselected : ∀ experiment set, input.selected.get? experiment = some set →
      selects store.workspaces.document experiment set = true)
    {revision : ℕ}
    (hchanged : requestedPreferences revision input = row.document ∨ revision = input.revision + 1)
    (hstore : store' = store.setBrowser browserId ⟨requestedPreferences revision input,
      some input.mutationId, some (text.browser input)⟩) :
    BrowserSaved text browserId input store store' row (requestedPreferences revision input)

theorem saveBrowserPreferences_spec {browserId : String} {input : SaveBrowserPreferences}
    {document : BrowserPreferences}
    (h : store.saveBrowserPreferences text registry browserId input = .ok (document, store')) :
    ∃ row, store.browserRow browserId = some row ∧ BrowserAdmitted text browserId input ∧
      BrowserSaved text browserId input store store' row document := by
  simp only [saveBrowserPreferences, bind_eq_ok, requireBrowser_ok, boundedPayload_ok, exists_unit,
    mapError_eq_ok] at h
  obtain ⟨row, ⟨hvalid, hrow⟩, hinput, payload, ⟨hbounded, rfl⟩, repeated, hretry, h⟩ := h
  refine ⟨row, hrow, ⟨hvalid, hinput, hbounded⟩, ?_⟩
  obtain ⟨rfl, hid, hjson⟩ | ⟨rfl, -⟩ := retry_ok.mp hretry
  · obtain ⟨rfl, rfl⟩ := Prod.mk.inj (pure_eq_ok.mp h)
    exact .repeated hid hjson rfl
  · simp only [Bool.false_eq_true, if_false, bind_eq_ok, revisionMatches_ok, exists_unit,
      reject_ok] at h
    obtain ⟨hrevision, hselected, -, h⟩ := h
    have hselects (experiment set : String) (hset : input.selected.get? experiment = some set) :
        selects store.workspaces.document experiment set = true := by
      by_contra hno
      exact hselected ⟨(experiment, set), OrderedMap.get?_eq_some.mp hset, by simpa using hno⟩
    split at h
    · rename_i hsame
      simp only [bind_eq_ok, pure_eq_ok, exists_eq_left', Prod.mk.injEq] at h
      obtain ⟨rfl, rfl⟩ := h
      exact .written hrevision hselects (Or.inl hsame.symm) rfl
    · simp only [bind_eq_ok, increment_ok, pure_eq_ok, Prod.mk.injEq] at h
      obtain ⟨revision, ⟨-, rfl⟩, rfl, rfl⟩ := h
      exact .written hrevision hselects (Or.inr (by rw [hrevision])) rfl

/-! ## Documents after a call -/

/-- The preference document of a browser. -/
def preferences (id : String) (store : UiStore) : Option BrowserPreferences :=
  (store.browserRow id).map Stored.document

/-- Pruning on the stored part of a row. -/
def pruned (document : WorkspaceDocument) (stored : Stored BrowserPreferences) :
    Stored BrowserPreferences :=
  (prunedRow document ⟨"", stored⟩).stored

theorem prunedRow_eq (document : WorkspaceDocument) (row : BrowserRow) :
    prunedRow document row = { row with stored := pruned document row.stored } := by
  unfold pruned prunedRow
  dsimp only
  split <;> rfl

/-- A browser keeps its document unless it loses a selection, which is one revision. -/
theorem pruned_cases (document : WorkspaceDocument) (stored : Stored BrowserPreferences) :
    (kept document stored.document = stored.document.selected ∧ pruned document stored = stored) ∨
      (kept document stored.document ≠ stored.document.selected ∧
        pruned document stored = ⟨{ stored.document with
          selected := kept document stored.document
          revision := stored.document.revision + 1 }, none, none⟩) := by
  have hsize : kept document stored.document = stored.document.selected ↔
      (kept document stored.document).size = stored.document.selected.size :=
    OrderedMap.retain_eq_self
  unfold pruned prunedRow
  dsimp only
  split
  · rename_i hlost
    exact Or.inr ⟨fun heq ↦ hlost (hsize.mp heq), rfl⟩
  · rename_i hkept
    exact Or.inl ⟨hsize.mpr (not_not.mp hkept), rfl⟩

theorem browserRow_of_pruned {document : WorkspaceDocument}
    (hbrowsers : store'.browsers.rows = store.browsers.rows.map (prunedRow document)) (id : String) :
    store'.browserRow id = (store.browserRow id).map (pruned document) := by
  have hkey (row : BrowserRow) : (prunedRow document row).browserId = row.browserId := by
    rw [prunedRow_eq]
  unfold browserRow
  rw [KeyedTable.find?_of_rows hbrowsers hkey, Option.map_map, Option.map_map]
  congr 1
  funext row
  change (prunedRow document row).stored = pruned document row.stored
  rw [prunedRow_eq]

theorem browserRow_setBrowser (store : UiStore) (browserId : String) (stored : Stored BrowserPreferences)
    (id : String) :
    (store.setBrowser browserId stored).browserRow id =
      if id = browserId then (store.browserRow id).map fun _ ↦ stored else store.browserRow id := by
  unfold browserRow setBrowser
  rw [KeyedTable.find?_of_rows (by rfl) (by intro row; split <;> rfl), Option.map_map]
  split
  · rename_i hid
    rw [Option.map_map]
    cases hrow : store.browsers.find? id with
    | none => rfl
    | some row =>
      have hrowId : row.browserId = browserId := hid ▸ (KeyedTable.find?_eq_some.mp hrow).2
      simp [hrowId]
  · rename_i hid
    cases hrow : store.browsers.find? id with
    | none => rfl
    | some row =>
      have hrowId : row.browserId ≠ browserId := (KeyedTable.find?_eq_some.mp hrow).2 ▸ hid
      simp [hrowId]

/-- Registering a browser leaves the workspace document and every other browser alone. -/
theorem uiState_spec {requested : Option String} {fresh : String} {session : UiSession}
    (h : store.uiState requested fresh = .ok (session, store')) :
    store'.workspaces = store.workspaces ∧
      ∀ id row, store.browserRow id = some row → store'.browserRow id = some row := by
  unfold uiState at h
  dsimp only at h
  split at h
  · obtain ⟨-, rfl⟩ := Prod.mk.inj (Except.ok.inj h)
    exact ⟨rfl, fun _ _ hrow ↦ hrow⟩
  split at h
  · exact absurd h (by simp)
  split at h
  · exact absurd h (by simp)
  rename_i browsers hbrowsers
  obtain ⟨-, rfl⟩ := Prod.mk.inj (Except.ok.inj h)
  refine ⟨rfl, fun id row hrow ↦ ?_⟩
  obtain ⟨found, hfound, rfl⟩ := Option.map_eq_some_iff.mp hrow
  have hfollows : KeyedTable.Follows (fun old new ↦ new = old) store.browsers browsers :=
    KeyedTable.follows_insert? (fun _ ↦ rfl) hbrowsers
  obtain ⟨other, hother, rfl⟩ := hfollows id found hfound
  exact Option.map_eq_some_iff.mpr ⟨other, hother, rfl⟩

/-- How one call moves the workspace document. -/
inductive WorkspaceMoved (call : UiCall) (before after : WorkspaceDocument) : Prop where
  | kept (hafter : after = before)
  | saved {browserId : String} {input : SaveWorkspaces}
    (hcall : call = .saveWorkspaces browserId input) (hrevision : input.revision = before.revision)
    (hafter : after = ⟨before.revision + 1, input.sets⟩)

theorem step_eq (text : RequestText) (store : UiStore) (request : UiRequest) :
    store.step text request = store ∨ store.perform text request = some (store.step text request) := by
  unfold step
  cases store.perform text request with
  | none => exact Or.inl rfl
  | some after => exact Or.inr rfl

theorem perform_saveWorkspaces {browserId : String} {input : SaveWorkspaces}
    (h : store.perform text ⟨registry, .saveWorkspaces browserId input⟩ = some store') :
    ∃ document, WorkspacesSaved text input store store' document := by
  obtain ⟨⟨document, after⟩, hsave, rfl⟩ := Option.map_eq_some_iff.mp h
  exact ⟨document, (saveWorkspaces_spec (toOption_eq_some.mp hsave)).1⟩

theorem perform_saveBrowserPreferences {browserId : String} {input : SaveBrowserPreferences}
    (h : store.perform text ⟨registry, .saveBrowserPreferences browserId input⟩ = some store') :
    ∃ row document, store.browserRow browserId = some row ∧
      BrowserSaved text browserId input store store' row document := by
  obtain ⟨⟨document, after⟩, hsave, rfl⟩ := Option.map_eq_some_iff.mp h
  obtain ⟨row, hrow, -, hsaved⟩ := saveBrowserPreferences_spec (toOption_eq_some.mp hsave)
  exact ⟨row, document, hrow, hsaved⟩

theorem step_workspaceMoved (text : RequestText) (store : UiStore) (request : UiRequest) :
    WorkspaceMoved request.call store.workspaces.document
      (store.step text request).workspaces.document := by
  obtain ⟨registry, call⟩ := request
  cases step_eq text store ⟨registry, call⟩ with
  | inl hsame => exact .kept (by rw [hsame])
  | inr hperform =>
    generalize store.step text ⟨registry, call⟩ = after at hperform ⊢
    cases call with
    | uiState requested fresh =>
      obtain ⟨⟨session, other⟩, hstate, rfl⟩ := Option.map_eq_some_iff.mp hperform
      exact .kept (by rw [(uiState_spec (toOption_eq_some.mp hstate)).1])
    | saveWorkspaces browserId input =>
      obtain ⟨document, hsaved⟩ := perform_saveWorkspaces hperform
      cases hsaved with
      | repeated _ _ hstore => exact .kept (by rw [hstore])
      | unchanged _ hworkspaces _ => exact .kept (by rw [hworkspaces])
      | changed hrevision hworkspaces _ =>
        exact .saved rfl hrevision (by rw [hworkspaces, hrevision])
    | saveBrowserPreferences browserId input =>
      obtain ⟨row, document, -, hsaved⟩ := perform_saveBrowserPreferences hperform
      cases hsaved with
      | repeated _ _ hstore => exact .kept (by rw [hstore])
      | written _ _ _ hstore => exact .kept (by rw [hstore]; rfl)

end Rvx.Registry.UiStore
