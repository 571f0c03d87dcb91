import Rvx.Registry.UiSaves

/-!
# References between the dashboard documents

Every selection a browser stores names a set of the stored workspace document.  A workspace save
prunes what it orphans in the same transaction, and a preference save is checked against the
document it will stand beside.
-/

namespace Rvx.Registry.UiStore

open Core Check

variable {text : RequestText} {store store' : UiStore}

/-- The stored selections and the sets they name. -/
structure Referential (store : UiStore) : Prop where
  sets : (store.workspaces.document.sets.map WorkspaceSet.id).Nodup
  selected : ∀ id browser, store.preferences id = some browser →
    ∀ experiment set, browser.selected.get? experiment = some set →
      selects store.workspaces.document experiment set = true

theorem exists_of_selects {document : WorkspaceDocument} {experiment id : String}
    (h : selects document experiment id = true) :
    ∃ set ∈ document.sets, set.id = id ∧ set.experimentId = experiment := by
  have hfound : (setExperiments document).get? id = some experiment := of_decide_eq_true h
  obtain ⟨set, hset, hpair⟩ := List.mem_map.mp (OrderedMap.mem_of_get?_ofList hfound)
  obtain ⟨hid, hexperiment⟩ := Prod.mk.inj hpair
  exact ⟨set, hset, hid, hexperiment⟩

theorem referential_initial : Referential initial := by
  refine ⟨by simp [initial], fun id browser h ↦ ?_⟩
  simp [preferences, browserRow, initial, KeyedTable.find?, Table.lookup] at h

/-- After a pruning every selection stands. -/
theorem selects_of_pruned {document : WorkspaceDocument} {stored : Stored BrowserPreferences}
    {experiment set : String}
    (h : (pruned document stored).document.selected.get? experiment = some set) :
    selects document experiment set = true := by
  obtain ⟨hkept, hsame⟩ | ⟨-, hpruned⟩ := pruned_cases document stored
  · rw [hsame, ← hkept] at h
    exact (OrderedMap.get?_retain.mp h).2
  · rw [hpruned] at h
    exact (OrderedMap.get?_retain.mp h).2

theorem WorkspacesSaved.referential {input : SaveWorkspaces} {document : WorkspaceDocument}
    (h : WorkspacesSaved text input store store' document) (hinput : input.validate = .ok ())
    (hstore : store.Referential) : store'.Referential := by
  cases h with
  | repeated _ _ hsame => exact hsame ▸ hstore
  | unchanged _ hworkspaces hbrowsers =>
    have hdocument : store'.workspaces.document = store.workspaces.document := by rw [hworkspaces]
    refine ⟨hdocument ▸ hstore.sets, fun id browser hbrowser experiment set hset ↦ ?_⟩
    rw [hdocument]
    rw [preferences, browserRow, hbrowsers] at hbrowser
    exact hstore.selected id browser hbrowser experiment set hset
  | changed _ hworkspaces hbrowsers =>
    have hdocument : store'.workspaces.document = ⟨input.revision + 1, input.sets⟩ := by
      rw [hworkspaces]
    refine ⟨hdocument ▸ input.validate_nodup hinput, fun id browser hbrowser experiment set hset ↦ ?_⟩
    rw [preferences, browserRow_of_pruned hbrowsers, Option.map_map] at hbrowser
    obtain ⟨stored, -, rfl⟩ := Option.map_eq_some_iff.mp hbrowser
    rw [hdocument]
    exact selects_of_pruned hset

theorem BrowserSaved.referential {browserId : String} {input : SaveBrowserPreferences}
    {row : Stored BrowserPreferences} {document : BrowserPreferences}
    (h : BrowserSaved text browserId input store store' row document)
    (hstore : store.Referential) : store'.Referential := by
  cases h with
  | repeated _ _ hsame => exact hsame ▸ hstore
  | written _ hselected _ hwritten =>
    subst hwritten
    refine ⟨hstore.sets, fun id browser hbrowser experiment set hset ↦ ?_⟩
    rw [preferences, browserRow_setBrowser] at hbrowser
    split at hbrowser
    · rw [Option.map_map] at hbrowser
      obtain ⟨stored, -, rfl⟩ := Option.map_eq_some_iff.mp hbrowser
      exact hselected experiment set hset
    · exact hstore.selected id browser hbrowser experiment set hset

/-- A new browser selects nothing. -/
theorem uiState_referential {requested : Option String} {fresh : String} {session : UiSession}
    (h : store.uiState requested fresh = .ok (session, store')) (hstore : store.Referential) :
    store'.Referential := by
  unfold uiState at h
  dsimp only at h
  split at h
  · obtain ⟨-, rfl⟩ := Prod.mk.inj (Except.ok.inj h)
    exact hstore
  split at h
  · exact absurd h (by simp)
  split at h
  · exact absurd h (by simp)
  rename_i browsers hbrowsers
  obtain ⟨-, rfl⟩ := Prod.mk.inj (Except.ok.inj h)
  refine ⟨hstore.sets, fun id browser hbrowser experiment set hset ↦ ?_⟩
  rw [preferences, browserRow, KeyedTable.find?_insert? hbrowsers] at hbrowser
  split at hbrowser
  · obtain rfl := Option.some.inj hbrowser
    simp [BrowserPreferences.default] at hset
  · exact hstore.selected id browser hbrowser experiment set hset

theorem step_referential (hstore : store.Referential) (request : UiRequest) :
    (store.step text request).Referential := by
  obtain ⟨registry, call⟩ := request
  cases step_eq text store ⟨registry, call⟩ with
  | inl hsame =>
    rw [hsame]
    exact hstore
  | inr hperform =>
    generalize store.step text ⟨registry, call⟩ = after at hperform ⊢
    cases call with
    | uiState requested fresh =>
      obtain ⟨⟨session, other⟩, hstate, rfl⟩ := Option.map_eq_some_iff.mp hperform
      exact uiState_referential (toOption_eq_some.mp hstate) hstore
    | saveWorkspaces browserId input =>
      obtain ⟨⟨document, other⟩, hsave, rfl⟩ := Option.map_eq_some_iff.mp hperform
      obtain ⟨hsaved, hinput⟩ := saveWorkspaces_spec (toOption_eq_some.mp hsave)
      exact hsaved.referential hinput hstore
    | saveBrowserPreferences browserId input =>
      obtain ⟨row, document, -, hsaved⟩ := perform_saveBrowserPreferences hperform
      exact hsaved.referential hstore

/-- In every reachable store the selections name stored sets of their experiments, whose
identifiers are distinct. -/
theorem selections_exist (text : RequestText) (requests : List UiRequest) :
    let store := initial.run text requests
    (store.workspaces.document.sets.map WorkspaceSet.id).Nodup ∧
      ∀ id browser, store.preferences id = some browser →
        ∀ experiment selected, browser.selected.get? experiment = some selected →
          ∃ set ∈ store.workspaces.document.sets,
            set.id = selected ∧ set.experimentId = experiment := by
  intro store
  have hstore : store.Referential := by
    have hrun : ∀ (requests : List UiRequest) (start : UiStore), start.Referential →
        (start.run text requests).Referential := by
      intro requests
      induction requests with
      | nil => exact fun _ hstart ↦ hstart
      | cons request rest ih => exact fun start hstart ↦ ih _ (step_referential hstart request)
    exact hrun requests initial referential_initial
  refine ⟨hstore.sets, fun id browser hbrowser experiment selected hselected ↦ ?_⟩
  exact exists_of_selects (hstore.selected id browser hbrowser experiment selected hselected)

end Rvx.Registry.UiStore
