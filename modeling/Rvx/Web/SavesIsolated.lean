import Rvx.Registry.UiContract
import Rvx.Web.WorkspaceSaves

/-!
# Saves change one set

Every document a tab holds is one the server had.  A request is committed only if its revision is
the server's, and then the document it was built from was the server's too.
-/

namespace Rvx.Web

open Core Check Registry

variable {ι : Type} {text : RequestText} {readable : WorkspaceDocument → Bool}

/-! ## Documents of the server -/

/-- A document the server had: it is older than the current one or the current one itself. -/
def Past (value current : WorkspaceDocument) : Prop :=
  value.revision ≤ current.revision ∧ (value.revision = current.revision → value = current)

theorem Past.refl (current : WorkspaceDocument) : Past current current := ⟨le_rfl, fun _ ↦ rfl⟩

/-- The server's document stays or gets a new revision. -/
def Moves (current next : WorkspaceDocument) : Prop :=
  next = current ∨ next.revision = current.revision + 1

theorem Past.moves {value current next : WorkspaceDocument} (h : Past value current)
    (hmoves : Moves current next) : Past value next := by
  rcases hmoves with rfl | hnext
  · exact h
  · exact ⟨by have := h.1; omega, fun heq ↦ by have := h.1; omega⟩

/-- An outcome brings documents of the server only. -/
def Outcome.Past (outcome : Outcome) (current : WorkspaceDocument) : Prop :=
  match outcome with
  | .saved value => Web.Past value current
  | .conflict value => Web.Past value current
  | .refused => True
  | .failed => True

theorem Outcome.Past.moves {outcome : Outcome} {current next : WorkspaceDocument}
    (h : outcome.Past current) (hmoves : Moves current next) : outcome.Past next := by
  cases outcome with
  | saved value => exact Web.Past.moves h hmoves
  | conflict value => exact Web.Past.moves h hmoves
  | refused => trivial
  | failed => trivial

/-- A change that was built from a document of the server fits it, as long as the server did not
move past the revision it carries. -/
def Frozen.Fits (frozen : Frozen) (current : WorkspaceDocument) : Prop :=
  frozen.body.revision ≤ current.revision ∧ (frozen.body.revision = current.revision →
    frozen.body.sets = frozen.change.apply current.sets)

theorem Frozen.Fits.moves {frozen : Frozen} {current next : WorkspaceDocument}
    (h : frozen.Fits current) (hmoves : Moves current next) : frozen.Fits next := by
  rcases hmoves with rfl | hnext
  · exact h
  · exact ⟨by have := h.1; omega, fun heq ↦ by have := h.1; omega⟩

/-! ## The server -/

/-- What committing a request does to the document. -/
structure Committed (body : SaveWorkspaces) (before after : WorkspaceDocument) : Prop where
  revision : body.revision = before.revision
  sets : after.sets = body.sets
  moves : Moves before after
  kept : body.sets = before.sets → after = before

theorem Committed.eq_of_revision {body : SaveWorkspaces} {before after : WorkspaceDocument}
    (h : Committed body before after) (hsame : after.revision = before.revision) :
    after = before := by
  rcases h.moves with heq | hnext
  · exact heq
  · omega

/-- A request that is not a repetition is committed. -/
theorem saveWorkspaces_commits {registry : Repository} {browserId : String} {body : SaveWorkspaces}
    {store store' : UiStore} {document : WorkspaceDocument}
    (h : store.saveWorkspaces text registry browserId body = .ok (document, store')) :
    store'.workspaces.document = document ∧ Moves store.workspaces.document document ∧
      (store.workspaces.mutationId ≠ some body.mutationId →
        Committed body store.workspaces.document document) := by
  simp only [UiStore.saveWorkspaces, bind_eq_ok, UiStore.boundedPayload_ok, exists_unit] at h
  obtain ⟨_, -, -, payload, ⟨-, rfl⟩, repeated, hretry, h⟩ := h
  obtain ⟨rfl, hid, -⟩ | ⟨rfl, -⟩ := UiStore.retry_ok.mp hretry
  · obtain ⟨rfl, rfl⟩ := Prod.mk.inj (pure_eq_ok.mp h)
    exact ⟨rfl, Or.inl rfl, fun hne ↦ absurd hid hne⟩
  · simp only [Bool.false_eq_true, if_false, bind_eq_ok, UiStore.revisionMatches_ok,
      exists_unit] at h
    obtain ⟨hrevision, -, h⟩ := h
    split at h
    · rename_i hsets
      obtain ⟨rfl, rfl⟩ := Prod.mk.inj (pure_eq_ok.mp h)
      have hsame : (⟨store.workspaces.document.revision, body.sets⟩ : WorkspaceDocument) =
          store.workspaces.document := by rw [← hsets]
      exact ⟨rfl, Or.inl hsame, fun _ ↦ ⟨hrevision, rfl, Or.inl hsame, fun _ ↦ hsame⟩⟩
    · rename_i hsets
      simp only [bind_eq_ok, UiStore.increment_ok, pure_eq_ok, Prod.mk.injEq] at h
      obtain ⟨revision, ⟨-, rfl⟩, browsers, -, rfl, rfl⟩ := h
      refine ⟨rfl, Or.inr rfl, fun _ ↦ ⟨hrevision, rfl, Or.inr rfl, fun heq ↦ ?_⟩⟩
      exact absurd heq.symm hsets

/-- An error of a helper that is no conflict. -/
theorem forM_ne_conflict {α δ : Type} {check : α → Except (UiError δ) Unit} {list : List α}
    {reason : String} {current : δ}
    (hcheck : ∀ item, check item ≠ .error (.uiConflict reason current)) :
    list.forM check ≠ .error (.uiConflict reason current) := by
  induction list with
  | nil => simp [pure, Except.pure]
  | cons item rest ih =>
    rw [List.forM_eq_forM, List.forM_cons, ne_eq, bind_eq_error, not_or]
    refine ⟨hcheck item, ?_⟩
    rintro ⟨-, -, hrest⟩
    exact ih hrest

/-- A conflict shows the current document. -/
theorem saveWorkspaces_conflict {registry : Repository} {browserId reason : String}
    {body : SaveWorkspaces} {store : UiStore} {current : WorkspaceDocument}
    (h : store.saveWorkspaces text registry browserId body = .error (.uiConflict reason current)) :
    current = store.workspaces.document := by
  have hincrement (revision : ℕ) : (UiStore.increment revision : Except (UiError WorkspaceDocument) ℕ) ≠
      .error (.uiConflict reason current) := by
    unfold UiStore.increment
    split <;> simp
  have hrelations : (UiStore.validateWorkspaceRelations registry body :
      Except (UiError WorkspaceDocument) Unit) ≠ .error (.uiConflict reason current) := by
    refine forM_ne_conflict fun set ↦ ?_
    unfold reject
    split <;> split <;> simp [bind, Except.bind]
  have hprune (document : WorkspaceDocument) :
      (UiStore.pruneSelections document store.browsers :
        Except (UiError WorkspaceDocument) _) ≠ .error (.uiConflict reason current) := by
    unfold UiStore.pruneSelections
    rw [ne_eq, bind_eq_error, not_or]
    refine ⟨forM_ne_conflict fun row ↦ ?_, by simp [pure, Except.pure]⟩
    split
    · unfold UiStore.increment
      split <;> simp [Except.map]
    · simp [pure, Except.pure]
  simp only [UiStore.saveWorkspaces, bind_eq_error] at h
  rcases h with hbrowser | ⟨-, -, hvalidate | ⟨-, -, hpayload | ⟨payload, -, hrest⟩⟩⟩
  · unfold UiStore.requireBrowser at hbrowser
    split at hbrowser
    · split at hbrowser <;> simp at hbrowser
    · simp at hbrowser
  · cases hvalid : body.validate <;> simp [hvalid, Except.mapError] at hvalidate
  · unfold UiStore.boundedPayload at hpayload
    split at hpayload <;> simp at hpayload
  · rcases hrest with hretry | ⟨repeated, -, hrest⟩
    · unfold UiStore.retry at hretry
      split_ifs at hretry
      rw [Except.error.injEq, UiError.uiConflict.injEq] at hretry
      exact hretry.2.symm
    · cases repeated with
      | true => simp [pure, Except.pure] at hrest
      | false =>
        simp only [Bool.false_eq_true, if_false, bind_eq_error] at hrest
        rcases hrest with hrevision | ⟨-, -, hrest⟩
        · unfold UiStore.revisionMatches at hrevision
          split_ifs at hrevision
          rw [Except.error.injEq, UiError.uiConflict.injEq] at hrevision
          exact hrevision.2.symm
        · rcases hrest with hrest | ⟨-, -, hrest⟩
          · exact absurd hrest hrelations
          · split at hrest
            · simp [pure, Except.pure] at hrest
            · simp only [bind_eq_error, hincrement, hprune, false_or] at hrest
              simp [pure, Except.pure] at hrest

/-- A bootstrap reads the current document. -/
theorem uiState_workspaces {requested : Option String} {fresh : String}
    {session : UiStore.UiSession} {store store' : UiStore}
    (h : store.uiState requested fresh = .ok (session, store')) :
    session.workspaces = store.workspaces.document ∧ store'.workspaces = store.workspaces := by
  refine ⟨?_, (UiStore.uiState_spec h).1⟩
  unfold UiStore.uiState at h
  dsimp only at h
  split at h
  · rw [← (Prod.mk.inj (Except.ok.inj h)).1]
  split at h
  · simp at h
  split at h
  · simp at h
  · rw [← (Prod.mk.inj (Except.ok.inj h)).1]

/-- A change leaves the sets with other identifiers. -/
theorem Change.mem_apply (change : Change) {sets : List WorkspaceSet} {set : WorkspaceSet}
    (h : set.id ≠ change.id) : set ∈ change.apply sets ↔ set ∈ sets := by
  cases change with
  | put record =>
    have hne : set ≠ record := fun heq ↦ h (by rw [heq, Change.id])
    simp only [Change.apply, List.mem_append, List.mem_filter, List.mem_singleton, hne, or_false,
      decide_eq_true_eq]
    exact and_iff_left h
  | drop id =>
    simp only [Change.apply, List.mem_filter, decide_eq_true_eq]
    exact and_iff_left h

/-! ## What tabs hold -/

variable {current next : WorkspaceDocument} {frozen : List Frozen}

/-- A tab holds documents of the server, and requests that were frozen. -/
structure TabHolds (current : WorkspaceDocument) (frozen : List Frozen) (tab : Tab) : Prop where
  workspaces : Past tab.store.workspaces current
  loaded : tab.loadedRevision ≤ tab.store.workspaces.revision
  saved : tab.store.lastSavedRevision ≤ tab.store.workspaces.revision
  pending : ∀ pending, tab.store.pendingWorkspace = some pending →
    ⟨pending.change, pending.body⟩ ∈ frozen
  awaited : ∀ number outcome, tab.awaited = some (number, some outcome) → outcome.Past current
  bootstrap : ∀ value, tab.bootstrap = some (some value) → Past value current

namespace TabHolds

variable {tab : Tab}

theorem initial : TabHolds ⟨0, []⟩ frozen .initial :=
  ⟨Past.refl _, le_rfl, le_rfl, by simp [Tab.initial, PreferencesStore.initial],
    by simp [Tab.initial], by simp [Tab.initial]⟩

theorem moves (h : TabHolds current frozen tab) (hmoves : Moves current next) :
    TabHolds next frozen tab where
  workspaces := h.workspaces.moves hmoves
  loaded := h.loaded
  saved := h.saved
  pending := h.pending
  awaited number outcome heq := (h.awaited number outcome heq).moves hmoves
  bootstrap value heq := (h.bootstrap value heq).moves hmoves

theorem grows (h : TabHolds current frozen tab) {later : List Frozen} (hsub : frozen ⊆ later) :
    TabHolds current later tab :=
  { h with pending := fun pending heq ↦ hsub (h.pending pending heq) }

/-- Taking a document that is not older. -/
theorem adopt_workspaces (h : Past tab.store.workspaces current) {value : WorkspaceDocument}
    (hvalue : Past value current) :
    Past (tab.store.adopt value).workspaces current ∧
      tab.store.workspaces.revision ≤ (tab.store.adopt value).workspaces.revision ∧
      value.revision ≤ (tab.store.adopt value).workspaces.revision := by
  unfold PreferencesStore.adopt
  split
  · rename_i hge
    exact ⟨hvalue, hge, le_rfl⟩
  · rename_i hlt
    exact ⟨h, le_rfl, by omega⟩

theorem loadState (h : TabHolds current frozen tab) {value : WorkspaceDocument}
    (hvalue : Past value current) :
    TabHolds current frozen { tab with store := tab.store.loadState value, bootstrap := none } := by
  obtain ⟨hworkspaces, hrevision, -⟩ := adopt_workspaces h.workspaces hvalue
  have hlast : (tab.store.adopt value).lastSavedRevision = tab.store.lastSavedRevision := by
    unfold PreferencesStore.adopt
    split <;> rfl
  have hpending : (tab.store.adopt value).pendingWorkspace = tab.store.pendingWorkspace := by
    unfold PreferencesStore.adopt
    split <;> rfl
  refine ⟨hworkspaces, h.loaded.trans hrevision, ?_, ?_, h.awaited, by simp⟩
  · exact (le_of_eq hlast).trans (h.saved.trans hrevision)
  · intro pending heq
    exact h.pending pending (hpending ▸ heq)

theorem settle (h : TabHolds current frozen tab) {outcome : Outcome}
    (houtcome : outcome.Past current) : TabHolds current frozen (tab.settle outcome) := by
  cases outcome with
  | saved value =>
    obtain ⟨hworkspaces, hrevision, hvalue⟩ := adopt_workspaces h.workspaces houtcome
    exact ⟨hworkspaces, h.loaded.trans hrevision, hvalue, by simp [Tab.settle, PreferencesStore.submitted],
      by simp [Tab.settle], h.bootstrap⟩
  | conflict value =>
    obtain ⟨hworkspaces, hrevision, -⟩ := adopt_workspaces h.workspaces houtcome
    have hlast : (tab.store.adopt value).lastSavedRevision = tab.store.lastSavedRevision := by
      unfold PreferencesStore.adopt
      split <;> rfl
    refine ⟨hworkspaces, h.loaded.trans hrevision, ?_,
      by simp [Tab.settle, PreferencesStore.submitted], by simp [Tab.settle], h.bootstrap⟩
    exact (le_of_eq hlast).trans (h.saved.trans hrevision)
  | refused =>
    exact ⟨h.workspaces, h.loaded, h.saved, by simp [Tab.settle, PreferencesStore.submitted],
      by simp [Tab.settle], h.bootstrap⟩
  | failed => exact ⟨h.workspaces, h.loaded, h.saved, h.pending, by simp [Tab.settle], h.bootstrap⟩

end TabHolds

/-! ## The invariant -/

structure Inv (system : System ι) : Prop where
  tabs : ∀ i, TabHolds system.server.workspaces.document system.frozen (system.tabs i)
  requests : ∀ request ∈ system.requests, ∃ frozen ∈ system.frozen, frozen.body = request.body
  fits : ∀ frozen ∈ system.frozen, frozen.Fits system.server.workspaces.document
  distinct : (system.frozen.map fun frozen ↦ frozen.body.mutationId).Nodup
  committed : ∀ commit ∈ system.commits, Committed commit.body commit.before commit.after ∧
    Past commit.after system.server.workspaces.document ∧
    ∃ frozen ∈ system.frozen, frozen.body = commit.body ∧
      commit.after.sets = frozen.change.apply commit.before.sets
  once : system.commits.Pairwise fun commit later ↦
    commit.body.mutationId = later.body.mutationId →
      commit.after = commit.before ∧ later.after = later.before

namespace Inv

variable {system system' : System ι}

theorem initial : Inv (System.initial : System ι) where
  tabs _ := TabHolds.initial
  requests := by simp [System.initial]
  fits := by simp [System.initial]
  distinct := by simp [System.initial]
  committed := by simp [System.initial]
  once := by simp [System.initial]

/-- The server goes on to another document. -/
theorem moves (h : Inv system) {server : UiStore}
    (hmoves : Moves system.server.workspaces.document server.workspaces.document) :
    Inv { system with server } where
  tabs i := (h.tabs i).moves hmoves
  requests := h.requests
  fits frozen hfrozen := (h.fits frozen hfrozen).moves hmoves
  distinct := h.distinct
  committed commit hcommit := by
    obtain ⟨hcommitted, hpast, hfrozen⟩ := h.committed commit hcommit
    exact ⟨hcommitted, hpast.moves hmoves, hfrozen⟩
  once := h.once

theorem eraseIdx (h : Inv system) (index : ℕ) :
    Inv { system with requests := system.requests.eraseIdx index } :=
  { h with requests := fun request hrequest ↦
      h.requests request ((List.eraseIdx_sublist _ _).subset hrequest) }

/-- Two requests of one mutation are the same. -/
theorem body_eq (h : Inv system) {frozen other : Frozen} (hfrozen : frozen ∈ system.frozen)
    (hother : other ∈ system.frozen)
    (hsame : frozen.body.mutationId = other.body.mutationId) : frozen = other :=
  List.inj_on_of_nodup_map h.distinct hfrozen hother hsame

variable [DecidableEq ι]

theorem setTab (h : Inv system) {i : ι} {tab : Tab}
    (htab : TabHolds system.server.workspaces.document system.frozen tab) :
    Inv (system.setTab i tab) where
  tabs j := by
    have htabs : (system.setTab i tab).tabs j = if j = i then tab else system.tabs j :=
      Function.update_apply _ _ _ _
    rw [htabs]
    split
    · exact htab
    · exact h.tabs j
  requests := h.requests
  fits := h.fits
  distinct := h.distinct
  committed := h.committed
  once := h.once

theorem reply (h : Inv system) (request : Attempt ι) {outcome : Outcome}
    (houtcome : outcome.Past system.server.workspaces.document) :
    Inv (system.reply request outcome) := by
  unfold System.reply
  dsimp only
  split
  · refine h.setTab { h.tabs request.tab with awaited := fun number other heq ↦ ?_ }
    obtain ⟨-, rfl⟩ : request.number = number ∧ outcome = other := by simpa using heq
    exact houtcome
  · exact h

/-- A tab sends a request that was frozen. -/
theorem submit (h : Inv system) {i : ι} {store : PreferencesStore}
    (hstore : TabHolds system.server.workspaces.document system.frozen
      { system.tabs i with store, awaited := none })
    (hsubmit : system.submit i store = some system') : Inv system' := by
  obtain ⟨pending, hpending, rfl⟩ := Option.map_eq_some_iff.mp hsubmit
  have htab : Inv (system.setTab i ((system.tabs i).submit store)) := h.setTab
    ⟨hstore.workspaces, hstore.loaded, hstore.saved, hstore.pending, by simp [Tab.submit],
      hstore.bootstrap⟩
  refine { htab with requests := fun request hrequest ↦ ?_ }
  rcases List.mem_append.mp hrequest with hold | hnew
  · exact h.requests request hold
  · rw [List.mem_singleton.mp hnew]
    exact ⟨_, hstore.pending pending hpending, rfl⟩

/-- A tab freezes a request that was built from its document, and sends it. -/
theorem freeze (h : Inv system) {i : ι} {store : Option PreferencesStore}
    (hstore : ∀ store', store = some store' →
      TabHolds system.server.workspaces.document system.frozen
        { system.tabs i with store := { store' with pendingWorkspace := none }, awaited := none } ∧
      ∀ pending, store'.pendingWorkspace = some pending →
        pending.body.revision ≤ store'.workspaces.revision ∧
          pending.body.sets = pending.change.apply store'.workspaces.sets)
    (hfreeze : system.freeze i store = some system') : Inv system' := by
  obtain ⟨store, rfl, hstored⟩ := Option.bind_eq_some_iff.mp hfreeze
  obtain ⟨pending, hpending, hsubmit⟩ := Option.bind_eq_some_iff.mp hstored
  split at hsubmit
  · simp at hsubmit
  rename_i hfresh
  obtain ⟨htab, hbuilt⟩ := hstore store rfl
  obtain ⟨hrevision, hsets⟩ := hbuilt pending hpending
  have hsub : system.frozen ⊆ system.frozen ++ [⟨pending.change, pending.body⟩] :=
    List.subset_append_left _ _
  refine @submit _ { system with frozen := system.frozen ++ [⟨pending.change, pending.body⟩] } _ _
    ⟨fun j ↦ (h.tabs j).grows hsub, ?_, ?_, ?_, ?_, h.once⟩ i store ?_ hsubmit
  · intro request hrequest
    obtain ⟨frozen, hfrozen, hbody⟩ := h.requests request hrequest
    exact ⟨frozen, hsub hfrozen, hbody⟩
  · intro frozen hfrozen
    rcases List.mem_append.mp hfrozen with hold | hnew
    · exact h.fits frozen hold
    · rw [List.mem_singleton.mp hnew]
      refine ⟨hrevision.trans htab.workspaces.1, fun heq ↦ ?_⟩
      -- the document of the tab has the server's revision, so it is the server's
      have hlow : store.workspaces.revision ≤ system.server.workspaces.document.revision :=
        htab.workspaces.1
      have hsame : store.workspaces = system.server.workspaces.document :=
        htab.workspaces.2 (le_antisymm hlow (heq ▸ hrevision))
      rw [← hsame]
      exact hsets
  · rw [List.map_append, List.map_singleton, List.nodup_append]
    refine ⟨h.distinct, List.nodup_singleton _, ?_⟩
    intro mutation hmutation other hother heq
    obtain ⟨frozen, hfrozen, rfl⟩ := List.mem_map.mp hmutation
    rw [List.mem_singleton.mp hother] at heq
    exact hfresh ⟨frozen, hfrozen, heq⟩
  · intro commit hcommit
    obtain ⟨hcommitted, hpast, frozen, hfrozen, hrest⟩ := h.committed commit hcommit
    exact ⟨hcommitted, hpast, frozen, hsub hfrozen, hrest⟩
  · refine ⟨htab.workspaces, htab.loaded, htab.saved, fun other hother ↦ ?_, htab.awaited,
      htab.bootstrap⟩
    obtain rfl := Option.some.inj (hpending.symm.trans hother)
    exact List.mem_append_right _ (List.mem_singleton_self _)

/-- Handling a request, with the commit it makes. -/
theorem handle (h : Inv system) {registry : Repository} {browserId : String} {request : Attempt ι}
    (hrequest : ∃ frozen ∈ system.frozen, frozen.body = request.body) :
    Inv (system.handle text readable registry browserId request) := by
  unfold System.handle
  cases hsave : system.server.saveWorkspaces text registry browserId request.body with
  | error error =>
    refine h.reply request ?_
    cases error with
    | uiConflict reason value =>
      rw [Outcome.ofAnswer]
      split
      · rw [saveWorkspaces_conflict hsave]
        exact Past.refl _
      · trivial
    | uiBootstrap reason => trivial
    | invalidInput reason => trivial
    | sqlite => trivial
  | ok result =>
    obtain ⟨document, server⟩ := result
    obtain ⟨hdocument, hmoves, hcommits⟩ := saveWorkspaces_commits hsave
    subst hdocument
    have hmoved := h.moves hmoves
    have hanswer : (Outcome.ofAnswer readable (.ok server.workspaces.document)).Past
        server.workspaces.document := by
      rw [Outcome.ofAnswer]
      split
      · exact Past.refl _
      · trivial
    dsimp only
    split
    · exact hmoved.reply request hanswer
    · rename_i hfresh
      obtain ⟨frozen, hfrozen, hbody⟩ := hrequest
      have hcommit := hcommits hfresh
      have hfits : request.body.sets =
          frozen.change.apply system.server.workspaces.document.sets := by
        rw [← hbody]
        exact (h.fits frozen hfrozen).2 (by rw [hbody]; exact hcommit.revision)
      refine @reply _ { system with server, commits := system.commits ++ _ } _
        { hmoved with committed := fun commit hmem ↦ ?_, once := ?_ } request _ hanswer
      · rcases List.mem_append.mp hmem with hold | hnew
        · exact hmoved.committed commit hold
        · rw [List.mem_singleton.mp hnew]
          refine ⟨hcommit, Past.refl _, frozen, hfrozen, hbody, ?_⟩
          exact hcommit.sets.trans hfits
      · refine List.pairwise_append.mpr ⟨h.once, List.pairwise_singleton _ _, ?_⟩
        intro commit hold later hlater hsame
        rw [List.mem_singleton.mp hlater] at hsame ⊢
        obtain ⟨hcommitted, hpast, other, hother, hbody', -⟩ := h.committed commit hold
        obtain rfl := h.body_eq hother hfrozen (by rw [hbody, hbody']; exact hsame)
        have heq : commit.body = request.body := hbody'.symm.trans hbody
        -- the earlier commit carried the revision the server still has
        have hrevision : commit.before.revision = system.server.workspaces.document.revision := by
          rw [← hcommitted.revision, heq]
          exact hcommit.revision
        have hstill : commit.after.revision = commit.before.revision := by
          have hle := hpast.1
          rcases hcommitted.moves with hkept | hnext
          · rw [hkept]
          · omega
        have hcurrent : commit.after = system.server.workspaces.document :=
          hpast.2 (hstill.trans hrevision)
        refine ⟨hcommitted.eq_of_revision hstill, hcommit.kept ?_⟩
        rw [← hcurrent, hcommitted.sets, heq]

/-- Every event keeps the invariant. -/
theorem step (h : Inv system) {event : Event ι}
    (hstep : system.step text readable event = some system') : Inv system' := by
  cases event with
  | bootstrap i =>
    simp only [System.step] at hstep
    split at hstep
    · exact Option.some.inj hstep ▸ h
    · rw [← Option.some.inj hstep]
      exact h.setTab { h.tabs i with bootstrap := by simp }
  | serveState i requested fresh =>
    simp only [System.step] at hstep
    split at hstep
    · rename_i session server _ hstate
      rw [← Option.some.inj hstep]
      obtain ⟨hsession, hworkspaces⟩ := uiState_workspaces hstate
      have hmoves : Moves system.server.workspaces.document server.workspaces.document :=
        Or.inl (by rw [hworkspaces])
      refine (h.moves hmoves).setTab { (h.tabs i).moves hmoves with bootstrap := fun value heq ↦ ?_ }
      rw [Option.some.injEq, Option.some.injEq] at heq
      rw [← heq, hsession, ← hworkspaces]
      exact Past.refl _
    · simp at hstep
  | loadState i =>
    simp only [System.step] at hstep
    split at hstep
    · rename_i value hvalue
      split at hstep
      · rw [← Option.some.inj hstep]
        exact h.setTab ((h.tabs i).loadState ((h.tabs i).bootstrap value hvalue))
      · simp at hstep
    · simp at hstep
  | loseState i =>
    rw [← Option.some.inj hstep]
    exact h.setTab { h.tabs i with bootstrap := by simp }
  | «open» i =>
    rw [← Option.some.inj hstep]
    exact h.setTab { h.tabs i with loaded := le_rfl }
  | reopen i =>
    rw [← Option.some.inj hstep]
    exact h.setTab { h.tabs i with loaded := (h.tabs i).saved }
  | save i name experimentId layout loaded id fresh mutationId =>
    refine h.freeze (fun store hstore ↦ ?_) hstep
    unfold PreferencesStore.save at hstore
    dsimp only at hstore
    split_ifs at hstore
    all_goals
      obtain rfl := Option.some.inj hstore
      refine ⟨⟨(h.tabs i).workspaces, (h.tabs i).loaded, (h.tabs i).saved, by simp, by simp,
        (h.tabs i).bootstrap⟩, fun pending hpending ↦ ?_⟩
      obtain rfl := Option.some.inj hpending
    · exact ⟨(h.tabs i).loaded, rfl⟩
    · exact ⟨le_rfl, rfl⟩
  | remove i id mutationId =>
    refine h.freeze (fun store hstore ↦ ?_) hstep
    unfold PreferencesStore.remove at hstore
    split_ifs at hstore
    obtain rfl := Option.some.inj hstore
    refine ⟨⟨(h.tabs i).workspaces, (h.tabs i).loaded, (h.tabs i).saved, by simp, by simp,
      (h.tabs i).bootstrap⟩, fun pending hpending ↦ ?_⟩
    obtain rfl := Option.some.inj hpending
    exact ⟨le_rfl, rfl⟩
  | retrySave i =>
    obtain ⟨store, hstore, hsubmit⟩ := Option.bind_eq_some_iff.mp hstep
    unfold PreferencesStore.retrySave at hstore
    split_ifs at hstore
    obtain rfl := Option.some.inj hstore
    refine h.submit ?_ hsubmit
    exact ⟨(h.tabs i).workspaces, (h.tabs i).loaded, (h.tabs i).saved, (h.tabs i).pending, by simp,
      (h.tabs i).bootstrap⟩
  | handle index registry browserId =>
    obtain ⟨request, hrequest, rfl⟩ := Option.map_eq_some_iff.mp hstep
    exact (h.eraseIdx index).handle (h.requests request (List.mem_of_getElem? hrequest))
  | lose index => exact Option.some.inj hstep ▸ h.eraseIdx index
  | turnAway index outcome =>
    simp only [System.step] at hstep
    split at hstep
    · rename_i houtcome
      obtain ⟨request, -, rfl⟩ := Option.map_eq_some_iff.mp hstep
      refine (h.eraseIdx index).reply request ?_
      rcases houtcome with rfl | rfl <;> trivial
    · simp at hstep
  | arrive i =>
    simp only [System.step] at hstep
    split at hstep
    · rename_i number outcome hawaited
      rw [← Option.some.inj hstep]
      exact h.setTab ((h.tabs i).settle ((h.tabs i).awaited number outcome hawaited))
    · simp at hstep
  | giveUp i =>
    simp only [System.step] at hstep
    split at hstep
    · rw [← Option.some.inj hstep]
      exact h.setTab ((h.tabs i).settle trivial)
    · simp at hstep
  | finish i =>
    simp only [System.step] at hstep
    split at hstep
    · rw [← Option.some.inj hstep]
      exact h.setTab ⟨(h.tabs i).workspaces, (h.tabs i).loaded, (h.tabs i).saved,
        (h.tabs i).pending, (h.tabs i).awaited, (h.tabs i).bootstrap⟩
    · simp at hstep
  | other request =>
    have hmoves : Moves system.server.workspaces.document
        (system.server.step text request).workspaces.document := by
      cases UiStore.step_workspaceMoved text system.server request with
      | kept hafter => exact Or.inl hafter
      | saved _ _ hafter => exact Or.inr (by rw [hafter])
    simp only [System.step] at hstep
    split at hstep
    · simp at hstep
    · rw [← Option.some.inj hstep]
      exact h.moves hmoves

end Inv

/-- Every commit makes the change of one save or removal to the document stored immediately before
it, and leaves every other set as it was.  Where a mutation is committed twice, neither commit
changes the document. -/
theorem saves_isolated [DecidableEq ι] {events : List (Event ι)} {system : System ι}
    (h : System.initial.run text readable events = some system) :
    (∀ commit ∈ system.commits, ∃ frozen ∈ system.frozen, frozen.body = commit.body ∧
      commit.after.sets = frozen.change.apply commit.before.sets ∧
      ∀ set : WorkspaceSet, set.id ≠ frozen.change.id →
        (set ∈ commit.after.sets ↔ set ∈ commit.before.sets)) ∧
    (system.frozen.map fun frozen ↦ frozen.body.mutationId).Nodup ∧
    system.commits.Pairwise fun commit later ↦
      commit.body.mutationId = later.body.mutationId →
        commit.after = commit.before ∧ later.after = later.before := by
  have hinv := Runs.invariant Inv (fun hstate hstep ↦ hstate.step hstep) Inv.initial h
  refine ⟨fun commit hcommit ↦ ?_, hinv.distinct, hinv.once⟩
  obtain ⟨-, -, frozen, hfrozen, hbody, hsets⟩ := hinv.committed commit hcommit
  refine ⟨frozen, hfrozen, hbody, hsets, fun set hset ↦ ?_⟩
  rw [hsets]
  exact frozen.change.mem_apply hset

/-- The texts of requests with one set. -/
def sampleRequestText : RequestText where
  workspaces input := "\x7b\"revision\":" ++ toString input.revision ++ ",\"mutation_id\":\"" ++
    input.mutationId ++ "\",\"sets\":[\x7b\"id\":\"set_1\",\"name\":\"Board\"," ++
    "\"experimentId\":\"experiment_1\",\"panels\":[],\"sections\":[\x7b\"id\":\"main\"," ++
    "\"name\":\"\",\"collapsed\":false\x7d]\x7d]\x7d"
  browser _ := ""

def sampleReadable : WorkspaceDocument → Bool := validWorkspaceDocument fun _ ↦ true

/-- A tab saves its board, and knows of it. -/
def sampleSave (tab : ℕ) (mutationId : String) : List (Event ℕ) :=
  [.bootstrap tab, .serveState tab (some UiStore.sampleBrowser) UiStore.sampleBrowser,
    .loadState tab, .save tab "Board" "experiment_1" ⟨[], [⟨"main", "", false⟩]⟩ false none "set_1"
      mutationId, .handle 0 UiStore.sampleRegistry UiStore.sampleBrowser]

/-- A first save, and a second one that changes nothing and whose reply is lost. -/
def sampleLost : List (Event ℕ) :=
  sampleSave 0 "first" ++ [.arrive 0, .finish 0] ++ sampleSave 0 "second" ++ [.giveUp 0]

theorem saves_isolated_sample :
    ∃ system : System ℕ,
      System.initial.run sampleRequestText sampleReadable sampleLost = some system ∧
      system.commits.map (fun commit ↦ (commit.before.revision, commit.after.revision)) =
        [(0, 1), (1, 1)] ∧
      ∀ commit ∈ system.commits, ∃ frozen ∈ system.frozen, frozen.body = commit.body ∧
        commit.after.sets = frozen.change.apply commit.before.sets := by
  have hrun : ((System.initial : System ℕ).run sampleRequestText sampleReadable sampleLost).map
      (fun system ↦
        system.commits.map fun commit ↦ (commit.before.revision, commit.after.revision)) =
      some [(0, 1), (1, 1)] := by decide +kernel
  obtain ⟨system, hsystem, hcommits⟩ := Option.map_eq_some_iff.mp hrun
  refine ⟨system, hsystem, hcommits, fun commit hcommit ↦ ?_⟩
  obtain ⟨frozen, hfrozen, hbody, hsets, -⟩ := (saves_isolated hsystem).1 commit hcommit
  exact ⟨frozen, hfrozen, hbody, hsets⟩

/-- The second save is committed, another tab commits one that changes nothing either, and the
retry of the second save is committed again. -/
theorem unchanged_save_commits_twice :
    ((System.initial : System ℕ).run sampleRequestText sampleReadable
      (sampleLost ++ sampleSave 1 "other" ++
        [.retrySave 0, .handle 0 UiStore.sampleRegistry UiStore.sampleBrowser])).map
      (fun system ↦ (system.commits.map fun commit ↦ commit.body.mutationId)) =
    some ["first", "second", "other", "second"] := by decide +kernel

end Rvx.Web
