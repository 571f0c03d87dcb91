import Rvx.Registry.UiContract
import Rvx.Registry.UiSelections
import Rvx.Web.BrowserPreferences
import Rvx.Web.SavesIsolated

/-!
# No choice of a browser is lost

What the tab holds, its pending choices below its queued ones, gives the latest choices over any
document it may take: the server's, its own, and every reply on its way.  An equal revision means
an equal document.
-/

namespace Rvx.Web

open Core Check Registry

/-! ## Patches -/

namespace BrowserPatch

variable {patch newer : BrowserPatch} {browser : BrowserPreferences}

@[simp]
theorem empty_apply (browser : BrowserPreferences) : empty.apply browser = browser := rfl

@[simp]
theorem empty_merge (patch : BrowserPatch) : empty.merge patch = patch := by
  simp [merge, empty]

@[simp]
theorem merge_empty (patch : BrowserPatch) : patch.merge empty = patch := rfl

theorem merge_apply (patch newer : BrowserPatch) (browser : BrowserPreferences) :
    (patch.merge newer).apply browser = newer.apply (patch.apply browser) := by
  simp only [apply, merge, BrowserPreferences.mk.injEq, true_and]
  refine ⟨?_, ?_, ?_, ?_⟩
  · cases newer.theme <;> rfl
  · cases newer.sidebarWidth <;> rfl
  · cases newer.selected <;> rfl
  · cases newer.runColors <;> rfl

theorem merge_assoc (patch newer newest : BrowserPatch) :
    (patch.merge newer).merge newest = patch.merge (newer.merge newest) := by
  simp [merge, Option.or_assoc]

/-- Choices that were made stay made. -/
theorem apply_apply (patch : BrowserPatch) (browser : BrowserPreferences) :
    patch.apply (patch.apply browser) = patch.apply browser := by
  simp only [apply, BrowserPreferences.mk.injEq, true_and]
  refine ⟨?_, ?_, ?_, ?_⟩
  · cases patch.theme <;> rfl
  · cases patch.sidebarWidth <;> rfl
  · cases patch.selected <;> rfl
  · cases patch.runColors <;> rfl

/-- The chosen selections without those that fail a test. -/
def retain (keep : String → String → Bool) (patch : BrowserPatch) : BrowserPatch :=
  { patch with selected := patch.selected.map fun selected ↦ selected.retain keep }

end BrowserPatch

/-- The selections of a document, if they are chosen, without those that fail a test. -/
def retained (keep : String → String → Bool) (queued : BrowserPatch)
    (browser : BrowserPreferences) : BrowserPreferences :=
  if queued.selected.isSome then { browser with selected := browser.selected.retain keep }
  else browser

theorem BrowserPatch.merge_retain_apply (keep : String → String → Bool)
    (patch queued : BrowserPatch) (browser : BrowserPreferences) :
    (patch.merge (queued.retain keep)).apply browser =
      retained keep queued ((patch.merge queued).apply browser) := by
  unfold retained BrowserPatch.retain
  cases hselected : queued.selected <;> simp [BrowserPatch.merge, BrowserPatch.apply, hselected]

/-! ## Latest choices -/

/-- A document has the latest choices, except for selections of sets that were gone. -/
structure Kept (choices : Choices) (gone : String → String → Prop)
    (browser : BrowserPreferences) : Prop where
  theme : ∀ chosen, choices.theme = some chosen → browser.theme = chosen
  sidebarWidth : ∀ chosen, choices.sidebarWidth = some chosen → browser.sidebarWidth = chosen
  selected : ∀ experiment chosen, choices.selected experiment = some chosen →
    browser.selected.get? experiment = chosen ∨
      browser.selected.get? experiment = none ∧ ∃ id, chosen = some id ∧ gone experiment id
  runColors : ∀ chosen, choices.runColors = some chosen → browser.runColors = chosen

namespace Kept

variable {choices : Choices} {gone gone' : String → String → Prop}
  {browser browser' : BrowserPreferences}

theorem none (browser : BrowserPreferences) : Kept .none gone browser :=
  ⟨by simp [Choices.none], by simp [Choices.none], by simp [Choices.none], by simp [Choices.none]⟩

theorem of_fields (h : Kept choices gone browser) (revision : ℕ) :
    Kept choices gone { browser with revision } :=
  ⟨h.theme, h.sidebarWidth, h.selected, h.runColors⟩

theorem mono (h : Kept choices gone browser)
    (hgone : ∀ experiment id, gone experiment id → gone' experiment id) :
    Kept choices gone' browser where
  theme := h.theme
  sidebarWidth := h.sidebarWidth
  selected experiment chosen hchosen := by
    rcases h.selected experiment chosen hchosen with hsame | ⟨hnone, id, hid, hmissing⟩
    · exact Or.inl hsame
    · exact Or.inr ⟨hnone, id, hid, hgone experiment id hmissing⟩
  runColors := h.runColors

/-- Newer choices over a document that has the older ones. -/
theorem update (h : Kept choices gone browser) (patch : BrowserPatch) :
    Kept (choices.update patch) (if patch.selected.isSome then fun _ _ ↦ False else gone)
      (patch.apply browser) where
  theme chosen hchosen := by
    simp only [Choices.update, BrowserPatch.apply] at hchosen ⊢
    cases hpatch : patch.theme with
    | none => exact h.theme chosen (by simpa [hpatch] using hchosen)
    | some theme => simpa [hpatch] using hchosen
  sidebarWidth chosen hchosen := by
    simp only [Choices.update, BrowserPatch.apply] at hchosen ⊢
    cases hpatch : patch.sidebarWidth with
    | none => exact h.sidebarWidth chosen (by simpa [hpatch] using hchosen)
    | some width => simpa [hpatch] using hchosen
  selected experiment chosen hchosen := by
    simp only [Choices.update, BrowserPatch.apply] at hchosen ⊢
    cases hpatch : patch.selected with
    | none => simpa [hpatch] using h.selected experiment chosen (by simpa [hpatch] using hchosen)
    | some selected => exact Or.inl (by simpa [hpatch] using hchosen)
  runColors chosen hchosen := by
    simp only [Choices.update, BrowserPatch.apply] at hchosen ⊢
    cases hpatch : patch.runColors with
    | none => exact h.runColors chosen (by simpa [hpatch] using hchosen)
    | some colors => simpa [hpatch] using hchosen

/-- Dropping selections that fail a test. -/
theorem retain (h : Kept choices gone browser) (keep : String → String → Bool) :
    Kept choices (fun experiment id ↦ gone experiment id ∨ keep experiment id = false)
      { browser with selected := browser.selected.retain keep } where
  theme := h.theme
  sidebarWidth := h.sidebarWidth
  selected experiment chosen hchosen := by
    dsimp only
    have hretain (id : String) : (browser.selected.retain keep).get? experiment = some id ↔
        browser.selected.get? experiment = some id ∧ keep experiment id = true :=
      OrderedMap.get?_retain
    cases hafter : (browser.selected.retain keep).get? experiment with
    | some id =>
      have hid := ((hretain id).mp hafter).1
      rcases h.selected experiment chosen hchosen with hsame | ⟨hnone, -⟩
      · exact Or.inl (hid.symm.trans hsame)
      · rw [hid] at hnone
        cases hnone
    | none =>
      rcases h.selected experiment chosen hchosen with hsame | ⟨-, id, hid, hmissing⟩
      · cases chosen with
        | none => exact Or.inl rfl
        | some id =>
          -- the chosen set was there, so the test dropped it
          have hkeep : ¬ keep experiment id = true := fun hkeep ↦ by
            have hsome := (hretain id).mpr ⟨hsame, hkeep⟩
            rw [hafter] at hsome
            cases hsome
          exact Or.inr ⟨rfl, id, rfl, Or.inr (Bool.eq_false_iff.mpr hkeep)⟩
      · exact Or.inr ⟨rfl, id, hid, Or.inl hmissing⟩
  runColors := h.runColors

theorem retained (h : Kept choices gone browser) (keep : String → String → Bool)
    (queued : BrowserPatch) :
    Kept choices (fun experiment id ↦ gone experiment id ∨ keep experiment id = false)
      (retained keep queued browser) := by
  unfold Web.retained
  split
  · exact h.retain keep
  · exact h.mono fun _ _ ↦ Or.inl

end Kept

/-- The selections after one more. -/
theorem BrowserStore.get?_select (store : BrowserStore) (experimentId : String)
    (id : Option String) (experiment : String) :
    (store.select experimentId id).get? experiment =
      if experiment = experimentId then id else store.selected.get? experiment := by
  unfold BrowserStore.select
  cases id with
  | some id =>
    rw [OrderedMap.get?_insert]
  | none =>
    ext set
    rw [OrderedMap.get?_retain]
    split <;> simp_all

/-- One more selection over a document that has the older choices, when the selections were made
from one that has them too. -/
theorem Kept.select {choices : Choices} {gone : String → String → Prop}
    {browser : BrowserPreferences} {store : BrowserStore} (h : Kept choices gone browser)
    (hstore : Kept choices gone (store.queuedBrowser.apply store.browser)) (experimentId : String)
    (id : Option String) :
    Kept (choices.select experimentId id)
      (fun experiment set ↦ experiment ≠ experimentId ∧ gone experiment set)
      ((BrowserPatch.ofSelected (store.select experimentId id)).apply browser) where
  theme := h.theme
  sidebarWidth := h.sidebarWidth
  selected experiment chosen hchosen := by
    change (store.select experimentId id).get? experiment = chosen ∨ _
    simp only [BrowserPatch.apply, BrowserPatch.ofSelected, BrowserPatch.empty, Option.getD_some,
      BrowserStore.get?_select]
    by_cases hsame : experiment = experimentId
    · subst hsame
      simp only [Choices.select, Function.update_self, Option.some.injEq] at hchosen
      exact Or.inl (by rw [if_pos rfl]; exact hchosen)
    · simp only [Choices.select, Function.update_of_ne hsame] at hchosen
      simp only [if_neg hsame]
      rcases hstore.selected experiment chosen hchosen with heq | ⟨hnone, set, hset, hmissing⟩
      · exact Or.inl heq
      · exact Or.inr ⟨hnone, set, hset, hsame, hmissing⟩
  runColors := h.runColors

/-! ## The server -/

section Server

variable {text : RequestText} {registry : Repository} {browserId : String} {server : UiStore}
  {row : Stored BrowserPreferences} {value current : BrowserPreferences}

/-- Preferences the server had. -/
def Older (value current : BrowserPreferences) : Prop :=
  value.revision ≤ current.revision ∧ (value.revision = current.revision → value = current)

theorem Older.refl (current : BrowserPreferences) : Older current current :=
  ⟨le_rfl, fun _ ↦ rfl⟩

/-- Pruning keeps a row or gives it a new revision. -/
theorem pruned_eq_or (document : WorkspaceDocument) (row : Stored BrowserPreferences) :
    UiStore.pruned document row = row ∨
      UiStore.pruned document row = ⟨{ row.document with
        selected := row.document.selected.retain (UiStore.selects document)
        revision := row.document.revision + 1 }, none, none⟩ := by
  rcases UiStore.pruned_cases document row with ⟨-, hsame⟩ | ⟨-, hlost⟩
  · exact Or.inl hsame
  · exact Or.inr hlost

theorem Older.pruned (h : Older value row.document) (document : WorkspaceDocument) :
    Older value (UiStore.pruned document row).document := by
  rcases pruned_eq_or document row with hsame | hlost
  · rwa [hsame]
  · rw [hlost]
    refine ⟨h.1.trans (Nat.le_succ _), fun heq ↦ ?_⟩
    have hle := h.1
    dsimp only at heq
    omega

theorem Kept.pruned {choices : Choices} {gone : String → String → Prop} {patch : BrowserPatch}
    (h : Kept choices gone (patch.apply row.document)) (document : WorkspaceDocument) :
    Kept choices
      (fun experiment set ↦ gone experiment set ∨ UiStore.selects document experiment set = false)
      (patch.apply (UiStore.pruned document row).document) := by
  rcases pruned_eq_or document row with hsame | hlost
  · rw [hsame]
    exact h.mono fun _ _ ↦ Or.inl
  · rw [hlost]
    cases hpatch : patch.selected with
    | none =>
      have hretain := (h.retain (UiStore.selects document)).of_fields (row.document.revision + 1)
      simpa [BrowserPatch.apply, hpatch] using hretain
    | some selected =>
      have hfields := (h.mono fun experiment set ↦ @Or.inl _
        (UiStore.selects document experiment set = false)).of_fields (row.document.revision + 1)
      simpa [BrowserPatch.apply, hpatch] using hfields

/-- The requests of others keep the row of a browser or prune it. -/
theorem step_browserRow {request : UiStore.UiRequest}
    (hother : Browsing.writesBrowser browserId request = false)
    (hrow : server.browserRow browserId = some row) :
    (server.step text request).browserRow browserId = some row ∨
      (server.step text request).browserRow browserId =
        some (UiStore.pruned (server.step text request).workspaces.document row) := by
  obtain ⟨registry, call⟩ := request
  rcases UiStore.step_eq text server ⟨registry, call⟩ with hsame | hperform
  · rw [hsame]
    exact Or.inl hrow
  generalize server.step text ⟨registry, call⟩ = after at hperform ⊢
  cases call with
  | uiState requested fresh =>
    obtain ⟨⟨session, other⟩, hstate, rfl⟩ := Option.map_eq_some_iff.mp hperform
    exact Or.inl ((UiStore.uiState_spec (toOption_eq_some.mp hstate)).2 browserId row hrow)
  | saveWorkspaces sender input =>
    obtain ⟨document, hsaved⟩ := UiStore.perform_saveWorkspaces hperform
    cases hsaved with
    | repeated _ _ hstore => exact Or.inl (by rw [hstore]; exact hrow)
    | unchanged _ _ hbrowsers =>
      refine Or.inl ?_
      rw [UiStore.browserRow, hbrowsers]
      exact hrow
    | changed hrevision hworkspaces hbrowsers =>
      refine Or.inr ?_
      rw [UiStore.browserRow_of_pruned hbrowsers, hrow, hworkspaces]
      rfl
  | saveBrowserPreferences id input =>
    have hne : browserId ≠ id := fun heq ↦ by simp [Browsing.writesBrowser, heq] at hother
    obtain ⟨stored, document, -, hsaved⟩ := UiStore.perform_saveBrowserPreferences hperform
    cases hsaved with
    | repeated _ _ hstore => exact Or.inl (by rw [hstore]; exact hrow)
    | written _ _ _ hstore =>
      refine Or.inl ?_
      rw [hstore, UiStore.browserRow_setBrowser, if_neg hne]
      exact hrow

/-- A bootstrap reads the stored preferences. -/
theorem uiState_browser {fresh : String} {session : UiStore.UiSession} {server' : UiStore}
    (hvalid : validBrowserId browserId = true)
    (hrow : server.browserRow browserId = some row)
    (h : server.uiState (some browserId) fresh = .ok (session, server')) :
    session.browser = row.document ∧ server' = server := by
  simp only [UiStore.uiState, Option.filter, hvalid, if_true, Option.bind_some, hrow,
    Option.map_some, Except.ok.injEq, Prod.mk.injEq] at h
  exact ⟨by rw [← h.1], h.2.symm⟩

/-- A conflict shows the current preferences. -/
theorem saveBrowserPreferences_conflict {reason : String} {input : SaveBrowserPreferences}
    (hrow : server.browserRow browserId = some row)
    (h : server.saveBrowserPreferences text registry browserId input =
      .error (.uiConflict reason current)) : current = row.document := by
  have hincrement (revision : ℕ) :
      (UiStore.increment revision : Except (UiError BrowserPreferences) ℕ) ≠
        .error (.uiConflict reason current) := by
    unfold UiStore.increment
    split <;> simp
  have hcolors : (UiStore.validateRunColors registry input :
      Except (UiError BrowserPreferences) Unit) ≠ .error (.uiConflict reason current) := by
    refine forM_ne_conflict fun id ↦ ?_
    unfold reject
    split <;> simp
  simp only [UiStore.saveBrowserPreferences, bind_eq_error] at h
  rcases h with hbrowser | ⟨stored, hstored, hvalidate | ⟨-, -, hpayload | ⟨payload, -, hrest⟩⟩⟩
  · unfold UiStore.requireBrowser at hbrowser
    rw [hrow] at hbrowser
    split at hbrowser <;> simp at hbrowser
  · cases hvalid : input.validate <;> simp [hvalid, Except.mapError] at hvalidate
  · unfold UiStore.boundedPayload at hpayload
    split at hpayload <;> simp at hpayload
  obtain rfl := Option.some.inj (hrow.symm.trans (UiStore.requireBrowser_ok.mp hstored).2)
  rcases hrest with hretry | ⟨repeated, -, hrest⟩
  · unfold UiStore.retry at hretry
    split_ifs at hretry
    rw [Except.error.injEq, UiError.uiConflict.injEq] at hretry
    exact hretry.2.symm
  cases repeated with
  | true => simp [pure, Except.pure] at hrest
  | false =>
    simp only [Bool.false_eq_true, if_false, bind_eq_error] at hrest
    rcases hrest with hrevision | ⟨-, -, hrest⟩
    · unfold UiStore.revisionMatches at hrevision
      split_ifs at hrevision
      rw [Except.error.injEq, UiError.uiConflict.injEq] at hrevision
      exact hrevision.2.symm
    rcases hrest with hselected | ⟨-, -, hrest⟩
    · unfold reject at hselected
      split at hselected <;> simp at hselected
    rcases hrest with hrest | ⟨-, -, hrest⟩
    · exact absurd hrest hcolors
    · split at hrest <;>
        simp [bind_eq_error, pure, Except.pure, hincrement] at hrest

end Server

/-! ## The invariant -/

theorem Bootstrap.request_eq (bootstrap : Bootstrap) :
    bootstrap.request = bootstrap ∨ bootstrap.request = .requested := by
  cases bootstrap with
  | absent => exact Or.inr rfl
  | requested => exact Or.inl rfl
  | answered workspaces browser => exact Or.inl rfl
  | loaded => exact Or.inl rfl
  | failed => exact Or.inl rfl

/-- What a reply to the pending write brings. -/
def Replies (choices : Choices) (gone : String → String → Prop) (store : BrowserStore)
    (bootstrap : Bootstrap) (current : BrowserPreferences) : WriteOutcome → Prop
  | .accepted value =>
    Older value current ∧ Kept choices gone (store.queuedBrowser.apply value) ∧
      Kept choices gone (store.queuedBrowser.apply current) ∧
      ∀ workspaces browser, bootstrap = .answered workspaces browser →
        value.revision ≤ browser.revision → Kept choices gone (store.queuedBrowser.apply browser)
  | .conflict value =>
    Older value current ∧ store.browser.revision ≤ value.revision ∧
      Kept choices gone (store.held.apply value)
  | .refused => True
  | .unauthorized => True
  | .failed => True

/-- What is known of the pending write: the document of the tab has its choices, it asks for them
over the stored document as long as its revision is the stored one, and if it is the mutation that
was stored last, then the newer choices are all that is not committed. -/
structure Freezes (choices : Choices) (gone : String → String → Prop)
    (browser : BrowserPreferences) (queued : BrowserPatch) (row : Stored BrowserPreferences)
    (pending : PendingBrowser) : Prop where
  chosen : pending.patch.apply browser = browser
  revision : pending.body.revision ≤ row.document.revision
  requested : pending.body.revision = row.document.revision →
    UiStore.requestedPreferences pending.body.revision pending.body =
      pending.patch.apply row.document
  repeated : row.mutationId = some pending.body.mutationId →
    Kept choices gone (queued.apply row.document)

/-- The loop awaits the pending write exactly while it writes. -/
structure Drains (drain : Drain) (pendingBrowser : Option PendingBrowser) (writes : List Write) :
    Prop where
  writing : drain = .writing → ∃ pending outcome,
    pendingBrowser = some pending ∧ writes = [⟨pending.body, outcome⟩]
  idle : drain ≠ .writing → writes = []

theorem Drains.writing_of_writes {drain : Drain} {pendingBrowser : Option PendingBrowser}
    {writes : List Write} (h : Drains drain pendingBrowser writes) (hwrites : writes ≠ []) :
    drain = .writing := by
  by_contra hidle
  exact hwrites (h.idle hidle)

structure BrowserInv (browserId : String) (row : Stored BrowserPreferences) (system : Browsing) :
    Prop where
  stored : system.server.browserRow browserId = some row
  drain : Drains system.store.browserDrain system.store.pendingBrowser system.writes
  server : Kept system.choices system.gone (system.store.held.apply row.document)
  browser : Kept system.choices system.gone
    (system.store.queuedBrowser.apply system.store.browser)
  revision : system.store.browser.revision ≤ row.document.revision
  unready : system.store.ready = false → system.store.browser.revision = 0 ∧
    system.store.pendingBrowser = none ∧ system.store.browserDrain = .absent
  same : system.store.ready = true → system.store.browser.revision = row.document.revision →
    system.store.held.apply system.store.browser = system.store.held.apply row.document
  frozen : ∀ pending, system.store.pendingBrowser = some pending →
    Freezes system.choices system.gone system.store.browser system.store.queuedBrowser row pending
  answered : ∀ workspaces browser, system.bootstrap = .answered workspaces browser →
    Older browser row.document ∧ (system.store.browser.revision ≤ browser.revision →
      Kept system.choices system.gone (system.store.held.apply browser))
  reply : ∀ write ∈ system.writes, ∀ outcome, write.outcome = some outcome →
    Replies system.choices system.gone system.store system.bootstrap row.document outcome
  uncertain : ∀ body, system.uncertain = some body →
    ∃ pending, system.store.pendingBrowser = some pending ∧ pending.body = body

namespace BrowserInv

variable {text : RequestText} {readable : WorkspaceDocument → Bool} {browserId mutationId : String}
  {row : Stored BrowserPreferences} {system system' : Browsing}

theorem held_of_pending {store : BrowserStore} {pending : PendingBrowser}
    (h : store.pendingBrowser = some pending) :
    store.held = pending.patch.merge store.queuedBrowser := by
  simp [BrowserStore.held, h]

theorem held_of_none {store : BrowserStore} (h : store.pendingBrowser = none) :
    store.held = store.queuedBrowser := by
  simp [BrowserStore.held, h]

theorem start {server : UiStore} {theme : Theme}
    (hrow : server.browserRow browserId = some row) :
    BrowserInv browserId row (.start server theme) where
  stored := hrow
  drain := ⟨fun h ↦ by simp [Browsing.start, BrowserStore.initial] at h, fun _ ↦ rfl⟩
  server := Kept.none _
  browser := Kept.none _
  revision := Nat.zero_le _
  unready _ := ⟨rfl, rfl, rfl⟩
  same hready := by simp [Browsing.start, BrowserStore.initial] at hready
  frozen := by simp [Browsing.start, BrowserStore.initial]
  answered := by simp [Browsing.start]
  reply := by simp [Browsing.start]
  uncertain := by simp [Browsing.start]

/-- New choices, or fewer selections, in the queue. -/
theorem requeue (h : BrowserInv browserId row system) {queued : BrowserPatch}
    {gone : String → String → Prop} (choices : Choices) (change : BrowserPreferences → BrowserPreferences)
    (hchange : ∀ patch browser, (BrowserPatch.merge patch queued).apply browser =
      change ((patch.merge system.store.queuedBrowser).apply browser))
    (hkept : ∀ browser, Kept system.choices system.gone browser →
      Kept choices gone (change browser)) :
    BrowserInv browserId row { system with
      store := { system.store with queuedBrowser := queued }, choices, gone } := by
  have hheld (browser : BrowserPreferences) :
      ({ system.store with queuedBrowser := queued } : BrowserStore).held.apply browser =
        change (system.store.held.apply browser) := hchange _ browser
  have hqueued (browser : BrowserPreferences) :
      queued.apply browser = change (system.store.queuedBrowser.apply browser) := by
    have hempty := hchange .empty browser
    rwa [BrowserPatch.empty_merge, BrowserPatch.empty_merge] at hempty
  exact {
    stored := h.stored
    drain := ⟨h.drain.writing, h.drain.idle⟩
    server := by
      rw [hheld]
      exact hkept _ h.server
    browser := by
      rw [hqueued]
      exact hkept _ h.browser
    revision := h.revision
    unready := h.unready
    same := fun hready heq ↦ by
      rw [hheld, hheld, h.same hready heq]
    frozen := fun pending hpending ↦ by
      have hfrozen := h.frozen pending hpending
      refine ⟨hfrozen.chosen, hfrozen.revision, hfrozen.requested, fun hid ↦ ?_⟩
      rw [hqueued]
      exact hkept _ (hfrozen.repeated hid)
    answered := fun workspaces browser hanswered ↦ by
      obtain ⟨holder, hread⟩ := h.answered workspaces browser hanswered
      refine ⟨holder, fun hle ↦ ?_⟩
      rw [hheld]
      exact hkept _ (hread hle)
    reply := fun write hwrite outcome houtcome ↦ by
      have hreply := h.reply write hwrite outcome houtcome
      cases outcome with
      | accepted value =>
        obtain ⟨holder, hvalue, hcurrent, hread⟩ := hreply
        refine ⟨holder, ?_, ?_, fun workspaces browser hanswered hle ↦ ?_⟩
        · rw [hqueued]
          exact hkept _ hvalue
        · rw [hqueued]
          exact hkept _ hcurrent
        · rw [hqueued]
          exact hkept _ (hread workspaces browser hanswered hle)
      | conflict value =>
        obtain ⟨holder, hle, hvalue⟩ := hreply
        refine ⟨holder, hle, ?_⟩
        rw [hheld]
        exact hkept _ hvalue
      | refused => trivial
      | unauthorized => trivial
      | failed => trivial
    uncertain := h.uncertain }

/-- A write is sent: the pending one as it is, or the queue frozen with a new mutation. -/
theorem write (h : BrowserInv browserId row system) (hready : system.store.ready = true)
    (hidle : system.store.browserDrain ≠ .writing)
    (hsend : system.send browserId mutationId (system.store.writeBrowser mutationId) =
      some system') : BrowserInv browserId row system' := by
  have hwrites := h.drain.idle hidle
  cases hpending : system.store.pendingBrowser with
  | some pending =>
    simp only [Browsing.send, BrowserStore.writeBrowser, BrowserStore.freeze, hpending,
      Option.isSome_some, if_true, Option.getD_some, reduceCtorEq, false_and, if_false, hwrites,
      List.nil_append, Option.some.injEq] at hsend
    rw [← hsend]
    have hsame : ({ system.store with
        pendingBrowser := some pending, browserDrain := .writing } : BrowserStore).held =
        system.store.held := by
      rw [held_of_pending hpending]
      rfl
    exact {
      stored := h.stored
      drain := ⟨fun _ ↦ ⟨pending, none, rfl, rfl⟩, fun hne ↦ absurd rfl hne⟩
      server := hsame ▸ h.server
      browser := h.browser
      revision := h.revision
      unready := fun hunready ↦ by simp [hready] at hunready
      same := hsame ▸ h.same
      frozen := fun other hother ↦ by
        obtain rfl := Option.some.inj hother
        exact h.frozen pending hpending
      answered := hsame ▸ h.answered
      reply := by simp
      uncertain := fun body hbody ↦ by
        obtain ⟨other, hother, hsame⟩ := h.uncertain body hbody
        exact ⟨other, hpending ▸ hother, hsame⟩ }
  | none =>
    simp only [Browsing.send, BrowserStore.writeBrowser, BrowserStore.freeze, hpending,
      Option.isSome_none, Bool.false_eq_true, if_false, Option.getD_none, true_and, hwrites,
      List.nil_append] at hsend
    split at hsend
    · cases hsend
    rename_i hfresh
    rw [← Option.some.inj hsend]
    have hheld := held_of_none hpending
    -- the document of the tab has the queued choices, and they are all that is held
    have hbrowser := BrowserPatch.apply_apply system.store.queuedBrowser system.store.browser
    exact {
      stored := h.stored
      drain := ⟨fun _ ↦ ⟨_, none, rfl, rfl⟩, fun hne ↦ absurd rfl hne⟩
      server := hheld ▸ h.server
      browser := h.browser
      revision := h.revision
      unready := fun hunready ↦ by simp [hready] at hunready
      same := fun _ heq ↦ by
        have hsame := h.same hready heq
        rw [hheld] at hsame
        exact hbrowser.trans hsame
      frozen := fun other hother ↦ by
        obtain rfl := Option.some.inj hother
        refine ⟨hbrowser, h.revision, fun heq ↦ ?_, fun hid ↦ ?_⟩
        · have hsame := h.same hready heq
          rw [hheld] at hsame
          exact hsame
        · rw [Browsing.used, h.stored] at hfresh
          exact absurd hid hfresh
      answered := hheld ▸ h.answered
      reply := by simp
      uncertain := fun body hbody ↦ by
        obtain ⟨other, hother, -⟩ := h.uncertain body hbody
        rw [hpending] at hother
        cases hother }

theorem flush (h : BrowserInv browserId row system)
    (hflush : system.flush browserId mutationId = some system') :
    BrowserInv browserId row system' := by
  unfold Browsing.flush BrowserStore.flushBrowser at hflush
  split at hflush
  · rename_i hflushes
    refine h.write hflushes.2.1 ?_ hflush
    rw [hflushes.1]
    decide
  · rw [← Option.some.inj hflush]
    exact h

/-- The loop goes on with another write, or ends. -/
theorem drains (h : BrowserInv browserId row system) (htesting : system.store.browserDrain = .testing)
    (hdrain : system.send browserId mutationId (system.store.drainBrowser mutationId) =
      some system') : BrowserInv browserId row system' := by
  have hidle : system.store.browserDrain ≠ .writing := by
    rw [htesting]
    decide
  have hready : system.store.ready ≠ false := fun hunready ↦ by
    have habsent := (h.unready hunready).2.2
    rw [htesting] at habsent
    cases habsent
  unfold BrowserStore.drainBrowser at hdrain
  split at hdrain
  · exact h.write (Bool.eq_true_of_not_eq_false hready) hidle hdrain
  · rw [← Option.some.inj hdrain]
    exact { h with
      drain := ⟨nofun, fun _ ↦ h.drain.idle hidle⟩
      unready := fun hunready ↦ absurd hunready hready }

/-- Another request prunes the row or keeps it. -/
theorem pruned (h : BrowserInv browserId row system) {server : UiStore}
    {document : WorkspaceDocument}
    (hrow : server.browserRow browserId = some row ∨
      server.browserRow browserId = some (UiStore.pruned document row)) :
    ∃ row', BrowserInv browserId row' { system with
      server
      gone := fun experiment set ↦ system.gone experiment set ∨
        UiStore.selects document experiment set = false } := by
  have hmono {browser : BrowserPreferences} (hkept : Kept system.choices system.gone browser) :
      Kept system.choices (fun experiment set ↦ system.gone experiment set ∨
        UiStore.selects document experiment set = false) browser :=
    hkept.mono fun _ _ ↦ Or.inl
  obtain ⟨row', hstored, hmoved, hkept⟩ : ∃ row', server.browserRow browserId = some row' ∧
      (row' = row ∨ row'.document.revision = row.document.revision + 1 ∧ row'.mutationId = none) ∧
      ∀ patch : BrowserPatch, Kept system.choices system.gone (patch.apply row.document) →
        Kept system.choices (fun experiment set ↦ system.gone experiment set ∨
          UiStore.selects document experiment set = false) (patch.apply row'.document) := by
    rcases hrow with hrow | hrow
    · exact ⟨row, hrow, Or.inl rfl, fun _ ↦ hmono⟩
    · refine ⟨_, hrow, ?_, fun _ hkept ↦ hkept.pruned document⟩
      rcases pruned_eq_or document row with hsame | hlost
      · exact Or.inl hsame
      · rw [hlost]
        exact Or.inr ⟨rfl, rfl⟩
  have hle : row.document.revision ≤ row'.document.revision := by
    rcases hmoved with rfl | ⟨hnext, -⟩
    · exact le_rfl
    · omega
  -- nothing has the new revision yet
  have hsame {revision : ℕ} (hrevision : revision ≤ row.document.revision)
      (heq : revision = row'.document.revision) : row' = row := by
    rcases hmoved with rfl | ⟨hnext, -⟩
    · rfl
    · omega
  have holder {value : BrowserPreferences} (hvalue : Older value row.document) :
      Older value row'.document := by
    refine ⟨hvalue.1.trans hle, fun heq ↦ ?_⟩
    obtain rfl := hsame hvalue.1 heq
    exact hvalue.2 heq
  exact ⟨row', {
    stored := hstored
    drain := h.drain
    server := hkept _ h.server
    browser := hmono h.browser
    revision := h.revision.trans hle
    unready := h.unready
    same := fun hready heq ↦ by
      obtain rfl := hsame h.revision heq
      exact h.same hready heq
    frozen := fun pending hpending ↦ by
      have hfrozen := h.frozen pending hpending
      refine ⟨hfrozen.chosen, hfrozen.revision.trans hle, fun heq ↦ ?_, fun hid ↦ ?_⟩
      · obtain rfl := hsame hfrozen.revision heq
        exact hfrozen.requested heq
      · rcases hmoved with rfl | ⟨-, hnone⟩
        · exact hmono (hfrozen.repeated hid)
        · rw [hnone] at hid
          cases hid
    answered := fun workspaces browser hanswered ↦ by
      obtain ⟨hbrowser, hread⟩ := h.answered workspaces browser hanswered
      exact ⟨holder hbrowser, fun hrevision ↦ hmono (hread hrevision)⟩
    reply := fun write hwrite outcome houtcome ↦ by
      have hreply := h.reply write hwrite outcome houtcome
      cases outcome with
      | accepted value =>
        obtain ⟨hvalue, haccepted, hcurrent, hread⟩ := hreply
        exact ⟨holder hvalue, hmono haccepted, hkept _ hcurrent,
          fun workspaces browser hanswered hrevision ↦
            hmono (hread workspaces browser hanswered hrevision)⟩
      | conflict value =>
        obtain ⟨hvalue, hrevision, hcurrent⟩ := hreply
        exact ⟨holder hvalue, hrevision, hmono hcurrent⟩
      | refused => trivial
      | unauthorized => trivial
      | failed => trivial
    uncertain := h.uncertain }⟩

/-- A reply to the pending write. -/
theorem answer (h : BrowserInv browserId row system) {pending : PendingBrowser}
    (hpending : system.store.pendingBrowser = some pending)
    (hwriting : system.store.browserDrain = .writing) {outcome : WriteOutcome}
    (hreply : Replies system.choices system.gone system.store system.bootstrap row.document
      outcome) :
    BrowserInv browserId row { system with writes := [⟨pending.body, some outcome⟩] } :=
  { h with
    drain := ⟨fun _ ↦ ⟨pending, _, hpending, rfl⟩, fun hne ↦ absurd hwriting hne⟩
    reply := fun write hwrite other hother ↦ by
      obtain rfl := List.mem_singleton.mp hwrite
      obtain rfl := Option.some.inj hother
      exact hreply }

/-- The pending write is committed: the stored document has its choices, and the newer ones are all
that is not committed. -/
theorem commit (h : BrowserInv browserId row system) {pending : PendingBrowser}
    (hpending : system.store.pendingBrowser = some pending)
    (hwrites : system.writes = [⟨pending.body, none⟩]) {revision : ℕ}
    {row' : Stored BrowserPreferences} {server : UiStore}
    (hrevision : pending.body.revision = row.document.revision)
    (hchanged : UiStore.requestedPreferences revision pending.body = row.document ∨
      revision = pending.body.revision + 1)
    (hdocument : row'.document = UiStore.requestedPreferences revision pending.body)
    (hstored : server.browserRow browserId = some row') :
    BrowserInv browserId row' { system with server } ∧
      Replies system.choices system.gone system.store system.bootstrap row'.document
        (.accepted row'.document) := by
  have hfrozen := h.frozen pending hpending
  have hvalue : row'.document = { pending.patch.apply row.document with revision } := by
    rw [hdocument, ← hfrozen.requested hrevision]
    rfl
  have hqueued : system.store.queuedBrowser.apply row'.document =
      { system.store.held.apply row.document with revision } := by
    rw [held_of_pending hpending, BrowserPatch.merge_apply, hvalue]
    rfl
  have hheld : system.store.held.apply row'.document =
      system.store.queuedBrowser.apply row'.document := by
    have hchosen : pending.patch.apply row'.document = row'.document := by
      rw [hvalue]
      exact congrArg (fun browser : BrowserPreferences ↦ { browser with revision })
        (BrowserPatch.apply_apply pending.patch row.document)
    rw [held_of_pending hpending, BrowserPatch.merge_apply, hchosen]
  have hkept : Kept system.choices system.gone
      (system.store.queuedBrowser.apply row'.document) := by
    rw [hqueued]
    exact h.server.of_fields revision
  have hmoved : row'.document = row.document ∨
      row'.document.revision = row.document.revision + 1 := by
    rw [hdocument, ← hrevision]
    exact hchanged
  have hle : row.document.revision ≤ row'.document.revision := by
    rcases hmoved with hsame | hnext
    · rw [hsame]
    · omega
  have hsame {revision : ℕ} (hold : revision ≤ row.document.revision)
      (heq : revision = row'.document.revision) : row'.document = row.document := by
    rcases hmoved with hsame | hnext
    · exact hsame
    · omega
  have holder {value : BrowserPreferences} (hvalue : Older value row.document) :
      Older value row'.document := by
    refine ⟨hvalue.1.trans hle, fun heq ↦ ?_⟩
    have hdoc := hsame hvalue.1 heq
    rw [hdoc] at heq ⊢
    exact hvalue.2 heq
  refine ⟨?_, Older.refl _, hkept, hkept, fun workspaces browser hanswered hread ↦ ?_⟩
  · exact {
      stored := hstored
      drain := h.drain
      server := by
        rw [hheld]
        exact hkept
      browser := h.browser
      revision := h.revision.trans hle
      unready := h.unready
      same := fun hready heq ↦ by
        have hdoc := hsame h.revision heq
        rw [hdoc] at heq ⊢
        exact h.same hready heq
      frozen := fun other hother ↦ by
        obtain rfl := Option.some.inj (hpending.symm.trans hother)
        refine ⟨hfrozen.chosen, hfrozen.revision.trans hle, fun heq ↦ ?_, fun _ ↦ hkept⟩
        have hdoc := hsame hfrozen.revision heq
        rw [hdoc]
        exact hfrozen.requested hrevision
      answered := fun workspaces browser hanswered ↦ by
        obtain ⟨hbrowser, hread⟩ := h.answered workspaces browser hanswered
        exact ⟨holder hbrowser, hread⟩
      reply := fun write hwrite outcome houtcome ↦ by
        rw [hwrites, List.mem_singleton] at hwrite
        rw [hwrite] at houtcome
        cases houtcome
      uncertain := h.uncertain }
  · -- a document that was read before has the new revision only if nothing changed
    have hbrowser := holder (h.answered workspaces browser hanswered).1
    rw [hbrowser.2 (le_antisymm hbrowser.1 hread)]
    exact hkept

/-- The pending write is handled. -/
theorem handle (h : BrowserInv browserId row system) {registry : Repository}
    {pending : PendingBrowser} (hpending : system.store.pendingBrowser = some pending)
    (hwriting : system.store.browserDrain = .writing)
    (hwrites : system.writes = [⟨pending.body, none⟩]) :
    ∃ row', BrowserInv browserId row'
      (system.handle text registry browserId ⟨pending.body, none⟩ []) := by
  unfold Browsing.handle
  cases hsave : system.server.saveBrowserPreferences text registry browserId pending.body with
  | error error =>
    refine ⟨row, h.answer hpending hwriting ?_⟩
    cases error with
    | uiConflict reason current =>
      rw [WriteOutcome.ofAnswer]
      split
      · rw [saveBrowserPreferences_conflict h.stored hsave]
        exact ⟨Older.refl _, h.revision, h.server⟩
      · trivial
    | uiBootstrap reason => trivial
    | invalidInput reason => trivial
    | sqlite => trivial
  | ok result =>
    obtain ⟨document, server⟩ := result
    obtain ⟨found, hfound, -, hsaved⟩ := UiStore.saveBrowserPreferences_spec hsave
    obtain rfl := Option.some.inj (h.stored.symm.trans hfound)
    obtain ⟨row', hinv, hdocument, hreply⟩ : ∃ row',
        BrowserInv browserId row' { system with server } ∧ document = row'.document ∧
        Replies system.choices system.gone system.store system.bootstrap row'.document
          (.accepted row'.document) := by
      cases hsaved with
      | repeated hid hjson hstore =>
        subst hstore
        have hkept := (h.frozen pending hpending).repeated hid
        refine ⟨row, h, rfl, Older.refl _, hkept, hkept, fun workspaces browser hanswered hread ↦ ?_⟩
        have hbrowser := (h.answered workspaces browser hanswered).1
        rw [hbrowser.2 (le_antisymm hbrowser.1 hread)]
        exact hkept
      | @written hrevision _ revision hchanged hstore =>
        have hstored : server.browserRow browserId =
            some ⟨UiStore.requestedPreferences revision pending.body,
              some pending.body.mutationId, some (text.browser pending.body)⟩ := by
          rw [hstore, UiStore.browserRow_setBrowser, if_pos rfl, hfound]
          rfl
        obtain ⟨hinv, hreply⟩ := h.commit hpending hwrites hrevision hchanged rfl hstored
        exact ⟨_, hinv, rfl, hreply⟩
    subst hdocument
    refine ⟨row', hinv.answer hpending hwriting ?_⟩
    rw [WriteOutcome.ofAnswer]
    split
    · exact hreply
    · trivial

/-- No write is pending any more. -/
theorem cleared (h : BrowserInv browserId row system) {store : BrowserStore}
    (hready : store.ready = true) (hpending : store.pendingBrowser = none)
    (hidle : store.browserDrain ≠ .writing)
    (hserver : Kept system.choices system.gone (store.queuedBrowser.apply row.document))
    (hbrowser : Kept system.choices system.gone (store.queuedBrowser.apply store.browser))
    (hrevision : store.browser.revision ≤ row.document.revision)
    (hsame : store.browser.revision = row.document.revision →
      store.queuedBrowser.apply store.browser = store.queuedBrowser.apply row.document)
    (hanswered : ∀ workspaces browser, system.bootstrap = .answered workspaces browser →
      store.browser.revision ≤ browser.revision →
        Kept system.choices system.gone (store.queuedBrowser.apply browser)) :
    BrowserInv browserId row { system with store, writes := [], uncertain := none } := by
  have hheld := held_of_none hpending
  exact {
    stored := h.stored
    drain := ⟨fun hwriting ↦ absurd hwriting hidle, fun _ ↦ rfl⟩
    server := hheld ▸ hserver
    browser := hbrowser
    revision := hrevision
    unready := fun hunready ↦ by simp [hready] at hunready
    same := fun _ ↦ hheld ▸ hsame
    frozen := fun pending hsome ↦ by
      rw [hpending] at hsome
      cases hsome
    answered := fun workspaces browser hread ↦
      ⟨(h.answered workspaces browser hread).1, hheld ▸ hanswered workspaces browser hread⟩
    reply := by simp
    uncertain := by simp }

/-- The pending write has an outcome. -/
theorem settle (h : BrowserInv browserId row system) {outcome : WriteOutcome}
    (hwriting : system.store.browserDrain = .writing)
    (hreply : Replies system.choices system.gone system.store system.bootstrap row.document
      outcome) : BrowserInv browserId row (system.settle outcome) := by
  obtain ⟨pending, attempt, hpending, hwrites⟩ := h.drain.writing hwriting
  have hfrozen := h.frozen pending hpending
  have hready : system.store.ready = true := by
    by_contra hunready
    have hnone := (h.unready (Bool.eq_false_of_not_eq_true hunready)).2.1
    rw [hpending] at hnone
    cases hnone
  have hheld (browser : BrowserPreferences) : system.store.held.apply browser =
      system.store.queuedBrowser.apply (pending.patch.apply browser) := by
    rw [held_of_pending hpending, BrowserPatch.merge_apply]
  unfold Browsing.settle
  rw [hwrites, List.tail_cons]
  cases outcome with
  | accepted value =>
    obtain ⟨holder, hvalue, hcurrent, hread⟩ := hreply
    exact h.cleared hready rfl (by simp [BrowserStore.written]) hcurrent hvalue holder.1
      (fun heq ↦ congrArg _ (holder.2 heq)) hread
  | conflict value =>
    obtain ⟨holder, hle, hvalue⟩ := hreply
    exact h.cleared hready rfl (by simp [BrowserStore.written, BrowserStore.report]) h.server hvalue
      holder.1 (fun heq ↦ congrArg _ (holder.2 heq)) fun workspaces browser hanswered hread ↦
        (h.answered workspaces browser hanswered).2 (hle.trans hread)
  | refused =>
    refine h.cleared hready rfl (by simp [BrowserStore.written, BrowserStore.report]) h.server ?_
      h.revision (h.same hready) fun workspaces browser hanswered ↦
        (h.answered workspaces browser hanswered).2
    change Kept _ _ (system.store.held.apply system.store.browser)
    rw [hheld, hfrozen.chosen]
    exact h.browser
  | unauthorized =>
    exact { h with
      drain := ⟨nofun, fun _ ↦ rfl⟩
      unready := fun hunready ↦ by simp [hready, BrowserStore.written, BrowserStore.report] at hunready
      reply := by simp
      uncertain := fun body hbody ↦ ⟨pending, hpending, by simpa [hpending] using hbody⟩ }
  | failed =>
    exact { h with
      drain := ⟨nofun, fun _ ↦ rfl⟩
      unready := fun hunready ↦ by simp [hready, BrowserStore.written, BrowserStore.report] at hunready
      reply := by simp
      uncertain := fun body hbody ↦ ⟨pending, hpending, by simpa [hpending] using hbody⟩ }

/-- A bootstrap is taken over, unless a choice is being written or the tab knows newer
preferences. -/
theorem loadState (h : BrowserInv browserId row system) {workspaces : WorkspaceDocument}
    {browser : BrowserPreferences} (hanswered : system.bootstrap = .answered workspaces browser) :
    BrowserInv browserId row { system with
      store := system.store.loadState workspaces browser, bootstrap := .loaded } := by
  obtain ⟨holder, hread⟩ := h.answered workspaces browser hanswered
  unfold BrowserStore.loadState
  generalize (if workspaces.revision ≥ system.store.workspaces.revision then workspaces
    else system.store.workspaces) = taken
  split
  · rename_i htaken
    obtain ⟨hidle, hnone, hle⟩ := htaken
    have hkept := hread hle
    rw [held_of_none hnone] at hkept
    have hwrites := h.drain.idle hidle
    exact {
      stored := h.stored
      drain := h.drain
      server := h.server
      browser := hkept
      revision := holder.1
      unready := nofun
      same := fun _ heq ↦ congrArg _ (holder.2 heq)
      frozen := fun pending hpending ↦ by
        rw [hnone] at hpending
        cases hpending
      answered := nofun
      reply := by simp [hwrites]
      uncertain := h.uncertain }
  · rename_i hkeeps
    have hready : system.store.ready = true := by
      by_contra hunready
      obtain ⟨hzero, hnone, habsent⟩ := h.unready (Bool.eq_false_of_not_eq_true hunready)
      refine hkeeps ⟨?_, hnone, hzero ▸ Nat.zero_le _⟩
      rw [habsent]
      decide
    exact { h with
      unready := nofun
      same := fun _ ↦ h.same hready
      answered := nofun
      reply := fun write hwrite outcome houtcome ↦ by
        have hreply := h.reply write hwrite outcome houtcome
        cases outcome with
        | accepted value =>
          obtain ⟨hvalue, haccepted, hcurrent, -⟩ := hreply
          exact ⟨hvalue, haccepted, hcurrent, nofun⟩
        | conflict value => exact hreply
        | refused => trivial
        | unauthorized => trivial
        | failed => trivial }

/-- A bootstrap reads the stored preferences. -/
theorem serveState (h : BrowserInv browserId row system) (workspaces : WorkspaceDocument) :
    BrowserInv browserId row { system with bootstrap := .answered workspaces row.document } :=
  { h with
    answered := fun _ browser hanswered ↦ by
      obtain ⟨-, rfl⟩ := Bootstrap.answered.inj hanswered
      exact ⟨Older.refl _, fun _ ↦ h.server⟩
    reply := fun write hwrite outcome houtcome ↦ by
      have hreply := h.reply write hwrite outcome houtcome
      cases outcome with
      | accepted value =>
        obtain ⟨hvalue, haccepted, hcurrent, -⟩ := hreply
        refine ⟨hvalue, haccepted, hcurrent, fun _ browser hanswered _ ↦ ?_⟩
        obtain ⟨-, rfl⟩ := Bootstrap.answered.inj hanswered
        exact hcurrent
      | conflict value => exact hreply
      | refused => trivial
      | unauthorized => trivial
      | failed => trivial }

/-- No bootstrap is on its way back. -/
theorem unanswered (h : BrowserInv browserId row system) (bootstrap : Bootstrap)
    (hbootstrap : ∀ workspaces browser, bootstrap = .answered workspaces browser →
      system.bootstrap = .answered workspaces browser) :
    BrowserInv browserId row { system with bootstrap } :=
  { h with
    answered := fun workspaces browser hanswered ↦
      h.answered workspaces browser (hbootstrap workspaces browser hanswered)
    reply := fun write hwrite outcome houtcome ↦ by
      have hreply := h.reply write hwrite outcome houtcome
      cases outcome with
      | accepted value =>
        obtain ⟨hvalue, haccepted, hcurrent, hread⟩ := hreply
        exact ⟨hvalue, haccepted, hcurrent, fun workspaces browser hanswered ↦
          hread workspaces browser (hbootstrap workspaces browser hanswered)⟩
      | conflict value => exact hreply
      | refused => trivial
      | unauthorized => trivial
      | failed => trivial }

/-- Every event keeps the invariant. -/
theorem step (h : BrowserInv browserId row system)
    (hvalid : validBrowserId browserId = true) {event : BrowserEvent}
    (hstep : system.step text readable browserId event = some system') :
    ∃ row', BrowserInv browserId row' system' := by
  have hrequest (workspaces : WorkspaceDocument) (browser : BrowserPreferences)
      (hanswered : system.bootstrap.request = .answered workspaces browser) :
      system.bootstrap = .answered workspaces browser := by
    rcases system.bootstrap.request_eq with hsame | hrequested
    · rwa [hsame] at hanswered
    · rw [hrequested] at hanswered
      cases hanswered
  cases event with
  | updateBrowser patch mutationId =>
    refine ⟨row, flush (h.requeue (system.choices.update patch) patch.apply ?_ ?_) hstep⟩
    · intro older browser
      rw [← BrowserPatch.merge_assoc, BrowserPatch.merge_apply]
    · intro browser hkept
      exact hkept.update patch
  | select experimentId id mutationId =>
    let patch := BrowserPatch.ofSelected (system.store.select experimentId id)
    refine ⟨row, flush (h.requeue (system.choices.select experimentId id)
      patch.apply ?_ ?_) hstep⟩
    · intro older browser
      rw [← BrowserPatch.merge_assoc, BrowserPatch.merge_apply]
    · intro browser hkept
      exact hkept.select h.browser experimentId id
  | bootstrap => exact ⟨row, Option.some.inj hstep ▸ h.unanswered _ hrequest⟩
  | retry =>
    rw [← Option.some.inj hstep]
    exact ⟨row, { h.unanswered _ hrequest with }⟩
  | resumeAuthentication =>
    rw [← Option.some.inj hstep]
    exact ⟨row, { h.unanswered _ hrequest with }⟩
  | serveState fresh =>
    simp only [Browsing.step] at hstep
    split at hstep
    · rename_i session server _ hstate
      obtain ⟨hbrowser, rfl⟩ := uiState_browser hvalid h.stored hstate
      rw [← Option.some.inj hstep, hbrowser]
      exact ⟨row, h.serveState session.workspaces⟩
    · cases hstep
  | loadState mutationId =>
    simp only [Browsing.step] at hstep
    split at hstep
    · rename_i workspaces browser hanswered
      split at hstep
      · exact ⟨row, flush (h.loadState hanswered) hstep⟩
      · cases hstep
    · cases hstep
  | loseState =>
    simp only [Browsing.step] at hstep
    split at hstep
    · exact ⟨row, Option.some.inj hstep ▸ h.unanswered .failed nofun⟩
    · exact ⟨row, Option.some.inj hstep ▸ h.unanswered .failed nofun⟩
    · cases hstep
  | settleState =>
    simp only [Browsing.step] at hstep
    split at hstep
    · rw [← Option.some.inj hstep]
      exact ⟨row, { h.unanswered .absent nofun with }⟩
    · rw [← Option.some.inj hstep]
      exact ⟨row, { h.unanswered .absent nofun with }⟩
    · cases hstep
  | resume mutationId =>
    simp only [Browsing.step] at hstep
    split at hstep
    · cases hstep
    · rename_i rest _
      have hretry := h.requeue system.choices
        (retained system.store.knows system.store.queuedBrowser)
        (BrowserPatch.merge_retain_apply system.store.knows · system.store.queuedBrowser ·)
        (fun browser hkept ↦ hkept.retained system.store.knows system.store.queuedBrowser)
      have hretried : BrowserInv browserId row { system with
          store := system.store.retry
          resumed := rest
          gone := fun experiment set ↦ system.gone experiment set ∨
            system.store.knows experiment set = false } := { hretry with }
      exact ⟨row, hretried.flush hstep⟩
    · rename_i rest _
      have hresumed : BrowserInv browserId row { system with resumed := rest } := { h with }
      split at hstep
      · exact ⟨row, hresumed.flush hstep⟩
      · exact ⟨row, Option.some.inj hstep ▸ hresumed⟩
  | handle registry =>
    simp only [Browsing.step] at hstep
    split at hstep
    · rename_i body rest hwrites
      rw [← Option.some.inj hstep]
      have hwriting := h.drain.writing_of_writes (hwrites ▸ List.cons_ne_nil _ _)
      obtain ⟨pending, outcome, hpending, hsingle⟩ := h.drain.writing hwriting
      obtain ⟨hwrite, rfl⟩ := List.cons.inj (hwrites.symm.trans hsingle)
      obtain ⟨rfl, rfl⟩ := Write.mk.inj hwrite
      exact h.handle hpending hwriting hsingle
    · cases hstep
  | turnAway outcome =>
    simp only [Browsing.step] at hstep
    split at hstep
    · rename_i hwrites
      have hwriting := h.drain.writing_of_writes (hwrites ▸ List.cons_ne_nil _ _)
      split at hstep
      · rename_i houtcome
        rw [← Option.some.inj hstep]
        refine ⟨row, h.settle hwriting ?_⟩
        rcases houtcome with rfl | rfl | rfl <;> trivial
      · cases hstep
    · cases hstep
  | arrive =>
    simp only [Browsing.step] at hstep
    split at hstep
    · rename_i body outcome rest hwrites
      rw [← Option.some.inj hstep]
      have hwriting := h.drain.writing_of_writes (hwrites ▸ List.cons_ne_nil _ _)
      refine ⟨row, h.settle hwriting (h.reply ⟨body, some outcome⟩ ?_ outcome rfl)⟩
      rw [hwrites]
      exact List.mem_cons_self
    · cases hstep
  | lose =>
    simp only [Browsing.step] at hstep
    split at hstep
    · rename_i hwrites
      rw [← Option.some.inj hstep]
      exact ⟨row, h.settle (h.drain.writing_of_writes (hwrites ▸ List.cons_ne_nil _ _)) trivial⟩
    · cases hstep
  | drain mutationId =>
    simp only [Browsing.step] at hstep
    split at hstep
    · rename_i htesting
      exact ⟨row, h.drains htesting hstep⟩
    · cases hstep
  | forget =>
    simp only [Browsing.step] at hstep
    split at hstep
    · rename_i hended
      rw [← Option.some.inj hstep]
      refine ⟨row, { h with drain := ⟨nofun, fun _ ↦ h.drain.idle ?_⟩, unready := ?_ }⟩
      · rw [hended]
        decide
      · intro hunready
        exact ⟨(h.unready hunready).1, (h.unready hunready).2.1, rfl⟩
    · cases hstep
  | adopt value =>
    simp only [Browsing.step] at hstep
    split at hstep
    · rw [← Option.some.inj hstep]
      exact ⟨row, { h with }⟩
    · cases hstep
  | destroy =>
    rw [← Option.some.inj hstep]
    exact ⟨row, { h with }⟩
  | other request =>
    simp only [Browsing.step] at hstep
    split at hstep
    · cases hstep
    · rename_i hother
      rw [← Option.some.inj hstep]
      obtain ⟨row', hinv⟩ := h.pruned
        (@step_browserRow text _ _ _ _ (Bool.eq_false_of_not_eq_true hother) h.stored)
      exact ⟨row', { hinv with }⟩

end BrowserInv

/-! ## Sets that are gone -/

/-- The sets of the tab come from the server, and a set is gone only if the server had a document
without it. -/
structure Seen (system : Browsing) : Prop where
  current : system.server.workspaces.document ∈ system.published
  workspaces : system.store.workspaces ∈ system.published ∨ system.store.workspaces.revision = 0 ∧
    system.resumed = [] ∧ system.bootstrap ≠ .loaded
  answered : ∀ workspaces browser, system.bootstrap = .answered workspaces browser →
    workspaces ∈ system.published
  gone : ∀ experiment id, system.gone experiment id →
    ∃ document ∈ system.published, UiStore.selects document experiment id = false

namespace Seen

variable {text : RequestText} {readable : WorkspaceDocument → Bool} {browserId mutationId : String}
  {system system' : Browsing}

theorem start (server : UiStore) (theme : Theme) : Seen (.start server theme) where
  current := List.mem_singleton_self _
  workspaces := Or.inr ⟨rfl, rfl, nofun⟩
  answered := nofun
  gone := nofun

theorem send (h : Seen system) {result : BrowserStore × Option SaveBrowserPreferences}
    (hworkspaces : result.1.workspaces = system.store.workspaces)
    (hsend : system.send browserId mutationId result = some system') : Seen system' := by
  unfold Browsing.send at hsend
  split at hsend
  · rw [← Option.some.inj hsend]
    exact { h with workspaces := hworkspaces ▸ h.workspaces }
  · split at hsend
    · cases hsend
    · rw [← Option.some.inj hsend]
      exact { h with workspaces := hworkspaces ▸ h.workspaces }

theorem flush (h : Seen system) (hflush : system.flush browserId mutationId = some system') :
    Seen system' := by
  refine h.send ?_ hflush
  unfold BrowserStore.flushBrowser
  split
  · unfold BrowserStore.writeBrowser
    dsimp only
    split <;> rfl
  · rfl

theorem settle (h : Seen system) (outcome : WriteOutcome) : Seen (system.settle outcome) := by
  have hworkspaces : (system.store.written outcome).workspaces = system.store.workspaces := by
    cases outcome <;> rfl
  refine { h with workspaces := ?_ }
  simp only [Browsing.settle, hworkspaces]
  exact h.workspaces

/-- The tab knows the sets that a document has. -/
theorem selects_of_unknown {store : BrowserStore} {experiment id : String}
    (hunknown : store.knows experiment id = false) :
    UiStore.selects store.workspaces experiment id = false := by
  by_contra hselects
  obtain ⟨set, hset, hid, hexperiment⟩ :=
    UiStore.exists_of_selects (Bool.eq_true_of_not_eq_false hselects)
  unfold BrowserStore.knows at hunknown
  rw [List.any_eq_false] at hunknown
  exact hunknown set hset (by simp [hid, hexperiment])

theorem unloaded (h : Seen system) (bootstrap : Bootstrap) (hloaded : bootstrap ≠ .loaded)
    (hanswered : ∀ workspaces browser, bootstrap = .answered workspaces browser →
      workspaces ∈ system.published) : Seen { system with bootstrap } := by
  refine { h with workspaces := ?_, answered := hanswered }
  rcases h.workspaces with hmem | ⟨hzero, hresumed, -⟩
  · exact Or.inl hmem
  · exact Or.inr ⟨hzero, hresumed, hloaded⟩

theorem request (h : Seen system) : Seen { system with bootstrap := system.bootstrap.request } := by
  rcases system.bootstrap.request_eq with hsame | hrequested
  · rw [hsame]
    exact h
  · rw [hrequested]
    exact h.unloaded .requested nofun nofun

/-- Every event keeps the invariant. -/
theorem step (h : Seen system) {event : BrowserEvent}
    (hstep : system.step text readable browserId event = some system') : Seen system' := by
  cases event with
  | updateBrowser patch mutationId =>
    refine flush ?_ hstep
    refine { h with gone := fun experiment id hgone ↦ ?_ }
    dsimp only at hgone
    split at hgone
    · exact hgone.elim
    · exact h.gone experiment id hgone
  | select experimentId id mutationId =>
    refine flush ?_ hstep
    exact { h with gone := fun experiment id hgone ↦ h.gone experiment id hgone.2 }
  | bootstrap => exact Option.some.inj hstep ▸ h.request
  | retry =>
    rw [← Option.some.inj hstep]
    exact { h.request with }
  | resumeAuthentication =>
    rw [← Option.some.inj hstep]
    exact { h.request with }
  | serveState fresh =>
    simp only [Browsing.step] at hstep
    split at hstep
    · rename_i session server _ hstate
      obtain ⟨hsession, hworkspaces⟩ := uiState_workspaces hstate
      rw [← Option.some.inj hstep]
      have hanswered := h.unloaded (.answered session.workspaces session.browser) nofun
        fun workspaces browser heq ↦ by
          rw [← (Bootstrap.answered.inj heq).1, hsession]
          exact h.current
      refine { hanswered with current := ?_ }
      rw [hworkspaces]
      exact h.current
    · cases hstep
  | loadState mutationId =>
    simp only [Browsing.step] at hstep
    split at hstep
    · rename_i workspaces browser hanswered
      split at hstep
      · refine flush ?_ hstep
        refine { h with workspaces := Or.inl ?_, answered := nofun }
        simp only [BrowserStore.loadState]
        split
        · exact h.answered workspaces browser hanswered
        · rename_i hnewer
          rcases h.workspaces with hmem | ⟨hzero, -⟩
          · exact hmem
          · omega
      · cases hstep
    · cases hstep
  | loseState =>
    simp only [Browsing.step] at hstep
    split at hstep
    · exact Option.some.inj hstep ▸ h.unloaded .failed nofun nofun
    · exact Option.some.inj hstep ▸ h.unloaded .failed nofun nofun
    · cases hstep
  | settleState =>
    simp only [Browsing.step] at hstep
    split at hstep
    · rename_i hloaded
      rw [← Option.some.inj hstep]
      refine { h with workspaces := Or.inl ?_, answered := nofun }
      rcases h.workspaces with hmem | ⟨-, -, hunloaded⟩
      · exact hmem
      · exact absurd hloaded hunloaded
    · rw [← Option.some.inj hstep]
      have habsent := h.unloaded .absent nofun nofun
      exact { habsent with }
    · cases hstep
  | resume mutationId =>
    simp only [Browsing.step] at hstep
    have hmem (hresumed : system.resumed ≠ []) : system.store.workspaces ∈ system.published := by
      rcases h.workspaces with hmem | ⟨-, hnone, -⟩
      · exact hmem
      · exact absurd hnone hresumed
    split at hstep
    · cases hstep
    · rename_i rest hresumed
      have hworkspaces := hmem (hresumed ▸ List.cons_ne_nil _ _)
      refine flush ?_ hstep
      refine { h with workspaces := Or.inl hworkspaces, gone := fun experiment id hgone ↦ ?_ }
      rcases hgone with hgone | hunknown
      · exact h.gone experiment id hgone
      · exact ⟨_, hworkspaces, selects_of_unknown hunknown⟩
    · rename_i rest hresumed
      have hseen : Seen { system with resumed := rest } :=
        { h with workspaces := Or.inl (hmem (hresumed ▸ List.cons_ne_nil _ _)) }
      split at hstep
      · exact hseen.flush hstep
      · exact Option.some.inj hstep ▸ hseen
  | handle registry =>
    simp only [Browsing.step] at hstep
    split at hstep
    · rename_i body rest _
      rw [← Option.some.inj hstep]
      unfold Browsing.handle
      split
      · rename_i document server hsave
        obtain ⟨row, -, -, hsaved⟩ := UiStore.saveBrowserPreferences_spec hsave
        have hworkspaces : server.workspaces = system.server.workspaces := by
          cases hsaved with
          | repeated _ _ hstore => rw [hstore]
          | written _ _ _ hstore => rw [hstore]; rfl
        refine { h with current := ?_ }
        rw [hworkspaces]
        exact h.current
      · exact { h with }
    · cases hstep
  | turnAway outcome =>
    simp only [Browsing.step] at hstep
    split at hstep
    · split at hstep
      · exact Option.some.inj hstep ▸ h.settle outcome
      · cases hstep
    · cases hstep
  | arrive =>
    simp only [Browsing.step] at hstep
    split at hstep
    · exact Option.some.inj hstep ▸ h.settle _
    · cases hstep
  | lose =>
    simp only [Browsing.step] at hstep
    split at hstep
    · exact Option.some.inj hstep ▸ h.settle _
    · cases hstep
  | drain mutationId =>
    simp only [Browsing.step] at hstep
    split at hstep
    · refine h.send ?_ hstep
      unfold BrowserStore.drainBrowser
      split
      · unfold BrowserStore.writeBrowser
        dsimp only
        split <;> rfl
      · rfl
    · cases hstep
  | forget =>
    simp only [Browsing.step] at hstep
    split at hstep
    · rw [← Option.some.inj hstep]
      exact { h with }
    · cases hstep
  | adopt value =>
    simp only [Browsing.step] at hstep
    split at hstep
    · rename_i hvalue
      rw [← Option.some.inj hstep]
      exact { h with workspaces := Or.inl hvalue.1 }
    · cases hstep
  | destroy =>
    rw [← Option.some.inj hstep]
    exact { h with }
  | other request =>
    simp only [Browsing.step] at hstep
    split at hstep
    · cases hstep
    · rw [← Option.some.inj hstep]
      refine ⟨List.mem_cons_self, ?_, fun workspaces browser hanswered ↦ ?_,
        fun experiment id hgone ↦ ?_⟩
      · rcases h.workspaces with hmem | hunloaded
        · exact Or.inl (List.mem_cons_of_mem _ hmem)
        · exact Or.inr hunloaded
      · exact List.mem_cons_of_mem _ (h.answered workspaces browser hanswered)
      · rcases hgone with hgone | hmissing
        · obtain ⟨document, hdocument, hselects⟩ := h.gone experiment id hgone
          exact ⟨document, List.mem_cons_of_mem _ hdocument, hselects⟩
        · exact ⟨_, List.mem_cons_self, hmissing⟩

end Seen

/-! ## Every run -/

end Rvx.Web
