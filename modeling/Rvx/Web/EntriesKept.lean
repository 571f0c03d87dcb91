import Rvx.Web.ChoicesKept
import Rvx.Web.Tabs

/-!
# What other tabs made of an entry

As long as the document of a tab is the stored one, it has what other tabs made of every key the
tab has not changed itself, and so have the maps it holds.  A write is only accepted then.
-/

namespace Rvx.Web

open Core Check Registry

/-! ## Entries -/

namespace PreferenceKey

variable {key : PreferenceKey} {patch newer : BrowserPatch} {browser browser' : BrowserPreferences}

theorem entry_apply (key : PreferenceKey) (patch : BrowserPatch) (browser : BrowserPreferences) :
    key.entry (patch.apply browser) = (key.chosen patch).getD (key.entry browser) := by
  cases key with
  | selected experiment => cases h : patch.selected <;> simp [entry, chosen, BrowserPatch.apply, h]
  | runColor run => cases h : patch.runColors <;> simp [entry, chosen, BrowserPatch.apply, h]

theorem entry_apply_congr (patch : BrowserPatch) (h : key.entry browser = key.entry browser') :
    key.entry (patch.apply browser) = key.entry (patch.apply browser') := by
  rw [entry_apply, entry_apply, h]

/-- A patch with the same maps over two documents that agree, or over one that has them. -/
theorem entry_apply_of_eq (h : key.entry (patch.apply browser) = key.entry browser') :
    key.entry (patch.apply browser') = key.entry browser' := by
  rw [entry_apply] at h ⊢
  cases hchosen : key.chosen patch with
  | none => rfl
  | some chosen => simpa [hchosen] using h

theorem entry_requested (key : PreferenceKey) (revision : ℕ) (browser : BrowserPreferences)
    (patch : BrowserPatch) (mutationId : String) :
    key.entry (UiStore.requestedPreferences revision (writeBody browser patch mutationId)) =
      key.entry (patch.apply browser) := by
  cases key <;> rfl

end PreferenceKey

/-! ## The invariant of a tab -/

/-- What a tab shows has what other tabs made of the keys it has not queued a change of. -/
def Follows (foreign : PreferenceKey → Prop) (tab : BrowserTab) (stored : BrowserPreferences) :
    Prop :=
  ∀ key, foreign key → tab.queued key = false → tab.data key = key.entry stored

/-- What is known of the pending write: the document of the tab has what it asks for, and if it is
the mutation that was stored last, then what the tab shows follows the stored document. -/
structure FrozenTab (foreign : PreferenceKey → Prop) (row : Stored BrowserPreferences)
    (tab : BrowserTab) (pending : PendingBrowser) : Prop where
  body : ∀ key : PreferenceKey,
    key.entry (UiStore.requestedPreferences pending.body.revision pending.body) =
      key.entry tab.store.browser
  chosen : pending.patch.apply tab.store.browser = tab.store.browser
  revision : pending.body.revision = tab.store.browser.revision
  repeated : row.mutationId = some pending.body.mutationId → Follows foreign tab row.document

/-- The documents on their way to a tab are documents of the server; an accepted one that is still
stored is followed. -/
def Tells (foreign : PreferenceKey → Prop) (stored : BrowserPreferences) (tab : BrowserTab) :
    WriteOutcome → Prop
  | .accepted value => Older value stored ∧
      (value.revision = stored.revision → Follows foreign tab stored)
  | .conflict value => Older value stored
  | .refused => True
  | .unauthorized => True
  | .failed => True

structure TabInv (foreign : PreferenceKey → Prop) (row : Stored BrowserPreferences)
    (tab : BrowserTab) : Prop where
  drain : Drains tab.store.browserDrain tab.store.pendingBrowser tab.writes
  unready : tab.store.ready = false → tab.store.browser.revision = 0 ∧
    tab.store.pendingBrowser = none ∧ tab.store.browserDrain = .absent
  unfrozen : tab.store.pendingBrowser = none → ∀ key, tab.frozen key = false
  revision : tab.store.browser.revision ≤ row.document.revision
  known : tab.store.ready = true → tab.store.browser.revision = row.document.revision →
    ∀ key, foreign key → tab.changed key = false →
      key.entry tab.store.browser = key.entry row.document
  queued : tab.store.ready = true → tab.store.browser.revision = row.document.revision →
    ∀ key, foreign key → tab.queued key = false →
      key.entry tab.store.browser = key.entry row.document → tab.data key = key.entry row.document
  frozen : ∀ pending, tab.store.pendingBrowser = some pending → FrozenTab foreign row tab pending
  answered : ∀ workspaces browser, tab.bootstrap = .answered workspaces browser →
    Older browser row.document
  reply : ∀ write ∈ tab.writes, ∀ outcome, write.outcome = some outcome →
    Tells foreign row.document tab outcome

namespace TabInv

variable {foreign foreign' : PreferenceKey → Prop} {row row' : Stored BrowserPreferences}
  {tab tab' : BrowserTab} {server : UiStore} {published : List WorkspaceDocument}
  {browserId mutationId : String} {after : Browsing} {choices : Choices}
  {gone : String → String → Prop}

theorem initial (theme : Theme) : TabInv foreign row (.initial theme) where
  drain := ⟨fun h ↦ by simp [BrowserTab.initial, BrowserStore.initial] at h, fun _ ↦ rfl⟩
  unready _ := ⟨rfl, rfl, rfl⟩
  unfrozen _ _ := rfl
  revision := Nat.zero_le _
  known hready := by simp [BrowserTab.initial, BrowserStore.initial] at hready
  queued hready := by simp [BrowserTab.initial, BrowserStore.initial] at hready
  frozen := by simp [BrowserTab.initial, BrowserStore.initial]
  answered := by simp [BrowserTab.initial]
  reply := by simp [BrowserTab.initial]

/-- Another queue, with more keys that are changed, that still follows what the old one followed. -/
theorem requeue (h : TabInv foreign row tab) {queuedBrowser : BrowserPatch}
    {queued : PreferenceKey → Bool} (hqueued : ∀ key, queued key = false → tab.queued key = false)
    (hdata : ∀ key, foreign key → queued key = false → tab.data key = key.entry row.document →
      key.entry (queuedBrowser.apply tab.store.browser) = key.entry row.document) :
    TabInv foreign row { tab with store := { tab.store with queuedBrowser }, queued } := by
  have hfollows (hold : Follows foreign tab row.document) : Follows foreign
      { tab with store := { tab.store with queuedBrowser }, queued } row.document :=
    fun key hforeign hkey ↦ hdata key hforeign hkey (hold key hforeign (hqueued key hkey))
  exact {
    drain := ⟨h.drain.writing, h.drain.idle⟩
    unready := h.unready
    unfrozen := h.unfrozen
    revision := h.revision
    known := fun hready hcurrent key hforeign hchanged ↦ by
      refine h.known hready hcurrent key hforeign ?_
      simp only [BrowserTab.changed, Bool.or_eq_false_iff] at hchanged ⊢
      exact ⟨hchanged.1, hqueued key hchanged.2⟩
    queued := fun hready hcurrent key hforeign hkey hsame ↦
      hdata key hforeign hkey (h.queued hready hcurrent key hforeign (hqueued key hkey) hsame)
    frozen := fun pending hpending ↦ by
      have hfrozen := h.frozen pending hpending
      exact ⟨hfrozen.body, hfrozen.chosen, hfrozen.revision, fun hid ↦
        hfollows (hfrozen.repeated hid)⟩
    answered := h.answered
    reply := fun write hwrite outcome houtcome ↦ by
      have hreply := h.reply write hwrite outcome houtcome
      cases outcome with
      | accepted value => exact ⟨hreply.1, fun hsame ↦ hfollows (hreply.2 hsame)⟩
      | conflict value => exact hreply
      | refused => trivial
      | unauthorized => trivial
      | failed => trivial }

/-- The stored document of a current tab has what the tab knows. -/
theorem follows (h : TabInv foreign row tab) (hready : tab.store.ready = true)
    (hcurrent : tab.store.browser.revision = row.document.revision) {key : PreferenceKey}
    (hforeign : foreign key) (hchanged : tab.changed key = false) :
    tab.data key = key.entry row.document := by
  refine h.queued hready hcurrent key hforeign ?_ (h.known hready hcurrent key hforeign hchanged)
  simp only [BrowserTab.changed, Bool.or_eq_false_iff] at hchanged
  exact hchanged.2

theorem ready_of_pending (h : TabInv foreign row tab) {pending : PendingBrowser}
    (hpending : tab.store.pendingBrowser = some pending) : tab.store.ready = true := by
  by_contra hunready
  have hnone := (h.unready (Bool.eq_false_of_not_eq_true hunready)).2.1
  rw [hpending] at hnone
  cases hnone

/-- A write is sent: the pending one as it is, or the queue frozen with a new mutation. -/
theorem write (h : TabInv foreign row tab) (hrow : server.browserRow browserId = some row)
    (hready : tab.store.ready = true) (hidle : tab.store.browserDrain ≠ .writing)
    (hsend : ({ tab.view server published with choices, gone } : Browsing).send browserId mutationId
      (tab.store.writeBrowser mutationId) = some after) :
    TabInv foreign row (tab.move after) := by
  have hwrites := h.drain.idle hidle
  cases hpending : tab.store.pendingBrowser with
  | some pending =>
    simp only [Browsing.send, BrowserTab.view, BrowserStore.writeBrowser, BrowserStore.freeze,
      hpending, Option.isSome_some, if_true, Option.getD_some, reduceCtorEq, false_and, if_false,
      hwrites, List.nil_append, Option.some.injEq] at hsend
    rw [← hsend]
    simp only [BrowserTab.move, hpending, Option.isSome_some]
    exact {
      drain := ⟨fun _ ↦ ⟨pending, none, rfl, rfl⟩, fun hne ↦ absurd rfl hne⟩
      unready := fun hunready ↦ by simp [hready] at hunready
      unfrozen := fun hnone ↦ by cases hnone
      revision := h.revision
      known := h.known
      queued := h.queued
      frozen := fun other hother ↦ by
        obtain rfl := Option.some.inj hother
        have hfrozen := h.frozen pending hpending
        exact ⟨hfrozen.body, hfrozen.chosen, hfrozen.revision, hfrozen.repeated⟩
      answered := h.answered
      reply := by simp }
  | none =>
    simp only [Browsing.send, BrowserTab.view, BrowserStore.writeBrowser, BrowserStore.freeze,
      hpending, Option.isSome_none, Bool.false_eq_true, if_false, Option.getD_none, true_and,
      hwrites, List.nil_append] at hsend
    split at hsend
    · cases hsend
    rename_i hfresh
    rw [← Option.some.inj hsend]
    simp only [BrowserTab.move, hpending, Option.isSome_none, Option.isSome_some]
    have hchanged {key : PreferenceKey} (hkey : tab.queued key = false) :
        tab.changed key = false := by
      simp [BrowserTab.changed, h.unfrozen hpending key, hkey]
    exact {
      drain := ⟨fun _ ↦ ⟨_, none, rfl, rfl⟩, fun hne ↦ absurd rfl hne⟩
      unready := fun hunready ↦ by simp [hready] at hunready
      unfrozen := fun hnone ↦ by cases hnone
      revision := h.revision
      -- the document of the tab becomes what the tab shows
      known := fun _ hcurrent key hforeign hkey ↦ by
        simp only [BrowserTab.changed, Bool.or_false] at hkey
        exact h.follows hready hcurrent hforeign (hchanged hkey)
      queued := fun _ hcurrent key hforeign _ hsame ↦ hsame
      frozen := fun other hother ↦ by
        obtain rfl := Option.some.inj hother
        refine ⟨fun key ↦ key.entry_requested _ _ _ _, BrowserPatch.apply_apply _ _, rfl,
          fun hid ↦ ?_⟩
        rw [Browsing.used, hrow] at hfresh
        exact absurd hid hfresh
      answered := h.answered
      reply := by simp }

/-- A step that keeps the pending write keeps the changed keys. -/
theorem move_self (hpending : after.store.pendingBrowser = tab.store.pendingBrowser) :
    tab.move after = { tab with
      store := after.store
      writes := after.writes
      bootstrap := after.bootstrap
      awaiting := after.awaiting
      resumed := after.resumed } := by
  unfold BrowserTab.move
  rw [hpending]
  cases tab.store.pendingBrowser <;> rfl

theorem flush (h : TabInv foreign row tab) (hrow : server.browserRow browserId = some row)
    (hflush : ({ tab.view server published with choices, gone } : Browsing).flush browserId mutationId = some after) :
    TabInv foreign row (tab.move after) := by
  unfold Browsing.flush BrowserStore.flushBrowser at hflush
  split at hflush
  · rename_i hflushes
    refine h.write hrow hflushes.2.1 ?_ hflush
    rw [show tab.store.browserDrain = .absent from hflushes.1]
    decide
  · rw [← Option.some.inj hflush, move_self rfl]
    exact h

/-- The loop goes on with another write, or ends. -/
theorem drains (h : TabInv foreign row tab) (hrow : server.browserRow browserId = some row)
    (htesting : tab.store.browserDrain = .testing)
    (hdrain : ({ tab.view server published with choices, gone } : Browsing).send browserId mutationId
      (tab.store.drainBrowser mutationId) = some after) : TabInv foreign row (tab.move after) := by
  have hidle : tab.store.browserDrain ≠ .writing := by
    rw [htesting]
    decide
  have hready : tab.store.ready ≠ false := fun hunready ↦ by
    have habsent := (h.unready hunready).2.2
    rw [htesting] at habsent
    cases habsent
  unfold BrowserStore.drainBrowser at hdrain
  split at hdrain
  · exact h.write hrow (Bool.eq_true_of_not_eq_false hready) hidle hdrain
  · rw [← Option.some.inj hdrain, move_self rfl]
    exact {
      drain := ⟨nofun, fun _ ↦ h.drain.idle hidle⟩
      unready := fun hunready ↦ absurd hunready hready
      unfrozen := h.unfrozen
      revision := h.revision
      known := h.known
      queued := h.queued
      frozen := fun pending hpending ↦ by
        have hfrozen := h.frozen pending hpending
        exact ⟨hfrozen.body, hfrozen.chosen, hfrozen.revision, hfrozen.repeated⟩
      answered := h.answered
      reply := h.reply }

/-- No write is pending any more. -/
theorem cleared {store : BrowserStore} {queued : PreferenceKey → Bool}
    (hready : store.ready = true) (hpending : store.pendingBrowser = none)
    (hidle : store.browserDrain ≠ .writing)
    (hrevision : store.browser.revision ≤ row.document.revision)
    (hbrowser : store.browser.revision = row.document.revision → ∀ key, foreign key →
      queued key = false → key.entry store.browser = key.entry row.document)
    (hdata : store.browser.revision = row.document.revision → ∀ key, foreign key →
      queued key = false → key.entry store.browser = key.entry row.document →
      key.entry (store.queuedBrowser.apply store.browser) = key.entry row.document)
    (hanswered : ∀ workspaces browser, tab.bootstrap = .answered workspaces browser →
      Older browser row.document) :
    TabInv foreign row { tab with store, writes := [], frozen := fun _ ↦ false, queued } where
  drain := ⟨fun hwriting ↦ absurd hwriting hidle, fun _ ↦ rfl⟩
  unready hunready := by simp [hready] at hunready
  unfrozen _ _ := rfl
  revision := hrevision
  known _ hcurrent key hforeign hkey := by
    simp only [BrowserTab.changed, Bool.false_or] at hkey
    exact hbrowser hcurrent key hforeign hkey
  queued _ := hdata
  frozen pending hsome := by
    rw [hpending] at hsome
    cases hsome
  answered := hanswered
  reply := by simp

/-- The outcome of the pending write is not known. -/
theorem reported (h : TabInv foreign row tab) (hready : tab.store.ready = true)
    (unauthorized : Bool) :
    TabInv foreign row { tab with store := tab.store.report unauthorized, writes := [] } where
  drain := ⟨nofun, fun _ ↦ rfl⟩
  unready hunready := by simp [hready, BrowserStore.report] at hunready
  unfrozen := h.unfrozen
  revision := h.revision
  known := h.known
  queued := h.queued
  frozen pending hpending := by
    have hfrozen := h.frozen pending hpending
    exact ⟨hfrozen.body, hfrozen.chosen, hfrozen.revision, hfrozen.repeated⟩
  answered := h.answered
  reply := by simp

/-- The pending write has an outcome; what is held agrees with the current preferences that a
conflict brings. -/
theorem settle (h : TabInv foreign row tab) {outcome : WriteOutcome}
    (hwriting : tab.store.browserDrain = .writing) (hreply : Tells foreign row.document tab outcome)
    (haccepted : tab.accepted = true ↔ ∃ value, outcome = .accepted value)
    (hagrees : ∀ current, outcome = .conflict current →
      current.revision = row.document.revision → ∀ key, foreign key → tab.changed key = false →
        key.entry (tab.store.held.apply current) = key.entry current) :
    TabInv foreign row (tab.move ((tab.view server published).settle outcome)) := by
  obtain ⟨pending, attempt, hpending, hwrites⟩ := h.drain.writing hwriting
  have hfrozen := h.frozen pending hpending
  have hready := h.ready_of_pending hpending
  unfold Browsing.settle BrowserTab.view
  simp only [hwrites, List.tail_cons]
  cases outcome with
  | accepted value =>
    simp only [BrowserTab.move, BrowserStore.written, hpending, Option.isSome_some,
      Option.isSome_none, haccepted.mpr ⟨value, rfl⟩, if_true]
    refine cleared hready rfl (by simp) hreply.1.1 (fun hcurrent key _ _ ↦ ?_)
      (fun hcurrent key hforeign hkey _ ↦ ?_) h.answered
    · exact congrArg key.entry (hreply.1.2 hcurrent)
    · dsimp only
      rw [hreply.1.2 hcurrent]
      exact PreferenceKey.entry_apply_of_eq (hreply.2 hcurrent key hforeign hkey)
  | conflict value =>
    have hnot : tab.accepted = false := Bool.eq_false_of_not_eq_true fun htrue ↦ by
      obtain ⟨other, hother⟩ := haccepted.mp htrue
      cases hother
    simp only [BrowserTab.move, BrowserStore.written, BrowserStore.report, hpending,
      Option.isSome_some, Option.isSome_none, hnot, Bool.false_eq_true, if_false]
    refine cleared hready rfl (by simp) hreply.1 (fun hcurrent key _ _ ↦ ?_)
      (fun hcurrent key hforeign hkey hsame ↦ ?_) h.answered
    · exact congrArg key.entry (hreply.2 hcurrent)
    · exact (hagrees value rfl hcurrent key hforeign hkey).trans hsame
  | refused =>
    have hnot : tab.accepted = false := Bool.eq_false_of_not_eq_true fun htrue ↦ by
      obtain ⟨other, hother⟩ := haccepted.mp htrue
      cases hother
    simp only [BrowserTab.move, BrowserStore.written, BrowserStore.report, hpending,
      Option.isSome_some, Option.isSome_none, hnot, Bool.false_eq_true, if_false]
    refine cleared hready rfl (by simp) h.revision (h.known hready)
      (fun hcurrent key hforeign hkey _ ↦ ?_) h.answered
    -- the document of the tab has the choices of the write
    dsimp only
    rw [BrowserInv.held_of_pending hpending, BrowserPatch.merge_apply, hfrozen.chosen]
    exact h.follows hready hcurrent hforeign hkey
  | unauthorized =>
    rw [move_self rfl]
    exact h.reported hready true
  | failed =>
    rw [move_self rfl]
    exact h.reported hready false

/-- A bootstrap is taken over, unless a choice is being written or the tab knows newer preferences;
what is held agrees with it. -/
theorem loadState (h : TabInv foreign row tab) {workspaces : WorkspaceDocument}
    {browser : BrowserPreferences} (hanswered : tab.bootstrap = .answered workspaces browser)
    (hagrees : tab.store.browserDrain ≠ .writing → tab.store.pendingBrowser = none →
      tab.store.browser.revision ≤ browser.revision →
      browser.revision = row.document.revision → ∀ key, foreign key → tab.changed key = false →
        key.entry (tab.store.held.apply browser) = key.entry browser) :
    TabInv foreign row { tab with
      store := tab.store.loadState workspaces browser, bootstrap := .loaded } := by
  have holder := h.answered workspaces browser hanswered
  unfold BrowserStore.loadState
  generalize (if workspaces.revision ≥ tab.store.workspaces.revision then workspaces
    else tab.store.workspaces) = taken
  split
  · rename_i htaken
    obtain ⟨hidle, hnone, hle⟩ := htaken
    have hwrites := h.drain.idle hidle
    exact {
      drain := h.drain
      unready := nofun
      unfrozen := h.unfrozen
      revision := holder.1
      known := fun _ hcurrent key _ _ ↦ congrArg key.entry (holder.2 hcurrent)
      queued := fun _ hcurrent key hforeign hkey hsame ↦ by
        have hchanged : tab.changed key = false := by
          simp only [BrowserTab.changed, h.unfrozen hnone key, Bool.false_or]
          exact hkey
        have hheld := hagrees hidle hnone hle hcurrent key hforeign hchanged
        rw [BrowserInv.held_of_none hnone] at hheld
        exact hheld.trans hsame
      frozen := fun pending hpending ↦ by
        rw [hnone] at hpending
        cases hpending
      answered := nofun
      reply := by simp [hwrites] }
  · rename_i hkeeps
    have hready : tab.store.ready = true := by
      by_contra hunready
      obtain ⟨hzero, hnone, habsent⟩ := h.unready (Bool.eq_false_of_not_eq_true hunready)
      refine hkeeps ⟨?_, hnone, hzero ▸ Nat.zero_le _⟩
      rw [habsent]
      decide
    exact {
      drain := h.drain
      unready := nofun
      unfrozen := h.unfrozen
      revision := h.revision
      known := fun _ ↦ h.known hready
      queued := fun _ ↦ h.queued hready
      frozen := fun pending hpending ↦ by
        have hfrozen := h.frozen pending hpending
        exact ⟨hfrozen.body, hfrozen.chosen, hfrozen.revision, hfrozen.repeated⟩
      answered := nofun
      reply := h.reply }

/-- The store stays as it is, up to its sets and flags, and no new document is on its way. -/
theorem restored (h : TabInv foreign row tab) {store : BrowserStore} {bootstrap : Bootstrap}
    (awaiting resumed : List Continuation) (hready : store.ready = tab.store.ready)
    (hbrowser : store.browser = tab.store.browser)
    (hpending : store.pendingBrowser = tab.store.pendingBrowser)
    (hqueued : store.queuedBrowser = tab.store.queuedBrowser)
    (hdrain : Drains store.browserDrain store.pendingBrowser tab.writes)
    (habsent : store.ready = false → store.browserDrain = .absent)
    (hbootstrap : ∀ workspaces browser, bootstrap = .answered workspaces browser →
      Older browser row.document) :
    TabInv foreign row { tab with store, bootstrap, awaiting, resumed } := by
  obtain ⟨workspaces, ready, browser, pendingBrowser, queuedBrowser, browserDrain, browserFailed,
    authenticationError, aborted⟩ := store
  dsimp only at hready hbrowser hpending hqueued
  subst hready hbrowser hpending hqueued
  exact {
    drain := hdrain
    unready := fun hunready ↦
      ⟨(h.unready hunready).1, (h.unready hunready).2.1, habsent hunready⟩
    unfrozen := h.unfrozen
    revision := h.revision
    known := h.known
    queued := h.queued
    frozen := fun pending hpending ↦ by
      have hfrozen := h.frozen pending hpending
      exact ⟨hfrozen.body, hfrozen.chosen, hfrozen.revision, hfrozen.repeated⟩
    answered := hbootstrap
    reply := h.reply }

/-- The stored preferences change, or nothing does, and the pending write is not stored by it. -/
theorem stored (h : TabInv foreign row tab)
    (hle : row.document.revision ≤ row'.document.revision)
    (hsame : row'.document.revision = row.document.revision → row'.document = row.document)
    (hforeign : row'.document = row.document → ∀ key, foreign' key → foreign key)
    (hmutation : ∀ pending, tab.store.pendingBrowser = some pending →
      row'.mutationId = some pending.body.mutationId →
        row.mutationId = row'.mutationId ∧ row'.document = row.document) :
    TabInv foreign' row' tab := by
  have hdocument {revision : ℕ} (hold : revision ≤ row.document.revision)
      (heq : revision = row'.document.revision) : row'.document = row.document :=
    hsame (by omega)
  have holder {value : BrowserPreferences} (hvalue : Older value row.document) :
      Older value row'.document := by
    refine ⟨hvalue.1.trans hle, fun heq ↦ ?_⟩
    have hdoc := hdocument hvalue.1 heq
    rw [hdoc] at heq ⊢
    exact hvalue.2 heq
  have hfollows (hdoc : row'.document = row.document) (hold : Follows foreign tab row.document) :
      Follows foreign' tab row'.document := fun key hkey hqueued ↦ by
    rw [hdoc]
    exact hold key (hforeign hdoc key hkey) hqueued
  exact {
    drain := h.drain
    unready := h.unready
    unfrozen := h.unfrozen
    revision := h.revision.trans hle
    known := fun hready hcurrent key hkey hchanged ↦ by
      have hdoc := hdocument h.revision hcurrent
      rw [hdoc] at hcurrent ⊢
      exact h.known hready hcurrent key (hforeign hdoc key hkey) hchanged
    queued := fun hready hcurrent key hkey hqueued ↦ by
      have hdoc := hdocument h.revision hcurrent
      rw [hdoc] at hcurrent ⊢
      exact h.queued hready hcurrent key (hforeign hdoc key hkey) hqueued
    frozen := fun pending hpending ↦ by
      have hfrozen := h.frozen pending hpending
      refine ⟨hfrozen.body, hfrozen.chosen, hfrozen.revision, fun hid ↦ ?_⟩
      obtain ⟨hmutation, hdoc⟩ := hmutation pending hpending hid
      exact hfollows hdoc (hfrozen.repeated (hmutation.trans hid))
    answered := fun workspaces browser hanswered ↦ holder (h.answered workspaces browser hanswered)
    reply := fun write hwrite outcome houtcome ↦ by
      have hreply := h.reply write hwrite outcome houtcome
      cases outcome with
      | accepted value =>
        refine ⟨holder hreply.1, fun heq ↦ ?_⟩
        have hdoc := hdocument hreply.1.1 heq
        rw [hdoc] at heq
        exact hfollows hdoc (hreply.2 heq)
      | conflict value => exact holder hreply
      | refused => trivial
      | unauthorized => trivial
      | failed => trivial }

/-- A reply to the pending write. -/
theorem answer (h : TabInv foreign row tab) {pending : PendingBrowser}
    (hpending : tab.store.pendingBrowser = some pending)
    (hwriting : tab.store.browserDrain = .writing) {outcome : WriteOutcome}
    (hreply : Tells foreign row.document tab outcome) :
    TabInv foreign row { tab with writes := [⟨pending.body, some outcome⟩] } where
  drain := ⟨fun _ ↦ ⟨pending, _, hpending, rfl⟩, fun hne ↦ absurd hwriting hne⟩
  unready := h.unready
  unfrozen := h.unfrozen
  revision := h.revision
  known := h.known
  queued := h.queued
  frozen other hother := by
    have hfrozen := h.frozen other hother
    exact ⟨hfrozen.body, hfrozen.chosen, hfrozen.revision, hfrozen.repeated⟩
  answered := h.answered
  reply write hwrite other hother := by
    obtain rfl := List.mem_singleton.mp hwrite
    obtain rfl := Option.some.inj hother
    cases outcome with
    | accepted value => exact hreply
    | conflict value => exact hreply
    | refused => trivial
    | unauthorized => trivial
    | failed => trivial

/-- The pending write has the entries that other tabs made, unless the tab has changed them. -/
theorem kept (h : TabInv foreign row tab) {pending : PendingBrowser}
    (hpending : tab.store.pendingBrowser = some pending)
    (hrevision : pending.body.revision = row.document.revision) {revision : ℕ} {key : PreferenceKey}
    (hforeign : foreign key) (hchanged : tab.changed key = false) :
    key.entry (UiStore.requestedPreferences revision pending.body) = key.entry row.document := by
  have hfrozen := h.frozen pending hpending
  have hready := h.ready_of_pending hpending
  have hbody : key.entry (UiStore.requestedPreferences revision pending.body) =
      key.entry tab.store.browser := by
    rw [← hfrozen.body key]
    cases key <;> rfl
  rw [hbody]
  exact h.known hready (hfrozen.revision ▸ hrevision) key hforeign hchanged

/-- The pending write is committed; what it does not change is still what other tabs made of it. -/
theorem commit (h : TabInv foreign row tab) {pending : PendingBrowser}
    (hpending : tab.store.pendingBrowser = some pending)
    (hrevision : pending.body.revision = row.document.revision) {revision : ℕ}
    (hchanged : UiStore.requestedPreferences revision pending.body = row.document ∨
      revision = pending.body.revision + 1)
    (hdocument : row'.document = UiStore.requestedPreferences revision pending.body)
    (hforeign : ∀ key, foreign' key →
      foreign key ∧ key.entry row'.document = key.entry row.document) :
    TabInv foreign' row' tab ∧ Follows foreign' tab row'.document := by
  have hfrozen := h.frozen pending hpending
  have hready := h.ready_of_pending hpending
  have hcurrent : tab.store.browser.revision = row.document.revision :=
    hfrozen.revision ▸ hrevision
  have hentry (key : PreferenceKey) :
      key.entry row'.document = key.entry tab.store.browser := by
    rw [hdocument, ← hfrozen.body key]
    cases key <;> rfl
  have hfollows : Follows foreign' tab row'.document := fun key hkey hqueued ↦ by
    obtain ⟨hold, hsame⟩ := hforeign key hkey
    rw [hsame]
    exact h.queued hready hcurrent key hold hqueued ((hentry key).symm.trans hsame)
  have hmoved : row'.document = row.document ∨
      row'.document.revision = row.document.revision + 1 := by
    rw [hdocument, ← hrevision]
    exact hchanged
  have hle : row.document.revision ≤ row'.document.revision := by
    rcases hmoved with hsame | hnext
    · rw [hsame]
    · omega
  have holder {value : BrowserPreferences} (hvalue : Older value row.document) :
      Older value row'.document := by
    rcases hmoved with hsame | hnext
    · rwa [hsame]
    · exact ⟨hvalue.1.trans hle, fun heq ↦ by have := hvalue.1; omega⟩
  refine ⟨?_, hfollows⟩
  exact {
    drain := h.drain
    unready := h.unready
    unfrozen := h.unfrozen
    revision := h.revision.trans hle
    known := fun _ _ key _ _ ↦ (hentry key).symm
    queued := fun _ _ key hkey hqueued _ ↦ hfollows key hkey hqueued
    frozen := fun other hother ↦ by
      have hother := h.frozen other hother
      exact ⟨hother.body, hother.chosen, hother.revision, fun _ ↦ hfollows⟩
    answered := fun workspaces browser hanswered ↦ holder (h.answered workspaces browser hanswered)
    reply := fun write hwrite outcome houtcome ↦ by
      have hreply := h.reply write hwrite outcome houtcome
      cases outcome with
      | accepted value => exact ⟨holder hreply.1, fun _ ↦ hfollows⟩
      | conflict value => exact holder hreply
      | refused => trivial
      | unauthorized => trivial
      | failed => trivial }

end TabInv

/-! ## The invariant of the tabs -/

/-- A step freezes a write, ends one, or keeps the pending one. -/
theorem Browsing.step_pendingBrowser {text : RequestText} {readable : WorkspaceDocument → Bool}
    {browserId : String} {system after : Browsing} {event : BrowserEvent}
    (h : system.step text readable browserId event = some after) :
    after.store.pendingBrowser = system.store.pendingBrowser ∨
      system.store.pendingBrowser = none ∨ after.store.pendingBrowser = none := by
  by_cases hnone : system.store.pendingBrowser = none
  · exact Or.inr (Or.inl hnone)
  obtain ⟨pending, hpending⟩ := Option.ne_none_iff_exists'.mp hnone
  have hwrite {store : BrowserStore} (mutationId : String) (hsame : store.pendingBrowser = some pending) :
      (store.writeBrowser mutationId).1.pendingBrowser = some pending := by
    simp [BrowserStore.writeBrowser, BrowserStore.freeze, hsame]
  have hsend {before : Browsing} {mutationId : String}
      {result : BrowserStore × Option SaveBrowserPreferences}
      (hsame : result.1.pendingBrowser = some pending)
      (hsent : before.send browserId mutationId result = some after) :
      after.store.pendingBrowser = some pending := by
    unfold Browsing.send at hsent
    split at hsent
    · rw [← Option.some.inj hsent]
      exact hsame
    · split at hsent
      · cases hsent
      · rw [← Option.some.inj hsent]
        exact hsame
  have hflush {before : Browsing} {mutationId : String}
      (hsent : before.flush browserId mutationId = some after)
      (hsame : before.store.pendingBrowser = some pending) :
      after.store.pendingBrowser = some pending := by
    refine hsend ?_ hsent
    unfold BrowserStore.flushBrowser
    split
    · exact hwrite mutationId hsame
    · exact hsame
  have hsettle (outcome : WriteOutcome) (hsettled : system.settle outcome = after) :
      after.store.pendingBrowser = some pending ∨ after.store.pendingBrowser = none := by
    rw [← hsettled]
    cases outcome with
    | accepted value => exact Or.inr rfl
    | conflict value => exact Or.inr rfl
    | refused => exact Or.inr rfl
    | unauthorized => exact Or.inl hpending
    | failed => exact Or.inl hpending
  rw [hpending]
  suffices after.store.pendingBrowser = some pending ∨ after.store.pendingBrowser = none by
    rcases this with hsame | hends
    · exact Or.inl hsame
    · exact Or.inr (Or.inr hends)
  cases event with
  | updateBrowser patch mutationId => exact Or.inl (hflush h hpending)
  | select experimentId id mutationId => exact Or.inl (hflush h hpending)
  | bootstrap => exact Or.inl (Option.some.inj h ▸ hpending)
  | retry => exact Or.inl (Option.some.inj h ▸ hpending)
  | resumeAuthentication => exact Or.inl (Option.some.inj h ▸ hpending)
  | serveState fresh =>
    simp only [Browsing.step] at h
    split at h
    · exact Or.inl (Option.some.inj h ▸ hpending)
    · cases h
  | loadState mutationId =>
    simp only [Browsing.step] at h
    split at h
    · split at h
      · exact Or.inl (hflush h hpending)
      · cases h
    · cases h
  | loseState =>
    simp only [Browsing.step] at h
    split at h
    · exact Or.inl (Option.some.inj h ▸ hpending)
    · exact Or.inl (Option.some.inj h ▸ hpending)
    · cases h
  | settleState =>
    simp only [Browsing.step] at h
    split at h
    · exact Or.inl (Option.some.inj h ▸ hpending)
    · exact Or.inl (Option.some.inj h ▸ hpending)
    · cases h
  | resume mutationId =>
    simp only [Browsing.step] at h
    split at h
    · cases h
    · exact Or.inl (hflush h hpending)
    · split at h
      · exact Or.inl (hflush h hpending)
      · exact Or.inl (Option.some.inj h ▸ hpending)
  | handle registry =>
    simp only [Browsing.step] at h
    split at h
    · rw [← Option.some.inj h]
      unfold Browsing.handle
      split <;> exact Or.inl hpending
    · cases h
  | turnAway outcome =>
    simp only [Browsing.step] at h
    split at h
    · split at h
      · exact hsettle outcome (Option.some.inj h)
      · cases h
    · cases h
  | arrive =>
    simp only [Browsing.step] at h
    split at h
    · exact hsettle _ (Option.some.inj h)
    · cases h
  | lose =>
    simp only [Browsing.step] at h
    split at h
    · exact hsettle _ (Option.some.inj h)
    · cases h
  | drain mutationId =>
    simp only [Browsing.step] at h
    split at h
    · refine Or.inl (hsend ?_ h)
      unfold BrowserStore.drainBrowser
      split
      · exact hwrite mutationId hpending
      · exact hpending
    · cases h
  | forget =>
    simp only [Browsing.step] at h
    split at h
    · exact Or.inl (Option.some.inj h ▸ hpending)
    · cases h
  | adopt value =>
    simp only [Browsing.step] at h
    split at h
    · exact Or.inl (Option.some.inj h ▸ hpending)
    · cases h
  | destroy => exact Or.inl (Option.some.inj h ▸ hpending)
  | other request =>
    simp only [Browsing.step] at h
    split at h
    · cases h
    · exact Or.inl (Option.some.inj h ▸ hpending)

structure TabsInv {ι : Type} (browserId : String) (row : Stored BrowserPreferences)
    (system : Tabs ι) : Prop where
  stored : system.server.browserRow browserId = some row
  tab : ∀ i, TabInv (system.foreign i) row (system.tabs i)
  issued : ∀ i pending, (system.tabs i).store.pendingBrowser = some pending →
    pending.body.mutationId ∈ system.issued
  distinct : ∀ i j, i ≠ j → ∀ pending other, (system.tabs i).store.pendingBrowser = some pending →
    (system.tabs j).store.pendingBrowser = some other →
      pending.body.mutationId ≠ other.body.mutationId

namespace TabsInv

variable {ι : Type} {browserId : String} {row row' : Stored BrowserPreferences}
  {system system' : Tabs ι} {text : RequestText} {readable : WorkspaceDocument → Bool}
  {event : BrowserEvent} {after : Browsing} {i j : ι}

theorem start {server : UiStore} (themes : ι → Theme) (hrow : server.browserRow browserId = some row) :
    TabsInv browserId row (.start server themes) where
  stored := hrow
  tab i := .initial (themes i)
  issued := by simp [Tabs.start, BrowserTab.initial, BrowserStore.initial]
  distinct := by simp [Tabs.start, BrowserTab.initial, BrowserStore.initial]

theorem storedEntry_eq {server : UiStore} (hrow : server.browserRow browserId = some row)
    (key : PreferenceKey) : storedEntry browserId server key = key.entry row.document := by
  simp [storedEntry, UiStore.preferences, hrow]

variable [DecidableEq ι]

/-- What a step leaves as another tab made it was so before, unless this step made it. -/
theorem foreign_advance (hrow : system.server.browserRow browserId = some row)
    (hrow' : after.server.browserRow browserId = some row')
    (h : system.advance browserId i event after = some system') {key : PreferenceKey}
    (hforeign : system'.foreign j key) :
    (key.entry row'.document = key.entry row.document ∧ system.foreign j key) ∨
      (key.entry row'.document ≠ key.entry row.document ∧ j ≠ i) := by
  obtain ⟨issued, -, rfl⟩ := Option.map_eq_some_iff.mp h
  obtain ⟨k, hmade, hne⟩ := hforeign
  dsimp only at hmade
  rw [storedEntry_eq hrow, storedEntry_eq hrow'] at hmade
  split at hmade
  · rename_i hsame
    exact Or.inl ⟨hsame, k, hmade, hne⟩
  · rename_i hchanged
    split at hmade
    · obtain rfl := Option.some.inj hmade
      exact Or.inr ⟨hchanged, hne.symm⟩
    · cases hmade

/-- A step of one tab; what is left is what it means for each tab. -/
theorem advance (h : TabsInv browserId row system)
    (hrow' : after.server.browserRow browserId = some row')
    (hpending : after.store.pendingBrowser = (system.tabs i).store.pendingBrowser ∨
      (system.tabs i).store.pendingBrowser = none ∨ after.store.pendingBrowser = none)
    (hadvance : system.advance browserId i event after = some system')
    (hown : TabInv (system'.foreign i) row' (((system.tabs i).change event).move after))
    (hothers : ∀ j, j ≠ i → TabInv (system'.foreign j) row' (system.tabs j)) :
    TabsInv browserId row' system' := by
  obtain ⟨issued, hissue, rfl⟩ := Option.map_eq_some_iff.mp hadvance
  have hstore : (((system.tabs i).change event).move after).store = after.store := by
    unfold BrowserTab.move
    split <;> rfl
  have hissued : system.issued ⊆ issued ∧ ∀ pending, after.store.pendingBrowser = some pending →
      pending.body.mutationId ∈ issued ∧
        ((system.tabs i).store.pendingBrowser = some pending ∨
          pending.body.mutationId ∉ system.issued) := by
    unfold issue at hissue
    split at hissue
    · rename_i pending hnone hsome
      split at hissue
      · cases hissue
      · rename_i hfresh
        obtain rfl := Option.some.inj hissue
        refine ⟨List.subset_cons_self _ _, fun other hother ↦ ?_⟩
        obtain rfl := Option.some.inj (hsome.symm.trans hother)
        exact ⟨List.mem_cons_self, Or.inr hfresh⟩
    · rename_i hnot
      obtain rfl := Option.some.inj hissue
      refine ⟨fun _ ↦ id, fun pending hsome ↦ ?_⟩
      have hsame : (system.tabs i).store.pendingBrowser = some pending := by
        rcases hpending with hsame | hnone | hnone
        · exact hsame ▸ hsome
        · exact (hnot pending hnone hsome).elim
        · rw [hnone] at hsome
          cases hsome
      exact ⟨h.issued i pending hsame, Or.inl hsame⟩
  exact {
    stored := hrow'
    tab := fun j ↦ by
      by_cases hij : j = i
      · subst hij
        dsimp only
        rw [Function.update_self]
        exact hown
      · dsimp only
        rw [Function.update_of_ne hij]
        exact hothers j hij
    issued := fun j pending hsome ↦ by
      by_cases hij : j = i
      · subst hij
        dsimp only at hsome
        rw [Function.update_self, hstore] at hsome
        exact (hissued.2 pending hsome).1
      · dsimp only at hsome
        rw [Function.update_of_ne hij] at hsome
        exact hissued.1 (h.issued j pending hsome)
    distinct := fun j k hne pending other hj hk ↦ by
      dsimp only at hj hk
      have hfresh {k : ι} (hki : k ≠ i) {pending other : PendingBrowser}
          (hi : after.store.pendingBrowser = some pending)
          (hk : (system.tabs k).store.pendingBrowser = some other) :
          pending.body.mutationId ≠ other.body.mutationId := by
        rcases (hissued.2 pending hi).2 with hsame | hnot
        · exact h.distinct i k (Ne.symm hki) pending other hsame hk
        · exact fun heq ↦ hnot (heq ▸ h.issued k other hk)
      by_cases hji : j = i
      · subst hji
        rw [Function.update_self, hstore] at hj
        rw [Function.update_of_ne (Ne.symm hne)] at hk
        exact hfresh (Ne.symm hne) hj hk
      · rw [Function.update_of_ne hji] at hj
        by_cases hki : k = i
        · subst hki
          rw [Function.update_self, hstore] at hk
          exact (hfresh hji hk hj).symm
        · rw [Function.update_of_ne hki] at hk
          exact h.distinct j k hne pending other hj hk }

theorem send_server {before : Browsing} {mutationId : String}
    {result : BrowserStore × Option SaveBrowserPreferences}
    (h : before.send browserId mutationId result = some after) : after.server = before.server := by
  unfold Browsing.send at h
  split at h
  · rw [← Option.some.inj h]
  · split at h
    · cases h
    · rw [← Option.some.inj h]

theorem change_self {tab : BrowserTab} (h : ∀ key, tab.changes event key = false) :
    tab.change event = tab := by
  simp [BrowserTab.change, h]

omit [DecidableEq ι] in
/-- An event that does not reach the stored preferences. -/
theorem quiet (h : TabsInv browserId row system) (hvalid : validBrowserId browserId = true)
    (hundisturbed : system.Undisturbed browserId (i, event))
    (hhandles : event.handles = false) (hother : ∀ request, event ≠ .other request)
    (hstep : ((system.tabs i).view system.server system.published).step text readable browserId
      event = some after) :
    after.server = system.server ∧
      TabInv (system.foreign i) row (((system.tabs i).change event).move after) := by
  have htab := h.tab i
  have hstored : ∀ {browser : BrowserPreferences}, browser.revision = row.document.revision →
      system.Current browserId browser := fun hrevision stored hpreferences ↦ by
    rw [UiStore.preferences, h.stored] at hpreferences
    rw [hrevision, ← Option.some.inj hpreferences]
  have hrequest (workspaces : WorkspaceDocument) (browser : BrowserPreferences)
      (hanswered : (system.tabs i).bootstrap.request = .answered workspaces browser) :
      Older browser row.document := by
    rcases (system.tabs i).bootstrap.request_eq with hsame | hrequested
    · rw [hsame] at hanswered
      exact htab.answered workspaces browser hanswered
    · rw [hrequested] at hanswered
      cases hanswered
  have habsent (hunready : (system.tabs i).store.ready = false) :
      (system.tabs i).store.browserDrain = .absent := (htab.unready hunready).2.2
  cases event with
  | updateBrowser patch mutationId =>
    have hqueue : TabInv (system.foreign i) row { (system.tabs i).change
        (.updateBrowser patch mutationId) with store := (system.tabs i).store.queue patch } := by
      refine htab.requeue (fun key hkey ↦ (Bool.or_eq_false_iff.mp hkey).1)
        fun key _ hkey hdata ↦ ?_
      have hsame := (Bool.or_eq_false_iff.mp hkey).2
      rw [BrowserPatch.merge_apply, PreferenceKey.entry_apply]
      cases hchosen : key.chosen patch with
      | none => exact hdata
      | some chosen =>
        simp only [BrowserTab.changes, hchosen, Option.any_some, decide_eq_false_iff_not,
          not_not] at hsame
        exact hsame.trans hdata
    have hflush := hqueue.flush h.stored hstep
    exact ⟨send_server hstep, hflush⟩
  | select experimentId id mutationId =>
    have hqueue : TabInv (system.foreign i) row { (system.tabs i).change
        (.select experimentId id mutationId) with
        store := (system.tabs i).store.queue
          (.ofSelected ((system.tabs i).store.select experimentId id)) } := by
      refine htab.requeue (fun key hkey ↦ (Bool.or_eq_false_iff.mp hkey).1)
        fun key _ hkey hdata ↦ ?_
      have hne : key ≠ .selected experimentId := by
        simpa [BrowserTab.changes] using (Bool.or_eq_false_iff.mp hkey).2
      rw [BrowserPatch.merge_apply]
      cases key with
      | runColor run => exact hdata
      | selected experiment =>
        have hexperiment : experiment ≠ experimentId := fun heq ↦ hne (heq ▸ rfl)
        change ((system.tabs i).store.select experimentId id).get? experiment = _
        rw [BrowserStore.get?_select, if_neg hexperiment]
        exact hdata
    have hflush := hqueue.flush h.stored hstep
    exact ⟨send_server hstep, hflush⟩
  | bootstrap =>
    rw [← Option.some.inj hstep, change_self fun _ ↦ rfl, TabInv.move_self rfl]
    exact ⟨rfl, htab.restored _ _ rfl rfl rfl rfl htab.drain habsent hrequest⟩
  | retry =>
    rw [← Option.some.inj hstep, change_self fun _ ↦ rfl, TabInv.move_self rfl]
    exact ⟨rfl, htab.restored _ _ rfl rfl rfl rfl htab.drain habsent hrequest⟩
  | resumeAuthentication =>
    rw [← Option.some.inj hstep, change_self fun _ ↦ rfl, TabInv.move_self rfl]
    exact ⟨rfl, htab.restored _ _ rfl rfl rfl rfl htab.drain habsent hrequest⟩
  | serveState fresh =>
    simp only [Browsing.step] at hstep
    split at hstep
    · rename_i session server _ hstate
      obtain ⟨hbrowser, rfl⟩ := uiState_browser hvalid h.stored hstate
      rw [← Option.some.inj hstep, change_self fun _ ↦ rfl, TabInv.move_self rfl, hbrowser]
      refine ⟨rfl, htab.restored _ _ rfl rfl rfl rfl htab.drain habsent
        fun workspaces browser hanswered ↦ ?_⟩
      obtain ⟨-, rfl⟩ := Bootstrap.answered.inj hanswered
      exact Older.refl _
    · cases hstep
  | loadState mutationId =>
    simp only [Browsing.step] at hstep
    split at hstep
    · rename_i workspaces browser hanswered
      split at hstep
      · have hload := htab.loadState hanswered fun hidle hnone hle hcurrent ↦
          hundisturbed workspaces browser hanswered hidle hnone hle (hstored hcurrent)
        rw [change_self fun _ ↦ rfl]
        have hflush := hload.flush h.stored hstep
        exact ⟨send_server hstep, hflush⟩
      · cases hstep
    · cases hstep
  | loseState =>
    simp only [Browsing.step] at hstep
    split at hstep
    · rw [← Option.some.inj hstep, change_self fun _ ↦ rfl, TabInv.move_self rfl]
      exact ⟨rfl, htab.restored _ _ rfl rfl rfl rfl htab.drain habsent (by simp)⟩
    · rw [← Option.some.inj hstep, change_self fun _ ↦ rfl, TabInv.move_self rfl]
      exact ⟨rfl, htab.restored _ _ rfl rfl rfl rfl htab.drain habsent (by simp)⟩
    · cases hstep
  | settleState =>
    simp only [Browsing.step] at hstep
    split at hstep
    · rw [← Option.some.inj hstep, change_self fun _ ↦ rfl, TabInv.move_self rfl]
      exact ⟨rfl, htab.restored _ _ rfl rfl rfl rfl htab.drain habsent (by simp)⟩
    · rw [← Option.some.inj hstep, change_self fun _ ↦ rfl, TabInv.move_self rfl]
      exact ⟨rfl, htab.restored _ _ rfl rfl rfl rfl htab.drain habsent (by simp)⟩
    · cases hstep
  | resume mutationId =>
    rw [change_self fun _ ↦ rfl]
    simp only [Browsing.step] at hstep
    split at hstep
    · cases hstep
    · rename_i rest hresumed
      have hqueue : TabInv (system.foreign i) row { system.tabs i with
          store := { (system.tabs i).store with
            queuedBrowser := (system.tabs i).store.retry.queuedBrowser } } := by
        refine htab.requeue (fun _ hkey ↦ hkey) fun key hforeign hkey hdata ↦ ?_
        cases key with
        | runColor run => exact hdata
        | selected experiment =>
          cases hselected : (system.tabs i).store.queuedBrowser.selected with
          | none =>
            simpa [BrowserTab.data, PreferenceKey.entry_apply, PreferenceKey.chosen,
              BrowserStore.retry, hselected] using hdata
          | some selected =>
            have hshown : selected.get? experiment = row.document.selected.get? experiment := by
              simpa [BrowserTab.data, PreferenceKey.entry, BrowserPatch.apply, hselected]
                using hdata
            simp only [PreferenceKey.entry, BrowserPatch.apply, BrowserStore.retry, hselected,
              Option.map_some, Option.getD_some]
            ext id
            rw [OrderedMap.get?_retain, hshown]
            refine ⟨fun hkept ↦ hkept.1, fun hid ↦ ⟨hid, ?_⟩⟩
            exact hundisturbed rest hresumed selected hselected experiment id (hshown.trans hid)
              ((storedEntry_eq h.stored _).trans hid) hforeign hkey
      have hretry : TabInv (system.foreign i) row { system.tabs i with
          store := (system.tabs i).store.retry, resumed := rest } :=
        hqueue.restored _ _ rfl rfl rfl rfl htab.drain habsent htab.answered
      have hflush := hretry.flush h.stored hstep
      exact ⟨send_server hstep, hflush⟩
    · rename_i blocked rest hresumed
      have hrest : TabInv (system.foreign i) row { system.tabs i with resumed := rest } :=
        htab.restored _ _ rfl rfl rfl rfl htab.drain habsent htab.answered
      split at hstep
      · have hflush := hrest.flush h.stored hstep
        exact ⟨send_server hstep, hflush⟩
      · rw [← Option.some.inj hstep, TabInv.move_self rfl]
        exact ⟨rfl, hrest⟩
  | handle registry => simp [BrowserEvent.handles] at hhandles
  | turnAway outcome =>
    rw [change_self fun _ ↦ rfl]
    simp only [Browsing.step] at hstep
    split at hstep
    · rename_i body rest hwrites
      have hwrites : (system.tabs i).writes = ⟨body, none⟩ :: rest := hwrites
      have hwriting := htab.drain.writing_of_writes (hwrites ▸ List.cons_ne_nil _ _)
      split at hstep
      · rename_i houtcome
        rw [← Option.some.inj hstep]
        have hsettle : TabInv (system.foreign i) row ((system.tabs i).move
            (((system.tabs i).view system.server system.published).settle outcome)) := by
          refine htab.settle hwriting ?_ ?_ ?_
          · rcases houtcome with rfl | rfl | rfl <;> trivial
          · rw [BrowserTab.accepted, hwrites]
            rcases houtcome with rfl | rfl | rfl <;> simp
          · rintro current rfl
            simp at houtcome
        exact ⟨rfl, hsettle⟩
      · cases hstep
    · cases hstep
  | arrive =>
    rw [change_self fun _ ↦ rfl]
    simp only [Browsing.step] at hstep
    split at hstep
    · rename_i body outcome rest hwrites
      have hwrites : (system.tabs i).writes = ⟨body, some outcome⟩ :: rest := hwrites
      have hwriting := htab.drain.writing_of_writes (hwrites ▸ List.cons_ne_nil _ _)
      rw [← Option.some.inj hstep]
      have hsettle : TabInv (system.foreign i) row ((system.tabs i).move
          (((system.tabs i).view system.server system.published).settle outcome)) := by
        refine htab.settle hwriting ?_ ?_ ?_
        · refine htab.reply ⟨body, some outcome⟩ ?_ outcome rfl
          rw [hwrites]
          exact List.mem_cons_self
        · rw [BrowserTab.accepted, hwrites]
          cases outcome <;> simp
        · rintro current rfl hcurrent
          exact hundisturbed body current rest hwrites (hstored hcurrent)
      exact ⟨rfl, hsettle⟩
    · cases hstep
  | lose =>
    rw [change_self fun _ ↦ rfl]
    simp only [Browsing.step] at hstep
    split at hstep
    · rename_i write rest hwrites
      have hwrites : (system.tabs i).writes = write :: rest := hwrites
      obtain ⟨pending, outcome, hpending, hsingle⟩ :=
        htab.drain.writing (htab.drain.writing_of_writes (hwrites ▸ List.cons_ne_nil _ _))
      have hreported := htab.reported (htab.ready_of_pending hpending) false
      have htail : (system.tabs i).writes.tail = [] := by rw [hsingle, List.tail_cons]
      rw [← htail] at hreported
      rw [← Option.some.inj hstep, TabInv.move_self rfl]
      exact ⟨rfl, hreported⟩
    · cases hstep
  | drain mutationId =>
    rw [change_self fun _ ↦ rfl]
    simp only [Browsing.step] at hstep
    split at hstep
    · rename_i htesting
      have hdrains := htab.drains h.stored htesting hstep
      exact ⟨send_server hstep, hdrains⟩
    · cases hstep
  | forget =>
    rw [change_self fun _ ↦ rfl]
    simp only [Browsing.step] at hstep
    split at hstep
    · rename_i hended
      rw [← Option.some.inj hstep, TabInv.move_self rfl]
      refine ⟨rfl, htab.restored _ _ rfl rfl rfl rfl ⟨by simp, fun _ ↦ htab.drain.idle ?_⟩
        (fun _ ↦ rfl) htab.answered⟩
      rw [show (system.tabs i).store.browserDrain = .ended from hended]
      decide
    · cases hstep
  | adopt value =>
    rw [change_self fun _ ↦ rfl]
    simp only [Browsing.step] at hstep
    split at hstep
    · rw [← Option.some.inj hstep, TabInv.move_self rfl]
      exact ⟨rfl, htab.restored _ _ rfl rfl rfl rfl htab.drain habsent htab.answered⟩
    · cases hstep
  | destroy =>
    rw [← Option.some.inj hstep, change_self fun _ ↦ rfl, TabInv.move_self rfl]
    exact ⟨rfl, htab.restored _ _ rfl rfl rfl rfl htab.drain habsent htab.answered⟩
  | other request => exact absurd rfl (hother request)

/-- A step of a tab that leaves the server alone, or lets another request change it. -/
theorem others (h : TabsInv browserId row system)
    (hrow' : after.server.browserRow browserId = some row')
    (hadvance : system.advance browserId i event after = some system')
    (hle : row.document.revision ≤ row'.document.revision)
    (hsame : row'.document.revision = row.document.revision → row'.document = row.document)
    (hmutation : ∀ pending, (system.tabs j).store.pendingBrowser = some pending →
      row'.mutationId = some pending.body.mutationId →
        row.mutationId = row'.mutationId ∧ row'.document = row.document) :
    TabInv (system'.foreign j) row' (system.tabs j) := by
  refine (h.tab j).stored hle hsame (fun hdocument key hforeign ↦ ?_) hmutation
  rcases foreign_advance h.stored hrow' hadvance hforeign with ⟨-, hold⟩ | ⟨hchanged, -⟩
  · exact hold
  · exact absurd (congrArg key.entry hdocument) hchanged

/-- A request of another party prunes the stored preferences or keeps them. -/
theorem other (h : TabsInv browserId row system) {request : UiStore.UiRequest}
    (hstep : ((system.tabs i).view system.server system.published).step text readable browserId
      (.other request) = some after)
    (hadvance : system.advance browserId i (.other request) after = some system') :
    ∃ row', TabsInv browserId row' system' := by
  simp only [Browsing.step] at hstep
  split at hstep
  · cases hstep
  rename_i hwrites
  have hserver : after.server = system.server.step text request := by
    rw [← Option.some.inj hstep]
    rfl
  obtain ⟨row', hrow', hmoved⟩ : ∃ row', after.server.browserRow browserId = some row' ∧
      (row' = row ∨ row'.document.revision = row.document.revision + 1 ∧ row'.mutationId = none) := by
    rw [hserver]
    rcases @step_browserRow text _ _ _ _ (Bool.eq_false_of_not_eq_true hwrites) h.stored with
      hrow | hrow
    · exact ⟨row, hrow, Or.inl rfl⟩
    · refine ⟨_, hrow, ?_⟩
      rcases pruned_eq_or (system.server.step text request).workspaces.document row with
        hsame | hlost
      · exact Or.inl hsame
      · rw [hlost]
        exact Or.inr ⟨rfl, rfl⟩
  have htab (j : ι) : TabInv (system'.foreign j) row' (system.tabs j) := by
    refine h.others hrow' hadvance ?_ (fun heq ↦ ?_) fun pending _ hid ↦ ?_
    · rcases hmoved with rfl | ⟨hnext, -⟩
      · exact le_rfl
      · omega
    · rcases hmoved with rfl | ⟨hnext, -⟩
      · rfl
      · omega
    · rcases hmoved with rfl | ⟨-, hnone⟩
      · exact ⟨rfl, rfl⟩
      · rw [hnone] at hid
        cases hid
  have hsame : (system.tabs i).move after = system.tabs i := by
    rw [← Option.some.inj hstep, TabInv.move_self rfl]
    rfl
  refine ⟨row', h.advance hrow' ?_ hadvance ?_ fun j _ ↦ htab j⟩
  · rw [← Option.some.inj hstep]
    exact Or.inl rfl
  · rw [change_self fun _ ↦ rfl, hsame]
    exact htab i

/-- A write of a tab is answered; nothing is stored. -/
theorem unstored (h : TabsInv browserId row system) {pending : PendingBrowser}
    (hpending : (system.tabs i).store.pendingBrowser = some pending)
    (hwriting : (system.tabs i).store.browserDrain = .writing) {outcome : WriteOutcome}
    (hchange : (system.tabs i).change event = system.tabs i)
    (hafter : after = { (system.tabs i).view system.server system.published with
      writes := [⟨pending.body, some outcome⟩] })
    (hadvance : system.advance browserId i event after = some system')
    (hreply : ∀ foreign, TabInv foreign row (system.tabs i) →
      Tells foreign row.document (system.tabs i) outcome) :
    TabsInv browserId row system' := by
  have hrow' : after.server.browserRow browserId = some row := by
    rw [hafter]
    exact h.stored
  have htab (j : ι) : TabInv (system'.foreign j) row (system.tabs j) :=
    h.others hrow' hadvance le_rfl (fun _ ↦ rfl) fun _ _ _ ↦ ⟨rfl, rfl⟩
  refine h.advance hrow' ?_ hadvance ?_ fun j _ ↦ htab j
  · rw [hafter]
    exact Or.inl rfl
  · rw [hchange, hafter, TabInv.move_self rfl]
    exact (htab i).answer hpending hwriting (hreply _ (htab i))

/-- A write of a tab is committed. -/
theorem committed (h : TabsInv browserId row system) {pending : PendingBrowser}
    (hpending : (system.tabs i).store.pendingBrowser = some pending)
    (hwriting : (system.tabs i).store.browserDrain = .writing) {outcome : WriteOutcome}
    {server : UiStore} (hchange : (system.tabs i).change event = system.tabs i)
    (hafter : after = { (system.tabs i).view server system.published with
      writes := [⟨pending.body, some outcome⟩] })
    (hadvance : system.advance browserId i event after = some system') {revision : ℕ}
    (hrevision : pending.body.revision = row.document.revision)
    (hchanged : UiStore.requestedPreferences revision pending.body = row.document ∨
      revision = pending.body.revision + 1)
    (hstored : server.browserRow browserId = some row')
    (hdocument : row'.document = UiStore.requestedPreferences revision pending.body)
    (hmutation : row'.mutationId = some pending.body.mutationId)
    (hreply : outcome = .accepted row'.document ∨ outcome = .failed) :
    TabsInv browserId row' system' := by
  have hrow' : after.server.browserRow browserId = some row' := by
    rw [hafter]
    exact hstored
  have hmoved : row'.document = row.document ∨
      row'.document.revision = row.document.revision + 1 := by
    rw [hdocument, ← hrevision]
    exact hchanged
  have hforeign (key : PreferenceKey) (hkey : system'.foreign i key) :
      system.foreign i key ∧ key.entry row'.document = key.entry row.document := by
    rcases foreign_advance h.stored hrow' hadvance hkey with ⟨hsame, hold⟩ | ⟨-, hne⟩
    · exact ⟨hold, hsame⟩
    · exact absurd rfl hne
  obtain ⟨hown, hfollows⟩ := (h.tab i).commit hpending hrevision hchanged hdocument hforeign
  refine h.advance hrow' ?_ hadvance ?_ fun j hji ↦ ?_
  · rw [hafter]
    exact Or.inl rfl
  · rw [hchange, hafter, TabInv.move_self rfl]
    refine hown.answer hpending hwriting ?_
    rcases hreply with rfl | rfl
    · exact ⟨Older.refl _, fun _ ↦ hfollows⟩
    · trivial
  · refine h.others hrow' hadvance ?_ (fun heq ↦ ?_) fun other hother hid ↦ ?_
    · rcases hmoved with hsame | hnext
      · rw [hsame]
      · exact hnext ▸ Nat.le_succ _
    · rcases hmoved with hsame | hnext
      · exact hsame
      · exact absurd (heq.symm.trans hnext) (Nat.succ_ne_self _).symm
    · -- no two pending writes share a mutation
      rw [hmutation] at hid
      exact absurd (Option.some.inj hid) (h.distinct i j hji.symm pending other hpending hother)

/-- A write of a tab is handled. -/
theorem handle (h : TabsInv browserId row system) {registry : Repository}
    (hstep : ((system.tabs i).view system.server system.published).step text readable browserId
      (.handle registry) = some after)
    (hadvance : system.advance browserId i (.handle registry) after = some system') :
    ∃ row', TabsInv browserId row' system' ∧ ∀ key, system.foreign i key →
      (system.tabs i).changed key = false →
        key.entry row'.document = key.entry row.document := by
  have htab := h.tab i
  have hchange : (system.tabs i).change (.handle registry) = system.tabs i :=
    change_self fun _ ↦ rfl
  simp only [Browsing.step] at hstep
  split at hstep
  swap
  · cases hstep
  rename_i body rest hwrites
  have hwrites : (system.tabs i).writes = ⟨body, none⟩ :: rest := hwrites
  have hwriting := htab.drain.writing_of_writes (hwrites ▸ List.cons_ne_nil _ _)
  obtain ⟨pending, outcome, hpending, hsingle⟩ := htab.drain.writing hwriting
  obtain ⟨hwrite, rfl⟩ := List.cons.inj (hwrites.symm.trans hsingle)
  obtain ⟨rfl, rfl⟩ := Write.mk.inj hwrite
  have hafter := (Option.some.inj hstep).symm
  unfold Browsing.handle at hafter
  dsimp only [BrowserTab.view] at hafter
  cases hsave : system.server.saveBrowserPreferences text registry browserId pending.body with
  | error error =>
    simp only [hsave] at hafter
    refine ⟨row, h.unstored hpending hwriting hchange hafter hadvance fun foreign _ ↦ ?_,
      fun _ _ _ ↦ rfl⟩
    cases error with
    | uiConflict reason current =>
      rw [WriteOutcome.ofAnswer]
      split
      · rw [saveBrowserPreferences_conflict h.stored hsave]
        exact Older.refl _
      · trivial
    | uiBootstrap reason => trivial
    | invalidInput reason => trivial
    | sqlite => trivial
  | ok result =>
    obtain ⟨document, server⟩ := result
    simp only [hsave] at hafter
    obtain ⟨found, hfound, -, hsaved⟩ := UiStore.saveBrowserPreferences_spec hsave
    obtain rfl := Option.some.inj (h.stored.symm.trans hfound)
    cases hsaved with
    | repeated hid hjson hstore =>
      subst hstore
      refine ⟨row, h.unstored hpending hwriting hchange hafter hadvance fun foreign hforeign ↦ ?_,
        fun _ _ _ ↦ rfl⟩
      rw [WriteOutcome.ofAnswer]
      split
      · exact ⟨Older.refl _, fun _ ↦ (hforeign.frozen pending hpending).repeated hid⟩
      · trivial
    | @written hrevision _ revision hchanged hstore =>
      have hstored : server.browserRow browserId =
          some ⟨UiStore.requestedPreferences revision pending.body,
            some pending.body.mutationId, some (text.browser pending.body)⟩ := by
        rw [hstore, UiStore.browserRow_setBrowser, if_pos rfl, hfound]
        rfl
      refine ⟨_, h.committed hpending hwriting hchange hafter hadvance hrevision hchanged hstored
        rfl rfl ?_, fun key hforeign hkey ↦ htab.kept hpending hrevision hforeign hkey⟩
      rw [WriteOutcome.ofAnswer]
      split
      · exact Or.inl rfl
      · exact Or.inr rfl

/-- Every event keeps the invariant. -/
theorem step (h : TabsInv browserId row system) (hvalid : validBrowserId browserId = true)
    {action : ι × BrowserEvent} (hundisturbed : system.Undisturbed browserId action)
    (hstep : system.step text readable browserId action = some system') :
    ∃ row', TabsInv browserId row' system' := by
  obtain ⟨i, event⟩ := action
  obtain ⟨after, hafter, hadvance⟩ := Option.bind_eq_some_iff.mp hstep
  cases hhandles : event.handles with
  | true =>
    cases event with
    | handle registry =>
      obtain ⟨row', hinv, -⟩ := h.handle hafter hadvance
      exact ⟨row', hinv⟩
    | _ => simp [BrowserEvent.handles] at hhandles
  | false =>
    by_cases hother : ∃ request, event = .other request
    · obtain ⟨request, rfl⟩ := hother
      exact h.other hafter hadvance
    · obtain ⟨hserver, hown⟩ := h.quiet hvalid hundisturbed hhandles
        (fun request heq ↦ hother ⟨request, heq⟩) hafter
      have hrow' : after.server.browserRow browserId = some row := hserver ▸ h.stored
      have hmono (j : ι) (key : PreferenceKey) (hforeign : system'.foreign j key) :
          system.foreign j key := by
        rcases foreign_advance h.stored hrow' hadvance hforeign with ⟨-, hold⟩ | ⟨hchanged, -⟩
        · exact hold
        · exact absurd rfl hchanged
      exact ⟨row, h.advance hrow' (Browsing.step_pendingBrowser hafter) hadvance
        (hown.stored le_rfl (fun _ ↦ rfl) (fun _ ↦ hmono i) fun _ _ _ ↦ ⟨rfl, rfl⟩)
        fun j _ ↦ h.others hrow' hadvance le_rfl (fun _ ↦ rfl) fun _ _ _ ↦ ⟨rfl, rfl⟩⟩

end TabsInv

/-! ## Every run -/

/-- In every run in which what a tab holds agrees with the documents it takes over, no write of a tab
undoes what another tab made of a key that the tab has not changed itself. -/
theorem entries_kept {ι : Type} [DecidableEq ι] {text : RequestText}
    {readable : WorkspaceDocument → Bool} {browserId : String}
    (hbrowser : validBrowserId browserId = true) {server : UiStore}
    (hserver : (server.browserRow browserId).isSome) {themes : ι → Theme}
    {actions : List (ι × BrowserEvent)} {system : Tabs ι}
    (h : (Tabs.start server themes).run text readable browserId actions = some system)
    (hundisturbed : Runs.Along (Tabs.step text readable browserId) (Tabs.Undisturbed browserId)
      actions (Tabs.start server themes))
    (i : ι) (registry : Repository) (system' : Tabs ι)
    (hwrite : system.step text readable browserId (i, .handle registry) = some system')
    (key : PreferenceKey) (j : ι) (hother : j ≠ i) (hmade : system.madeBy key = some j)
    (hunchanged : (system.tabs i).changed key = false) :
    storedEntry browserId system'.server key = storedEntry browserId system.server key := by
  obtain ⟨row, hrow⟩ := Option.isSome_iff_exists.mp hserver
  obtain ⟨row, hinv⟩ := Runs.invariant_along (fun system ↦ ∃ row, TabsInv browserId row system)
    (fun ⟨_, hstate⟩ hcondition hstep ↦ hstate.step hbrowser hcondition hstep)
    ⟨row, TabsInv.start themes hrow⟩ hundisturbed h
  obtain ⟨after, hafter, hadvance⟩ := Option.bind_eq_some_iff.mp hwrite
  obtain ⟨row', hinv', hkept⟩ := hinv.handle hafter hadvance
  rw [TabsInv.storedEntry_eq hinv'.stored, TabsInv.storedEntry_eq hinv.stored]
  exact hkept key ⟨j, hmade, hother⟩ hunchanged

/-- The texts of requests whose strings need no escapes. -/
def sampleTabText : RequestText where
  workspaces input := "\x7b\"revision\":" ++ toString input.revision ++ ",\"mutation_id\":\"" ++
    input.mutationId ++ "\",\"sets\":[" ++ ",".intercalate (input.sets.map fun set ↦
      "\x7b\"id\":\"" ++ set.id ++ "\",\"name\":\"" ++ set.name ++ "\",\"experimentId\":\"" ++
      set.experimentId ++ "\",\"panels\":[],\"sections\":[\x7b\"id\":\"main\",\"name\":\"\"," ++
      "\"collapsed\":false\x7d]\x7d") ++ "]\x7d"
  browser input := "\x7b\"revision\":" ++ toString input.revision ++ ",\"mutation_id\":\"" ++
    input.mutationId ++ "\",\"theme\":\"" ++ (if input.theme = .dark then "dark" else "light") ++
    "\",\"sidebar_width\":" ++ toString input.sidebarWidth ++ ",\"selected\":\x7b" ++
    ",".intercalate (input.selected.entries.map fun entry ↦
      "\"" ++ entry.1 ++ "\":\"" ++ entry.2 ++ "\"") ++ "\x7d,\"run_colors\":\x7b" ++
    ",".intercalate (input.runColors.entries.map fun entry ↦
      "\"" ++ entry.1 ++ "\":\"" ++ entry.2 ++ "\"") ++ "\x7d\x7d"

/-- A registry with two experiments. -/
def sampleExperiments : Repository :=
  Repository.empty.run (fun _ ↦ .ok ())
    [.createProject "project_1" "p" 0, .createExperiment "experiment_1" "project_1" "e" 0,
      .createExperiment "experiment_2" "project_1" "f" 0]

/-- A server that knows one browser and a set of each experiment. -/
def sampleBoards : UiStore :=
  UiStore.initial.run sampleTabText
    [⟨sampleExperiments, .uiState none UiStore.sampleBrowser⟩,
      ⟨sampleExperiments, .saveWorkspaces UiStore.sampleBrowser ⟨0, "layout",
        [⟨"set_1", "Board", "experiment_1", [], [⟨"main", "", false⟩]⟩,
          ⟨"set_2", "Other", "experiment_2", [], [⟨"main", "", false⟩]⟩]⟩⟩]

def sampleTabs : Tabs ℕ := .start sampleBoards fun _ ↦ .light

/-- A tab loads the settings. -/
def sampleLoad (tab : ℕ) : List (ℕ × BrowserEvent) :=
  [(tab, .bootstrap), (tab, .serveState ""), (tab, .loadState ""), (tab, .settleState)]

/-- A tab selects a set, the write is handled, and its reply arrives. -/
def sampleSelection (tab : ℕ) (experiment set mutationId : String) : List (ℕ × BrowserEvent) :=
  [(tab, .select experiment (some set) mutationId), (tab, .handle sampleExperiments),
    (tab, .arrive), (tab, .drain ""), (tab, .forget)]

/-- One tab selects, then another one that loaded after it, whose write is not handled yet. -/
def sampleTurns : List (ℕ × BrowserEvent) :=
  sampleLoad 0 ++ sampleSelection 0 "experiment_1" "set_1" "first" ++ sampleLoad 1 ++
    [(1, .select "experiment_2" (some "set_2") "second")]

/-- A reply accepts the write, and a tab that loads the settings holds nothing. -/
def sampleCalm (system : Tabs ℕ) (action : ℕ × BrowserEvent) : Bool :=
  match action.2 with
  | .arrive => (system.tabs action.1).accepted
  | .loadState _ => (system.tabs action.1).store.held = .empty
  | .resume _ => false
  | _ => true

theorem undisturbed_of_calm (system : Tabs ℕ) (action : ℕ × BrowserEvent)
    (h : sampleCalm system action = true) :
    system.Undisturbed UiStore.sampleBrowser action := by
  obtain ⟨i, event⟩ := action
  cases event with
  | arrive =>
    intro body current rest hwrites
    simp [sampleCalm, BrowserTab.accepted, hwrites] at h
  | loadState mutationId =>
    intro workspaces browser _ _ _ _ _ key _ _
    have hheld : (system.tabs i).store.held = .empty := of_decide_eq_true h
    rw [hheld, BrowserPatch.empty_apply]
  | resume mutationId => cases h
  | _ => trivial

theorem entries_kept_sample :
    ∃ system system' : Tabs ℕ,
      sampleTabs.run sampleTabText sampleReadable UiStore.sampleBrowser sampleTurns = some system ∧
      system.step sampleTabText sampleReadable UiStore.sampleBrowser
        (1, .handle sampleExperiments) = some system' ∧
      storedEntry UiStore.sampleBrowser system'.server (.selected "experiment_1") =
        storedEntry UiStore.sampleBrowser system.server (.selected "experiment_1") ∧
      storedEntry UiStore.sampleBrowser system'.server (.selected "experiment_2") =
        some "set_2" := by
  have hrun : ((sampleTabs.run sampleTabText sampleReadable UiStore.sampleBrowser sampleTurns).bind
      fun system ↦ (system.step sampleTabText sampleReadable UiStore.sampleBrowser
        (1, .handle sampleExperiments)).map fun system' ↦
          (system.madeBy (.selected "experiment_1"),
            (system.tabs 1).changed (.selected "experiment_1"),
            storedEntry UiStore.sampleBrowser system'.server (.selected "experiment_2"))) =
      some (some 0, false, some "set_2") := by decide +kernel
  obtain ⟨system, hsystem, hrest⟩ := Option.bind_eq_some_iff.mp hrun
  obtain ⟨system', hwrite, hshown⟩ := Option.map_eq_some_iff.mp hrest
  simp only [Prod.mk.injEq] at hshown
  have halong : Runs.Along (Tabs.step sampleTabText sampleReadable UiStore.sampleBrowser)
      (fun system action ↦ sampleCalm system action = true) sampleTurns sampleTabs := by
    decide +kernel
  refine ⟨system, system', hsystem, hwrite, ?_, hshown.2.2⟩
  exact entries_kept (by decide +kernel) (by decide +kernel) hsystem
    (halong.mono undisturbed_of_calm) 1 sampleExperiments system' hwrite
    (.selected "experiment_1") 0 (by decide) hshown.1 hshown.2.1

/-- Two tabs load the settings and select sets of different experiments.  The second write is refused
as a conflict, and its tab retries it. -/
def sampleConflict : List (ℕ × BrowserEvent) :=
  sampleLoad 0 ++ sampleLoad 1 ++ [(0, .select "experiment_1" (some "set_1") "first")] ++
    sampleSelection 1 "experiment_2" "set_2" "second" ++
    [(0, .handle sampleExperiments), (0, .arrive), (0, .drain ""), (0, .forget), (0, .retry),
      (0, .serveState ""), (0, .loadState ""), (0, .settleState), (0, .resume "third")]

/-- The retry undoes the selection of the other tab, which the tab never touched. -/
theorem retry_undoes_selection :
    ∃ system system' : Tabs ℕ,
      sampleTabs.run sampleTabText sampleReadable UiStore.sampleBrowser sampleConflict =
        some system ∧
      system.step sampleTabText sampleReadable UiStore.sampleBrowser
        (0, .handle sampleExperiments) = some system' ∧
      system.madeBy (.selected "experiment_2") = some 1 ∧
      (system.tabs 0).changed (.selected "experiment_2") = false ∧
      storedEntry UiStore.sampleBrowser system.server (.selected "experiment_2") = some "set_2" ∧
      storedEntry UiStore.sampleBrowser system'.server (.selected "experiment_2") = none := by
  have hrun : ((sampleTabs.run sampleTabText sampleReadable UiStore.sampleBrowser
      sampleConflict).bind fun system ↦
      (system.step sampleTabText sampleReadable UiStore.sampleBrowser
        (0, .handle sampleExperiments)).map fun system' ↦
          (system.madeBy (.selected "experiment_2"),
            (system.tabs 0).changed (.selected "experiment_2"),
            storedEntry UiStore.sampleBrowser system.server (.selected "experiment_2"),
            storedEntry UiStore.sampleBrowser system'.server (.selected "experiment_2"))) =
      some (some 1, false, some "set_2", none) := by decide +kernel
  obtain ⟨system, hsystem, hrest⟩ := Option.bind_eq_some_iff.mp hrun
  obtain ⟨system', hwrite, hshown⟩ := Option.map_eq_some_iff.mp hrest
  simp only [Prod.mk.injEq] at hshown
  exact ⟨system, system', hsystem, hwrite, hshown.1, hshown.2.1, hshown.2.2.1, hshown.2.2.2⟩

end Rvx.Web
