import Mathlib.Control.Basic
import Mathlib.Data.List.Perm.Basic

/-!
# Scripts over a transactional store

A script is a sequence of statements that share one store.  A failing statement aborts the script
but leaves the writes made before it: only a savepoint undoes them.  This file gives the monad,
the inversion rule of every combinator, and a connection whose stack of savepoints restores the
state on rollback.  Running a script inside a savepoint is then shown to be all or nothing.
-/

namespace Rvx

/-- A script over the store `σ`; the returned store also carries the writes of a failed run. -/
def Script (σ ε α : Type) : Type := σ → Except ε α × σ

namespace Script

variable {σ τ ε α β : Type}

instance : Monad (Script σ ε) where
  pure value := fun store ↦ (.ok value, store)
  bind script next := fun store ↦
    match script store with
    | (.ok value, store') => next value store'
    | (.error reason, store') => (.error reason, store')

instance : MonadExceptOf ε (Script σ ε) where
  throw reason := fun store ↦ (.error reason, store)
  tryCatch script handler := fun store ↦
    match script store with
    | (.ok value, store') => (.ok value, store')
    | (.error reason, store') => handler reason store'

/-- Read a value off the current store. -/
def read (view : σ → α) : Script σ ε α := fun store ↦ (.ok (view store), store)

/-- Write the store. -/
def modify (change : σ → σ) : Script σ ε Unit := fun store ↦ (.ok (), change store)

/-- A check that does not touch the store. -/
def check (result : Except ε α) : Script σ ε α := fun store ↦ (result, store)

/-- A statement that either writes the store or fails without writing. -/
def attempt (change : σ → Except ε σ) : Script σ ε Unit := fun store ↦
  match change store with
  | .ok store' => (.ok (), store')
  | .error reason => (.error reason, store)

/-- Run a script on one component of a larger store. -/
def on (view : τ → σ) (update : σ → τ → τ) (script : Script σ ε α) : Script τ ε α := fun store ↦
  let (result, part) := script (view store)
  (result, update part store)

/-- Run a script on a component that may be missing. -/
def onSome (view : τ → Option σ) (update : σ → τ → τ) (missing : ε) (script : Script σ ε α) :
    Script τ ε α := fun store ↦
  match view store with
  | none => (.error missing, store)
  | some component => script.on (fun _ ↦ component) update store

/-- Run a statement for every item of a list. -/
def forEach (items : List β) (statement : β → Script σ ε Unit) : Script σ ε Unit :=
  match items with
  | [] => pure ()
  | item :: rest => do
    statement item
    forEach rest statement

/-- The results of a statement for every item of a list. -/
def collect (items : List β) (statement : β → Script σ ε α) : Script σ ε (List α) :=
  match items with
  | [] => pure []
  | item :: rest => do
    let value ← statement item
    let values ← collect rest statement
    return value :: values

/-- The script runs to its end from `store`, returning `value` and leaving `store'`. -/
def Returns (script : Script σ ε α) (store : σ) (value : α) (store' : σ) : Prop :=
  script store = (.ok value, store')

theorem Returns.unique {script : Script σ ε α} {store store' store'' : σ} {value value' : α}
    (h : script.Returns store value store') (h' : script.Returns store value' store'') :
    value = value' ∧ store' = store'' := by
  have heq := h.symm.trans h'
  simpa using heq

theorem bind_ok {script : Script σ ε α} {next : α → Script σ ε β} {store store' : σ} {value : α}
    (h : script store = (.ok value, store')) : (script >>= next) store = next value store' := by
  simp only [bind, h]

theorem bind_error {script : Script σ ε α} {next : α → Script σ ε β} {store store' : σ}
    {reason : ε} (h : script store = (.error reason, store')) :
    (script >>= next) store = (.error reason, store') := by
  simp only [bind, h]

/-! ## Inversion rules -/

@[simp]
theorem returns_pure {store store' : σ} {value value' : α} :
    (pure value : Script σ ε α).Returns store value' store' ↔ value = value' ∧ store = store' := by
  simp [Returns, pure]

@[simp]
theorem returns_bind {script : Script σ ε α} {next : α → Script σ ε β} {store store' : σ}
    {value : β} :
    (script >>= next).Returns store value store' ↔
      ∃ middle store'', script.Returns store middle store'' ∧
        (next middle).Returns store'' value store' := by
  simp only [Returns, bind]
  rcases hrun : script store with ⟨result, store''⟩
  cases result with
  | ok middle => simp
  | error reason => simp

@[simp]
theorem returns_throw {reason : ε} {store store' : σ} {value : α} :
    ¬ (throw reason : Script σ ε α).Returns store value store' := by
  simp [Returns, throw, throwThe, MonadExceptOf.throw]

@[simp]
theorem returns_read {view : σ → α} {store store' : σ} {value : α} :
    (read view : Script σ ε α).Returns store value store' ↔
      view store = value ∧ store = store' := by
  simp [Returns, read]

@[simp]
theorem returns_modify {change : σ → σ} {store store' : σ} {value : Unit} :
    (modify change : Script σ ε Unit).Returns store value store' ↔ change store = store' := by
  simp [Returns, modify]

@[simp]
theorem returns_check {result : Except ε α} {store store' : σ} {value : α} :
    (check result : Script σ ε α).Returns store value store' ↔
      result = .ok value ∧ store = store' := by
  simp [Returns, check]

@[simp]
theorem returns_attempt {change : σ → Except ε σ} {store store' : σ} {value : Unit} :
    (attempt change).Returns store value store' ↔ change store = .ok store' := by
  unfold Returns attempt
  cases change store with
  | ok store'' => simp
  | error reason => simp

@[simp]
theorem returns_on {view : τ → σ} {update : σ → τ → τ} {script : Script σ ε α}
    {store store' : τ} {value : α} :
    (script.on view update).Returns store value store' ↔
      ∃ part, script.Returns (view store) value part ∧ update part store = store' := by
  simp only [Returns, on]
  rcases hrun : script (view store) with ⟨result, part⟩
  constructor
  · intro h
    obtain ⟨rfl, rfl⟩ := by simpa using h
    exact ⟨part, rfl, rfl⟩
  · rintro ⟨part', h, rfl⟩
    simp_all

@[simp]
theorem returns_onSome {view : τ → Option σ} {update : σ → τ → τ} {missing : ε}
    {script : Script σ ε α} {store store' : τ} {value : α} :
    (script.onSome view update missing).Returns store value store' ↔
      ∃ component, view store = some component ∧
        ∃ part, script.Returns component value part ∧ update part store = store' := by
  unfold onSome
  cases hview : view store with
  | none => simp [Returns, hview]
  | some component =>
    have hrun : (script.on (fun _ : τ ↦ component) update).Returns store value store' ↔
        ∃ part, script.Returns component value part ∧ update part store = store' := returns_on
    simpa [Returns, hview] using hrun

/-- A loop over two lists in a row. -/
theorem returns_forEach_append {items rest : List β} {statement : β → Script σ ε Unit}
    {store store' : σ} :
    (forEach (items ++ rest) statement).Returns store () store' ↔
      ∃ middle, (forEach items statement).Returns store () middle ∧
        (forEach rest statement).Returns middle () store' := by
  induction items generalizing store with
  | nil => simp [forEach]
  | cons item others ih =>
    simp only [List.cons_append, forEach, returns_bind, ih]
    constructor
    · rintro ⟨_, next, hitem, middle, hothers, hrest⟩
      exact ⟨middle, ⟨(), next, hitem, hothers⟩, hrest⟩
    · rintro ⟨middle, ⟨_, next, hitem, hothers⟩, hrest⟩
      exact ⟨(), next, hitem, middle, hothers, hrest⟩

/-- Every turn of a loop runs to its end. -/
theorem returns_of_mem {items : List β} {statement : β → Script σ ε Unit} {store store' : σ}
    (h : (forEach items statement).Returns store () store') {item : β} (hitem : item ∈ items) :
    ∃ before after, (statement item).Returns before () after := by
  induction items generalizing store with
  | nil => cases hitem
  | cons first rest ih =>
    rw [forEach, returns_bind] at h
    obtain ⟨_, middle, hfirst, hrest⟩ := h
    cases List.mem_cons.mp hitem with
    | inl heq => exact ⟨store, middle, heq ▸ hfirst⟩
    | inr hmem => exact ih hrest hmem

/-- A property that every turn of a loop keeps holds after the loop. -/
theorem Returns.foldlM {property : α → Prop} {step : α → β → Script σ ε α} {items : List β}
    (hstep : ∀ item ∈ items, ∀ state state' store store', property state →
      (step state item).Returns store state' store' → property state')
    {start stop : α} {store store' : σ} (hstart : property start)
    (h : (items.foldlM step start).Returns store stop store') : property stop := by
  induction items generalizing start store with
  | nil =>
    rw [List.foldlM_nil, returns_pure] at h
    exact h.1 ▸ hstart
  | cons item rest ih =>
    rw [List.foldlM_cons, returns_bind] at h
    obtain ⟨middle, between, hitem, hrest⟩ := h
    refine ih (fun other hother ↦ hstep other (List.mem_cons_of_mem _ hother)) ?_ hrest
    exact hstep item List.mem_cons_self _ _ _ _ hstart hitem

/-- The same of a property that speaks of the items seen so far. -/
theorem Returns.foldlM_seen {property : List β → α → Prop} {step : α → β → Script σ ε α}
    {items : List β}
    (hstep : ∀ seen item state state' store store', property seen state →
      (step state item).Returns store state' store' → property (seen ++ [item]) state')
    {start stop : α} {store store' : σ} (hstart : property [] start)
    (h : (items.foldlM step start).Returns store stop store') : property items stop := by
  have hfold (seen rest : List β) (state : α) (before : σ) (hseen : property seen state)
      (hrun : (rest.foldlM step state).Returns before stop store') :
      property (seen ++ rest) stop := by
    induction rest generalizing seen state before with
    | nil =>
      rw [List.foldlM_nil, returns_pure] at hrun
      rw [List.append_nil, ← hrun.1]
      exact hseen
    | cons item rest ih =>
      rw [List.foldlM_cons, returns_bind] at hrun
      obtain ⟨next, middle, hitem, hrun⟩ := hrun
      rw [List.append_cons]
      exact ih (seen ++ [item]) next middle (hstep _ _ _ _ _ _ hseen hitem) hrun
  exact hfold [] items start store hstart h

/-- Every result is that of its item, from some store. -/
theorem forall₂_of_collect {items : List β} {statement : β → Script σ ε α} {store store' : σ}
    {values : List α} (h : (collect items statement).Returns store values store') :
    List.Forall₂ (fun item value ↦ ∃ before after, (statement item).Returns before value after)
      items values := by
  induction items generalizing store values with
  | nil =>
    rw [collect, returns_pure] at h
    exact h.1 ▸ List.Forall₂.nil
  | cons item rest ih =>
    simp only [collect, returns_bind, returns_pure] at h
    obtain ⟨value, middle, hvalue, others, _, hothers, rfl, rfl⟩ := h
    exact List.Forall₂.cons ⟨store, middle, hvalue⟩ (ih hothers)

theorem exists_of_mem_collect {items : List β} {statement : β → Script σ ε α} {store store' : σ}
    {values : List α} (h : (collect items statement).Returns store values store') {value : α}
    (hvalue : value ∈ values) :
    ∃ item ∈ items, ∃ before after, (statement item).Returns before value after := by
  have hall := forall₂_of_collect h
  obtain ⟨index, hindex, rfl⟩ := List.mem_iff_getElem.mp hvalue
  have hitem : index < items.length := hall.length_eq ▸ hindex
  exact ⟨items[index], List.getElem_mem hitem, hall.get hitem hindex⟩

/-- What a result has in common with its item, the results have in common with the items. -/
theorem map_of_collect {γ : Type} (shown : α → γ) (expected : β → γ) {items : List β}
    {statement : β → Script σ ε α} {store store' : σ} {values : List α}
    (hsame : ∀ item ∈ items, ∀ value before after,
      (statement item).Returns before value after → shown value = expected item)
    (h : (collect items statement).Returns store values store') :
    values.map shown = items.map expected := by
  induction items generalizing store values with
  | nil =>
    rw [collect, returns_pure] at h
    rw [← h.1]
    rfl
  | cons item rest ih =>
    simp only [collect, returns_bind, returns_pure] at h
    obtain ⟨value, middle, hvalue, others, _, hothers, rfl, rfl⟩ := h
    rw [List.map_cons, List.map_cons, hsame item List.mem_cons_self value store middle hvalue,
      ih (fun other hother ↦ hsame other (List.mem_cons_of_mem _ hother)) hothers]

@[simp]
theorem returns_ite {condition : Prop} [Decidable condition] {yes no : Script σ ε α}
    {store store' : σ} {value : α} :
    (if condition then yes else no).Returns store value store' ↔
      (condition ∧ yes.Returns store value store') ∨
        (¬ condition ∧ no.Returns store value store') := by
  split <;> simp_all

/-- A statement of which there are two versions. -/
theorem returns_ite_bind {condition : Prop} [Decidable condition] {yes no : Script σ ε α}
    {next : α → Script σ ε β} {store store' : σ} {value : β} :
    (if condition then yes >>= next else no >>= next).Returns store value store' ↔
      ∃ middle store'', (if condition then yes else no).Returns store middle store'' ∧
        (next middle).Returns store'' value store' := by
  split <;> exact returns_bind

/-! ## Results that do not depend on the store -/

/-- Whenever the script runs to its end, its result is the same. -/
def Steady (script : Script σ ε α) : Prop :=
  ∀ store value store', script.Returns store value store' →
    ∀ other value' other', script.Returns other value' other' → value = value'

theorem steady_pure (value : α) : Steady (pure value : Script σ ε α) := by
  intro store value' store' h other value'' other' h'
  rw [← (returns_pure.mp h).1, ← (returns_pure.mp h').1]

theorem steady_check (result : Except ε α) : Steady (check result : Script σ ε α) := by
  intro store value store' h other value' other' h'
  have heq := (returns_check.mp h).1.symm.trans (returns_check.mp h').1
  exact Except.ok.inj heq

/-- A statement has no result. -/
theorem steady_unit (script : Script σ ε Unit) : Steady script := fun _ _ _ _ _ _ _ _ ↦ rfl

theorem Steady.bind {script : Script σ ε α} {next : α → Script σ ε β} (h : Steady script)
    (hnext : ∀ value, Steady (next value)) : Steady (script >>= next) := by
  intro store value store' hrun other value' other' hrun'
  obtain ⟨middle, _, hmiddle, hrun⟩ := returns_bind.mp hrun
  obtain ⟨middle', _, hmiddle', hrun'⟩ := returns_bind.mp hrun'
  obtain rfl := h _ _ _ hmiddle _ _ _ hmiddle'
  exact hnext middle _ _ _ hrun _ _ _ hrun'

theorem steady_collect {items : List β} {statement : β → Script σ ε α}
    (h : ∀ item, Steady (statement item)) : Steady (collect items statement) := by
  induction items with
  | nil => exact steady_pure []
  | cons item rest ih => exact (h item).bind fun value ↦ ih.bind fun values ↦ steady_pure _

/-- A loop over the same items in another order has the same results, in that order. -/
theorem collect_perm {items items' : List β} {statement : β → Script σ ε α}
    (h : ∀ item, Steady (statement item)) (hperm : items'.Perm items)
    {store store' other other' : σ} {values values' : List α}
    (hrun : (collect items statement).Returns store values store')
    (hrun' : (collect items' statement).Returns other values' other') :
    values'.Perm values := by
  have hunique : Relator.RightUnique fun item value ↦
      ∃ before after, (statement item).Returns before value after := by
    rintro item value value' ⟨before, after, hvalue⟩ ⟨before', after', hvalue'⟩
    exact h item _ _ _ hvalue _ _ _ hvalue'
  obtain ⟨middle, hmiddle, hvalues⟩ := List.perm_comp_forall₂ hperm (forall₂_of_collect hrun)
  rw [List.right_unique_forall₂' hunique (forall₂_of_collect hrun') hmiddle]
  exact hvalues

/-! ## Savepoints -/

/-- A connection: the current store under a stack of states saved by open savepoints. -/
structure Connection (σ : Type) where
  current : σ
  saved : List σ

/-- Open a savepoint. -/
def savepoint : Script (Connection σ) ε Unit :=
  modify fun connection ↦ ⟨connection.current, connection.current :: connection.saved⟩

/-- Release the innermost savepoint, keeping the writes made since it. -/
def release : Script (Connection σ) ε Unit :=
  modify fun connection ↦ ⟨connection.current, connection.saved.tail⟩

/-- Roll back to the innermost savepoint and drop it. -/
def rollback : Script (Connection σ) ε Unit :=
  modify fun connection ↦
    match connection.saved with
    | [] => connection
    | state :: rest => ⟨state, rest⟩

/-- Run a script on the current store of a connection. -/
def execute (script : Script σ ε α) : Script (Connection σ) ε α :=
  script.on Connection.current fun store connection ↦ { connection with current := store }

/-- The intended meaning of a guarded script: its writes happen only when it succeeds. -/
def atomically (script : Script σ ε α) (store : σ) : Except ε α × σ :=
  match script store with
  | (.ok value, store') => (.ok value, store')
  | (.error reason, _) => (.error reason, store)

theorem atomically_ok {script : Script σ ε α} {store store' : σ} {value : α} :
    script.atomically store = (.ok value, store') ↔ script.Returns store value store' := by
  unfold atomically Returns
  rcases script store with ⟨result, store''⟩
  cases result with
  | ok value' => simp
  | error reason => simp

theorem atomically_error {script : Script σ ε α} {store store' : σ} {reason : ε}
    (h : script.atomically store = (.error reason, store')) : store' = store := by
  unfold atomically at h
  rcases hrun : script store with ⟨result, store''⟩
  rw [hrun] at h
  cases result with
  | ok value => simp at h
  | error reason' =>
    simp only [Prod.mk.injEq] at h
    exact h.2.symm

/-- A script in its own savepoint, released on success and rolled back on failure. -/
def guarded (script : Script σ ε α) : Script (Connection σ) ε (Except ε α) := do
  savepoint
  let result ← fun connection ↦
    let (result, connection') := execute script connection
    (.ok result, connection')
  match result with
  | .ok value => do
    release
    pure (.ok value)
  | .error reason => do
    rollback
    pure (.error reason)

/-- A savepoint makes the guarded script atomic and leaves the enclosing stack as it was. -/
theorem guarded_eq (script : Script σ ε α) (connection : Connection σ) :
    guarded script connection =
      let (result, store) := script.atomically connection.current
      (.ok result, ⟨store, connection.saved⟩) := by
  unfold guarded atomically
  simp only [bind, pure, savepoint, modify, execute, on]
  rcases script connection.current with ⟨result, store⟩
  cases result with
  | ok value => rfl
  | error reason => rfl

end Script

end Rvx
