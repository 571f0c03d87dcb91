import Mathlib.Data.List.Count

/-!
# Runs of a partial step function

A run applies actions one after another, and has no result once an action is not enabled.  What
every step preserves holds at its end, and a measure that some actions bring down is zero once
enough of them have run.
-/

namespace Rvx.Runs

variable {σ α : Type} {step : σ → α → Option σ}

/-- The state after a list of actions. -/
def after (step : σ → α → Option σ) (actions : List α) (state : σ) : Option σ :=
  actions.foldlM step state

@[simp]
theorem after_nil {state : σ} : after step [] state = some state := rfl

theorem after_cons {action : α} {rest : List α} {state state' : σ} :
    after step (action :: rest) state = some state' ↔
      ∃ middle, step state action = some middle ∧ after step rest middle = some state' := by
  simp [after, Option.bind_eq_some_iff]

/-- What one step preserves holds after every run. -/
theorem invariant (property : σ → Prop)
    (hstep : ∀ {state action state'}, property state → step state action = some state' →
      property state')
    {actions : List α} {state state' : σ} (hstate : property state)
    (h : after step actions state = some state') : property state' := by
  induction actions generalizing state with
  | nil =>
    rw [after_nil, Option.some.injEq] at h
    exact h ▸ hstate
  | cons action rest ih =>
    obtain ⟨middle, hmiddle, hrest⟩ := after_cons.mp h
    exact ih (hstep hstate hmiddle) hrest

/-- Actions that all lower a measure come to an end. -/
theorem length_le_measure (property : σ → Prop) (measure : σ → ℕ) (counted : α → Prop)
    (hproperty : ∀ {state action state'}, property state → step state action = some state' →
      property state')
    (hmeasure : ∀ {state action state'}, property state → counted action →
      step state action = some state' → measure state' < measure state)
    {actions : List α} (hcounted : ∀ action ∈ actions, counted action) {state state' : σ}
    (hstate : property state) (h : after step actions state = some state') :
    actions.length ≤ measure state := by
  induction actions generalizing state with
  | nil => exact Nat.zero_le _
  | cons action rest ih =>
    rw [List.forall_mem_cons] at hcounted
    obtain ⟨middle, hmiddle, hrest⟩ := after_cons.mp h
    have hless := hmeasure hstate hcounted.1 hmiddle
    have hbound := ih hcounted.2 (hproperty hstate hmiddle) hrest
    rw [List.length_cons]
    omega

/-- Every step of a run meets a condition on its action and the state before it. -/
def Along (step : σ → α → Option σ) (condition : σ → α → Prop) : List α → σ → Prop
  | [], _ => True
  | action :: rest, state => condition state action ∧
      ∀ middle, step state action = some middle → Along step condition rest middle

theorem Along.mono {condition weaker : σ → α → Prop}
    (h : ∀ state action, condition state action → weaker state action) :
    ∀ {actions : List α} {state : σ}, Along step condition actions state →
      Along step weaker actions state
  | [], _, _ => trivial
  | _ :: _, _, halong =>
    ⟨h _ _ halong.1, fun middle hmiddle ↦ Along.mono h (halong.2 middle hmiddle)⟩

/-- A condition that an invariant turns into another one. -/
theorem Along.weaken {condition weaker : σ → α → Prop} (property : σ → Prop)
    (hstep : ∀ {state action state'}, property state → condition state action →
      step state action = some state' → property state')
    (h : ∀ {state action}, property state → condition state action → weaker state action)
    {actions : List α} {state : σ} (hstate : property state)
    (halong : Along step condition actions state) : Along step weaker actions state := by
  induction actions generalizing state with
  | nil => trivial
  | cons action rest ih =>
    exact ⟨h hstate halong.1, fun middle hmiddle ↦
      ih (hstep hstate halong.1 hmiddle) (halong.2 middle hmiddle)⟩

/-- A condition on the actions alone. -/
theorem Along.of_forall {condition : σ → α → Prop} {actions : List α} {state : σ}
    (h : ∀ state, ∀ action ∈ actions, condition state action) :
    Along step condition actions state := by
  induction actions generalizing state with
  | nil => trivial
  | cons action rest ih =>
    exact ⟨h state action List.mem_cons_self, fun _ _ ↦
      ih fun state other hother ↦ h state other (List.mem_cons_of_mem action hother)⟩

instance decidableAlong (step : σ → α → Option σ) (condition : σ → α → Prop)
    [∀ state action, Decidable (condition state action)] :
    (actions : List α) → (state : σ) → Decidable (Along step condition actions state)
  | [], _ => .isTrue trivial
  | action :: rest, state =>
    match hstep : step state action with
    | none => decidable_of_iff (condition state action) (by simp [Along, hstep])
    | some middle =>
      have := decidableAlong step condition rest middle
      decidable_of_iff (condition state action ∧ Along step condition rest middle)
        (by simp [Along, hstep])

/-- What one step preserves under a condition holds after every run that meets it. -/
theorem invariant_along {condition : σ → α → Prop} (property : σ → Prop)
    (hstep : ∀ {state action state'}, property state → condition state action →
      step state action = some state' → property state')
    {actions : List α} {state state' : σ} (hstate : property state)
    (halong : Along step condition actions state)
    (h : after step actions state = some state') : property state' := by
  induction actions generalizing state with
  | nil =>
    rw [after_nil, Option.some.injEq] at h
    exact h ▸ hstate
  | cons action rest ih =>
    obtain ⟨middle, hmiddle, hrest⟩ := after_cons.mp h
    exact ih (hstep hstate halong.1 hmiddle) (halong.2 middle hmiddle) hrest

/-- A property that never comes back once it is lost held all along if it holds at the end. -/
theorem backward (property Open : σ → Prop)
    (hproperty : ∀ {state action state'}, property state → step state action = some state' →
      property state')
    (hopen : ∀ {state action state'}, property state → step state action = some state' →
      Open state' → Open state)
    {actions : List α} {state state' : σ} (hstate : property state)
    (h : after step actions state = some state') (hlast : Open state') : Open state := by
  induction actions generalizing state with
  | nil =>
    rw [after_nil, Option.some.injEq] at h
    exact h ▸ hlast
  | cons action rest ih =>
    obtain ⟨middle, hmiddle, hrest⟩ := after_cons.mp h
    exact hopen hstate hmiddle (ih (hproperty hstate hmiddle) hrest)

/-- If no step raises the measure and every counted one lowers it, a run with enough counted
actions ends at zero.  The steps only need to do so while `Open` holds. -/
theorem drains (property Open : σ → Prop) (measure : σ → ℕ) (counted : α → Bool)
    (hproperty : ∀ {state action state'}, property state → step state action = some state' →
      property state')
    (hopen : ∀ {state action state'}, property state → step state action = some state' →
      Open state' → Open state)
    {actions : List α}
    (hmeasure : ∀ {state action state'}, property state → Open state → action ∈ actions →
      step state action = some state' → measure state' ≤ measure state ∧
        (counted action = true → 0 < measure state → measure state' < measure state))
    {state state' : σ} (hstate : property state) (h : after step actions state = some state')
    (hlast : Open state') (hcount : measure state ≤ actions.countP counted) :
    measure state' = 0 := by
  induction actions generalizing state with
  | nil =>
    rw [after_nil, Option.some.injEq] at h
    simpa [h] using hcount
  | cons action rest ih =>
    have hfirst := backward property Open hproperty hopen hstate h hlast
    obtain ⟨middle, hmiddle, hrest⟩ := after_cons.mp h
    obtain ⟨hle, hlt⟩ := hmeasure hstate hfirst List.mem_cons_self hmiddle
    refine ih (fun hstate hopen hmem ↦ hmeasure hstate hopen (List.mem_cons_of_mem _ hmem))
      (hproperty hstate hmiddle) hrest ?_
    rw [List.countP_cons] at hcount
    split at hcount
    · rename_i hcounted
      by_cases hzero : measure state = 0
      · omega
      · have hless := hlt hcounted (Nat.pos_of_ne_zero hzero)
        omega
    · omega

end Rvx.Runs
