import Rvx.Lib.Check

/-!
# Recursive descent

A reader takes a tree off the front of a text and spends fuel on every call.  A level of
left-associative operators reads an operand and then a loop joins one more operand after another.
The rules below say which texts such a level reads as which trees, and what all its trees share.
-/

namespace Rvx.Descent

variable {τ α β ε : Type}

/-- The tree read and what is left of the text. -/
abbrev Reader (τ α ε : Type) : Type := ℕ → List τ → Except ε (α × List τ)

/-- `text` is read as `tree` in front of every rest in `ends`; `cost` is the fuel for one token. -/
def Reads (cost base : ℕ) (ends : List τ → Prop) (reader : Reader τ α ε) (text : List τ)
    (tree : α) : Prop :=
  ∀ ⦃fuel : ℕ⦄ ⦃rest : List τ⦄, cost * text.length + base ≤ fuel → ends rest →
    reader fuel (text ++ rest) = .ok (tree, rest)

theorem Reads.mono {cost base base' : ℕ} {ends ends' : List τ → Prop} {reader : Reader τ α ε}
    {text : List τ} {tree : α} (h : Reads cost base ends reader text tree) (hbase : base ≤ base')
    (hends : ∀ rest, ends' rest → ends rest) : Reads cost base' ends' reader text tree :=
  fun _ _ hfuel hrest ↦ h (by omega) (hends _ hrest)

/-- A text is read as one tree in front of one rest. -/
theorem Reads.unique {cost base : ℕ} {ends : List τ → Prop} {reader : Reader τ α ε}
    {text rest : List τ} {tree tree' : α} (h : Reads cost base ends reader text tree)
    (h' : Reads cost base ends reader text tree') (hrest : ends rest) : tree = tree' := by
  have hread := h (Nat.le_refl _) hrest
  rw [h' (Nat.le_refl _) hrest] at hread
  exact (congrArg Prod.fst (Except.ok.inj hread)).symm

/-- `text` leads a level to its loop with `tree`, with fuel for everything that may follow. -/
def Opens (cost base : ℕ) (ends : List τ → Prop) (level : Reader τ α ε)
    (loop : ℕ → α → List τ → Except ε (α × List τ)) (text : List τ) (tree : α) : Prop :=
  ∀ ⦃fuel : ℕ⦄ ⦃rest : List τ⦄, cost * text.length + base ≤ fuel → ends rest →
    ∃ left, fuel ≤ left + text.length ∧ level fuel (text ++ rest) = loop left tree rest

/-- A level of left-associative operators over the readers of its operands. -/
structure LeftAssoc (level operand : Reader τ α ε)
    (loop : ℕ → α → List τ → Except ε (α × List τ)) (operator : τ → Option β)
    (join : β → α → α → α) : Prop where
  level_zero (text : List τ) : ∃ error, level 0 text = .error error
  level_succ (fuel : ℕ) (text : List τ) :
    level (fuel + 1) text = operand fuel text >>= fun read ↦ loop fuel read.1 read.2
  loop_stop (fuel : ℕ) (tree : α) (rest : List τ) (h : rest.head?.bind operator = none) :
    loop fuel tree rest = .ok (tree, rest)
  loop_zero (tree : α) (token : τ) (rest : List τ) (h : (operator token).isSome) :
    ∃ error, loop 0 tree (token :: rest) = .error error
  loop_succ (fuel : ℕ) (tree : α) (token : τ) (rest : List τ) (operation : β)
    (h : operator token = some operation) :
    loop (fuel + 1) tree (token :: rest) =
      operand fuel rest >>= fun read ↦ loop fuel (join operation tree read.1) read.2

namespace LeftAssoc

variable {level operand : Reader τ α ε} {loop : ℕ → α → List τ → Except ε (α × List τ)}
  {operator : τ → Option β} {join : β → α → α → α}

/-! ## Texts that are read -/

section Reading

variable {cost base : ℕ} {ends : List τ → Prop}

/-- An operand opens the level. -/
theorem opens_operand (h : LeftAssoc level operand loop operator join) {text : List τ} {tree : α}
    (hne : text ≠ []) (hread : Reads cost base ends operand text tree) :
    Opens cost (base + 1) ends level loop text tree := by
  intro fuel rest hfuel hrest
  have hlength := List.length_pos_iff.mpr hne
  obtain ⟨left, rfl⟩ : ∃ left, fuel = left + 1 := ⟨fuel - 1, by omega⟩
  refine ⟨left, by omega, ?_⟩
  rw [h.level_succ, hread (by omega) hrest]
  rfl

/-- An operator and one more operand lead back to the loop. -/
theorem opens_join (h : LeftAssoc level operand loop operator join) (hcost : 0 < cost)
    {text text' : List τ} {tree tree' : α} {token : τ} {operation : β}
    (hopens : Opens cost (base + 1) ends level loop text tree)
    (hread : Reads cost base ends operand text' tree')
    (htoken : operator token = some operation) (hends : ∀ rest, ends (token :: rest)) :
    Opens cost (base + 1) ends level loop (text ++ token :: text')
      (join operation tree tree') := by
  intro fuel rest hfuel hrest
  rw [List.length_append, List.length_cons, Nat.mul_add, Nat.mul_add] at hfuel
  have hsmall : text.length ≤ cost * text.length := Nat.le_mul_of_pos_left _ hcost
  obtain ⟨left, hleft, hlevel⟩ :=
    hopens (by omega : cost * text.length + (base + 1) ≤ fuel) (hends (text' ++ rest))
  obtain ⟨left, rfl⟩ : ∃ fewer, left = fewer + 1 := ⟨left - 1, by omega⟩
  refine ⟨left, by rw [List.length_append, List.length_cons]; omega, ?_⟩
  rw [List.append_assoc, List.cons_append, hlevel, h.loop_succ left tree token _ operation htoken,
    hread (by omega) hrest]
  rfl

/-- What leads to the loop is read when no operator follows. -/
theorem reads_of_opens (h : LeftAssoc level operand loop operator join) {text : List τ} {tree : α}
    {ends' : List τ → Prop} (hopens : Opens cost base ends level loop text tree)
    (hends : ∀ rest, ends' rest → ends rest ∧ rest.head?.bind operator = none) :
    Reads cost base ends' level text tree := by
  intro fuel rest hfuel hrest
  obtain ⟨left, -, hlevel⟩ := hopens hfuel (hends _ hrest).1
  rw [hlevel, h.loop_stop _ _ _ (hends _ hrest).2]

end Reading

end LeftAssoc

/-! ## Trees that are read -/

/-- What a reader returns when all tokens are known: a good tree, and what follows the tokens it
has taken. -/
def Yields {γ : Type} (known taken : τ → Prop) (good : γ → Prop) (text : List τ)
    (result : Except ε (γ × List τ)) : Prop :=
  (∀ token ∈ text, known token) → ∀ ⦃tree : γ⦄ ⦃rest : List τ⦄, result = .ok (tree, rest) →
    good tree ∧ ∃ front, text = front ++ rest ∧ ∀ token ∈ front, taken token

section Yielding

variable {γ δ : Type} {known taken : τ → Prop} {good : γ → Prop} {good' : δ → Prop}

theorem Yields.of_error {text : List τ} {result : Except ε (γ × List τ)}
    (h : ∃ error, result = .error error) : Yields known taken good text result := by
  obtain ⟨error, rfl⟩ := h
  intro _ tree rest hresult
  cases hresult

theorem Yields.of_ok {text : List τ} {tree : γ} (h : (∀ token ∈ text, known token) → good tree) :
    Yields known taken good text (.ok (tree, text) : Except ε (γ × List τ)) := by
  intro hknown tree' rest hresult
  cases hresult
  exact ⟨h hknown, [], rfl, by simp⟩

/-- A token in front is taken. -/
theorem Yields.cons {text : List τ} {token : τ} {result : Except ε (γ × List τ)}
    (htoken : taken token) (h : known token → Yields known taken good text result) :
    Yields known taken good (token :: text) result := by
  intro hknown tree rest hresult
  rw [List.forall_mem_cons] at hknown
  obtain ⟨hgood, front, rfl, hfront⟩ := h hknown.1 hknown.2 hresult
  exact ⟨hgood, token :: front, rfl, List.forall_mem_cons.mpr ⟨htoken, hfront⟩⟩

theorem Yields.bind {text : List τ} {first : Except ε (γ × List τ)}
    {next : γ × List τ → Except ε (δ × List τ)} (h : Yields known taken good text first)
    (hnext : ∀ tree rest, good tree → Yields known taken good' rest (next (tree, rest))) :
    Yields known taken good' text (first >>= next) := by
  intro hknown tree rest hresult
  obtain ⟨⟨middle, text'⟩, hfirst, hlast⟩ := Check.bind_eq_ok.mp hresult
  obtain ⟨hmiddle, front, rfl, hfront⟩ := h hknown hfirst
  have hknown' : ∀ token ∈ text', known token := fun token htoken ↦
    hknown token (List.mem_append_right _ htoken)
  obtain ⟨hgood, front', rfl, hfront'⟩ := hnext middle text' hmiddle hknown' hlast
  refine ⟨hgood, front ++ front', by rw [List.append_assoc], fun token htoken ↦ ?_⟩
  rcases List.mem_append.mp htoken with hmem | hmem
  · exact hfront token hmem
  · exact hfront' token hmem

end Yielding

namespace LeftAssoc

variable {level operand : Reader τ α ε} {loop : ℕ → α → List τ → Except ε (α × List τ)}
  {operator : τ → Option β} {join : β → α → α → α} {known taken : τ → Prop} {good : α → Prop}

theorem yields_zero (h : LeftAssoc level operand loop operator join) (text : List τ) :
    Yields known taken good text (level 0 text) :=
  .of_error (h.level_zero text)

theorem yields_succ (h : LeftAssoc level operand loop operator join) {fuel : ℕ}
    (hoperand : ∀ text, Yields known taken good text (operand fuel text))
    (hloop : ∀ tree text, good tree → Yields known taken good text (loop fuel tree text))
    (text : List τ) : Yields known taken good text (level (fuel + 1) text) := by
  rw [h.level_succ]
  exact (hoperand text).bind hloop

theorem loop_yields_zero (h : LeftAssoc level operand loop operator join) (tree : α)
    (text : List τ) (hgood : good tree) : Yields known taken good text (loop 0 tree text) := by
  cases hoperator : text.head?.bind operator with
  | none =>
    rw [h.loop_stop 0 tree text hoperator]
    exact .of_ok fun _ ↦ hgood
  | some operation =>
    cases text with
    | nil => cases hoperator
    | cons token rest =>
      exact .of_error (h.loop_zero tree token rest (Option.isSome_of_eq_some hoperator))

theorem loop_yields_succ (h : LeftAssoc level operand loop operator join) {fuel : ℕ}
    (htaken : ∀ token, (operator token).isSome → taken token)
    (hjoin : ∀ operation left right, good left → good right → good (join operation left right))
    (hoperand : ∀ text, Yields known taken good text (operand fuel text))
    (hloop : ∀ tree text, good tree → Yields known taken good text (loop fuel tree text))
    (tree : α) (text : List τ) (hgood : good tree) :
    Yields known taken good text (loop (fuel + 1) tree text) := by
  cases hoperator : text.head?.bind operator with
  | none =>
    rw [h.loop_stop _ tree text hoperator]
    exact .of_ok fun _ ↦ hgood
  | some operation =>
    cases text with
    | nil => cases hoperator
    | cons token rest =>
      rw [h.loop_succ fuel tree token rest operation hoperator]
      refine .cons (htaken token (Option.isSome_of_eq_some hoperator)) fun _ ↦ ?_
      exact (hoperand rest).bind fun right rest' hright ↦
        hloop _ rest' (hjoin operation tree right hgood hright)

end LeftAssoc

end Rvx.Descent
