import Mathlib.Data.List.Basic
import Mathlib.Data.List.Nodup

/-!
# Keyed tables

A table is the list of its rows in insertion order.  `insertUnique` is an `INSERT` into a table
with a primary key and `upsert` an `INSERT … ON CONFLICT DO UPDATE`.  The rules below say when an
insert cannot conflict and how a lookup by key reads a table that was written.
-/

namespace Rvx.Table

variable {ρ κ : Type} [DecidableEq κ]

/-- The row stored under a key. -/
def lookup (key : ρ → κ) (wanted : κ) (rows : List ρ) : Option ρ :=
  rows.find? fun row ↦ key row = wanted

/-- `INSERT` under a primary key: a second row with the same key is a constraint violation. -/
def insertUnique (key : ρ → κ) (row : ρ) (rows : List ρ) : Option (List ρ) :=
  if rows.any fun old ↦ key old = key row then none else some (rows ++ [row])

/-- `INSERT … ON CONFLICT DO UPDATE`: the stored row is replaced by `merge old`. -/
def upsert (key : ρ → κ) (merge : ρ → ρ) (row : ρ) (rows : List ρ) : List ρ :=
  if rows.any fun old ↦ key old = key row then
    rows.map fun old ↦ if key old = key row then merge old else old
  else rows ++ [row]

theorem insertUnique_eq_some {key : ρ → κ} {row : ρ} {rows rows' : List ρ} :
    insertUnique key row rows = some rows' ↔
      (∀ old ∈ rows, key old ≠ key row) ∧ rows' = rows ++ [row] := by
  unfold insertUnique
  split
  · rename_i h
    simp only [List.any_eq_true, decide_eq_true_eq] at h
    simpa using fun hfresh ↦ absurd h (by simpa using hfresh)
  · rename_i h
    simp only [List.any_eq_true, decide_eq_true_eq, not_exists, not_and] at h
    constructor
    · intro heq
      exact ⟨h, by simpa using heq.symm⟩
    · rintro ⟨-, rfl⟩
      rfl

theorem lookup_eq_none {key : ρ → κ} {wanted : κ} {rows : List ρ} :
    lookup key wanted rows = none ↔ ∀ row ∈ rows, key row ≠ wanted := by
  simp [lookup]

theorem lookup_some {key : ρ → κ} {wanted : κ} {rows : List ρ} {row : ρ}
    (h : lookup key wanted rows = some row) : row ∈ rows ∧ key row = wanted := by
  refine ⟨List.mem_of_find?_eq_some h, ?_⟩
  simpa using List.find?_some h

theorem lookup_append {key : ρ → κ} {wanted : κ} {rows new : List ρ} :
    lookup key wanted (rows ++ new) = (lookup key wanted rows).or (lookup key wanted new) := by
  simp [lookup, List.find?_append]

/-- Under a primary key the row found is the row itself. -/
theorem lookup_eq_some_of_mem {key : ρ → κ} {rows : List ρ} {row : ρ}
    (hkeys : (rows.map key).Nodup) (hrow : row ∈ rows) :
    lookup key (key row) rows = some row := by
  induction rows with
  | nil => simp at hrow
  | cons first rest ih =>
    simp only [List.map_cons, List.nodup_cons, List.mem_map, not_exists, not_and] at hkeys
    rcases List.mem_cons.mp hrow with rfl | hrest
    · simp [lookup]
    · have hne : key first ≠ key row := fun heq ↦ hkeys.1 row hrest heq.symm
      simpa [lookup, hne] using ih hkeys.2 hrest

section Upsert

variable {β : Type} {key : ρ → κ} {merge : ρ → ρ} {row : ρ} {rows : List ρ}

theorem lookup_upsert_self (key : ρ → κ) (merge : ρ → ρ) (row : ρ) (rows : List ρ)
    (hmerge : ∀ old, key old = key row → key (merge old) = key row) :
    lookup key (key row) (upsert key merge row rows) =
      some (((lookup key (key row) rows).map merge).getD row) := by
  unfold upsert
  split
  · rename_i h
    simp only [List.any_eq_true, decide_eq_true_eq] at h
    induction rows with
    | nil => simp at h
    | cons first rest ih =>
      by_cases hfirst : key first = key row
      · simp [lookup, hfirst, hmerge first hfirst]
      · have hrest : ∃ old ∈ rest, key old = key row := by simpa [hfirst] using h
        simpa [lookup, hfirst] using ih hrest
  · rename_i h
    have hnone : lookup key (key row) rows = none := lookup_eq_none.mpr (by simpa using h)
    rw [lookup_append, hnone]
    simp [lookup]

theorem lookup_upsert_of_ne (key : ρ → κ) (merge : ρ → ρ) (row : ρ) (rows : List ρ)
    (hmerge : ∀ old, key old = key row → key (merge old) = key row) {wanted : κ} (hne : wanted ≠ key row) :
    lookup key wanted (upsert key merge row rows) = lookup key wanted rows := by
  unfold upsert
  split
  · clear * - hmerge hne
    induction rows with
    | nil => rfl
    | cons first rest ih =>
      by_cases hfirst : key first = key row
      · have hm : key (merge first) ≠ wanted := by rw [hmerge first hfirst]; exact hne.symm
        simpa [lookup, hfirst, hm, hne.symm] using ih
      · by_cases hwanted : key first = wanted
        · simp [lookup, hwanted, hne]
        · simpa [lookup, hfirst, hwanted] using ih
  · rw [lookup_append]
    have hnone : lookup key wanted [row] = none := by simp [lookup, hne.symm]
    rw [hnone, Option.or_none]

/-- An upsert keeps the primary key. -/
theorem nodup_upsert (hmerge : ∀ old, key old = key row → key (merge old) = key row)
    (hkeys : (rows.map key).Nodup) : ((upsert key merge row rows).map key).Nodup := by
  unfold upsert
  split
  · have hmap : (rows.map fun old ↦ if key old = key row then merge old else old).map key =
        rows.map key := by
      rw [List.map_map]
      apply List.map_congr_left
      intro old _
      by_cases hold : key old = key row
      · simp [hold, hmerge old hold]
      · simp [hold]
    rw [hmap]
    exact hkeys
  · rename_i h
    rw [List.map_append, List.nodup_append]
    refine ⟨hkeys, by simp, ?_⟩
    simp only [List.any_eq_true, decide_eq_true_eq, not_exists, not_and] at h
    simpa using h

/-- Upserting the rows of a table with a primary key overrides the old rows. -/
theorem lookup_foldl_upsert (key : ρ → κ) (replace : ρ → ρ → ρ) (view : ρ → β)
    (hkey : ∀ row old, key old = key row → key (replace row old) = key row)
    (hview : ∀ row old, view (replace row old) = view row) {new : List ρ}
    (hnew : (new.map key).Nodup) (rows : List ρ) (wanted : κ) :
    (lookup key wanted (new.foldl (fun rows row ↦ upsert key (replace row) row rows) rows)).map
        view =
      ((lookup key wanted new).map view).or ((lookup key wanted rows).map view) := by
  induction new generalizing rows with
  | nil => rfl
  | cons row rest ih =>
    simp only [List.map_cons, List.nodup_cons, List.mem_map, not_exists, not_and] at hnew
    rw [List.foldl_cons, ih hnew.2]
    by_cases hwanted : wanted = key row
    · have hrest : lookup key wanted rest = none :=
        lookup_eq_none.mpr fun other hother ↦ hwanted ▸ hnew.1 other hother
      have hfirst : lookup key wanted (row :: rest) = some row := by simp [lookup, hwanted]
      rw [hrest, hfirst, hwanted, lookup_upsert_self _ _ _ _ (hkey row)]
      cases lookup key (key row) rows <;> simp [hview]
    · have hskip : lookup key wanted (row :: rest) = lookup key wanted rest := by
        simp [lookup, Ne.symm hwanted]
      rw [hskip, lookup_upsert_of_ne _ _ _ _ (hkey row) hwanted]

theorem mem_upsert (hrow : ∀ old ∈ rows, key old = key row → merge old = row) {other : ρ} :
    other ∈ upsert key merge row rows → other = row ∨ (other ∈ rows ∧ key other ≠ key row) := by
  unfold upsert
  split
  · intro hother
    obtain ⟨old, hold, rfl⟩ := List.mem_map.mp hother
    by_cases hkey : key old = key row
    · exact Or.inl (by simp [hkey, hrow old hold hkey])
    · exact Or.inr ⟨by simpa [hkey] using hold, by simp [hkey]⟩
  · rename_i h
    simp only [List.any_eq_true, decide_eq_true_eq, not_exists, not_and] at h
    intro hother
    rcases List.mem_append.mp hother with hold | hnew
    · exact Or.inr ⟨hold, h other hold⟩
    · exact Or.inl (List.mem_singleton.mp hnew)

end Upsert

end Rvx.Table
