import Rvx.Lib.Table

/-!
# Tables with a primary key

A table that carries the proof of its primary key.  `insert?` is an `INSERT`, which a second row
with the same key makes fail, and `update` an `UPDATE` of columns outside the key.
-/

namespace Rvx

structure KeyedTable {ρ κ : Type} (key : ρ → κ) where
  rows : List ρ
  unique : (rows.map key).Nodup

namespace KeyedTable

variable {ρ κ : Type} {key : ρ → κ}

def empty : KeyedTable key := ⟨[], by simp⟩

@[simp]
theorem rows_empty : (empty : KeyedTable key).rows = [] := rfl

/-- `UPDATE`; the `WHERE` clause is a case of `change`. -/
def update (change : ρ → ρ) (hchange : ∀ row, key (change row) = key row)
    (table : KeyedTable key) : KeyedTable key :=
  ⟨table.rows.map change, by
    rw [List.map_map, show key ∘ change = key from funext hchange]
    exact table.unique⟩

/-- `DELETE` of the rows that are not kept. -/
def retain (keep : ρ → Bool) (table : KeyedTable key) : KeyedTable key :=
  ⟨table.rows.filter keep, table.unique.sublist (List.filter_sublist.map key)⟩

theorem mem_retain {keep : ρ → Bool} {table : KeyedTable key} {row : ρ} :
    row ∈ (table.retain keep).rows ↔ row ∈ table.rows ∧ keep row = true := List.mem_filter

variable [DecidableEq κ]

/-- The row stored under a key. -/
def find? (wanted : κ) (table : KeyedTable key) : Option ρ := Table.lookup key wanted table.rows

/-- `INSERT`, or `none` when the key is taken. -/
def insert? (row : ρ) (table : KeyedTable key) : Option (KeyedTable key) :=
  if h : ∀ old ∈ table.rows, key old ≠ key row then
    some ⟨table.rows ++ [row], by
      rw [List.map_append, List.nodup_append]
      exact ⟨table.unique, by simp, by simpa using h⟩⟩
  else none

theorem insert?_eq_some {row : ρ} {table table' : KeyedTable key}
    (h : table.insert? row = some table') :
    table'.rows = table.rows ++ [row] ∧ table.find? (key row) = none := by
  unfold insert? at h
  split at h
  · rename_i hfresh
    obtain rfl := Option.some.inj h
    exact ⟨rfl, Table.lookup_eq_none.mpr hfresh⟩
  · exact absurd h (by simp)

/-- The row replaces the one with its key, if there is one. -/
def put (row : ρ) (table : KeyedTable key) : KeyedTable key :=
  ⟨Table.upsert key (fun _ ↦ row) row table.rows,
    Table.nodup_upsert (fun _ _ ↦ rfl) table.unique⟩

theorem find?_eq_some {wanted : κ} {table : KeyedTable key} {row : ρ} :
    table.find? wanted = some row ↔ row ∈ table.rows ∧ key row = wanted := by
  constructor
  · intro h
    exact Table.lookup_some h
  · rintro ⟨hrow, rfl⟩
    exact Table.lookup_eq_some_of_mem table.unique hrow

theorem find?_retain {keep : ρ → Bool} {table : KeyedTable key} {wanted : κ} {row : ρ} :
    (table.retain keep).find? wanted = some row ↔
      table.find? wanted = some row ∧ keep row = true := by
  rw [find?_eq_some, find?_eq_some, mem_retain, and_right_comm]

theorem find?_put (row : ρ) (table : KeyedTable key) (wanted : κ) :
    (table.put row).find? wanted = if wanted = key row then some row else table.find? wanted := by
  have hkey : ∀ old : ρ, key old = key row → key row = key row := fun _ _ ↦ rfl
  split
  · rename_i hwanted
    rw [hwanted, find?, put, Table.lookup_upsert_self _ _ _ _ hkey]
    cases Table.lookup key (key row) table.rows <;> rfl
  · rename_i hwanted
    exact Table.lookup_upsert_of_ne _ _ _ _ hkey hwanted

/-- A row takes the place of another one, or one more. -/
theorem length_put (row : ρ) (table : KeyedTable key) :
    (table.put row).rows.length =
      if table.find? (key row) = none then table.rows.length + 1 else table.rows.length := by
  have hrows : (table.put row).rows = Table.upsert key (fun _ ↦ row) row table.rows := rfl
  rw [hrows, Table.upsert]
  by_cases hfresh : table.find? (key row) = none
  · have hnone : ¬ (table.rows.any fun old ↦ key old = key row) = true := by
      simpa using Table.lookup_eq_none.mp hfresh
    rw [if_neg hnone, if_pos hfresh, List.length_append, List.length_singleton]
  · have hsome : (table.rows.any fun old ↦ key old = key row) = true := by
      simpa using mt Table.lookup_eq_none.mpr hfresh
    rw [if_pos hsome, if_neg hfresh, List.length_map]

theorem find?_of_rows {table table' : KeyedTable key} {change : ρ → ρ}
    (hrows : table'.rows = table.rows.map change) (hchange : ∀ row, key (change row) = key row)
    (wanted : κ) : table'.find? wanted = (table.find? wanted).map change := by
  unfold find? Table.lookup
  rw [hrows, List.find?_map]
  congr 1
  exact congrArg (List.find? · table.rows) (funext fun row ↦ by simp [hchange])

/-- An inserted row is found under its key, and every other key reads as before. -/
theorem find?_insert? {row : ρ} {table table' : KeyedTable key}
    (h : table.insert? row = some table') (wanted : κ) :
    table'.find? wanted = if wanted = key row then some row else table.find? wanted := by
  obtain ⟨hrows, hfresh⟩ := insert?_eq_some h
  unfold find? at hfresh ⊢
  rw [hrows, Table.lookup_append]
  split
  · rename_i hwanted
    rw [hwanted, hfresh]
    simp [Table.lookup]
  · rename_i hwanted
    simp [Table.lookup, Ne.symm hwanted]

/-! ## Rows over time -/

/-- Every row is still stored under its key, as a row it can become. -/
def Follows (moves : ρ → ρ → Prop) (table table' : KeyedTable key) : Prop :=
  ∀ wanted row, table.find? wanted = some row →
    ∃ row', table'.find? wanted = some row' ∧ moves row row'

variable {moves : ρ → ρ → Prop} {table table' table'' : KeyedTable key}

theorem Follows.refl (hmoves : ∀ row, moves row row) : Follows moves table table :=
  fun _ row hrow ↦ ⟨row, hrow, hmoves row⟩

theorem Follows.trans (hmoves : ∀ a b c, moves a b → moves b c → moves a c)
    (hfirst : Follows moves table table') (hsecond : Follows moves table' table'') :
    Follows moves table table'' := by
  intro wanted row hrow
  obtain ⟨row', hrow', hmove⟩ := hfirst wanted row hrow
  obtain ⟨row'', hrow'', hmove'⟩ := hsecond wanted row' hrow'
  exact ⟨row'', hrow'', hmoves _ _ _ hmove hmove'⟩

theorem follows_of_rows {change : ρ → ρ} (hrows : table'.rows = table.rows.map change)
    (hmoves : ∀ row ∈ table.rows, key (change row) = key row ∧ moves row (change row)) :
    Follows moves table table' := by
  intro wanted row hrow
  obtain ⟨hmem, hkey⟩ := find?_eq_some.mp hrow
  obtain ⟨hsame, hmove⟩ := hmoves row hmem
  refine ⟨change row, find?_eq_some.mpr ⟨?_, hsame.trans hkey⟩, hmove⟩
  rw [hrows]
  exact List.mem_map_of_mem hmem

theorem follows_insert? {row : ρ} (hmoves : ∀ row, moves row row)
    (h : table.insert? row = some table') : Follows moves table table' := by
  intro wanted old hold
  refine ⟨old, ?_, hmoves old⟩
  have hne : wanted ≠ key row := by
    rintro rfl
    rw [(insert?_eq_some h).2] at hold
    exact absurd hold (by simp)
  rw [find?_insert? h, if_neg hne, hold]

end KeyedTable

end Rvx
