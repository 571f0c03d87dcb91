import Rvx.Lib.Script
import Rvx.Lib.Table

/-!
# Tables of a store

A table of a store is a component that can be read and written on its own, together with its
primary key.  Inserting rows one statement at a time appends them when it succeeds, and it
succeeds when their keys are fresh.
-/

namespace Rvx

/-- One table of the store `σ`, with rows `ρ` under the primary key `κ`. -/
structure StoreTable (σ ρ κ : Type) where
  key : ρ → κ
  rows : σ → List ρ
  write : List ρ → σ → σ
  rows_write : ∀ new store, rows (write new store) = new
  write_write : ∀ new old store, write new (write old store) = write new store
  write_rows : ∀ store, write (rows store) store = store

namespace StoreTable

open Script

variable {σ ρ κ ε : Type} [DecidableEq κ]

/-- `INSERT INTO` the table; `conflict` is the error of a duplicate key. -/
def insert (table : StoreTable σ ρ κ) (conflict : ε) (row : ρ) : Script σ ε Unit :=
  attempt fun store ↦
    match Table.insertUnique table.key row (table.rows store) with
    | some rows => .ok (table.write rows store)
    | none => .error conflict

/-- The insertion of several rows, one statement each. -/
def insertEach (table : StoreTable σ ρ κ) (conflict : ε) (rows : List ρ) : Script σ ε Unit :=
  forEach rows (table.insert conflict)

@[simp]
theorem returns_insert {table : StoreTable σ ρ κ} {conflict : ε} {row : ρ} {store store' : σ}
    {value : Unit} :
    (table.insert conflict row).Returns store value store' ↔
      (∀ old ∈ table.rows store, table.key old ≠ table.key row) ∧
        store' = table.write (table.rows store ++ [row]) store := by
  rw [insert, returns_attempt]
  cases hinsert : Table.insertUnique table.key row (table.rows store) with
  | none =>
    constructor
    · simp
    · rintro ⟨hfresh, -⟩
      rw [Table.insertUnique_eq_some.mpr ⟨hfresh, rfl⟩] at hinsert
      simp at hinsert
  | some rows =>
    obtain ⟨hfresh, rfl⟩ := Table.insertUnique_eq_some.mp hinsert
    simp only [Except.ok.injEq]
    exact ⟨fun h ↦ ⟨hfresh, h.symm⟩, fun h ↦ h.2.symm⟩

/-- Rows that were all inserted are appended in order. -/
theorem eq_of_returns_insertEach {table : StoreTable σ ρ κ} {conflict : ε} {rows : List ρ}
    {store store' : σ} {value : Unit}
    (h : (table.insertEach conflict rows).Returns store value store') :
    store' = table.write (table.rows store ++ rows) store := by
  induction rows generalizing store with
  | nil =>
    simp only [insertEach, forEach, returns_pure] at h
    rw [List.append_nil, table.write_rows]
    exact h.2.symm
  | cons row rest ih =>
    simp only [insertEach, forEach, returns_bind, returns_insert] at h
    obtain ⟨-, middle, ⟨-, rfl⟩, hrest⟩ := h
    rw [ih hrest, table.rows_write, table.write_write, List.append_assoc, List.singleton_append]

/-- Rows with distinct fresh keys can all be inserted. -/
theorem returns_insertEach {table : StoreTable σ ρ κ} {conflict : ε} {rows : List ρ} {store : σ}
    (hnew : (rows.map table.key).Nodup)
    (hfresh : ∀ row ∈ rows, ∀ old ∈ table.rows store, table.key old ≠ table.key row) :
    (table.insertEach conflict rows).Returns store ()
      (table.write (table.rows store ++ rows) store) := by
  induction rows generalizing store with
  | nil =>
    simp only [insertEach, forEach, returns_pure, List.append_nil, table.write_rows, and_self]
  | cons row rest ih =>
    simp only [insertEach, forEach, returns_bind, returns_insert]
    simp only [List.map_cons, List.nodup_cons, List.mem_map, not_exists, not_and] at hnew
    refine ⟨(), _, ⟨fun old hold ↦ hfresh row (by simp) old hold, rfl⟩, ?_⟩
    have hrest : ∀ later ∈ rest,
        ∀ old ∈ table.rows (table.write (table.rows store ++ [row]) store),
          table.key old ≠ table.key later := by
      intro later hlater old hold
      rw [table.rows_write] at hold
      cases List.mem_append.mp hold with
      | inl hprior => exact hfresh later (by simp [hlater]) old hprior
      | inr hrow =>
        rw [List.mem_singleton.mp hrow]
        exact fun heq ↦ hnew.1 later hlater heq.symm
    have hall := ih hnew.2 hrest
    rw [table.rows_write, table.write_write, List.append_assoc, List.singleton_append] at hall
    exact hall

end StoreTable

end Rvx
