import Mathlib.Data.List.Basic
import Mathlib.Data.List.Infix
import Mathlib.Data.List.TakeDrop
import Rvx.Lib.Script

/-!
# Projections of an append-only log

A projection folds the rows of a log, in ascending order of their IDs, into an index that records
the last ID it has seen.  It may be maintained row by row, or rebuilt in chunks of pending rows
that are committed one by one.  Whatever the chunks are, the index is determined by the rows
below its watermark, and once nothing is pending it is the index of the whole log.
-/

namespace Rvx

/-- An index over log rows `ρ`, with a watermark that every insertion moves to its own row. -/
structure Projection (ρ σ ε : Type) where
  id : ρ → ℕ
  empty : σ
  watermark : σ → ℕ
  insert : ρ → Script σ ε Unit
  watermark_empty : watermark empty = 0
  watermark_insert : ∀ {row index index'}, (insert row).Returns index () index' →
    watermark index' = id row

namespace Projection

variable {ρ σ ε : Type} {projection : Projection ρ σ ε}

/-- The index obtained by inserting the rows once, in order. -/
def Built (projection : Projection ρ σ ε) (rows : List ρ) (index : σ) : Prop :=
  (Script.forEach rows projection.insert).Returns projection.empty () index

/-- Log rows whose IDs ascend from one. -/
def Ascending (projection : Projection ρ σ ε) (log : List ρ) : Prop :=
  (log.map projection.id).Pairwise (· < ·) ∧ ∀ row ∈ log, 0 < projection.id row

/-- The first rows above the watermark. -/
def pending (projection : Projection ρ σ ε) (limit : ℕ) (log : List ρ) (watermark : ℕ) : List ρ :=
  (log.filter fun row ↦ watermark < projection.id row).take limit

/-! ## Building an index -/

theorem Built.unique {rows : List ρ} {index index' : σ} (h : projection.Built rows index)
    (h' : projection.Built rows index') : index = index' := (Script.Returns.unique h h').2

theorem built_nil {index : σ} : projection.Built [] index ↔ index = projection.empty := by
  simp [Built, Script.forEach, eq_comm]

theorem built_append {rows rest : List ρ} {index : σ} :
    projection.Built (rows ++ rest) index ↔ ∃ middle, projection.Built rows middle ∧
      (Script.forEach rest projection.insert).Returns middle () index :=
  Script.returns_forEach_append

theorem built_concat {rows : List ρ} {row : ρ} {index : σ} :
    projection.Built (rows ++ [row]) index ↔ ∃ middle, projection.Built rows middle ∧
      (projection.insert row).Returns middle () index := by
  simp [built_append, Script.forEach, Unique.exists_iff]

/-- The watermark is the ID of the last row. -/
theorem Built.watermark {rows : List ρ} {index : σ} (h : projection.Built rows index) :
    projection.watermark index = (rows.getLast?.map projection.id).getD 0 := by
  cases rows using List.reverseRecOn with
  | nil =>
    rw [built_nil.mp h]
    exact projection.watermark_empty
  | append_singleton rows row =>
    obtain ⟨middle, -, hrow⟩ := built_concat.mp h
    rw [projection.watermark_insert hrow]
    simp

/-! ## Rebuilding in chunks -/

theorem Ascending.of_append {before after : List ρ} (h : projection.Ascending (before ++ after)) :
    projection.Ascending before ∧ projection.Ascending after ∧
      ∀ row ∈ before, ∀ later ∈ after, projection.id row < projection.id later := by
  obtain ⟨hpairwise, hpos⟩ := h
  rw [List.map_append, List.pairwise_append] at hpairwise
  obtain ⟨hbefore, hafter, hcross⟩ := hpairwise
  exact ⟨⟨hbefore, fun row hrow ↦ hpos row (List.mem_append_left _ hrow)⟩,
    ⟨hafter, fun row hrow ↦ hpos row (List.mem_append_right _ hrow)⟩,
    fun row hrow later hlater ↦
      hcross _ (List.mem_map_of_mem hrow) _ (List.mem_map_of_mem hlater)⟩

/-- The rows above the watermark of a prefix's index are the rest of the log. -/
theorem Built.pending_eq {limit : ℕ} {before after : List ρ} {index : σ}
    (h : projection.Built before index) (hlog : projection.Ascending (before ++ after)) :
    projection.pending limit (before ++ after) (projection.watermark index) =
      after.take limit := by
  obtain ⟨hbefore, hafter, hcross⟩ := hlog.of_append
  have hdone : before.filter (fun row ↦ projection.watermark index < projection.id row) = [] := by
    rw [List.filter_eq_nil_iff]
    intro row hrow
    rw [h.watermark, decide_eq_true_eq, not_lt]
    cases before using List.reverseRecOn with
    | nil => simp at hrow
    | append_singleton rows last =>
      rw [List.getLast?_append_of_ne_nil _ (by simp), List.getLast?_singleton, Option.map_some,
        Option.getD_some]
      cases List.mem_append.mp hrow with
      | inl hold => exact (hbefore.of_append.2.2 row hold last (by simp)).le
      | inr hlast => rw [List.mem_singleton.mp hlast]
  have hrest : after.filter (fun row ↦ projection.watermark index < projection.id row) = after := by
    rw [List.filter_eq_self]
    intro row hrow
    rw [h.watermark, decide_eq_true_eq]
    cases before using List.reverseRecOn with
    | nil => simpa using hafter.2 row hrow
    | append_singleton rows last =>
      rw [List.getLast?_append_of_ne_nil _ (by simp), List.getLast?_singleton, Option.map_some,
        Option.getD_some]
      exact hcross last (by simp) row hrow
  rw [pending, List.filter_append, hdone, hrest, List.nil_append]

/-- A chunk inserts a nonempty prefix of the rows it is offered, unless there are none. -/
def Chunk (projection : Projection ρ σ ε) (rows : List ρ) (count : ℕ) (index index' : σ) : Prop :=
  ∃ taken, taken <+: rows ∧ count = taken.length ∧ (rows ≠ [] → taken ≠ []) ∧
    (Script.forEach taken projection.insert).Returns index () index'

/-- The number of rows above the watermark. -/
def backlog (projection : Projection ρ σ ε) (log : List ρ) (index : σ) : ℕ :=
  (projection.pending log.length log (projection.watermark index)).length

/-- The index of some prefix of the log. -/
def Partial (projection : Projection ρ σ ε) (log : List ρ) (index : σ) : Prop :=
  ∃ before after, log = before ++ after ∧ projection.Built before index

theorem Built.partial {log : List ρ} {index : σ} (h : projection.Built log index) :
    projection.Partial log index := ⟨log, [], (List.append_nil log).symm, h⟩

theorem partial_empty {log : List ρ} : projection.Partial log projection.empty :=
  ⟨[], log, rfl, built_nil.mpr rfl⟩

/-- After a chunk the index belongs to a longer prefix of the log; a chunk that inserts nothing
leaves the index of the whole log. -/
theorem Partial.chunk {limit count : ℕ} {log : List ρ} {index index' : σ} (hlimit : 0 < limit)
    (h : projection.Partial log index) (hlog : projection.Ascending log)
    (hchunk : projection.Chunk (projection.pending limit log (projection.watermark index)) count
      index index') :
    projection.Partial log index' ∧ (count = 0 → projection.Built log index') ∧
      projection.backlog log index' + count = projection.backlog log index := by
  obtain ⟨before, after, rfl, hbuilt⟩ := h
  rw [hbuilt.pending_eq hlog] at hchunk
  obtain ⟨taken, hprefix, hcount, hsome, hrun⟩ := hchunk
  obtain ⟨rest, rfl⟩ := hprefix.trans (List.take_prefix limit after)
  have hnext : projection.Built (before ++ taken) index' := built_append.mpr ⟨index, hbuilt, hrun⟩
  refine ⟨⟨before ++ taken, rest, (List.append_assoc ..).symm, hnext⟩, fun hzero ↦ ?_, ?_⟩
  · have htaken : taken = [] := List.length_eq_zero_iff.mp (hcount ▸ hzero)
    have hrest : rest = [] := by
      by_contra hne
      refine hsome ?_ htaken
      rw [htaken, List.nil_append, ne_eq, List.take_eq_nil_iff, not_or]
      exact ⟨by omega, hne⟩
    rw [hrest, List.append_nil]
    exact hnext
  · rw [backlog, backlog, hbuilt.pending_eq hlog, ← List.append_assoc, hnext.pending_eq (List.append_assoc .. ▸ hlog),
      hcount, List.take_of_length_le (by simp; omega), List.take_of_length_le (by simp)]
    simp
    omega

/-! ## Existence -/

/-- What makes insertions succeed: rows of a known kind, on an index that holds nothing of the
row's ID yet. -/
structure Total (projection : Projection ρ σ ε) (admissible : ρ → Prop) (fresh : ℕ → σ → Prop) :
    Prop where
  fresh_empty : ∀ id, fresh id projection.empty
  fresh_mono : ∀ {id id' index}, fresh id index → id ≤ id' → fresh id' index
  insert : ∀ {row index}, admissible row → fresh (projection.id row) index →
    ∃ index', (projection.insert row).Returns index () index' ∧
      fresh (projection.id row + 1) index'

theorem Total.built {admissible : ρ → Prop} {fresh : ℕ → σ → Prop}
    (h : projection.Total admissible fresh) {rows : List ρ} (hrows : projection.Ascending rows)
    (hkind : ∀ row ∈ rows, admissible row) :
    ∃ index, projection.Built rows index ∧
      ∀ id, (∀ row ∈ rows, projection.id row < id) → fresh id index := by
  induction rows using List.reverseRecOn with
  | nil => exact ⟨projection.empty, built_nil.mpr rfl, fun id _ ↦ h.fresh_empty id⟩
  | append_singleton rows row ih =>
    obtain ⟨hbefore, -, hcross⟩ := hrows.of_append
    obtain ⟨middle, hbuilt, hfresh⟩ := ih hbefore fun old hold ↦
      hkind old (List.mem_append_left _ hold)
    obtain ⟨index, hrun, hnext⟩ := h.insert (hkind row (by simp))
      (hfresh _ fun old hold ↦ hcross old hold row (by simp))
    refine ⟨index, built_concat.mpr ⟨middle, hbuilt, hrun⟩, fun id hid ↦ ?_⟩
    exact h.fresh_mono hnext (hid row (by simp))

/-- The pending rows can always be inserted. -/
theorem Total.pending {admissible : ρ → Prop} {fresh : ℕ → σ → Prop}
    (h : projection.Total admissible fresh) (limit : ℕ) {log : List ρ} {index : σ}
    (hindex : projection.Partial log index) (hlog : projection.Ascending log)
    (hkind : ∀ row ∈ log, admissible row) :
    ∃ index', (Script.forEach (projection.pending limit log (projection.watermark index))
      projection.insert).Returns index () index' := by
  obtain ⟨before, after, rfl, hbuilt⟩ := hindex
  rw [hbuilt.pending_eq hlog]
  have hsplit : before ++ after = before ++ after.take limit ++ after.drop limit := by
    rw [List.append_assoc, List.take_append_drop]
  rw [hsplit] at hlog hkind
  obtain ⟨index', hnext, -⟩ := h.built hlog.of_append.1 fun row hrow ↦
    hkind row (List.mem_append_left _ hrow)
  obtain ⟨middle, hmiddle, hrun⟩ := built_append.mp hnext
  rw [hbuilt.unique hmiddle]
  exact ⟨index', hrun⟩

end Projection

end Rvx
