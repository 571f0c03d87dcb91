import Rvx.Engine.QuerySampling

/-!
# Sampled positions in machine arithmetic

The program computes positions with `usize`.  They are the exact ones as long as the largest product
fits; the row limit of a query keeps it far below that.  A build with overflow checks stops where the
product wraps around here.
-/

namespace Rvx.Engine

/-- `index * (length - 1)` wraps around. -/
def samplePositionsUsize (length count : ℕ) (missing : ℕ → Bool) : List ℕ :=
  let positions := (List.range count).map fun index ↦
    if count = 1 then length - 1 else index * (length - 1) % 2 ^ 64 / (count - 1)
  (List.range' 1 (positions.length - 1)).reverse.foldl (retainGap missing) positions

theorem samplePositionsUsize_eq {length count : ℕ} (hfits : (count - 1) * (length - 1) < 2 ^ 64)
    (missing : ℕ → Bool) :
    samplePositionsUsize length count missing = samplePositions length count missing := by
  have hpositions : ((List.range count).map fun index ↦
      if count = 1 then length - 1 else index * (length - 1) % 2 ^ 64 / (count - 1)) =
      evenly length count := by
    refine List.map_congr_left fun index hindex ↦ ?_
    rw [List.mem_range] at hindex
    have hle : index * (length - 1) ≤ (count - 1) * (length - 1) :=
      Nat.mul_le_mul_right _ (by omega)
    rw [Nat.mod_eq_of_lt (hle.trans_lt hfits)]
  rw [samplePositionsUsize, samplePositions, hpositions]
  rfl

/-- As many positions as asked for ascend below the length up to its end, and no gap is left out
between two neighbours that are none. -/
structure SampledAt (length count : ℕ) (missing : ℕ → Bool) (positions : List ℕ) : Prop where
  count_eq : positions.length = count
  ascending : positions.Pairwise (· < ·)
  bounded : ∀ position ∈ positions, position < length
  last : positions.getLast? = some (length - 1)
  bridges : ∀ before left right after, positions = before ++ left :: right :: after →
    missing left = false → missing right = false →
      ∀ position, left < position → position < right → missing position = false

/-- Positions are sampled well whenever their products fit. -/
theorem samplePositionsUsize_sampled {length count : ℕ} (hcount : 1 ≤ count) (hle : count ≤ length)
    (hfits : (count - 1) * (length - 1) < 2 ^ 64) (missing : ℕ → Bool) :
    SampledAt length count missing (samplePositionsUsize length count missing) := by
  obtain ⟨hpositions, hlength, -⟩ := samplePositions_spec hcount hle missing
  rw [samplePositionsUsize_eq hfits]
  refine ⟨hlength, hpositions.ascending, hpositions.lt (by omega), hpositions.last, ?_⟩
  intro before left right after hsplit hleft hright
  exact List.isChain_iff_forall_rel_of_append_cons_cons.mp hpositions.joins hsplit hleft hright

theorem samplePositionsUsize_sampled_five :
    SampledAt 5 3 (fun position ↦ position % 2 = 1)
      (samplePositionsUsize 5 3 fun position ↦ position % 2 = 1) :=
  samplePositionsUsize_sampled (by decide) (by decide) (by decide) _

/-- Four positions below `2 ^ 63` wrap around, and the last one is not the end. -/
theorem samplePositionsUsize_wraps :
    ¬ ∀ (length count : ℕ) (missing : ℕ → Bool), length < 2 ^ 64 → 1 ≤ count → count ≤ length →
      SampledAt length count missing (samplePositionsUsize length count missing) := by
  intro h
  have hlast := (h (2 ^ 63) 4 (fun _ ↦ true) (by decide) (by decide) (by decide)).last
  have hwrapped : (samplePositionsUsize (2 ^ 63) 4 fun _ ↦ true).getLast? =
      some 3074457345618258601 := rfl
  rw [hwrapped] at hlast
  exact absurd (Option.some.inj hlast) (by decide)

example : samplePositionsUsize 5 3 (fun position ↦ position % 2 = 1) = [0, 3, 4] := by decide

end Rvx.Engine
