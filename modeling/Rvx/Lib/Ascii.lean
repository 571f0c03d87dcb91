import Mathlib.Data.Nat.Notation
import Mathlib.Tactic.SplitIfs

/-!
# ASCII letters

Lower-casing adds 32 to the code of a capital and leaves every other character as it is.
-/

namespace Rvx.Ascii

theorem toNat_toLower (c : Char) :
    c.toLower.toNat = if 65 ≤ c.toNat ∧ c.toNat ≤ 90 then c.toNat + 32 else c.toNat := by
  have hletters : 'A'.val.toNat = 65 ∧ 'Z'.val.toNat = 90 ∧ ('a'.val - 'A'.val).toNat = 32 := by
    decide
  have hval : c.val.toNat = c.toNat := rfl
  unfold Char.toLower
  by_cases hupper : 65 ≤ c.toNat ∧ c.toNat ≤ 90
  · rw [dif_pos (by simpa [UInt32.le_iff_toNat_le, hletters, hval] using hupper), if_pos hupper]
    change (c.val + ('a'.val - 'A'.val)).toNat = _
    rw [UInt32.toNat_add, hletters.2.2, hval]
    omega
  · rw [dif_neg (by simpa [UInt32.le_iff_toNat_le, hletters, hval] using hupper), if_neg hupper]

theorem toLower_toLower (c : Char) : c.toLower.toLower = c.toLower := by
  apply Char.ext
  apply UInt32.toNat.inj
  change c.toLower.toLower.toNat = c.toLower.toNat
  rw [toNat_toLower c.toLower, toNat_toLower c]
  split_ifs <;> omega

end Rvx.Ascii
