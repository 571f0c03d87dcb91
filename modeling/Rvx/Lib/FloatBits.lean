import Mathlib

/-!
# The bits of a double

A double is determined by its bit pattern, so reading back the pattern returns the double.
-/

namespace Rvx.FloatBits

open Float.Model Float.Model.UnpackedFloat

variable {format : Format}

theorem toBitVec_ofBitVec (b : BitVec 1) : (Sign.ofBitVec b).toBitVec = b := by
  revert b
  decide

/-- A pattern is its sign, its exponent and its mantissa. -/
theorem packComponents_unpack (b : BitVec format.numBits) :
    packComponents format (Sign.ofBitVec (unpackSign b)) (unpackExponent b) (unpackMantissa b) = b := by
  have hm := format.hm
  have he := format.he
  rw [packComponents, toBitVec_ofBitVec]
  ext i hi
  simp only [unpackSign, unpackExponent, unpackMantissa, BitVec.getElem_append, BitVec.getElem_cast,
    BitVec.extractLsb, BitVec.getElem_extractLsb']
  rw [← BitVec.getLsbD_eq_getElem hi]
  split_ifs with hmantissa hexponent <;> congr 1 <;> omega

/-- The implicit bit stands above the stored mantissa. -/
theorem toNat_implicit {width : ℕ} (mantissa : BitVec width) :
    (1#1 ++ mantissa).toNat = 2 ^ width + mantissa.toNat := by
  rw [BitVec.toNat_append, ← Nat.shiftLeft_add_eq_or_of_lt mantissa.isLt, Nat.shiftLeft_eq]
  simp

theorem log2_implicit {width : ℕ} (mantissa : BitVec width) :
    (1#1 ++ mantissa).toNat.log2 = width := by
  have hlt := mantissa.isLt
  rw [toNat_implicit, Nat.log2_eq_iff (by omega), Nat.pow_succ]
  omega

/-- Unpacking a valid pattern loses nothing. -/
theorem pack_unpack {b : BitVec format.numBits} (hformat : 1 < format.exponentBits)
    (h : format.Valid b) :
    UnpackedFloat.pack format (UnpackedFloat.unpack format b) = b := by
  have hparts := packComponents_unpack b
  have hmantissa := (unpackMantissa b).isLt
  have hexponent := (unpackExponent b).isLt
  have hfour : 2 ^ 2 ≤ 2 ^ format.exponentBits := Nat.pow_le_pow_right (by decide) hformat
  unfold UnpackedFloat.unpack
  dsimp only
  split_ifs with hones hnan hzero hempty
  · rw [UnpackedFloat.pack, packedInfinity, ← hones]
    rw [hnan] at hparts
    exact hparts
  · exact (h.eq_packedNaN hones hnan).symm
  · rw [UnpackedFloat.pack, packedZero]
    rw [hzero, hempty] at hparts
    exact hparts
  · -- a subnormal number is below the implicit bit
    have hpos : (unpackMantissa b).toNat ≠ 0 := fun heq ↦
      hempty (BitVec.eq_of_toNat_eq (by rw [heq, BitVec.toNat_ofNat, Nat.zero_mod]))
    have hlog := (Nat.log2_lt hpos).mpr hmantissa
    rw [hzero] at hparts
    simp only [UnpackedFloat.pack, hzero, Format.mantissaBits, BitVec.toNat_ofNat, Nat.zero_mod]
    rw [if_neg (by omega), if_neg (by omega), BitVec.ofNat_toNat, BitVec.setWidth_eq]
    exact hparts
  · -- a normal number has the exponent it was stored with
    have hbiased (bias : ℕ) : (((unpackExponent b).toNat : ℤ) -
        (bias + format.mantissaBitsWithoutImplicit) + bias +
          format.mantissaBitsWithoutImplicit).toNat = (unpackExponent b).toNat := by omega
    have hne : (unpackExponent b).toNat + 1 ≠ 2 ^ format.exponentBits := fun heq ↦
      hones (BitVec.eq_of_toNat_eq (by
        rw [BitVec.neg_one_eq_allOnes, BitVec.toNat_allOnes]
        omega))
    have hstored : BitVec.ofNat format.mantissaBitsWithoutImplicit
        (1#1 ++ unpackMantissa b).toNat = unpackMantissa b := by
      apply BitVec.eq_of_toNat_eq
      rw [BitVec.toNat_ofNat, toNat_implicit, Nat.add_mod_left, Nat.mod_eq_of_lt hmantissa]
    simp only [UnpackedFloat.pack, Format.mantissaBits, log2_implicit, hbiased]
    rw [if_neg (by omega), if_pos (by omega), BitVec.ofNat_toNat, BitVec.setWidth_eq, hstored]
    exact hparts

/-- Reading back the bits of a double returns it. -/
theorem ofBits_toBits (x : Float) : Float.ofBits x.toBits = x := by
  rcases x with ⟨⟨bits, valid⟩⟩
  have hpack := pack_unpack (by decide) valid
  simp only [Float.ofBits, Float.toBits, Float.Model.ofBits, Float.Model.pack, hpack]

end Rvx.FloatBits
