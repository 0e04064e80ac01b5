-- SUMMARY: Reading and writing a contiguous field of a bit vector, as C bit-fields do.
import Mathlib.Data.BitVec

/-!
# Bit-fields

`field x lo w` is the `w`-bit field of `x` that starts at bit `lo`, and
`setField x lo v` replaces it. A struct of bit-fields laid over a raw integer is
a sequence of such writes.
-/

namespace X86

def field {n : Nat} (x : BitVec n) (lo w : Nat) : BitVec w := x.extractLsb' lo w

/-- Clear the field, then or the value in. -/
def setField {n w : Nat} (x : BitVec n) (lo : Nat) (v : BitVec w) : BitVec n :=
  (x &&& ~~~((BitVec.allOnes w).setWidth n <<< lo)) ||| (v.setWidth n <<< lo)

theorem getLsbD_field {n : Nat} (x : BitVec n) (lo w i : Nat) :
    (field x lo w).getLsbD i = (decide (i < w) && x.getLsbD (lo + i)) := by
  simp [field, BitVec.getLsbD_extractLsb']

theorem toNat_field {n : Nat} (x : BitVec n) (lo w : Nat) :
    (field x lo w).toNat = x.toNat / 2 ^ lo % 2 ^ w := by
  simp [field, BitVec.extractLsb'_toNat, Nat.shiftRight_eq_div_pow]

/-- A write changes the bits of its field and no others. -/
theorem getLsbD_setField {n w : Nat} (x : BitVec n) (lo : Nat) (v : BitVec w) {i : Nat}
    (hi : i < n) :
    (setField x lo v).getLsbD i
      = if lo ≤ i ∧ i < lo + w then v.getLsbD (i - lo) else x.getLsbD i := by
  simp only [setField, BitVec.getLsbD_or, BitVec.getLsbD_and, BitVec.getLsbD_not,
    BitVec.getLsbD_shiftLeft, BitVec.getLsbD_setWidth, BitVec.getLsbD_allOnes, hi, decide_true,
    Bool.true_and]
  have hsub : i - lo < n := by omega
  by_cases hlo : i < lo
  · have : ¬ (lo ≤ i ∧ i < lo + w) := by omega
    simp [hlo, this]
  · by_cases hw : i - lo < w
    · have : lo ≤ i ∧ i < lo + w := by omega
      simp [hlo, hw, hsub, this]
    · have : ¬ (lo ≤ i ∧ i < lo + w) := by omega
      have hout : v.getLsbD (i - lo) = false := BitVec.getLsbD_of_ge v _ (by omega)
      simp [hlo, hw, this, hout]

theorem field_setField {n w : Nat} (x : BitVec n) (lo : Nat) (v : BitVec w) (h : lo + w ≤ n) :
    field (setField x lo v) lo w = v := by
  apply BitVec.eq_of_getLsbD_eq
  intro i hi
  rw [getLsbD_field, getLsbD_setField _ _ _ (by omega), if_pos (by omega)]
  simp [hi]

theorem field_setField_disjoint {n w w' lo lo' : Nat} (x : BitVec n) (v : BitVec w')
    (hn : lo + w ≤ n) (h : lo + w ≤ lo' ∨ lo' + w' ≤ lo) :
    field (setField x lo' v) lo w = field x lo w := by
  apply BitVec.eq_of_getLsbD_eq
  intro i hi
  rw [getLsbD_field, getLsbD_field, getLsbD_setField _ _ _ (by omega), if_neg (by omega)]

theorem getLsbD_setField_disjoint {n w lo i : Nat} (x : BitVec n) (v : BitVec w)
    (h : i < lo ∨ lo + w ≤ i) (hi : i < n) : (setField x lo v).getLsbD i = x.getLsbD i := by
  rw [getLsbD_setField _ _ _ hi, if_neg (by omega)]

end X86
