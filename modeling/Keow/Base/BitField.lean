import Mathlib.Tactic.Common

/-!
# Bit fields of a word

Assignment to a bit field: the bits from a position on are replaced, and those of every field
apart from it stay.
-/

namespace Keow.Base

variable {w n m : Nat}

/-- The word with `v` in place of the bits from `pos` on. -/
def setField (x : BitVec w) (pos : Nat) (v : BitVec n) : BitVec w :=
  x &&& ~~~((BitVec.allOnes n).setWidth w <<< pos) ||| v.setWidth w <<< pos

theorem getLsbD_setField (x : BitVec w) (pos : Nat) (v : BitVec n) {i : Nat} (hi : i < w) :
    (setField x pos v).getLsbD i =
      if pos ≤ i ∧ i < pos + n then v.getLsbD (i - pos) else x.getLsbD i := by
  have hsub : i - pos < w := by omega
  simp only [setField, BitVec.getLsbD_or, BitVec.getLsbD_and, BitVec.getLsbD_not,
    BitVec.getLsbD_shiftLeft, BitVec.getLsbD_setWidth, BitVec.getLsbD_allOnes, hi, hsub,
    decide_true, Bool.true_and]
  by_cases hlow : i < pos
  · have hout : ¬(pos ≤ i ∧ i < pos + n) := by omega
    simp [hlow, hout]
  · by_cases hhigh : i - pos < n
    · have hin : pos ≤ i ∧ i < pos + n := by omega
      simp [hlow, hhigh, hin]
    · have hout : ¬(pos ≤ i ∧ i < pos + n) := by omega
      have hv : v.getLsbD (i - pos) = false := BitVec.getLsbD_of_ge v _ (by omega)
      simp [hlow, hhigh, hout, hv]

/-- The field itself. -/
@[simp] theorem extractLsb'_setField (x : BitVec w) {pos : Nat} (v : BitVec n)
    (h : pos + n ≤ w) : (setField x pos v).extractLsb' pos n = v := by
  apply BitVec.eq_of_getLsbD_eq
  intro i hi
  rw [BitVec.getLsbD_extractLsb', getLsbD_setField x pos v (by omega), if_pos (by omega),
    Nat.add_sub_cancel_left, decide_eq_true hi, Bool.true_and]

/-- A field apart from it. -/
theorem extractLsb'_setField_of_apart (x : BitVec w) {pos pos' : Nat} (v : BitVec n)
    (h : pos' + m ≤ pos ∨ pos + n ≤ pos') :
    (setField x pos v).extractLsb' pos' m = x.extractLsb' pos' m := by
  apply BitVec.eq_of_getLsbD_eq
  intro i hi
  rw [BitVec.getLsbD_extractLsb', BitVec.getLsbD_extractLsb']
  by_cases hw : pos' + i < w
  · rw [getLsbD_setField x pos v hw, if_neg (by omega)]
  · rw [BitVec.getLsbD_of_ge _ _ (by omega), BitVec.getLsbD_of_ge _ _ (by omega)]

/-- A word from its high and its low part. -/
theorem setWidth_ushiftRight_append (x : BitVec w) :
    (x >>> n).setWidth m ++ x.setWidth n = x.setWidth (m + n) := by
  apply BitVec.eq_of_getLsbD_eq
  intro i hi
  rw [BitVec.getLsbD_append, BitVec.getLsbD_setWidth, BitVec.getLsbD_setWidth,
    BitVec.getLsbD_setWidth, BitVec.getLsbD_ushiftRight, decide_eq_true hi]
  split
  · next hlow => rw [decide_eq_true hlow]
  · next hhigh =>
    rw [decide_eq_true (by omega), Nat.add_sub_of_le (by omega)]

end Keow.Base
