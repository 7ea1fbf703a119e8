import Mathlib.Data.Nat.Bitwise
import Mathlib.Tactic.Common

/-!
# Rounding to a power of two

The C idiom `x & ~(a - 1)` on machine words, for a power of two `a`.
-/

namespace Keow.Base

variable {w : Nat}

/-- The mask clears exactly the digits below the power. -/
theorem and_not_sub_one (x a : BitVec w) {k : Nat} (h : a.toNat = 2 ^ k) :
    x &&& ~~~(a - 1#w) = x >>> k <<< k := by
  have hpos : 0 < 2 ^ k := Nat.two_pow_pos k
  have hlt := a.isLt
  have hmask : (a - 1#w).toNat = 2 ^ k - 1 := by
    rw [BitVec.toNat_sub, BitVec.toNat_ofNat, h]
    by_cases hw : w = 0
    · subst hw
      have hk : 2 ^ k = 1 := by omega
      simp [hk, Nat.mod_one]
    · have hone : 1 % 2 ^ w = 1 := Nat.mod_eq_of_lt (Nat.one_lt_two_pow hw)
      have he : 2 ^ w - 1 + 2 ^ k = (2 ^ k - 1) + 2 ^ w := by omega
      rw [hone, he, Nat.add_mod_right, Nat.mod_eq_of_lt (by omega)]
  apply BitVec.eq_of_getLsbD_eq
  intro i hi
  have hbit : (a - 1#w).getLsbD i = decide (i < k) := by
    rw [BitVec.getLsbD, hmask, Nat.testBit_two_pow_sub_one]
  rw [BitVec.getLsbD_and, BitVec.getLsbD_not, hbit, BitVec.getLsbD_shiftLeft,
    BitVec.getLsbD_ushiftRight]
  by_cases hik : i < k
  · simp [hi, hik]
  · have hsum : k + (i - k) = i := by omega
    simp [hi, hik, hsum]

/-- Rounding down. -/
theorem toNat_and_not_sub_one (x a : BitVec w) {k : Nat} (h : a.toNat = 2 ^ k) :
    (x &&& ~~~(a - 1#w)).toNat = x.toNat - x.toNat % 2 ^ k := by
  have hx := x.isLt
  have hdiv : x.toNat / 2 ^ k * 2 ^ k = x.toNat - x.toNat % 2 ^ k := by
    have := Nat.div_add_mod' x.toNat (2 ^ k)
    omega
  rw [and_not_sub_one x a h, BitVec.toNat_shiftLeft, BitVec.toNat_ushiftRight,
    Nat.shiftRight_eq_div_pow, Nat.shiftLeft_eq, hdiv, Nat.mod_eq_of_lt (by omega)]

end Keow.Base
