import Mathlib.Algebra.Order.Ring.Int
import Mathlib.Tactic.Common

/-!
# 32-bit integers

When a number is the value of an `int`, and how 64-bit numbers come from their halves.
-/

namespace Keow.Base

/-- A number is its own remainder exactly if it is an `int`. -/
theorem bmod_eq_self_iff (n : Int) :
    n.bmod (2 ^ 32) = n ↔ -2 ^ 31 ≤ n ∧ n < 2 ^ 31 := by
  rw [Int.bmod_eq_iff (by decide), Int.sub_self]
  constructor
  · rintro ⟨hle, hlt, -⟩
    exact ⟨by omega, by omega⟩
  · rintro ⟨hle, hlt⟩
    exact ⟨by omega, by omega, Int.dvd_zero _⟩

theorem toInt_ofInt_eq_iff (n : Int) :
    (BitVec.ofInt 32 n).toInt = n ↔ -2 ^ 31 ≤ n ∧ n < 2 ^ 31 := by
  rw [BitVec.toInt_ofInt, bmod_eq_self_iff]

theorem toInt_ofNat_eq_iff (n : Nat) : (BitVec.ofNat 32 n).toInt = n ↔ n < 2 ^ 31 := by
  rw [← BitVec.ofInt_natCast, toInt_ofInt_eq_iff]
  omega

/-- An `int` that is not negative. -/
theorem toInt_of_nonneg {x : BitVec 32} (h : 0 ≤ x.toInt) :
    x.toInt = x.toNat ∧ x.toNat < 2 ^ 31 := by
  have hcond := BitVec.toInt_eq_toNat_cond x
  have := x.isLt
  split at hcond <;> omega

/-- The low half of a 64-bit number, as an `int`. -/
theorem toInt_setWidth_32 (x : BitVec 64) : (x.setWidth 32).toInt = x.toInt.bmod (2 ^ 32) := by
  rw [BitVec.toInt_setWidth, BitVec.toInt_eq_toNat_bmod, Int.bmod_bmod_of_dvd (by decide)]

/-- A 64-bit number and its halves. -/
theorem ofInt_append (n : Int) :
    BitVec.ofInt 32 (n / 2 ^ 32) ++ BitVec.ofInt 32 n = BitVec.ofInt 64 n := by
  apply BitVec.eq_of_toNat_eq
  have hlow : (BitVec.ofInt 32 n).toNat < 2 ^ 32 := BitVec.isLt _
  rw [BitVec.toNat_append, ← Nat.shiftLeft_add_eq_or_of_lt hlow, Nat.shiftLeft_eq,
    BitVec.toNat_ofInt, BitVec.toNat_ofInt, BitVec.toNat_ofInt]
  omega

/-- A 32-bit number behind a high half of 0 is itself, or 2 ^ 32 more. -/
theorem toInt_zero_append (x : BitVec 32) :
    (0#32 ++ x).toInt = if 0 ≤ x.toInt then x.toInt else x.toInt + 2 ^ 32 := by
  have hnat : (0#32 ++ x).toNat = x.toNat := by
    rw [BitVec.toNat_append, ← Nat.shiftLeft_add_eq_or_of_lt x.isLt]
    simp
  have hlt := x.isLt
  have hcond := BitVec.toInt_eq_toNat_cond x
  rw [BitVec.toInt_eq_toNat_of_lt (by omega), hnat]
  split at hcond <;> split <;> omega

end Keow.Base
