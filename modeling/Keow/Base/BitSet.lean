import Mathlib.Data.List.Basic
import Mathlib.Tactic.Common

/-!
# Words as sets of bit numbers

A word of any width stands for the numbers of its bits that are set. Bits are added one by one,
by a loop over candidates, and counted.
-/

namespace Keow.Base

variable {w : Nat}

/-- The empty set. -/
def noBits : BitVec w := 0#w

/-- A set with one number more. Numbers from the width on are not kept. -/
def insertBit (s : BitVec w) (i : Nat) : BitVec w := s ||| BitVec.twoPow w i

/-- A set without the numbers below `n`. -/
def clearBelow (s : BitVec w) (n : Nat) : BitVec w := s >>> n <<< n

/-- The candidates that pass a test are added. -/
def insertBits (p : Nat → Bool) (is : List Nat) (s : BitVec w) : BitVec w :=
  is.foldl (fun s i ↦ if p i then insertBit s i else s) s

/-- How many numbers are in a set. -/
def bitCount (s : BitVec w) : Nat := (List.range w).countP s.getLsbD

theorem getLsbD_noBits (i : Nat) : (noBits : BitVec w).getLsbD i = false := BitVec.getLsbD_zero

theorem clearBelow_noBits (n : Nat) : clearBelow (noBits : BitVec w) n = noBits := by
  simp [clearBelow, noBits]

theorem getLsbD_insertBit (s : BitVec w) (i : Nat) {j : Nat} (hj : j < w) :
    (insertBit s i).getLsbD j = (s.getLsbD j || decide (i = j)) := by
  rw [insertBit, BitVec.getLsbD_or, BitVec.getLsbD_twoPow]
  by_cases h : i = j
  · subst h
    simp [hj]
  · simp [h]

theorem getLsbD_clearBelow (s : BitVec w) (n : Nat) {j : Nat} (hj : j < w) :
    (clearBelow s n).getLsbD j = (decide (n ≤ j) && s.getLsbD j) := by
  rw [clearBelow, BitVec.getLsbD_shiftLeft, BitVec.getLsbD_ushiftRight]
  by_cases hn : n ≤ j
  · rw [Nat.add_sub_cancel' hn]
    simp [hj, hn, Nat.not_lt.mpr hn]
  · simp [hn, Nat.lt_of_not_le hn]

/-- What a loop over candidates leaves. -/
theorem getLsbD_insertBits (p : Nat → Bool) (is : List Nat) (s : BitVec w) {j : Nat} (hj : j < w) :
    (insertBits p is s).getLsbD j = true ↔ s.getLsbD j = true ∨ j ∈ is ∧ p j = true := by
  unfold insertBits
  induction is generalizing s with
  | nil => simp
  | cons i is ih =>
    rw [List.foldl_cons, ih, List.mem_cons]
    split
    · next hi =>
      rw [getLsbD_insertBit s i hj, Bool.or_eq_true, decide_eq_true_eq]
      constructor
      · rintro ((h | rfl) | h)
        · exact .inl h
        · exact .inr ⟨.inl rfl, hi⟩
        · exact .inr ⟨.inr h.1, h.2⟩
      · rintro (h | ⟨rfl | h, hp⟩)
        · exact .inl (.inl h)
        · exact .inl (.inr rfl)
        · exact .inr ⟨h, hp⟩
    · next hi =>
      constructor
      · rintro (h | h)
        · exact .inl h
        · exact .inr ⟨.inr h.1, h.2⟩
      · rintro (h | ⟨rfl | h, hp⟩)
        · exact .inl h
        · exact absurd hp hi
        · exact .inr ⟨h, hp⟩

/-- A loop that finds nothing leaves the set as it was. -/
theorem insertBits_eq_self {p : Nat → Bool} {is : List Nat} (h : ∀ i ∈ is, p i = false)
    (s : BitVec w) : insertBits p is s = s := by
  unfold insertBits
  induction is with
  | nil => rfl
  | cons i is ih =>
    obtain ⟨hi, his⟩ := List.forall_mem_cons.mp h
    rw [List.foldl_cons, hi, if_neg Bool.false_ne_true, ih his]

/-- Counting over a longer range finds no more, if there is nothing more. -/
theorem countP_range_of_le {p : Nat → Bool} {m n : Nat} (hmn : m ≤ n)
    (h : ∀ i, p i = true → i < m) : (List.range n).countP p = (List.range m).countP p := by
  obtain ⟨k, rfl⟩ := Nat.exists_eq_add_of_le hmn
  have hzero : ((List.range k).map (m + ·)).countP p = 0 := by
    rw [List.countP_eq_zero]
    intro i hi hp
    obtain ⟨j, -, rfl⟩ := List.mem_map.mp hi
    exact absurd (h _ hp) (by omega)
  rw [List.range_add, List.countP_append, hzero, Nat.add_zero]

/-- The count of a set whose numbers are those below `n` that pass a test. -/
theorem bitCount_eq_countP {s : BitVec w} {p : Nat → Bool} {n : Nat}
    (hs : ∀ i, i < w → (s.getLsbD i = true ↔ i < n ∧ p i = true)) (hp : ∀ i, p i = true → i < w) :
    bitCount s = (List.range n).countP p := by
  have hboth : bitCount s = (List.range w).countP fun i ↦ decide (i < n) && p i := by
    apply List.countP_congr
    intro i hi
    rw [hs i (List.mem_range.mp hi), Bool.and_eq_true, decide_eq_true_eq]
  have hrange : (List.range n).countP p = (List.range n).countP fun i ↦ decide (i < n) && p i := by
    apply List.countP_congr
    intro i hi
    rw [Bool.and_eq_true, decide_eq_true_eq, and_iff_right (List.mem_range.mp hi)]
  rw [hboth, hrange]
  rcases Nat.le_total w n with hle | hle
  · refine (countP_range_of_le hle fun i hi ↦ ?_).symm
    exact hp i (Bool.and_eq_true _ _ ▸ hi).2
  · refine countP_range_of_le hle fun i hi ↦ ?_
    exact of_decide_eq_true (Bool.and_eq_true _ _ ▸ hi).1

end Keow.Base
