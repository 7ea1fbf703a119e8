import Keow.Kernel.Linux

/-!
# Sets of signals

`linux::sigset_t` (`linux_types.h:299–301`): words of 32 bits, which the kernel tests, sets and
combines one by one, and the bits of the whole set behind them. Bit `sig - 1` stands for signal
`sig`.
-/

namespace Keow.Kernel

/-- `_NSIG_BPW`. -/
def nsigBpw : Nat := 32

/-- `_NSIG_WORDS`. -/
def nsigWords : Nat := nsig / nsigBpw

/-- `sig[i]` of a set. -/
def sigWord (mask : BitVec 64) (i : Nat) : BitVec 32 := mask.extractLsb' (nsigBpw * i) 32

/-- The set of these words. -/
def ofSigWords (words : Nat → BitVec 32) : BitVec 64 := words 1 ++ words 0

/-- The test of `Process.cpp:1574`. -/
def testSignal (words : Nat → BitVec 32) (sig : Nat) : Bool :=
  words ((sig - 1) / nsigBpw) &&& 1#32 <<< ((sig - 1) % nsigBpw) != 0#32

/-- The statement of `Process.cpp:1795`. -/
def addSignal (words : Nat → BitVec 32) (sig : Nat) : Nat → BitVec 32 := fun i ↦
  if i = (sig - 1) / nsigBpw then words i ||| 1#32 <<< ((sig - 1) % nsigBpw) else words i

theorem getLsbD_sigWord (mask : BitVec 64) (i j : Nat) :
    (sigWord mask i).getLsbD j = (decide (j < 32) && mask.getLsbD (nsigBpw * i + j)) := by
  rw [sigWord, BitVec.getLsbD_extractLsb']

theorem sigWord_of_le (mask : BitVec 64) {i : Nat} (h : nsigWords ≤ i) : sigWord mask i = 0#32 := by
  apply BitVec.eq_of_getLsbD_eq
  intro j hj
  have hge : 64 ≤ nsigBpw * i + j := by
    have hmul : nsigBpw * nsigWords ≤ nsigBpw * i := Nat.mul_le_mul_left _ h
    have h64 : nsigBpw * nsigWords = 64 := rfl
    omega
  rw [getLsbD_sigWord, BitVec.getLsbD_of_ge _ _ hge, Bool.and_false, BitVec.getLsbD_zero]

/-- A set is made of its words. -/
@[simp] theorem ofSigWords_sigWord (mask : BitVec 64) : ofSigWords (sigWord mask) = mask := by
  apply BitVec.eq_of_getLsbD_eq
  intro j hj
  rw [ofSigWords, BitVec.getLsbD_append, getLsbD_sigWord, getLsbD_sigWord]
  split
  · next hlow => simp [hlow]
  · next hlow =>
    have hsub : nsigBpw * 1 + (j - 32) = j := by
      have hbpw : nsigBpw = 32 := rfl
      omega
    have hlt : j - 32 < 32 := by omega
    rw [hsub, decide_eq_true hlt, Bool.true_and]

/-- A bit is tested with a shifted one. -/
theorem and_shiftLeft_one (word : BitVec 32) {i : Nat} (h : i < 32) :
    (word &&& 1#32 <<< i != 0#32) = word.getLsbD i := by
  have hne : BitVec.twoPow 32 i ≠ 0#32 := by
    intro hzero
    have hbit := congrArg (BitVec.getLsbD · i) hzero
    simp [h] at hbit
  rw [← BitVec.twoPow_eq, BitVec.and_twoPow]
  cases word.getLsbD i <;> simp [hne]

/-- Word `(sig - 1) / 32` and bit `(sig - 1) % 32` are bit `sig - 1` of the set. -/
theorem testSignal_sigWord (mask : BitVec 64) (sig : Nat) :
    testSignal (sigWord mask) sig = mask.getLsbD (sig - 1) := by
  have hlt : (sig - 1) % nsigBpw < 32 := Nat.mod_lt _ (by decide)
  rw [testSignal, and_shiftLeft_one _ hlt, getLsbD_sigWord, Nat.div_add_mod]
  simp [hlt]

/-- Setting that bit adds the signal to the set. -/
theorem addSignal_sigWord (mask : BitVec 64) {sig : Nat} (h : sig ≤ nsig) :
    addSignal (sigWord mask) sig = sigWord (mask ||| BitVec.twoPow 64 (sig - 1)) := by
  have hsig : sig - 1 < 64 := by
    have hn : nsig = 64 := rfl
    omega
  have hdiv := Nat.div_add_mod (sig - 1) nsigBpw
  have hlt : (sig - 1) % nsigBpw < 32 := Nat.mod_lt _ (by decide)
  funext i
  apply BitVec.eq_of_getLsbD_eq
  intro j hj
  rw [addSignal, getLsbD_sigWord, BitVec.getLsbD_or, BitVec.getLsbD_twoPow]
  split
  · next hi =>
    have hbit : sig - 1 = nsigBpw * i + j ↔ (sig - 1) % nsigBpw = j := by
      rw [hi]
      omega
    rw [BitVec.getLsbD_or, getLsbD_sigWord, ← BitVec.twoPow_eq, BitVec.getLsbD_twoPow]
    simp [hj, hsig, hbit, hlt]
  · next hi =>
    have hbit : sig - 1 ≠ nsigBpw * i + j := by
      intro heq
      rw [heq, nsigBpw, Nat.mul_add_div (by decide), Nat.div_eq_of_lt hj, Nat.add_zero] at hi
      exact hi rfl
    rw [getLsbD_sigWord]
    simp [hbit]

end Keow.Kernel
