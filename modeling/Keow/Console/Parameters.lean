import Keow.Base.Run
import Keow.Console.Cons25

/-!
# The parameters of a sequence

The first element of `m_OutputStateData` counts the separators of a sequence, and the digits of
the parameter behind `n` of them go to element `n + 1`. The count is a byte, and nothing compares
it with the 100 elements there are.
-/

namespace Keow.Console

open Keow.Base

/-! ## Digits and separators -/

theorem separatorCount_set (data : Vector UInt8 100) {n : Nat} (h : n + 1 < 100) (b : UInt8) :
    separatorCount (data.set (n + 1) b) = separatorCount data := by
  simp [separatorCount]

theorem separatorCount_separate (data : Vector UInt8 100) :
    separatorCount (separate data) = (separatorCount data + 1) % 256 := by
  simp [separatorCount, separate, UInt8.toNat_add]

namespace Cons25

/-- A digit behind at most 98 separators. -/
theorem addDigit_of_le (t : Cons25) (c : UInt8) (h : separatorCount t.outputStateData ≤ 98) :
    t.addDigit c = some { t with
      outputStateData := t.outputStateData.set (separatorCount t.outputStateData + 1)
        (t.outputStateData[separatorCount t.outputStateData + 1] * 10 + (c - 0x30)) } := by
  have hlt : t.outputStateData[0].toNat + 1 < 100 := Nat.succ_lt_succ (Nat.lt_succ_of_le h)
  simp [addDigit, data, setData, separatorCount, hlt]

/-- A digit behind more goes past the last element. -/
theorem addDigit_of_lt (t : Cons25) (c : UInt8) (h : 98 < separatorCount t.outputStateData) :
    t.addDigit c = none := by
  have hle : ¬t.outputStateData[0].toNat + 1 < 100 :=
    Nat.not_lt.mpr (Nat.succ_le_succ h)
  simp [addDigit, data, hle]

theorem nextParameter_eq (t : Cons25) :
    t.nextParameter = some { t with outputStateData := separate t.outputStateData } := by
  simp [nextParameter, data, setData, separate]

end Cons25

/-! ## Where a stream stands -/

/-- How far a stream is into a sequence: outside, behind `ESC`, or so many separators into the
parameters of `ESC [` or `ESC [ =`. -/
inductive Position where
  | text
  | escape
  | bracket (separators : Nat)
  | equal (separators : Nat)

namespace Position

def separators : Position → Option Nat
  | text | escape => none
  | bracket n | equal n => some n

/-- Past a character that is not always special. -/
def move : Position → UInt8 → Position
  | text, c => if c = 0x1B then escape else text
  | escape, c => if c = 0x5B then bracket 0 else text
  | bracket n, c =>
      if c = 0x3D then equal n else if isDigit c then bracket n
      else if c = 0x3B then bracket (n + 1) else text
  | equal n, c =>
      if isDigit c then equal n else if c = 0x3B then equal (n + 1) else text

/-- Past a character. -/
def next (p : Position) (c : UInt8) : Position :=
  if (alwaysSpecial c).isSome then p else p.move c

/-- A digit of a parameter has an element to go to: it follows at most 98 separators, counted
modulo 256. -/
def FitsArray (p : Position) (c : UInt8) : Prop :=
  isDigit c → ∀ n ∈ p.separators, n % 256 ≤ 98

/-- The terminal has come this far. -/
def Reached (t : Cons25) : Position → Prop
  | text => t.outputState = .none
  | escape => t.outputState = .esc
  | bracket n => t.outputState = .bracket ∧ separatorCount t.outputStateData = n % 256
  | equal n => t.outputState = .equal ∧ separatorCount t.outputStateData = n % 256

end Position

theorem alwaysSpecial_of_isDigit {c : UInt8} (h : isDigit c = true) : alwaysSpecial c = none := by
  simp only [isDigit, Bool.and_eq_true, decide_eq_true_eq] at h
  unfold alwaysSpecial
  split <;> first | rfl | (exfalso; revert h; decide)

section Step

variable {s : Screen} {t : Cons25} {p : Position} {c : UInt8}

/-- A digit of a parameter with an element leaves the count. -/
theorem addDigit_reached {n : Nat} (hcount : separatorCount t.outputStateData = n % 256)
    (hfits : n % 256 ≤ 98) :
    ∃ t', t.addDigit c = some t' ∧ t'.outputState = t.outputState ∧
      separatorCount t'.outputStateData = n % 256 := by
  refine ⟨_, t.addDigit_of_le c (by omega), rfl, ?_⟩
  rw [separatorCount_set, hcount]

theorem nextParameter_reached {n : Nat} (hcount : separatorCount t.outputStateData = n % 256) :
    ∃ t', t.nextParameter = some t' ∧ t'.outputState = t.outputState ∧
      separatorCount t'.outputStateData = (n + 1) % 256 := by
  refine ⟨_, t.nextParameter_eq, rfl, ?_⟩
  rw [separatorCount_separate, hcount, Nat.mod_add_mod]

/-- A character that fits moves the position. -/
theorem outputStep_reached (h : p.Reached t) (hfits : p.FitsArray c) :
    ∃ t' call, outputStep s t c = some (t', call) ∧ (p.move c).Reached t' := by
  cases p with
  | text =>
    have h : t.outputState = .none := h
    unfold outputStep Position.move
    rw [h]
    dsimp only
    split
    · exact ⟨_, _, rfl, rfl⟩
    · exact ⟨_, _, rfl, h⟩
  | escape =>
    have h : t.outputState = .esc := h
    unfold outputStep Position.move
    rw [h]
    dsimp only
    split
    · exact ⟨_, _, rfl, rfl, rfl⟩
    · exact ⟨_, _, rfl, rfl⟩
  | bracket n =>
    obtain ⟨hstate, hcount⟩ := h
    unfold outputStep Position.move
    rw [hstate]
    dsimp only
    split_ifs with hequal hdigit hseparator
    · exact ⟨_, _, rfl, rfl, hcount⟩
    · obtain ⟨t', ht', hstate', hcount'⟩ := addDigit_reached (c := c) hcount (hfits hdigit n rfl)
      exact ⟨t', none, by simp [ht'], hstate'.trans hstate, hcount'⟩
    · obtain ⟨t', ht', hstate', hcount'⟩ := nextParameter_reached hcount
      exact ⟨t', none, by simp [ht'], hstate'.trans hstate, hcount'⟩
    · exact ⟨_, _, rfl, rfl⟩
  | equal n =>
    obtain ⟨hstate, hcount⟩ := h
    unfold outputStep Position.move
    rw [hstate]
    dsimp only
    split_ifs with hdigit hseparator
    · obtain ⟨t', ht', hstate', hcount'⟩ := addDigit_reached (c := c) hcount (hfits hdigit n rfl)
      exact ⟨t', none, by simp [ht'], hstate'.trans hstate, hcount'⟩
    · obtain ⟨t', ht', hstate', hcount'⟩ := nextParameter_reached hcount
      exact ⟨t', none, by simp [ht'], hstate'.trans hstate, hcount'⟩
    · exact ⟨_, _, rfl, rfl⟩

theorem outputChar_reached (h : p.Reached t) (hfits : p.FitsArray c) :
    ∃ t' call, outputChar s t c = some (t', call) ∧ (p.next c).Reached t' := by
  unfold outputChar Position.next
  cases hspecial : alwaysSpecial c with
  | some d => exact ⟨t, _, rfl, by simpa using h⟩
  | none => simpa using outputStep_reached (s := s) h hfits

/-- What does not fit goes past the last element. -/
theorem outputChar_outside (h : p.Reached t) (hfits : ¬p.FitsArray c) :
    outputChar s t c = none := by
  simp only [Position.FitsArray, Classical.not_imp, not_forall, Nat.not_le] at hfits
  obtain ⟨hdigit, n, hn, hlarge⟩ := hfits
  have hequal : c ≠ 0x3D := by
    rintro rfl
    exact absurd hdigit (by decide)
  rw [outputChar, alwaysSpecial_of_isDigit hdigit]
  cases p with
  | text => cases hn
  | escape => cases hn
  | bracket m =>
    obtain ⟨hstate, hcount⟩ := h
    obtain rfl : m = n := by simpa [Position.separators] using hn
    simp [outputStep, hstate, hequal, hdigit, t.addDigit_of_lt c (by omega)]
  | equal m =>
    obtain ⟨hstate, hcount⟩ := h
    obtain rfl : m = n := by simpa [Position.separators] using hn
    simp [outputStep, hstate, hdigit, t.addDigit_of_lt c (by omega)]

end Step

/-! ## A whole stream -/

section Stream

variable {κ : Type} (w : Window κ)

/-- Every access to `m_OutputStateData` is to one of its elements. -/
def StaysInArray (t : Terminal κ) (cs : List UInt8) : Prop := (printAll w t cs).isSome

theorem staysInArray_iff_along {t : Terminal κ} {p : Position} (h : p.Reached t.cons)
    (cs : List UInt8) :
    StaysInArray w t cs ↔ Along Position.next Position.FitsArray p cs := by
  induction cs generalizing t p with
  | nil => exact iff_of_true rfl trivial
  | cons c cs ih =>
    rw [StaysInArray, printAll_cons, Along, print]
    by_cases hfits : p.FitsArray c
    · obtain ⟨t', call, hrun, hnext⟩ := outputChar_reached (s := w.screen t.window) h hfits
      rw [hrun]
      have hrest := ih (t := t.after w (t', call)) hnext
      rw [StaysInArray] at hrest
      simpa [hfits] using hrest
    · rw [outputChar_outside h hfits]
      simp [hfits]

/-- The terminal as it starts, whatever its array holds. -/
def Terminal.start (data : Vector UInt8 100) (k : κ) : Terminal κ where
  cons := { outputStateData := data }
  window := k

theorem reached_start (data : Vector UInt8 100) (k : κ) :
    Position.text.Reached (Terminal.start data k).cons := rfl

/-- A stream from the start stays inside the array exactly if each digit of each sequence in it
has an element to go to. -/
theorem staysInArray_iff (data : Vector UInt8 100) (k : κ) (cs : List UInt8) :
    StaysInArray w (Terminal.start data k) cs ↔
      Along Position.next Position.FitsArray .text cs :=
  staysInArray_iff_along w (reached_start data k) cs

end Stream

/-! ## One separator too many -/

/-- A window that ignores what it is asked. -/
def idleWindow : Window Screen where
  screen := id
  perform _ := id

/-- 80 columns and 25 lines, at the bottom of a buffer of 1000 lines. -/
def startScreen : Screen where
  size := ⟨80#16, 1000#16⟩
  cursorPosition := ⟨0#16, 999#16⟩
  attributes := FOREGROUND_WHITE
  window := ⟨0#16, 975#16, 79#16, 999#16⟩
  cursorVisible := true

theorem foldl_separators (n k : Nat) :
    (List.replicate k 0x3B).foldl Position.next (.bracket n) = .bracket (n + k) := by
  induction k generalizing n with
  | zero => rfl
  | succ k ih =>
    have hstep : (Position.bracket n).next 0x3B = .bracket (n + 1) := rfl
    rw [List.replicate_succ, List.foldl_cons, hstep, ih, Nat.add_right_comm, Nat.add_assoc]

/-- `ESC [`, 99 separators and a digit. -/
theorem not_staysInArray_separators :
    ¬StaysInArray idleWindow (Terminal.start (Vector.replicate 100 0) startScreen)
      ([0x1B, 0x5B] ++ List.replicate 99 0x3B ++ [0x31]) := by
  rw [staysInArray_iff_along idleWindow (reached_start _ _), along_append, List.foldl_append]
  intro h
  have hend := h.2.1
  rw [show [0x1B, 0x5B].foldl Position.next .text = .bracket 0 from rfl, foldl_separators] at hend
  exact absurd (hend rfl 99 rfl) (by decide)

end Keow.Console
