import Mathlib.Tactic.Common

/-!
# Chains of references

A thing that refers to at most one other: following the references comes to an end, or goes
on for ever. A recursion that follows them with a bound on its depth runs into the bound
exactly when the chain is that long.
-/

namespace Keow.Base

universe u

variable {α : Type u} (next : α → Option α)

/-- What `n` references lead to. -/
def chase : Nat → α → Option α
  | 0, a => some a
  | n + 1, a => (next a).bind (chase n)

/-- Following the references comes to an end. -/
def Ends (a : α) : Prop := ∃ n, chase next n a = none

variable {next}

theorem chase_add (m n : Nat) (a : α) :
    chase next (m + n) a = (chase next m a).bind (chase next n) := by
  induction m generalizing a with
  | zero => rw [Nat.zero_add]; rfl
  | succ m ih =>
    rw [Nat.add_right_comm, chase, chase]
    cases next a with
    | none => rfl
    | some b => exact ih b

/-- Behind the end there is nothing. -/
theorem chase_eq_none_of_le {m n : Nat} {a : α} (h : chase next m a = none) (hle : m ≤ n) :
    chase next n a = none := by
  obtain ⟨k, rfl⟩ := Nat.exists_eq_add_of_le hle
  rw [chase_add, h]
  rfl

/-- What holds of everything that is met: of the start, and of what is met behind it. -/
theorem forall_chase_succ {Q : α → Prop} {a : α} {n : Nat} :
    (∀ k < n + 1, ∀ b, chase next k a = some b → Q b) ↔
      Q a ∧ ∀ a', next a = some a' → ∀ k < n, ∀ b, chase next k a' = some b → Q b := by
  constructor
  · refine fun h ↦ ⟨h 0 (Nat.succ_pos n) a rfl, fun a' ha' k hk b hb ↦ ?_⟩
    refine h (k + 1) (Nat.succ_lt_succ hk) b ?_
    rw [chase, ha']
    exact hb
  · rintro ⟨h0, h⟩ k hk b hb
    cases k with
    | zero =>
      cases hb
      exact h0
    | succ k =>
      rw [chase, Option.bind_eq_some_iff] at hb
      obtain ⟨a', ha', hb⟩ := hb
      exact h a' ha' k (Nat.lt_of_succ_lt_succ hk) b hb

/-- What leads back to itself never ends. -/
theorem not_ends_of_cycle {a : α} {n : Nat} (h : chase next (n + 1) a = some a) :
    ¬Ends next a := by
  rintro ⟨m, hm⟩
  have hround : ∀ k, chase next (k * (n + 1)) a = some a := by
    intro k
    induction k with
    | zero => rw [Nat.zero_mul]; rfl
    | succ k ih =>
      rw [Nat.succ_mul, chase_add, ih]
      exact h
  have hle : m ≤ m * (n + 1) := Nat.le_mul_of_pos_right m (Nat.succ_pos n)
  have hnone := chase_eq_none_of_le hm hle
  rw [hround m] at hnone
  cases hnone

section Bounded

/-! A recursion on states `β`, each of which stands for something of `α`. -/

variable {β : Type u} (stands : β → α → Prop) (stuck : Nat → β → Prop)

/-- The recursion is stuck at its bound exactly when the chain is that long. -/
theorem stuck_iff (hzero : ∀ b, stuck 0 b)
    (hend : ∀ b a, stands b a → next a = none → ∀ n, ¬stuck (n + 1) b)
    (hstep : ∀ b a a', stands b a → next a = some a' →
      ∃ b', stands b' a' ∧ ∀ n, stuck (n + 1) b ↔ stuck n b')
    (n : Nat) {b : β} {a : α} (h : stands b a) : stuck n b ↔ chase next n a ≠ none := by
  induction n generalizing a b with
  | zero => exact iff_of_true (hzero b) (by simp [chase])
  | succ n ih =>
    rw [chase]
    cases hnext : next a with
    | none => exact iff_of_false (hend b a h hnext n) (by simp)
    | some a' =>
      obtain ⟨b', hb', hstuck⟩ := hstep b a a' h hnext
      rw [hstuck n, ih hb']
      rfl

end Bounded

/-- With every large enough bound the recursion comes through exactly when the chain ends. -/
theorem ends_iff {stuck : Nat → Prop} {a : α} (h : ∀ n, stuck n ↔ chase next n a ≠ none) :
    (∃ n, ∀ m, n ≤ m → ¬stuck m) ↔ Ends next a := by
  constructor
  · rintro ⟨n, hn⟩
    refine ⟨n, ?_⟩
    by_contra hne
    exact hn n (Nat.le_refl n) ((h n).mpr hne)
  · rintro ⟨n, hn⟩
    exact ⟨n, fun m hle hstuck ↦ (h m).mp hstuck (chase_eq_none_of_le hn hle)⟩

end Keow.Base
