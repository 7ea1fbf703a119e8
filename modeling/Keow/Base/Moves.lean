import Mathlib.Data.List.Basic
import Mathlib.Data.List.Induction
import Mathlib.Tactic.Common

/-!
# Moves in a directory tree

A path without symbolic links is a list of moves, up to the parent or down into a named
child. Taken on its own it is equivalent to climbing some levels and then descending
(`normalize`). From a given place the same moves are walked either freely or above a
floor that climbing cannot leave (`walk`), and the walk is computed from the normal form.
-/

namespace Keow.Base

universe u

/-- One move. -/
inductive Move (α : Type u) where
  | up
  | down (name : α)
deriving DecidableEq

/-- A place relative to some directory: `ups` levels above it, then down `names`. -/
structure Place (α : Type u) where
  ups : Nat
  names : List α
deriving DecidableEq

namespace Place

variable {α : Type u}

/-- The directory itself. -/
def here : Place α := ⟨0, []⟩

/-- One move above an optional floor: with `some f` the first `f` names are never left and
climbing stops there, without a floor it goes on above the starting directory. -/
def move (floor : Option Nat) (p : Place α) : Move α → Place α
  | .down name => { p with names := p.names ++ [name] }
  | .up =>
      match floor with
      | some f => if p.names.length ≤ f then p else { p with names := p.names.dropLast }
      | none => if p.names = [] then { p with ups := p.ups + 1 }
          else { p with names := p.names.dropLast }

/-- A sequence of moves. -/
def walk (floor : Option Nat) (p : Place α) (ms : List (Move α)) : Place α :=
  ms.foldl (move floor) p

/-- The moves on their own. -/
def normalize (ms : List (Move α)) : Place α := walk none here ms

/-- `d` is `p` or one of the directories above it. -/
def IsAbove (d p : Place α) : Prop := d.ups = p.ups ∧ d.names <+: p.names

@[simp] theorem walk_nil (floor : Option Nat) (p : Place α) : walk floor p [] = p := rfl

theorem walk_append (floor : Option Nat) (p : Place α) (ms ms' : List (Move α)) :
    walk floor p (ms ++ ms') = walk floor (walk floor p ms) ms' := by
  rw [walk, List.foldl_append]
  rfl

theorem walk_snoc (floor : Option Nat) (p : Place α) (ms : List (Move α)) (m : Move α) :
    walk floor p (ms ++ [m]) = move floor (walk floor p ms) m := by
  rw [walk_append]
  rfl

theorem normalize_snoc (ms : List (Move α)) (m : Move α) :
    normalize (ms ++ [m]) = move none (normalize ms) m :=
  walk_snoc none here ms m

/-- A walk ends among the names it started with and the names it went down. -/
theorem mem_names_walk {floor : Option Nat} {p : Place α} {ms : List (Move α)} {name : α}
    (h : name ∈ (walk floor p ms).names) : name ∈ p.names ∨ Move.down name ∈ ms := by
  have hdrop : ∀ q : Place α, name ∈ (move floor q .up).names → name ∈ q.names := by
    intro q hq
    cases floor with
    | some f =>
      simp only [move] at hq
      split at hq
      · exact hq
      · exact List.dropLast_subset _ hq
    | none =>
      simp only [move] at hq
      split at hq
      · exact hq
      · exact List.dropLast_subset _ hq
  induction ms using List.reverseRecOn with
  | nil => exact .inl h
  | append_singleton ms m ih =>
    rw [walk_snoc] at h
    cases m with
    | up => exact (ih (hdrop _ h)).imp_right (List.mem_append_left _)
    | down n =>
      rcases List.mem_append.mp h with h | h
      · exact (ih h).imp_right (List.mem_append_left _)
      · rw [List.mem_singleton.mp h]
        exact .inr (List.mem_append_right _ List.mem_cons_self)

/-- Without a floor: climb out of `p`, then descend. -/
theorem walk_none (p : Place α) (ms : List (Move α)) :
    walk none p ms =
      { ups := p.ups + ((normalize ms).ups - p.names.length)
        names := p.names.take (p.names.length - (normalize ms).ups) ++ (normalize ms).names } := by
  induction ms using List.reverseRecOn with
  | nil => simp [normalize, here]
  | append_singleton ms m ih =>
    rw [walk_snoc, normalize_snoc, ih]
    generalize normalize ms = r
    cases m with
    | down name => simp [move]
    | up =>
      by_cases hr : r.names = []
      · simp only [move, hr, List.append_nil, if_true]
        split
        · next h =>
          have hlen : p.names.length ≤ r.ups := by
            have := congrArg List.length h
            simp only [List.length_take, List.length_nil] at this
            omega
          rw [h, show p.names.length - (r.ups + 1) = 0 by omega, List.take_zero]
          congr 1
          omega
        · next h =>
          have hlen : r.ups < p.names.length := by
            by_contra hle
            exact h (by rw [show p.names.length - r.ups = 0 by omega, List.take_zero])
          rw [List.dropLast_eq_take, List.take_take, List.length_take]
          congr 1
          · omega
          · congr 1
            omega
      · have hne : p.names.take (p.names.length - r.ups) ++ r.names ≠ [] := by simp [hr]
        simp only [move, hr, hne, if_false]
        rw [List.dropLast_append_of_ne_nil hr]

/-- Above a floor inside `p`: climb down to the floor at most, then descend. -/
theorem walk_some {f : Nat} {p : Place α} (hf : f ≤ p.names.length) (ms : List (Move α)) :
    walk (some f) p ms =
      { ups := p.ups
        names := p.names.take (max f (p.names.length - (normalize ms).ups)) ++
          (normalize ms).names } := by
  induction ms using List.reverseRecOn with
  | nil =>
    have hm : max f (p.names.length - 0) = p.names.length := by omega
    simp only [walk_nil, normalize, here, hm, List.take_length, List.append_nil]
  | append_singleton ms m ih =>
    rw [walk_snoc, normalize_snoc, ih]
    generalize normalize ms = r
    cases m with
    | down name => simp [move]
    | up =>
      by_cases hr : r.names = []
      · simp only [move, hr, List.append_nil, if_true, List.length_take]
        split
        · next h => rw [show max f (p.names.length - (r.ups + 1)) =
            max f (p.names.length - r.ups) by omega]
        · next h =>
          rw [List.dropLast_eq_take, List.take_take, List.length_take]
          congr 2
          omega
      · have hlong : ¬(p.names.take (max f (p.names.length - r.ups)) ++ r.names).length ≤ f := by
          have := List.length_pos_of_ne_nil hr
          simp only [List.length_append, List.length_take]
          omega
        simp only [move, hr, hlong, if_false]
        rw [List.dropLast_append_of_ne_nil hr]

/-- A floor at or below `p` is never left. -/
theorem isAbove_walk_of_length_le {f : Nat} {p : Place α} (hf : p.names.length ≤ f)
    (ms : List (Move α)) : IsAbove p (walk (some f) p ms) := by
  induction ms using List.reverseRecOn with
  | nil => exact ⟨rfl, List.prefix_refl _⟩
  | append_singleton ms m ih =>
    rw [walk_snoc]
    obtain ⟨hu, t, ht⟩ := ih
    cases m with
    | down name => exact ⟨hu, t ++ [name], by simp [move, ← ht]⟩
    | up =>
      simp only [move]
      split
      · exact ⟨hu, t, ht⟩
      · next hlen =>
        have hne : t ≠ [] := by
          rintro rfl
          simp only [← ht, List.append_nil] at hlen
          omega
        refine ⟨hu, t.dropLast, ?_⟩
        rw [← ht, List.dropLast_append_of_ne_nil hne]

/-- What the climb of the moves leaves of `p` must be re-entered by their descent. -/
def Returns (floor : Option Nat) (p : Place α) (ms : List (Move α)) : Prop :=
  match floor with
  | some f => p.names.drop (max f (p.names.length - (normalize ms).ups)) <+: (normalize ms).names
  | none => (normalize ms).ups ≤ p.names.length ∧
      p.names.drop (p.names.length - (normalize ms).ups) <+: (normalize ms).names

private theorem prefix_take_append_iff (l r : List α) (k : Nat) :
    l <+: l.take k ++ r ↔ l.drop k <+: r := by
  nth_rewrite 1 [← List.take_append_drop k l]
  exact List.prefix_append_right_inj _

/-- The moves end at or below `p` exactly when they return to what they climbed out of. -/
theorem isAbove_walk_iff (floor : Option Nat) (p : Place α) (ms : List (Move α)) :
    IsAbove p (walk floor p ms) ↔ Returns floor p ms := by
  cases floor with
  | none =>
    rw [walk_none]
    simp only [IsAbove, Returns, prefix_take_append_iff]
    constructor
    · exact fun ⟨hu, hp⟩ ↦ ⟨by omega, hp⟩
    · exact fun ⟨hu, hp⟩ ↦ ⟨by omega, hp⟩
  | some f =>
    rcases Nat.le_total p.names.length f with hf | hf
    · have hdrop : p.names.drop (max f (p.names.length - (normalize ms).ups)) = [] :=
        List.drop_of_length_le (by omega)
      simp only [Returns, hdrop, List.nil_prefix, iff_true]
      exact isAbove_walk_of_length_le hf ms
    · rw [walk_some hf]
      simp only [IsAbove, Returns, prefix_take_append_iff, true_and]

/-- Descending only. -/
theorem normalize_downs (names : List α) : normalize (names.map Move.down) = ⟨0, names⟩ := by
  induction names using List.reverseRecOn with
  | nil => rfl
  | append_singleton names name ih =>
    rw [List.map_append, List.map_singleton, normalize_snoc, ih]
    rfl

/-- Moves that never climb above their start stay below every place. -/
theorem returns_of_ups_eq_zero {floor : Option Nat} {p : Place α} {ms : List (Move α)}
    (h : (normalize ms).ups = 0) : Returns floor p ms := by
  cases floor with
  | none => exact ⟨by omega, by simp [h]⟩
  | some f =>
    have hdrop : p.names.drop (max f (p.names.length - (normalize ms).ups)) = [] :=
      List.drop_of_length_le (by omega)
    simp [Returns, hdrop]

end Place
end Keow.Base
