import Mathlib.Data.List.Basic
import Mathlib.Tactic.Common

/-!
# Lists by index

`tabulate n f` lists `f 0` to `f (n - 1)`. What operations at an index do to a list is said here
as what they do to the function.
-/

namespace Keow.Base

variable {α β : Type}

def tabulate (n : Nat) (f : Nat → α) : List α := (List.range n).map f

@[simp] theorem length_tabulate (n : Nat) (f : Nat → α) : (tabulate n f).length = n := by
  simp [tabulate]

@[simp] theorem getElem_tabulate {n i : Nat} (f : Nat → α) (h : i < (tabulate n f).length) :
    (tabulate n f)[i] = f i := by
  simp [tabulate]

theorem tabulate_inj {n : Nat} {f g : Nat → α} :
    tabulate n f = tabulate n g ↔ ∀ i < n, f i = g i := by
  simp [tabulate]

theorem tabulate_congr {n : Nat} {f g : Nat → α} (h : ∀ i < n, f i = g i) :
    tabulate n f = tabulate n g := tabulate_inj.mpr h

theorem eq_tabulate {n : Nat} {l : List α} {f : Nat → α} (hlength : l.length = n)
    (h : ∀ i (hi : i < l.length), l[i] = f i) : l = tabulate n f := by
  apply List.ext_getElem (by simp [hlength])
  intro i hi _
  rw [h i hi, getElem_tabulate]

@[simp] theorem map_tabulate (n : Nat) (f : Nat → α) (g : α → β) :
    (tabulate n f).map g = tabulate n (g ∘ f) := by
  simp [tabulate]

theorem replicate_eq_tabulate (n : Nat) (a : α) : List.replicate n a = tabulate n fun _ ↦ a :=
  eq_tabulate (by simp) (by simp)

/-- One element changed. -/
theorem modify_tabulate (n i : Nat) (f : Nat → α) (g : α → α) :
    (tabulate n f).modify i g = tabulate n fun j ↦ if j = i then g (f j) else f j := by
  apply eq_tabulate (by simp)
  intro j hj
  simp [List.getElem_modify, eq_comm]

/-- The elements from one on changed. -/
theorem take_append_map_drop (n i : Nat) (f : Nat → α) (g : α → α) :
    (tabulate n f).take i ++ ((tabulate n f).drop i).map g =
      tabulate n fun j ↦ if j < i then f j else g (f j) := by
  apply eq_tabulate
  · simp
    omega
  · intro j hj
    rw [List.getElem_append]
    split
    · next hlt =>
      rw [List.length_take, length_tabulate] at hlt
      simp [show j < i by omega]
    · next hle =>
      rw [List.length_append, List.length_take, List.length_map, List.length_drop,
        length_tabulate] at hj
      rw [List.length_take, length_tabulate] at hle
      simp [show min i n = i by omega, show ¬j < i by omega, show i + (j - i) = j by omega]

/-- One element taken out, and another put at the end. -/
theorem eraseIdx_append (n i : Nat) (f : Nat → α) (a : α) (hi : i < n) :
    (tabulate n f).eraseIdx i ++ [a] =
      tabulate n fun j ↦ if j < i then f j else if j + 1 < n then f (j + 1) else a := by
  apply eq_tabulate
  · simp [List.length_eraseIdx, hi]
    omega
  · intro j hj
    rw [List.getElem_append]
    split
    · next hlt =>
      rw [List.length_eraseIdx, length_tabulate, if_pos hi] at hlt
      rw [List.getElem_eraseIdx]
      split
      · simp [*]
      · simp [*, show j + 1 < n by omega]
    · next hle =>
      rw [List.length_eraseIdx, length_tabulate, if_pos hi] at hle
      simp [show ¬j < i by omega, show ¬j + 1 < n by omega]

/-- One element put in, and the last one dropped. -/
theorem dropLast_insertIdx (n i : Nat) (f : Nat → α) (a : α) (hi : i < n) :
    ((tabulate n f).insertIdx i a).dropLast =
      tabulate n fun j ↦ if j < i then f j else if j = i then a else f (j - 1) := by
  apply eq_tabulate
  · simp [List.length_insertIdx, Nat.le_of_lt hi]
  · intro j hj
    rw [List.getElem_dropLast, List.getElem_insertIdx]
    split
    · simp [*]
    · split <;> simp [*]

end Keow.Base
