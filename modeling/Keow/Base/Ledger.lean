import Mathlib.Data.List.Basic
import Mathlib.Tactic.Common

/-!
# Tickets and services

Requests that are remembered in cells, several in one cell when they meet, and served a cell at
a time. Every request is a ticket, numbered in order of issue. As long as no two cells take over
the tickets of one, each ticket is served at most once.
-/

namespace Keow.Base

universe u

/-- The tickets each cell stands for, the services done, newest first, with the tickets they
answered, and the number of the next ticket. -/
structure Ledger (ι : Type u) where
  held : ι → List Nat
  served : List (ι × List Nat)
  issued : Nat

namespace Ledger

variable {ι : Type u}

/-- Nothing asked for yet. -/
def empty : Ledger ι := ⟨fun _ ↦ [], [], 0⟩

/-- How many services have answered a ticket. -/
def times (l : Ledger ι) (n : Nat) : Nat := l.served.countP fun s ↦ n ∈ s.2

/-- A service that no ticket asked for. -/
def serveUnasked (i : ι) (l : Ledger ι) : Ledger ι := { l with served := (i, []) :: l.served }

/-- Every cell takes over the tickets of its source, or loses its own. -/
def retarget (source : ι → Option ι) (l : Ledger ι) : Ledger ι :=
  { l with held := fun i ↦ ((source i).map l.held).getD [] }

section Cells

variable [DecidableEq ι]

/-- A new ticket in a cell. -/
def issue (i : ι) (l : Ledger ι) : Ledger ι :=
  { l with
    held := fun j ↦ if j = i then l.issued :: l.held j else l.held j
    issued := l.issued + 1 }

/-- All tickets of a cell are answered by one service. -/
def serve (i : ι) (l : Ledger ι) : Ledger ι :=
  { l with
    held := fun j ↦ if j = i then [] else l.held j
    served := (i, l.held i) :: l.served }

end Cells

/-- Every ticket is at one place at most: in a cell, or answered by one service. -/
structure Sound (l : Ledger ι) : Prop where
  held_lt : ∀ i, ∀ n ∈ l.held i, n < l.issued
  unissued : ∀ n, l.issued ≤ n → l.times n = 0
  held_once : ∀ i j, ∀ n ∈ l.held i, n ∈ l.held j → i = j
  unserved : ∀ i, ∀ n ∈ l.held i, l.times n = 0
  served_once : ∀ n, l.times n ≤ 1

theorem sound_empty : (empty : Ledger ι).Sound where
  held_lt := fun _ _ hn ↦ absurd hn List.not_mem_nil
  unissued := fun _ _ ↦ rfl
  held_once := fun _ _ _ hn ↦ absurd hn List.not_mem_nil
  unserved := fun _ _ hn ↦ absurd hn List.not_mem_nil
  served_once := fun _ ↦ Nat.zero_le 1

@[simp] theorem times_serveUnasked (i : ι) (l : Ledger ι) (n : Nat) :
    (l.serveUnasked i).times n = l.times n := by
  simp [times, serveUnasked]

theorem Sound.serveUnasked {l : Ledger ι} (h : l.Sound) (i : ι) : (l.serveUnasked i).Sound where
  held_lt := h.held_lt
  unissued := fun n hn ↦ (times_serveUnasked i l n).trans (h.unissued n hn)
  held_once := h.held_once
  unserved := fun j n hn ↦ (times_serveUnasked i l n).trans (h.unserved j n hn)
  served_once := by
    intro n
    rw [times_serveUnasked]
    exact h.served_once n

theorem held_retarget (source : ι → Option ι) (l : Ledger ι) (i : ι) :
    (l.retarget source).held i = ((source i).map l.held).getD [] := rfl

theorem mem_held_retarget {source : ι → Option ι} {l : Ledger ι} {i : ι} {n : Nat} :
    n ∈ (l.retarget source).held i ↔ ∃ j, source i = some j ∧ n ∈ l.held j := by
  rw [held_retarget]
  cases source i with
  | none => simp
  | some j => simp

/-- Tickets may move and get lost, but not multiply: no two cells take over from one that holds
any. -/
theorem Sound.retarget {l : Ledger ι} (h : l.Sound) {source : ι → Option ι}
    (hsource : ∀ i i' j, source i = some j → source i' = some j → l.held j ≠ [] → i = i') :
    (l.retarget source).Sound where
  held_lt := by
    intro i n hn
    obtain ⟨j, _, hn⟩ := mem_held_retarget.mp hn
    exact h.held_lt j n hn
  unissued := h.unissued
  held_once := by
    intro i i' n hn hn'
    obtain ⟨j, hj, hn⟩ := mem_held_retarget.mp hn
    obtain ⟨j', hj', hn'⟩ := mem_held_retarget.mp hn'
    obtain rfl := h.held_once j j' n hn hn'
    exact hsource i i' j hj hj' (List.ne_nil_of_mem hn)
  unserved := by
    intro i n hn
    obtain ⟨j, _, hn⟩ := mem_held_retarget.mp hn
    exact h.unserved j n hn
  served_once := h.served_once

section Cells

variable [DecidableEq ι]

theorem held_issue (l : Ledger ι) (i j : ι) :
    (l.issue i).held j = if j = i then l.issued :: l.held j else l.held j := rfl

theorem held_serve (l : Ledger ι) (i j : ι) :
    (l.serve i).held j = if j = i then [] else l.held j := rfl

theorem mem_held_issue {l : Ledger ι} {i j : ι} {n : Nat} :
    n ∈ (l.issue i).held j ↔ (j = i ∧ n = l.issued) ∨ n ∈ l.held j := by
  rw [held_issue]
  by_cases hj : j = i
  · rw [if_pos hj, List.mem_cons]
    simp [hj]
  · rw [if_neg hj]
    simp [hj]

theorem Sound.issue {l : Ledger ι} (h : l.Sound) (i : ι) : (l.issue i).Sound where
  held_lt := by
    intro j n hn
    show n < l.issued + 1
    rcases mem_held_issue.mp hn with ⟨_, rfl⟩ | hn
    · exact Nat.lt_succ_self _
    · exact Nat.lt_succ_of_lt (h.held_lt j n hn)
  unissued := fun n hn ↦ h.unissued n (Nat.le_of_succ_le hn)
  held_once := by
    intro j j' n hn hn'
    -- the new ticket is in no other cell
    have hnew : ∀ k, l.issued ∉ l.held k := fun k hk ↦ Nat.lt_irrefl _ (h.held_lt k _ hk)
    rcases mem_held_issue.mp hn with ⟨rfl, rfl⟩ | hold
    · rcases mem_held_issue.mp hn' with ⟨rfl, _⟩ | hold'
      · rfl
      · exact absurd hold' (hnew j')
    · rcases mem_held_issue.mp hn' with ⟨rfl, rfl⟩ | hold'
      · exact absurd hold (hnew j)
      · exact h.held_once j j' n hold hold'
  unserved := by
    intro j n hn
    rcases mem_held_issue.mp hn with ⟨_, rfl⟩ | hn
    · exact h.unissued _ (Nat.le_refl _)
    · exact h.unserved j n hn
  served_once := h.served_once

theorem mem_held_serve {l : Ledger ι} {i j : ι} {n : Nat} :
    n ∈ (l.serve i).held j ↔ j ≠ i ∧ n ∈ l.held j := by
  rw [held_serve]
  by_cases hj : j = i
  · simp [hj]
  · rw [if_neg hj]
    simp [hj]

theorem times_serve (l : Ledger ι) (i : ι) (n : Nat) :
    (l.serve i).times n = l.times n + if n ∈ l.held i then 1 else 0 := by
  simp [times, serve, List.countP_cons]

theorem Sound.serve {l : Ledger ι} (h : l.Sound) (i : ι) : (l.serve i).Sound where
  held_lt := fun j n hn ↦ h.held_lt j n (mem_held_serve.mp hn).2
  unissued := by
    intro n hn
    have hnot : n ∉ l.held i := fun hmem ↦ Nat.not_le_of_lt (h.held_lt i n hmem) hn
    rw [times_serve, if_neg hnot, h.unissued n hn]
  held_once := fun j j' n hn hn' ↦
    h.held_once j j' n (mem_held_serve.mp hn).2 (mem_held_serve.mp hn').2
  unserved := by
    intro j n hn
    obtain ⟨hne, hmem⟩ := mem_held_serve.mp hn
    have hnot : n ∉ l.held i := fun hi ↦ hne (h.held_once j i n hmem hi)
    rw [times_serve, if_neg hnot, h.unserved j n hmem]
  served_once := by
    intro n
    rw [times_serve]
    split
    · next hmem => exact Nat.le_of_eq (by rw [h.unserved i n hmem])
    · exact h.served_once n

/-- A ticket in two cells is answered twice once both are served. -/
theorem two_le_times_serve_serve {l : Ledger ι} {i j : ι} (hij : i ≠ j) {n : Nat}
    (hi : n ∈ l.held i) (hj : n ∈ l.held j) : 2 ≤ ((l.serve i).serve j).times n := by
  have hj' : n ∈ (l.serve i).held j := mem_held_serve.mpr ⟨hij.symm, hj⟩
  rw [times_serve, if_pos hj', times_serve, if_pos hi]
  omega

end Cells

end Ledger

end Keow.Base
