import Mathlib.Data.List.Basic
import Mathlib.Data.List.Nodup
import Mathlib.Data.List.Perm.Subperm
import Mathlib.Data.List.Range
import Mathlib.Tactic.Common

/-!
# Doubly linked chains in a heap

Nodes live at addresses and carry two links. `Chain` reads off a heap that a sequence of
cells hangs between two given ends; the link updates that insert and remove a node keep it,
and `foldNext` is the loop that follows the forward links.
-/

namespace Keow.Base

universe u v

/-- A node with links to both sides. -/
structure Node (α : Type u) where
  prev : Option Nat
  next : Option Nat
  value : α

/-- The live nodes by address. -/
abbrev Heap (α : Type u) := Nat → Option (Node α)

namespace Heap

variable {α : Type u}

/-- Redirect the forward link of the node at `a`, if there is one. -/
def setNext (h : Heap α) (a next : Option Nat) : Heap α := fun b ↦
  if a = some b then (h b).map (fun n ↦ { n with next := next }) else h b

/-- Redirect the backward link of the node at `a`, if there is one. -/
def setPrev (h : Heap α) (a prev : Option Nat) : Heap α := fun b ↦
  if a = some b then (h b).map (fun n ↦ { n with prev := prev }) else h b

/-- A new node at a free address. -/
def alloc (h : Heap α) (a : Nat) (n : Node α) : Heap α := fun b ↦ if b = a then some n else h b

/-- Free the node at `a`. -/
def free (h : Heap α) (a : Nat) : Heap α := fun b ↦ if b = a then none else h b

/-- Follow the forward links from a node, visiting at most a given number of nodes. A link to
a freed node, or a longer walk, gives nothing. -/
def foldNext {β : Type v} (h : Heap α) (f : β → Nat → α → β) : Nat → Option Nat → β → Option β
  | _, none, b => some b
  | 0, some _, _ => none
  | fuel + 1, some a, b =>
      match h a with
      | none => none
      | some n => foldNext h f fuel n.next (f b a n.value)

/-- The cells met when following links of one kind from a node, at most a given number of them. A
link to a freed node, or a longer walk, gives nothing. -/
def walk (h : Heap α) (link : Node α → Option Nat) : Nat → Option Nat → Option (List (Nat × α))
  | _, none => some []
  | 0, some _ => none
  | fuel + 1, some a =>
      match h a with
      | none => none
      | some n => (walk h link fuel (link n)).map ((a, n.value) :: ·)

@[simp] theorem setNext_none (h : Heap α) (next : Option Nat) : h.setNext none next = h := rfl

@[simp] theorem setPrev_none (h : Heap α) (prev : Option Nat) : h.setPrev none prev = h := rfl

end Heap

section Chain

variable {α : Type u}

/-- The address of the first cell, or what follows when there is none. -/
def firstOf (cells : List (Nat × α)) (next : Option Nat) : Option Nat :=
  (cells.head?.map Prod.fst).or next

/-- The address of the last cell, or what precedes when there is none. -/
def lastOf (prev : Option Nat) (cells : List (Nat × α)) : Option Nat :=
  (cells.getLast?.map Prod.fst).or prev

@[simp] theorem firstOf_nil (next : Option Nat) : firstOf ([] : List (Nat × α)) next = next := rfl

@[simp] theorem firstOf_cons (c : Nat × α) (cells : List (Nat × α)) (next : Option Nat) :
    firstOf (c :: cells) next = some c.1 := rfl

@[simp] theorem lastOf_nil (prev : Option Nat) : lastOf prev ([] : List (Nat × α)) = prev := rfl

@[simp] theorem lastOf_snoc (prev : Option Nat) (cells : List (Nat × α)) (c : Nat × α) :
    lastOf prev (cells ++ [c]) = some c.1 := by
  simp [lastOf]

theorem lastOf_cons (prev : Option Nat) (c : Nat × α) (cells : List (Nat × α)) :
    lastOf prev (c :: cells) = lastOf (some c.1) cells := by
  rcases List.eq_nil_or_concat cells with rfl | ⟨xs, d, rfl⟩
  · rfl
  · rw [List.concat_eq_append, lastOf_snoc, ← List.cons_append, lastOf_snoc]

/-- The heap holds the cells in order, linked to both sides, between `prev` and `next`. -/
def Chain (h : Heap α) : Option Nat → List (Nat × α) → Option Nat → Prop
  | _, [], _ => True
  | prev, c :: cells, next =>
      h c.1 = some ⟨prev, firstOf cells next, c.2⟩ ∧ Chain h (some c.1) cells next

theorem chain_append {h : Heap α} {prev next : Option Nat} (xs ys : List (Nat × α)) :
    Chain h prev (xs ++ ys) next ↔
      Chain h prev xs (firstOf ys next) ∧ Chain h (lastOf prev xs) ys next := by
  induction xs generalizing prev with
  | nil => simp [Chain]
  | cons c xs ih =>
    have hfirst : firstOf (xs ++ ys) next = firstOf xs (firstOf ys next) := by
      cases xs <;> rfl
    rw [List.cons_append, Chain, Chain, ih, hfirst, lastOf_cons, and_assoc]

/-- Only the nodes of the cells matter. -/
theorem chain_congr {h h' : Heap α} {prev next : Option Nat} {cells : List (Nat × α)}
    (heq : ∀ a ∈ cells.map Prod.fst, h' a = h a) (hc : Chain h prev cells next) :
    Chain h' prev cells next := by
  induction cells generalizing prev with
  | nil => trivial
  | cons c cells ih =>
    refine ⟨?_, ih (fun a ha ↦ heq a (List.mem_cons_of_mem _ ha)) hc.2⟩
    rw [heq c.1 (by simp)]
    exact hc.1

/-- Hang another end behind the last cell. -/
theorem chain_setNext {h : Heap α} {prev next : Option Nat} {cells : List (Nat × α)}
    (hnd : (cells.map Prod.fst).Nodup) (hc : Chain h prev cells next) (next' : Option Nat) :
    Chain (h.setNext (lastOf none cells) next') prev cells next' := by
  rcases List.eq_nil_or_concat cells with rfl | ⟨xs, c, rfl⟩
  · trivial
  · rw [List.concat_eq_append] at hnd hc ⊢
    rw [lastOf_snoc]
    obtain ⟨hxs, hlast⟩ := (chain_append xs [c]).mp hc
    refine (chain_append xs [c]).mpr ⟨chain_congr ?_ hxs, ?_, trivial⟩
    · intro a ha
      have hne : c.1 ≠ a := by
        rintro rfl
        rw [List.map_append, List.nodup_append] at hnd
        exact hnd.2.2 _ ha _ (by simp) rfl
      simp [Heap.setNext, hne]
    · simp [Heap.setNext, hlast.1]

/-- Hang another end in front of the first cell. -/
theorem chain_setPrev {h : Heap α} {prev next : Option Nat} {cells : List (Nat × α)}
    (hnd : (cells.map Prod.fst).Nodup) (hc : Chain h prev cells next) (prev' : Option Nat) :
    Chain (h.setPrev (firstOf cells none) prev') prev' cells next := by
  cases cells with
  | nil => trivial
  | cons c cells =>
    refine ⟨by simp [Heap.setPrev, hc.1], chain_congr ?_ hc.2⟩
    intro a ha
    have hne : c.1 ≠ a := by
      rintro rfl
      exact (List.nodup_cons.mp hnd).1 ha
    simp [Heap.setPrev, hne]

/-- Take a node out of the chain: its neighbours are linked to each other and it is freed. -/
theorem chain_unlink {h : Heap α} {xs ys : List (Nat × α)} {c : Nat × α}
    (hnd : ((xs ++ c :: ys).map Prod.fst).Nodup) (hc : Chain h none (xs ++ c :: ys) none) :
    Chain (((h.setNext (lastOf none xs) (firstOf ys none)).setPrev (firstOf ys none)
      (lastOf none xs)).free c.1) none (xs ++ ys) none := by
  obtain ⟨hxs, -, hys⟩ := (chain_append xs (c :: ys)).mp hc
  rw [List.map_append, List.map_cons, List.nodup_append, List.nodup_cons] at hnd
  obtain ⟨hndx, ⟨hcy, hndy⟩, hxy⟩ := hnd
  have hcx : c.1 ∉ xs.map Prod.fst := fun hm ↦ hxy _ hm _ (by simp) rfl
  -- an address of one side is neither freed nor the end of the other side
  have hlast : ∀ a ∈ ys.map Prod.fst, lastOf none xs ≠ some a := by
    intro a ha hl
    rcases List.eq_nil_or_concat xs with rfl | ⟨zs, d, rfl⟩
    · simp at hl
    · rw [List.concat_eq_append, lastOf_snoc] at hl
      exact hxy d.1 (by simp) a (List.mem_cons_of_mem _ ha) (Option.some.inj hl)
  have hfirst : ∀ a ∈ xs.map Prod.fst, firstOf ys none ≠ some a := by
    intro a ha hf
    cases ys with
    | nil => simp at hf
    | cons d ys =>
      rw [firstOf_cons] at hf
      exact hxy a ha d.1 (by simp) (Option.some.inj hf).symm
  refine (chain_append xs ys).mpr ⟨?_, ?_⟩
  · refine chain_congr ?_ (chain_setNext hndx hxs (firstOf ys none))
    intro a ha
    have hne : a ≠ c.1 := fun he ↦ hcx (he ▸ ha)
    simp [Heap.free, Heap.setPrev, hne, hfirst a ha]
  · refine chain_congr ?_ (chain_setPrev hndy hys (lastOf none xs))
    intro a ha
    have hne : a ≠ c.1 := fun he ↦ hcy (he ▸ ha)
    simp [Heap.free, Heap.setPrev, Heap.setNext, hne, hlast a ha]

/-- The loop over a chain is the fold over its cells. -/
theorem foldNext_eq {β : Type v} {h : Heap α} {prev : Option Nat} {cells : List (Nat × α)}
    (hc : Chain h prev cells none) (f : β → Nat → α → β) {fuel : Nat}
    (hfuel : cells.length ≤ fuel) (b : β) :
    h.foldNext f fuel (firstOf cells none) b =
      some (cells.foldl (fun b c ↦ f b c.1 c.2) b) := by
  induction cells generalizing prev fuel b with
  | nil => cases fuel <;> rfl
  | cons c cells ih =>
    obtain ⟨fuel, rfl⟩ := Nat.exists_eq_succ_of_ne_zero (by
      rw [List.length_cons] at hfuel
      omega : fuel ≠ 0)
    rw [firstOf_cons, Heap.foldNext, hc.1]
    exact ih hc.2 (by simpa using hfuel) _

/-- The forward links of a chain lead through its cells. -/
theorem walk_next {h : Heap α} {prev : Option Nat} {cells : List (Nat × α)}
    (hc : Chain h prev cells none) {fuel : Nat} (hfuel : cells.length ≤ fuel) :
    h.walk Node.next fuel (firstOf cells none) = some cells := by
  induction cells generalizing prev fuel with
  | nil => cases fuel <;> rfl
  | cons c cells ih =>
    rw [List.length_cons] at hfuel
    obtain ⟨fuel, rfl⟩ := Nat.exists_eq_succ_of_ne_zero (by omega : fuel ≠ 0)
    rw [firstOf_cons, Heap.walk, hc.1]
    show (h.walk Node.next fuel (firstOf cells none)).map _ = _
    rw [ih hc.2 (by omega)]
    rfl

/-- The backward links lead through them in the opposite order. -/
theorem walk_prev {h : Heap α} {next : Option Nat} {cells : List (Nat × α)}
    (hc : Chain h none cells next) {fuel : Nat} (hfuel : cells.length ≤ fuel) :
    h.walk Node.prev fuel (lastOf none cells) = some cells.reverse := by
  induction cells using List.reverseRecOn generalizing next fuel with
  | nil => cases fuel <;> rfl
  | append_singleton xs c ih =>
    rw [List.length_append, List.length_singleton] at hfuel
    obtain ⟨fuel, rfl⟩ := Nat.exists_eq_succ_of_ne_zero (by omega : fuel ≠ 0)
    obtain ⟨hxs, hlast⟩ := (chain_append xs [c]).mp hc
    rw [lastOf_snoc, Heap.walk, hlast.1]
    show (h.walk Node.prev fuel (lastOf none xs)).map _ = _
    rw [ih hxs (by omega), List.reverse_append]
    rfl

/-- Distinct addresses below a bound are at most that many. -/
theorem length_le_of_nodup_lt {as : List Nat} (hnd : as.Nodup) {n : Nat} (hlt : ∀ a ∈ as, a < n) :
    as.length ≤ n := by
  have hsub : as ⊆ List.range n := fun a ha ↦ List.mem_range.mpr (hlt a ha)
  have hle := (List.subperm_of_subset hnd hsub).length_le
  rwa [List.length_range] at hle

end Chain

end Keow.Base
