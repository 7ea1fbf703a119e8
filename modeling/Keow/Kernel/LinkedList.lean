import Keow.Base.Chain

/-!
# The list class

`list<T>` of `List.h`: a head, a tail and nodes with links to both sides. An iterator is the
address of a node, null at the end. `Represents` ties a list to the cells it holds, and each
operation to the operation on that sequence.
-/

namespace Keow.Kernel

open Keow.Base

universe u v

/-- `list<T>`, with the heap its nodes live in and the address `new` hands out next. -/
structure LinkedList (α : Type u) where
  nodes : Heap α
  head : Option Nat
  tail : Option Nat
  fresh : Nat

namespace LinkedList

variable {α : Type u}

/-- `list::list`, `List.h:122–126`. -/
def empty : LinkedList α := ⟨fun _ ↦ none, none, none, 0⟩

/-- `list::push_back`, `List.h:163–176`. -/
def pushBack (l : LinkedList α) (element : α) : LinkedList α where
  nodes := (l.nodes.setNext l.tail (some l.fresh)).alloc l.fresh ⟨l.tail, none, element⟩
  head := if l.tail.isSome then l.head else some l.fresh
  tail := some l.fresh
  fresh := l.fresh + 1

/-- `list::pop_back`, `List.h:178–192`: the list and the value of its last node. There is no result
without one, or when it was freed. -/
def popBack (l : LinkedList α) : Option (LinkedList α × α) :=
  match l.tail with
  | none => none
  | some n =>
      match l.nodes n with
      | none => none
      | some node => some
          ({ l with
              nodes := (l.nodes.setNext node.prev none).free n
              head := if node.prev.isSome then l.head else none
              tail := node.prev },
            node.value)

/-- `list::erase(iterator)`, `List.h:206–224`. There is no result when the node was freed. -/
def erase (l : LinkedList α) : Option Nat → Option (LinkedList α)
  | none => some l
  | some n =>
      match l.nodes n with
      | none => none
      | some node => some
          { l with
            nodes := ((l.nodes.setNext node.prev node.next).setPrev node.next node.prev).free n
            head := if l.head = some n then node.next else l.head
            tail := if l.tail = some n then node.prev else l.tail }

/-- `iterator::operator++`, `List.h:91–97`. There is no result when the node was freed. -/
def advance (l : LinkedList α) : Option Nat → Option (Option Nat)
  | none => some none
  | some n => (l.nodes n).map Node.next

/-- A loop `for(it=begin(); it!=end(); ++it)` that carries a value along. -/
def forEach {β : Type v} (l : LinkedList α) (f : β → Nat → α → β) (b : β) : Option β :=
  l.nodes.foldNext f l.fresh l.head b

/-- The elements from the head on. -/
def toList (l : LinkedList α) : List α :=
  (l.forEach (fun xs _ x ↦ xs ++ [x]) []).getD []

/-- `list::find`, `List.h:194–204`. -/
def find [DecidableEq α] (l : LinkedList α) (value : α) : Option Nat :=
  (l.forEach (fun found n x ↦ if found.isSome then found else
    if x = value then some n else none) none).getD none

/-- `list::erase(value)`, `List.h:226–230`. -/
def eraseValue [DecidableEq α] (l : LinkedList α) (value : α) : Option (LinkedList α) :=
  l.erase (l.find value)

/-- The nodes met from the head along `next`. -/
def forward (l : LinkedList α) : Option (List (Nat × α)) :=
  l.nodes.walk Node.next l.fresh l.head

/-- The nodes met from the tail along `prev`. -/
def backward (l : LinkedList α) : Option (List (Nat × α)) :=
  l.nodes.walk Node.prev l.fresh l.tail

/-- The list holds exactly these cells, in this order. -/
structure Represents (l : LinkedList α) (cells : List (Nat × α)) : Prop where
  chain : Chain l.nodes none cells none
  head : l.head = firstOf cells none
  tail : l.tail = lastOf none cells
  nodup : (cells.map Prod.fst).Nodup
  lt_fresh : ∀ a ∈ cells.map Prod.fst, a < l.fresh

theorem represents_empty : Represents (empty : LinkedList α) [] :=
  ⟨trivial, rfl, rfl, List.nodup_nil, by simp⟩

theorem length_le_fresh {l : LinkedList α} {cells : List (Nat × α)} (h : l.Represents cells) :
    cells.length ≤ l.fresh := by
  have hle := length_le_of_nodup_lt h.nodup h.lt_fresh
  rwa [List.length_map] at hle

/-- A loop over a list is a fold over its cells. -/
theorem forEach_eq {β : Type v} {l : LinkedList α} {cells : List (Nat × α)}
    (h : l.Represents cells) (f : β → Nat → α → β) (b : β) :
    l.forEach f b = some (cells.foldl (fun b c ↦ f b c.1 c.2) b) := by
  rw [forEach, h.head]
  exact foldNext_eq h.chain f (length_le_fresh h) b

theorem forward_eq {l : LinkedList α} {cells : List (Nat × α)} (h : l.Represents cells) :
    l.forward = some cells := by
  rw [forward, h.head]
  exact walk_next h.chain (length_le_fresh h)

theorem backward_eq {l : LinkedList α} {cells : List (Nat × α)} (h : l.Represents cells) :
    l.backward = some cells.reverse := by
  rw [backward, h.tail]
  exact walk_prev h.chain (length_le_fresh h)

theorem toList_eq {l : LinkedList α} {cells : List (Nat × α)} (h : l.Represents cells) :
    l.toList = cells.map Prod.snd := by
  have hfold : ∀ (cs : List (Nat × α)) (xs : List α),
      cs.foldl (fun b c ↦ b ++ [c.2]) xs = xs ++ cs.map Prod.snd := by
    intro cs
    induction cs with
    | nil => simp
    | cons c cs ih =>
      intro xs
      rw [List.foldl_cons, ih]
      simp
  rw [toList, forEach_eq h, hfold]
  rfl

theorem represents_pushBack {l : LinkedList α} {cells : List (Nat × α)} (h : l.Represents cells)
    (element : α) : (l.pushBack element).Represents (cells ++ [(l.fresh, element)]) := by
  have hnew : l.fresh ∉ cells.map Prod.fst := fun hm ↦ Nat.lt_irrefl _ (h.lt_fresh _ hm)
  refine ⟨?_, ?_, ?_, ?_, ?_⟩
  · have hold := chain_setNext h.nodup h.chain (some l.fresh)
    rw [← h.tail] at hold
    refine (chain_append cells [_]).mpr ⟨chain_congr ?_ hold, ?_, trivial⟩
    · intro a ha
      have hne : a ≠ l.fresh := fun he ↦ hnew (he ▸ ha)
      simp [pushBack, Heap.alloc, hne]
    · simp [pushBack, Heap.alloc, h.tail]
  · rcases List.eq_nil_or_concat cells with rfl | ⟨xs, c, rfl⟩
    · simp [pushBack, h.tail]
    · rw [List.concat_eq_append] at h ⊢
      have htail : l.tail = some c.1 := by rw [h.tail, lastOf_snoc]
      simp only [pushBack, htail, Option.isSome_some, if_true, h.head]
      cases xs <;> rfl
  · rw [lastOf_snoc]
    rfl
  · rw [List.map_append, List.nodup_append]
    refine ⟨h.nodup, by simp, ?_⟩
    intro a ha b hb
    obtain rfl : b = l.fresh := by simpa using hb
    rintro rfl
    exact hnew ha
  · intro a ha
    rw [List.map_append, List.mem_append] at ha
    rcases ha with ha | ha
    · exact Nat.lt_succ_of_lt (h.lt_fresh a ha)
    · rw [List.map_singleton, List.mem_singleton] at ha
      exact ha ▸ Nat.lt_succ_self _

theorem node_eq {l : LinkedList α} {xs ys : List (Nat × α)} {c : Nat × α}
    (h : l.Represents (xs ++ c :: ys)) :
    l.nodes c.1 = some ⟨lastOf none xs, firstOf ys none, c.2⟩ :=
  ((chain_append xs (c :: ys)).mp h.chain).2.1

/-- An iterator goes on to the next cell. -/
theorem advance_eq {l : LinkedList α} {xs ys : List (Nat × α)} {c : Nat × α}
    (h : l.Represents (xs ++ c :: ys)) : l.advance (some c.1) = some (firstOf ys none) := by
  rw [advance, node_eq h]
  rfl

/-- Erasing a node of the list takes out its cell. -/
theorem represents_erase {l : LinkedList α} {xs ys : List (Nat × α)} {c : Nat × α}
    (h : l.Represents (xs ++ c :: ys)) :
    ∃ l', l.erase (some c.1) = some l' ∧ l'.Represents (xs ++ ys) := by
  obtain ⟨-, hnode, -⟩ := (chain_append xs (c :: ys)).mp h.chain
  have hnd := h.nodup
  rw [List.map_append, List.map_cons, List.nodup_append, List.nodup_cons] at hnd
  have hcx : ∀ d ∈ xs, d.1 ≠ c.1 := fun d hd ↦ hnd.2.2 d.1 (List.mem_map_of_mem hd) c.1 (by simp)
  have hcy : ∀ d ∈ ys, d.1 ≠ c.1 := fun d hd he ↦ hnd.2.1.1 (he ▸ List.mem_map_of_mem hd)
  simp only [erase, hnode]
  refine ⟨_, rfl, ?_⟩
  constructor
  · exact chain_unlink h.nodup h.chain
  · rw [h.head]
    cases xs with
    | nil => simp
    | cons d xs => simp [hcx d (by simp)]
  · rw [h.tail]
    rcases List.eq_nil_or_concat ys with rfl | ⟨zs, d, rfl⟩
    · simp
    · have hd := hcy d (by simp)
      rw [List.concat_eq_append, ← List.append_assoc, lastOf_snoc, ← List.cons_append,
        ← List.append_assoc, lastOf_snoc]
      simp [hd]
  · rw [List.map_append, List.nodup_append]
    exact ⟨hnd.1, hnd.2.1.2, fun a ha b hb ↦ hnd.2.2 a ha b (List.mem_cons_of_mem _ hb)⟩
  · intro a ha
    apply h.lt_fresh a
    rw [List.map_append, List.mem_append] at ha ⊢
    exact ha.imp_right (List.mem_cons_of_mem _)

/-- Taking the last node off is erasing it. -/
theorem popBack_eq {l : LinkedList α} {xs : List (Nat × α)} {c : Nat × α}
    (h : l.Represents (xs ++ [c])) :
    l.popBack = (l.erase (some c.1)).map fun l' ↦ (l', c.2) := by
  have hnode := node_eq h
  have htail : l.tail = some c.1 := by rw [h.tail, lastOf_snoc]
  have hhead : (if l.head = some c.1 then none else l.head) =
      if (lastOf none xs).isSome then l.head else none := by
    cases xs with
    | nil => simp [h.head]
    | cons d xs =>
      have hne : d.1 ≠ c.1 := by
        have hnd := h.nodup
        rw [List.cons_append, List.map_cons, List.nodup_cons] at hnd
        exact fun he ↦ hnd.1 (by simp [he])
      simp [h.head, hne, lastOf]
  simp only [popBack, erase, htail, hnode, firstOf_nil, Heap.setPrev_none, hhead, if_true,
    Option.map_some]

theorem represents_popBack {l : LinkedList α} {xs : List (Nat × α)} {c : Nat × α}
    (h : l.Represents (xs ++ [c])) :
    ∃ l', l.popBack = some (l', c.2) ∧ l'.Represents xs := by
  obtain ⟨l', herase, hl'⟩ := represents_erase h
  rw [List.append_nil] at hl'
  exact ⟨l', by rw [popBack_eq h, herase]; rfl, hl'⟩

/-- `find` stops at the first cell with the value. -/
theorem find_eq [DecidableEq α] {l : LinkedList α} {cells : List (Nat × α)}
    (h : l.Represents cells) (value : α) :
    l.find value = (cells.find? fun c ↦ c.2 = value).map Prod.fst := by
  have hfound : ∀ (cs : List (Nat × α)) (found : Option Nat),
      cs.foldl (fun b c ↦ if b.isSome then b else if c.2 = value then some c.1 else none) found =
        if found.isSome then found else (cs.find? fun c ↦ c.2 = value).map Prod.fst := by
    intro cs
    induction cs with
    | nil =>
      intro found
      cases found <;> rfl
    | cons c cs ih =>
      intro found
      rw [List.foldl_cons, ih]
      cases found with
      | some n => rfl
      | none => by_cases hc : c.2 = value <;> simp [hc]
  rw [find, forEach_eq h, hfound]
  rfl

/-- Erasing by value takes out the first element with it, if any. -/
theorem represents_eraseValue [DecidableEq α] {l : LinkedList α} {cells : List (Nat × α)}
    (h : l.Represents cells) (value : α) :
    ∃ l' cells', l.eraseValue value = some l' ∧ l'.Represents cells' ∧
      cells'.map Prod.snd = (cells.map Prod.snd).erase value := by
  rw [eraseValue, find_eq h]
  cases hfind : cells.find? fun c ↦ c.2 = value with
  | none =>
    refine ⟨l, cells, rfl, h, ?_⟩
    rw [List.erase_of_not_mem]
    intro hmem
    obtain ⟨c, hc, hvalue⟩ := List.mem_map.mp hmem
    exact absurd hvalue (by simpa using List.find?_eq_none.mp hfind c hc)
  | some c =>
    obtain ⟨hvalue, xs, ys, rfl, hxs⟩ := List.find?_eq_some_iff_append.mp hfind
    obtain ⟨l', herase, hl'⟩ := represents_erase h
    refine ⟨l', xs ++ ys, herase, hl', ?_⟩
    have hnot : value ∉ xs.map Prod.snd := by
      intro hmem
      obtain ⟨d, hd, hdv⟩ := List.mem_map.mp hmem
      exact absurd hdv (by simpa using hxs d hd)
    have hc : c.2 = value := by simpa using hvalue
    rw [List.map_append, List.map_append, List.map_cons, hc, List.erase_append_right _ hnot,
      List.erase_cons_head]

end LinkedList

end Keow.Kernel
