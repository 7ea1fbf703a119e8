import Keow.Kernel.LinkedList
import Mathlib.Logic.Function.Basic

/-!
# Runs of the list class

Any number of lists under `push_back`, `pop_back`, `erase`, `clear` and assignment, `List.h:36–118`.
Every `delete` is noted with the list whose node it frees. `Sequence` says what a list stands for
at any time: its nodes are met in opposite orders from both ends, and none is freed twice.
-/

namespace Keow.Kernel

open Keow.Base

universe u v

/-- A list with the nodes it has deleted, the first one first. -/
structure TracedList (α : Type u) where
  list : LinkedList α
  deleted : List Nat

namespace TracedList

variable {α : Type u}

/-- A list just constructed. -/
def new : TracedList α := ⟨LinkedList.empty, []⟩

/-- `list::push_back`. -/
def pushBack (t : TracedList α) (element : α) : TracedList α :=
  { t with list := t.list.pushBack element }

/-- `list::pop_back`, which deletes the node at the tail. -/
def popBack (t : TracedList α) : Option (TracedList α) :=
  t.list.popBack.map fun r ↦ ⟨r.1, t.deleted ++ t.list.tail.toList⟩

/-- `list::erase(iterator)`, which deletes its node. -/
def erase (t : TracedList α) (it : Option Nat) : Option (TracedList α) :=
  (t.list.erase it).map fun l ↦ ⟨l, t.deleted ++ it.toList⟩

/-- `list::erase(value)`. -/
def eraseValue [DecidableEq α] (t : TracedList α) (value : α) : Option (TracedList α) :=
  t.erase (t.list.find value)

/-- `list::empty`. -/
def isEmpty (t : TracedList α) : Bool := t.list.head.isNone

/-- The loop of `list::clear`, for at most a given number of nodes. -/
def clearLoop : Nat → TracedList α → Option (TracedList α)
  | 0, t => if t.isEmpty then some t else none
  | turns + 1, t => if t.isEmpty then some t else t.popBack.bind (clearLoop turns)

/-- `list::clear`, `List.h:232–237`. -/
def clear (t : TracedList α) : Option (TracedList α) := clearLoop t.list.fresh t

/-- `list::operator=`, `List.h:134–145`, from another list. -/
def assign (t : TracedList α) (other : LinkedList α) : Option (TracedList α) :=
  t.clear.bind fun t ↦ other.forEach (fun t _ x ↦ t.pushBack x) t

/-- The list holds these cells, and each node it has deleted once is none of them. -/
structure Holds (t : TracedList α) (cells : List (Nat × α)) : Prop where
  represents : t.list.Represents cells
  nodup : (t.deleted ++ cells.map Prod.fst).Nodup
  lt_fresh : ∀ a ∈ t.deleted, a < t.list.fresh

/-- What a list stands for: the nodes met from the head and from the tail are the same, in opposite
orders, with the values of the sequence; there is a head exactly if there is a tail; and no node
has been deleted twice or is still there. -/
structure Sequence (t : TracedList α) (values : List α) : Prop where
  visits : ∃ cells, t.list.forward = some cells ∧ t.list.backward = some cells.reverse ∧
    cells.map Prod.snd = values ∧ (t.deleted ++ cells.map Prod.fst).Nodup
  ends : t.list.head = none ↔ t.list.tail = none

theorem Holds.sequence {t : TracedList α} {cells : List (Nat × α)} (h : t.Holds cells) :
    t.Sequence (cells.map Prod.snd) where
  visits := ⟨cells, LinkedList.forward_eq h.represents, LinkedList.backward_eq h.represents, rfl,
    h.nodup⟩
  ends := by
    rw [h.represents.head, h.represents.tail, firstOf, lastOf]
    simp

theorem holds_new : (new : TracedList α).Holds [] :=
  ⟨LinkedList.represents_empty, List.nodup_nil, by simp [new]⟩

theorem holds_pushBack {t : TracedList α} {cells : List (Nat × α)} (h : t.Holds cells)
    (element : α) : (t.pushBack element).Holds (cells ++ [(t.list.fresh, element)]) where
  represents := LinkedList.represents_pushBack h.represents element
  nodup := by
    have hnew : t.list.fresh ∉ t.deleted ++ cells.map Prod.fst := by
      intro hm
      rcases List.mem_append.mp hm with hm | hm
      · exact Nat.lt_irrefl _ (h.lt_fresh _ hm)
      · exact Nat.lt_irrefl _ (h.represents.lt_fresh _ hm)
    rw [List.map_append, ← List.append_assoc, List.nodup_append]
    refine ⟨h.nodup, List.nodup_singleton _, ?_⟩
    rintro a ha b hb rfl
    obtain rfl : a = t.list.fresh := List.mem_singleton.mp hb
    exact hnew ha
  lt_fresh a ha := Nat.lt_succ_of_lt (h.lt_fresh a ha)

/-- Erasing leaves the address of the next node alone. -/
theorem erase_fresh {l l' : LinkedList α} {it : Option Nat} (h : l.erase it = some l') :
    l'.fresh = l.fresh := by
  cases it with
  | none => rw [LinkedList.erase, Option.some.injEq] at h; rw [h]
  | some n =>
    rw [LinkedList.erase] at h
    split at h
    · cases h
    · cases h
      rfl

theorem holds_erase {t : TracedList α} {xs ys : List (Nat × α)} {c : Nat × α}
    (h : t.Holds (xs ++ c :: ys)) :
    ∃ t', t.erase (some c.1) = some t' ∧ t'.Holds (xs ++ ys) := by
  obtain ⟨l', herase, hl'⟩ := LinkedList.represents_erase h.represents
  have hperm : (t.deleted ++ [c.1] ++ (xs ++ ys).map Prod.fst).Perm
      (t.deleted ++ (xs ++ c :: ys).map Prod.fst) := by
    rw [List.append_assoc, List.map_append, List.map_append, List.map_cons]
    apply List.Perm.append_left
    rw [List.singleton_append]
    exact List.perm_middle.symm
  refine ⟨⟨l', t.deleted ++ [c.1]⟩, by rw [erase, herase]; rfl, hl', ?_, ?_⟩
  · exact hperm.nodup_iff.mpr h.nodup
  · intro a ha
    show a < l'.fresh
    rw [erase_fresh herase]
    rcases List.mem_append.mp ha with ha | ha
    · exact h.lt_fresh a ha
    · rw [List.mem_singleton.mp ha]
      exact h.represents.lt_fresh c.1 (by simp)

theorem holds_popBack {t : TracedList α} {xs : List (Nat × α)} {c : Nat × α}
    (h : t.Holds (xs ++ [c])) : ∃ t', t.popBack = some t' ∧ t'.Holds xs := by
  obtain ⟨t', herase, ht'⟩ := holds_erase h
  rw [List.append_nil] at ht'
  have htail : t.list.tail = some c.1 := by rw [h.represents.tail, lastOf_snoc]
  have hpop : t.popBack = t.erase (some c.1) := by
    rw [popBack, erase, LinkedList.popBack_eq h.represents, htail, Option.map_map]
    rfl
  exact ⟨t', hpop.trans herase, ht'⟩

/-- The value that `pop_back` gives back, where there is one. -/
theorem Holds.value_popBack {t : TracedList α} {cells : List (Nat × α)} (h : t.Holds cells) :
    t.list.popBack.map Prod.snd = (cells.map Prod.snd).getLast? := by
  rcases List.eq_nil_or_concat cells with rfl | ⟨xs, c, rfl⟩
  · have htail : t.list.tail = none := h.represents.tail
    rw [LinkedList.popBack, htail]
    rfl
  · rw [List.concat_eq_append] at h ⊢
    obtain ⟨l', hpop, -⟩ := LinkedList.represents_popBack h.represents
    rw [hpop, List.map_append, List.map_singleton, List.getLast?_concat, Option.map_some]

theorem isEmpty_iff {t : TracedList α} {cells : List (Nat × α)} (h : t.Holds cells) :
    t.isEmpty = true ↔ cells = [] := by
  rw [isEmpty, h.represents.head, firstOf]
  simp

/-- The loop takes off one node a turn, so as many turns as there are nodes clear the list. -/
theorem holds_clearLoop {t : TracedList α} {cells : List (Nat × α)} (h : t.Holds cells)
    {turns : Nat} (hle : cells.length ≤ turns) :
    ∃ t', clearLoop turns t = some t' ∧ t'.Holds [] := by
  induction cells using List.reverseRecOn generalizing t turns with
  | nil =>
    have hempty := (isEmpty_iff h).mpr rfl
    exact ⟨t, by cases turns <;> exact if_pos hempty, h⟩
  | append_singleton xs c ih =>
    rw [List.length_append, List.length_singleton] at hle
    obtain ⟨turns, rfl⟩ := Nat.exists_eq_succ_of_ne_zero (by omega : turns ≠ 0)
    obtain ⟨t₁, hpop, ht₁⟩ := holds_popBack h
    have hfull : ¬t.isEmpty = true := fun he ↦ by simpa using (isEmpty_iff h).mp he
    rw [clearLoop, if_neg hfull, hpop]
    exact ih ht₁ (by omega)

theorem holds_clear {t : TracedList α} {cells : List (Nat × α)} (h : t.Holds cells) :
    ∃ t', t.clear = some t' ∧ t'.Holds [] :=
  holds_clearLoop h (LinkedList.length_le_fresh h.represents)

/-- Assignment leaves the other list's values, in nodes of its own. -/
theorem holds_assign {t : TracedList α} {cells : List (Nat × α)} (h : t.Holds cells)
    {other : LinkedList α} {others : List (Nat × α)} (hother : other.Represents others) :
    ∃ t' cells', t.assign other = some t' ∧ t'.Holds cells' ∧
      cells'.map Prod.snd = others.map Prod.snd := by
  obtain ⟨t₁, hclear, ht₁⟩ := holds_clear h
  rw [assign, hclear, Option.bind_some, LinkedList.forEach_eq hother]
  have hpush : ∀ (cs : List (Nat × α)) (t : TracedList α) (done : List (Nat × α)), t.Holds done →
      ∃ cells', (cs.foldl (fun t c ↦ t.pushBack c.2) t).Holds cells' ∧
        cells'.map Prod.snd = done.map Prod.snd ++ cs.map Prod.snd := by
    intro cs
    induction cs with
    | nil => exact fun t done ht ↦ ⟨done, ht, by simp⟩
    | cons c cs ih =>
      intro t done ht
      obtain ⟨cells', hcells', hvalues⟩ := ih _ _ (holds_pushBack ht c.2)
      exact ⟨cells', hcells', by rw [hvalues]; simp⟩
  obtain ⟨cells', hcells', hvalues⟩ := hpush others t₁ [] ht₁
  exact ⟨_, cells', rfl, hcells', hvalues⟩

end TracedList

/-! ## Any number of lists -/

variable {ι : Type u} {α : Type v}

/-- What is done to a list. The iterator is the address it holds; assignment names the other
list. -/
inductive ListOp (ι : Type u) (α : Type v) where
  | pushBack (element : α)
  | popBack
  | erase (it : Option Nat)
  | eraseValue (value : α)
  | clear
  | assign (other : ι)

namespace TracedList

/-- The end of the list, or the address of one of its nodes. -/
def IsIterator (t : TracedList α) (it : Option Nat) : Prop :=
  it = none ∨ ∃ cells, t.list.forward = some cells ∧ it ∈ cells.map fun c ↦ some c.1

/-- How many nodes precede an iterator. -/
def position (t : TracedList α) (it : Option Nat) : Nat :=
  ((t.list.forward.getD []).map fun c ↦ some c.1).idxOf it

end TracedList

namespace ListOp

/-- What the operation makes of list `i`. -/
def run [DecidableEq α] (lists : ι → TracedList α) (i : ι) : ListOp ι α → Option (TracedList α)
  | pushBack element => some ((lists i).pushBack element)
  | popBack => (lists i).popBack
  | erase it => (lists i).erase it
  | eraseValue value => (lists i).eraseValue value
  | clear => (lists i).clear
  | assign other => (lists i).assign (lists other).list

/-- `pop_back` is for lists that are not empty, an iterator belongs to its list, and assignment is
from another list. -/
def Allowed (lists : ι → TracedList α) (i : ι) : ListOp ι α → Prop
  | popBack => (lists i).isEmpty = false
  | erase it => (lists i).IsIterator it
  | assign other => other ≠ i
  | _ => True

/-- The same operation on sequences. -/
def onValues [DecidableEq α] (lists : ι → TracedList α) (values : ι → List α) (i : ι) :
    ListOp ι α → List α
  | pushBack element => values i ++ [element]
  | popBack => (values i).dropLast
  | erase it => (values i).eraseIdx ((lists i).position it)
  | eraseValue value => (values i).erase value
  | clear => []
  | assign other => values other

end ListOp

/-- The lists that a run of allowed operations leads to, with the sequences that the same
operations lead to. -/
inductive Reaches [DecidableEq ι] [DecidableEq α] : (ι → TracedList α) → (ι → List α) → Prop
  | start : Reaches (fun _ ↦ .new) fun _ ↦ []
  | step {lists : ι → TracedList α} {values : ι → List α} {i : ι} {op : ListOp ι α}
      {t : TracedList α} : Reaches lists values → op.Allowed lists i → op.run lists i = some t →
      Reaches (Function.update lists i t) (Function.update values i (op.onValues lists values i))

namespace TracedList

/-- An iterator of the list that is not its end is at one of its cells. -/
theorem position_eq {t : TracedList α} {xs ys : List (Nat × α)} {c : Nat × α}
    (h : t.Holds (xs ++ c :: ys)) : t.position (some c.1) = xs.length := by
  have hnot : some c.1 ∉ xs.map fun d ↦ some d.1 := by
    intro hmem
    obtain ⟨d, hd, he⟩ := List.mem_map.mp hmem
    have hnd := h.represents.nodup
    rw [List.map_append, List.map_cons, List.nodup_append] at hnd
    exact hnd.2.2 d.1 (List.mem_map_of_mem hd) c.1 (by simp) (Option.some.inj he)
  rw [position, LinkedList.forward_eq h.represents, Option.getD_some, List.map_append,
    List.idxOf_append_of_notMem hnot, List.map_cons, List.idxOf_cons_self, List.length_map,
    Nat.add_zero]

theorem position_none {t : TracedList α} {cells : List (Nat × α)} (h : t.Holds cells) :
    t.position none = cells.length := by
  rw [position, LinkedList.forward_eq h.represents, Option.getD_some, List.idxOf_eq_length,
    List.length_map]
  simp

/-- Erasing at an iterator takes out the value at its position. -/
theorem holds_eraseAt {t : TracedList α} {cells : List (Nat × α)} (h : t.Holds cells)
    {it : Option Nat} (hit : t.IsIterator it) :
    ∃ t' cells', t.erase it = some t' ∧ t'.Holds cells' ∧
      cells'.map Prod.snd = (cells.map Prod.snd).eraseIdx (t.position it) := by
  rcases hit with rfl | ⟨cells₁, hforward, hmem⟩
  · refine ⟨t, cells, ?_, h, ?_⟩
    · rw [erase, LinkedList.erase, Option.map_some, Option.toList_none, List.append_nil]
    · rw [position_none h, List.eraseIdx_of_length_le (by simp)]
  · rw [LinkedList.forward_eq h.represents, Option.some.injEq] at hforward
    subst hforward
    obtain ⟨c, hc, rfl⟩ := List.mem_map.mp hmem
    obtain ⟨xs, ys, rfl⟩ := List.append_of_mem hc
    obtain ⟨t', herase, ht'⟩ := holds_erase h
    refine ⟨t', xs ++ ys, herase, ht', ?_⟩
    rw [position_eq h, List.map_append, List.map_append, List.map_cons,
      List.eraseIdx_append_of_length_le (by simp), List.length_map, Nat.sub_self,
      List.eraseIdx_cons_zero]

theorem holds_eraseValue [DecidableEq α] {t : TracedList α} {cells : List (Nat × α)}
    (h : t.Holds cells) (value : α) :
    ∃ t' cells', t.eraseValue value = some t' ∧ t'.Holds cells' ∧
      cells'.map Prod.snd = (cells.map Prod.snd).erase value := by
  have hit : t.IsIterator (t.list.find value) := by
    rw [LinkedList.find_eq h.represents]
    cases hfind : cells.find? fun c ↦ c.2 = value with
    | none => exact .inl rfl
    | some c =>
      refine .inr ⟨cells, LinkedList.forward_eq h.represents, ?_⟩
      exact List.mem_map_of_mem (List.mem_of_find?_eq_some hfind)
  obtain ⟨t', cells', herase, ht', -⟩ := holds_eraseAt h hit
  obtain ⟨l', cells₁, herase₁, hl', hvalues⟩ := LinkedList.represents_eraseValue h.represents value
  -- both are the list after the same call
  have hlist : t'.list = l' := by
    rw [LinkedList.eraseValue] at herase₁
    rw [erase, herase₁, Option.map_some, Option.some.injEq] at herase
    rw [← herase]
  have hcells : cells₁ = cells' := by
    have hforward := LinkedList.forward_eq ht'.represents
    rw [hlist, LinkedList.forward_eq hl'] at hforward
    exact Option.some.inj hforward
  exact ⟨t', cells', herase, ht', hcells ▸ hvalues⟩

end TracedList

/-- What an allowed operation makes of a list, if all of them hold their values. -/
theorem holds_run [DecidableEq α] {lists : ι → TracedList α} {values : ι → List α}
    (h : ∀ i, ∃ cells, (lists i).Holds cells ∧ cells.map Prod.snd = values i) {i : ι}
    {op : ListOp ι α} (hop : op.Allowed lists i) :
    ∃ t cells, op.run lists i = some t ∧ t.Holds cells ∧
      cells.map Prod.snd = op.onValues lists values i := by
  obtain ⟨cells, hi, hvalues⟩ := h i
  cases op with
  | pushBack element =>
    refine ⟨_, _, rfl, TracedList.holds_pushBack hi element, ?_⟩
    rw [List.map_append, hvalues]
    rfl
  | popBack =>
    have hne : cells ≠ [] := by
      intro hnil
      have hempty := (TracedList.isEmpty_iff hi).mpr hnil
      rw [ListOp.Allowed, hempty] at hop
      cases hop
    obtain ⟨xs, c, rfl⟩ := List.eq_nil_or_concat cells |>.resolve_left hne
    rw [List.concat_eq_append] at hi hvalues
    obtain ⟨t, hpop, ht⟩ := TracedList.holds_popBack hi
    refine ⟨t, xs, hpop, ht, ?_⟩
    rw [ListOp.onValues, ← hvalues, List.map_append, List.map_singleton, List.dropLast_concat]
  | erase it =>
    obtain ⟨t, cells', herase, ht, herased⟩ := TracedList.holds_eraseAt hi hop
    exact ⟨t, cells', herase, ht, by rw [herased, hvalues]; rfl⟩
  | eraseValue value =>
    obtain ⟨t, cells', herase, ht, herased⟩ := TracedList.holds_eraseValue hi value
    exact ⟨t, cells', herase, ht, by rw [herased, hvalues]; rfl⟩
  | clear =>
    obtain ⟨t, hclear, ht⟩ := TracedList.holds_clear hi
    exact ⟨t, [], hclear, ht, rfl⟩
  | assign other =>
    obtain ⟨others, hother, hothers⟩ := h other
    obtain ⟨t, cells', hassign, ht, hassigned⟩ := TracedList.holds_assign hi hother.represents
    exact ⟨t, cells', hassign, ht, by rw [hassigned, hothers]; rfl⟩

theorem holds_of_reaches [DecidableEq ι] [DecidableEq α] {lists : ι → TracedList α}
    {values : ι → List α} (h : Reaches lists values) (i : ι) :
    ∃ cells, (lists i).Holds cells ∧ cells.map Prod.snd = values i := by
  induction h generalizing i with
  | start => exact ⟨[], TracedList.holds_new, rfl⟩
  | @step lists values j op t _ hop hrun ih =>
    obtain ⟨t', cells, hrun', ht, hvalues⟩ := holds_run ih hop
    obtain rfl : t = t' := Option.some.inj (hrun.symm.trans hrun')
    by_cases hij : i = j
    · subst hij
      rw [Function.update_self, Function.update_self]
      exact ⟨cells, ht, hvalues⟩
    · rw [Function.update_of_ne hij, Function.update_of_ne hij]
      exact ih i

/-- After any run every list is the sequence that the same operations make, every allowed
operation goes through, and `pop_back` gives back the last value. -/
theorem sequence_of_reaches [DecidableEq ι] [DecidableEq α] {lists : ι → TracedList α}
    {values : ι → List α} (h : Reaches lists values) :
    (∀ i, (lists i).Sequence (values i)) ∧
      (∀ (i : ι) (op : ListOp ι α), op.Allowed lists i → (op.run lists i).isSome = true) ∧
      ∀ i, (lists i).list.popBack.map Prod.snd = (values i).getLast? := by
  refine ⟨fun i ↦ ?_, fun i op hop ↦ ?_, fun i ↦ ?_⟩
  · obtain ⟨cells, hi, hvalues⟩ := holds_of_reaches h i
    rw [← hvalues]
    exact hi.sequence
  · obtain ⟨t, -, hrun, -⟩ := holds_run (fun i ↦ holds_of_reaches h i) hop
    rw [hrun, Option.isSome_some]
  · obtain ⟨cells, hi, hvalues⟩ := holds_of_reaches h i
    rw [← hvalues]
    exact hi.value_popBack

/-- An allowed operation leads on. -/
theorem Reaches.next [DecidableEq ι] [DecidableEq α] {lists : ι → TracedList α}
    {values : ι → List α} (h : Reaches lists values) (i : ι) (op : ListOp ι α)
    (hop : op.Allowed lists i) :
    ∃ t, Reaches (Function.update lists i t)
      (Function.update values i (op.onValues lists values i)) := by
  obtain ⟨t, -, hrun, -⟩ := holds_run (fun i ↦ holds_of_reaches h i) hop
  exact ⟨t, h.step hop hrun⟩

/-- A list of 1 and 2 is assigned to another one and then loses its 1; the other one's last value
is 2. -/
theorem sequence_assigned : ∃ lists : Bool → TracedList Nat,
    (lists true).Sequence [2] ∧ (lists false).Sequence [1, 2] ∧
      (lists false).list.popBack.map Prod.snd = some 2 := by
  obtain ⟨t₁, h₁⟩ := (Reaches.start : Reaches _ fun _ : Bool ↦ ([] : List Nat)).next true
    (.pushBack 1) trivial
  obtain ⟨t₂, h₂⟩ := h₁.next true (.pushBack 2) trivial
  obtain ⟨t₃, h₃⟩ := h₂.next false (.assign true) (fun h ↦ Bool.noConfusion h)
  obtain ⟨t₄, h₄⟩ := h₃.next true (.eraseValue 1) trivial
  obtain ⟨hsequence, -, hpop⟩ := sequence_of_reaches h₄
  exact ⟨_, hsequence true, hsequence false, hpop false⟩

end Keow.Kernel
