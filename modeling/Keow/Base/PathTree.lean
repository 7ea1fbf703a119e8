import Mathlib.Data.List.Basic
import Mathlib.Data.List.Induction
import Mathlib.Data.List.Nodup
import Mathlib.Logic.Function.Basic
import Mathlib.Tactic.Common

/-!
# Trees grown along paths

Nodes carry a label, a value and their children in the order in which they were added. `alter`
follows a path of labels, at each step to the first child with the label or to a new one, and
changes the node it comes to. What changes of values grow from a single node is the same below
every label as what the rests of the changes behind that label grow from a node with the label.
-/

namespace Keow.Base

universe u v

/-- A node with its subtrees. -/
inductive PathTree (κ : Type u) (α : Type v) where
  | node (label : κ) (value : α) (children : List (PathTree κ α))

namespace PathTree

variable {κ : Type u} {α : Type v}

def label : PathTree κ α → κ
  | node l _ _ => l

def value : PathTree κ α → α
  | node _ v _ => v

def children : PathTree κ α → List (PathTree κ α)
  | node _ _ cs => cs

/-- A node without children. -/
def leaf (l : κ) (v : α) : PathTree κ α := node l v []

/-- Change the value of a node. -/
def mapValue (f : α → α) (t : PathTree κ α) : PathTree κ α :=
  node t.label (f t.value) t.children

/-- Add a child behind the others. -/
def push (c t : PathTree κ α) : PathTree κ α := node t.label t.value (t.children ++ [c])

@[simp]
theorem label_node (l : κ) (v : α) (cs : List (PathTree κ α)) : (node l v cs).label = l := rfl

@[simp]
theorem value_node (l : κ) (v : α) (cs : List (PathTree κ α)) : (node l v cs).value = v := rfl

@[simp]
theorem children_node (l : κ) (v : α) (cs : List (PathTree κ α)) :
    (node l v cs).children = cs := rfl

section Alter

variable [DecidableEq κ]

/-- Change the first child with a label, or add what a fresh one is changed to. -/
def alterChild (e : κ) (fresh : PathTree κ α) (f : PathTree κ α → PathTree κ α) :
    List (PathTree κ α) → List (PathTree κ α)
  | [] => [f fresh]
  | c :: cs => if c.label = e then f c :: cs else c :: alterChild e fresh f cs

/-- Change the node at the end of a path, with new nodes of value `v₀` where there are none. -/
def alter (v₀ : α) (f : PathTree κ α → PathTree κ α) : List κ → PathTree κ α → PathTree κ α
  | [], t => f t
  | e :: path, t =>
      node t.label t.value (alterChild e (leaf e v₀) (alter v₀ f path) t.children)

@[simp]
theorem alter_nil (v₀ : α) (f : PathTree κ α → PathTree κ α) (t : PathTree κ α) :
    t.alter v₀ f [] = f t := rfl

theorem alter_cons (v₀ : α) (f : PathTree κ α → PathTree κ α) (e : κ) (path : List κ)
    (t : PathTree κ α) :
    t.alter v₀ f (e :: path) =
      node t.label t.value (alterChild e (leaf e v₀) (alter v₀ f path) t.children) := rfl

/-- Where each label has one child, what is changed is the child with the label, which there is
afterwards. -/
theorem alterChild_map {e : κ} {fresh : PathTree κ α} {g : κ → PathTree κ α}
    (hg : ∀ l, (g l).label = l) {ls : List κ} (hnodup : ls.Nodup) (hfresh : e ∉ ls → fresh = g e)
    (f : PathTree κ α → PathTree κ α) :
    alterChild e fresh f (ls.map g) =
      (if e ∈ ls then ls else ls ++ [e]).map (Function.update g e (f (g e))) := by
  induction ls with
  | nil => simp [alterChild, hfresh]
  | cons l ls ih =>
    obtain ⟨hl, hnodup⟩ := List.nodup_cons.mp hnodup
    rw [List.map_cons, alterChild, hg]
    by_cases heq : l = e
    · subst heq
      have hrest : ls.map (Function.update g l (f (g l))) = ls.map g := by
        apply List.map_congr_left
        intro x hx
        apply Function.update_of_ne
        rintro rfl
        exact hl hx
      rw [if_pos rfl, if_pos List.mem_cons_self, List.map_cons, Function.update_self, hrest]
    · have hcons : e ∉ ls → e ∉ l :: ls := by
        intro hmem h
        rcases List.mem_cons.mp h with rfl | h
        · exact heq rfl
        · exact hmem h
      rw [if_neg heq, ih hnodup fun hmem ↦ hfresh (hcons hmem)]
      by_cases hmem : e ∈ ls
      · rw [if_pos hmem, if_pos (List.mem_cons_of_mem l hmem), List.map_cons,
          Function.update_of_ne heq]
      · rw [if_neg hmem, if_neg (hcons hmem), List.cons_append, List.map_cons,
          Function.update_of_ne heq]

end Alter

end PathTree

/-- A path, and how the value at its end changes. -/
abbrev Change (κ : Type u) (α : Type v) := List κ × (α → α)

namespace Change

variable {κ : Type u} {α : Type v}

/-- What is left of a change behind a first label. -/
def behind [DecidableEq κ] (e : κ) : Change κ α → Option (Change κ α)
  | ([], _) => none
  | (x :: path, f) => if x = e then some (path, f) else none

/-- What changes do to the node they start at. -/
def own (v₀ : α) (cs : List (Change κ α)) : α :=
  cs.foldl (fun v c ↦ if c.1 = [] then c.2 v else v) v₀

/-- The rests of the changes behind a first label. -/
def residual [DecidableEq κ] (e : κ) (cs : List (Change κ α)) : List (Change κ α) :=
  cs.filterMap (behind e)

/-- The rests of the changes behind a path. -/
def after [DecidableEq κ] (q : List κ) (cs : List (Change κ α)) : List (Change κ α) :=
  q.foldl (fun cs e ↦ residual e cs) cs

/-- A label put at the end, unless it is there. -/
def addLabel [DecidableEq κ] (ls : List κ) (e : κ) : List κ :=
  if e ∈ ls then ls else ls ++ [e]

/-- The first labels of the paths, in order of appearance. -/
def firsts [DecidableEq κ] (cs : List (Change κ α)) : List κ :=
  (cs.filterMap fun c ↦ c.1.head?).foldl addLabel []

/-- The tree that grows from a node of value `v₀`. -/
def grow [DecidableEq κ] (v₀ : α) (cs : List (Change κ α)) (l : κ) : PathTree κ α :=
  cs.foldl (fun t c ↦ t.alter v₀ (PathTree.mapValue c.2) c.1) (PathTree.leaf l v₀)

section Grow

variable [DecidableEq κ] {v₀ : α} {cs : List (Change κ α)}

/-! ## The changes behind a label -/

theorem mem_residual {e : κ} {path : List κ} {f : α → α} :
    (path, f) ∈ residual e cs ↔ (e :: path, f) ∈ cs := by
  rw [residual, List.mem_filterMap]
  constructor
  · rintro ⟨⟨p, g⟩, hmem, hbehind⟩
    cases p with
    | nil => cases hbehind
    | cons x xs =>
      rw [behind] at hbehind
      split at hbehind
      · next hx =>
        cases hbehind
        rwa [hx] at hmem
      · cases hbehind
  · intro hmem
    exact ⟨(e :: path, f), hmem, if_pos rfl⟩

theorem mem_after {q path : List κ} {f : α → α} :
    (path, f) ∈ after q cs ↔ (q ++ path, f) ∈ cs := by
  induction q generalizing cs with
  | nil => rfl
  | cons e q ih => exact ih.trans mem_residual

@[simp]
theorem after_nil : after [] cs = cs := rfl

theorem after_cons (e : κ) (q : List κ) : after (e :: q) cs = after q (residual e cs) := rfl

theorem after_append_singleton (q : List κ) (e : κ) :
    after (q ++ [e]) cs = residual e (after q cs) := List.foldl_append

theorem nodup_addLabel {ls : List κ} (h : ls.Nodup) (e : κ) : (addLabel ls e).Nodup := by
  unfold addLabel
  split
  · exact h
  · next hmem =>
    rw [List.nodup_append]
    refine ⟨h, List.nodup_singleton e, ?_⟩
    intro x hx y hy heq
    rw [heq, List.mem_singleton.mp hy] at hx
    exact hmem hx

theorem nodup_foldl_addLabel {ls : List κ} (h : ls.Nodup) (es : List κ) :
    (es.foldl addLabel ls).Nodup := by
  induction es generalizing ls with
  | nil => exact h
  | cons e es ih => exact ih (nodup_addLabel h e)

theorem nodup_firsts : (firsts cs).Nodup := nodup_foldl_addLabel List.nodup_nil _

theorem mem_addLabel {ls : List κ} {e x : κ} : x ∈ addLabel ls e ↔ x ∈ ls ∨ x = e := by
  unfold addLabel
  split
  · next hmem =>
    constructor
    · exact Or.inl
    · rintro (h | rfl)
      · exact h
      · exact hmem
  · rw [List.mem_append, List.mem_singleton]

theorem mem_foldl_addLabel {ls es : List κ} {x : κ} :
    x ∈ es.foldl addLabel ls ↔ x ∈ ls ∨ x ∈ es := by
  induction es generalizing ls with
  | nil => simp
  | cons e es ih => rw [List.foldl_cons, ih, mem_addLabel, List.mem_cons, or_assoc]

theorem mem_firsts {e : κ} : e ∈ firsts cs ↔ residual e cs ≠ [] := by
  have hmem : e ∈ firsts cs ↔ ∃ c ∈ cs, c.1.head? = some e := by
    simp [firsts, mem_foldl_addLabel, List.mem_filterMap]
  rw [hmem]
  constructor
  · rintro ⟨⟨path, f⟩, hc, hhead⟩
    cases path with
    | nil => cases hhead
    | cons x path =>
      cases hhead
      exact List.ne_nil_of_mem (mem_residual.mpr hc)
  · intro hne
    obtain ⟨⟨path, f⟩, hc⟩ := List.exists_mem_of_ne_nil _ hne
    exact ⟨(e :: path, f), mem_residual.mp hc, rfl⟩

theorem firsts_append_singleton (c : Change κ α) :
    firsts (cs ++ [c]) = c.1.head?.elim (firsts cs) (addLabel (firsts cs)) := by
  rw [firsts, List.filterMap_append, List.foldl_append]
  obtain ⟨path, f⟩ := c
  cases path <;> rfl

theorem residual_append_singleton (e : κ) (c : Change κ α) :
    residual e (cs ++ [c]) = residual e cs ++ (behind e c).toList := by
  rw [residual, List.filterMap_append]
  cases hbehind : behind e c with
  | none => simp [residual, hbehind]
  | some d => simp [residual, hbehind]

/-! ## What grows -/

theorem grow_append_singleton (c : Change κ α) (l : κ) :
    grow v₀ (cs ++ [c]) l =
      (grow v₀ cs l).alter v₀ (PathTree.mapValue c.2) c.1 := List.foldl_append

@[simp]
theorem label_grow (v₀ : α) (cs : List (Change κ α)) (l : κ) : (grow v₀ cs l).label = l := by
  induction cs using List.reverseRecOn with
  | nil => rfl
  | append_singleton cs c ih =>
    obtain ⟨path, f⟩ := c
    rw [grow_append_singleton]
    cases path <;> exact ih

theorem residual_eq_nil {e : κ} (h : e ∉ firsts cs) : residual e cs = [] := by
  by_contra hne
  exact h (mem_firsts.mpr hne)

/-- What the changes at the end of a path make of a value, one after the other. -/
theorem own_after (v₀ : α) (q : List κ) (cs : List (Change κ α)) :
    own v₀ (after q cs) = cs.foldl (fun v c ↦ if c.1 = q then c.2 v else v) v₀ := by
  induction q generalizing cs with
  | nil => rfl
  | cons e q ih =>
    rw [after_cons, ih, residual, List.foldl_filterMap]
    congr 1
    funext v ⟨path, f⟩
    cases path with
    | nil => simp [behind]
    | cons x path =>
      by_cases hx : x = e
      · simp [behind, hx]
      · simp [behind, hx]

/-- A step down into a tree whose children have grown from what is behind their labels. -/
theorem alterChild_grow (v₀ : α) (cs : List (Change κ α)) (x : κ)
    (f : PathTree κ α → PathTree κ α) :
    PathTree.alterChild x (.leaf x v₀) f ((firsts cs).map fun e ↦ grow v₀ (residual e cs) e) =
      (addLabel (firsts cs) x).map
        (Function.update (fun e ↦ grow v₀ (residual e cs) e) x
          (f (grow v₀ (residual x cs) x))) := by
  apply PathTree.alterChild_map (fun l ↦ label_grow ..) nodup_firsts
  intro hx
  rw [residual_eq_nil hx]
  rfl

/-- The tree that grows from a node. -/
theorem grow_eq (v₀ : α) (cs : List (Change κ α)) (l : κ) :
    grow v₀ cs l =
      .node l (own v₀ cs) ((firsts cs).map fun e ↦ grow v₀ (residual e cs) e) := by
  induction cs using List.reverseRecOn with
  | nil => rfl
  | append_singleton cs c ih =>
    obtain ⟨path, f⟩ := c
    have hown : own v₀ (cs ++ [(path, f)]) =
        if path = [] then f (own v₀ cs) else own v₀ cs := List.foldl_append
    rw [grow_append_singleton, ih, firsts_append_singleton, hown]
    cases path with
    | nil =>
      have hresidual (e : κ) : residual e (cs ++ [([], f)]) = residual e cs := by
        rw [residual_append_singleton]
        exact List.append_nil _
      simp only [hresidual]
      rfl
    | cons x path =>
      have hchildren : (fun e ↦ grow v₀ (residual e (cs ++ [(x :: path, f)])) e) =
          Function.update (fun e ↦ grow v₀ (residual e cs) e) x
            ((grow v₀ (residual x cs) x).alter v₀ (PathTree.mapValue f) path) := by
        funext e
        rw [residual_append_singleton]
        by_cases he : e = x
        · subst he
          rw [Function.update_self, behind, if_pos rfl, Option.toList_some,
            grow_append_singleton]
        · rw [Function.update_of_ne he, behind, if_neg (Ne.symm he), Option.toList_none,
            List.append_nil]
      rw [hchildren, if_neg (List.cons_ne_nil x path), List.head?_cons, Option.elim_some,
        ← alterChild_grow]
      rfl

@[simp]
theorem value_grow (v₀ : α) (cs : List (Change κ α)) (l : κ) :
    (grow v₀ cs l).value = own v₀ cs := by
  rw [grow_eq, PathTree.value_node]

@[simp]
theorem children_grow (v₀ : α) (cs : List (Change κ α)) (l : κ) :
    (grow v₀ cs l).children = (firsts cs).map fun e ↦ grow v₀ (residual e cs) e := by
  rw [grow_eq, PathTree.children_node]

/-- A new child at the end of a path is what a change there makes, if no path leads to it yet. -/
theorem alter_push (v₀ : α) {e : κ} {init : List κ} (hnew : after (init ++ [e]) cs = []) (v : α)
    (l : κ) :
    (grow v₀ cs l).alter v₀ (PathTree.push (.leaf e v)) init =
      grow v₀ (cs ++ [(init ++ [e], fun _ ↦ v)]) l := by
  rw [grow_append_singleton]
  induction init generalizing cs l with
  | nil =>
    have hresidual : residual e cs = [] := hnew
    have hmem : e ∉ firsts cs := fun hmem ↦ mem_firsts.mp hmem hresidual
    have hothers : (firsts cs).map (Function.update (fun x ↦ grow v₀ (residual x cs) x) e
        (.leaf e v)) = (firsts cs).map fun x ↦ grow v₀ (residual x cs) x := by
      apply List.map_congr_left
      intro x hx
      apply Function.update_of_ne
      rintro rfl
      exact hmem hx
    have hleaf : PathTree.mapValue (fun _ ↦ v) (grow v₀ (residual e cs) e) = .leaf e v := by
      rw [hresidual]
      rfl
    rw [List.nil_append, PathTree.alter_nil, PathTree.alter_cons, children_grow, alterChild_grow,
      PathTree.alter_nil, hleaf, addLabel, if_neg hmem, List.map_append, hothers,
      List.map_singleton, Function.update_self, PathTree.push, children_grow]
  | cons x init ih =>
    rw [List.cons_append, after_cons] at hnew
    rw [List.cons_append, PathTree.alter_cons, PathTree.alter_cons, children_grow,
      alterChild_grow, alterChild_grow, ih hnew x]

end Grow

end Change

end Keow.Base
