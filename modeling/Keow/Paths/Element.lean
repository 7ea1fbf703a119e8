import Mathlib.Algebra.Ring.Nat
import Mathlib.Data.List.Basic
import Mathlib.Tactic.Common

/-!
# Path elements

`Path::AppendPath` and `Path::JoinList`, `Path.cpp:123–191`. Strings are the bytes in
front of the terminating NUL, so `strcmp` is equality. An element stack only ever
receives pieces that `AppendPath` cut out, which is what `ElementList` records.
-/

namespace Keow.Paths

/-- The characters of a NUL-terminated string. -/
abbrev Str := List UInt8

/-- `'/'`. -/
def slash : UInt8 := 0x2F

/-- `'\\'`. -/
def backslash : UInt8 := 0x5C

/-- `"."`. -/
def dot : Str := [0x2E]

/-- `".."`. -/
def dotdot : Str := [0x2E, 0x2E]

/-- What `AppendPath` pushes: a non-empty piece without slash that is no dot reference. -/
structure IsElement (e : Str) : Prop where
  ne_nil : e ≠ []
  ne_dot : e ≠ dot
  ne_dotdot : e ≠ dotdot
  slash_notMem : slash ∉ e

instance (e : Str) : Decidable (IsElement e) :=
  decidable_of_iff (e ≠ [] ∧ e ≠ dot ∧ e ≠ dotdot ∧ slash ∉ e)
    ⟨fun h ↦ ⟨h.1, h.2.1, h.2.2.1, h.2.2.2⟩,
      fun h ↦ ⟨h.ne_nil, h.ne_dot, h.ne_dotdot, h.slash_notMem⟩⟩

/-- One piece between slashes: skipped, popping, or pushed. `Path.cpp:151–166`. -/
def appendElement (lst : List Str) (element : Str) : List Str :=
  if element = dot then lst
  else if element = dotdot then lst.dropLast
  else if element ≠ [] then lst ++ [element]
  else lst

/-- `Path::AppendPath`, `Path.cpp:123–174`: an absolute path first empties the list, then
the pieces between slashes are appended from left to right. -/
def appendPath (lst : List Str) (unixp : Str) : List Str :=
  let lst := if unixp.head? = some slash then [] else lst
  (unixp.splitOn slash).foldl appendElement lst

/-- `Path::JoinList`, `Path.cpp:179–193`. -/
def joinList (lst : List Str) (delimiter : UInt8) : Str :=
  lst.foldl (fun final element ↦
    (if final ≠ [] then final ++ [delimiter] else final) ++ element) []

/-- An element stack as `AppendPath` builds it. -/
structure ElementList where
  elements : List Str
  isElement : ∀ e ∈ elements, IsElement e

/-- A piece between delimiters holds none. -/
theorem notMem_of_mem_splitOn {c : UInt8} {s p : Str} (h : p ∈ s.splitOn c) : c ∉ p := by
  induction s generalizing p with
  | nil => simp_all
  | cons b s ih =>
    rw [List.splitOn_cons_eq_if_modifyHead] at h
    split at h
    · rcases List.mem_cons.mp h with rfl | h
      · simp
      · exact ih h
    · next hb =>
      cases hs : s.splitOn c with
      | nil => exact absurd hs (List.splitOn_ne_nil c s)
      | cons q qs =>
        rw [hs, List.modifyHead_cons, List.mem_cons] at h
        rcases h with rfl | h
        · have hq := ih (p := q) (by simp [hs])
          have hcb : c ≠ b := fun hcb ↦ hb (by simp [hcb])
          simp [hcb, hq]
        · exact ih (by simp [hs, h])

private theorem isElement_appendElement {lst : List Str} {piece : Str}
    (hl : ∀ e ∈ lst, IsElement e) (hp : slash ∉ piece) :
    ∀ e ∈ appendElement lst piece, IsElement e := by
  unfold appendElement
  split
  · exact hl
  · next hd =>
    split
    · exact fun e he ↦ hl e (List.dropLast_subset lst he)
    · next hdd =>
      split
      · next hne =>
        intro e he
        rcases List.mem_append.mp he with he | he
        · exact hl e he
        · rw [List.mem_singleton.mp he]
          exact ⟨hne, hd, hdd, hp⟩
      · exact hl

/-- Appending any string keeps a stack of elements. -/
theorem isElement_appendPath {lst : List Str} (hl : ∀ e ∈ lst, IsElement e) (unixp : Str) :
    ∀ e ∈ appendPath lst unixp, IsElement e := by
  have hfold : ∀ (ps : List Str) (l : List Str), (∀ p ∈ ps, slash ∉ p) →
      (∀ e ∈ l, IsElement e) → ∀ e ∈ ps.foldl appendElement l, IsElement e := by
    intro ps
    induction ps with
    | nil => exact fun l _ h ↦ h
    | cons p ps ih =>
      intro l hps h
      exact ih _ (fun q hq ↦ hps q (by simp [hq])) (isElement_appendElement h (hps p (by simp)))
  apply hfold _ _ (fun p hp ↦ notMem_of_mem_splitOn hp)
  split
  · simp
  · exact hl

namespace ElementList

/-- The empty stack. -/
def nil : ElementList := ⟨[], by simp⟩

/-- `AppendPath` on a stack. -/
def append (lst : ElementList) (unixp : Str) : ElementList :=
  ⟨appendPath lst.elements unixp, isElement_appendPath lst.isElement unixp⟩

end ElementList

theorem appendElement_of_isElement {e : Str} (he : IsElement e) (lst : List Str) :
    appendElement lst e = lst ++ [e] := by
  rw [appendElement, if_neg he.ne_dot, if_neg he.ne_dotdot, if_pos he.ne_nil]

/-- A string without slash is one piece. -/
theorem appendPath_of_slash_notMem {piece : Str} (hpiece : slash ∉ piece) (lst : List Str) :
    appendPath lst piece = appendElement lst piece := by
  have hhead : piece.head? ≠ some slash := fun h ↦ hpiece (List.mem_of_mem_head? h)
  rw [appendPath, if_neg hhead, List.splitOn_eq_singleton hpiece]
  rfl

/-- A single element is pushed as it is. -/
theorem appendPath_element {e : Str} (h : IsElement e) (lst : List Str) :
    appendPath lst e = lst ++ [e] := by
  rw [appendPath_of_slash_notMem h.slash_notMem, appendElement_of_isElement h]

/-- The string that joins non-empty elements: a delimiter in front of all but the first. -/
theorem joinList_eq_intercalate {lst : List Str} (h : ∀ e ∈ lst, e ≠ []) (delimiter : UInt8) :
    joinList lst delimiter = [delimiter].intercalate lst := by
  have hfold : ∀ (l : List Str) (acc : Str), acc ≠ [] →
      l.foldl (fun final element ↦
        (if final ≠ [] then final ++ [delimiter] else final) ++ element) acc =
      acc ++ l.flatMap (fun e ↦ delimiter :: e) := by
    intro l
    induction l with
    | nil => simp
    | cons e l ih =>
      intro acc hacc
      rw [List.foldl_cons, if_pos hacc, ih _ (by simp), List.flatMap_cons]
      simp
  cases lst with
  | nil => rfl
  | cons e l =>
    rw [joinList, List.foldl_cons, if_neg (by simp), List.nil_append, hfold l e (h e (by simp))]
    clear hfold h
    induction l generalizing e with
    | nil => simp
    | cons f l ih =>
      rw [List.intercalate_cons_cons, ← ih f]
      simp

/-- The length of a joined path, its leading slash included. -/
theorem length_joinList {lst : List Str} (h : ∀ e ∈ lst, e ≠ []) (delimiter : UInt8) :
    (joinList lst delimiter).length + (if lst = [] then 0 else 1) =
      (lst.map (fun e ↦ e.length + 1)).sum := by
  rw [joinList_eq_intercalate h]
  induction lst with
  | nil => simp
  | cons e l ih =>
    cases l with
    | nil => simp
    | cons f l =>
      have ih' := ih (fun x hx ↦ h x (by simp [hx]))
      rw [if_neg (by simp)] at ih' ⊢
      rw [List.intercalate_cons_cons, List.map_cons, List.sum_cons, ← ih']
      simp only [List.length_append, List.length_singleton]
      omega

end Keow.Paths
