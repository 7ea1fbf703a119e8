import Mathlib.Data.List.TakeWhile
import Keow.Paths.Element

/-!
# Path canonicalisation

The index loop of `Path::AppendPath`, `Path.cpp:123–174`, over the kernel's own string
class, `String.cpp`, and what it makes of a path: the fold over its pieces, always
canonical, the identity on a joined canonical list, and compositional. Two copies of a
path fit in the 2 GiB of the kernel, so no sum of two of its positions wraps.
-/

namespace Keow.Paths

/-! ## The string class -/

/-- `strcmp`, which compares unsigned characters up to the first NUL. -/
def strcmp : Str → Str → Int
  | [], [] => 0
  | a :: _, [] => if a = 0 then 0 else 1
  | [], b :: _ => if b = 0 then 0 else -1
  | a :: s, b :: t =>
    if a < b then -1 else if b < a then 1 else if a = 0 then 0 else strcmp s t

/-- `string::operator[]`: the static dummy past the end. `String.cpp:211–216`. -/
def charAt (s : Str) (pos : Nat) : UInt8 := s.getD pos 0

/-- The loop of `string::find`, at position `n` with `rest` still to scan. -/
def findIn (c : UInt8) : Str → Int → Int
  | [], _ => -1
  | b :: rest, n => if b = c then n else findIn c rest (n + 1)

/-- `string::find`, `String.cpp:132–143`. -/
def find (s : Str) (c : UInt8) (pos : Int) : Int :=
  if s = [] then -1 else findIn c (s.drop pos.toNat) pos

/-- `string::substr(int, int)`, `String.cpp:164–179`. -/
def substr (s : Str) (pos len : Int) : Str :=
  if pos < s.length then
    let len := if pos + len > s.length then s.length - pos else len
    (s.drop pos.toNat).take len.toNat
  else []

/-- `string::substr(int)`, `String.cpp:180–183`. -/
def substrFrom (s : Str) (pos : Int) : Str := substr s pos s.length

theorem findIn_of_notMem {c : UInt8} {s : Str} (h : c ∉ s) (n : Int) : findIn c s n = -1 := by
  induction s generalizing n with
  | nil => rfl
  | cons b s ih =>
    rw [findIn, if_neg (fun hb ↦ h (by simp [hb])), ih (fun hs ↦ h (by simp [hs]))]

theorem findIn_append_cons {c : UInt8} {s : Str} (h : c ∉ s) (t : Str) (n : Int) :
    findIn c (s ++ c :: t) n = n + s.length := by
  induction s generalizing n with
  | nil => simp [findIn]
  | cons b s ih =>
    rw [List.cons_append, findIn, if_neg (fun hb ↦ h (by simp [hb])),
      ih (fun hs ↦ h (by simp [hs]))]
    rw [List.length_cons]
    omega

/-- From a position inside the string, `find` scans what is left of it. -/
theorem find_eq_findIn (s : Str) (c : UInt8) (pos : Nat) :
    find s c pos = findIn c (s.drop pos) pos := by
  rw [find, Int.toNat_natCast]
  split
  · next h => simp [h, findIn]
  · rfl

theorem substrFrom_eq (s : Str) (pos : Nat) : substrFrom s pos = s.drop pos := by
  rw [substrFrom, substr, Int.toNat_natCast]
  split
  · apply List.take_of_length_le
    rw [List.length_drop]
    split <;> omega
  · next h => exact (List.drop_of_length_le (by omega)).symm

theorem substr_eq {s t u : Str} {pos : Nat} (h : s.drop pos = t ++ u) (hu : u ≠ []) :
    substr s pos t.length = t := by
  have hlen : s.length - pos = t.length + u.length := by
    rw [← List.length_drop, h, List.length_append]
  have hpos := List.length_pos_of_ne_nil hu
  rw [substr, if_pos (by omega), Int.toNat_natCast, h]
  dsimp only
  rw [if_neg (by omega), Int.toNat_natCast, List.take_left']
  rfl

/-- Two strings compare equal when they agree up to their first NUL. -/
theorem strcmp_eq_zero_iff (s t : Str) :
    strcmp s t = 0 ↔ s.takeWhile (· ≠ 0) = t.takeWhile (· ≠ 0) := by
  induction s generalizing t with
  | nil => cases t with
    | nil => simp [strcmp]
    | cons b t => by_cases hb : b = 0 <;> simp [strcmp, hb]
  | cons a s ih => cases t with
    | nil => by_cases ha : a = 0 <;> simp [strcmp, ha]
    | cons b t =>
      rw [strcmp]
      by_cases hab : a = b
      · subst hab
        by_cases ha : a = 0 <;> simp [ha, ih]
      · have hne : ¬ a < b → b < a := fun h ↦
          UInt8.lt_of_le_of_ne (UInt8.not_lt.mp h) (Ne.symm hab)
        have hz : (if a < b then (-1 : Int) else
            if b < a then 1 else if a = 0 then 0 else strcmp s t) ≠ 0 := by
          split
          · decide
          · next h => rw [if_pos (hne h)]; decide
        refine iff_of_false hz fun h ↦ hab ?_
        by_cases ha : a = 0 <;> by_cases hb : b = 0 <;> simp_all

/-- Without a NUL inside, `strcmp` decides equality. -/
theorem strcmp_eq_zero_iff_eq {s t : Str} (hs : 0 ∉ s) (ht : 0 ∉ t) : strcmp s t = 0 ↔ s = t := by
  have hall : ∀ {u : Str}, 0 ∉ u → u.takeWhile (· ≠ 0) = u := by
    intro u hu
    rw [List.takeWhile_eq_self_iff]
    intro b hb
    simpa using fun h : b = 0 ↦ hu (h ▸ hb)
  rw [strcmp_eq_zero_iff, hall hs, hall ht]

/-! ## The loop -/

/-- The branches on one piece, `Path.cpp:151–166`, with the comparisons of the string class. -/
def addElement (lst : List Str) (element : Str) : List Str :=
  if strcmp element dot = 0 then lst
  else if strcmp element dotdot = 0 then if lst = [] then lst else lst.dropLast
  else if element ≠ [] then lst ++ [element]
  else lst

/-- The loop of `AppendPath`, `Path.cpp:136–173`: `none` when `fuel` turns are too few. -/
def appendFrom (unixp : Str) : Nat → Int → List Str → Option (List Str)
  | 0, _, _ => none
  | fuel + 1, pos, lst =>
    let nextPos := find unixp slash pos
    let element :=
      if nextPos < 0 then substrFrom unixp pos else substr unixp pos (nextPos - pos)
    let lst := addElement lst element
    if nextPos < 0 then some lst else appendFrom unixp fuel (nextPos + 1) lst

/-- `Path::AppendPath` with its positions, `Path.cpp:123–174`. -/
def appendPathLoop (lst : List Str) (unixp : Str) : Option (List Str) :=
  let lst := if charAt unixp 0 = slash then [] else lst
  appendFrom unixp (unixp.length + 1) 0 lst

/-- Elements as `AppendPath` tells them apart: none is empty, `"."`, `".."` or holds a
slash. -/
def Canonical (lst : List Str) : Prop :=
  ∀ e ∈ lst, e ≠ [] ∧ strcmp e dot ≠ 0 ∧ strcmp e dotdot ≠ 0 ∧ slash ∉ e

theorem Canonical.dropLast {lst : List Str} (h : Canonical lst) : Canonical lst.dropLast :=
  fun e he ↦ h e (List.dropLast_subset lst he)

theorem Canonical.addElement {lst : List Str} (h : Canonical lst) {element : Str}
    (he : slash ∉ element) : Canonical (addElement lst element) := by
  unfold Paths.addElement
  split
  · exact h
  · next hd =>
    split
    · split
      · exact h
      · exact h.dropLast
    · next hdd =>
      split
      · next hne =>
        intro e hmem
        rcases List.mem_append.mp hmem with hmem | hmem
        · exact h e hmem
        · rw [List.mem_singleton.mp hmem]
          exact ⟨hne, hd, hdd, he⟩
      · exact h

/-- Among strings without a NUL, the canonical elements are the ones of an element stack. -/
theorem canonical_iff {lst : List Str} (h : ∀ e ∈ lst, 0 ∉ e) :
    Canonical lst ↔ ∀ e ∈ lst, IsElement e := by
  have hdot : ∀ e ∈ lst, (strcmp e dot = 0 ↔ e = dot) :=
    fun e he ↦ strcmp_eq_zero_iff_eq (h e he) (by decide)
  have hdotdot : ∀ e ∈ lst, (strcmp e dotdot = 0 ↔ e = dotdot) :=
    fun e he ↦ strcmp_eq_zero_iff_eq (h e he) (by decide)
  constructor
  · intro hc e he
    obtain ⟨h1, h2, h3, h4⟩ := hc e he
    exact ⟨h1, fun h' ↦ h2 ((hdot e he).mpr h'), fun h' ↦ h3 ((hdotdot e he).mpr h'), h4⟩
  · intro hi e he
    exact ⟨(hi e he).ne_nil, fun h' ↦ (hi e he).ne_dot ((hdot e he).mp h'),
      fun h' ↦ (hi e he).ne_dotdot ((hdotdot e he).mp h'), (hi e he).slash_notMem⟩

/-- Cut at its first slash, or not at all when it has none. -/
theorem notMem_or_exists_cut (s : Str) :
    slash ∉ s ∨ ∃ t u, s = t ++ slash :: u ∧ slash ∉ t := by
  by_cases h : slash ∈ s
  · obtain ⟨t, u, hs, ht⟩ := List.eq_append_cons_of_mem h
    exact .inr ⟨t, u, hs, ht⟩
  · exact .inl h

/-- From any position, the loop folds over the pieces of what is left. -/
theorem appendFrom_eq (unixp : Str) (fuel pos : Nat) (lst : List Str)
    (hpos : pos ≤ unixp.length) (hfuel : unixp.length < pos + fuel) :
    appendFrom unixp fuel pos lst =
      some (((unixp.drop pos).splitOn slash).foldl addElement lst) := by
  induction fuel generalizing pos lst with
  | zero => omega
  | succ fuel ih =>
    rw [appendFrom, find_eq_findIn]
    rcases notMem_or_exists_cut (unixp.drop pos) with h | ⟨t, u, htu, ht⟩
    · -- the last piece
      rw [findIn_of_notMem h, List.splitOn_eq_singleton h]
      simp [substrFrom_eq]
    · -- a piece in the middle: the next turn starts behind its slash
      have hlen : unixp.length - pos = t.length + (u.length + 1) := by
        rw [← List.length_drop, htu, List.length_append, List.length_cons]
      have hdrop : unixp.drop (pos + t.length + 1) = u := by
        rw [Nat.add_assoc, ← List.drop_drop, htu, List.drop_append]
        simp
      have hnext : findIn slash (unixp.drop pos) pos = (pos + t.length : Nat) := by
        rw [htu, findIn_append_cons ht]
        omega
      have hsub : substr unixp pos ((pos + t.length : Nat) - pos) = t := by
        rw [show (((pos + t.length : Nat) : Int) - pos) = t.length by omega]
        exact substr_eq htu (by simp)
      rw [hnext]
      rw [if_neg (by omega), if_neg (by omega), hsub]
      have hstep := ih (pos + t.length + 1) (addElement lst t) (by omega) (by omega)
      rw [hdrop] at hstep
      rw [htu, List.splitOn_append_cons_self_of_not_mem ht, List.foldl_cons]
      exact_mod_cast hstep

/-- `AppendPath` folds over the pieces between slashes, from nothing for an absolute path. -/
theorem appendPathLoop_eq (lst : List Str) (s : Str) :
    appendPathLoop lst s = some ((s.splitOn slash).foldl addElement
      (if s.head? = some slash then [] else lst)) := by
  have hhead : charAt s 0 = slash ↔ s.head? = some slash := by
    cases s with
    | nil => simp [charAt, slash]
    | cons b s => simp [charAt]
  have h := appendFrom_eq s (s.length + 1) 0 (if s.head? = some slash then [] else lst)
    (by omega) (by omega)
  rw [appendPathLoop]
  simp only [hhead]
  exact_mod_cast h

/-- Without a NUL inside, `strcmp` picks out the dot references themselves. -/
theorem addElement_eq {element : Str} (h : 0 ∉ element) (lst : List Str) :
    addElement lst element = appendElement lst element := by
  rw [addElement, appendElement]
  simp only [strcmp_eq_zero_iff_eq h (show 0 ∉ dot by decide),
    strcmp_eq_zero_iff_eq h (show 0 ∉ dotdot by decide)]
  congr 2
  split
  · next h => simp [h]
  · rfl

theorem mem_of_mem_splitOn {c b : UInt8} {s p : Str} (hp : p ∈ s.splitOn c) (hb : b ∈ p) :
    b ∈ s := by
  obtain ⟨i, hi⟩ := List.mem_iff_getElem?.mp hp
  have hmem : p ∈ (s.splitOn c).intersperse [c] :=
    List.mem_of_getElem? (i := 2 * i) (by rw [List.getElem?_intersperse_two_mul, hi])
  have hb' := List.mem_flatten_of_mem hmem hb
  rwa [← List.intercalate, List.intercalate_splitOn] at hb'

theorem foldl_addElement_eq {pieces : List Str} (h : ∀ p ∈ pieces, 0 ∉ p) (lst : List Str) :
    pieces.foldl addElement lst = pieces.foldl appendElement lst := by
  induction pieces generalizing lst with
  | nil => rfl
  | cons p ps ih =>
    rw [List.foldl_cons, List.foldl_cons, addElement_eq (h p (by simp)),
      ih fun q hq ↦ h q (by simp [hq])]

theorem Canonical.foldl_addElement {pieces lst : List Str} (hl : Canonical lst)
    (h : ∀ p ∈ pieces, slash ∉ p) : Canonical (pieces.foldl Paths.addElement lst) := by
  induction pieces generalizing lst with
  | nil => exact hl
  | cons p ps ih => exact ih (hl.addElement (h p (by simp))) fun q hq ↦ h q (by simp [hq])

/-- The pieces of a canonical list are pushed one by one. -/
theorem Canonical.foldl_eq {pieces : List Str} (h : Canonical pieces) (lst : List Str) :
    pieces.foldl Paths.addElement lst = lst ++ pieces := by
  induction pieces generalizing lst with
  | nil => simp
  | cons p ps ih =>
    obtain ⟨hne, hd, hdd, -⟩ := h p (by simp)
    rw [List.foldl_cons, ih fun q hq ↦ h q (by simp [hq]), Paths.addElement, if_neg hd, if_neg hdd,
      if_pos hne]
    simp

/-- The index loop computes `appendPath`. -/
theorem appendPathLoop_eq_appendPath {s : Str} (hs : 0 ∉ s) (lst : List Str) :
    appendPathLoop lst s = some (appendPath lst s) := by
  rw [appendPathLoop_eq, foldl_addElement_eq fun p hp h0 ↦ hs (mem_of_mem_splitOn hp h0)]
  rfl

/-- A joined canonical list, appended to nothing, is that list again. -/
theorem appendPathLoop_joinList {lst : List Str} (h : Canonical lst) :
    appendPathLoop [] (slash :: joinList lst slash) = some lst := by
  rw [appendPathLoop_eq, List.head?_cons, if_pos rfl,
    joinList_eq_intercalate fun e he ↦ (h e he).1]
  by_cases hnil : lst = []
  · subst hnil
    rfl
  · have hsplit := List.splitOn_append_cons_self_of_not_mem
      (List.not_mem_nil : slash ∉ []) ([slash].intercalate lst)
    rw [List.nil_append] at hsplit
    rw [hsplit, List.splitOn_intercalate slash (fun e he ↦ (h e he).2.2.2) hnil, List.foldl_cons]
    exact congrArg some (h.foldl_eq [])

/-- Appending twice is appending the two paths with a slash between them. -/
theorem appendPathLoop_append (lst : List Str) {a b : Str} (ha : a ≠ [])
    (hb : b.head? ≠ some slash) :
    (appendPathLoop lst a).bind (appendPathLoop · b) = appendPathLoop lst (a ++ slash :: b) := by
  have hhead : (a ++ slash :: b).head? = a.head? := by
    rw [List.head?_append_of_ne_nil _ ha]
  rw [appendPathLoop_eq, Option.bind_some, appendPathLoop_eq, appendPathLoop_eq, hhead, if_neg hb,
    List.splitOn_append_cons_self, List.foldl_append]

/-- What `AppendPath` makes of a path: the fold over its pieces between slashes, a canonical
list again, the inverse of joining, and the same in one step as in two. -/
theorem appendPathLoop_canonical {lst : List Str} (hl : Canonical lst) {s : Str} (hs : 0 ∉ s) :
    (∃ final, appendPathLoop lst s = some final ∧
      final = (s.splitOn slash).foldl appendElement (if s.head? = some slash then [] else lst) ∧
      Canonical final) ∧
    appendPathLoop [] (slash :: joinList lst slash) = some lst ∧
    ∀ a b : Str, a ≠ [] → b.head? ≠ some slash →
      (appendPathLoop lst a).bind (appendPathLoop · b) = appendPathLoop lst (a ++ slash :: b) := by
  have hpieces : ∀ p ∈ s.splitOn slash, 0 ∉ p := fun p hp h0 ↦ hs (mem_of_mem_splitOn hp h0)
  have hstart : Canonical (if s.head? = some slash then [] else lst) := by
    split
    · simp [Canonical]
    · exact hl
  refine ⟨⟨_, appendPathLoop_eq lst s, foldl_addElement_eq hpieces _, ?_⟩,
    appendPathLoop_joinList hl, fun a b ha hb ↦ appendPathLoop_append lst ha hb⟩
  exact hstart.foldl_addElement fun p hp ↦ notMem_of_mem_splitOn hp

/-- `usr` and then `..//./bin/`. -/
theorem appendPathLoop_canonical_usr :
    (∃ final, appendPathLoop [[0x75, 0x73, 0x72]]
        [0x2E, 0x2E, 0x2F, 0x2F, 0x2E, 0x2F, 0x62, 0x69, 0x6E, 0x2F] = some final ∧
      final = [[0x62, 0x69, 0x6E]] ∧ Canonical final) := by
  obtain ⟨⟨final, h, heq, hcan⟩, -, -⟩ := @appendPathLoop_canonical [[0x75, 0x73, 0x72]]
    (by simp [Canonical, strcmp, dot, dotdot, slash])
    [0x2E, 0x2E, 0x2F, 0x2F, 0x2E, 0x2F, 0x62, 0x69, 0x6E, 0x2F] (by decide)
  exact ⟨final, h, heq.trans (by decide), hcan⟩

end Keow.Paths
