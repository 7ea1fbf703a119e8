import Keow.Base.PathTree
import Keow.Paths.Mount

/-!
# Generated file systems

`FilesystemGenericStatic`: patterns are registered in a tree whose nodes are found or added element
by element, and `CreateIOHandler` goes down the tree along a path. At a leaf it calls the handler of
the file, elsewhere it makes up a directory. What handlers and listers do is left open: the outcome
says which of them is called, and with which of the elements that a `*` stands for.
-/

namespace Keow.Files.GenericStatic

open Keow.Base Keow.Paths

/-- `"*"`. -/
def asterisk : Str := [0x2A]

section Model

variable {η ℓ : Type}

/-- What a `PathMappingNode` holds beside its pattern and its children,
`FilesystemGenericStatic.h:67–94`. -/
structure PathMapping (η ℓ : Type) where
  numParams : Nat := 0
  handler : Option η := none
  lister : Option ℓ := none

abbrev PathMappingNode (η ℓ : Type) := PathTree Str (PathMapping η ℓ)

/-- A call of `AddFile` or `AddLister`. The overload says how many wildcards there are, and `path`
is the `Path` that the pattern gives. -/
inductive Registration (η ℓ : Type) where
  | addFile (path : Path) (wildcards : Fin 3) (handler : η)
  | addLister (path : Path) (wildcards : Fin 2) (lister : ℓ)

/-- `AddFileInternal`, `FilesystemGenericStatic.cpp:71–115`. A path without elements has the last
element `""`. -/
def addFileInternal (root : PathMappingNode η ℓ) (path : Path) (wildcards : Nat) (handler : η) :
    PathMappingNode η ℓ :=
  let elements := path.pathStack.elements
  root.alter {}
    (.push (.leaf (elements.getLast?.getD []) { numParams := wildcards, handler := some handler }))
    elements.dropLast

/-- `AddListerInternal`, `FilesystemGenericStatic.cpp:117–156`. -/
def addListerInternal (root : PathMappingNode η ℓ) (path : Path) (wildcards : Nat) (lister : ℓ) :
    PathMappingNode η ℓ :=
  root.alter {} (.mapValue fun m ↦ { m with lister := some lister, numParams := wildcards })
    path.pathStack.elements

def register (root : PathMappingNode η ℓ) : Registration η ℓ → PathMappingNode η ℓ
  | .addFile path wildcards handler => addFileInternal root path wildcards handler
  | .addLister path wildcards lister => addListerInternal root path wildcards lister

/-- `m_pPathMappingRoot` after some calls. -/
def pathMappingRoot (rs : List (Registration η ℓ)) : PathMappingNode η ℓ :=
  rs.foldl register (.leaf [] {})

/-- The scan of the children, `FilesystemGenericStatic.cpp:188–206`. -/
def findChild (want : Str) : List (PathMappingNode η ℓ) → Option (PathMappingNode η ℓ) →
    Option (PathMappingNode η ℓ)
  | [], found => found
  | c :: cs, found =>
      let found := if c.label = asterisk then some c else found
      if c.label = want then some c else findChild want cs found

/-- The way down, `FilesystemGenericStatic.cpp:184–219`: the node, and the wildcards. -/
def descend : List Str → PathMappingNode η ℓ → List Str → Option (PathMappingNode η ℓ × List Str)
  | [], node, wildcards => some (node, wildcards)
  | want :: rest, node, wildcards =>
      match findChild want node.children none with
      | none => none
      | some found =>
          descend rest found (if found.label = asterisk then wildcards ++ [want] else wildcards)

/-- The fields of a `linux::dirent64` that are filled in. -/
structure StaticEntry where
  dIno : BitVec 64
  dType : UInt8
  dName : Str

/-- What `CreateIOHandler` comes to: `NULL`, a call through a null pointer or an element past the
end of `wildcards`, the handler that a call gives, or a directory with entries for children and
what a call of the lister adds to them. -/
inductive Outcome (η ℓ : Type) where
  | null
  | fault
  | handled (handler : η) (params : List Str)
  | directory (children : List StaticEntry) (lister : Option (ℓ × List Str))

/-- `wildcards[0]` and so on, as many as there are parameters. -/
def takeParams (numParams : Nat) (wildcards : List Str) : Option (List Str) :=
  if numParams ≤ wildcards.length then some (wildcards.take numParams) else none

/-- A file, `FilesystemGenericStatic.cpp:230–242`. -/
def openFile (m : PathMapping η ℓ) (wildcards : List Str) : Outcome η ℓ :=
  if 2 < m.numParams then .null
  else
    match m.handler, takeParams m.numParams wildcards with
    | some handler, some params => .handled handler params
    | _, _ => .fault

/-- The entry for a child. `StringCbCopy` leaves room for the NUL in 256 bytes. -/
def childEntry (pathPattern : Str) : StaticEntry where
  dIno := 0
  dType := 0
  dName := pathPattern.take 255

/-- A directory, `FilesystemGenericStatic.cpp:248–291`. -/
def openDirectory (node : PathMappingNode η ℓ) (wildcards : List Str) : Outcome η ℓ :=
  let children := ((node.children.map PathTree.label).filter (· ≠ asterisk)).map childEntry
  match node.value.lister with
  | none => .directory children none
  | some lister =>
      if 1 < node.value.numParams then .null
      else
        match takeParams node.value.numParams wildcards with
        | some params => .directory children (some (lister, params))
        | none => .fault

/-- A node that matches, `FilesystemGenericStatic.cpp:225–292`. -/
def openNode (node : PathMappingNode η ℓ) (wildcards : List Str) : Outcome η ℓ :=
  if node.children.isEmpty ∧ node.value.lister.isNone then openFile node.value wildcards
  else openDirectory node wildcards

/-- `CreateIOHandler` for a path in the file system, `FilesystemGenericStatic.cpp:178–292`. -/
def openPath (root : PathMappingNode η ℓ) (fsPath : Path) : Outcome η ℓ :=
  match descend fsPath.pathStack.elements root [] with
  | none => .null
  | some (node, wildcards) => openNode node wildcards

/-- The constructor of `Path` from a string, in a process with this working directory,
`Path.cpp:48–61`. -/
def ofString (t : MountTable) (unixPwd : Path) (unixPath : Str) : Path :=
  Path.setUnixPath t {} unixPwd unixPath

/-- `Path FsPath = path.GetPathInFilesystem()`. -/
def fsPath (t : MountTable) (unixPwd path : Path) : Path :=
  ofString t unixPwd (path.calculated t).pathInMountPoint

/-- `FilesystemGenericStatic::CreateIOHandler`, `FilesystemGenericStatic.cpp:173–293`. -/
def createIOHandler (t : MountTable) (unixPwd : Path) (root : PathMappingNode η ℓ) (path : Path) :
    Outcome η ℓ :=
  openPath root (fsPath t unixPwd path)

/-! ## The patterns -/

namespace Registration

/-- The elements of the pattern. -/
def elements : Registration η ℓ → List Str
  | addFile path _ _ | addLister path _ _ => path.pathStack.elements

def wildcards : Registration η ℓ → Nat
  | addFile _ wildcards _ => wildcards
  | addLister _ wildcards _ => wildcards

def isFile : Registration η ℓ → Bool
  | addFile .. => true
  | addLister .. => false

/-- The lister registered for a pattern. -/
def listerFor (q : List Str) : Registration η ℓ → Option ℓ
  | addFile .. => none
  | addLister path _ lister => if path.pathStack.elements = q then some lister else none

/-- Neither pattern, where it is that of a file, begins the other. -/
def Apart (r s : Registration η ℓ) : Prop :=
  (r.isFile → ¬r.elements <+: s.elements) ∧ (s.isFile → ¬s.elements <+: r.elements)

end Registration

/-- Each arity is the number of wildcards in the pattern, and the pattern of a file begins no
other pattern. -/
structure WellFormed (rs : List (Registration η ℓ)) : Prop where
  arity : ∀ r ∈ rs, r.wildcards = r.elements.count asterisk
  apart : rs.Pairwise Registration.Apart

/-- Some pattern begins with these elements. -/
def Leads (patterns : List (List Str)) (q : List Str) : Prop := ∃ p ∈ patterns, q <+: p

instance (patterns : List (List Str)) (q : List Str) : Decidable (Leads patterns q) :=
  inferInstanceAs (Decidable (∃ p ∈ patterns, q <+: p))

/-- How far patterns match a path: behind `q` goes on with the element itself, else with the
wildcard. What comes out is the pattern reached, and the elements that its wildcards stand for. -/
def matchPath (patterns : List (List Str)) :
    List Str → List Str → List Str → Option (List Str × List Str)
  | q, wildcards, [] => some (q, wildcards)
  | q, wildcards, e :: path =>
      if Leads patterns (q ++ [e]) then
        matchPath patterns (q ++ [e]) (if e = asterisk then wildcards ++ [e] else wildcards) path
      else if Leads patterns (q ++ [asterisk]) then
        matchPath patterns (q ++ [asterisk]) (wildcards ++ [e]) path
      else none

/-- The patterns of registrations. -/
def patterns (rs : List (Registration η ℓ)) : List (List Str) := rs.map Registration.elements

/-- The name of a child of a directory. -/
def Named (rs : List (Registration η ℓ)) (q : List Str) (name : Str) : Prop :=
  name ≠ asterisk ∧ Leads (patterns rs) (q ++ [name])

/-- The last lister registered for a pattern. -/
def listerAt (rs : List (Registration η ℓ)) (q : List Str) : Option ℓ :=
  (rs.filterMap (Registration.listerFor q)).getLast?

/-- A directory of the named children, each once, and of the entries of the lister. -/
def Lists (rs : List (Registration η ℓ)) (q wildcards : List Str) (o : Outcome η ℓ) : Prop :=
  ∃ names : List Str, names.Nodup ∧ (∀ name, name ∈ names ↔ Named rs q name) ∧
    o = .directory (names.map fun name ↦ ⟨0, 0, name⟩)
      ((listerAt rs q).map fun lister ↦ (lister, wildcards))

/-- `NULL` where no pattern matches, at a file its handler with what has been matched, else a
directory. -/
def Dispatches (rs : List (Registration η ℓ)) (path : List Str) (o : Outcome η ℓ) : Prop :=
  match matchPath (patterns rs) [] [] path with
  | none => o = .null
  | some (q, wildcards) =>
      (∀ p n h, .addFile p n h ∈ rs → p.pathStack.elements = q → o = .handled h wildcards) ∧
      ((∀ r ∈ rs, r.isFile → r.elements ≠ q) → Lists rs q wildcards o)

end Model

section Tree

variable {η ℓ : Type} {rs : List (Registration η ℓ)}

/-! ## The tree -/

/-- What a registration changes. -/
def Registration.change : Registration η ℓ → Change Str (PathMapping η ℓ)
  | addFile path wildcards handler =>
      (path.pathStack.elements, fun _ ↦ { numParams := wildcards, handler := some handler })
  | addLister path wildcards lister =>
      (path.pathStack.elements,
        fun m ↦ { m with lister := some lister, numParams := wildcards })

@[simp]
theorem change_fst (r : Registration η ℓ) : r.change.1 = r.elements := by cases r <;> rfl

theorem after_change {q : List Str} :
    Change.after q (rs.map Registration.change) ≠ [] ↔ Leads (patterns rs) q := by
  constructor
  · intro hne
    obtain ⟨⟨path, f⟩, hmem⟩ := List.exists_mem_of_ne_nil _ hne
    obtain ⟨r, hr, hchange⟩ := List.mem_map.mp (Change.mem_after.mp hmem)
    refine ⟨r.elements, List.mem_map_of_mem hr, path, ?_⟩
    rw [← change_fst, hchange]
  · rintro ⟨p, hp, path, hpath⟩
    obtain ⟨r, hr, rfl⟩ := List.mem_map.mp hp
    apply List.ne_nil_of_mem (a := (path, r.change.2))
    rw [Change.mem_after, hpath, ← change_fst]
    exact List.mem_map_of_mem hr

theorem mem_firsts_after {q : List Str} {e : Str} :
    e ∈ Change.firsts (Change.after q (rs.map Registration.change)) ↔
      Leads (patterns rs) (q ++ [e]) := by
  rw [Change.mem_firsts, ← Change.after_append_singleton, after_change]

/-- The tree that is built is the one that grows from the changes. -/
theorem pathMappingRoot_eq (hapart : rs.Pairwise Registration.Apart)
    (hroot : ∀ r ∈ rs, r.isFile → r.elements ≠ []) :
    pathMappingRoot rs = Change.grow {} (rs.map Registration.change) [] := by
  induction rs using List.reverseRecOn with
  | nil => rfl
  | append_singleton rs r ih =>
    obtain ⟨hrs, -, hlast⟩ := List.pairwise_append.mp hapart
    have htree := ih hrs fun s hs ↦ hroot s (List.mem_append_left _ hs)
    rw [pathMappingRoot, List.foldl_append, List.foldl_cons, List.foldl_nil]
    rw [pathMappingRoot] at htree
    rw [htree, List.map_append, List.map_singleton]
    cases r with
    | addLister path n l => rw [Change.grow_append_singleton]; rfl
    | addFile path n handler =>
      have hmem : .addFile path n handler ∈ rs ++ [.addFile path n handler] :=
        List.mem_append_right _ (List.mem_singleton_self _)
      have hne : path.pathStack.elements ≠ [] := hroot _ hmem rfl
      have hinit := List.dropLast_append_getLast hne
      have hnew : Change.after path.pathStack.elements (rs.map Registration.change) = [] := by
        by_contra hafter
        obtain ⟨p, hp, hprefix⟩ := after_change.mp hafter
        obtain ⟨s, hs, rfl⟩ := List.mem_map.mp hp
        exact (hlast s hs _ (List.mem_singleton_self _)).2 rfl hprefix
      rw [← hinit] at hnew
      have hpush := Change.alter_push {} hnew { numParams := n, handler := some handler } []
      rw [hinit] at hpush
      rw [Registration.change, ← hpush, register, addFileInternal,
        List.getLast?_eq_some_getLast hne]
      rfl

/-! ## The way down -/

/-- Of children that are told apart by their labels, the one that is wanted is found, or else the
wildcard. -/
theorem findChild_map (want : Str) {g : Str → PathMappingNode η ℓ} (hg : ∀ x, (g x).label = x)
    (ls : List Str) (found : Option (PathMappingNode η ℓ)) :
    findChild want (ls.map g) found =
      if want ∈ ls then some (g want)
      else if asterisk ∈ ls then some (g asterisk) else found := by
  induction ls generalizing found with
  | nil => simp [findChild]
  | cons x ls ih =>
    rw [List.map_cons, findChild, hg, ih]
    by_cases hwant : x = want
    · simp [hwant]
    · by_cases hstar : x = asterisk
      · subst hstar
        simp [hwant, Ne.symm hwant]
      · simp [hstar, hwant, Ne.symm hwant, Ne.symm hstar]

/-- The node that the elements of patterns lead to. -/
def nodeAt (rs : List (Registration η ℓ)) (q : List Str) : PathMappingNode η ℓ :=
  Change.grow {} (Change.after q (rs.map Registration.change)) (q.getLast?.getD [])

theorem label_nodeAt_append (q : List Str) (e : Str) : (nodeAt rs (q ++ [e])).label = e := by
  rw [nodeAt, Change.label_grow, List.getLast?_append, List.getLast?_singleton]
  rfl

theorem children_nodeAt (q : List Str) :
    (nodeAt rs q).children =
      (Change.firsts (Change.after q (rs.map Registration.change))).map
        fun e ↦ nodeAt rs (q ++ [e]) := by
  rw [nodeAt, Change.children_grow]
  apply List.map_congr_left
  intro e _
  rw [nodeAt, Change.after_append_singleton, List.getLast?_append, List.getLast?_singleton]
  rfl

theorem findChild_nodeAt (want : Str) (q : List Str) :
    findChild want (nodeAt rs q).children none =
      if Leads (patterns rs) (q ++ [want]) then some (nodeAt rs (q ++ [want]))
      else if Leads (patterns rs) (q ++ [asterisk]) then some (nodeAt rs (q ++ [asterisk]))
      else none := by
  rw [children_nodeAt, findChild_map want (label_nodeAt_append q)]
  simp only [mem_firsts_after]

/-- The way down keeps step with the patterns. -/
theorem descend_nodeAt (path q wildcards : List Str) :
    descend path (nodeAt rs q) wildcards =
      (matchPath (patterns rs) q wildcards path).map fun r ↦ (nodeAt rs r.1, r.2) := by
  induction path generalizing q wildcards with
  | nil => rfl
  | cons e path ih =>
    rw [descend, matchPath, findChild_nodeAt]
    by_cases hexact : Leads (patterns rs) (q ++ [e])
    · simp only [if_pos hexact, label_nodeAt_append, ih]
    · rw [if_neg hexact, if_neg hexact]
      by_cases hstar : Leads (patterns rs) (q ++ [asterisk])
      · simp only [if_pos hstar, label_nodeAt_append, ih, if_true]
      · simp only [if_neg hstar, Option.map_none]

/-- As many elements are matched as the pattern has wildcards. -/
theorem length_of_matchPath {ps : List (List Str)} {path q wildcards q' wildcards' : List Str}
    (hrun : matchPath ps q wildcards path = some (q', wildcards'))
    (hlength : wildcards.length = q.count asterisk) :
    wildcards'.length = q'.count asterisk := by
  induction path generalizing q wildcards with
  | nil =>
    cases hrun
    exact hlength
  | cons e path ih =>
    rw [matchPath] at hrun
    split at hrun
    · apply ih hrun
      by_cases he : e = asterisk
      · simp [he, hlength]
      · simp [he, hlength]
    · split at hrun
      · exact ih hrun (by simp [hlength])
      · cases hrun

/-- What a path comes to is where it started, or there is a pattern that leads there. -/
theorem leads_of_matchPath {ps : List (List Str)} {path q wildcards q' wildcards' : List Str}
    (hrun : matchPath ps q wildcards path = some (q', wildcards')) :
    (path = [] ∧ q' = q) ∨ Leads ps q' := by
  induction path generalizing q wildcards with
  | nil =>
    cases hrun
    exact Or.inl ⟨rfl, rfl⟩
  | cons e path ih =>
    right
    rw [matchPath] at hrun
    split at hrun
    · next hleads =>
      rcases ih hrun with ⟨-, rfl⟩ | h
      · exact hleads
      · exact h
    · split at hrun
      · next hleads =>
        rcases ih hrun with ⟨-, rfl⟩ | h
        · exact hleads
        · exact h
      · cases hrun

/-! ## What a node holds -/

/-- The registrations for a pattern, one after the other. -/
theorem value_nodeAt (q : List Str) :
    (nodeAt rs q).value =
      rs.foldl (fun m r ↦ if r.elements = q then r.change.2 m else m) {} := by
  rw [nodeAt, Change.value_grow, Change.own_after, List.foldl_map]
  simp only [change_fst]

theorem Registration.listerFor_of_ne {r : Registration η ℓ} {q : List Str}
    (h : r.elements ≠ q) : r.listerFor q = none := by
  cases r with
  | addFile path n handler => rfl
  | addLister path n lister => exact if_neg h

theorem listerAt_append_singleton (r : Registration η ℓ) (q : List Str) :
    listerAt (rs ++ [r]) q = (r.listerFor q).or (listerAt rs q) := by
  rw [listerAt, List.filterMap_append, List.getLast?_append]
  congr 1
  cases hr : r.listerFor q <;> simp [hr]

/-- Without a file, a node has the last of the listers, with the number of wildcards that lead to
it. -/
theorem lister_nodeAt (harity : ∀ r ∈ rs, r.wildcards = r.elements.count asterisk) {q : List Str}
    (hq : ∀ r ∈ rs, r.isFile → r.elements ≠ q) :
    (nodeAt rs q).value.lister = listerAt rs q ∧
      ((listerAt rs q).isSome → (nodeAt rs q).value.numParams = q.count asterisk) := by
  rw [value_nodeAt]
  induction rs using List.reverseRecOn with
  | nil => exact ⟨rfl, fun h ↦ by cases h⟩
  | append_singleton rs r ih =>
    obtain ⟨hlister, hparams⟩ := ih (fun s hs ↦ harity s (List.mem_append_left _ hs))
      fun s hs ↦ hq s (List.mem_append_left _ hs)
    have hmem : r ∈ rs ++ [r] := List.mem_append_right _ (List.mem_singleton_self r)
    rw [listerAt_append_singleton, List.foldl_append, List.foldl_cons, List.foldl_nil]
    by_cases heq : r.elements = q
    · cases r with
      | addFile path n handler => exact absurd heq (hq _ hmem rfl)
      | addLister path n lister =>
        have hpath : path.pathStack.elements = q := heq
        rw [if_pos heq, Registration.listerFor, if_pos hpath]
        constructor
        · rfl
        · intro _
          rw [← heq]
          exact harity _ hmem
    · rw [if_neg heq, Registration.listerFor_of_ne heq]
      exact ⟨hlister, hparams⟩

theorem foldl_change_of_ne {q : List Str} (h : ∀ r ∈ rs, r.elements ≠ q) (m : PathMapping η ℓ) :
    rs.foldl (fun m r ↦ if r.elements = q then r.change.2 m else m) m = m := by
  induction rs with
  | nil => rfl
  | cons r rs ih =>
    rw [List.foldl_cons, if_neg (h r List.mem_cons_self)]
    exact ih fun s hs ↦ h s (List.mem_cons_of_mem r hs)

/-- The node of a file holds what the file is registered with, and nothing is below it. -/
theorem file_nodeAt (hapart : rs.Pairwise Registration.Apart) {path : Path} {n : Fin 3}
    {handler : η} (hmem : .addFile path n handler ∈ rs) :
    (nodeAt rs path.pathStack.elements).value = { numParams := n, handler := some handler } ∧
      (nodeAt rs path.pathStack.elements).children = [] := by
  obtain ⟨before, behind, rfl⟩ := List.append_of_mem hmem
  obtain ⟨-, hfile, hbefore⟩ := List.pairwise_append.mp hapart
  have hbehind := (List.pairwise_cons.mp hfile).1
  constructor
  · have hne : ∀ r ∈ behind, r.elements ≠ path.pathStack.elements := by
      intro r hr heq
      apply (hbehind r hr).1 rfl
      rw [heq]
      exact List.prefix_refl _
    have hself : (Registration.addFile path n handler : Registration η ℓ).elements =
        path.pathStack.elements := rfl
    rw [value_nodeAt, List.foldl_append, List.foldl_cons, foldl_change_of_ne hne, if_pos hself]
    rfl
  · have hnone : Change.firsts (Change.after path.pathStack.elements
        ((before ++ .addFile path n handler :: behind).map Registration.change)) = [] := by
      rw [List.eq_nil_iff_forall_not_mem]
      intro e he
      obtain ⟨p, hp, hprefix⟩ := mem_firsts_after.mp he
      obtain ⟨r, hr, rfl⟩ := List.mem_map.mp hp
      have hbegins := (List.prefix_append path.pathStack.elements [e]).trans hprefix
      rcases List.mem_append.mp hr with hr | hr
      · exact (hbefore r hr _ List.mem_cons_self).2 rfl hbegins
      · rcases List.mem_cons.mp hr with rfl | hr
        · have hle := hprefix.length_le
          rw [List.length_append, List.length_singleton] at hle
          exact absurd hle (Nat.not_succ_le_self _)
        · exact (hbehind r hr).1 rfl hbegins
    rw [children_nodeAt, hnone, List.map_nil]

/-! ## Files and directories -/

theorem takeParams_self (wildcards : List Str) :
    takeParams wildcards.length wildcards = some wildcards := by
  rw [takeParams, if_pos (Nat.le_refl _), List.take_length]

theorem openNode_file (h : WellFormed rs) {path : Path} {n : Fin 3} {handler : η}
    (hmem : .addFile path n handler ∈ rs) {wildcards : List Str}
    (hlength : wildcards.length = path.pathStack.elements.count asterisk) :
    openNode (nodeAt rs path.pathStack.elements) wildcards = .handled handler wildcards := by
  obtain ⟨hvalue, hchildren⟩ := file_nodeAt h.apart hmem
  have hn : (n : Nat) = wildcards.length := (h.arity _ hmem).trans hlength.symm
  have hle : ¬2 < (n : Nat) := Nat.not_lt.mpr (Nat.le_of_lt_succ n.isLt)
  have hfile : openNode (nodeAt rs path.pathStack.elements) wildcards =
      openFile { numParams := n, handler := some handler } wildcards := by
    rw [openNode, hvalue, hchildren]
    exact if_pos ⟨rfl, rfl⟩
  rw [hfile, openFile, if_neg hle, hn, takeParams_self]

theorem exists_of_listerAt {q : List Str} {lister : ℓ} (h : listerAt rs q = some lister) :
    ∃ path n, .addLister path n lister ∈ rs ∧ path.pathStack.elements = q := by
  have hmem := List.mem_of_getLast? h
  obtain ⟨r, hr, hlister⟩ := List.mem_filterMap.mp hmem
  cases r with
  | addFile path n handler => cases hlister
  | addLister path n l =>
    rw [Registration.listerFor] at hlister
    split at hlister
    · next helements =>
      cases hlister
      exact ⟨path, n, hr, helements⟩
    · cases hlister

/-- A directory has a child or a lister. -/
theorem not_leaf {q : List Str} (hleads : Leads (patterns rs) q)
    (hq : ∀ r ∈ rs, r.isFile → r.elements ≠ q)
    (hchildren : (nodeAt rs q).children = []) : listerAt rs q ≠ none := by
  obtain ⟨p, hp, rest, hrest⟩ := hleads
  obtain ⟨r, hr, rfl⟩ := List.mem_map.mp hp
  cases rest with
  | nil =>
    rw [List.append_nil] at hrest
    cases r with
    | addFile path n handler => exact absurd hrest.symm (hq _ hr rfl)
    | addLister path n lister =>
      intro hnone
      have hmem : lister ∈ rs.filterMap (Registration.listerFor q) := by
        rw [List.mem_filterMap]
        exact ⟨_, hr, if_pos hrest.symm⟩
      rw [listerAt, List.getLast?_eq_none_iff] at hnone
      rw [hnone] at hmem
      exact absurd hmem List.not_mem_nil
  | cons e rest =>
    have he : e ∈ Change.firsts (Change.after q (rs.map Registration.change)) := by
      rw [mem_firsts_after]
      exact ⟨r.elements, hp, rest, by rw [← hrest, List.append_assoc, List.singleton_append]⟩
    rw [children_nodeAt, List.map_eq_nil_iff] at hchildren
    rw [hchildren] at he
    exact absurd he List.not_mem_nil

/-- The children that a directory names. -/
def names (rs : List (Registration η ℓ)) (q : List Str) : List Str :=
  (Change.firsts (Change.after q (rs.map Registration.change))).filter (· ≠ asterisk)

theorem nodup_names (q : List Str) : (names rs q).Nodup := Change.nodup_firsts.filter _

theorem mem_names {q : List Str} {name : Str} : name ∈ names rs q ↔ Named rs q name := by
  rw [names, List.mem_filter, mem_firsts_after, decide_eq_true_eq]
  exact and_comm

theorem openNode_directory (harity : ∀ r ∈ rs, r.wildcards = r.elements.count asterisk)
    {q wildcards : List Str} (hleads : Leads (patterns rs) q)
    (hq : ∀ r ∈ rs, r.isFile → r.elements ≠ q)
    (hlength : wildcards.length = q.count asterisk) :
    openNode (nodeAt rs q) wildcards =
      .directory ((names rs q).map childEntry)
        ((listerAt rs q).map fun lister ↦ (lister, wildcards)) := by
  obtain ⟨hlister, hparams⟩ := lister_nodeAt harity hq
  have hnames : ((nodeAt rs q).children.map PathTree.label).filter (· ≠ asterisk) =
      names rs q := by
    rw [children_nodeAt, List.map_map]
    simp only [Function.comp_def, label_nodeAt_append, List.map_id']
    rfl
  have hdirectory : openNode (nodeAt rs q) wildcards = openDirectory (nodeAt rs q) wildcards := by
    rw [openNode, if_neg]
    rintro ⟨hchildren, hnone⟩
    rw [hlister, Option.isNone_iff_eq_none] at hnone
    exact not_leaf hleads hq (List.isEmpty_iff.mp hchildren) hnone
  rw [hdirectory, openDirectory, hnames, hlister]
  cases hat : listerAt rs q with
  | none => rfl
  | some lister =>
    obtain ⟨path, n, hmem, helements⟩ := exists_of_listerAt hat
    have hn : (n : Nat) = q.count asterisk := helements ▸ harity _ hmem
    have hle : ¬1 < wildcards.length := by
      rw [hlength, ← hn]
      exact Nat.not_lt.mpr (Nat.le_of_lt_succ n.isLt)
    have hnum := hparams (hat ▸ rfl)
    simp only [hnum, ← hlength, if_neg hle, takeParams_self, Option.map_some]

/-- `CreateIOHandler` at whatever the patterns come to. -/
theorem openPath_eq (hapart : rs.Pairwise Registration.Apart)
    (hroot : ∀ r ∈ rs, r.isFile → r.elements ≠ []) (path : Path) :
    openPath (pathMappingRoot rs) path =
      (matchPath (patterns rs) [] [] path.pathStack.elements).elim .null
        fun r ↦ openNode (nodeAt rs r.1) r.2 := by
  have hnode : pathMappingRoot rs = nodeAt rs [] := pathMappingRoot_eq hapart hroot
  rw [openPath, hnode, descend_nodeAt]
  cases matchPath (patterns rs) [] [] path.pathStack.elements <;> rfl

/-- A path comes to a file: the routine registered for it, and the elements matched. -/
def Reaches (rs : List (Registration η ℓ)) (path : List Str) (handler : η) (params : List Str) :
    Prop :=
  ∃ p n, .addFile p n handler ∈ rs ∧
    matchPath (patterns rs) [] [] path = some (p.pathStack.elements, params)

theorem Reaches.arity (harity : ∀ r ∈ rs, r.wildcards = r.elements.count asterisk)
    {path : List Str} {handler : η} {params : List Str} (h : Reaches rs path handler params) :
    ∃ (p : Path) (n : Fin 3), .addFile p n handler ∈ rs ∧ params.length = n := by
  obtain ⟨p, n, hmem, hmatch⟩ := h
  exact ⟨p, n, hmem, (length_of_matchPath hmatch rfl).trans (harity _ hmem).symm⟩

theorem openPath_of_reaches (h : WellFormed rs) (hroot : ∀ r ∈ rs, r.isFile → r.elements ≠ [])
    {path : Path} {handler : η} {params : List Str}
    (hreaches : Reaches rs path.pathStack.elements handler params) :
    openPath (pathMappingRoot rs) path = .handled handler params := by
  obtain ⟨p, n, hmem, hmatch⟩ := hreaches
  rw [openPath_eq h.apart hroot, hmatch, Option.elim_some]
  exact openNode_file h hmem (length_of_matchPath hmatch rfl)

/-- A path that comes to no file comes to nothing, or to a directory whose lister, if there is one,
gets as many parameters as it is registered with. -/
theorem openPath_cases (h : WellFormed rs) (hroot : ∀ r ∈ rs, r.isFile → r.elements ≠ [])
    (hne : rs ≠ []) (path : Path) :
    (∃ handler params, Reaches rs path.pathStack.elements handler params) ∨
      openPath (pathMappingRoot rs) path = .null ∨
      (∃ children, openPath (pathMappingRoot rs) path = .directory children none) ∨
      ∃ (children : List StaticEntry) (lister : ℓ) (params : List Str) (p : Path) (n : Fin 2),
        openPath (pathMappingRoot rs) path = .directory children (some (lister, params)) ∧
          .addLister p n lister ∈ rs ∧ params.length = n := by
  rw [openPath_eq h.apart hroot]
  cases hmatch : matchPath (patterns rs) [] [] path.pathStack.elements with
  | none => exact Or.inr (Or.inl rfl)
  | some r =>
    obtain ⟨q, wildcards⟩ := r
    have hlength := length_of_matchPath hmatch rfl
    by_cases hq : ∀ r ∈ rs, r.isFile → r.elements ≠ q
    · have hleads : Leads (patterns rs) q := by
        rcases leads_of_matchPath hmatch with ⟨-, rfl⟩ | hleads
        · obtain ⟨r, hr⟩ := List.exists_mem_of_ne_nil rs hne
          exact ⟨r.elements, List.mem_map_of_mem hr, List.nil_prefix⟩
        · exact hleads
      right
      right
      rw [Option.elim_some, openNode_directory h.arity hleads hq hlength]
      cases hat : listerAt rs q with
      | none => exact Or.inl ⟨_, rfl⟩
      | some lister =>
        obtain ⟨p, n, hmem, rfl⟩ := exists_of_listerAt hat
        exact Or.inr ⟨_, _, _, p, n, rfl, hmem, hlength.trans (h.arity _ hmem).symm⟩
    · push Not at hq
      obtain ⟨r, hr, hfile, rfl⟩ := hq
      cases r with
      | addLister p n lister => cases hfile
      | addFile p n handler => exact Or.inl ⟨handler, wildcards, p, n, hr, hmatch⟩

/-- Names are listed as they are if and only if there is room for all of them. -/
theorem lists_iff (q wildcards : List Str) :
    Lists rs q wildcards (.directory ((names rs q).map childEntry)
        ((listerAt rs q).map fun lister ↦ (lister, wildcards))) ↔
      ∀ name, Named rs q name → name.length ≤ 255 := by
  constructor
  · rintro ⟨listed, -, hlisted, heq⟩ name hname
    injection heq with hentries
    have hmem : (⟨0, 0, name⟩ : StaticEntry) ∈ (names rs q).map childEntry := by
      rw [hentries]
      exact List.mem_map_of_mem ((hlisted name).mpr hname)
    obtain ⟨other, -, hother⟩ := List.mem_map.mp hmem
    injection hother with _ _ htake
    rw [← htake, List.length_take]
    exact Nat.min_le_left _ _
  · intro hshort
    refine ⟨names rs q, nodup_names q, fun name ↦ mem_names, ?_⟩
    congr 1
    apply List.map_congr_left
    intro name hname
    rw [childEntry, List.take_of_length_le (hshort name (mem_names.mp hname))]

end Tree

section Dispatch

variable {η ℓ : Type} {rs : List (Registration η ℓ)}

/-- A file registered for the root, which nothing else can be registered with. -/
theorem eq_singleton_of_root (h : WellFormed rs) {r : Registration η ℓ} (hr : r ∈ rs)
    (hfile : r.isFile) (hnil : r.elements = []) : rs = [r] := by
  obtain ⟨before, behind, rfl⟩ := List.append_of_mem hr
  obtain ⟨-, hrest, hbefore⟩ := List.pairwise_append.mp h.apart
  have hbehind := (List.pairwise_cons.mp hrest).1
  have hbefore_nil : before = [] := by
    rw [List.eq_nil_iff_forall_not_mem]
    intro s hs
    apply (hbefore s hs r List.mem_cons_self).2 hfile
    rw [hnil]
    exact List.nil_prefix
  have hbehind_nil : behind = [] := by
    rw [List.eq_nil_iff_forall_not_mem]
    intro s hs
    apply (hbehind s hs).1 hfile
    rw [hnil]
    exact List.nil_prefix
  rw [hbefore_nil, hbehind_nil, List.nil_append]

/-- The root has something registered in it, besides a file. -/
def HasRoot (rs : List (Registration η ℓ)) : Prop := ∃ r ∈ rs, ¬r.isFile ∨ r.elements ≠ []

/-- The names of the children fit into an entry, if the path comes to a directory. -/
def NamesFit (rs : List (Registration η ℓ)) (path : List Str) : Prop :=
  ∀ q wildcards, matchPath (patterns rs) [] [] path = some (q, wildcards) →
    (∀ r ∈ rs, r.isFile → r.elements ≠ q) → ∀ name, Named rs q name → name.length ≤ 255

/-- At a file, its handler is called. -/
theorem dispatches_file (h : WellFormed rs) {path q wildcards : List Str}
    (hmatch : matchPath (patterns rs) [] [] path = some (q, wildcards))
    {r : Registration η ℓ} (hr : r ∈ rs) (hfile : r.isFile) (hq : r.elements = q) :
    Dispatches rs path (openNode (nodeAt rs q) wildcards) := by
  have hlength := length_of_matchPath hmatch rfl
  rw [Dispatches, hmatch]
  constructor
  · rintro p n handler hmem rfl
    exact openNode_file h hmem hlength
  · intro hnone
    exact absurd hq (hnone r hr hfile)

/-- Elsewhere, a directory is made up. -/
theorem dispatches_directory (h : WellFormed rs) {path q wildcards : List Str}
    (hmatch : matchPath (patterns rs) [] [] path = some (q, wildcards))
    (hleads : Leads (patterns rs) q) (hq : ∀ r ∈ rs, r.isFile → r.elements ≠ q) :
    Dispatches rs path (openNode (nodeAt rs q) wildcards) ↔ NamesFit rs path := by
  have hfit : NamesFit rs path ↔ ∀ name, Named rs q name → name.length ≤ 255 := by
    constructor
    · intro hfit
      exact hfit q wildcards hmatch hq
    · rintro hshort q' wildcards' hmatch' -
      rw [hmatch] at hmatch'
      cases hmatch'
      exact hshort
  rw [hfit, Dispatches, hmatch,
    openNode_directory h.arity hleads hq (length_of_matchPath hmatch rfl), ← lists_iff q wildcards]
  constructor
  · rintro ⟨-, hlists⟩
    exact hlists hq
  · intro hlists
    constructor
    · intro p n handler hmem helements
      exact absurd helements (hq _ hmem rfl)
    · exact fun _ ↦ hlists

theorem namesFit_of_file {path q wildcards : List Str}
    (hmatch : matchPath (patterns rs) [] [] path = some (q, wildcards))
    {r : Registration η ℓ} (hr : r ∈ rs) (hfile : r.isFile) (hq : r.elements = q) :
    NamesFit rs path := by
  intro q' wildcards' hmatch' hnone
  rw [hmatch] at hmatch'
  cases hmatch'
  exact absurd hq (hnone r hr hfile)

theorem namesFit_of_none {path : List Str} (hmatch : matchPath (patterns rs) [] [] path = none) :
    NamesFit rs path := by
  intro q wildcards hsome
  rw [hmatch] at hsome
  cases hsome

/-- The root without anything registered: its handler is a null pointer. -/
theorem not_dispatches_nothing :
    ¬Dispatches ([] : List (Registration η ℓ)) [] (openNode (nodeAt [] []) []) := by
  rintro ⟨-, hlists⟩
  obtain ⟨listed, -, -, heq⟩ := hlists fun r hr ↦ absurd hr List.not_mem_nil
  cases heq

theorem hasRoot_of_ne_nil (hroot : ∀ r ∈ rs, r.isFile → r.elements ≠ []) (hne : rs ≠ []) :
    HasRoot rs := by
  obtain ⟨r, hr⟩ := List.exists_mem_of_ne_nil rs hne
  refine ⟨r, hr, ?_⟩
  by_cases hfile : r.isFile
  · exact Or.inr (hroot r hr hfile)
  · exact Or.inl hfile

/-- Where no file is registered for the root, all goes by the patterns, unless there are none. -/
theorem dispatches_of_no_root_file (h : WellFormed rs)
    (hroot : ∀ r ∈ rs, r.isFile → r.elements ≠ []) (path : Path) :
    Dispatches rs path.pathStack.elements (openPath (pathMappingRoot rs) path) ↔
      (path.pathStack.elements = [] → HasRoot rs) ∧ NamesFit rs path.pathStack.elements := by
  have hsome := hasRoot_of_ne_nil hroot
  rw [openPath_eq h.apart hroot]
  generalize path.pathStack.elements = elements
  cases hmatch : matchPath (patterns rs) [] [] elements with
  | none =>
    have hne : elements ≠ [] := by
      rintro rfl
      cases hmatch
    rw [Dispatches, hmatch]
    exact iff_of_true rfl ⟨fun hnil ↦ absurd hnil hne, namesFit_of_none hmatch⟩
  | some r =>
    obtain ⟨q, wildcards⟩ := r
    rw [Option.elim_some]
    by_cases hq : ∀ r ∈ rs, r.isFile → r.elements ≠ q
    · by_cases hleads : Leads (patterns rs) q
      · have hne : rs ≠ [] := by
          rintro rfl
          obtain ⟨p, hp, -⟩ := hleads
          cases hp
        rw [dispatches_directory h hmatch hleads hq]
        exact ⟨fun hfit ↦ ⟨fun _ ↦ hsome hne, hfit⟩, And.right⟩
      · -- only without patterns is there none that leads to the root
        obtain ⟨rfl, rfl⟩ := (leads_of_matchPath hmatch).resolve_right hleads
        obtain rfl : rs = [] := by
          rw [List.eq_nil_iff_forall_not_mem]
          intro r hr
          exact hleads ⟨r.elements, List.mem_map_of_mem hr, List.nil_prefix⟩
        cases hmatch
        apply iff_of_false not_dispatches_nothing
        rintro ⟨hhas, -⟩
        obtain ⟨r, hr, -⟩ := hhas rfl
        cases hr
    · push Not at hq
      obtain ⟨r, hr, hfile, helements⟩ := hq
      exact iff_of_true (dispatches_file h hmatch hr hfile helements)
        ⟨fun _ ↦ hsome (List.ne_nil_of_mem hr), namesFit_of_file hmatch hr hfile helements⟩

/-- A file registered for the root hangs below it, under the name `""`, which no path has. -/
theorem dispatches_of_root_file {p : Path} {n : Fin 3} {handler : η}
    (hnil : p.pathStack.elements = []) (path : Path) :
    Dispatches [(.addFile p n handler : Registration η ℓ)] path.pathStack.elements
        (openPath (pathMappingRoot [.addFile p n handler]) path) ↔
      path.pathStack.elements ≠ [] := by
  have hroot : pathMappingRoot [(.addFile p n handler : Registration η ℓ)] =
      .node [] {} [.leaf [] { numParams := n, handler := some handler }] := by
    rw [pathMappingRoot, List.foldl_cons, List.foldl_nil, register, addFileInternal, hnil]
    rfl
  have hpatterns : patterns [(.addFile p n handler : Registration η ℓ)] = [[]] :=
    congrArg (fun elements ↦ [elements]) hnil
  rw [openPath, hroot, Dispatches, hpatterns]
  cases hpath : path.pathStack.elements with
  | nil =>
    constructor
    · rintro ⟨hhandled, -⟩
      cases hhandled p n handler (List.mem_singleton_self _) hnil
    · exact fun h ↦ absurd rfl h
  | cons e rest =>
    have he : [] ≠ e := by
      have helement := path.pathStack.isElement e (hpath ▸ List.mem_cons_self)
      exact helement.ne_nil.symm
    have hleads (x : Str) : ¬Leads [[]] [x] := by
      rintro ⟨p, hp, hprefix⟩
      rw [List.mem_singleton.mp hp] at hprefix
      exact absurd hprefix.length_le (Nat.not_succ_le_zero 0)
    have hscan : findChild e [(.leaf [] { numParams := n, handler := some handler } :
        PathMappingNode η ℓ)] none = none := by
      rw [findChild, PathTree.leaf, PathTree.label_node, if_neg he]
      rfl
    rw [descend, PathTree.children_node, hscan, matchPath, List.nil_append, List.nil_append,
      if_neg (hleads e), if_neg (hleads asterisk)]
    simp

/-- Generated file systems dispatch by their patterns, as long as there is something in the root to
be opened and no name is too long. -/
theorem dispatches_iff (h : WellFormed rs) (t : MountTable) (unixPwd path : Path) :
    Dispatches rs (fsPath t unixPwd path).pathStack.elements
        (createIOHandler t unixPwd (pathMappingRoot rs) path) ↔
      ((fsPath t unixPwd path).pathStack.elements = [] → HasRoot rs) ∧
        NamesFit rs (fsPath t unixPwd path).pathStack.elements := by
  rw [createIOHandler]
  generalize fsPath t unixPwd path = path
  by_cases hroot : ∀ r ∈ rs, r.isFile → r.elements ≠ []
  · exact dispatches_of_no_root_file h hroot path
  · push Not at hroot
    obtain ⟨r, hr, hfile, hnil⟩ := hroot
    obtain rfl := eq_singleton_of_root h hr hfile hnil
    cases r with
    | addLister p n lister => cases hfile
    | addFile p n handler =>
      rw [dispatches_of_root_file hnil]
      constructor
      · intro hne
        constructor
        · exact fun heq ↦ absurd heq hne
        · -- no name is behind the empty pattern
          rintro q - - - name ⟨-, elements, helements, hprefix⟩
          obtain ⟨s, hs, rfl⟩ := List.mem_map.mp helements
          rw [List.mem_singleton.mp hs, hnil, List.prefix_nil] at hprefix
          exact absurd hprefix (List.append_ne_nil_of_right_ne_nil q (List.cons_ne_nil name []))
      · rintro ⟨hhas, -⟩ heq
        obtain ⟨s, hs, h⟩ := hhas heq
        rw [List.mem_singleton.mp hs] at h
        rcases h with h | h
        · exact h rfl
        · exact h hnil

end Dispatch

/-! ## Mounted on `/proc` -/

/-- `"/proc"`. -/
def procDir : Str := [0x2F, 0x70, 0x72, 0x6F, 0x63]

/-- A generated file system on `/proc`. -/
def procTable : MountTable where
  rootMountPoint := { unixMountPoint := ElementList.nil, destination := [], filesystem := .keow }
  mountPoints :=
    [{ unixMountPoint := ⟨[[0x70, 0x72, 0x6F, 0x63]], by decide⟩
       destination := []
       filesystem := .proc }]
  host := { fileExists := fun _ ↦ false, shortcutTarget := fun _ ↦ [] }

/-- The paths `/` and `/*` as patterns. -/
def rootPattern : Path := ofString procTable {} [slash]

def anyPattern : Path := ofString procTable {} [slash, 0x2A]

/-- `/proc/1`, where `/*` is registered. -/
theorem dispatches_any :
    WellFormed [(.addFile anyPattern 1 () : Registration Unit Unit)] ∧
      Dispatches [(.addFile anyPattern 1 () : Registration Unit Unit)]
        (fsPath procTable {} (ofString procTable {} (procDir ++ [slash, 0x31]))).pathStack.elements
        (createIOHandler procTable {} (pathMappingRoot [.addFile anyPattern 1 ()])
          (ofString procTable {} (procDir ++ [slash, 0x31]))) := by
  have hformed : WellFormed [(.addFile anyPattern 1 () : Registration Unit Unit)] := by
    constructor
    · intro r hr
      rw [List.mem_singleton.mp hr]
      decide
    · exact List.pairwise_singleton _ _
  have helements : (fsPath procTable {} (ofString procTable {}
      (procDir ++ [slash, 0x31]))).pathStack.elements = [[0x31]] := by decide
  constructor
  · exact hformed
  · apply (dispatches_iff hformed procTable {} _).mpr
    rw [helements]
    constructor
    · exact fun hnil ↦ absurd hnil (List.cons_ne_nil _ _)
    · rintro q wildcards hmatch hnone
      have hreached : matchPath (patterns [(.addFile anyPattern 1 () : Registration Unit Unit)])
          [] [] [[0x31]] = some ([asterisk], [[0x31]]) := by decide
      rw [hreached] at hmatch
      cases hmatch
      exact absurd (by decide) (hnone _ (List.mem_singleton_self _) rfl)

/-- A file registered for `/` is not opened. -/
theorem not_dispatches_root :
    WellFormed [(.addFile rootPattern 0 () : Registration Unit Unit)] ∧
      ¬Dispatches [(.addFile rootPattern 0 () : Registration Unit Unit)]
        (fsPath procTable {} (ofString procTable {} procDir)).pathStack.elements
        (createIOHandler procTable {} (pathMappingRoot [.addFile rootPattern 0 ()])
          (ofString procTable {} procDir)) := by
  constructor
  · constructor
    · intro r hr
      rw [List.mem_singleton.mp hr]
      decide
    · exact List.pairwise_singleton _ _
  · intro h
    have helements : rootPattern.pathStack.elements = [] := by decide
    have hne := (dispatches_of_root_file helements _).mp h
    exact hne (by decide)

end Keow.Files.GenericStatic
