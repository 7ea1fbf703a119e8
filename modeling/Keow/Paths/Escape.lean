import Keow.Base.Moves
import Keow.Paths.Innermost

/-!
# Where a resolved path leads on the Win32 side

`Path::GetWin32Path` hands Windows the destination of the mount followed by the elements
below it. Elements were cut at slashes only (`Path.cpp:138–149`), while Windows also
separates at backslashes, so one element can stand for several moves.
-/

namespace Keow.Paths

open Keow.Base

/-- Both characters separate components for Windows. -/
def isWinSeparator (c : UInt8) : Bool := c == slash || c == backslash

/-- `':'`. -/
def colon : UInt8 := 0x3A

/-- Cut off a leading drive designator. -/
def splitDrive : Str → Option UInt8 × Str
  | d :: c :: rest =>
      if !isWinSeparator d && c == colon then (some d, rest) else (none, d :: c :: rest)
  | s => (none, s)

/-- How far `..` can climb in the part behind the drive: not above the root of a drive, not
out of the server and share of a UNC name, and freely in a relative name. -/
def winFloor (drive : Option UInt8) (rest : Str) : Option Nat :=
  match drive, rest with
  | some _, c :: _ => if isWinSeparator c then some 0 else none
  | some _, [] => none
  | none, [] => none
  | none, [c] => if isWinSeparator c then some 0 else none
  | none, c :: c' :: _ =>
      if isWinSeparator c then (if isWinSeparator c' then some 2 else some 0) else none

/-- The move a component stands for: none for an empty one and for `.`. -/
def winMove (component : Str) : Option (Move Str) :=
  if component = [] ∨ component = dot then none
  else if component = dotdot then some .up
  else some (.down component)

/-- The moves spelled by a string, cut at both separators. -/
def winMoves (s : Str) : List (Move Str) := (s.splitOnP isWinSeparator).filterMap winMove

/-- A Win32 name resolved: its drive, if it names one, and the place it leads to. -/
structure WinPlace where
  drive : Option UInt8
  place : Place Str
deriving DecidableEq

/-- `.` and `..` resolved as Windows resolves them. -/
def resolveWin32 (s : Str) : WinPlace :=
  let (drive, rest) := splitDrive s
  ⟨drive, Place.walk (winFloor drive rest) Place.here (winMoves rest)⟩

/-- `d` is a component-wise prefix of `p`. -/
def WinPlace.IsPrefix (d p : WinPlace) : Prop := d.drive = p.drive ∧ d.place.IsAbove p.place

instance (d p : WinPlace) : Decidable (d.IsPrefix p) :=
  inferInstanceAs (Decidable (_ ∧ d.place.ups = p.place.ups ∧ d.place.names <+: p.place.names))

/-- The win32 path of a resolved path lies in the destination of the mount it resolved to. -/
def StaysInMount (t : MountTable) (q : Path) : Prop :=
  ∃ m, q.finalMountPoint = some m ∧
    (resolveWin32 m.destination).IsPrefix (resolveWin32 (q.getWin32Path t))

/-- The moves spelled by the elements below the mount, each cut at its backslashes. -/
def elementMoves (elements : List Str) : List (Move Str) := elements.flatMap winMoves

/-- The element stack that `SetUnixPath` builds. -/
def unixStack (t : MountTable) (unixPwd : Path) (path : Str) : List Str :=
  appendPath
    (if path.getD 0 0 = slash then [] else appendPath [] (unixPwd.getUnixPath t)) path

/-- Whatever the elements below a mount climb out of its destination, they re-enter. Climbing
is bounded by the root of the destination's drive or share. -/
def ElementsReturn (destination : Str) (elements : List Str) : Prop :=
  Place.Returns
    (winFloor (splitDrive destination).1 ((splitDrive destination).2 ++ [slash]))
    (resolveWin32 destination).place (elementMoves elements)

theorem isWinSeparator_getPathSeperator (fs : Filesystem) :
    isWinSeparator fs.getPathSeperator = true := by
  cases fs <;> rfl

theorem winMoves_append_sep {c : UInt8} (hc : isWinSeparator c = true) (s s' : Str) :
    winMoves (s ++ c :: s') = winMoves s ++ winMoves s' := by
  rw [winMoves, List.splitOnP_append_cons _ _ hc, List.filterMap_append]
  rfl

@[simp] theorem winMoves_nil : winMoves [] = [] := rfl

theorem winMoves_flatMap {c : UInt8} (hc : isWinSeparator c = true) (s : Str)
    (elements : List Str) :
    winMoves (s ++ elements.flatMap (fun e ↦ c :: e)) = winMoves s ++ elementMoves elements := by
  induction elements generalizing s with
  | nil => simp [elementMoves]
  | cons e es ih =>
    rw [List.flatMap_cons, List.cons_append, winMoves_append_sep hc, ih]
    simp [elementMoves]

/-- Appending a separator and more leaves the drive alone. -/
theorem splitDrive_append {c : UInt8} (hc : isWinSeparator c = true) (s tail : Str) :
    splitDrive (s ++ c :: tail) = ((splitDrive s).1, (splitDrive s).2 ++ c :: tail) := by
  match s with
  | [] =>
    cases tail with
    | nil => rfl
    | cons c' tail => simp [splitDrive, hc]
  | [d] =>
    have hne : (c == colon) = false := by
      rcases Bool.or_eq_true _ _ ▸ hc with h | h <;> rw [beq_iff_eq.mp h] <;> rfl
    simp [splitDrive, hne]
  | d :: e :: rest =>
    simp only [splitDrive, List.cons_append]
    split <;> rfl

/-- A trailing separator, and what follows it, settles how far a name can be climbed. -/
theorem winFloor_append {c : UInt8} (hc : isWinSeparator c = true) {drive : Option UInt8}
    {rest : Str} (h : drive = none → rest ≠ []) (tail : Str) :
    winFloor drive (rest ++ c :: tail) = winFloor drive (rest ++ [slash]) := by
  have hs : isWinSeparator slash = true := rfl
  match drive, rest with
  | none, [] => exact absurd rfl (h rfl)
  | none, [x] => simp [winFloor, hc, hs]
  | none, x :: y :: rest => rfl
  | some d, [] => simp [winFloor, hc, hs]
  | some d, x :: rest => rfl

/-- Names for which the trailing separator matters have no components. -/
theorem walk_winFloor_append (drive : Option UInt8) (rest : Str) :
    Place.walk (winFloor drive (rest ++ [slash])) Place.here (winMoves rest) =
      Place.walk (winFloor drive rest) Place.here (winMoves rest) := by
  match drive, rest with
  | none, [] => rfl
  | some d, [] => rfl
  | none, [x] =>
    by_cases hx : isWinSeparator x = true
    · have hm : winMoves [x] = [] := by
        have := winMoves_append_sep hx [] []
        simpa using this
      rw [hm]
      rfl
    · simp [winFloor, hx]
  | none, x :: y :: rest => rfl
  | some d, x :: rest => rfl

theorem splitDrive_ne_nil {s : Str} (h : s ≠ []) (hdrive : (splitDrive s).1 = none) :
    (splitDrive s).2 ≠ [] := by
  match s, h with
  | [d], _ => simp [splitDrive]
  | d :: e :: rest, _ =>
    revert hdrive
    simp only [splitDrive]
    split <;> simp

/-- How far a name followed by a separator can be climbed. -/
def floorOf (name : Str) : Option Nat :=
  winFloor (splitDrive name).1 ((splitDrive name).2 ++ [slash])

theorem floorOf_append {c : UInt8} (hc : isWinSeparator c = true) {s : Str} (hs : s ≠ [])
    (tail : Str) : floorOf (s ++ c :: tail) = floorOf s := by
  rw [floorOf, splitDrive_append hc, List.append_assoc, List.cons_append,
    winFloor_append hc (splitDrive_ne_nil hs)]
  rfl

/-- What follows a name and a separator is walked from where the name leads. -/
theorem resolveWin32_append {c : UInt8} (hc : isWinSeparator c = true) {s : Str} (hs : s ≠ [])
    (tail : Str) :
    resolveWin32 (s ++ c :: tail) =
      { resolveWin32 s with
        place := Place.walk (floorOf s) (resolveWin32 s).place (winMoves tail) } := by
  simp only [resolveWin32, splitDrive_append hc, floorOf]
  rw [winFloor_append hc (splitDrive_ne_nil hs), winMoves_append_sep hc, Place.walk_append,
    walk_winFloor_append]

/-- A name built as `GetFinalPath` builds it leads to its directory exactly when the elements
return to what they climb out of. -/
theorem isPrefix_resolveWin32_iff {c c' : UInt8} (hc : isWinSeparator c = true)
    (hc' : isWinSeparator c' = true) (destination : Str) (elements : List Str) :
    (resolveWin32 destination).IsPrefix (resolveWin32
        ((if destination ≠ [] then destination ++ [c] else []) ++
          ([c'] ++ elements.flatMap (fun e ↦ c :: e)))) ↔
      ElementsReturn destination elements := by
  by_cases hd : destination = []
  · -- nothing can be left, and nothing is above the root
    have hfloor : ∀ tail, ∃ f, winFloor none (c' :: tail) = some f := by
      intro tail
      cases tail with
      | nil => exact ⟨0, by simp [winFloor, hc']⟩
      | cons x tail =>
        simp only [winFloor, hc', if_true]
        split
        · exact ⟨2, rfl⟩
        · exact ⟨0, rfl⟩
    subst hd
    constructor
    · intro _
      simp [ElementsReturn, splitDrive, winFloor, isWinSeparator, Place.Returns, resolveWin32,
        Place.here]
    · intro _
      simp only [ne_eq, not_true_eq_false, if_false, List.nil_append, List.singleton_append]
      generalize elements.flatMap (fun e ↦ c :: e) = tail
      obtain ⟨f, hf⟩ := hfloor tail
      have hres : resolveWin32 (c' :: tail) =
          ⟨none, Place.walk (some f) Place.here (winMoves (c' :: tail))⟩ := by
        have hdrive : splitDrive (c' :: tail) = (none, c' :: tail) := splitDrive_append hc' [] tail
        simp only [resolveWin32, hdrive, hf]
      rw [hres]
      exact ⟨rfl, Place.isAbove_walk_of_length_le (p := Place.here) (Nat.zero_le f) _⟩
  · have hrest := splitDrive_ne_nil hd
    have hname : (if destination ≠ [] then destination ++ [c] else []) ++
        ([c'] ++ elements.flatMap (fun e ↦ c :: e)) =
        destination ++ c :: ([c'] ++ elements.flatMap (fun e ↦ c :: e)) := by
      rw [if_pos hd, List.append_assoc]
      rfl
    have hmoves : winMoves ([c'] ++ elements.flatMap (fun e ↦ c :: e)) =
        elementMoves elements := by
      rw [winMoves_flatMap hc]
      have := winMoves_append_sep hc' [] []
      simp only [List.nil_append, winMoves_nil, List.append_nil] at this
      rw [this, List.nil_append]
    rw [hname]
    simp only [resolveWin32, splitDrive_append hc, WinPlace.IsPrefix, true_and, ElementsReturn]
    rw [winFloor_append hc hrest, winMoves_append_sep hc, hmoves, Place.walk_append,
      walk_winFloor_append, Place.isAbove_walk_iff]

theorem winMoves_element {e : Str} (he : IsElement e) (hb : backslash ∉ e) :
    winMoves e = [.down e] := by
  have hsep : ∀ c ∈ e, isWinSeparator c = false := by
    intro c hc
    have h1 : c ≠ slash := fun h ↦ he.slash_notMem (h ▸ hc)
    have h2 : c ≠ backslash := fun h ↦ hb (h ▸ hc)
    simp [isWinSeparator, h1, h2]
  rw [winMoves, List.splitOnP_eq_singleton hsep]
  simp [winMove, he.ne_nil, he.ne_dot, he.ne_dotdot]

/-- Elements without backslashes are what the unix side takes them for: they never climb. -/
theorem elementsReturn_of_backslash_notMem (destination : Str) {elements : List Str}
    (h : ∀ e ∈ elements, IsElement e ∧ backslash ∉ e) : ElementsReturn destination elements := by
  have hmoves : elementMoves elements = elements.map Move.down := by
    induction elements with
    | nil => rfl
    | cons e es ih =>
      have he := h e (by simp)
      rw [elementMoves, List.flatMap_cons, winMoves_element he.1 he.2, List.map_cons,
        ← ih (fun x hx ↦ h x (by simp [hx]))]
      rfl
  apply Place.returns_of_ups_eq_zero
  rw [hmoves, Place.normalize_downs]

/-- The innermost mount is unique. -/
theorem innermostMount_unique {t : MountTable} {S : List Str} {m m' : MountPoint} {n n' : Nat}
    {init init' : Str} (h : InnermostMount t S m n init) (h' : InnermostMount t S m' n' init') :
    m = m' ∧ n = n' := by
  cases h with
  | root h =>
    cases h' with
    | root _ => exact ⟨rfl, rfl⟩
    | mount before m' after ht hne hm _ _ => exact absurd hm (h m' (by simp [ht]) hne)
  | mount before m after ht hne hm hbefore hafter =>
    cases h' with
    | root h => exact absurd hm (h m (by simp [ht]) hne)
    | mount before' m' after' ht' hne' hm' hbefore' hafter' =>
      rw [ht] at ht'
      rcases List.append_eq_append_iff.mp ht' with ⟨l, rfl, hl⟩ | ⟨l, rfl, hl⟩
      · cases l with
        | nil =>
          obtain rfl : m = m' := by simpa using (List.cons.inj hl).1
          exact ⟨rfl, rfl⟩
        | cons x l =>
          -- `m` stands before `m'`, so each is the longer one
          obtain ⟨rfl, rfl⟩ := List.cons.inj hl
          have h1 := hbefore' m (by simp) hm
          have h2 := hafter m' (by simp) hm'
          omega
      · cases l with
        | nil =>
          obtain rfl : m' = m := by simpa using (List.cons.inj hl).1
          exact ⟨rfl, rfl⟩
        | cons x l =>
          obtain ⟨rfl, rfl⟩ := List.cons.inj hl
          have h1 := hbefore m' (by simp) hm'
          have h2 := hafter' m (by simp) hm
          omega

theorem pathStack_setUnixPath (t : MountTable) (p unixPwd : Path) (path : Str) :
    (p.setUnixPath t unixPwd path).pathStack.elements = unixStack t unixPwd path := by
  unfold Path.setUnixPath Path.calculated unixStack
  split
  · simp only [tranverseMountPoints, ElementList.append]
    split <;> rfl
  · simp only [ElementList.append]
    split <;> rfl

/-- The path inside a mount begins with one separator. -/
theorem init_of_innermostMount {t : MountTable} {S : List Str} {m : MountPoint} {n : Nat}
    {init : Str} (h : InnermostMount t S m n init) :
    ∃ c, init = [c] ∧ isWinSeparator c = true := by
  cases h with
  | root h => exact ⟨_, rfl, isWinSeparator_getPathSeperator _⟩
  | mount before m after ht hne hm hbefore hafter => exact ⟨_, rfl, rfl⟩

/-- The resolved stack, whoever built it. -/
theorem tranverseMountPoints_staysInMount_iff {t : MountTable} (hlinks : t.NoLinks) (q : Path) :
    StaysInMount t (tranverseMountPoints t q) ↔
      ∃ m n init, InnermostMount t q.pathStack.elements m n init ∧
        ElementsReturn m.destination (q.pathStack.elements.drop n) := by
  obtain ⟨⟨⟨n, init, hin, hpath⟩, hreal⟩, -⟩ :=
    tranverseLoop_spec q.pathStack.isElement
      (noSymbolicLinks_of_noLinks hlinks q.followSymLinks _) q.pathStack.elements [] (by simp)
  have hfinal : (tranverseMountPoints t q).finalMountPoint = some (tranverseLoop t
      q.followSymLinks q.pathStack.elements q.pathStack.elements 1 t.start).finalMountPoint := rfl
  have hwin : (tranverseMountPoints t q).getWin32Path t = (tranverseLoop t
      q.followSymLinks q.pathStack.elements q.pathStack.elements 1 t.start).getFinalPath := rfl
  obtain ⟨c, rfl, hc⟩ := init_of_innermostMount hin
  have hiff := isPrefix_resolveWin32_iff
    (isWinSeparator_getPathSeperator (tranverseLoop t q.followSymLinks q.pathStack.elements
      q.pathStack.elements 1 t.start).finalMountPoint.filesystem) hc
    (tranverseLoop t q.followSymLinks q.pathStack.elements q.pathStack.elements 1
      t.start).finalMountPoint.destination (q.pathStack.elements.drop n)
  rw [← hpath, ← hreal] at hiff
  constructor
  · rintro ⟨m, hm, hp⟩
    obtain rfl := Option.some.inj (hfinal.symm.trans hm)
    rw [hwin, ← hreal] at hp
    exact ⟨_, n, _, hin, hreal ▸ hiff.mp hp⟩
  · rintro ⟨m, k, init, hk, hret⟩
    obtain ⟨rfl, rfl⟩ := innermostMount_unique hin hk
    refine ⟨_, hfinal, ?_⟩
    rw [hwin, ← hreal]
    exact hiff.mpr (hreal ▸ hret)

/-- For every path string, current directory and mount table without links, the win32 path
lies in the mount it resolved to exactly when the elements below that mount, cut at their
backslashes, re-enter whatever they climb out of. -/
theorem getWin32Path_staysInMount_iff (t : MountTable) (hlinks : t.NoLinks) (p unixPwd : Path)
    (path : Str) :
    StaysInMount t (p.setUnixPath t unixPwd path) ↔
      ∃ m n init, InnermostMount t (unixStack t unixPwd path) m n init ∧
        ElementsReturn m.destination ((unixStack t unixPwd path).drop n) := by
  rw [← pathStack_setUnixPath t p unixPwd path]
  exact tranverseMountPoints_staysInMount_iff hlinks _

/-- `/usr/bin` under a root on `C:\keow`. -/
theorem getWin32Path_staysInMount_iff_usr_bin :
    StaysInMount (plainTable []) (({} : Path).setUnixPath (plainTable []) {}
      [0x2F, 0x75, 0x73, 0x72, 0x2F, 0x62, 0x69, 0x6E]) := by
  refine (getWin32Path_staysInMount_iff (plainTable []) (noLinks_plainTable []) {} {}
    [0x2F, 0x75, 0x73, 0x72, 0x2F, 0x62, 0x69, 0x6E]).mpr ?_
  exact ⟨_, 0, _, .root (by simp [plainTable]),
    elementsReturn_of_backslash_notMem _ (by decide)⟩

/-- `/..\x` under a root on `C:\keow` leads to `C:\x`. -/
theorem getWin32Path_escapes_mount :
    (plainTable []).NoLinks ∧
      ¬StaysInMount (plainTable []) (({} : Path).setUnixPath (plainTable []) {}
        [0x2F, 0x2E, 0x2E, 0x5C, 0x78]) := by
  refine ⟨noLinks_plainTable [], ?_⟩
  rintro ⟨m, hm, -, hp⟩
  have hroot : m = (plainTable []).rootMountPoint := (Option.some.inj hm).symm
  have hplace : (resolveWin32 ((({} : Path).setUnixPath (plainTable []) {}
      [0x2F, 0x2E, 0x2E, 0x5C, 0x78]).getWin32Path (plainTable []))).place = ⟨0, [[0x78]]⟩ := by
    decide
  rw [hroot, hplace] at hp
  exact absurd hp.2 (by decide)

end Keow.Paths
