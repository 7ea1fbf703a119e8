import Keow.Paths.Escape

/-!
# Symbolic links under a root mount

Resolution with only a root mount, over any map from directory entries to link targets. A link's
target is spliced into the unix path and into the win32 path by different rules, and is not
looked at again. The walk that the splices survive is described on the names alone.
-/

namespace Keow.Paths

open Keow.Base

variable (D : Str) (links : List Str → Str)

/-! ## The host's side of a map of links -/

/-- The place below the destination that these names lead to. -/
def below (names : List Str) : WinPlace where
  drive := (resolveWin32 D).drive
  place :=
    { ups := (resolveWin32 D).place.ups
      names := (resolveWin32 D).place.names ++ names }

/-- The target of the shortcut at a place: the entry `x` is a link if there is an `x.lnk`. -/
def targetAt (p : WinPlace) : Str :=
  if (resolveWin32 D).IsPrefix p then
    match (p.place.names.drop (resolveWin32 D).place.names.length).getLast? with
    | some last =>
        if lnk <:+ last then
          links ((p.place.names.drop (resolveWin32 D).place.names.length).dropLast ++
            [last.take (last.length - lnk.length)])
        else []
    | none => []
  else []

/-- A host on which the shortcuts below the destination are these links. -/
def linkHost : Host where
  fileExists _ := true
  shortcutTarget name := targetAt D links (resolveWin32 name)

/-- Only a root mount. -/
def linkTable : MountTable where
  rootMountPoint := ⟨ElementList.nil, D, .keow⟩
  mountPoints := []
  host := linkHost D links

/-! ## One path, fully resolved -/

/-- A stack of elements resolved with links followed. -/
def resolved (S : ElementList) : Path :=
  tranverseMountPoints (linkTable D links) { pathStack := S, followSymLinks := true }

/-- No directory on the way, and not the end, is a link. -/
def NoLinkOn (names : List Str) : Prop :=
  ∀ pre, pre ≠ [] → pre <+: names → links pre = []

/-- Links are resolved, for good, and both names agree. -/
structure FullyResolved (S : ElementList) : Prop where
  noLink : NoLinkOn links (appendPath [] ((resolved D links S).getUnixPath (linkTable D links)))
  again : ∀ (p unixPwd : Path), p.followSymLinks = true →
    (p.setUnixPath (linkTable D links) unixPwd
      ((resolved D links S).getUnixPath (linkTable D links))).getUnixPath (linkTable D links) =
      (resolved D links S).getUnixPath (linkTable D links)
  names : resolveWin32 ((resolved D links S).getWin32Path (linkTable D links)) =
    below D (appendPath [] ((resolved D links S).getUnixPath (linkTable D links)))

/-! ## The walk on names -/

/-- The root as `TranverseMountPoints` starts with it. -/
def rootName : Str := (if D ≠ [] then D ++ [backslash] else []) ++ [backslash]

/-- Where Windows is led by a string from a directory below the destination. -/
def windowsReading (floor : Option Nat) (names : List Str) (s : Str) : WinPlace :=
  { below D names with place := Place.walk floor (below D names).place (winMoves s) }

/-- The directory behind an element, unless the walk goes wrong there. An element that is not a
link has no backslash. The target of a link passes over no link, and leads to the same place for
Windows: from where the link is, or, if it is absolute, from a root that is not the
destination. -/
inductive Turn (floor : Option Nat) (names : List Str) (e : Str) :
    Option Nat → List Str → Prop where
  | plain (hlink : targetAt D links (windowsReading D floor names (e ++ lnk)) = [])
      (he : backslash ∉ e) : Turn floor names e floor (names ++ [e])
  | relative (target : Str)
      (hlink : targetAt D links (windowsReading D floor names (e ++ lnk)) = target)
      (hne : target ≠ []) (hrel : Filesystem.isRelativePath target .keow = true)
      (hclear : NoLinkOn links (appendPath names target))
      (hagree : windowsReading D floor names target = below D (appendPath names target)) :
      Turn floor names e floor (appendPath names target)
  | absolute (target : Str)
      (hlink : targetAt D links (windowsReading D floor names (e ++ lnk)) = target)
      (hne : target ≠ []) (habs : Filesystem.isRelativePath target .keow = false)
      (hclear : NoLinkOn links (appendPath [] target))
      (hagree : resolveWin32 (slash :: backslash :: target) = below D (appendPath [] target)) :
      Turn floor names e (some 2) (appendPath [] target)

/-- Every turn of the walk goes well. -/
inductive CleanWalk : Option Nat → List Str → List Str → Prop where
  | nil (floor : Option Nat) (names : List Str) : CleanWalk floor names []
  | cons {floor floor' : Option Nat} {names names' : List Str} {e : Str} {rest : List Str}
      (hturn : Turn D links floor names e floor' names') (hrest : CleanWalk floor' names' rest) :
      CleanWalk floor names (e :: rest)

/-! ## Names without separators -/

theorem backslash_notMem_of_mem_splitOnP {s piece : Str}
    (h : piece ∈ s.splitOnP isWinSeparator) : backslash ∉ piece := by
  induction s generalizing piece with
  | nil =>
    rw [List.splitOnP_nil, List.mem_singleton] at h
    rw [h]
    exact List.not_mem_nil
  | cons c s ih =>
    rw [List.splitOnP_cons_eq_if_modifyHead] at h
    split at h
    · rcases List.mem_cons.mp h with rfl | h
      · exact List.not_mem_nil
      · exact ih h
    · next hc =>
      cases hs : s.splitOnP isWinSeparator with
      | nil => exact absurd hs (List.splitOnP_ne_nil _ s)
      | cons q qs =>
        rw [hs, List.modifyHead_cons, List.mem_cons] at h
        rcases h with rfl | h
        · have hq : backslash ∉ q := ih (hs ▸ List.mem_cons_self)
          rintro hmem
          rcases List.mem_cons.mp hmem with rfl | hmem
          · exact hc rfl
          · exact hq hmem
        · exact ih (hs ▸ List.mem_cons_of_mem q h)

theorem backslash_notMem_of_down {s name : Str} (h : Move.down name ∈ winMoves s) :
    backslash ∉ name := by
  obtain ⟨piece, hpiece, hmove⟩ := List.mem_filterMap.mp h
  unfold winMove at hmove
  split at hmove
  · cases hmove
  · split at hmove
    · cases hmove
    · rw [← Move.down.inj (Option.some.inj hmove)]
      exact backslash_notMem_of_mem_splitOnP hpiece

/-- No component of a resolved name contains a separator. -/
theorem backslash_notMem_resolveWin32 {s name : Str} (h : name ∈ (resolveWin32 s).place.names) :
    backslash ∉ name := by
  rcases Place.mem_names_walk h with h | h
  · cases h
  · exact backslash_notMem_of_down h

theorem isElement_lnk {e : Str} (he : IsElement e) : IsElement (e ++ lnk) := by
  have hlen : 4 < (e ++ lnk).length := by
    have hpos := List.length_pos_iff.mpr he.ne_nil
    rw [List.length_append, show lnk.length = 4 from rfl]
    omega
  constructor
  · intro h
    rw [h] at hlen
    exact absurd hlen (by decide)
  · intro h
    rw [h] at hlen
    exact absurd hlen (by decide)
  · intro h
    rw [h] at hlen
    exact absurd hlen (by decide)
  · intro h
    rcases List.mem_append.mp h with h | h
    · exact he.slash_notMem h
    · exact absurd h (by decide)

theorem backslash_notMem_lnk {e : Str} (h : backslash ∉ e) : backslash ∉ e ++ lnk := by
  intro hmem
  rcases List.mem_append.mp hmem with hmem | hmem
  · exact h hmem
  · exact absurd hmem (by decide)

/-- Where an element without backslash leads. -/
theorem windowsReading_element {e : Str} (he : IsElement e) (hb : backslash ∉ e)
    (floor : Option Nat) (names : List Str) :
    windowsReading D floor names e = below D (names ++ [e]) := by
  rw [windowsReading, winMoves_element he hb]
  simp only [below, Place.walk, List.foldl_cons, List.foldl_nil, Place.move, List.append_assoc]

/-- The entry of an element without backslash is looked up under its name. -/
theorem targetAt_element {e : Str} (he : IsElement e) (hb : backslash ∉ e) (floor : Option Nat)
    (names : List Str) :
    targetAt D links (windowsReading D floor names (e ++ lnk)) = links (names ++ [e]) := by
  rw [windowsReading_element D (isElement_lnk he) (backslash_notMem_lnk hb)]
  have hprefix : (resolveWin32 D).IsPrefix (below D (names ++ [e ++ lnk])) :=
    ⟨rfl, rfl, List.prefix_append _ _⟩
  have hdrop : (below D (names ++ [e ++ lnk])).place.names.drop
      (resolveWin32 D).place.names.length = names ++ [e ++ lnk] := List.drop_left
  have htake : (e ++ lnk).take ((e ++ lnk).length - lnk.length) = e := by
    rw [List.length_append, Nat.add_sub_cancel, List.take_left]
  rw [targetAt, if_pos hprefix, hdrop, List.getLast?_concat]
  simp only
  rw [if_pos (List.suffix_append e lnk), List.dropLast_concat, htake]

theorem noLinkOn_snoc_iff {names : List Str} {e : Str} :
    NoLinkOn links (names ++ [e]) ↔ NoLinkOn links names ∧ links (names ++ [e]) = [] := by
  constructor
  · intro h
    exact ⟨fun pre hne hpre ↦ h pre hne (hpre.trans (List.prefix_append _ _)),
      h _ (by simp) (List.prefix_refl _)⟩
  · rintro ⟨h, hlast⟩ pre hne hpre
    rcases prefix_snoc_iff.mp hpre with rfl | hpre
    · exact hlast
    · exact h pre hne hpre

/-! ## The walk of the code -/

section Walk

variable {floor floor' : Option Nat} {names names' : List Str} {e : Str} {r : Resolution}

/-- The walk stands at these names, which are on no link. -/
structure StandsAt (floor : Option Nat) (names : List Str) (r : Resolution) : Prop where
  mount : r.finalMountPoint = (linkTable D links).rootMountPoint
  unix : r.finalUnixPath = names
  clear : NoLinkOn links names
  win : resolveWin32 r.getFinalPath = below D names
  floorOf : floorOf r.getFinalPath = floor
  ne_nil : r.getFinalPath ≠ []

/-- Links are resolved so far, and both names agree. -/
def AgreesSoFar (r : Resolution) : Prop :=
  NoLinkOn links r.finalUnixPath ∧ resolveWin32 r.getFinalPath = below D r.finalUnixPath

/-- One turn of the loop, without mounts to look at. -/
def follow (r : Resolution) (e : Str) : Resolution := followElement (linkTable D links) true e r

theorem standsAt_start :
    StandsAt D links (floorOf (rootName D)) [] (linkTable D links).start := by
  have hname : (linkTable D links).start.getFinalPath = rootName D := rfl
  constructor
  · rfl
  · rfl
  · intro pre hne hpre
    exact absurd (List.prefix_nil.mp hpre) hne
  · rw [hname, rootName]
    by_cases hD : D = []
    · subst hD
      decide
    · rw [if_pos hD, List.append_assoc]
      have hmoves : winMoves [backslash] = [] := by decide
      rw [List.singleton_append, resolveWin32_append rfl hD, hmoves, below, List.append_nil]
      rfl
  · rw [hname]
  · rw [hname, rootName]
    simp

theorem getFinalPath_append (r : Resolution) (tail : Str) (unix : List Str) :
    ({ r with pathInMountPoint := r.pathInMountPoint ++ tail, finalUnixPath := unix } :
      Resolution).getFinalPath = r.getFinalPath ++ tail := by
  rw [Resolution.getFinalPath, Resolution.getFinalPath, List.append_assoc]

/-- Where the walk looks for a link, inside a `FilesystemKeow` mount. -/
theorem linkDestination_keow {t : MountTable} {r : Resolution}
    (hkeow : r.finalMountPoint.filesystem = .keow) (hne : r.getFinalPath ≠ []) (e : Str) :
    linkDestination t r e =
      if t.host.fileExists (r.getFinalPath ++ backslash :: (e ++ lnk)) then
        t.host.shortcutTarget (r.getFinalPath ++ backslash :: (e ++ lnk))
      else [] := by
  have hname : r.getFinalPath ++ [backslash] ++ e ++ lnk =
      r.getFinalPath ++ backslash :: (e ++ lnk) := by
    simp only [List.append_assoc, List.cons_append, List.nil_append]
  unfold linkDestination
  rw [hkeow]
  dsimp only
  rw [if_pos hne, ← hname]
  rfl

/-- An element that is no link. -/
theorem followElement_of_clear {t : MountTable} {e : Str} {r : Resolution}
    (hclear : linkDestination t r e = []) (follow : Bool) :
    followElement t follow e r =
      { r with
        pathInMountPoint :=
          r.pathInMountPoint ++ [r.finalMountPoint.filesystem.getPathSeperator] ++ e
        finalUnixPath := appendPath r.finalUnixPath e } := by
  simp [followElement, hclear]

theorem linkDestination_eq (h : StandsAt D links floor names r) (e : Str) :
    linkDestination (linkTable D links) r e =
      targetAt D links (windowsReading D floor names (e ++ lnk)) := by
  have hkeow : r.finalMountPoint.filesystem = .keow := by
    rw [h.mount]
    rfl
  rw [linkDestination_keow hkeow h.ne_nil]
  show (if true = true then
      targetAt D links (resolveWin32 (r.getFinalPath ++ backslash :: (e ++ lnk)))
    else []) = _
  rw [if_pos rfl, resolveWin32_append rfl h.ne_nil, h.win, h.floorOf]
  rfl

/-- Behind a step that appends to the win32 name. -/
theorem standsAt_append (h : StandsAt D links floor names r) {tail : Str}
    (hclear : NoLinkOn links names')
    (hagree : windowsReading D floor names tail = below D names') :
    StandsAt D links floor names'
      { r with
        pathInMountPoint := r.pathInMountPoint ++ backslash :: tail
        finalUnixPath := names' } := by
  constructor
  · exact h.mount
  · rfl
  · exact hclear
  · rw [getFinalPath_append, resolveWin32_append rfl h.ne_nil, h.win, h.floorOf]
    exact hagree
  · rw [getFinalPath_append, floorOf_append rfl h.ne_nil, h.floorOf]
  · rw [getFinalPath_append]
    exact List.append_ne_nil_of_left_ne_nil h.ne_nil _

theorem follow_plain (h : StandsAt D links floor names r) (he : IsElement e)
    (hlink : targetAt D links (windowsReading D floor names (e ++ lnk)) = []) :
    follow D links r e =
      { r with
        pathInMountPoint := r.pathInMountPoint ++ backslash :: e
        finalUnixPath := names ++ [e] } := by
  have hnone : linkDestination (linkTable D links) r e = [] :=
    (linkDestination_eq D links h e).trans hlink
  rw [follow, followElement_of_clear hnone, h.mount, h.unix, appendPath_element he]
  simp [linkTable, Filesystem.getPathSeperator]

theorem follow_relative (h : StandsAt D links floor names r) {target : Str}
    (hlink : targetAt D links (windowsReading D floor names (e ++ lnk)) = target)
    (hne : target ≠ []) (hrel : Filesystem.isRelativePath target .keow = true) :
    follow D links r e =
      { r with
        pathInMountPoint := r.pathInMountPoint ++ backslash :: target
        finalUnixPath := appendPath names target } := by
  have hsome : linkDestination (linkTable D links) r e = target :=
    (linkDestination_eq D links h e).trans hlink
  simp only [follow, followElement, hsome, h.mount, h.unix]
  simp [linkTable, Filesystem.getPathSeperator, hne, hrel]

theorem follow_absolute (h : StandsAt D links floor names r) {target : Str}
    (hlink : targetAt D links (windowsReading D floor names (e ++ lnk)) = target)
    (hne : target ≠ []) (habs : Filesystem.isRelativePath target .keow = false) :
    follow D links r e =
      { r with
        mountRealPath := [slash]
        pathInMountPoint := target
        finalUnixPath := appendPath [] target } := by
  have hsome : linkDestination (linkTable D links) r e = target :=
    (linkDestination_eq D links h e).trans hlink
  simp only [follow, followElement, hsome, h.mount]
  simp [linkTable, hne, habs]

/-- A turn of the walk on names is a turn of the loop. -/
theorem standsAt_turn (h : StandsAt D links floor names r) (he : IsElement e)
    (hturn : Turn D links floor names e floor' names') :
    StandsAt D links floor' names' (follow D links r e) := by
  cases hturn with
  | plain hlink hb =>
    rw [follow_plain D links h he hlink]
    apply standsAt_append D links h
    · rw [noLinkOn_snoc_iff]
      exact ⟨h.clear, (targetAt_element D links he hb floor names).symm.trans hlink⟩
    · exact windowsReading_element D he hb floor names
  | relative target hlink hne hrel hclear hagree =>
    rw [follow_relative D links h hlink hne hrel]
    exact standsAt_append D links h hclear hagree
  | absolute target hlink hne habs hclear hagree =>
    rw [follow_absolute D links h hlink hne habs]
    have hname : ({ r with
        mountRealPath := [slash]
        pathInMountPoint := target
        finalUnixPath := appendPath [] target } : Resolution).getFinalPath =
          slash :: backslash :: target := by
      rw [Resolution.getFinalPath, if_pos (by simp), h.mount]
      rfl
    constructor
    · exact h.mount
    · rfl
    · exact hclear
    · rw [hname]
      exact hagree
    · rw [hname]
      rfl
    · rw [hname]
      exact List.cons_ne_nil _ _

/-- If the names agree behind a turn, that turn is one of the walk on names. -/
theorem exists_turn (h : StandsAt D links floor names r) (he : IsElement e)
    (hagree : AgreesSoFar D links (follow D links r e)) :
    ∃ floor' names', Turn D links floor names e floor' names' := by
  obtain ⟨hclear, hwin⟩ := hagree
  by_cases hne : targetAt D links (windowsReading D floor names (e ++ lnk)) = []
  · refine ⟨_, _, .plain hne ?_⟩
    rw [follow_plain D links h he hne] at hwin
    apply @backslash_notMem_resolveWin32 (Resolution.getFinalPath _) e
    rw [hwin]
    simp [below]
  · cases hrel : Filesystem.isRelativePath
        (targetAt D links (windowsReading D floor names (e ++ lnk))) .keow with
    | true =>
      rw [follow_relative D links h rfl hne hrel] at hclear hwin
      refine ⟨_, _, .relative _ rfl hne hrel hclear ?_⟩
      rw [getFinalPath_append, resolveWin32_append rfl h.ne_nil, h.win, h.floorOf] at hwin
      exact hwin
    | false =>
      rw [follow_absolute D links h rfl hne hrel] at hclear hwin
      refine ⟨_, _, .absolute _ rfl hne hrel hclear ?_⟩
      rw [Resolution.getFinalPath, if_pos (by simp), h.mount] at hwin
      exact hwin

theorem agreesSoFar_of_standsAt (h : StandsAt D links floor names r) : AgreesSoFar D links r := by
  rw [AgreesSoFar, h.unix]
  exact ⟨h.clear, h.win⟩

/-- The names agree behind every prefix of the elements exactly if the walk is clean. -/
theorem agreesSoFar_prefixes_iff (h : StandsAt D links floor names r) {S : List Str}
    (hS : ∀ e ∈ S, IsElement e) :
    (∀ pre, pre <+: S → AgreesSoFar D links (pre.foldl (follow D links) r)) ↔
      CleanWalk D links floor names S := by
  induction S generalizing floor names r with
  | nil =>
    refine iff_of_true (fun pre hpre ↦ ?_) (.nil floor names)
    rw [List.prefix_nil.mp hpre]
    exact agreesSoFar_of_standsAt D links h
  | cons e S ih =>
    have he := hS e List.mem_cons_self
    have hS' : ∀ x ∈ S, IsElement x := fun x hx ↦ hS x (List.mem_cons_of_mem e hx)
    constructor
    · intro hall
      have hone : [e] <+: e :: S := by simp
      obtain ⟨floor', names', hturn⟩ := exists_turn D links h he (hall [e] hone)
      refine .cons hturn ((ih (standsAt_turn D links h he hturn) hS').mp fun pre hpre ↦ ?_)
      exact hall (e :: pre) (List.cons_prefix_cons.mpr ⟨rfl, hpre⟩)
    · intro hclean pre hpre
      cases hclean with
      | cons hturn hrest =>
        cases pre with
        | nil => exact agreesSoFar_of_standsAt D links h
        | cons x pre =>
          obtain ⟨rfl, htail⟩ := List.cons_prefix_cons.mp hpre
          exact (ih (standsAt_turn D links h he hturn) hS').mpr hrest pre htail

/-- Elements on no link, without backslashes, are walked as they are. -/
theorem standsAt_clear (h : StandsAt D links floor names r) {rest : List Str}
    (hrest : ∀ e ∈ rest, IsElement e ∧ backslash ∉ e) (hclear : NoLinkOn links (names ++ rest)) :
    StandsAt D links floor (names ++ rest) (rest.foldl (follow D links) r) := by
  induction rest generalizing names r with
  | nil => rwa [List.append_nil]
  | cons e rest ih =>
    obtain ⟨he, hb⟩ := hrest e List.mem_cons_self
    have hsplit : names ++ e :: rest = (names ++ [e]) ++ rest := by simp
    rw [hsplit] at hclear ⊢
    have hlink : links (names ++ [e]) = [] := hclear _ (by simp) (List.prefix_append _ _)
    have hturn : Turn D links floor names e floor (names ++ [e]) :=
      .plain ((targetAt_element D links he hb floor names).trans hlink) hb
    exact ih (standsAt_turn D links h he hturn)
      (fun x hx ↦ hrest x (List.mem_cons_of_mem e hx)) hclear

/-- The unix path is a stack of elements all along. -/
theorem isElement_follow (hr : ∀ x ∈ r.finalUnixPath, IsElement x) (S : List Str) :
    ∀ x ∈ (S.foldl (follow D links) r).finalUnixPath, IsElement x := by
  induction S generalizing r with
  | nil => exact hr
  | cons e S ih =>
    apply ih
    unfold follow followElement
    dsimp only
    split
    · split
      · exact isElement_appendPath hr _
      · exact isElement_appendPath (by simp) _
    · exact isElement_appendPath hr _

theorem tranverseLoop_eq_foldl (stack S : List Str) (cnt : Nat) (r : Resolution) :
    tranverseLoop (linkTable D links) true stack S cnt r = S.foldl (follow D links) r := by
  induction S generalizing cnt r with
  | nil => rfl
  | cons e S ih => exact ih (cnt + 1) (follow D links r e)

end Walk

/-! ## Paths -/

/-- The components of a joined stack of elements. -/
theorem appendPath_joinList {lst : List Str} (h : ∀ e ∈ lst, IsElement e) :
    appendPath [] (slash :: joinList lst slash) = lst := by
  have hpush : ∀ l acc : List Str, (∀ e ∈ l, IsElement e) →
      l.foldl appendElement acc = acc ++ l := by
    intro l
    induction l with
    | nil => exact fun acc _ ↦ (List.append_nil acc).symm
    | cons e l ih =>
      intro acc hl
      rw [List.foldl_cons, ih _ fun x hx ↦ hl x (List.mem_cons_of_mem e hx),
        appendElement_of_isElement (hl e List.mem_cons_self), List.append_assoc]
      rfl
  have hsplit : (slash :: joinList lst slash).splitOn slash =
      [] :: (joinList lst slash).splitOn slash := by
    rw [List.splitOn_cons_eq_if_modifyHead, if_pos (beq_self_eq_true slash)]
  have hpieces : ((joinList lst slash).splitOn slash).foldl appendElement [] = lst := by
    rw [joinList_eq_intercalate fun e he ↦ (h e he).ne_nil]
    by_cases hlst : lst = []
    · subst hlst
      rfl
    · rw [List.splitOn_intercalate slash (fun e he ↦ (h e he).slash_notMem) hlst]
      exact (hpush lst [] h).trans (List.nil_append lst)
  rw [appendPath, hsplit, List.foldl_cons]
  exact hpieces

/-- Where the loop ends for a stack. -/
def walked (S : List Str) : Resolution := S.foldl (follow D links) (linkTable D links).start

theorem isElement_walked (S : List Str) : ∀ e ∈ (walked D links S).finalUnixPath, IsElement e :=
  isElement_follow D links (by simp [MountTable.start]) S

theorem getUnixPath_of_stack (q : Path) (hfollow : q.followSymLinks = true) :
    (tranverseMountPoints (linkTable D links) q).getUnixPath (linkTable D links) =
      slash :: joinList (walked D links q.pathStack.elements).finalUnixPath slash := by
  rw [Path.getUnixPath, Path.calculated, if_neg (by simp [tranverseMountPoints]), walked,
    ← tranverseLoop_eq_foldl D links q.pathStack.elements _ 1, ← hfollow]
  rfl

theorem getWin32Path_resolved (S : ElementList) :
    (resolved D links S).getWin32Path (linkTable D links) =
      (walked D links S.elements).getFinalPath := by
  rw [Path.getWin32Path, Path.calculated, if_neg (by simp [resolved, tranverseMountPoints]),
    walked, ← tranverseLoop_eq_foldl D links S.elements _ 1]
  rfl

/-- Where both names agree, the unix path resolves to itself. -/
theorem setUnixPath_clear {r : Resolution} (hr : ∀ e ∈ r.finalUnixPath, IsElement e)
    (hclear : NoLinkOn links r.finalUnixPath)
    (hwin : resolveWin32 r.getFinalPath = below D r.finalUnixPath) (p unixPwd : Path)
    (hp : p.followSymLinks = true) :
    (p.setUnixPath (linkTable D links) unixPwd
      (slash :: joinList r.finalUnixPath slash)).getUnixPath (linkTable D links) =
      slash :: joinList r.finalUnixPath slash := by
  have hnames : ∀ e ∈ r.finalUnixPath, IsElement e ∧ backslash ∉ e := by
    intro e he
    refine ⟨hr e he, @backslash_notMem_resolveWin32 r.getFinalPath e ?_⟩
    rw [hwin]
    exact List.mem_append_right _ he
  have hstands := standsAt_clear D links (standsAt_start D links) hnames hclear
  let q : Path :=
    { p with
      pathStack := ElementList.nil.append (slash :: joinList r.finalUnixPath slash)
      needCalculation := true }
  have hq : q.followSymLinks = true := hp
  apply (getUnixPath_of_stack D links q hq).trans
  show slash :: joinList (walked D links
    (appendPath [] (slash :: joinList r.finalUnixPath slash))).finalUnixPath slash = _
  rw [appendPath_joinList hr, walked, hstands.unix, List.nil_append]

/-- A path is fully resolved if both names agree behind its walk. -/
theorem fullyResolved_iff (S : ElementList) :
    FullyResolved D links S ↔ AgreesSoFar D links (walked D links S.elements) := by
  have hunix := getUnixPath_of_stack D links { pathStack := S, followSymLinks := true } rfl
  have hcomponents : appendPath [] ((resolved D links S).getUnixPath (linkTable D links)) =
      (walked D links S.elements).finalUnixPath := by
    rw [resolved, hunix]
    exact appendPath_joinList (isElement_walked D links S.elements)
  constructor
  · rintro ⟨hclear, -, hwin⟩
    rw [hcomponents] at hclear hwin
    rw [getWin32Path_resolved] at hwin
    exact ⟨hclear, hwin⟩
  · rintro ⟨hclear, hwin⟩
    constructor
    · rw [hcomponents]
      exact hclear
    · intro p unixPwd hp
      rw [resolved, hunix]
      exact setUnixPath_clear D links (isElement_walked D links S.elements) hclear hwin p unixPwd hp
    · rw [hcomponents, getWin32Path_resolved]
      exact hwin

/-- A path and all directories on its way are fully resolved exactly if the walk along its
elements is clean. -/
theorem fullyResolved_prefixes_iff (S : ElementList) :
    (∀ pre : ElementList, pre.elements <+: S.elements → FullyResolved D links pre) ↔
      CleanWalk D links (floorOf (rootName D)) [] S.elements := by
  rw [← agreesSoFar_prefixes_iff D links (standsAt_start D links) S.isElement]
  constructor
  · intro hall pre hpre
    have hpreElements : ∀ e ∈ pre, IsElement e := fun e he ↦ S.isElement e (hpre.subset he)
    exact (fullyResolved_iff D links ⟨pre, hpreElements⟩).mp (hall ⟨pre, hpreElements⟩ hpre)
  · exact fun hall pre hpre ↦ (fullyResolved_iff D links pre).mpr (hall pre.elements hpre)

/-- `a` is a link to `b`, and `b` one to `c`. -/
def chainedLinks (names : List Str) : Str :=
  if names = [[0x61]] then [0x62] else if names = [[0x62]] then [0x63] else []

/-- `/a` resolves to `/b`, which is a link, below `C:\keow`. -/
theorem chainedLinks_not_fullyResolved :
    ¬FullyResolved [0x43, 0x3A, 0x5C, 0x6B, 0x65, 0x6F, 0x77] chainedLinks stackA := by
  intro h
  exact absurd (h.noLink [[0x62]] (by decide) (by decide)) (by decide)

end Keow.Paths
