import Keow.Paths.Mount
import Mathlib.Data.List.Induction

/-!
# Resolution picks the innermost mount

The walk of `Path.cpp:262–336` over a stack without symbolic links. The mount, the
real path and the path in the mount are those of the innermost mount on the stack;
the unix path repeats an element once for every mount that sits on it, because the
append of `Path.cpp:281` stands inside the scan of the mount list.
-/

namespace Keow.Paths

/-- The mounts sitting exactly on a prefix of the stack. -/
def mountsAt (mounts : List MountPoint) (pre : List Str) : List MountPoint :=
  mounts.filter (fun m ↦ m.unixMountPoint.elements = pre)

/-- `InnermostMount t S m n init`: among the mounts on a path of at least one element, `m` is
the one whose element list is the longest prefix of `S`, the most recent among equal ones and
the root if there is none; `n` is the length of that prefix and `init` what the path inside
`m` begins with. The root mount also stands in the list, on the empty path
(`KernelStartup.cpp:263`), where the walk never looks. -/
inductive InnermostMount (t : MountTable) (S : List Str) : MountPoint → Nat → Str → Prop
  | root (h : ∀ x ∈ t.mountPoints, x.unixMountPoint.elements ≠ [] →
        ¬x.unixMountPoint.elements <+: S) :
      InnermostMount t S t.rootMountPoint 0 [t.rootMountPoint.filesystem.getPathSeperator]
  | mount (before : List MountPoint) (m : MountPoint) (after : List MountPoint)
      (ht : t.mountPoints = before ++ m :: after)
      (hne : m.unixMountPoint.elements ≠ [])
      (hm : m.unixMountPoint.elements <+: S)
      (hbefore : ∀ x ∈ before, x.unixMountPoint.elements <+: S →
        x.unixMountPoint.elements.length ≤ m.unixMountPoint.elements.length)
      (hafter : ∀ x ∈ after, x.unixMountPoint.elements <+: S →
        x.unixMountPoint.elements.length < m.unixMountPoint.elements.length) :
      InnermostMount t S m m.unixMountPoint.elements.length [slash]

/-- No prefix of the stack is a symbolic link where the walk looks for one: at an element
on which nothing is mounted. -/
def NoSymbolicLinks (t : MountTable) (followSymLinks : Bool) (S : List Str) : Prop :=
  ∀ before e after, S = before ++ e :: after → mountsAt t.mountPoints (before ++ [e]) = [] →
    linkDestination t (tranverseLoop t followSymLinks S before 1 t.start) e = []

/-- No file system of the table ever reports a link. -/
def MountTable.NoLinks (t : MountTable) : Prop :=
  ∀ (fs : Filesystem) (path : Str), fs.getLinkDestination t.host path = []

theorem noSymbolicLinks_of_noLinks {t : MountTable} (h : t.NoLinks) (followSymLinks : Bool)
    (S : List Str) : NoSymbolicLinks t followSymLinks S :=
  fun _ _ _ _ _ ↦ h _ _

/-- The answer the walk owes for a stack: innermost mount, its destination, the elements
below it, and the unix path of the whole stack. -/
def ResolvesInnermost (t : MountTable) (S : List Str) (q : Path) : Prop :=
  ∃ m n init, InnermostMount t S m n init ∧ q.finalMountPoint = some m ∧
    q.mountRealPath = m.destination ∧
    q.pathInMountPoint =
      init ++ (S.drop n).flatMap (fun e ↦ m.filesystem.getPathSeperator :: e) ∧
    q.actualUnixPath = slash :: [slash].intercalate S

theorem equalsPartialPath_iff {this other : List Str} {n : Nat} (hn : n ≤ other.length) :
    equalsPartialPath this other n = true ↔ this = other.take n := by
  unfold equalsPartialPath
  split
  · next h =>
    rcases h with h | h
    · constructor
      · exact fun hf ↦ absurd hf (by simp)
      · rintro rfl
        simp [Nat.min_eq_left hn] at h
    · omega
  · next h =>
    have hl : n = this.length := by omega
    subst hl
    have hz : (this.zip other).take this.length = this.zip (other.take this.length) := by
      rw [List.zip, List.take_zipWith, List.take_length]
    rw [hz]
    have hlen : (other.take this.length).length = this.length := by simp [hn]
    generalize other.take this.length = o at hlen
    clear hn h hz
    induction this generalizing o with
    | nil => simp_all
    | cons a l ih =>
      cases o with
      | nil => simp at hlen
      | cons b o =>
        have ih' := ih o (by simpa using hlen)
        simp only [List.zip_cons_cons, List.all_cons, Bool.and_eq_true, beq_iff_eq, ih',
          List.cons.injEq]

/-- The scan of the mount list: either nothing sits on the prefix and the walk is as
before, or the last mount on it takes over and the element is appended once for each. -/
theorem followMounts_spec {stack : List Str} {cnt : Nat} (hcnt : cnt ≤ stack.length)
    {element : Str} (he : IsElement element) (mounts : List MountPoint) (r : Resolution) :
    (mountsAt mounts (stack.take cnt) = [] ∧
        followMounts stack cnt element mounts r = (r, false)) ∨
      ∃ before m after, mounts = before ++ m :: after ∧
        m.unixMountPoint.elements = stack.take cnt ∧
        (∀ x ∈ after, x.unixMountPoint.elements ≠ stack.take cnt) ∧
        followMounts stack cnt element mounts r =
          ({ finalMountPoint := m
             mountRealPath := m.destination
             pathInMountPoint := [slash]
             finalUnixPath := r.finalUnixPath ++
               List.replicate (mountsAt mounts (stack.take cnt)).length element }, true) := by
  induction mounts using List.reverseRecOn with
  | nil => exact .inl ⟨rfl, rfl⟩
  | append_singleton mounts mp ih =>
    -- the scan runs from the left, so the last mount of the list is the last to take over
    have hstep : followMounts stack cnt element (mounts ++ [mp]) r =
        if equalsPartialPath mp.unixMountPoint.elements stack cnt then
          ({ finalMountPoint := mp
             mountRealPath := mp.destination
             pathInMountPoint := [slash]
             finalUnixPath := appendPath
               (followMounts stack cnt element mounts r).1.finalUnixPath element }, true)
        else followMounts stack cnt element mounts r := by
      rw [followMounts, List.foldl_append]
      rfl
    by_cases hmp : mp.unixMountPoint.elements = stack.take cnt
    · have hat : mountsAt (mounts ++ [mp]) (stack.take cnt) =
          mountsAt mounts (stack.take cnt) ++ [mp] := by
        simp [mountsAt, hmp]
      refine .inr ⟨mounts, mp, [], rfl, hmp, by simp, ?_⟩
      rw [hstep, if_pos ((equalsPartialPath_iff hcnt).mpr hmp), appendPath_element he, hat]
      have hunix : (followMounts stack cnt element mounts r).1.finalUnixPath =
          r.finalUnixPath ++
            List.replicate (mountsAt mounts (stack.take cnt)).length element := by
        rcases ih with ⟨hnone, hr⟩ | ⟨_, _, _, _, _, _, hr⟩
        · simp [hr, hnone]
        · rw [hr]
      rw [hunix, List.length_append, List.length_singleton, List.replicate_succ',
        List.append_assoc]
    · have hat : mountsAt (mounts ++ [mp]) (stack.take cnt) =
          mountsAt mounts (stack.take cnt) := by
        simp [mountsAt, hmp]
      rw [hstep, if_neg (fun h ↦ hmp ((equalsPartialPath_iff hcnt).mp h)), hat]
      rcases ih with h | ⟨before, m, after, hl, hm, hafter, hr⟩
      · exact .inl h
      · refine .inr ⟨before, m, after ++ [mp], by simp [hl], hm, ?_, hr⟩
        intro x hx
        rcases List.mem_append.mp hx with hx | hx
        · exact hafter x hx
        · rw [List.mem_singleton.mp hx]
          exact hmp

theorem prefix_snoc_iff {l done : List Str} {e : Str} :
    l <+: done ++ [e] ↔ l = done ++ [e] ∨ l <+: done :=
  List.prefix_concat_iff

theorem le_length_of_innermostMount {t : MountTable} {S : List Str} {m : MountPoint} {n : Nat}
    {init : Str} (h : InnermostMount t S m n init) : n ≤ S.length := by
  cases h with
  | root h => exact Nat.zero_le _
  | mount before m after ht hne hm hbefore hafter => exact hm.length_le

/-- An element on which nothing is mounted leaves the innermost mount where it was. -/
theorem innermostMount_snoc_of_none {t : MountTable} {done : List Str} {e : Str}
    (hnone : mountsAt t.mountPoints (done ++ [e]) = []) {m : MountPoint} {n : Nat} {init : Str}
    (h : InnermostMount t done m n init) : InnermostMount t (done ++ [e]) m n init := by
  have hpre : ∀ x ∈ t.mountPoints, x.unixMountPoint.elements <+: done ++ [e] →
      x.unixMountPoint.elements <+: done := by
    intro x hx hp
    rcases prefix_snoc_iff.mp hp with heq | hp
    · have hmem : x ∈ mountsAt t.mountPoints (done ++ [e]) := by simp [mountsAt, hx, heq]
      rw [hnone] at hmem
      exact absurd hmem (by simp)
    · exact hp
  cases h with
  | root h => exact .root (fun x hx hne hp ↦ h x hx hne (hpre x hx hp))
  | mount before m after ht hne hm hbefore hafter =>
    refine .mount before m after ht hne (prefix_snoc_iff.mpr (.inr hm)) ?_ ?_
    · exact fun x hx hp ↦ hbefore x hx (hpre x (by simp [ht, hx]) hp)
    · exact fun x hx hp ↦ hafter x hx (hpre x (by simp [ht, hx]) hp)

/-- The last mount sitting on the whole prefix is innermost. -/
theorem innermostMount_of_last {t : MountTable} {S : List Str} (hS : S ≠ [])
    {before : List MountPoint} {m : MountPoint} {after : List MountPoint}
    (ht : t.mountPoints = before ++ m :: after) (hm : m.unixMountPoint.elements = S)
    (hafter : ∀ x ∈ after, x.unixMountPoint.elements ≠ S) :
    InnermostMount t S m S.length [slash] := by
  have h := InnermostMount.mount (t := t) (S := S) before m after ht (by rw [hm]; exact hS)
    (hm ▸ List.prefix_refl S) (fun x _ hp ↦ by rw [hm]; exact hp.length_le) (fun x hx hp ↦ by
      rw [hm]
      exact Nat.lt_of_le_of_ne hp.length_le (fun hl ↦ hafter x hx (hp.eq_of_length hl)))
  rwa [hm] at h

/-- The walk after the elements `done`, its unix path apart. -/
structure WalkInv (t : MountTable) (done : List Str) (r : Resolution) : Prop where
  innermost : ∃ n init, InnermostMount t done r.finalMountPoint n init ∧
    r.pathInMountPoint = init ++
      (done.drop n).flatMap (fun e ↦ r.finalMountPoint.filesystem.getPathSeperator :: e)
  mountRealPath : r.mountRealPath = r.finalMountPoint.destination

theorem walkInv_start (t : MountTable) : WalkInv t [] t.start where
  innermost := ⟨0, _, .root (fun _ _ hne hp ↦ hne (List.prefix_nil.mp hp)), by
    simp [MountTable.start]⟩
  mountRealPath := rfl

/-- The unix path after the elements `done`: exactly these as long as at most one mount
sits on each prefix, and longer as a string otherwise. -/
structure UnixInv (t : MountTable) (done unix : List Str) : Prop where
  ne_nil : ∀ e ∈ unix, e ≠ []
  eq_done : (∀ pre, pre <+: done → pre ≠ [] → (mountsAt t.mountPoints pre).length ≤ 1) →
    unix = done
  le_sum : (done.map (fun e ↦ e.length + 1)).sum ≤ (unix.map (fun e ↦ e.length + 1)).sum
  lt_sum : (∃ pre, pre <+: done ∧ pre ≠ [] ∧ 2 ≤ (mountsAt t.mountPoints pre).length) →
    (done.map (fun e ↦ e.length + 1)).sum < (unix.map (fun e ↦ e.length + 1)).sum

theorem unixInv_nil (t : MountTable) : UnixInv t [] [] where
  ne_nil := by simp
  eq_done _ := rfl
  le_sum := Nat.le_refl _
  lt_sum := by
    rintro ⟨pre, hp, hne, _⟩
    exact absurd (List.prefix_nil.mp hp) hne

/-- Appending the next element as often as mounts sit on it, and at least once. -/
theorem unixInv_snoc {t : MountTable} {done unix : List Str} {e : Str} (he : IsElement e)
    (h : UnixInv t done unix) :
    UnixInv t (done ++ [e])
      (unix ++ List.replicate (max 1 (mountsAt t.mountPoints (done ++ [e])).length) e) where
  ne_nil := by
    intro x hx
    rcases List.mem_append.mp hx with hx | hx
    · exact h.ne_nil x hx
    · rw [List.eq_of_mem_replicate hx]
      exact he.ne_nil
  eq_done := by
    intro hone
    have hlen : max 1 (mountsAt t.mountPoints (done ++ [e])).length = 1 := by
      have := hone (done ++ [e]) (List.prefix_refl _) (by simp)
      omega
    rw [hlen, h.eq_done (fun pre hp ↦ hone pre (hp.trans (List.prefix_append _ _)))]
    rfl
  le_sum := by
    have hle := h.le_sum
    have hmul : e.length + 1 ≤
        max 1 (mountsAt t.mountPoints (done ++ [e])).length * (e.length + 1) :=
      Nat.le_mul_of_pos_left _ (by omega)
    simp only [List.map_append, List.sum_append, List.map_replicate, List.sum_replicate_nat,
      List.map_cons, List.map_nil, List.sum_singleton]
    omega
  lt_sum := by
    rintro ⟨pre, hp, hne, htwo⟩
    simp only [List.map_append, List.sum_append, List.map_replicate, List.sum_replicate_nat,
      List.map_cons, List.map_nil, List.sum_singleton]
    rcases prefix_snoc_iff.mp hp with rfl | hp
    · have hle := h.le_sum
      have hmul : 2 * (e.length + 1) ≤
          max 1 (mountsAt t.mountPoints (done ++ [e])).length * (e.length + 1) :=
        Nat.mul_le_mul_right _ (by omega)
      omega
    · have hlt := h.lt_sum ⟨pre, hp, hne, htwo⟩
      have hmul : e.length + 1 ≤
          max 1 (mountsAt t.mountPoints (done ++ [e])).length * (e.length + 1) :=
        Nat.le_mul_of_pos_left _ (by omega)
      omega

/-- One turn of the loop: the walk moves on to the next prefix, and the element is appended
to the unix path once for every mount on it. -/
theorem tranverseElement_spec {t : MountTable} (follow : Bool) {stack done rest : List Str}
    {e : Str} (hstack : stack = done ++ e :: rest) (he : IsElement e) {r : Resolution}
    (hlink : mountsAt t.mountPoints (done ++ [e]) = [] → linkDestination t r e = [])
    (h : WalkInv t done r) :
    WalkInv t (done ++ [e]) (tranverseElement t follow stack (done.length + 1) e r) ∧
      (tranverseElement t follow stack (done.length + 1) e r).finalUnixPath =
        r.finalUnixPath ++
          List.replicate (max 1 (mountsAt t.mountPoints (done ++ [e])).length) e := by
  have htake : stack.take (done.length + 1) = done ++ [e] := by
    rw [hstack, List.take_append, List.take_of_length_le (by omega)]
    simp
  have hcnt : done.length + 1 ≤ stack.length := by simp [hstack]
  have hscan := followMounts_spec hcnt he t.mountPoints r
  rw [htake] at hscan
  rcases hscan with ⟨hnone, hr⟩ | ⟨before, m, after, ht, hm, hafter, hr⟩
  · obtain ⟨⟨n, init, hin, hpath⟩, hreal⟩ := h
    have hd : (done ++ [e]).drop n = done.drop n ++ [e] :=
      List.drop_append_of_le_length (le_length_of_innermostMount hin)
    have hl := hlink hnone
    simp only [tranverseElement, hr, followElement, hl, ne_eq, not_true_eq_false, false_and,
      if_false, hnone, List.append_nil]
    refine ⟨⟨⟨n, init, innermostMount_snoc_of_none hnone hin, ?_⟩, hreal⟩, ?_⟩
    · simp [hpath, hd]
    · exact appendPath_element he _
  · have hpos : 1 ≤ (mountsAt t.mountPoints (done ++ [e])).length := by
      apply List.length_pos_of_mem (a := m)
      simp [mountsAt, ht, hm]
    simp only [tranverseElement, hr, if_true]
    refine ⟨⟨⟨_, _, innermostMount_of_last (by simp) ht hm hafter, ?_⟩, rfl⟩, ?_⟩
    · simp
    · rw [Nat.max_eq_right hpos]

theorem tranverseLoop_snoc (t : MountTable) (follow : Bool) (stack done : List Str) (e : Str)
    (cnt : Nat) (r : Resolution) :
    tranverseLoop t follow stack (done ++ [e]) cnt r =
      tranverseElement t follow stack (cnt + done.length) e
        (tranverseLoop t follow stack done cnt r) := by
  induction done generalizing cnt r with
  | nil => rfl
  | cons d done ih =>
    rw [List.cons_append, tranverseLoop, ih, tranverseLoop, List.length_cons]
    congr 1
    omega

/-- The loop over any prefix of a stack without symbolic links. -/
theorem tranverseLoop_spec {t : MountTable} {follow : Bool} {stack : List Str}
    (hel : ∀ e ∈ stack, IsElement e) (hlinks : NoSymbolicLinks t follow stack)
    (done rest : List Str) (hstack : stack = done ++ rest) :
    WalkInv t done (tranverseLoop t follow stack done 1 t.start) ∧
      UnixInv t done (tranverseLoop t follow stack done 1 t.start).finalUnixPath := by
  induction done using List.reverseRecOn generalizing rest with
  | nil => exact ⟨walkInv_start t, unixInv_nil t⟩
  | append_singleton done e ih =>
    have hsplit : stack = done ++ e :: rest := by simp [hstack]
    obtain ⟨hwalk, hunix⟩ := ih (e :: rest) hsplit
    have he : IsElement e := hel e (by simp [hsplit])
    obtain ⟨hwalk', hunix'⟩ := tranverseElement_spec follow hsplit he
      (hlinks done e rest hsplit) hwalk
    rw [tranverseLoop_snoc, Nat.add_comm]
    refine ⟨hwalk', ?_⟩
    rw [hunix']
    exact unixInv_snoc he hunix

/-- Strings of different total length differ. -/
private theorem joinList_ne_of_sum_lt {l l' : List Str} (hl : ∀ e ∈ l, e ≠ [])
    (hl' : ∀ e ∈ l', e ≠ [])
    (h : (l.map (fun e ↦ e.length + 1)).sum < (l'.map (fun e ↦ e.length + 1)).sum)
    (hne : l ≠ []) : joinList l' slash ≠ [slash].intercalate l := by
  intro heq
  have h1 := length_joinList hl slash
  have h2 := length_joinList hl' slash
  have hne' : l' ≠ [] := by
    rintro rfl
    simp at h
  rw [joinList_eq_intercalate hl, if_neg hne] at h1
  rw [if_neg hne', heq] at h2
  omega

/-- Resolving a stack without symbolic links gives the innermost mount, its destination, the
elements below it and the unix path of the stack, exactly when no two mounts sit on the same
prefix of the stack. -/
theorem tranverseMountPoints_innermost_iff (t : MountTable) (p : Path)
    (hlinks : NoSymbolicLinks t p.followSymLinks p.pathStack.elements) :
    ResolvesInnermost t p.pathStack.elements (tranverseMountPoints t p) ↔
      ∀ pre, pre <+: p.pathStack.elements → pre ≠ [] →
        (mountsAt t.mountPoints pre).length ≤ 1 := by
  obtain ⟨⟨⟨n, init, hin, hpath⟩, hreal⟩, hunix⟩ :=
    tranverseLoop_spec p.pathStack.isElement hlinks p.pathStack.elements [] (by simp)
  have hne : ∀ e ∈ p.pathStack.elements, e ≠ [] :=
    fun e he ↦ (p.pathStack.isElement e he).ne_nil
  constructor
  · rintro ⟨_, _, _, _, _, _, _, hactual⟩ pre hpre hprene
    by_contra htwo
    have hlt := hunix.lt_sum ⟨pre, hpre, hprene, by omega⟩
    have hstack : p.pathStack.elements ≠ [] := by
      intro hnil
      rw [hnil] at hpre
      exact hprene (List.prefix_nil.mp hpre)
    apply joinList_ne_of_sum_lt hne hunix.ne_nil hlt hstack
    simpa [tranverseMountPoints] using hactual
  · intro hone
    refine ⟨_, n, init, hin, rfl, hreal, hpath, ?_⟩
    have heq := hunix.eq_done hone
    simp only [tranverseMountPoints]
    rw [heq, joinList_eq_intercalate hne]

/-- `/a` as an element stack. -/
def stackA : ElementList := ⟨[[0x61]], by decide⟩

/-- A root on `C:\keow` and the given mounts, on a host without shortcuts. -/
def plainTable (mounts : List MountPoint) : MountTable where
  rootMountPoint :=
    { unixMountPoint := ElementList.nil
      destination := [0x43, 0x3A, 0x5C, 0x6B, 0x65, 0x6F, 0x77]
      filesystem := .keow }
  mountPoints := mounts
  host := { fileExists := fun _ ↦ false, shortcutTarget := fun _ ↦ [] }

theorem noLinks_plainTable (mounts : List MountPoint) : (plainTable mounts).NoLinks := by
  intro fs path
  cases fs <;> rfl

/-- `D:\` mounted on `/a`, and the path `/a/a` below it. -/
theorem tranverseMountPoints_innermost_iff_single :
    ResolvesInnermost (plainTable [⟨stackA, [0x44, 0x3A, 0x5C], .keow⟩]) [[0x61], [0x61]]
      (tranverseMountPoints (plainTable [⟨stackA, [0x44, 0x3A, 0x5C], .keow⟩])
        { pathStack := ⟨[[0x61], [0x61]], by decide⟩ }) := by
  refine (tranverseMountPoints_innermost_iff
    (plainTable [⟨stackA, [0x44, 0x3A, 0x5C], .keow⟩])
    { pathStack := ⟨[[0x61], [0x61]], by decide⟩ }
    (noSymbolicLinks_of_noLinks (noLinks_plainTable _) _ _)).mpr ?_
  intro pre _ _
  exact List.length_filter_le _ _

/-- Two mounts on `/a`: the path `/a` reports the unix path `/a/a`. -/
theorem tranverseMountPoints_double_mount :
    NoSymbolicLinks
        (plainTable [⟨stackA, [0x44, 0x3A, 0x5C], .keow⟩, ⟨stackA, [], .proc⟩]) true [[0x61]] ∧
      ¬ResolvesInnermost
        (plainTable [⟨stackA, [0x44, 0x3A, 0x5C], .keow⟩, ⟨stackA, [], .proc⟩]) [[0x61]]
        (tranverseMountPoints
          (plainTable [⟨stackA, [0x44, 0x3A, 0x5C], .keow⟩, ⟨stackA, [], .proc⟩])
          { pathStack := stackA }) := by
  refine ⟨noSymbolicLinks_of_noLinks (noLinks_plainTable _) _ _, ?_⟩
  rintro ⟨_, _, _, _, _, _, _, hactual⟩
  revert hactual
  decide

end Keow.Paths
