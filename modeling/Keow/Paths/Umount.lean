import Keow.Kernel.LinkedList
import Keow.Kernel.Linux
import Keow.Paths.Innermost

/-!
# Mounting and unmounting

`MountPoint::Mount` (`MountPoint.cpp:47–67`), `SysCalls::sys_mount` and `SysCalls::sys_umount`
(`sys_mount.cpp:45–170`) on the linked list of mounts. Every `Path` made from a string compares
its element stack, built from the caller's directory when the string is relative.
-/

namespace Keow.Paths

open Keow.Base Keow.Kernel

/-- `Process::m_UnixPwd`. Whatever is assigned to it was resolved by `SetUnixPath` before
(`Process.cpp:135,795`, `sys_io.cpp:394,440`). -/
structure UnixPwd where
  path : Path
  calculated : path.needCalculation = false

/-- The element stack of `Path(target)`. -/
def targetElements (pwd : UnixPwd) (target : Str) : ElementList :=
  (if target.getD 0 0 = slash then ElementList.nil
    else ElementList.nil.append pwd.path.actualUnixPath).append target

/-- `Path::operator==`, `Path.cpp:348–351`. -/
def pathEq (this other : ElementList) : Bool :=
  equalsPartialPath this.elements other.elements other.elements.length

/-- The mounts of `g_pKernelTable`, beside the host. -/
structure KernelMounts where
  rootMountPoint : MountPoint
  mountPoints : LinkedList MountPoint
  host : Host

/-- What path resolution sees of the mounts. -/
def KernelMounts.table (k : KernelMounts) : MountTable where
  rootMountPoint := k.rootMountPoint
  mountPoints := k.mountPoints.toList
  host := k.host

/-- `MountPoint::Mount`. -/
def mount (k : KernelMounts) (mp : MountPoint) : KernelMounts :=
  { k with mountPoints := k.mountPoints.pushBack mp }

/-- `KernelStartup::arg_root`, `KernelStartup.cpp:251–268`: the root is mounted like the rest. -/
def argRoot (host : Host) (filesystemRoot : Str) : KernelMounts :=
  let root : MountPoint := ⟨ElementList.nil, filesystemRoot, .keow⟩
  mount ⟨root, LinkedList.empty, host⟩ root

/-- `FILE_ATTRIBUTE_DIRECTORY`. -/
def FILE_ATTRIBUTE_DIRECTORY : DWORD := 0x10#32

/-- `GetFileAttributes` finds a directory. -/
def isDirectory (attributes : Str → Option DWORD) (name : Str) : Bool :=
  match attributes name with
  | none => false
  | some attr => attr &&& FILE_ATTRIBUTE_DIRECTORY != 0#32

/-- A file system by its name, `sys_mount.cpp:78–127`. -/
def filesystemNamed (filesystemtype : Str) : Option Filesystem :=
  if filesystemtype = [0x6B, 0x65, 0x6F, 0x77] then some .keow
  else if filesystemtype = [0x70, 0x72, 0x6F, 0x63] then some .proc
  else if filesystemtype = [0x64, 0x65, 0x76] then some .dev
  else none

/-- A source that `keow` refuses: empty, a bare drive letter, or no directory.
`sys_mount.cpp:82–97`. -/
def isBadSource (attributes : Str → Option DWORD) (source : Str) : Bool :=
  source.length == 0 || (source.getD 1 0 == 0x3A && source.getD 2 0 == 0) ||
    !isDirectory attributes source

/-- `SysCalls::sys_mount` on the strings it reads from its caller: `Eax` and the mounts. -/
def sysMount (attributes : Str → Option DWORD) (pwd : UnixPwd)
    (source target filesystemtype : Str) (k : KernelMounts) : DWORD × KernelMounts :=
  if target.length = 0 ∨ filesystemtype.length = 0 then (-EINVAL, k)
  else
    let p := Path.setUnixPath k.table { followSymLinks := false } pwd.path target
    if !isDirectory attributes (p.getWin32Path k.table) then (-ENOTDIR, k)
    else
      match filesystemNamed filesystemtype with
      | none => (-ENODEV, k)
      | some fs =>
          if fs = .keow ∧ isBadSource attributes source then (-ENOTDIR, k)
          else (0#32, mount k ⟨targetElements pwd target, source, fs⟩)

/-- The last mount of the list on the target, `sys_mount.cpp:147–160`. -/
def itFound (pwd : UnixPwd) (target : Str) (l : LinkedList MountPoint) : Option (Option Nat) :=
  l.forEach (fun found it mp ↦
    if pathEq mp.unixMountPoint (targetElements pwd target) then some it else found) none

/-- `SysCalls::sys_umount`. There is no result when the list runs into a freed node. -/
def sysUmount (pwd : UnixPwd) (target : Str) (k : KernelMounts) : Option (DWORD × KernelMounts) :=
  if target.length = 0 then some (-EINVAL, k)
  else
    match itFound pwd target k.mountPoints with
    | none => none
    | some none => some (-EINVAL, k)
    | some (some it) =>
        (k.mountPoints.erase (some it)).map (fun l ↦ (0#32, { k with mountPoints := l }))

/-- One change of the mounts: by the kernel itself while it starts, or by a system call of a
process with the given directory. -/
inductive MountCall where
  | mount (mp : MountPoint)
  | sysMount (pwd : UnixPwd) (source target filesystemtype : Str)
  | sysUmount (pwd : UnixPwd) (target : Str)

/-- The mounts after one change. -/
def mountStep (attributes : Str → Option DWORD) (k : KernelMounts) : MountCall → Option KernelMounts
  | .mount mp => some (mount k mp)
  | .sysMount pwd source target filesystemtype =>
      some (sysMount attributes pwd source target filesystemtype k).2
  | .sysUmount pwd target => (sysUmount pwd target k).map Prod.snd

/-- The mounts after a sequence of changes. -/
def mountRun (attributes : Str → Option DWORD) (k : KernelMounts) (calls : List MountCall) :
    Option KernelMounts :=
  calls.foldlM (mountStep attributes) k

/-- Unmounting pops the stack of mounts that share the elements: the latest of them goes and
the others keep their order, or nothing changes when there is none. -/
inductive Unmounts (k : KernelMounts) (elements : List Str) : DWORD × KernelMounts → Prop
  | last (before : List MountPoint) (m : MountPoint) (after : List MountPoint) (k' : KernelMounts)
      (hk : k.table.mountPoints = before ++ m :: after)
      (hm : m.unixMountPoint.elements = elements)
      (hafter : ∀ x ∈ after, x.unixMountPoint.elements ≠ elements)
      (hk' : k'.table = { k.table with mountPoints := before ++ after }) :
      Unmounts k elements (0#32, k')
  | none (h : ∀ x ∈ k.table.mountPoints, x.unixMountPoint.elements ≠ elements) :
      Unmounts k elements (-EINVAL, k)

/-- Resolving the target for a trace line leaves its elements as they are. -/
theorem pathStack_setUnixPath_pwd (t : MountTable) (p : Path) (pwd : UnixPwd) (target : Str) :
    (p.setUnixPath t pwd.path target).pathStack = targetElements pwd target := by
  have hpwd : pwd.path.getUnixPath t = pwd.path.actualUnixPath := by
    simp [Path.getUnixPath, Path.calculated, pwd.calculated]
  unfold Path.setUnixPath Path.calculated targetElements
  rw [hpwd]
  rfl

theorem pathEq_iff {this other : ElementList} :
    pathEq this other = true ↔ this.elements = other.elements := by
  rw [pathEq, equalsPartialPath_iff (Nat.le_refl _), List.take_length]

/-- What a scan that remembers the latest match ends with. -/
theorem foldl_latest {α β : Type} (p : α → Bool) (f : α → β) (xs : List α) :
    (xs.foldl (fun found x ↦ if p x then some (f x) else found) none = none ∧
        ∀ x ∈ xs, p x = false) ∨
      ∃ before x after, xs = before ++ x :: after ∧ p x = true ∧ (∀ y ∈ after, p y = false) ∧
        xs.foldl (fun found x ↦ if p x then some (f x) else found) none = some (f x) := by
  induction xs using List.reverseRecOn with
  | nil => exact .inl ⟨rfl, by simp⟩
  | append_singleton xs x ih =>
    rw [List.foldl_append, List.foldl_cons, List.foldl_nil]
    by_cases hx : p x = true
    · right
      exact ⟨xs, x, [], rfl, hx, by simp, if_pos hx⟩
    · rw [if_neg hx]
      have hx : p x = false := by simpa using hx
      rcases ih with ⟨hnone, hall⟩ | ⟨before, y, after, rfl, hy, hafter, hsome⟩
      · left
        refine ⟨hnone, fun z hz ↦ ?_⟩
        rcases List.mem_append.mp hz with hz | hz
        · exact hall z hz
        · rw [List.mem_singleton.mp hz]
          exact hx
      · right
        refine ⟨before, y, after ++ [x], by simp, hy, fun z hz ↦ ?_, hsome⟩
        rcases List.mem_append.mp hz with hz | hz
        · exact hafter z hz
        · rw [List.mem_singleton.mp hz]
          exact hx

section Represented

variable {k : KernelMounts} {cells : List (Nat × MountPoint)}

theorem mountPoints_table (h : k.mountPoints.Represents cells) :
    k.table.mountPoints = cells.map Prod.snd :=
  LinkedList.toList_eq h

theorem mountPoints_mount (h : k.mountPoints.Represents cells) (mp : MountPoint) :
    (mount k mp).table.mountPoints = k.table.mountPoints ++ [mp] := by
  rw [mountPoints_table (LinkedList.represents_pushBack h mp), mountPoints_table h,
    List.map_append]
  rfl

/-- `sys_umount` on a target that names something. -/
theorem sysUmount_spec (h : k.mountPoints.Represents cells) (pwd : UnixPwd) {target : Str}
    (ht : target ≠ []) :
    ∃ r cells', sysUmount pwd target k = some r ∧ r.2.mountPoints.Represents cells' ∧
      Unmounts k (targetElements pwd target).elements r := by
  have hlen : target.length ≠ 0 := fun hl ↦ ht (List.eq_nil_of_length_eq_zero hl)
  have hscan : itFound pwd target k.mountPoints = some (cells.foldl (fun found c ↦
      if pathEq c.2.unixMountPoint (targetElements pwd target) then some c.1 else found) none) :=
    LinkedList.forEach_eq h _ _
  rw [sysUmount, if_neg hlen, hscan]
  rcases foldl_latest (fun c : Nat × MountPoint ↦
      pathEq c.2.unixMountPoint (targetElements pwd target)) Prod.fst cells with
    ⟨hnone, hall⟩ | ⟨before, c, after, rfl, hc, hafter, hsome⟩
  · rw [hnone]
    refine ⟨_, cells, rfl, h, .none ?_⟩
    intro x hx
    rw [mountPoints_table h] at hx
    obtain ⟨c, hc, rfl⟩ := List.mem_map.mp hx
    intro he
    have hf := hall c hc
    rw [pathEq_iff.mpr he] at hf
    exact absurd hf (by decide)
  · rw [hsome]
    obtain ⟨l, hl, hrep⟩ := LinkedList.represents_erase h
    dsimp only
    rw [hl]
    refine ⟨_, before ++ after, rfl, hrep, ?_⟩
    apply Unmounts.last (before.map Prod.snd) c.2 (after.map Prod.snd)
    · rw [mountPoints_table h, List.map_append, List.map_cons]
    · exact pathEq_iff.mp hc
    · intro x hx
      obtain ⟨d, hd, rfl⟩ := List.mem_map.mp hx
      intro he
      have hf := hafter d hd
      rw [pathEq_iff.mpr he] at hf
      exact absurd hf (by decide)
    · have htab : KernelMounts.table { k with mountPoints := l } =
          { k.table with mountPoints := l.toList } := rfl
      rw [htab, LinkedList.toList_eq hrep, List.map_append]

/-- Unmounting what was mounted last on the same elements restores the mounts. -/
theorem sysUmount_mount (h : k.mountPoints.Represents cells) (pwd : UnixPwd) {target : Str}
    (ht : target ≠ []) {mp : MountPoint}
    (hmp : mp.unixMountPoint.elements = (targetElements pwd target).elements) :
    ∃ k', sysUmount pwd target (mount k mp) = some (0#32, k') ∧ k'.table = k.table := by
  have hpushed : (mount k mp).mountPoints.Represents _ := LinkedList.represents_pushBack h mp
  obtain ⟨r, _, hr, -, hu⟩ := sysUmount_spec hpushed pwd ht
  have hlist := mountPoints_mount h mp
  cases hu with
  | none hall =>
    exact absurd hmp (hall mp (by rw [hlist]; simp))
  | last before m after k' hk hm hafter hk' =>
    refine ⟨k', hr, ?_⟩
    rw [hlist] at hk
    rcases List.eq_nil_or_concat after with rfl | ⟨xs, x, rfl⟩
    · obtain ⟨hbefore, -⟩ := List.append_inj' hk rfl
      rw [hk', List.append_nil, ← hbefore]
      rfl
    · -- the pushed mount would stand behind the one that was taken
      rw [List.concat_eq_append, ← List.cons_append, ← List.append_assoc] at hk
      obtain ⟨-, hx⟩ := List.append_inj' hk rfl
      refine absurd hmp (hafter mp ?_)
      rw [(List.cons.inj hx).1]
      simp

/-- A successful `sys_mount` mounts on the elements of its target. -/
theorem sysMount_eq_zero {attributes : Str → Option DWORD} {pwd : UnixPwd}
    {source target filesystemtype : Str} {k' : KernelMounts}
    (h : sysMount attributes pwd source target filesystemtype k = (0#32, k')) :
    target ≠ [] ∧ ∃ mp : MountPoint, mp.unixMountPoint = targetElements pwd target ∧
      k' = mount k mp := by
  have hEINVAL : ¬-EINVAL = 0#32 := by decide
  have hENOTDIR : ¬-ENOTDIR = 0#32 := by decide
  have hENODEV : ¬-ENODEV = 0#32 := by decide
  unfold sysMount at h
  split at h
  · exact absurd (Prod.mk.inj h).1 hEINVAL
  next hlen =>
  dsimp only at h
  split at h
  · exact absurd (Prod.mk.inj h).1 hENOTDIR
  split at h
  · exact absurd (Prod.mk.inj h).1 hENODEV
  split at h
  · exact absurd (Prod.mk.inj h).1 hENOTDIR
  refine ⟨?_, _, rfl, (Prod.mk.inj h).2.symm⟩
  rintro rfl
  exact hlen (.inl rfl)

end Represented

/-- Every change keeps the list in order. -/
theorem represents_mountStep (attributes : Str → Option DWORD) {k : KernelMounts}
    (h : ∃ cells, k.mountPoints.Represents cells) (call : MountCall) :
    ∃ k', mountStep attributes k call = some k' ∧ ∃ cells, k'.mountPoints.Represents cells := by
  obtain ⟨cells, h⟩ := h
  cases call with
  | mount mp => exact ⟨_, rfl, _, LinkedList.represents_pushBack h mp⟩
  | sysMount pwd source target filesystemtype =>
    refine ⟨_, rfl, ?_⟩
    unfold sysMount
    dsimp only
    split
    · exact ⟨cells, h⟩
    split
    · exact ⟨cells, h⟩
    split
    · exact ⟨cells, h⟩
    split
    · exact ⟨cells, h⟩
    · exact ⟨_, LinkedList.represents_pushBack h _⟩
  | sysUmount pwd target =>
    by_cases ht : target = []
    · subst ht
      exact ⟨k, rfl, cells, h⟩
    · obtain ⟨r, cells', hr, hrep, -⟩ := sysUmount_spec h pwd ht
      exact ⟨r.2, by rw [mountStep, hr]; rfl, cells', hrep⟩

/-- No sequence of changes ever breaks the list. -/
theorem represents_mountRun (attributes : Str → Option DWORD) {k : KernelMounts}
    (h : ∃ cells, k.mountPoints.Represents cells) (calls : List MountCall) :
    ∃ k', mountRun attributes k calls = some k' ∧ ∃ cells, k'.mountPoints.Represents cells := by
  induction calls generalizing k with
  | nil => exact ⟨k, rfl, h⟩
  | cons call calls ih =>
    obtain ⟨k', hk', hrep⟩ := represents_mountStep attributes h call
    obtain ⟨k'', hk'', hrep'⟩ := ih hrep
    refine ⟨k'', ?_, hrep'⟩
    rw [mountRun, List.foldlM_cons, hk']
    exact hk''

/-- After any mounts and unmounts since startup, `umount` of a target that is not empty takes
away the latest mount on its elements and nothing else, or reports `EINVAL`; an empty target
always reports it; and unmounting undoes a mount on the same target. -/
theorem mountRun_stack (host : Host) (filesystemRoot : Str) (attributes : Str → Option DWORD)
    (calls : List MountCall) :
    ∃ k, mountRun attributes (argRoot host filesystemRoot) calls = some k ∧
      (∀ pwd target, target ≠ [] → ∃ r, sysUmount pwd target k = some r ∧
        Unmounts k (targetElements pwd target).elements r) ∧
      (∀ pwd, sysUmount pwd [] k = some (-EINVAL, k)) ∧
      (∀ pwd source target filesystemtype k₁,
        sysMount attributes pwd source target filesystemtype k = (0#32, k₁) →
        ∃ k₂, sysUmount pwd target k₁ = some (0#32, k₂) ∧
          ∀ q : Path, tranverseMountPoints k₂.table q = tranverseMountPoints k.table q) ∧
      (∀ pwd target mp, target ≠ [] →
        mp.unixMountPoint.elements = (targetElements pwd target).elements →
        ∃ k₂, sysUmount pwd target (mount k mp) = some (0#32, k₂) ∧
          ∀ q : Path, tranverseMountPoints k₂.table q = tranverseMountPoints k.table q) := by
  have hroot : ∃ cells, (argRoot host filesystemRoot).mountPoints.Represents cells :=
    ⟨_, LinkedList.represents_pushBack LinkedList.represents_empty _⟩
  obtain ⟨k, hrun, cells, hk⟩ := represents_mountRun attributes hroot calls
  refine ⟨k, hrun, ?_, fun _ ↦ rfl, ?_, ?_⟩
  · intro pwd target ht
    obtain ⟨r, -, hr, -, hu⟩ := sysUmount_spec hk pwd ht
    exact ⟨r, hr, hu⟩
  · intro pwd source target filesystemtype k₁ hmount
    obtain ⟨ht, mp, hmp, rfl⟩ := sysMount_eq_zero hmount
    obtain ⟨k₂, hk₂, htable⟩ := sysUmount_mount hk pwd ht (congrArg _ hmp)
    exact ⟨k₂, hk₂, fun q ↦ by rw [htable]⟩
  · intro pwd target mp ht hmp
    obtain ⟨k₂, hk₂, htable⟩ := sysUmount_mount hk pwd ht hmp
    exact ⟨k₂, hk₂, fun q ↦ by rw [htable]⟩

/-- The directory `/a`. -/
def pwdA : UnixPwd where
  path := { pathStack := stackA, actualUnixPath := [0x2F, 0x61], needCalculation := false }
  calculated := rfl

/-- In the directory `/a`, with `D:\` mounted there, the empty target names the elements of a
mount, and `umount` refuses it. -/
theorem sysUmount_empty_target :
    ¬∃ r, sysUmount pwdA [] (mount (argRoot (plainTable []).host [0x43, 0x3A, 0x5C])
        ⟨stackA, [0x44, 0x3A, 0x5C], .keow⟩) = some r ∧
      Unmounts (mount (argRoot (plainTable []).host [0x43, 0x3A, 0x5C])
        ⟨stackA, [0x44, 0x3A, 0x5C], .keow⟩) (targetElements pwdA []).elements r := by
  rintro ⟨r, hr, hu⟩
  obtain rfl := Option.some.inj hr
  generalize heax : -EINVAL = eax at hu
  cases hu with
  | last => exact absurd heax (by decide)
  | none hall =>
    have hmem : (⟨stackA, [0x44, 0x3A, 0x5C], .keow⟩ : MountPoint) ∈
        (mount (argRoot (plainTable []).host [0x43, 0x3A, 0x5C])
          ⟨stackA, [0x44, 0x3A, 0x5C], .keow⟩).table.mountPoints := by
      have hget : (mount (argRoot (plainTable []).host [0x43, 0x3A, 0x5C])
          ⟨stackA, [0x44, 0x3A, 0x5C], .keow⟩).table.mountPoints[1]? =
          some ⟨stackA, [0x44, 0x3A, 0x5C], .keow⟩ := rfl
      exact List.mem_of_getElem? hget
    exact hall ⟨stackA, [0x44, 0x3A, 0x5C], .keow⟩ hmem (by decide)

end Keow.Paths
