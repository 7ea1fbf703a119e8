import Keow.Base.Int32
import Keow.Paths.Escape
import Keow.Paths.Getcwd
import Keow.Paths.Links
import Mathlib.Data.List.DropRight

/-!
# `symlink` and `readlink`

`SysCalls::sys_symlink` and `SysCalls::sys_readlink`, `sys_io.cpp:878–909` and `1015–1024`, with
the shortcuts of `FilesystemKeow.cpp:49–248`. A link is a shortcut file whose description holds
the target, and what is read back is the unix path that following the link resolves to. The
shell's shortcut objects are a parameter.
-/

namespace Keow.Paths

open Keow.Base Keow.Kernel

/-- `MAX_PATH`. -/
def MAX_PATH : Nat := 260

/-- The shell: the names that `IPersistFile::Save` stores a shortcut under, and the paths that
`IShellLink::Resolve` finds something at. -/
structure Shell where
  saves : Str → Bool
  resolves : Str → Bool

/-- `FilesystemKeow::GetShortcutTarget` of a stored shortcut. The description comes in a buffer
of `MAX_PATH` characters. If neither `Resolve` succeeds then `hres` still stands for a failure
after `GetDescription`, and the description is dropped. -/
def Shell.getShortcutTarget (shell : Shell) (linkTo description : Str) : Str :=
  if shell.resolves linkTo then description.take (MAX_PATH - 1) else []

/-- A host behind a shortcut's creation. -/
def Host.withShortcut (host : Host) (name target : Str) : Host where
  fileExists path := path == name || host.fileExists path
  shortcutTarget path := if path = name then target else host.shortcutTarget path

/-- `FilesystemKeow::CreateShortcut`. A name that does not fit the converted string is taken not
to be saved. -/
def createShortcut (shell : Shell) (host : Host) (linkTo theShortcut description : Str) :
    Option Host :=
  if theShortcut.length < MAX_PATH ∧ shell.saves theShortcut = true then
    some (host.withShortcut theShortcut (shell.getShortcutTarget linkTo description))
  else none

/-- `FilesystemKeow::CreateSymbolicLink`. -/
def createSymbolicLink (shell : Shell) (t : MountTable) (unixPwd : Path) (oldPath newPath : Str) :
    Option MountTable :=
  let shortcut := ({} : Path).setUnixPath t unixPwd (newPath ++ lnk)
  (createShortcut shell t.host oldPath (shortcut.getWin32Path t) oldPath).map
    fun host ↦ { t with host := host }

/-- `SysCalls::sys_symlink`: the mounts beside the new host, or what Eax reports. -/
def sysSymlink (shell : Shell) (lastError : DWORD) (t : MountTable) (unixPwd : Path)
    (OldP NewP : Str) : Except DWORD MountTable :=
  match createSymbolicLink shell t unixPwd OldP NewP with
  | some t' => .ok t'
  | none => .error (-win32ErrToUnixError lastError)

/-- `IsSymbolicLink`, `FilesystemKeow.cpp:216–220`, `FilesystemGenericStatic.cpp:300–304`. -/
def Filesystem.isSymbolicLink (host : Host) (path : Str) : Filesystem → Bool
  | keow => !(host.shortcutTarget path).isEmpty
  | proc | dev => false

/-- `Path::IsSymbolicLink`, `Path.cpp:380–386`. -/
def Path.isSymbolicLink (t : MountTable) (p : Path) : Bool :=
  let p := p.calculated t
  p.finalMountPoint.any fun m ↦ m.filesystem.isSymbolicLink t.host p.win32Path

/-- What a call leaves: Eax, and the bytes that went to the buffer. -/
structure ReadlinkResult where
  eax : DWORD
  written : List UInt8
deriving DecidableEq

/-- `SysCalls::sys_readlink`. -/
def sysReadlink (t : MountTable) (unixPwd : Path) (behind : Nat → UInt8) (path : Str)
    (size : DWORD) : ReadlinkResult :=
  let p := ({ followSymLinks := false } : Path).setUnixPath t unixPwd path
  if !t.host.fileExists (p.getWin32Path t) then { eax := -ENOENT, written := [] }
  else if !p.isSymbolicLink t then { eax := -EINVAL, written := [] }
  else
    let p := { p with followSymLinks := true, needCalculation := true }
    let up := p.getUnixPath t
    let max := if size.toInt > up.length then BitVec.ofNat 32 up.length else size
    { eax := max, written := cStrBytes up behind max.toNat }

/-- The first bytes of the target went to the buffer, and their number to the caller. -/
structure ReadlinkRight (target : Str) (size : DWORD) (r : ReadlinkResult) : Prop where
  returned : r.eax.toInt = min size.toNat target.length
  written : r.written = target.take size.toNat

instance (target : Str) (size : DWORD) (r : ReadlinkResult) :
    Decidable (ReadlinkRight target size r) :=
  decidable_of_iff
    (r.eax.toInt = min size.toNat target.length ∧ r.written = target.take size.toNat)
    ⟨fun h ↦ ⟨h.1, h.2⟩, fun h ↦ ⟨h.returned, h.written⟩⟩

/-- A path up to its last slash. -/
def dirPart (path : Str) : Str := path.rdropWhile (· != slash)

/-- What stands behind the last slash. -/
def lastPart (path : Str) : Str := path.rtakeWhile (· != slash)

/-- An absolute path without its empty pieces and dot references. -/
def normalForm (path : Str) : Str := slash :: joinList (appendPath [] path) slash

/-- The same mounts on a host without shortcuts. -/
def MountTable.unlinked (t : MountTable) : MountTable :=
  { t with host := { fileExists := fun _ ↦ false, shortcutTarget := fun _ ↦ [] } }

/-- Where the walk along a stack ends. -/
def MountTable.walk (t : MountTable) (followSymLinks : Bool) (S : List Str) : Resolution :=
  tranverseLoop t followSymLinks S S 1 t.start

/-- The directory of a link lies in a `FilesystemKeow` mount, and neither the name of the link nor
that of its shortcut is a mount point. -/
structure InKeowMount (t : MountTable) (unixPwd : Path) (l : Str) : Prop where
  keow : ∃ m n init, InnermostMount t (unixStack t unixPwd (dirPart l)) m n init ∧
    m.filesystem = .keow
  unmounted : ∀ name ∈ [lastPart l, lastPart l ++ lnk],
    mountsAt t.mountPoints (unixStack t unixPwd (dirPart l) ++ [name]) = []

/-- `Undisturbed t t' unixPwd l`: no other link interferes with the creation of the link `l`,
which turns `t` into `t'`, nor with its reading. The current directory keeps its name, the way to
the shortcut leads over no link, with the shortcut in place the way to its directory still leads
over none, and what the path of the link leads to without the shortcut is no shortcut itself. -/
structure Undisturbed (t t' : MountTable) (unixPwd : Path) (l : Str) : Prop where
  pwd : unixPwd.getUnixPath t' = unixPwd.getUnixPath t
  creation : NoSymbolicLinks t true (unixStack t unixPwd (l ++ lnk))
  directory : NoSymbolicLinks t' false (unixStack t unixPwd (dirPart l))
  plain : t'.host.shortcutTarget
    (t'.unlinked.walk false (unixStack t unixPwd l)).getFinalPath = []

/-! ## The last piece of a path -/

theorem dirPart_append_lastPart (path : Str) : dirPart path ++ lastPart path = path := by
  induction path using List.reverseRecOn with
  | nil => rfl
  | append_singleton path c ih =>
    rw [dirPart, lastPart, List.rdropWhile_concat, List.rtakeWhile_concat]
    split
    · rw [← List.append_assoc]
      exact congrArg (· ++ [c]) ih
    · exact List.append_nil _

theorem slash_notMem_lastPart (path : Str) : slash ∉ lastPart path := by
  intro hmem
  have hne := List.mem_rtakeWhile_imp hmem
  exact absurd hne (by simp)

/-- A directory part is empty or ends with a slash. -/
theorem dirPart_eq (path : Str) : dirPart path = [] ∨ ∃ d, dirPart path = d ++ [slash] := by
  induction path using List.reverseRecOn with
  | nil => exact .inl rfl
  | append_singleton path c ih =>
    rw [dirPart, List.rdropWhile_concat]
    split
    · exact ih
    · next hc =>
      have hslash : c = slash := by simpa using hc
      exact .inr ⟨path, by rw [hslash]⟩

/-- A piece behind the last slash is the last one appended. -/
theorem appendPath_append {dir piece : Str} (hdir : dir = [] ∨ ∃ d, dir = d ++ [slash])
    (hpiece : slash ∉ piece) (lst : List Str) :
    appendPath lst (dir ++ piece) = appendElement (appendPath lst dir) piece := by
  obtain rfl | ⟨d, rfl⟩ := hdir
  · exact appendPath_of_slash_notMem hpiece lst
  · have hhead : (d ++ slash :: piece).head? = (d ++ [slash]).head? := by
      cases d <;> rfl
    rw [List.append_assoc, List.singleton_append, appendPath, appendPath, hhead,
      List.splitOn_append_cons_self, List.splitOn_append_cons_self,
      List.splitOn_eq_singleton hpiece, List.foldl_append, List.foldl_append]
    rfl

/-- The stack of a path, from that of its directory. -/
theorem unixStack_append (t : MountTable) (unixPwd : Path) {dir piece : Str}
    (hdir : dir = [] ∨ ∃ d, dir = d ++ [slash]) (hpiece : slash ∉ piece) :
    unixStack t unixPwd (dir ++ piece) = appendElement (unixStack t unixPwd dir) piece := by
  have hhead : (dir ++ piece).getD 0 0 = slash ↔ dir.getD 0 0 = slash := by
    obtain rfl | ⟨d, rfl⟩ := hdir
    · cases piece with
      | nil => rfl
      | cons c piece =>
        refine iff_of_false (fun h ↦ hpiece ?_) (by decide)
        rw [← show c = slash from h]
        exact List.mem_cons_self
    · cases d <;> rfl
  rw [unixStack, appendPath_append hdir hpiece]
  simp only [hhead]
  rfl

theorem isElement_append_lnk {piece : Str} (hpiece : slash ∉ piece) :
    IsElement (piece ++ lnk) := by
  have hlength : 4 ≤ (piece ++ lnk).length := by simp [lnk]
  constructor
  · exact List.ne_nil_of_length_pos (by omega)
  · intro h
    exact absurd (h ▸ hlength) (by decide)
  · intro h
    exact absurd (h ▸ hlength) (by decide)
  · intro h
    rcases List.mem_append.mp h with h | h
    · exact hpiece h
    · exact absurd h (by decide)

/-- A piece that is no element leaves a prefix. -/
theorem appendElement_isInit {piece : Str} (hpiece : slash ∉ piece) (h : ¬IsElement piece)
    (lst : List Str) : appendElement lst piece <+: lst := by
  unfold appendElement
  split
  · exact List.prefix_refl lst
  · next hdot =>
    split
    · exact List.dropLast_prefix lst
    · next hdotdot =>
      split
      · next hne => exact absurd ⟨hne, hdot, hdotdot, hpiece⟩ h
      · exact List.prefix_refl lst

/-- The stack of the shortcut's path. -/
theorem unixStack_lnk (t : MountTable) (unixPwd : Path) (l : Str) :
    unixStack t unixPwd (l ++ lnk) =
      unixStack t unixPwd (dirPart l) ++ [lastPart l ++ lnk] := by
  have hpiece := isElement_append_lnk (slash_notMem_lastPart l)
  have hsplit : l ++ lnk = dirPart l ++ (lastPart l ++ lnk) := by
    rw [← List.append_assoc, dirPart_append_lastPart]
  rw [hsplit, unixStack_append t unixPwd (dirPart_eq l) hpiece.slash_notMem,
    appendElement_of_isElement hpiece]

theorem unixStack_eq (t : MountTable) (unixPwd : Path) (l : Str) :
    unixStack t unixPwd l = appendElement (unixStack t unixPwd (dirPart l)) (lastPart l) := by
  rw [← unixStack_append t unixPwd (dirPart_eq l) (slash_notMem_lastPart l),
    dirPart_append_lastPart]

/-! ## Walks without links -/

theorem followMounts_congr {S S' : List Str} {cnt : Nat} (hS : cnt ≤ S.length)
    (hS' : cnt ≤ S'.length) (htake : S.take cnt = S'.take cnt) (element : Str)
    (mounts : List MountPoint) (r : Resolution) :
    followMounts S cnt element mounts r = followMounts S' cnt element mounts r := by
  have hequals : ∀ mp : MountPoint, equalsPartialPath mp.unixMountPoint.elements S cnt =
      equalsPartialPath mp.unixMountPoint.elements S' cnt := by
    intro mp
    rw [Bool.eq_iff_iff, equalsPartialPath_iff hS, equalsPartialPath_iff hS', htake]
  unfold followMounts
  simp only [hequals]

/-- A turn looks only at the elements up to its own. -/
theorem tranverseElement_congr (t : MountTable) (follow : Bool) (done : List Str) (e : Str)
    (rest : List Str) (r : Resolution) :
    tranverseElement t follow (done ++ e :: rest) (done.length + 1) e r =
      tranverseElement t follow (done ++ [e]) (done.length + 1) e r := by
  have htake : (done ++ e :: rest).take (done.length + 1) =
      (done ++ [e]).take (done.length + 1) := by
    rw [List.take_length_add_append, List.take_length_add_append]
    rfl
  have hscan := followMounts_congr (by simp) (by simp) htake e t.mountPoints r
  rw [tranverseElement, tranverseElement, hscan]

/-- The loop over the first elements of a stack ends where their walk ends. -/
theorem tranverseLoop_eq_walk (t : MountTable) (follow : Bool) (done rest : List Str) :
    tranverseLoop t follow (done ++ rest) done 1 t.start = t.walk follow done := by
  induction done using List.reverseRecOn generalizing rest with
  | nil => rfl
  | append_singleton done e ih =>
    have ih' := ih [e]
    rw [MountTable.walk, tranverseLoop_snoc, tranverseLoop_snoc, ih', List.append_assoc,
      List.singleton_append, ih (e :: rest), Nat.add_comm, tranverseElement_congr]

theorem walk_snoc (t : MountTable) (follow : Bool) (done : List Str) (e : Str) :
    t.walk follow (done ++ [e]) =
      tranverseElement t follow (done ++ [e]) (done.length + 1) e (t.walk follow done) := by
  rw [MountTable.walk, tranverseLoop_snoc, tranverseLoop_eq_walk, Nat.add_comm]

/-- The last element of a stack is looked up where the walk along the others ends. -/
theorem noSymbolicLinks_snoc_iff {t : MountTable} {follow : Bool} {S : List Str} {e : Str} :
    NoSymbolicLinks t follow (S ++ [e]) ↔
      NoSymbolicLinks t follow S ∧
        (mountsAt t.mountPoints (S ++ [e]) = [] → linkDestination t (t.walk follow S) e = []) := by
  constructor
  · intro h
    refine ⟨fun before x after hS hnone ↦ ?_, fun hnone ↦ ?_⟩
    · have hdest := h before x (after ++ [e]) (by simp [hS]) hnone
      rw [hS]
      rw [hS, List.append_assoc, tranverseLoop_eq_walk] at hdest
      rwa [tranverseLoop_eq_walk]
    · have hdest := h S e [] rfl hnone
      rwa [tranverseLoop_eq_walk] at hdest
  · rintro ⟨hS, he⟩ before x after hsplit hnone
    rw [hsplit, tranverseLoop_eq_walk]
    rcases List.eq_nil_or_concat after with rfl | ⟨after, y, rfl⟩
    · obtain ⟨rfl, hx⟩ := List.append_inj' hsplit rfl
      obtain rfl := List.singleton_injective hx
      exact he hnone
    · have hsplit' : S ++ [e] = (before ++ x :: after) ++ [y] := by
        rw [hsplit, List.concat_eq_append, List.append_assoc, List.cons_append]
      obtain ⟨hinit, -⟩ := List.append_inj' hsplit' rfl
      have hdest := hS before x after hinit hnone
      rwa [hinit, tranverseLoop_eq_walk] at hdest

theorem noSymbolicLinks_of_prefix {t : MountTable} {follow : Bool} {S S' : List Str}
    (h : NoSymbolicLinks t follow S) (hpre : S' <+: S) : NoSymbolicLinks t follow S' := by
  obtain ⟨rest, rfl⟩ := hpre
  induction rest using List.reverseRecOn with
  | nil => rwa [List.append_nil] at h
  | append_singleton rest e ih =>
    rw [← List.append_assoc] at h
    exact ih (noSymbolicLinks_snoc_iff.mp h).1

/-- A turn at an element on which nothing is mounted. -/
theorem tranverseElement_of_unmounted {t : MountTable} {done : List Str} {e : Str}
    (he : IsElement e) (hnone : mountsAt t.mountPoints (done ++ [e]) = []) (follow : Bool)
    (r : Resolution) :
    tranverseElement t follow (done ++ [e]) (done.length + 1) e r =
      followElement t follow e r := by
  have htake : (done ++ [e]).take (done.length + 1) = done ++ [e] :=
    List.take_of_length_le (by simp)
  have hcnt : done.length + 1 ≤ (done ++ [e]).length := by simp
  have hscan := followMounts_spec hcnt he t.mountPoints r
  rw [htake] at hscan
  rcases hscan with ⟨-, hr⟩ | ⟨before, m, after, ht, hm, -, -⟩
  · simp [tranverseElement, hr]
  · have hmem : m ∈ mountsAt t.mountPoints (done ++ [e]) := by simp [mountsAt, ht, hm]
    rw [hnone] at hmem
    exact absurd hmem List.not_mem_nil

/-- A turn at an element on which something is mounted does not ask the host. -/
theorem tranverseElement_of_mounted {t t' : MountTable} (hmounts : t.mountPoints = t'.mountPoints)
    {done : List Str} {e : Str} (he : IsElement e)
    (hsome : mountsAt t.mountPoints (done ++ [e]) ≠ []) (follow follow' : Bool) (r : Resolution) :
    tranverseElement t follow (done ++ [e]) (done.length + 1) e r =
      tranverseElement t' follow' (done ++ [e]) (done.length + 1) e r := by
  have htake : (done ++ [e]).take (done.length + 1) = done ++ [e] :=
    List.take_of_length_le (by simp)
  have hcnt : done.length + 1 ≤ (done ++ [e]).length := by simp
  have hscan := followMounts_spec hcnt he t.mountPoints r
  rw [htake] at hscan
  rcases hscan with ⟨hnone, -⟩ | ⟨before, m, after, -, -, -, hr⟩
  · exact absurd hnone hsome
  · simp only [tranverseElement, ← hmounts, hr, if_true]

/-- Walks that meet no link end at the same place, whatever the host and whether links would be
followed. -/
theorem walk_congr {t t' : MountTable} (hroot : t.rootMountPoint = t'.rootMountPoint)
    (hmounts : t.mountPoints = t'.mountPoints) {follow follow' : Bool} {S : List Str}
    (hS : ∀ e ∈ S, IsElement e) (h : NoSymbolicLinks t follow S)
    (h' : NoSymbolicLinks t' follow' S) : t.walk follow S = t'.walk follow' S := by
  induction S using List.reverseRecOn with
  | nil => simp [MountTable.walk, tranverseLoop, MountTable.start, hroot]
  | append_singleton S e ih =>
    obtain ⟨hinit, hlast⟩ := noSymbolicLinks_snoc_iff.mp h
    obtain ⟨hinit', hlast'⟩ := noSymbolicLinks_snoc_iff.mp h'
    have hsame := ih (fun x hx ↦ hS x (List.mem_append_left _ hx)) hinit hinit'
    have he : IsElement e := hS e (by simp)
    rw [walk_snoc, walk_snoc, ← hsame]
    by_cases hnone : mountsAt t.mountPoints (S ++ [e]) = []
    · have hnone' : mountsAt t'.mountPoints (S ++ [e]) = [] := hmounts ▸ hnone
      rw [tranverseElement_of_unmounted he hnone, tranverseElement_of_unmounted he hnone',
        followElement_of_clear (hlast hnone), followElement_of_clear (hsame ▸ hlast' hnone')]
    · exact tranverseElement_of_mounted hmounts he hnone follow follow' _

/-- Whether links would be followed does not matter where there are none. -/
theorem noSymbolicLinks_follow {t : MountTable} {follow : Bool} (follow' : Bool) {S : List Str}
    (hS : ∀ e ∈ S, IsElement e) (h : NoSymbolicLinks t follow S) :
    NoSymbolicLinks t follow' S := by
  induction S using List.reverseRecOn with
  | nil => exact fun before x after hnil _ ↦ absurd hnil (by simp)
  | append_singleton S e ih =>
    obtain ⟨hinit, hlast⟩ := noSymbolicLinks_snoc_iff.mp h
    have hS' : ∀ x ∈ S, IsElement x := fun x hx ↦ hS x (List.mem_append_left _ hx)
    have hinit' := ih hS' hinit
    refine noSymbolicLinks_snoc_iff.mpr ⟨hinit', fun hnone ↦ ?_⟩
    rw [← walk_congr rfl rfl hS' hinit hinit']
    exact hlast hnone

/-! ## The calls -/

theorem unixStack_isElement (t : MountTable) (unixPwd : Path) (path : Str) :
    ∀ e ∈ unixStack t unixPwd path, IsElement e := by
  rw [← pathStack_setUnixPath t {}]
  exact (({} : Path).setUnixPath t unixPwd path).pathStack.isElement

theorem getWin32Path_setUnixPath (t : MountTable) (p unixPwd : Path) (path : Str) :
    (p.setUnixPath t unixPwd path).getWin32Path t =
      (t.walk p.followSymLinks (unixStack t unixPwd path)).getFinalPath := by
  rw [← pathStack_setUnixPath t p]
  rfl

theorem isSymbolicLink_setUnixPath (t : MountTable) (p unixPwd : Path) (path : Str) :
    (p.setUnixPath t unixPwd path).isSymbolicLink t =
      (t.walk p.followSymLinks (unixStack t unixPwd path)).finalMountPoint.filesystem.isSymbolicLink
        t.host (t.walk p.followSymLinks (unixStack t unixPwd path)).getFinalPath := by
  rw [← pathStack_setUnixPath t p]
  rfl

/-- The unix path once links are followed. -/
theorem getUnixPath_followed (t : MountTable) (p unixPwd : Path) (path : Str) :
    ({ p.setUnixPath t unixPwd path with followSymLinks := true, needCalculation := true } :
      Path).getUnixPath t =
      slash :: joinList (t.walk true (unixStack t unixPwd path)).finalUnixPath slash := by
  rw [← pathStack_setUnixPath t p]
  rfl

theorem sysSymlink_eq_ok {shell : Shell} {lastError : DWORD} {t t' : MountTable} {unixPwd : Path}
    {target l : Str} (h : sysSymlink shell lastError t unixPwd target l = .ok t') :
    t' = { t with
      host := t.host.withShortcut
        (t.walk true (unixStack t unixPwd (l ++ lnk))).getFinalPath
        (shell.getShortcutTarget target target) } := by
  unfold sysSymlink createSymbolicLink createShortcut at h
  simp only [getWin32Path_setUnixPath] at h
  split at h
  · next t'' hcreated =>
    obtain rfl := Except.ok.inj h
    split at hcreated
    · exact (Option.some.inj hcreated).symm
    · exact absurd hcreated (by simp)
  · exact absurd h (by simp)

/-- A path that leads to no shortcut is an error. -/
theorem not_readlinkRight_of_plain {t : MountTable} {unixPwd : Path} {behind : Nat → UInt8}
    (target : Str) {l : Str} (size : DWORD)
    (hplain : t.host.shortcutTarget
      (t.walk false (unixStack t unixPwd l)).getFinalPath = []) :
    ¬ReadlinkRight target size (sysReadlink t unixPwd behind l size) := by
  have hlink : (({ followSymLinks := false } : Path).setUnixPath t unixPwd l).isSymbolicLink t =
      false := by
    rw [isSymbolicLink_setUnixPath]
    cases (t.walk false (unixStack t unixPwd l)).finalMountPoint.filesystem with
    | keow => simp [Filesystem.isSymbolicLink, hplain]
    | proc => rfl
    | dev => rfl
  have heax : (sysReadlink t unixPwd behind l size).eax.toInt < 0 := by
    simp only [sysReadlink, hlink, Bool.not_false, if_true]
    split
    · decide
    · decide
  intro h
  have hreturned := h.returned
  omega

/-- The count, of a size that is not negative. -/
theorem cutSize_eq {size : DWORD} (hnonneg : 0 ≤ size.toInt) (length : Nat) :
    (if size.toInt > length then BitVec.ofNat 32 length else size).toNat =
        min size.toNat length ∧
      (if size.toInt > length then BitVec.ofNat 32 length else size).toInt =
        min size.toNat length := by
  obtain ⟨hnat, hsize⟩ := toInt_of_nonneg hnonneg
  split
  · have hlength : length < 2 ^ 31 := by omega
    rw [(toInt_ofNat_eq_iff length).mpr hlength, BitVec.toNat_ofNat,
      Nat.mod_eq_of_lt (by omega)]
    omega
  · omega

/-- Of a link, what it resolves to is given back. -/
theorem readlinkRight_iff_of_link {t : MountTable} {unixPwd : Path} {behind : Nat → UInt8}
    {target l : Str} (size : DWORD)
    (hexists : t.host.fileExists (t.walk false (unixStack t unixPwd l)).getFinalPath = true)
    (hkeow : (t.walk false (unixStack t unixPwd l)).finalMountPoint.filesystem = .keow)
    (hlink : t.host.shortcutTarget (t.walk false (unixStack t unixPwd l)).getFinalPath ≠ []) :
    ReadlinkRight target size (sysReadlink t unixPwd behind l size) ↔
      0 ≤ size.toInt ∧ target.take size.toNat =
        (slash :: joinList (t.walk true (unixStack t unixPwd l)).finalUnixPath slash).take
          size.toNat := by
  have hisLink : (({ followSymLinks := false } : Path).setUnixPath t unixPwd l).isSymbolicLink t =
      true := by
    rw [isSymbolicLink_setUnixPath, hkeow]
    simp [Filesystem.isSymbolicLink, hlink]
  simp only [sysReadlink, getWin32Path_setUnixPath, hexists, hisLink, getUnixPath_followed,
    Bool.not_true, Bool.false_eq_true, if_false]
  generalize slash :: joinList (t.walk true (unixStack t unixPwd l)).finalUnixPath slash = up
  have hcopied : ∀ n, cStrBytes up behind (min n up.length) = up.take n := by
    intro n
    rw [cStrBytes_of_le behind (Nat.min_le_right _ _), ← List.take_eq_take_min]
  constructor
  · rintro ⟨hreturned, hwritten⟩
    have hnonneg : 0 ≤ size.toInt := by
      by_contra hneg
      dsimp only at hreturned
      rw [if_neg (by omega)] at hreturned
      omega
    rw [(cutSize_eq hnonneg up.length).1, hcopied] at hwritten
    exact ⟨hnonneg, hwritten.symm⟩
  · rintro ⟨hnonneg, htake⟩
    obtain ⟨hnat, hint⟩ := cutSize_eq hnonneg up.length
    have hlength := congrArg List.length htake
    rw [List.length_take, List.length_take] at hlength
    constructor
    · show (if size.toInt > up.length then BitVec.ofNat 32 up.length else size).toInt = _
      rw [hint]
      omega
    · show cStrBytes up behind
        (if size.toInt > up.length then BitVec.ofNat 32 up.length else size).toNat = _
      rw [hnat, hcopied, htake]

/-! ## What comes back -/

theorem unixStack_congr {t t' : MountTable} {unixPwd : Path}
    (hpwd : unixPwd.getUnixPath t' = unixPwd.getUnixPath t) (path : Str) :
    unixStack t' unixPwd path = unixStack t unixPwd path := by
  rw [unixStack, unixStack, hpwd]

/-- The mount that a walk without links ends in. -/
theorem finalMountPoint_walk {t : MountTable} {follow : Bool} {S : List Str}
    (hS : ∀ e ∈ S, IsElement e) (hclear : NoSymbolicLinks t follow S) {m : MountPoint} {n : Nat}
    {init : Str} (hm : InnermostMount t S m n init) :
    (t.walk follow S).finalMountPoint = m := by
  have hwalk := (tranverseLoop_spec hS hclear S [] (List.append_nil S).symm).1
  obtain ⟨n', init', hin, -⟩ := hwalk.innermost
  exact (innermostMount_unique hin hm).1

theorem getFinalPath_ne_nil {t : MountTable} {follow : Bool} {S : List Str}
    (hS : ∀ e ∈ S, IsElement e) (hclear : NoSymbolicLinks t follow S) :
    (t.walk follow S).getFinalPath ≠ [] := by
  have hwalk := (tranverseLoop_spec hS hclear S [] (List.append_nil S).symm).1
  obtain ⟨n, init, hin, hpath⟩ := hwalk.innermost
  obtain ⟨c, rfl, -⟩ := init_of_innermostMount hin
  rw [Resolution.getFinalPath, MountTable.walk, hpath]
  simp

theorem getFinalPath_step {r : Resolution} (hkeow : r.finalMountPoint.filesystem = .keow)
    (name : Str) (unix : List Str) :
    ({ r with
        pathInMountPoint :=
          r.pathInMountPoint ++ [r.finalMountPoint.filesystem.getPathSeperator] ++ name
        finalUnixPath := unix } : Resolution).getFinalPath =
      r.getFinalPath ++ backslash :: name := by
  rw [List.append_assoc, getFinalPath_append, hkeow]
  rfl

/-- Following a link restarts from nothing if its target begins with a slash. -/
theorem finalUnixPath_followElement {t : MountTable} {e : Str} {r : Resolution}
    (hkeow : r.finalMountPoint.filesystem = .keow)
    (hslash : (linkDestination t r e).head? = some slash) :
    (followElement t true e r).finalUnixPath = appendPath [] (linkDestination t r e) := by
  have hne : linkDestination t r e ≠ [] := by
    intro hnil
    rw [hnil] at hslash
    exact absurd hslash (by simp)
  have habs : Filesystem.isRelativePath (linkDestination t r e) .keow = false := by
    have hget : (linkDestination t r e).getD 0 0 = slash := by
      rw [List.getD_eq_getElem?_getD, ← List.head?_eq_getElem?, hslash]
      rfl
    simp only [Filesystem.isRelativePath, hget, bne_self_eq_false, Bool.false_and]
  simp [followElement, hne, hkeow, habs]

/-- A link that is not followed shows its shortcut. -/
theorem followElement_shortcut {t : MountTable} {e : Str} {r : Resolution}
    (hkeow : r.finalMountPoint.filesystem = .keow) (hlink : linkDestination t r e ≠ []) :
    (followElement t false e r).finalMountPoint = r.finalMountPoint ∧
      (followElement t false e r).getFinalPath = r.getFinalPath ++ backslash :: (e ++ lnk) := by
  constructor
  · simp [followElement, hlink]
  · rw [← getFinalPath_step hkeow (e ++ lnk) (appendPath r.finalUnixPath e)]
    simp [followElement, hlink, Resolution.getFinalPath]

/-- `ShortcutAt t S e target`: at the end of the walk along `S`, which meets no link, stands a
shortcut under the name that is looked up for `e`. -/
structure ShortcutAt (t : MountTable) (S : List Str) (e target : Str) : Prop where
  clear : NoSymbolicLinks t false S
  keow : (t.walk false S).finalMountPoint.filesystem = .keow
  unmounted : mountsAt t.mountPoints (S ++ [e]) = []
  fileExists : t.host.fileExists
    ((t.walk false S).getFinalPath ++ backslash :: (e ++ lnk)) = true
  shortcutTarget : t.host.shortcutTarget
    ((t.walk false S).getFinalPath ++ backslash :: (e ++ lnk)) = target

/-- What `symlink` leaves. -/
theorem shortcutAt_of_sysSymlink {shell : Shell} {lastError : DWORD} {t t' : MountTable}
    {unixPwd : Path} {target l : Str} (h : sysSymlink shell lastError t unixPwd target l = .ok t')
    (hin : InKeowMount t unixPwd l) (hclear : Undisturbed t t' unixPwd l) :
    ShortcutAt t' (unixStack t unixPwd (dirPart l)) (lastPart l)
      (shell.getShortcutTarget target target) := by
  have ht' := sysSymlink_eq_ok h
  have hS := unixStack_isElement t unixPwd (dirPart l)
  have hlnk := isElement_append_lnk (slash_notMem_lastPart l)
  have hunmounted := hin.unmounted (lastPart l ++ lnk) (by simp)
  obtain ⟨m, n, init, hm, hfs⟩ := hin.keow
  have hcreation := hclear.creation
  rw [unixStack_lnk] at ht' hcreation
  obtain ⟨hinit, hlast⟩ := noSymbolicLinks_snoc_iff.mp hcreation
  have hkeow : (t.walk true (unixStack t unixPwd (dirPart l))).finalMountPoint.filesystem =
      .keow := by
    rw [finalMountPoint_walk hS hinit hm, hfs]
  have hmounts : t.mountPoints = t'.mountPoints := by rw [ht']
  have hsame : t.walk true (unixStack t unixPwd (dirPart l)) =
      t'.walk false (unixStack t unixPwd (dirPart l)) :=
    walk_congr (by rw [ht']) hmounts hS hinit hclear.directory
  have hhost : t'.host = t.host.withShortcut
      ((t'.walk false (unixStack t unixPwd (dirPart l))).getFinalPath ++
        backslash :: (lastPart l ++ lnk)) (shell.getShortcutTarget target target) := by
    rw [← hsame, ← getFinalPath_step hkeow, ← followElement_of_clear (hlast hunmounted) true,
      ← tranverseElement_of_unmounted hlnk hunmounted, ← walk_snoc, ht']
  constructor
  · exact hclear.directory
  · rw [← hsame, hkeow]
  · rw [← hmounts]
    exact hin.unmounted (lastPart l) (by simp)
  · simp [hhost, Host.withShortcut]
  · simp [hhost, Host.withShortcut]

theorem linkDestination_shortcut {t : MountTable} {S : List Str} {e target : Str}
    (hS : ∀ x ∈ S, IsElement x) (h : ShortcutAt t S e target) :
    linkDestination t (t.walk false S) e = target := by
  rw [linkDestination_keow h.keow (getFinalPath_ne_nil hS h.clear), if_pos h.fileExists,
    h.shortcutTarget]

/-- A stack without links leads to its plain name. -/
theorem not_readlinkRight_of_clear {t : MountTable} {unixPwd : Path} {l : Str}
    (hclear : NoSymbolicLinks t false (unixStack t unixPwd l))
    (hplain : t.host.shortcutTarget
      (t.unlinked.walk false (unixStack t unixPwd l)).getFinalPath = [])
    (behind : Nat → UInt8) (target : Str) (size : DWORD) :
    ¬ReadlinkRight target size (sysReadlink t unixPwd behind l size) := by
  have hnone : t.unlinked.NoLinks := by
    intro fs path
    cases fs <;> rfl
  have hroot : t.rootMountPoint = t.unlinked.rootMountPoint := rfl
  have hmounts : t.mountPoints = t.unlinked.mountPoints := rfl
  have hwalk := walk_congr hroot hmounts (unixStack_isElement t unixPwd l) hclear
    (noSymbolicLinks_of_noLinks hnone false _)
  apply not_readlinkRight_of_plain
  rw [hwalk]
  exact hplain

/-- Reading at a shortcut: right exactly if the target, read as a path from the root where it
begins with a slash, comes out as it went in. -/
theorem readlinkRight_iff_of_shortcut {t : MountTable} {S : List Str} {unixPwd : Path}
    {l target : Str} (he : IsElement (lastPart l))
    (hS : unixStack t unixPwd l = S ++ [lastPart l]) {stored : Str} (hstored : stored ≠ [])
    (hhead : stored.head? = target.head?) (h : ShortcutAt t S (lastPart l) stored)
    (behind : Nat → UInt8) (size : DWORD) :
    ReadlinkRight target size (sysReadlink t unixPwd behind l size) ↔
      0 ≤ size.toInt ∧ (size = 0#32 ∨ target.head? = some slash ∧
        target.take size.toNat = (normalForm stored).take size.toNat) := by
  have helements : ∀ x ∈ S, IsElement x := fun x hx ↦
    unixStack_isElement t unixPwd l x (hS ▸ List.mem_append_left _ hx)
  have hdest := linkDestination_shortcut helements h
  have hwalk : t.walk false (unixStack t unixPwd l) =
      followElement t false (lastPart l) (t.walk false S) := by
    rw [hS, walk_snoc, tranverseElement_of_unmounted he h.unmounted]
  have hfollowed : t.walk true (unixStack t unixPwd l) =
      followElement t true (lastPart l) (t.walk false S) := by
    rw [hS, walk_snoc, tranverseElement_of_unmounted he h.unmounted,
      walk_congr rfl rfl helements (noSymbolicLinks_follow true helements h.clear) h.clear]
  obtain ⟨hmount, hname⟩ := followElement_shortcut h.keow (hdest ▸ hstored)
  rw [← hwalk] at hmount hname
  have hexists := h.fileExists
  have hshows := h.shortcutTarget
  rw [← hname] at hexists hshows
  rw [readlinkRight_iff_of_link size hexists (hmount ▸ h.keow) (hshows ▸ hstored)]
  refine and_congr_right fun hnonneg ↦ ?_
  by_cases hzero : size = 0#32
  · simp [hzero]
  · have hpos : size.toNat ≠ 0 := fun hnat ↦ hzero (BitVec.eq_of_toNat_eq hnat)
    obtain ⟨n, hn⟩ := Nat.exists_eq_succ_of_ne_zero hpos
    rw [or_iff_right hzero, hn]
    have hslash : target.take (n + 1) =
        (slash :: joinList (t.walk true (unixStack t unixPwd l)).finalUnixPath slash).take
          (n + 1) → target.head? = some slash := by
      intro htake
      cases target with
      | nil => exact absurd htake (by simp)
      | cons c target =>
        rw [List.take_succ_cons, List.take_succ_cons] at htake
        rw [(List.cons.inj htake).1]
        rfl
    have hunix : target.head? = some slash →
        (t.walk true (unixStack t unixPwd l)).finalUnixPath = appendPath [] stored := by
      intro hhead'
      rw [hfollowed, finalUnixPath_followElement h.keow (by rw [hdest, hhead, hhead']), hdest]
    constructor
    · intro htake
      refine ⟨hslash htake, ?_⟩
      rwa [hunix (hslash htake)] at htake
    · rintro ⟨hhead', htake⟩
      rw [hunix hhead']
      exact htake

/-- After a successful `symlink`, `readlink` is right exactly if the path ends in a name, the
shell finds something at the target, the size is not negative, and no byte is asked for or the
target is absolute and keeps these bytes when it is cut to the length of a description and its
empty pieces and dot references are removed. -/
theorem sysReadlink_right_iff {shell : Shell} {lastError : DWORD} {t t' : MountTable}
    {unixPwd : Path} {target l : Str} (htarget : target ≠ [])
    (hlink : sysSymlink shell lastError t unixPwd target l = .ok t')
    (hin : InKeowMount t unixPwd l) (hclear : Undisturbed t t' unixPwd l) (behind : Nat → UInt8)
    (size : DWORD) :
    ReadlinkRight target size (sysReadlink t' unixPwd behind l size) ↔
      IsElement (lastPart l) ∧ shell.resolves target = true ∧ 0 ≤ size.toInt ∧
        (size = 0#32 ∨ target.head? = some slash ∧
          target.take size.toNat =
            (normalForm (target.take (MAX_PATH - 1))).take size.toNat) := by
  have hshortcut := shortcutAt_of_sysSymlink hlink hin hclear
  have hstack := unixStack_congr hclear.pwd l
  have hplain := hclear.plain
  rw [← hstack] at hplain
  have hunlinked : NoSymbolicLinks t' false (unixStack t' unixPwd l) →
      ¬ReadlinkRight target size (sysReadlink t' unixPwd behind l size) :=
    fun h ↦ not_readlinkRight_of_clear h hplain behind target size
  by_cases he : IsElement (lastPart l)
  · have hsnoc : unixStack t' unixPwd l = unixStack t unixPwd (dirPart l) ++ [lastPart l] := by
      rw [hstack, unixStack_eq, appendElement_of_isElement he]
    by_cases hres : shell.resolves target = true
    · rw [Shell.getShortcutTarget, if_pos hres] at hshortcut
      have hhead : (target.take (MAX_PATH - 1)).head? = target.head? := by
        rw [List.head?_take, if_neg (by decide)]
      have hstored : target.take (MAX_PATH - 1) ≠ [] := by
        cases target with
        | nil => exact absurd rfl htarget
        | cons c target => simp [MAX_PATH]
      rw [readlinkRight_iff_of_shortcut he hsnoc hstored hhead hshortcut]
      simp only [he, hres, true_and]
    · -- what does not resolve is no link
      rw [Shell.getShortcutTarget, if_neg hres] at hshortcut
      refine iff_of_false (hunlinked ?_) fun h ↦ hres h.2.1
      rw [hsnoc]
      refine noSymbolicLinks_snoc_iff.mpr ⟨hshortcut.clear, fun _ ↦ ?_⟩
      exact linkDestination_shortcut (unixStack_isElement t unixPwd (dirPart l)) hshortcut
  · refine iff_of_false (hunlinked ?_) fun h ↦ he h.1
    rw [hstack, unixStack_eq]
    exact noSymbolicLinks_of_prefix hshortcut.clear
      (appendElement_isInit (slash_notMem_lastPart l) he _)

/-! ## Targets that come back whole -/

/-- What a list of pieces takes up, a slash counted with each. -/
def piecesLength (pieces : List Str) : Nat := (pieces.map (fun e ↦ e.length + 1)).sum

theorem piecesLength_splitOn (s : Str) : piecesLength (s.splitOn slash) = s.length + 1 := by
  induction s with
  | nil => rfl
  | cons c s ih =>
    rw [List.splitOn_cons_eq_if_modifyHead]
    split
    · rw [piecesLength, List.map_cons, List.sum_cons, ← piecesLength, ih, List.length_cons,
        List.length_nil]
      omega
    · cases hs : s.splitOn slash with
      | nil => exact absurd hs (List.splitOn_ne_nil slash s)
      | cons piece pieces =>
        rw [hs, piecesLength, List.map_cons, List.sum_cons] at ih
        rw [List.modifyHead_cons, piecesLength, List.map_cons, List.sum_cons, List.length_cons,
          List.length_cons]
        omega

theorem piecesLength_dropLast_le (lst : List Str) :
    piecesLength lst.dropLast ≤ piecesLength lst := by
  induction lst using List.reverseRecOn with
  | nil => exact Nat.le_refl _
  | append_singleton lst e _ =>
    rw [List.dropLast_concat, piecesLength, piecesLength, List.map_append, List.sum_append]
    exact Nat.le_add_right _ _

theorem piecesLength_appendElement_le (lst : List Str) (piece : Str) :
    piecesLength (appendElement lst piece) ≤ piecesLength lst + (piece.length + 1) := by
  unfold appendElement
  split
  · exact Nat.le_add_right _ _
  · split
    · exact Nat.le_add_right_of_le (piecesLength_dropLast_le lst)
    · split
      · rw [piecesLength, List.map_append, List.sum_append, List.map_singleton, List.sum_singleton]
        exact Nat.le_refl _
      · exact Nat.le_add_right _ _

theorem piecesLength_foldl_le (pieces lst : List Str) :
    piecesLength (pieces.foldl appendElement lst) ≤ piecesLength lst + piecesLength pieces := by
  induction pieces generalizing lst with
  | nil => exact Nat.le_add_right _ _
  | cons piece pieces ih =>
    have hfirst := piecesLength_appendElement_le lst piece
    have hrest := ih (appendElement lst piece)
    have hcons : piecesLength (piece :: pieces) = piece.length + 1 + piecesLength pieces := by
      rw [piecesLength, List.map_cons, List.sum_cons]
      rfl
    rw [List.foldl_cons]
    omega

/-- The normal form is no longer than the path. -/
theorem length_normalForm_le (rest : Str) :
    (normalForm (slash :: rest)).length ≤ (slash :: rest).length := by
  have hlst : appendPath [] (slash :: rest) = (rest.splitOn slash).foldl appendElement [] := by
    rw [appendPath, List.splitOn_cons_eq_if_modifyHead, if_pos (beq_self_eq_true slash)]
    rfl
  have hpieces := piecesLength_foldl_le (rest.splitOn slash) []
  rw [piecesLength_splitOn, ← hlst] at hpieces
  have hzero : piecesLength [] = 0 := rfl
  have hne : ∀ e ∈ appendPath [] (slash :: rest), e ≠ [] :=
    fun e he ↦ (isElement_appendPath (by simp) (slash :: rest) e he).ne_nil
  have hjoin := length_joinList hne slash
  rw [← piecesLength] at hjoin
  rw [normalForm, List.length_cons, List.length_cons]
  split at hjoin
  · next hempty =>
    rw [hempty]
    exact Nat.succ_le_succ (Nat.zero_le rest.length)
  · omega

/-- A target comes back whole if it fits a description and spells a stack of elements. -/
theorem eq_normalForm_take_iff (target : Str) :
    target = normalForm (target.take (MAX_PATH - 1)) ↔
      target.length < MAX_PATH ∧
        ∃ S : ElementList, target = slash :: joinList S.elements slash := by
  constructor
  · intro h
    refine ⟨?_, ⟨appendPath [] (target.take (MAX_PATH - 1)), isElement_appendPath (by simp) _⟩, h⟩
    cases target with
    | nil => decide
    | cons c rest =>
      have hslash : c = slash := (List.cons.inj h).1
      have hcut : (c :: rest).take (MAX_PATH - 1) = slash :: rest.take (MAX_PATH - 2) := by
        rw [hslash]
        rfl
      have hle := length_normalForm_le (rest.take (MAX_PATH - 2))
      rw [← hcut, ← h, hcut, List.length_cons, List.length_cons, List.length_take] at hle
      have hmax : MAX_PATH = 260 := rfl
      rw [List.length_cons]
      omega
  · rintro ⟨hlength, S, hS⟩
    have hmax : MAX_PATH = 260 := rfl
    rw [List.take_of_length_le (by omega), hS, normalForm, appendPath_joinList S.isElement]

/-- A shell that saves every shortcut and finds every target. -/
def openShell : Shell where
  saves _ := true
  resolves _ := true

/-- The win32 name of `/l` in `plainTable []`. -/
def nameOfL : Str := [0x43, 0x3A, 0x5C, 0x6B, 0x65, 0x6F, 0x77, 0x5C, 0x5C, 0x5C, 0x6C]

/-- `plainTable []` with the shortcut of `/l`. -/
def tableWithLink (target : Str) : MountTable :=
  { plainTable [] with host := (plainTable []).host.withShortcut (nameOfL ++ lnk) target }

theorem inKeowMount_tableWithLink : InKeowMount (plainTable []) {} [0x2F, 0x6C] where
  keow := ⟨_, 0, _, .root (by simp [plainTable]), rfl⟩
  unmounted _ _ := rfl

theorem undisturbed_tableWithLink (target : Str) :
    Undisturbed (plainTable []) (tableWithLink target) {} [0x2F, 0x6C] where
  pwd := rfl
  creation := noSymbolicLinks_of_noLinks (noLinks_plainTable []) _ _
  directory before e after h _ := absurd h (by
    rw [show unixStack (plainTable []) {} (dirPart [0x2F, 0x6C]) = [] by decide]
    simp)
  plain := by
    have hname : ((plainTable []).walk false [[0x6C]]).getFinalPath ≠ nameOfL ++ lnk := by decide
    show (if ((plainTable []).walk false [[0x6C]]).getFinalPath = nameOfL ++ lnk then target
      else []) = []
    rw [if_neg hname]

/-- The target `/t` of a link `/l`, read into two bytes. -/
theorem sysReadlink_right_iff_absolute :
    ReadlinkRight [0x2F, 0x74] 2#32
      (sysReadlink (tableWithLink [0x2F, 0x74]) {} (fun _ ↦ 0) [0x2F, 0x6C] 2#32) :=
  (sysReadlink_right_iff (t := plainTable []) (by decide)
    (show sysSymlink openShell 0#32 (plainTable []) {} [0x2F, 0x74] [0x2F, 0x6C] =
      .ok (tableWithLink [0x2F, 0x74]) from rfl)
    inKeowMount_tableWithLink (undisturbed_tableWithLink _) _ _).mpr
    ⟨by decide, rfl, by decide, .inr ⟨rfl, by decide⟩⟩

/-- Of the relative target `t`, `readlink` gives `/t`. -/
theorem not_readlinkRight_relative :
    sysSymlink openShell 0#32 (plainTable []) {} [0x74] [0x2F, 0x6C] =
        .ok (tableWithLink [0x74]) ∧
      InKeowMount (plainTable []) {} [0x2F, 0x6C] ∧
      Undisturbed (plainTable []) (tableWithLink [0x74]) {} [0x2F, 0x6C] ∧
      sysReadlink (tableWithLink [0x74]) {} (fun _ ↦ 0) [0x2F, 0x6C] 16#32 =
        { eax := 2#32, written := [0x2F, 0x74] } ∧
      ¬ReadlinkRight [0x74] 16#32
        (sysReadlink (tableWithLink [0x74]) {} (fun _ ↦ 0) [0x2F, 0x6C] 16#32) := by
  refine ⟨rfl, inKeowMount_tableWithLink, undisturbed_tableWithLink _, ?_, ?_⟩
  · decide
  · decide

end Keow.Paths
