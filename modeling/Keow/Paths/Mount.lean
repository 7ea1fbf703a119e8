import Keow.Paths.Element

/-!
# Mount points and path resolution

`Path::TranverseMountPoints` and what it calls, `Path.cpp:238–376`, over the mount
table of `KernelTable.h` and the three file systems that can be mounted
(`FilesystemKeow.cpp:211–235`, `FilesystemGenericStatic.cpp:295–315`). What Win32
knows about a file name is a parameter, `Host`.
-/

namespace Keow.Paths

/-- The Win32 side of link resolution: `GetFileAttributes` on a name and the target text
of the shortcut stored there (empty when it is no shortcut). -/
structure Host where
  fileExists : Str → Bool
  shortcutTarget : Str → Str

/-- The mountable file systems. -/
inductive Filesystem where
  | keow
  | proc
  | dev
deriving DecidableEq

namespace Filesystem

/-- `GetPathSeperator`, `FilesystemKeow.cpp:211–214`, `FilesystemGenericStatic.cpp:295–298`. -/
def getPathSeperator : Filesystem → UInt8
  | keow => backslash
  | proc | dev => slash

/-- `GetLinkDestination`, `FilesystemKeow.cpp:222–229`, `FilesystemGenericStatic.cpp:306–310`. -/
def getLinkDestination (host : Host) (path : Str) : Filesystem → Str
  | keow => if host.fileExists path then host.shortcutTarget path else []
  | proc | dev => []

/-- `IsRelativePath`, `FilesystemKeow.cpp:231–234`, `FilesystemGenericStatic.cpp:312–315`.
Indexing a string past its end reads a NUL. -/
def isRelativePath (path : Str) : Filesystem → Bool
  | keow => path.getD 0 0 != slash && path.getD 1 0 != backslash
  | proc | dev => path.getD 0 0 != slash

end Filesystem

/-- `MountPoint`, `MountPoint.h:36–71`. -/
structure MountPoint where
  unixMountPoint : ElementList
  destination : Str
  filesystem : Filesystem

/-- The kernel's mounts: the root and the list in mount order, beside the host. -/
structure MountTable where
  rootMountPoint : MountPoint
  mountPoints : List MountPoint
  host : Host

/-- A `Path` object, `Path.h:74–82`. -/
structure Path where
  pathStack : ElementList := ElementList.nil
  finalMountPoint : Option MountPoint := none
  mountRealPath : Str := []
  pathInMountPoint : Str := []
  actualUnixPath : Str := []
  followSymLinks : Bool := true
  needCalculation : Bool := true
  win32Path : Str := []

/-- What `TranverseMountPoints` keeps while it walks the stack. -/
structure Resolution where
  finalMountPoint : MountPoint
  mountRealPath : Str
  pathInMountPoint : Str
  finalUnixPath : List Str

/-- `".lnk"`. -/
def lnk : Str := [0x2E, 0x6C, 0x6E, 0x6B]

/-- `Path::EqualsPartialPath`, `Path.cpp:355–376`. -/
def equalsPartialPath (this other : List Str) (otherLen : Nat) : Bool :=
  if otherLen ≠ this.length ∨ otherLen > other.length then false
  else ((this.zip other).take otherLen).all (fun p ↦ p.1 == p.2)

/-- `Path::GetFinalPath`, `Path.cpp:243–250`. -/
def Resolution.getFinalPath (r : Resolution) : Str :=
  (if r.mountRealPath ≠ [] then
    r.mountRealPath ++ [r.finalMountPoint.filesystem.getPathSeperator]
  else []) ++ r.pathInMountPoint

/-- The walk before the first element, `Path.cpp:258–260`. -/
def MountTable.start (t : MountTable) : Resolution where
  finalMountPoint := t.rootMountPoint
  pathInMountPoint := [t.rootMountPoint.filesystem.getPathSeperator]
  mountRealPath := t.rootMountPoint.destination
  finalUnixPath := []

/-- The scan of the mount list for the first `cnt` elements, `Path.cpp:270–287`: every
mount that matches takes over, and the flag tells whether one did. -/
def followMounts (stack : List Str) (cnt : Nat) (element : Str) (mounts : List MountPoint)
    (r : Resolution) : Resolution × Bool :=
  mounts.foldl (fun (r, found) mp ↦
    if equalsPartialPath mp.unixMountPoint.elements stack cnt then
      ({ finalMountPoint := mp
         mountRealPath := mp.destination
         pathInMountPoint := [slash]
         finalUnixPath := appendPath r.finalUnixPath element }, true)
    else (r, found)) (r, false)

/-- The link destination found for an element, `Path.cpp:291–300`. -/
def linkDestination (t : MountTable) (r : Resolution) (element : Str) : Str :=
  let fs := r.finalMountPoint.filesystem
  let curpath := r.getFinalPath
  let curpath := (if curpath ≠ [] then curpath ++ [fs.getPathSeperator] else curpath) ++ element
  fs.getLinkDestination t.host (curpath ++ lnk)

/-- An element on which nothing is mounted, `Path.cpp:290–332`. -/
def followElement (t : MountTable) (followSymLinks : Bool) (element : Str) (r : Resolution) :
    Resolution :=
  let fs := r.finalMountPoint.filesystem
  let lnkDest := linkDestination t r element
  let isLnk := lnkDest ≠ []
  if isLnk ∧ followSymLinks then
    if fs.isRelativePath lnkDest then
      { r with
        pathInMountPoint := r.pathInMountPoint ++ [fs.getPathSeperator] ++ lnkDest
        finalUnixPath := appendPath r.finalUnixPath lnkDest }
    else
      { r with
        mountRealPath := [slash]
        pathInMountPoint := lnkDest
        finalUnixPath := appendPath [] lnkDest }
  else
    { r with
      pathInMountPoint := r.pathInMountPoint ++ [fs.getPathSeperator] ++ element ++
        (if isLnk then lnk else [])
      finalUnixPath := appendPath r.finalUnixPath element }

/-- One turn of the loop over the stack, `Path.cpp:266–333`. -/
def tranverseElement (t : MountTable) (followSymLinks : Bool) (stack : List Str) (cnt : Nat)
    (element : Str) (r : Resolution) : Resolution :=
  let (r', found) := followMounts stack cnt element t.mountPoints r
  if found then r' else followElement t followSymLinks element r'

/-- The loop over the elements that are left, `cnt` counting from the first of them. -/
def tranverseLoop (t : MountTable) (followSymLinks : Bool) (stack : List Str) :
    List Str → Nat → Resolution → Resolution
  | [], _, r => r
  | element :: rest, cnt, r =>
      tranverseLoop t followSymLinks stack rest (cnt + 1)
        (tranverseElement t followSymLinks stack cnt element r)

/-- `Path::TranverseMountPoints`, `Path.cpp:252–341`. -/
def tranverseMountPoints (t : MountTable) (p : Path) : Path :=
  let r := tranverseLoop t p.followSymLinks p.pathStack.elements p.pathStack.elements 1 t.start
  { p with
    finalMountPoint := some r.finalMountPoint
    mountRealPath := r.mountRealPath
    pathInMountPoint := r.pathInMountPoint
    actualUnixPath := slash :: joinList r.finalUnixPath slash
    win32Path := r.getFinalPath
    needCalculation := false }

/-- Resolution on demand, as every getter of `Path` begins (`Path.cpp:219–221`). -/
def Path.calculated (t : MountTable) (p : Path) : Path :=
  if p.needCalculation then tranverseMountPoints t p else p

/-- `Path::GetUnixPath`. -/
def Path.getUnixPath (t : MountTable) (p : Path) : Str := (p.calculated t).actualUnixPath

/-- `Path::GetWin32Path`. -/
def Path.getWin32Path (t : MountTable) (p : Path) : Str := (p.calculated t).win32Path

/-- `Path::SetUnixPath`, `Path.cpp:83–105`; its trace output resolves the new path. -/
def Path.setUnixPath (t : MountTable) (p unixPwd : Path) (path : Str) : Path :=
  let stack :=
    if path.getD 0 0 = slash then ElementList.nil
    else ElementList.nil.append (unixPwd.getUnixPath t)
  Path.calculated t { p with pathStack := stack.append path, needCalculation := true }

end Keow.Paths
