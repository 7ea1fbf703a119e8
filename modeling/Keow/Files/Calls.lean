import Keow.Base.Codec
import Keow.Files.Handler

/-!
# System calls on descriptors

The handlers of `sys_io.cpp` that take, make or give back descriptors, the start of `sys_mmap`,
and what `fork` and `execve` do to the tables. Arguments are the registers a handler reads, the
result is Eax.
-/

namespace Keow.Files

open Keow.Base Keow.Kernel

variable {ρ : Type} (env : Environment ρ)

/-- Eax after a failed injected call. -/
def dllError (P : Nat) : F ρ DWORD := do
  let err ← outside (env.dllLastError P)
  return -win32ErrToUnixError err

/-- Eax after a failed call of the kernel. -/
def kernelError : F ρ DWORD := do
  return -win32ErrToUnixError (env.lastError (← Comp.get).rest)

/-- After a failed write: the error is fetched twice, and a broken pipe is signalled,
`sys_io.cpp:62–72`. -/
def writeError (P : Nat) : F ρ DWORD := do
  let err ← outside (env.dllLastError P)
  let eax ← dllError env P
  if err = ERROR_BROKEN_PIPE ∨ err = ERROR_NO_DATA ∨ err = ERROR_PIPE_NOT_CONNECTED then
    modifyRest (env.sendSignal P SIGPIPE)
  return eax

/-- `SysCalls::sys_write`, `sys_io.cpp:41–73`. -/
def sysWrite (P : Nat) (fd address size : DWORD) : F ρ DWORD :=
  withHandler P fd fun ioh ↦ do
    let (done, written) ← method ioh (env.write P ioh address size)
    if done then return written else writeError env P

/-- The loop of `sys_writev` over the buffers that are left. -/
def writevLoop (P ioh : Nat) : Nat → DWORD → DWORD → F ρ DWORD
  | 0, _, total => return total
  | n + 1, pV, total => do
      let r := (← Comp.get).rest
      let base := (Codec.word 4).decode (env.readMemory P pV 4 r)
      let len := (Codec.word 4).decode (env.readMemory P (pV + 4#32) 4 r)
      let (done, written) ← method ioh (env.write P ioh base len)
      if done then writevLoop P ioh n (pV + 8#32) (total + written) else writeError env P

/-- `SysCalls::sys_writev`, `sys_io.cpp:79–127`. -/
def sysWritev (P : Nat) (fd pV count : DWORD) : F ρ DWORD :=
  withHandler P fd fun ioh ↦ writevLoop env P ioh count.toInt.toNat pV 0#32

/-- `SysCalls::sys_read`, `sys_io.cpp:134–157`. -/
def sysRead (P : Nat) (fd address size : DWORD) : F ρ DWORD :=
  withHandler P fd fun ioh ↦ do
    let (done, read) ← method ioh (env.read P ioh address size)
    if done then return read else dllError env P

/-- Where `IOHandler::CreateForPath` gets an object from for a path: from nowhere, from a file
system that makes one, or from descriptor `fd` of process `q` (`/proc/<pid>/fd/<n>`). -/
inductive PathHandler where
  | unknown
  | made (kind : HandlerKind)
  | ofDescriptor (q : Nat) (fd : Int)

/-- `IOHandler::CreateForPath`, `IOHandler.cpp:47–52`, with `FilesystemProc::Get_Pid_Fd`,
`FilesystemProc.cpp:528–538`, which does not look whether the descriptor is in use. -/
def createForPath (P : Nat) : PathHandler → F ρ (Option Nat)
  | .unknown => return none
  | .made kind => some <$> newHandler env P kind
  | .ofDescriptor q fd => do
      if fd < 0 ∨ (MAX_OPEN_FILES : Int) ≤ fd then return none
      else
        match ← slot q fd with
        | none => Comp.exit
        | some ioh => some <$> duplicate env P ioh

def GENERIC_READ : DWORD := 0x80000000#32
def GENERIC_WRITE : DWORD := 0x40000000#32

/-- `win32access`, `sys_io.cpp:217–224`. -/
def win32Access (access : DWORD) : DWORD :=
  if access &&& O_ACCMODE = O_WRONLY then GENERIC_WRITE
  else if access &&& O_ACCMODE = O_RDONLY then GENERIC_READ
  else GENERIC_READ ||| GENERIC_WRITE

/-- `win32share`: `FILE_SHARE_READ|FILE_SHARE_WRITE` unless `O_EXCL` is set. -/
def win32Share (access : DWORD) : DWORD := if access &&& O_EXCL ≠ 0#32 then 0#32 else 3#32

/-- `disposition`: `OPEN_ALWAYS` or `OPEN_EXISTING`. -/
def win32Disposition (access : DWORD) : DWORD := if access &&& O_CREAT ≠ 0#32 then 4#32 else 3#32

/-- What `O_TRUNC` and `O_APPEND` do to a file just opened, `sys_io.cpp:257–266`. -/
def moreFlags (P ioh : Nat) (access : DWORD) : F ρ Unit := do
  if access &&& O_TRUNC ≠ 0#32 then
    let _ ← method ioh (env.seek P ioh 0#64 FILE_BEGIN)
    method ioh fun r ↦ (⟨⟩, env.truncate P ioh r)
  if access &&& O_APPEND ≠ 0#32 then
    let _ ← method ioh (env.seek P ioh 0#64 FILE_END)

/-- `SysCalls::sys_open` of a path with these access flags, `sys_io.cpp:198–268`. -/
def sysOpen (P : Nat) (path : PathHandler) (access : DWORD) : F ρ DWORD := do
  match ← findFreeFD P with
  | none => return -EMFILE
  | some fd =>
      match ← createForPath env P path with
      | none => return - ENXIO
      | some ioh =>
          let ok ← method ioh (env.openHandler P ioh (win32Access access) (win32Share access)
            (win32Disposition access) 0#32)
          if ok then
            setSlot P fd (some ioh)
            moreFlags env P ioh access
            return BitVec.ofNat 32 fd
          else
            let eax ← kernelError env
            deleteHandler env P ioh
            return eax

/-- `SysCalls::sys_close`, `sys_io.cpp:277–301`. -/
def sysClose (P : Nat) (fd : DWORD) : F ρ DWORD :=
  withHandler P fd fun ioh ↦ do
    deleteHandler env P ioh
    setSlot P fd.toInt none
    return 0#32

/-- `SysCalls::sys_ioctl`, `sys_io.cpp:322–343`. -/
def sysIoctl (P : Nat) (fd request data : DWORD) : F ρ DWORD :=
  withHandler P fd fun ioh ↦ method ioh (env.ioctl P ioh request data)

def FILE_ATTRIBUTE_DIRECTORY : DWORD := 0x10#32

/-- `SysCalls::sys_fchdir`, `sys_io.cpp:402–445`. -/
def sysFchdir (P : Nat) (fd : DWORD) : F ρ DWORD :=
  withHandler P fd fun ioh ↦ do
    let h ← deref ioh
    if h.kind ≠ .file then return -EBADF
    else
      match env.fileAttributes ioh (← Comp.get).rest with
      | none => kernelError env
      | some attr =>
          if attr &&& FILE_ATTRIBUTE_DIRECTORY = 0#32 then return -ENOTDIR
          else
            modifyRest (env.setPwd P ioh)
            return 0#32

/-- What is open at the new descriptor of a `dup2` is closed, `sys_io.cpp:591–597`. -/
def closeExisting (P : Nat) (fd : Int) : F ρ Unit := do
  match ← slot P fd with
  | none => return ⟨⟩
  | some ioh =>
      closeHandler env P ioh
      deleteHandler env P ioh
      setSlot P fd none

/-- `SysCalls::sys_dup2`, `sys_io.cpp:563–607`. -/
def sysDup2 (P : Nat) (fdold fdnew : DWORD) : F ρ DWORD :=
  withHandler P fdold fun iohOld ↦ do
    if fdnew.toInt < 0 ∨ (MAX_OPEN_FILES : Int) < fdnew.toInt ∨ fdnew = fdold then return -EBADF
    else
      closeExisting env P fdnew.toInt
      let iohNew ← duplicate env P iohOld
      setSlot P fdnew.toInt (some iohNew)
      return fdnew

/-- `SysCalls::sys_dup`, `sys_io.cpp:536–557`. -/
def sysDup (P : Nat) (fd : DWORD) : F ρ DWORD := do
  match ← findFreeFD P with
  | none => return -EMFILE
  | some fdnew => sysDup2 env P fd (BitVec.ofNat 32 fdnew)

/-- `SysCalls::sys_fcntl`, `sys_io.cpp:450–533`. -/
def sysFcntl (P : Nat) (fd cmd arg : DWORD) : F ρ DWORD :=
  withHandler P fd fun ioh ↦ do
    let h ← deref ioh
    if cmd = F_GETFD then return if h.inheritable then 0#32 else 1#32
    else if cmd = F_SETFD then
      modifyTable fun t ↦ t.setObject ioh (some { h with inheritable := arg = 0#32 })
      return 0#32
    else if cmd = F_GETFL then return h.flags
    else if cmd = F_SETFL then
      modifyTable fun t ↦ t.setObject ioh (some { h with flags := arg })
      return 0#32
    else if cmd = F_DUPFD then
      match ← findFreeFD P with
      | none => return -EMFILE
      | some fdnew =>
          if arg.toInt < fdnew then return EINVAL
          else
            let eax ← sysDup2 env P fd (BitVec.ofNat 32 fdnew)
            match ← slot P fdnew with
            | none => Comp.exit
            | some iohNew =>
                let hNew ← deref iohNew
                modifyTable fun t ↦ t.setObject iohNew (some { hNew with inheritable := false })
                return eax
    else return -ENOSYS

/-- `SysCalls::sys_getdents64`, `sys_io.cpp:613–658`. -/
def sysGetdents64 (P : Nat) (fd address maxbytes : DWORD) : F ρ DWORD :=
  withHandler P fd fun ioh ↦ do
    match ← method ioh (env.getDirEnts64 P ioh maxbytes.toInt) with
    | none => kernelError env
    | some filled =>
        if filled ≠ [] then modifyRest (env.writeMemory P address filled)
        return BitVec.ofNat 32 filled.length

/-- `SysCalls::sys_fstat`, `sys_io.cpp:733–762`. -/
def sysFstat (P : Nat) (fd address : DWORD) : F ρ DWORD :=
  withHandler P fd fun ioh ↦ do
    match ← method ioh (env.stat P ioh) with
    | none => kernelError env
    | some buf =>
        modifyRest (env.writeMemory P address buf)
        return 0#32

/-- `SysCalls::sys_fstat64`, `sys_io.cpp:840–869`. -/
def sysFstat64 (P : Nat) (fd address : DWORD) : F ρ DWORD :=
  withHandler P fd fun ioh ↦ do
    match ← method ioh (env.stat64 P ioh) with
    | none => kernelError env
    | some buf =>
        modifyRest (env.writeMemory P address buf)
        return 0#32

/-- The Win32 origin of a `whence`. -/
def seekMethod (whence : DWORD) : Option DWORD :=
  if whence = SEEK_SET then some FILE_BEGIN
  else if whence = SEEK_END then some FILE_END
  else if whence = SEEK_CUR then some FILE_CURRENT
  else none

/-- `SysCalls::sys__llseek`, `sys_io.cpp:1030–1081`. -/
def sysLlseek (P : Nat) (fd offsetHigh offsetLow result whence : DWORD) : F ρ DWORD :=
  withHandler P fd fun ioh ↦ do
    match seekMethod whence with
    | none => return -EINVAL
    | some m =>
        let pos ← method ioh (env.seek P ioh (offsetHigh ++ offsetLow) m)
        modifyRest (env.writeMemory P result ((Codec.word 8).encode pos))
        dllError env P

/-- `SysCalls::sys_lseek`, `sys_io.cpp:1084–1130`. -/
def sysLseek (P : Nat) (fd offset whence : DWORD) : F ρ DWORD :=
  withHandler P fd fun ioh ↦ do
    match seekMethod whence with
    | none => return -EINVAL
    | some m =>
        let pos ← method ioh (env.seek P ioh (0#32 ++ offset) m)
        let eax ← dllError env P
        return if eax = 0#32 then pos.setWidth 32 else eax

/-- The file that `sys_mmap` is to map, if any, `sys_mem.cpp:103–127`. The members of
`mmap_arg_struct` are unsigned; a descriptor of -1 stands for the swap file. -/
def mmapFile (P : Nat) (fd : DWORD) : F ρ (DWORD ⊕ Option Nat) := do
  if fd = -1#32 then return .inr none
  else if MAX_OPEN_FILES < fd.toNat then return .inl (-EBADF)
  else
    match ← slot P fd.toNat with
    | none => return .inl (-EACCES)
    | some ioh =>
        let h ← deref ioh
        if h.kind = .file then return .inr (some ioh) else return .inl (-EACCES)

/-! The members of `mmap_arg_struct` that `sys_mmap` looks at first. -/

def mmapAddr (args : List UInt8) : DWORD := (Codec.word 4).decode (args.take 4)
def mmapFlags (args : List UInt8) : DWORD := (Codec.word 4).decode ((args.drop 12).take 4)

/-- The descriptor, -1 for a mapping that is anonymous. -/
def mmapFd (args : List UInt8) : DWORD :=
  if mmapFlags args &&& MAP_ANONYMOUS ≠ 0#32 then -1#32
  else (Codec.word 4).decode ((args.drop 16).take 4)

/-- `SysCalls::sys_mmap`, `sys_mem.cpp:91–293`, of the arguments at an address. -/
def sysMmap (P : Nat) (pArgs : DWORD) : F ρ DWORD := do
  let args := env.readMemory P pArgs 24 (← Comp.get).rest
  if mmapAddr args &&& ~~~0xFFF#32 ≠ mmapAddr args then return -EINVAL
  else
    match ← mmapFile P (mmapFd args) with
    | .inl eax => return eax
    | .inr ioh => outside (env.mapMemory P args ioh)

/-- `SysCalls::sys_pipe`, `sys_io.cpp:917–939`. Without a free slot the index is -1. -/
def sysPipe (P : Nat) (address : DWORD) : F ρ DWORD := do
  if ← outside (env.createPipe P) then
    let fd0 := (← findFreeFD P).elim (-1 : Int) Int.ofNat
    setSlot P fd0 (some (← newHandler env P .pipe))
    let fd1 := (← findFreeFD P).elim (-1 : Int) Int.ofNat
    setSlot P fd1 (some (← newHandler env P .pipe))
    modifyRest (env.writeMemory P address
      ((Codec.word 4).encode (BitVec.ofInt 32 fd0) ++ (Codec.word 4).encode (BitVec.ofInt 32 fd1)))
    return 0#32
  else kernelError env

/-- A slot is cloned into the child, on its kernel thread. -/
def forkFile (parent child fd : Nat) : F ρ Unit := do
  match ← slot parent fd with
  | none => return ⟨⟩
  | some ioh => setSlot child fd (some (← duplicate env child ioh))

/-- The loop of `ForkCopyOtherProcess` that clones files, over the indices that
are left, `Process.cpp:825–832`. -/
def forkFiles (parent child : Nat) : List Nat → F ρ Unit
  | [] => return ⟨⟩
  | fd :: fds => do
      forkFile env parent child fd
      forkFiles parent child fds

/-- A fork, as far as open files go: a process with an empty table, then the clones. -/
def fork (P : Nat) : F ρ Unit := do
  let child := (← Comp.get).table.processes
  modifyTable fun t ↦ { t with processes := t.processes + 1 }
  forkFiles env P child (List.range MAX_OPEN_FILES)

/-- A slot is closed unless `execve` keeps it. -/
def releaseFile (P fd : Nat) : F ρ Unit := do
  match ← slot P fd with
  | none => return ⟨⟩
  | some ioh =>
      let h ← deref ioh
      if ¬h.inheritable then
        closeHandler env P ioh
        deleteHandler env P ioh
        setSlot P fd none

/-- The loop of `FreeResourcesBeforeExec` that closes files, over the indices that are left,
`Process.cpp:2140–2151`. -/
def releaseFiles (P : Nat) : List Nat → F ρ Unit
  | [] => return ⟨⟩
  | fd :: fds => do
      releaseFile env P fd
      releaseFiles P fds

/-- The open files' part of a successful `execve`. -/
def freeResourcesBeforeExec (P : Nat) : F ρ Unit :=
  releaseFiles env P (List.range MAX_OPEN_FILES)

end Keow.Files
