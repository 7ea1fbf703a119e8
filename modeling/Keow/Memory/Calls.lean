import Keow.Base.Comp
import Keow.Files.Handler
import Keow.Memory.Process

/-!
# brk, mmap and munmap

The calls with which a process changes its memory. Most mappings are plain allocations into
which the file is read; only a mapping that can be written and is shared becomes one of Windows.
-/

namespace Keow.Memory

open Keow.Base Keow.Kernel
open Keow.Exec (MemoryAlloc PAGE_EXECUTE_READWRITE)

def PROT_WRITE : DWORD := 0x2#32
def MAP_SHARED : DWORD := 0x1#32
def MAP_ANONYMOUS : DWORD := 0x20#32
def MAP_GROWSDOWN : DWORD := 0x100#32

/-- What `sys_mmap` asks of an `IOHFile`: `Length`, `Seek` from the beginning, and what `Read`
delivers there for a length. -/
structure MappedFile where
  length : Int
  seek : DWORD → Bool
  read : DWORD → DWORD → Option (List UInt8)

/-- What the calls rely on beside the allocator. -/
structure CallHost extends Host where
  /-- `-Win32ErrToUnixError(SysCallDll::GetLastError())`. -/
  failure : MemoryState → DWORD
  /-- The slot of `m_OpenFiles`, if it holds an `IOHFile`. -/
  file : DWORD → Option MappedFile
  /-- Where `MapViewOfFileEx` maps a new file mapping that is wanted at an address, with an
  offset and the size of the view; 0 when either fails. -/
  mapView : Space → DWORD → DWORD → Nat → DWORD
  mapView_free : ∀ s addr offset size, mapView s addr offset size ≠ 0#32 →
    s.AllFree ((mapView s addr offset size).toNat / 4096)
      (pageEnd (mapView s addr offset size).toNat size)

/-- `sys_munmap`, `sys_mem.cpp:296–331`. The first mapping of Windows that the process has runs
into a `DebugBreak`, whatever is to be unmapped. -/
def sysMunmap (host : CallHost) (addr len : DWORD) : Comp MemoryState DWORD := fun m ↦
  if m.mmapList ≠ [] then .fault m
  else
    let r := deallocateMemory host.toHost m addr len
    .ok (if r.1 then 0#32 else host.failure r.2) r.2

/-- `sys_brk`, `sys_mem.cpp:41–81`. -/
def sysBrk (host : CallHost) (newBrk : DWORD) : Comp MemoryState DWORD := fun m ↦
  if newBrk = 0#32 then .ok m.brk m
  else if newBrk < m.brk then .ok (-1#32) m
  else if m.brk < newBrk then
    match allocateMemAndProtect host.toHost m m.brk (newBrk - m.brk) PAGE_EXECUTE_READWRITE with
    | none => .wait m
    | some (p, m) => if p = -1#32 then .ok (-1#32) m else .ok newBrk { m with brk := newBrk }
  else .ok newBrk { m with brk := newBrk }

/-- `linux::mmap_arg_struct`. -/
structure MmapArgStruct where
  addr : DWORD
  len : DWORD
  prot : DWORD
  flags : DWORD
  fd : DWORD
  offset : DWORD
deriving DecidableEq

namespace MmapArgStruct

/-- The length rounded up to pages. -/
def len4k (args : MmapArgStruct) : DWORD := (args.len + 0xFFF#32) &&& ~~~0xFFF#32

/-- The descriptor, -1 for swap. -/
def fdOrSwap (args : MmapArgStruct) : DWORD :=
  if args.flags &&& MAP_ANONYMOUS ≠ 0#32 then -1#32 else args.fd

/-- A mapping that can be written and is shared. -/
def WriteShared (args : MmapArgStruct) : Prop :=
  args.prot &&& PROT_WRITE ≠ 0#32 ∧ args.flags &&& MAP_SHARED ≠ 0#32

instance (args : MmapArgStruct) : Decidable args.WriteShared :=
  inferInstanceAs (Decidable (_ ∧ _))

/-- What is returned for a mapping at `p`. -/
def result (args : MmapArgStruct) (p : DWORD) : DWORD :=
  if args.flags &&& MAP_GROWSDOWN ≠ 0#32 then p + args.len else p

end MmapArgStruct

/-- `dwFileSize`. -/
def MappedFile.size (f : MappedFile) : DWORD :=
  if 0x7fffffff < f.length then 0x7fffffff#32 else BitVec.ofInt 32 f.length

/-- The test for mappings that are faked by memory, `sys_mem.cpp:171–175`. The mask of the first
line has a digit too many and tests for 1M. -/
def MmapArgStruct.Fake (args : MmapArgStruct) (ioh : Option MappedFile) : Prop :=
  args.addr &&& 0xFFF00000#32 ≠ args.addr ∨ args.offset &&& 0xFFFF0000#32 ≠ args.offset ∨
    ioh.any (fun f ↦ f.size < args.offset + args.len) ∨ ¬args.WriteShared

instance (args : MmapArgStruct) (ioh : Option MappedFile) : Decidable (args.Fake ioh) :=
  inferInstanceAs (Decidable (_ ∨ _ ∨ _ ∨ _))

/-- Change what the memory holds. -/
def MemoryState.setMem (m : MemoryState) (mem : UserMem) : MemoryState :=
  { m with remote := m.remote.setMem mem }

/-- Reading the file into a mapping at `p`, `sys_mem.cpp:201–228`. -/
def readMapping (host : CallHost) (args : MmapArgStruct) (ioh : Option MappedFile) (p : DWORD) :
    Comp MemoryState DWORD := fun m ↦
  match ioh with
  | none => .ok (args.result p) m
  | some f =>
      let readLen := if f.size < args.offset + args.len then f.size - args.offset else args.len
      match if f.seek args.offset then f.read args.offset readLen else none with
      | none => .ok (host.failure m) m
      | some bytes => .ok (args.result p) (m.setMem (m.remote.mem.write p bytes))

/-- A mapping by memory, `sys_mem.cpp:177–229`. -/
def fakeMmap (host : CallHost) (args : MmapArgStruct) (ioh : Option MappedFile) :
    Comp MemoryState DWORD := fun m ↦
  if args.WriteShared then .ok (-EINVAL) m
  else
    match allocateMemAndProtect host.toHost m args.addr args.len4k PAGE_EXECUTE_READWRITE with
    | none => .wait m
    | some (p, m) =>
        if p = -1#32 then .ok (-ENOMEM) m
        else readMapping host args ioh p
          (m.setMem (m.remote.mem.write p (List.replicate args.len4k.toNat 0)))

/-- The size of the view. The length 0 stands for the rest of the file mapping, which is made to
end at the offset then, and to be as long as the file if that is 0 too. -/
def MmapArgStruct.viewSize (args : MmapArgStruct) (ioh : Option MappedFile) : Nat :=
  if args.len ≠ 0#32 then args.len.toNat
  else if args.offset ≠ 0#32 then 0
  else ioh.elim 0 fun f ↦ f.length.toNat

/-- A mapping of Windows, `sys_mem.cpp:233–288`. -/
def mapFile (host : CallHost) (args : MmapArgStruct) (ioh : Option MappedFile) :
    Comp MemoryState DWORD := fun m ↦
  let p := host.mapView m.remote.space args.addr args.offset (args.viewSize ioh)
  if p = 0#32 then .ok (host.failure m) m
  else
    let access := { read := true, write := args.prot &&& PROT_WRITE ≠ 0#32 }
    .ok (args.result p)
      { m with
        remote := { m.remote with
          space := m.remote.space.update (p.toNat / 4096) (pageEnd p.toNat (args.viewSize ioh))
            fun _ ↦ .committed (p.toNat / 4096) access }
        mmapList := m.mmapList ++ [⟨p, args.len⟩] }

/-- A mapping over a range where nothing is mapped. -/
def mapRange (host : CallHost) (args : MmapArgStruct) (ioh : Option MappedFile) :
    Comp MemoryState DWORD := fun m ↦
  if args.Fake ioh then fakeMmap host args ioh m else mapFile host args ioh m

/-- `sys_mmap`, `sys_mem.cpp:92–289`. What was there is unmapped first. -/
def sysMmap (host : CallHost) (args : MmapArgStruct) : Comp MemoryState DWORD := fun m ↦
  let fd := args.fdOrSwap
  if args.addr &&& ~~~0xFFF#32 ≠ args.addr then .ok (-EINVAL) m
  else if fd ≠ -1#32 ∧ BitVec.ofNat 32 Files.MAX_OPEN_FILES < fd then .ok (-EBADF) m
  else if fd ≠ -1#32 ∧ (host.file fd).isNone then .ok (-EACCES) m
  else
    let ioh := if fd = -1#32 then none else host.file fd
    if args.addr = 0#32 then mapRange host args ioh m
    else Comp.bind (sysMunmap host args.addr args.len4k) (fun _ ↦ mapRange host args ioh) m

/-- The calls. -/
inductive Call where
  | brk (newBrk : DWORD)
  | mmap (args : MmapArgStruct)
  | munmap (addr len : DWORD)

def Call.run (host : CallHost) : Call → Comp MemoryState DWORD
  | .brk newBrk => sysBrk host newBrk
  | .mmap args => sysMmap host args
  | .munmap addr len => sysMunmap host addr len

end Keow.Memory
