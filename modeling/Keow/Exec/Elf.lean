import Keow.Base.Patch
import Keow.Kernel.Process
import Keow.Paths.Element

/-!
# Loading an ELF image

`Process::LoadElfImage` (`Process.cpp:1017–1264`) with `MemoryHelper::FillMem`
(`MemoryHelper.cpp:302–324`) and `MemoryHelper::AllocateMemAndProtect`. A page that is not
committed is represented by the zeros that committing it brings, so an allocation leaves the
memory as it is. What `p_flags` asks for is computed by the source and never used.
-/

namespace Keow.Exec

open Keow.Base Keow.Kernel Keow.Paths

/-! Constants of `linux_defines.h`, and two of Win32. -/

def ET_EXEC : BitVec 16 := 2#16
def ET_DYN : BitVec 16 := 3#16
def EM_386 : BitVec 16 := 3#16
def EV_CURRENT : DWORD := 1#32
def PT_LOAD : DWORD := 1#32
def PT_INTERP : DWORD := 3#32
def PT_PHDR : DWORD := 6#32
def ERROR_BAD_FORMAT : DWORD := 11#32
def PAGE_READWRITE : DWORD := 0x04#32
def PAGE_EXECUTE_READWRITE : DWORD := 0x40#32

/-- `MAX_PATH`, the size of `ElfLoadData::Interpreter`. -/
def maxPath : Nat := 260

/-! ## Headers -/

/-- A 16-bit field of a structure in memory. -/
def half (bs : List UInt8) (offset : Nat) : BitVec 16 := (Codec.word 2).decode (bs.drop offset)

/-- A 32-bit field of a structure in memory. -/
def word (bs : List UInt8) (offset : Nat) : DWORD := (Codec.word 4).decode (bs.drop offset)

/-- `elf32_hdr`, as far as it is read. -/
structure Elf32Hdr where
  eIdent : List UInt8
  eType : BitVec 16
  eMachine : BitVec 16
  eVersion : DWORD
  eEntry : DWORD
  ePhoff : DWORD
  ePhentsize : BitVec 16
  ePhnum : BitVec 16
deriving DecidableEq

/-- `sizeof(elf32_hdr)`. -/
def sizeofHdr : Nat := 52

/-- The header at the start of a buffer. -/
def Elf32Hdr.ofBytes (bs : List UInt8) : Elf32Hdr where
  eIdent := bs.take 16
  eType := half bs 16
  eMachine := half bs 18
  eVersion := word bs 20
  eEntry := word bs 24
  ePhoff := word bs 28
  ePhentsize := half bs 42
  ePhnum := half bs 44

/-- What `LoadElfImage` asks of a header before anything else, `Process.cpp:1022–1038`. -/
def Elf32Hdr.Valid (hdr : Elf32Hdr) : Prop :=
  (hdr.eType = ET_EXEC ∨ hdr.eType = ET_DYN) ∧ hdr.eMachine = EM_386 ∧
    hdr.eVersion = EV_CURRENT ∧ hdr.eIdent[6]? = some 1

instance (hdr : Elf32Hdr) : Decidable hdr.Valid := by
  unfold Elf32Hdr.Valid
  infer_instance

/-- `Elf32_Phdr`, as far as it is used. -/
structure Phdr where
  pType : DWORD
  pOffset : DWORD
  pVaddr : DWORD
  pFilesz : DWORD
  pMemsz : DWORD
  pAlign : DWORD
deriving DecidableEq

/-- The program header at the start of a buffer. -/
def Phdr.ofBytes (bs : List UInt8) : Phdr where
  pType := word bs 0
  pOffset := word bs 4
  pVaddr := word bs 8
  pFilesz := word bs 16
  pMemsz := word bs 20
  pAlign := word bs 28

/-- How far into the buffer the fields reach that a header of this type makes the loop read. -/
def Phdr.extent (p : Phdr) : Nat :=
  if p.pType = PT_LOAD then 32
  else if p.pType = PT_PHDR then 12
  else if p.pType = PT_INTERP then 20
  else 4

/-! ## Files -/

/-- An open file: its contents and the file pointer. -/
structure Handle where
  bytes : List UInt8
  pos : Nat := 0

/-- `SetFilePointer` from the beginning. The distance is signed, and a negative one fails. -/
def Handle.seek (h : Handle) (distance : DWORD) : Handle :=
  if distance.toInt < 0 then h else { h with pos := distance.toNat }

/-- What `ReadFile` delivers. -/
def Handle.read (h : Handle) (len : Nat) : List UInt8 := (h.bytes.drop h.pos).take len

/-- The file after `ReadFile`. -/
def Handle.skip (h : Handle) (len : Nat) : Handle :=
  { h with pos := h.pos + (h.read len).length }

/-- What `ReadFile` leaves in a buffer: a short read keeps the rest of it. -/
def overwrite (buf bytes : List UInt8) : List UInt8 := bytes ++ buf.drop bytes.length

/-- One round of the loop over the program headers: the header, and what `ReadFile` delivers
for it at `p_offset`. -/
structure Entry where
  phdr : Phdr
  payload : List UInt8
deriving DecidableEq

/-- The file once the round is over: only segments and interpreter names are read. -/
def Handle.afterRound (h : Handle) (p : Phdr) : Handle :=
  if p.pType = PT_LOAD ∧ p.pFilesz ≠ 0#32 ∨ p.pType = PT_INTERP then
    (h.seek p.pOffset).skip p.pFilesz.toNat
  else h

/-- The `n` rounds from the `i`-th on, `Process.cpp:1083–1086`. The buffer lives through the
loop, so that a short read leaves the previous header in it. -/
def Elf32Hdr.rounds (hdr : Elf32Hdr) : Nat → Nat → Handle → List UInt8 → List Entry
  | 0, _, _, _ => []
  | n + 1, i, h, buf =>
      let h := h.seek (hdr.ePhoff + BitVec.ofNat 32 (i * hdr.ePhentsize.toNat))
      let buf := overwrite buf (h.read hdr.ePhentsize.toNat)
      let h := h.skip hdr.ePhentsize.toNat
      let p := Phdr.ofBytes buf
      ⟨p, (h.seek p.pOffset).read p.pFilesz.toNat⟩ ::
        hdr.rounds n (i + 1) (h.afterRound p) buf

/-! ## The process while it is given an image -/

/-- `Process::MemoryAlloc`. -/
structure MemoryAlloc where
  addr : DWORD
  len : DWORD
  prot : DWORD
deriving DecidableEq

/-- `Process::ElfLoadData`, `Process.h:171–185`. -/
structure ElfLoadData where
  phdrAddr : DWORD := 0#32
  phdrPhnum : DWORD := 0#32
  phdrPhent : DWORD := 0#32
  imageBase : DWORD := 0#32
  startAddr : DWORD := 0#32
  programBase : DWORD := 0#32
  programMax : DWORD := 0#32
  interpreterBase : DWORD := 0#32
  interpreterStart : DWORD := 0#32
  bssStart : DWORD := 0#32
  brk : DWORD := 0#32
  lastLibAddr : DWORD := 0#32
  interpreter : List UInt8 := List.replicate maxPath 0

/-- A process with what `execve` replaces. `loadData2` is the copy of the load data that an
interpreter is loaded with, while it is loaded. -/
structure Task where
  world : World
  mmapList : List DWORD := []
  memoryAllocations : List MemoryAlloc := []
  elfLoadData : ElfLoadData := {}
  loadData2 : Option ElfLoadData := none
  arguments : List Str := []
  environment : List Str := []
  processFileImage : Str := []
  keowUserStackBase : DWORD := 0#32
  keowUserStackTop : DWORD := 0#32
  uid : DWORD := 0#32
  gid : DWORD := 0#32

/-- A computation of the kernel thread on its task. -/
abbrev X := Comp Task

/-- What loading an image relies on outside this kernel. -/
structure Host where
  /-- `CreateFile` for reading, on the file that a Unix path stands for: its contents, or the
  error. -/
  createFile : Str → Except DWORD (List UInt8)
  /-- `AllocateMemAndProtectProcess`, after the allocations recorded so far. -/
  allocateMem : List MemoryAlloc → DWORD → DWORD → DWORD
  /-- `VirtualFreeEx` with `MEM_DECOMMIT`. -/
  virtualFree : UserMem → DWORD → DWORD → UserMem
  /-- What a fresh buffer holds. -/
  uninitialised : Nat → List UInt8
  createFile_error : ∀ {path err}, createFile path = .error err → err ≠ 0#32
  length_uninitialised : ∀ n, (uninitialised n).length = n

/-- What `pElfLoadData` points to. -/
def Task.pElfLoadData (t : Task) : ElfLoadData := t.loadData2.getD t.elfLoadData

/-- Write through `pElfLoadData`. -/
def Task.setElfLoadData (f : ElfLoadData → ElfLoadData) (t : Task) : Task :=
  match t.loadData2 with
  | some d => { t with loadData2 := some (f d) }
  | none => { t with elfLoadData := f t.elfLoadData }

/-- Change the memory of the user process. -/
def Task.setMem (f : UserMem → UserMem) (t : Task) : Task :=
  { t with world := { t.world with mem := f t.world.mem } }

/-! ## Segments -/

/-- `MemoryHelper::FillMem`, `MemoryHelper.cpp:302–324`. -/
def fillMem (mem : UserMem) (toAddr : DWORD) (len : Int) (fill : UInt8) : UserMem :=
  if 0 < len then
    if 1024 < len then
      fillMem (mem.write toAddr (List.replicate 1024 fill)) (toAddr + 1024#32) (len - 1024) fill
    else mem.write toAddr (List.replicate len.toNat fill)
  else mem
termination_by len.toNat

/-- `pWantMem`. -/
def Phdr.wantMem (p : Phdr) (base : DWORD) : DWORD := p.pVaddr + base

/-- `pAlignedMem`, the start rounded down. -/
def Phdr.alignedMem (p : Phdr) (base : DWORD) : DWORD :=
  if 1#32 < p.pAlign then p.wantMem base &&& ~~~(p.pAlign - 1#32) else p.wantMem base

/-- `AlignedSize`, the length rounded up. -/
def Phdr.alignedSize (p : Phdr) (base : DWORD) : DWORD :=
  if 1#32 < p.pAlign then
    (p.pMemsz + (p.wantMem base - p.alignedMem base) + (p.pAlign - 1#32)) &&&
      ~~~(p.pAlign - 1#32)
  else p.pMemsz

/-- The larger address. -/
def maxAddr (a b : DWORD) : DWORD := if b < a then a else b

/-- The bookkeeping after a segment, `Process.cpp:1143–1162`. -/
def ElfLoadData.recordSegment (base : DWORD) (library : Bool) (p : Phdr) (d : ElfLoadData) :
    ElfLoadData :=
  let pMem := p.alignedMem base
  if library then { d with lastLibAddr := maxAddr (pMem + p.pMemsz) d.lastLibAddr }
  else
    { d with
      bssStart := maxAddr (pMem + p.pFilesz) d.bssStart
      brk := maxAddr (pMem + p.alignedSize base) d.brk
      programBase := if pMem < d.programBase ∨ d.programBase = 0#32 then pMem else d.programBase
      programMax := maxAddr (pMem + p.pMemsz) d.programMax }

/-- The records after `AllocateMemAndProtect` has been given this address. -/
def recordAlloc (allocs : List MemoryAlloc) (addr len prot : DWORD) : List MemoryAlloc :=
  if addr = -1#32 then allocs else allocs ++ [⟨addr, len, prot⟩]

/-- `MemoryHelper::AllocateMemAndProtect`, `MemoryHelper.cpp:117–123`. -/
def allocateMemAndProtect (host : Host) (addr size prot : DWORD) : X DWORD := do
  let t ← Comp.get
  let actual := host.allocateMem t.memoryAllocations addr size
  Comp.modify (fun t ↦
    { t with memoryAllocations := recordAlloc t.memoryAllocations actual size prot })
  return actual

/-- A `PT_LOAD` round, `Process.cpp:1088–1163`: whether the loop goes on. -/
def loadSegment (host : Host) (base : DWORD) (library : Bool) (e : Entry) : X Bool := do
  let pMem ← allocateMemAndProtect host (e.phdr.alignedMem base) (e.phdr.alignedSize base)
    PAGE_EXECUTE_READWRITE
  if pMem ≠ e.phdr.alignedMem base then return false
  else
    Comp.modify (Task.setMem (fun mem ↦
      fillMem mem (e.phdr.alignedMem base) (e.phdr.alignedSize base).toInt 0))
    if e.phdr.pFilesz ≠ 0#32 ∧ e.payload.length ≠ e.phdr.pFilesz.toNat then return false
    else
      -- nothing was read for an empty segment, and nothing is stored
      Comp.modify (Task.setMem (fun mem ↦ mem.write (e.phdr.wantMem base) e.payload))
      Comp.modify (Task.setElfLoadData (ElfLoadData.recordSegment base library e.phdr))
      return true

/-- A `PT_PHDR` round, `Process.cpp:1166–1173`. -/
def ElfLoadData.recordPhdr (hdr : Elf32Hdr) (base : DWORD) (p : Phdr) (d : ElfLoadData) :
    ElfLoadData :=
  { d with
    phdrAddr := p.pVaddr + base
    phdrPhnum := hdr.ePhnum.setWidth 32
    phdrPhent := hdr.ePhentsize.setWidth 32 }

/-- A `PT_INTERP` round, `Process.cpp:1175–1179`. -/
def ElfLoadData.recordInterpreter (payload : List UInt8) (d : ElfLoadData) : ElfLoadData :=
  { d with interpreter := overwrite d.interpreter payload }

/-- A round of the loop: whether the loop goes on. Fields past the end of the header buffer and
bytes past the end of `Interpreter` are out of bounds. -/
def visitEntry (host : Host) (hdr : Elf32Hdr) (base : DWORD) (library : Bool) (e : Entry) :
    X Bool :=
  if hdr.ePhentsize.toNat < e.phdr.extent then Comp.fault
  else if e.phdr.pType = PT_LOAD then loadSegment host base library e
  else if e.phdr.pType = PT_PHDR then do
    Comp.modify (Task.setElfLoadData (ElfLoadData.recordPhdr hdr base e.phdr))
    return true
  else if e.phdr.pType = PT_INTERP then
    if maxPath < e.payload.length then Comp.fault
    else do
      Comp.modify (Task.setElfLoadData (ElfLoadData.recordInterpreter e.payload))
      return true
  else return true

/-- The loop over the program headers: `loadok`. -/
def visitEntries (host : Host) (hdr : Elf32Hdr) (base : DWORD) (library : Bool) :
    List Entry → X Bool
  | [] => return true
  | e :: es => do
      if ← visitEntry host hdr base library e then visitEntries host hdr base library es
      else return false

/-! ## The image and its interpreter -/

/-- `pBaseAddr`, `Process.cpp:1055–1065`. -/
def Elf32Hdr.baseAddr (hdr : Elf32Hdr) (library : Bool) (lastLibAddr : DWORD) : DWORD :=
  if library = true ∨ hdr.eType = ET_DYN then
    ((if lastLibAddr = 0#32 then 0x40000000#32 else lastLibAddr) + 0xFFFF#32) &&& ~~~0xFFFF#32
  else 0#32

/-- The load data before the first round, `Process.cpp:1055–1070`. -/
def ElfLoadData.begin (hdr : Elf32Hdr) (library : Bool) (d : ElfLoadData) : ElfLoadData :=
  let base := hdr.baseAddr library d.lastLibAddr
  { d with
    interpreterBase :=
      if library = true ∨ hdr.eType = ET_DYN then base else d.interpreterBase
    interpreter := overwrite d.interpreter [0]
    startAddr := hdr.eEntry + base
    imageBase := base }

/-- The string in `Interpreter`, if it ends inside. -/
def interpreterName (interpreter : List UInt8) : Option Str :=
  if 0 ∈ interpreter then some (interpreter.takeWhile (· != 0)) else none

/-- The bytes of a string literal of the source. -/
def ascii (s : String) : Str := s.toList.map (fun c ↦ UInt8.ofNat c.toNat)

/-- The interpreters of IBCS executables, which are refused. -/
def ibcsInterpreters : List Str := [ascii "/usr/lib/libc.so.1", ascii "/usr/lib/ld.so.1"]

/-- The header that is read into `hdr2`. -/
def Host.hdr2 (host : Host) (bytes : List UInt8) : Elf32Hdr :=
  Elf32Hdr.ofBytes (overwrite (host.uninitialised sizeofHdr) (bytes.take sizeofHdr))

/-- Enter the interpreter with a copy of the load data. -/
def Task.enterInterpreter (t : Task) : Task := { t with loadData2 := some t.pElfLoadData }

/-- Take over where the interpreter went, `Process.cpp:1221–1223`: always to the process, and
back to the load data in use before. -/
def Task.leaveInterpreter (saved : Option ElfLoadData) (t : Task) : Task :=
  { t with
    loadData2 := saved
    elfLoadData := { t.elfLoadData with
      interpreterStart := t.pElfLoadData.startAddr
      interpreterBase := t.pElfLoadData.interpreterBase
      lastLibAddr := t.pElfLoadData.lastLibAddr } }

/-- The return value of `LoadElfImage` once it has come to the loop. -/
def loadResult (loadok : Bool) : DWORD := if loadok then 0#32 else -1#32

/-- The end of `LoadElfImage`, `Process.cpp:1186–1228`: the interpreter, if one is named, is
loaded by `load` even when `loadok` is no longer set. -/
def loadInterpreter (host : Host) (load : Handle → Elf32Hdr → Bool → X DWORD) (loadok : Bool) :
    X DWORD := do
  let t ← Comp.get
  match interpreterName t.pElfLoadData.interpreter with
  | none => Comp.fault
  | some [] => return loadResult loadok
  | some name =>
      match host.createFile name with
      | .error _ => return loadResult false
      | .ok bytes => do
          Comp.modify Task.enterInterpreter
          let rc ← load ⟨bytes, (bytes.take sizeofHdr).length⟩ (host.hdr2 bytes) true
          Comp.modify (Task.leaveInterpreter t.loadData2)
          return loadResult (loadok && !ibcsInterpreters.contains name && rc == 0#32)

/-- `Process::LoadElfImage`. An interpreter that leads back to itself makes it run for ever. -/
def loadElfImage (host : Host) : Nat → Handle → Elf32Hdr → Bool → X DWORD
  | 0, _, _, _ => Comp.wait
  | fuel + 1, hImg, hdr, library =>
      if ¬hdr.Valid then return ERROR_BAD_FORMAT
      else if hdr.ePhoff = 0#32 then return -1#32
      else do
        let t ← Comp.get
        let base := hdr.baseAddr library t.pElfLoadData.lastLibAddr
        Comp.modify (Task.setElfLoadData (ElfLoadData.begin hdr library))
        let loadok ← visitEntries host hdr base library
          (hdr.rounds hdr.ePhnum.toNat 0 hImg (host.uninitialised hdr.ePhentsize.toNat))
        loadInterpreter host (loadElfImage host fuel) loadok

end Keow.Exec
