import Keow.Base.Codec
import Keow.Base.Memory

/-!
# The thread context of a Win32 i386 thread

`CONTEXT` of `Winnt.h`, as `Process.cpp:626–637` reads and writes it whole (control,
integer, segment, floating point, debug and extended registers). The order of the
fields is the order in memory, which is what a signal frame stores.
-/

namespace Keow.Kernel

open Keow.Base

/-- A 32-bit machine word: `DWORD`, `int`, `ADDR` and every register. -/
abbrev DWORD := BitVec 32

/-- The user address space of one process. -/
abbrev UserMem := Mem 32

/-- `CONTEXT`, with the 387 state and the extended registers left uninterpreted. -/
structure Context where
  contextFlags : DWORD
  dr0 : DWORD
  dr1 : DWORD
  dr2 : DWORD
  dr3 : DWORD
  dr6 : DWORD
  dr7 : DWORD
  floatSave : Vector UInt8 112
  segGs : DWORD
  segFs : DWORD
  segEs : DWORD
  segDs : DWORD
  edi : DWORD
  esi : DWORD
  ebx : DWORD
  edx : DWORD
  ecx : DWORD
  eax : DWORD
  ebp : DWORD
  eip : DWORD
  segCs : DWORD
  eFlags : DWORD
  esp : DWORD
  segSs : DWORD
  extendedRegisters : Vector UInt8 512
deriving DecidableEq

namespace Context

/-- All registers zero. -/
def zero : Context where
  contextFlags := 0
  dr0 := 0
  dr1 := 0
  dr2 := 0
  dr3 := 0
  dr6 := 0
  dr7 := 0
  floatSave := Vector.replicate 112 0
  segGs := 0
  segFs := 0
  segEs := 0
  segDs := 0
  edi := 0
  esi := 0
  ebx := 0
  edx := 0
  ecx := 0
  eax := 0
  ebp := 0
  eip := 0
  segCs := 0
  eFlags := 0
  esp := 0
  segSs := 0
  extendedRegisters := Vector.replicate 512 0

instance : Inhabited Context := ⟨zero⟩

/-- The context with another `Eax`, where system calls leave their result. -/
def withEax (ctx : Context) (eax : DWORD) : Context := { ctx with eax := eax }

/-- The context with another `Eip`. -/
def withEip (ctx : Context) (eip : DWORD) : Context := { ctx with eip := eip }

@[simp] theorem withEax_eip (ctx : Context) (v : DWORD) : (ctx.withEax v).eip = ctx.eip := rfl
@[simp] theorem withEax_esp (ctx : Context) (v : DWORD) : (ctx.withEax v).esp = ctx.esp := rfl
@[simp] theorem withEax_contextFlags (ctx : Context) (v : DWORD) :
    (ctx.withEax v).contextFlags = ctx.contextFlags := rfl
@[simp] theorem withEip_contextFlags (ctx : Context) (v : DWORD) :
    (ctx.withEip v).contextFlags = ctx.contextFlags := rfl

/-! The groups of registers that `ContextFlags` selects, `Process.cpp:626–637`. -/

def CONTEXT_CONTROL : DWORD := 0x00010001#32
def CONTEXT_INTEGER : DWORD := 0x00010002#32
def CONTEXT_SEGMENTS : DWORD := 0x00010004#32
def CONTEXT_FLOATING_POINT : DWORD := 0x00010008#32
def CONTEXT_DEBUG_REGISTERS : DWORD := 0x00010010#32
def CONTEXT_EXTENDED_REGISTERS : DWORD := 0x00010020#32
def CONTEXT_FULL : DWORD := CONTEXT_CONTROL ||| CONTEXT_INTEGER ||| CONTEXT_SEGMENTS

/-- Every group: what `HandleException` and `HandleSignal` ask for. -/
def CONTEXT_ALL : DWORD :=
  CONTEXT_FULL ||| CONTEXT_FLOATING_POINT ||| CONTEXT_DEBUG_REGISTERS |||
    CONTEXT_EXTENDED_REGISTERS

/-- The registers a thread has after `SetThreadContext(ctx)`: the groups selected by
`ctx.ContextFlags` come from `ctx`, the others stay. -/
def merge (ctx old : Context) : Context :=
  let sel (i : Nat) : Bool := ctx.contextFlags.getLsbD i
  { contextFlags := ctx.contextFlags
    dr0 := if sel 4 then ctx.dr0 else old.dr0
    dr1 := if sel 4 then ctx.dr1 else old.dr1
    dr2 := if sel 4 then ctx.dr2 else old.dr2
    dr3 := if sel 4 then ctx.dr3 else old.dr3
    dr6 := if sel 4 then ctx.dr6 else old.dr6
    dr7 := if sel 4 then ctx.dr7 else old.dr7
    floatSave := if sel 3 then ctx.floatSave else old.floatSave
    segGs := if sel 2 then ctx.segGs else old.segGs
    segFs := if sel 2 then ctx.segFs else old.segFs
    segEs := if sel 2 then ctx.segEs else old.segEs
    segDs := if sel 2 then ctx.segDs else old.segDs
    edi := if sel 1 then ctx.edi else old.edi
    esi := if sel 1 then ctx.esi else old.esi
    ebx := if sel 1 then ctx.ebx else old.ebx
    edx := if sel 1 then ctx.edx else old.edx
    ecx := if sel 1 then ctx.ecx else old.ecx
    eax := if sel 1 then ctx.eax else old.eax
    ebp := if sel 0 then ctx.ebp else old.ebp
    eip := if sel 0 then ctx.eip else old.eip
    segCs := if sel 0 then ctx.segCs else old.segCs
    eFlags := if sel 0 then ctx.eFlags else old.eFlags
    esp := if sel 0 then ctx.esp else old.esp
    segSs := if sel 0 then ctx.segSs else old.segSs
    extendedRegisters := if sel 5 then ctx.extendedRegisters else old.extendedRegisters }

/-- A context with every group replaces the thread's. -/
theorem merge_of_all {ctx : Context} (h : ctx.contextFlags = CONTEXT_ALL) (old : Context) :
    merge ctx old = ctx := by
  have h0 : CONTEXT_ALL.getLsbD 0 = true := by decide
  have h1 : CONTEXT_ALL.getLsbD 1 = true := by decide
  have h2 : CONTEXT_ALL.getLsbD 2 = true := by decide
  have h3 : CONTEXT_ALL.getLsbD 3 = true := by decide
  have h4 : CONTEXT_ALL.getLsbD 4 = true := by decide
  have h5 : CONTEXT_ALL.getLsbD 5 = true := by decide
  simp only [merge, h, h0, h1, h2, h3, h4, h5, if_true]
  rw [← h]

private def dword : Codec DWORD := Codec.word 4

private def dwords2 : Codec (DWORD × DWORD) := dword.pair dword
private def dwords4 : Codec ((DWORD × DWORD) × (DWORD × DWORD)) := dwords2.pair dwords2

/-- The memory layout of `CONTEXT`. -/
def codec : Codec Context :=
  (((dwords4.pair (dwords2.pair dword)).pair (Codec.block 112)).pair
    ((dwords4.pair (dwords4.pair dwords4)).pair (dwords4.pair (Codec.block 512)))).imap
    (fun p ↦
      { contextFlags := p.1.1.1.1.1, dr0 := p.1.1.1.1.2, dr1 := p.1.1.1.2.1,
        dr2 := p.1.1.1.2.2, dr3 := p.1.1.2.1.1, dr6 := p.1.1.2.1.2, dr7 := p.1.1.2.2,
        floatSave := p.1.2,
        segGs := p.2.1.1.1.1, segFs := p.2.1.1.1.2, segEs := p.2.1.1.2.1,
        segDs := p.2.1.1.2.2, edi := p.2.1.2.1.1.1, esi := p.2.1.2.1.1.2,
        ebx := p.2.1.2.1.2.1, edx := p.2.1.2.1.2.2, ecx := p.2.1.2.2.1.1,
        eax := p.2.1.2.2.1.2, ebp := p.2.1.2.2.2.1, eip := p.2.1.2.2.2.2,
        segCs := p.2.2.1.1.1, eFlags := p.2.2.1.1.2, esp := p.2.2.1.2.1,
        segSs := p.2.2.1.2.2, extendedRegisters := p.2.2.2 })
    (fun c ↦
      (((((c.contextFlags, c.dr0), (c.dr1, c.dr2)), ((c.dr3, c.dr6), c.dr7)), c.floatSave),
        ((((c.segGs, c.segFs), (c.segEs, c.segDs)),
          (((c.edi, c.esi), (c.ebx, c.edx)), ((c.ecx, c.eax), (c.ebp, c.eip)))),
         (((c.segCs, c.eFlags), (c.esp, c.segSs)), c.extendedRegisters))))
    (fun _ ↦ rfl)

/-- `sizeof(CONTEXT)`. -/
theorem size_codec : codec.size = 716 := rfl

end Context
end Keow.Kernel
