import Keow.Exec.Elf
import Keow.Memory.Allocate
import Keow.Memory.Transfer

/-!
# The memory of a process and its records

`m_MemoryAllocations` records what `MemoryHelper::AllocateMemAndProtect` gave a process, and
`DeallocateMemory` takes back a record that is named exactly.
-/

namespace Keow.Exec.MemoryAlloc

/-- The byte at this address is in the recorded range. -/
def Covers (r : MemoryAlloc) (a : Nat) : Prop :=
  r.addr.toNat ≤ a ∧ a < r.addr.toNat + r.len.toNat

instance (r : MemoryAlloc) (a : Nat) : Decidable (r.Covers a) :=
  inferInstanceAs (Decidable (_ ∧ _))

/-- No byte is in both ranges. -/
def Disjoint (r r' : MemoryAlloc) : Prop := ∀ a, r.Covers a → ¬r'.Covers a

end Keow.Exec.MemoryAlloc

namespace Keow.Memory

open Keow.Base Keow.Kernel
open Keow.Exec (MemoryAlloc recordAlloc)

/-- `Process::MMapRecord`, as far as the modelled calls look at it. -/
structure MMapRecord where
  address : DWORD
  len : DWORD
deriving DecidableEq

/-- What the memory calls read and change of a `Process`: the memory of its stub,
`m_MemoryAllocations`, `m_MmapList`, and `brk` of `m_ElfLoadData`. -/
structure MemoryState where
  remote : Remote
  memoryAllocations : List MemoryAlloc := []
  mmapList : List MMapRecord := []
  brk : DWORD := 0#32

/-- What an allocation relies on: Windows, and what the stack happens to hold in the place of
the output argument of `VirtualQueryEx`. -/
structure Host where
  windows : Windows
  stale : Space → DWORD → DWORD → MemoryBasicInformation

/-- A page that is committed holds zeros until it is written. -/
def zeroFresh (s s' : Space) (mem : UserMem) : UserMem := fun x ↦
  if s'.Committed x.toNat ∧ ¬s.Committed x.toNat then 0 else mem x

/-- The call of `AllocateMemAndProtectProcess` that the records are made of. -/
def Host.allocate (host : Host) (s : Space) (addr size : DWORD) : Option (DWORD × Space) :=
  allocateMemAndProtectProcess host.windows (host.stale s addr size) s addr size

/-- `MemoryHelper::AllocateMemAndProtect`, `MemoryHelper.cpp:122–129`. -/
def allocateMemAndProtect (host : Host) (m : MemoryState) (addr size prot : DWORD) :
    Option (DWORD × MemoryState) :=
  (host.allocate m.remote.space addr size).map fun (p, s) ↦
    (p, { m with
      remote := ⟨s, zeroFresh m.remote.space s m.remote.mem⟩
      memoryAllocations := recordAlloc m.memoryAllocations p size prot })

/-- The test of `DeallocateMemory`. -/
def IsRecord (addr size : DWORD) (r : MemoryAlloc) : Prop := r.addr = addr ∧ r.len = size

instance (addr size : DWORD) : DecidablePred (IsRecord addr size) :=
  fun _ ↦ inferInstanceAs (Decidable (_ ∧ _))

/-- The records without the first that is named exactly. -/
def others (addr size : DWORD) (rs : List MemoryAlloc) : List MemoryAlloc :=
  rs.eraseP fun r ↦ IsRecord addr size r

/-- `MemoryHelper::DeallocateMemory`, `MemoryHelper.cpp:131–153`. -/
def deallocateMemory (host : Host) (m : MemoryState) (addr size : DWORD) : Bool × MemoryState :=
  if ∃ r ∈ m.memoryAllocations, IsRecord addr size r then
    match host.windows.decommit m.remote.space addr size with
    | none => (false, m)
    | some s =>
        (true, { m with
          remote := { m.remote with space := s }
          memoryAllocations := others addr size m.memoryAllocations })
  else (false, m)

theorem zeroFresh_of_committed {s s' : Space} (mem : UserMem) {x : DWORD}
    (h : s.Committed x.toNat) : zeroFresh s s' mem x = mem x :=
  if_neg fun hn ↦ hn.2 h

end Keow.Memory
