import Keow.Base.Run
import Keow.Kernel.Linux

/-!
# Per-thread LDT entries

The table `m_LdtEntries` through which `MemoryHelper` gives each thread descriptors of its own
under entry numbers that the threads share, and the calls that go through it:
`set_thread_area`, `get_thread_area` and trapped loads of `gs`. Windows is told of every
descriptor by `NtSetInformationProcess`, in an `LDT_ENTRY` that nothing reads back.
-/

namespace Keow.Memory

open Keow.Base Keow.Kernel

/-- `linux::user_desc`, `linux_types.h:558–568`. -/
structure UserDesc where
  entryNumber : DWORD := 0#32
  baseAddr : DWORD := 0#32
  limit : DWORD := 0#32
  seg32bit : BitVec 1 := 0#1
  contents : BitVec 2 := 0#2
  readExecOnly : BitVec 1 := 0#1
  limitInPages : BitVec 1 := 0#1
  segNotPresent : BitVec 1 := 0#1
  useable : BitVec 1 := 0#1
deriving DecidableEq

/-- `Process::LdtData`, `Process.h:229–233`. -/
structure LdtData where
  allocatingThreadId : DWORD := 0#32
  isReallyLDT : Bool := false
  userDesc : UserDesc := {}

/-- The id of a thread. Windows gives none the id 0, which marks a free entry. -/
abbrev ThreadId : Type := { t : DWORD // t ≠ 0#32 }

/-- `m_LdtEntries`. -/
abbrev LdtEntries := Nat → LdtData

def MAX_LDT_ENTRIES : Nat := 8192
def FIRST_USABLE_LDT_ENTRY : Nat := 16

namespace LdtEntries

/-- The entries that are searched and handed out. -/
def usable : List Nat :=
  List.range' FIRST_USABLE_LDT_ENTRY (MAX_LDT_ENTRIES - FIRST_USABLE_LDT_ENTRY)

/-- The thread an entry is allocated to. -/
def owner (l : LdtEntries) (i : Nat) : DWORD := (l i).allocatingThreadId

/-- The entry number stored in an entry. -/
def stored (l : LdtEntries) (i : Nat) : DWORD := (l i).userDesc.entryNumber

/-- Change one entry. -/
def update (l : LdtEntries) (i : Nat) (f : LdtData → LdtData) : LdtEntries := fun j ↦
  if j = i then f (l j) else l j

/-- `MemoryHelper::AllocateLDTSelector`, `MemoryHelper.cpp:456–502`. An LDT marker is owned by
no thread. -/
def allocateLDTSelector (l : LdtEntries) (t : DWORD) (isForLDT : Bool) :
    Option Nat × LdtEntries :=
  match usable.find? fun i ↦ l.owner i = 0#32 with
  | none => (none, l)
  | some i =>
      (some i, l.update i fun e ↦
        { e with
          isReallyLDT := isForLDT
          allocatingThreadId := if isForLDT then -1#32 else t })

/-- `MemoryHelper::CalculateLDTEntryForThread`, `MemoryHelper.cpp:678–723`: the entry that
serves thread `t` under the entry number, 0 if there is none. -/
def calculateLDTEntryForThread (l : LdtEntries) (t : DWORD) (requested : DWORD) :
    Nat × LdtEntries :=
  if (MAX_LDT_ENTRIES : Int) ≤ requested.toInt ∨ requested.toInt ≤ 0 then (0, l)
  else if l.owner requested.toNat = t then (requested.toNat, l)
  else if l.owner requested.toNat = 0#32 then (0, l)
  else
    match usable.find? fun i ↦ l.stored i = requested ∧ l.owner i = t with
    | some i => (i, l)
    | none =>
        match l.allocateLDTSelector t (l requested.toNat).isReallyLDT with
        | (none, l) => (0, l)
        | (some i, l) => (i, l)

/-- `MemoryHelper::GetLDTSelector`, `MemoryHelper.cpp:504–519`. -/
def getLDTSelector (l : LdtEntries) (t : DWORD) (requested : DWORD) :
    Option UserDesc × LdtEntries :=
  match l.calculateLDTEntryForThread t requested with
  | (0, l) => (none, l)
  | (i, l) => (some (l i).userDesc, l)

/-- `MemoryHelper::SetLDTSelector`, `MemoryHelper.cpp:524–636`, with the answer of
`NtSetInformationProcess`. -/
def setLDTSelector (l : LdtEntries) (t : DWORD) (userDesc : UserDesc) (isReallyLDT : Bool)
    (ntStatus : DWORD) : Bool × LdtEntries :=
  match l.calculateLDTEntryForThread t userDesc.entryNumber with
  | (0, l) => (false, l)
  | (i, l) =>
      if ntStatus = 0#32 then
        (true, l.update i fun e ↦ { e with userDesc := userDesc, isReallyLDT := isReallyLDT })
      else (false, l)

/-- `SysCalls::sys_set_thread_area`, `sys_mem.cpp:357–387`: Eax, the descriptor written back if
the call succeeds, and the table. -/
def sysSetThreadArea (l : LdtEntries) (t : DWORD) (userDesc : UserDesc) (ntStatus : DWORD) :
    DWORD × Option UserDesc × LdtEntries :=
  let set (l : LdtEntries) (userDesc : UserDesc) : DWORD × Option UserDesc × LdtEntries :=
    match l.setLDTSelector t userDesc false ntStatus with
    | (true, l) => (0#32, some userDesc, l)
    | (false, l) => (-EINVAL, none, l)
  if userDesc.entryNumber = -1#32 then
    match l.allocateLDTSelector t false with
    | (none, l) => (-ESRCH, none, l)
    | (some i, l) => set l { userDesc with entryNumber := BitVec.ofNat 32 i }
  else set l userDesc

/-- `SysCalls::sys_get_thread_area`, `sys_mem.cpp:392–411`. -/
def sysGetThreadArea (l : LdtEntries) (t : DWORD) (requested : DWORD) :
    DWORD × Option UserDesc × LdtEntries :=
  match l.getLDTSelector t requested with
  | (some userDesc, l) => (0#32, some userDesc, l)
  | (none, l) => (-EINVAL, none, l)

/-- `MemoryHelper::HandlePossibleLDTException` at a load of `gs` from Eax,
`MemoryHelper.cpp:638–667`: the selector that is loaded in its place. -/
def handlePossibleLDTException (l : LdtEntries) (t : DWORD) (eax : DWORD) : DWORD × LdtEntries :=
  let (index, l) := l.calculateLDTEntryForThread t (eax >>> 3)
  (BitVec.ofNat 32 index <<< 3 ||| 0x7#32, l)

end LdtEntries

/-! ## Runs -/

/-- A call by a thread. `get_thread_area` reads nothing but the entry number of the descriptor
it is given. -/
inductive LdtCall where
  | setThreadArea (t : ThreadId) (userDesc : UserDesc)
  | getThreadArea (t : ThreadId) (requested : DWORD)
  | loadGs (t : ThreadId) (eax : DWORD)

/-- The table of a process, with the look-ups `(t, n, slot)` made so far and the descriptor that
each thread has last set under each entry number. -/
structure LdtState where
  ldt : LdtEntries
  lookups : List (ThreadId × DWORD × Nat)
  lastSet : ThreadId → DWORD → Option UserDesc

/-- The look-up a call makes. -/
def LdtEntries.lookup (l : LdtEntries) : LdtCall → Option (ThreadId × DWORD × Nat)
  | .setThreadArea t userDesc =>
      if userDesc.entryNumber = -1#32 then
        match l.allocateLDTSelector t false with
        | (none, _) => none
        | (some i, l) =>
            some (t, BitVec.ofNat 32 i, (l.calculateLDTEntryForThread t (BitVec.ofNat 32 i)).1)
      else
        some (t, userDesc.entryNumber, (l.calculateLDTEntryForThread t userDesc.entryNumber).1)
  | .getThreadArea t requested =>
      some (t, requested, (l.calculateLDTEntryForThread t requested).1)
  | .loadGs t eax => some (t, eax >>> 3, (l.calculateLDTEntryForThread t (eax >>> 3)).1)

/-- One call, `NtSetInformationProcess` succeeding. -/
def LdtState.step (w : LdtState) (c : LdtCall) : LdtState :=
  { match c with
    | .setThreadArea t userDesc =>
        match w.ldt.sysSetThreadArea t userDesc 0#32 with
        | (_, none, l) => { w with ldt := l }
        | (_, some d, l) =>
            { w with
              ldt := l
              lastSet := fun t' n ↦
                if t' = t ∧ n = d.entryNumber then some d else w.lastSet t' n }
    | .getThreadArea t requested => { w with ldt := (w.ldt.sysGetThreadArea t requested).2.2 }
    | .loadGs t eax => { w with ldt := (w.ldt.handlePossibleLDTException t eax).2 } with
    lookups := (w.ldt.lookup c).toList ++ w.lookups }

/-- A process starts with an empty table, `Process.cpp:90`. -/
def LdtState.start : LdtState := ⟨fun _ ↦ {}, [], fun _ _ ↦ none⟩

end Keow.Memory
