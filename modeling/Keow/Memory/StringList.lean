import Keow.Base.Comp
import Keow.Base.StringArray
import Keow.Exec.Image
import Keow.Memory.Failure
import Keow.Memory.Fork
import Keow.Memory.Recorded
import Mathlib.Data.List.Forall2

/-!
# Copying string lists between processes

`MemoryHelper::CopyStringListBetweenProcesses` measures the strings of an argument vector in a
first pass and copies them, behind a new table of pointers, into one allocated block in a second.
The two processes may be the same, and either may be the kernel.
-/

namespace Keow.Memory

open Keow.Base Keow.Kernel
open Keow.Paths (Str)
open Keow.Exec (MemoryAlloc PAGE_READWRITE copyStrings)

/-- The memories that a copy works on, by process. `kernel` is the stack of the kernel thread,
where the local variables of the routines lie. -/
structure Memories (η : Type) where
  process : η → Remote
  memoryAllocations : η → List MemoryAlloc
  kernel : UserMem

/-- What a copy of strings relies on, and where its local variables lie. -/
structure StringHost extends CopyHost where
  pStr : DWORD
  readBuf : DWORD
  pToData : DWORD

section Model

variable {η : Type} [DecidableEq η]

namespace Memories

/-- Replace the memory of a process. -/
def setMem (m : Memories η) (h : η) (mem : UserMem) : Memories η :=
  { m with process := Function.update m.process h ((m.process h).setMem mem) }

/-- `MemoryHelper::ReadMemory`. -/
def readMemory (c : Copier) (toAddr : DWORD) (h : η) (fromAddr : DWORD) (len : Int)
    (m : Memories η) : Memories η :=
  { m with kernel := (Memory.readMemory c ⟨m.process h, m.kernel⟩ toAddr fromAddr len).kernel }

/-- `MemoryHelper::WriteMemory`. -/
def writeMemory (c : Copier) (h : η) (toAddr : DWORD) (len : Int) (fromAddr : DWORD)
    (m : Memories η) : Memories η :=
  let ends := Memory.writeMemory c ⟨m.process h, m.kernel⟩ toAddr len fromAddr
  { m with process := Function.update m.process h ends.remote, kernel := ends.kernel }

/-- `MemoryHelper::TransferMemory` from the offset `i` on. What is read of the process copied
from is what the pieces before have left. -/
def transferMemory (c : Copier) (buf : DWORD) (hFrom : η) (fromAddr : DWORD) (hTo : η)
    (toAddr : DWORD) (len : Int) (m : Memories η) (i : Nat) : Memories η :=
  if (i : Int) < len then
    let copy := if (i : Int) + 4096 > len then len - i else 4096
    transferMemory c buf hFrom fromAddr hTo toAddr len
      ((m.readMemory c buf hFrom (fromAddr + BitVec.ofNat 32 i) copy).writeMemory c hTo
        (toAddr + BitVec.ofNat 32 i) copy buf) (i + 4096)
  else m
termination_by (len - i).toNat

end Memories

/-- `MemoryHelper::ReadString`, `MemoryHelper.cpp:411–440`, with what has been read so far: the
bytes up to the next page at a time. -/
def readString (c : Copier) (buf : DWORD) (h : η) : Nat → DWORD → Str → Comp (Memories η) Str
  | 0, _, _ => Comp.wait
  | turns + 1, addr, str => do
      let len := (addr &&& ~~~(0x1000#32 - 1#32)) + 0x1000#32 - addr
      Comp.modify (·.readMemory c buf h addr len.toInt)
      let m ← Comp.get
      let bytes := m.kernel.read buf len.toNat
      if 0 ∈ bytes then return str ++ bytes.takeWhile (· != 0)
      else readString c buf h turns (addr + len) (str ++ bytes)

/-- The first pass, `MemoryHelper.cpp:344–367`: the addresses and the sizes of the strings. -/
def measureStrings (host : StringHost) (h : η) (turns : Nat) :
    Nat → DWORD → Comp (Memories η) (List (DWORD × DWORD))
  | 0, _ => Comp.wait
  | n + 1, pFrom => do
      Comp.modify (·.readMemory host.copier host.pStr h pFrom 4)
      let m ← Comp.get
      let pStr := m.kernel.word host.pStr
      if pStr = 0#32 then return []
      else do
        let s ← readString host.copier host.readBuf h turns pStr []
        let rest ← measureStrings host h turns n (pFrom + 4#32)
        return (pStr, BitVec.ofNat 32 (s.length + 1)) :: rest

/-- Nothing is measured where there is no list. -/
def measureList (host : StringHost) (h : η) (turns : Nat) (pFromList : DWORD) :
    Comp (Memories η) (List (DWORD × DWORD)) :=
  if pFromList ≠ 0#32 then measureStrings host h turns turns pFromList else pure []

/-- `MemoryHelper::WriteMemory` of a variable that lies at `loc` and has this value. -/
def Memories.writeValue (c : Copier) (loc : DWORD) (h : η) (toAddr : DWORD) (bytes : List UInt8)
    (m : Memories η) : Memories η :=
  Memories.writeMemory c h toAddr bytes.length loc { m with kernel := m.kernel.write loc bytes }

/-- Store the local variable `pToData` in the table of pointers. -/
def Memories.writePointer (host : StringHost) (hTo : η) (pToArray pToData : DWORD)
    (m : Memories η) : Memories η :=
  m.writeValue host.copier host.pToData hTo pToArray (natBytes 4 pToData.toNat)

/-- The second pass, `MemoryHelper.cpp:382–405`. -/
def copyEntries (host : StringHost) (hFrom hTo : η) :
    List (DWORD × DWORD) → DWORD → DWORD → Memories η → Memories η
  | [], pToArray, _, m => m.writePointer host hTo pToArray 0#32
  | (addr, size) :: rest, pToArray, pToData, m =>
      copyEntries host hFrom hTo rest (pToArray + 4#32) (pToData + size)
        (Memories.transferMemory host.copier host.buf hFrom addr hTo pToData size.toInt
          (m.writePointer host hTo pToArray pToData) 0)

/-- What the call returns and stores through `pdwCount` and `pdwMemSize`. -/
structure StringList where
  addr : DWORD
  count : DWORD
  memSize : DWORD

/-- An allocation in a process. -/
def Memories.allocated (h : η) (s : Space) (m : Memories η) : Memories η :=
  let remote := ⟨s, zeroFresh (m.process h).space s (m.process h).mem⟩
  { m with process := Function.update m.process h remote }

/-- The record of it in a process, if one is given. -/
def Memories.recorded (pProc : Option η) (r : MemoryAlloc) (m : Memories η) : Memories η :=
  match pProc with
  | none => m
  | some h =>
      let records := Function.update m.memoryAllocations h (m.memoryAllocations h ++ [r])
      { m with memoryAllocations := records }

/-- `MemoryHelper::CopyStringListBetweenProcesses`, `MemoryHelper.cpp:332–408`. Nothing looks at
whether the allocation has worked. -/
def copyStringListBetweenProcesses (host : StringHost) (hFrom : η) (pFromList : DWORD) (hTo : η)
    (pProcToRecordMemoryIn : Option η) (turns : Nat) : Comp (Memories η) StringList := do
  let entries ← measureList host hFrom turns pFromList
  let count := BitVec.ofNat 32 entries.length
  let datasize := (entries.map Prod.snd).foldl (· + ·) 0#32
  let total := datasize + 4#32 * (count + 1#32)
  let m ← Comp.get
  match host.allocate (m.process hTo).space 0#32 total with
  | none => Comp.wait
  | some (pTo, s) => do
      Comp.modify (·.allocated hTo s)
      Comp.modify (·.recorded pProcToRecordMemoryIn ⟨pTo, total, PAGE_READWRITE⟩)
      Comp.modify (copyEntries host hFrom hTo entries pTo (pTo + 4#32 * (count + 1#32)))
      return ⟨pTo, count, total⟩

end Model

/-! ## Single copies -/

/-- The accessible bytes of a shorter range. -/
theorem Accessible.sub {rw : ReadWrite} {s : Space} {p a : DWORD} {n k : Nat}
    (h : Accessible rw s p n) (hlow : p.toNat ≤ a.toNat) (hhigh : a.toNat + k ≤ p.toNat + n) :
    Accessible rw s a k :=
  fun x hx hlt ↦ h x (by omega) (by omega)

theorem Accessible.toNat_ofInt {rw : ReadWrite} {s : Space} {a : DWORD} {n : Nat}
    (h : Accessible rw s a n) : (BitVec.ofInt 32 (n : Int)).toNat = n := by
  have hle := h.add_le
  unfold userPages at hle
  rw [BitVec.ofInt_natCast, BitVec.toNat_ofNat, Nat.mod_eq_of_lt (by omega)]

theorem Memories.readMemory_eq (c : Copier) {η : Type} {m : Memories η} {h : η} {a : DWORD}
    {n : Nat} (hread : Accessible .read (m.process h).space a n) (toAddr : DWORD) :
    m.readMemory c toAddr h a n =
      { m with kernel := m.kernel.write toAddr ((m.process h).mem.read a n) } := by
  have hacc := hread
  rw [← hread.toNat_ofInt] at hacc
  rw [readMemory, Memory.readMemory, processReadWriteMemory_eq c _ _ _ _ hacc,
    hread.toNat_ofInt]
  rfl

section Copies

variable {η : Type} [DecidableEq η] {m m' m'' : Memories η} {hFrom hTo h : η}

namespace Memories

/-- All that has happened is that the memory of one process has become this; the stack of the
kernel thread does not count. -/
structure Stored (m : Memories η) (h : η) (mem : UserMem) (m' : Memories η) : Prop where
  process : m'.process = Function.update m.process h ((m.process h).setMem mem)
  memoryAllocations : m'.memoryAllocations = m.memoryAllocations

theorem Stored.self {mem : UserMem} (hs : m.Stored h mem m') :
    m'.process h = (m.process h).setMem mem := by
  rw [hs.process, Function.update_self]

theorem Stored.other {mem : UserMem} (hs : m.Stored h mem m') {h' : η} (hne : h' ≠ h) :
    m'.process h' = m.process h' := by
  rw [hs.process, Function.update_of_ne hne]

theorem Stored.space {mem : UserMem} (hs : m.Stored h mem m') (h' : η) :
    (m'.process h').space = (m.process h').space := by
  by_cases heq : h' = h
  · rw [heq, hs.self, Remote.space_setMem]
  · rw [hs.other heq]

theorem Stored.trans {mem mem' : UserMem} (hs : m.Stored h mem m') (hs' : m'.Stored h mem' m'') :
    m.Stored h mem' m'' := by
  constructor
  · rw [hs'.process, hs.self, hs.process, Remote.setMem_setMem, Function.update_idem]
  · rw [hs'.memoryAllocations, hs.memoryAllocations]

/-- What is read elsewhere stays as it is. -/
theorem Stored.agreeOn {mem : UserMem} (hs : m.Stored hTo mem m') {a : DWORD} {n : Nat}
    (h : hFrom = hTo → Mem.AgreeOn (m.process hTo).mem mem a n) :
    Mem.AgreeOn (m.process hFrom).mem (m'.process hFrom).mem a n := by
  by_cases heq : hFrom = hTo
  · rw [heq, hs.self]
    exact h heq
  · rw [hs.other heq]
    exact fun _ _ _ ↦ rfl

theorem stored_writeMemory (c : Copier) {a : DWORD} {n : Nat}
    (hwrite : Accessible .write (m.process h).space a n) (fromAddr : DWORD) :
    m.Stored h ((m.process h).mem.write a (m.kernel.read fromAddr n))
      (m.writeMemory c h a n fromAddr) := by
  have hacc := hwrite
  rw [← hwrite.toNat_ofInt] at hacc
  rw [writeMemory, Memory.writeMemory, processReadWriteMemory_eq c _ _ _ _ hacc,
    hwrite.toNat_ofInt]
  exact ⟨rfl, rfl⟩

theorem stored_writeValue (c : Copier) (loc : DWORD) {toAddr : DWORD} {bytes : List UInt8}
    (hwrite : Accessible .write (m.process h).space toAddr bytes.length) :
    m.Stored h ((m.process h).mem.write toAddr bytes) (m.writeValue c loc h toAddr bytes) := by
  have hle := hwrite.add_le
  unfold userPages at hle
  have hlocal := Mem.read_write m.kernel loc bytes (by omega)
  have hstored := stored_writeMemory c (m := { m with kernel := m.kernel.write loc bytes })
    hwrite loc
  rw [hlocal] at hstored
  exact ⟨hstored.process, hstored.memoryAllocations⟩

theorem stored_writePointer (host : StringHost) {pToArray : DWORD}
    (hwrite : Accessible .write (m.process h).space pToArray 4) (pToData : DWORD) :
    m.Stored h ((m.process h).mem.write pToArray (natBytes 4 pToData.toNat))
      (m.writePointer host h pToArray pToData) :=
  stored_writeValue host.copier host.pToData (by rwa [length_natBytes])

/-- What a store into another range leaves to be read. -/
theorem Stored.read_apart {a b : DWORD} {n : Nat} {bs : List UInt8}
    (hs : m.Stored hTo ((m.process hTo).mem.write b bs) m') (ha : a.toNat + n ≤ 2 ^ 32)
    (hb : b.toNat + bs.length ≤ 2 ^ 32)
    (hapart : hFrom = hTo → a.toNat + n ≤ b.toNat ∨ b.toNat + bs.length ≤ a.toNat) :
    (m'.process hFrom).mem.read a n = (m.process hFrom).mem.read a n := by
  refine (Mem.read_of_agreeOn (hs.agreeOn fun heq ↦ ?_) ha).symm
  exact Mem.agreeOn_write _ hb (hapart heq)

/-- One piece of a transfer goes through the buffer. -/
theorem stored_piece (c : Copier) (buf : DWORD) {a b : DWORD} {n : Nat}
    (hread : Accessible .read (m.process hFrom).space a n)
    (hwrite : Accessible .write (m.process hTo).space b n) :
    m.Stored hTo ((m.process hTo).mem.write b ((m.process hFrom).mem.read a n))
      ((m.readMemory c buf hFrom a n).writeMemory c hTo b n buf) := by
  have hle := hread.add_le
  unfold userPages at hle
  rw [readMemory_eq c hread]
  generalize hbytes : (m.process hFrom).mem.read a n = bytes
  have hlen : bytes.length = n := by rw [← hbytes, Mem.length_read]
  have hbuffer : (m.kernel.write buf bytes).read buf n = bytes := by
    rw [← hlen]
    exact Mem.read_write m.kernel buf bytes (by omega)
  have hpiece := stored_writeMemory c (h := hTo)
    (m := { m with kernel := m.kernel.write buf bytes }) hwrite buf
  rw [hbuffer] at hpiece
  exact ⟨hpiece.process, hpiece.memoryAllocations⟩

/-- A transfer between ranges that do not overlap copies all bytes. -/
theorem stored_transferMemory (c : Copier) (buf : DWORD) {a b : DWORD} {len : Nat}
    (hread : Accessible .read (m.process hFrom).space a len)
    (hwrite : Accessible .write (m.process hTo).space b len)
    (hapart : hFrom = hTo → a.toNat + len ≤ b.toNat ∨ b.toNat + len ≤ a.toNat) (i : Nat) :
    m.Stored hTo ((m.process hTo).mem.write (b + BitVec.ofNat 32 i)
        ((m.process hFrom).mem.read (a + BitVec.ofNat 32 i) (len - i)))
      (m.transferMemory c buf hFrom a hTo b len i) := by
  induction hk : len - i using Nat.strong_induction_on generalizing m i with
  | _ k ih =>
    rw [transferMemory]
    split
    · next hlt =>
      have hle := hread.add_le (by omega)
      have hle' := hwrite.add_le (by omega)
      unfold userPages at hle hle'
      obtain ⟨n, hn, hcopy⟩ := exists_copy (show i < len by omega)
      have hi : (BitVec.ofNat 32 i).toNat = i := by
        rw [BitVec.toNat_ofNat, Nat.mod_eq_of_lt (by omega)]
      have hin : (BitVec.ofNat 32 i).toNat + n ≤ len := by omega
      simp only [hcopy]
      have hpiece := stored_piece c buf (hread.right hin) (hwrite.right hin)
      generalize Memories.writeMemory c hTo (b + BitVec.ofNat 32 i) n buf _ = m₁ at hpiece
      have hrest := @ih (len - (i + 4096)) (by omega) m₁ (by rwa [hpiece.space])
        (by rwa [hpiece.space]) (i + 4096) rfl
      rw [hpiece.self, Remote.mem_setMem] at hrest
      refine hpiece.trans ?_
      by_cases hlast : i + 4096 ≤ len
      · obtain rfl : n = 4096 := by omega
        have hfrom : (a + BitVec.ofNat 32 (i + 4096)).toNat = a.toNat + (i + 4096) :=
          Mem.toNat_add_ofNat (by omega)
        have hto : (b + BitVec.ofNat 32 i).toNat = b.toNat + i := Mem.toNat_add_ofNat (by omega)
        -- the rest of the source is what it was
        rw [hpiece.read_apart (by omega) (by rw [Mem.length_read]; omega) fun heq ↦ by
          have := hapart heq
          rw [Mem.length_read]
          omega] at hrest
        have happend := Mem.write_read_append (m.process hTo).mem (m.process hFrom).mem
          (b + BitVec.ofNat 32 i) (a + BitVec.ofNat 32 i) (n := 4096) (k := len - (i + 4096))
          (by omega)
        simp only [BitVec.add_assoc, ← BitVec.ofNat_add] at happend
        rwa [happend, show 4096 + (len - (i + 4096)) = k by omega] at hrest
      · rw [show len - (i + 4096) = 0 by omega] at hrest
        rw [show n = k by omega] at hrest
        simpa [Mem.read] using hrest
    · next hge =>
      rw [show k = 0 by omega]
      exact ⟨by simp [Mem.read], rfl⟩

end Memories

end Copies

/-! ## The first pass -/

section Measure

variable {η : Type} {h : η}

/-- Only local variables have changed. -/
def Memories.SameProcesses (m m' : Memories η) : Prop :=
  m'.process = m.process ∧ m'.memoryAllocations = m.memoryAllocations

/-- The bytes from an address to the end of its page. -/
def toNext4k (addr : DWORD) : DWORD := (addr &&& ~~~(0x1000#32 - 1#32)) + 0x1000#32 - addr

/-- The memories once these bytes of a process have been read. -/
def Memories.readBlock (c : Copier) (buf : DWORD) (h : η) (addr : DWORD) (m : Memories η) :
    Memories η :=
  m.readMemory c buf h addr (toNext4k addr).toInt

/-- What the buffer holds then. -/
def Memories.blockBytes (c : Copier) (buf : DWORD) (h : η) (addr : DWORD) (m : Memories η) : Str :=
  (m.readBlock c buf h addr).kernel.read buf (toNext4k addr).toNat

/-- A turn of `ReadString`. -/
theorem readString_succ (c : Copier) (buf : DWORD) (h : η) (turns : Nat) (addr : DWORD) (str : Str)
    (m : Memories η) :
    readString c buf h (turns + 1) addr str m =
      if 0 ∈ m.blockBytes c buf h addr then
        .ok (str ++ (m.blockBytes c buf h addr).takeWhile (· != 0)) (m.readBlock c buf h addr)
      else
        readString c buf h turns (addr + toNext4k addr) (str ++ m.blockBytes c buf h addr)
          (m.readBlock c buf h addr) := by
  have hblock : Comp.modify (Memories.readMemory c buf h addr (toNext4k addr).toInt) m =
      .ok ⟨⟩ (m.readBlock c buf h addr) := rfl
  rw [readString, ← toNext4k, Comp.bind_of_ok hblock, Comp.get_bind]
  unfold Memories.blockBytes
  split
  · rfl
  · rfl

theorem toNat_toNext4k' (addr : DWORD) : (toNext4k addr).toNat = 4096 - addr.toNat % 4096 :=
  toNat_toNext4k addr

/-- If its first byte can be read, the whole block can. -/
theorem Memories.readBlock_eq (c : Copier) (buf : DWORD) {m : Memories η} {addr : DWORD}
    (hread : Accessible .read (m.process h).space addr 1) :
    m.readBlock c buf h addr = { m with
        kernel := m.kernel.write buf ((m.process h).mem.read addr (toNext4k addr).toNat) } ∧
      m.blockBytes c buf h addr = (m.process h).mem.read addr (toNext4k addr).toNat := by
  have hnext := toNat_toNext4k' addr
  have hint : (toNext4k addr).toInt = (toNext4k addr).toNat :=
    BitVec.toInt_eq_toNat_of_lt (by omega)
  have hpage : Accessible .read (m.process h).space addr (toNext4k addr).toNat := by
    intro x hx hlt
    have hfirst := hread addr.toNat (by omega) (by omega)
    rwa [show x / 4096 = addr.toNat / 4096 by omega]
  have hblock : m.readBlock c buf h addr = { m with
      kernel := m.kernel.write buf ((m.process h).mem.read addr (toNext4k addr).toNat) } := by
    rw [readBlock, hint]
    exact readMemory_eq c hpage buf
  constructor
  · exact hblock
  · have hlocal := Mem.read_write m.kernel buf
      ((m.process h).mem.read addr (toNext4k addr).toNat) (by rw [Mem.length_read]; omega)
    rw [Mem.length_read] at hlocal
    simp only [blockBytes, hblock, hlocal]

/-- Reading page by page finds the whole string. -/
theorem readString_eq (c : Copier) (buf : DWORD) {m : Memories η} {addr : DWORD} {s : Str}
    (hs : (m.process h).mem.IsString addr s)
    (hread : Accessible .read (m.process h).space addr (s.length + 1)) {turns : Nat}
    (hturns : s.length < turns) (str : Str) :
    ∃ m', readString c buf h turns addr str m = .ok (str ++ s) m' ∧ m.SameProcesses m' := by
  induction turns generalizing m addr s str with
  | zero => omega
  | succ turns ih =>
    have hle := hread.add_le (by omega)
    unfold userPages at hle
    obtain ⟨hblock, hbytes⟩ := Memories.readBlock_eq c buf (hread.left (Nat.le_add_left 1 _))
    have hnext := toNat_toNext4k' addr
    rw [readString_succ, hbytes, hblock]
    generalize toNext4k addr = len at hnext
    by_cases hends : s.length + 1 ≤ len.toNat
    · -- the zero is on this page
      obtain ⟨rest, hrest⟩ : ∃ rest, (m.process h).mem.read addr len.toNat = s ++ 0 :: rest := by
        refine ⟨(m.process h).mem.read (addr + BitVec.ofNat 32 (s.length + 1))
          (len.toNat - (s.length + 1)), ?_⟩
        have hadd := Mem.read_add (m.process h).mem addr (s.length + 1)
          (len.toNat - (s.length + 1))
        rw [show s.length + 1 + (len.toNat - (s.length + 1)) = len.toNat by omega, hs.2] at hadd
        rw [hadd, List.append_assoc]
        rfl
      have hall : ∀ b ∈ s, (b != 0) = true := by
        intro b hb
        rw [bne_iff_ne]
        rintro rfl
        exact hs.1 hb
      rw [hrest, if_pos (by simp), List.takeWhile_append_of_pos hall,
        List.takeWhile_cons_of_neg (by simp), List.append_nil]
      exact ⟨_, rfl, rfl, rfl⟩
    · have hpiece : (m.process h).mem.read addr len.toNat = s.take len.toNat := by
        have hadd := Mem.read_add (m.process h).mem addr len.toNat (s.length + 1 - len.toNat)
        rw [show len.toNat + (s.length + 1 - len.toNat) = s.length + 1 by omega, hs.2] at hadd
        have htake := congrArg (List.take len.toNat) hadd
        rw [List.take_append_of_le_length (by omega), List.take_left' (Mem.length_read ..)] at htake
        exact htake.symm
      have hnull : 0 ∉ s.take len.toNat := fun h0 ↦ hs.1 (List.mem_of_mem_take h0)
      rw [hpiece, if_neg hnull]
      have hdrop := hs.drop (n := len.toNat) (by omega)
      have haddr : addr + BitVec.ofNat 32 len.toNat = addr + len := by
        rw [BitVec.ofNat_toNat, BitVec.setWidth_eq]
      rw [haddr] at hdrop
      obtain ⟨m', hrun, hsame⟩ := @ih
        { m with kernel := m.kernel.write buf (s.take len.toNat) } (addr + len)
        (s.drop len.toNat) hdrop (by
          rw [List.length_drop]
          exact hread.right (by omega)) (by rw [List.length_drop]; omega) (str ++ s.take len.toNat)
      rw [List.append_assoc, List.take_append_drop] at hrun
      exact ⟨m', hrun, hsame⟩

/-- A word of a process that can be read is read into a local variable. -/
theorem Memories.word_readMemory (c : Copier) {m : Memories η} {a : DWORD}
    (hread : Accessible .read (m.process h).space a 4) (loc : DWORD) :
    (m.readMemory c loc h a 4).kernel.word loc = (m.process h).mem.word a := by
  have hlocal := Mem.read_write m.kernel loc ((m.process h).mem.read a 4)
    (by rw [Mem.length_read]; decide)
  rw [Mem.length_read] at hlocal
  have hstep : m.readMemory c loc h a 4 = { m with kernel := m.kernel.write loc _ } :=
    Memories.readMemory_eq c hread loc
  rw [hstep, Mem.word, hlocal, ← Mem.word]

/-- What the first pass finds. -/
def arrayEntries (mem : UserMem) : DWORD → List Str → List (DWORD × DWORD)
  | _, [] => []
  | a, s :: ss => (mem.word a, BitVec.ofNat 32 (s.length + 1)) :: arrayEntries mem (a + 4#32) ss

theorem measureStrings_eq (host : StringHost) {m : Memories η} {a : DWORD} {ss : List Str}
    (harray : (m.process h).mem.IsStringArray a ss)
    (hread : ∀ r ∈ (m.process h).mem.arrayRanges a ss,
      Accessible .read (m.process h).space r.1 r.2)
    {turns n : Nat} (hturns : ∀ s ∈ ss, s.length < turns) (hn : ss.length < n) :
    ∃ m', measureStrings host h turns n a m = .ok (arrayEntries (m.process h).mem a ss) m' ∧
      m.SameProcesses m' := by
  induction n generalizing m a ss with
  | zero => omega
  | succ n ih =>
    have hword : Accessible .read (m.process h).space a 4 := by
      cases ss with
      | nil => exact hread (a, 4) (List.mem_singleton.mpr rfl)
      | cons s ss => exact hread (a, 4) List.mem_cons_self
    have hmodify : Comp.modify (Memories.readMemory host.copier host.pStr h a 4) m = .ok ⟨⟩
        (m.readMemory host.copier host.pStr h a 4) := rfl
    have hlocal := Memories.word_readMemory host.copier hword host.pStr
    rw [measureStrings, Comp.bind_of_ok hmodify, Comp.get_bind, hlocal]
    cases ss with
    | nil =>
      rw [if_pos (show (m.process h).mem.word a = 0#32 from harray)]
      exact ⟨_, rfl, rfl, rfl⟩
    | cons s ss =>
      obtain ⟨hne, hs, hrest⟩ := harray
      simp only [Mem.arrayRanges, List.forall_mem_cons] at hread
      obtain ⟨-, hstring, hread⟩ := hread
      obtain ⟨m₁, hrun₁, hsame₁⟩ := readString_eq host.copier host.readBuf
        (m := m.readMemory host.copier host.pStr h a 4)
        hs hstring (hturns s List.mem_cons_self) []
      obtain ⟨m₂, hrun₂, hsame₂⟩ := @ih m₁ (a + 4#32) ss (by rwa [hsame₁.1]) (by rwa [hsame₁.1])
        (fun s hs ↦ hturns s (List.mem_cons_of_mem _ hs)) (by simpa using hn)
      rw [if_neg hne, Comp.bind_of_ok hrun₁, Comp.bind_of_ok hrun₂, hsame₁.1]
      exact ⟨m₂, rfl, hsame₂.1.trans hsame₁.1, hsame₂.2.trans hsame₁.2⟩

end Measure

/-! ## The second pass -/

/-- The bytes of the strings, with their zeros. -/
def dataSize (ss : List Str) : Nat := (ss.map (fun s ↦ s.length + 1)).sum

@[simp] theorem dataSize_cons (s : Str) (ss : List Str) :
    dataSize (s :: ss) = s.length + 1 + dataSize ss := by
  simp [dataSize]

/-- The bytes of the block: the pointers and the strings. -/
def blockSize (ss : List Str) : Nat := dataSize ss + 4 * (ss.length + 1)

theorem blockSize_pos (ss : List Str) : 0 < blockSize ss := by
  unfold blockSize
  omega

theorem toNat_blockSize {s : Space} {p : DWORD} {ss : List Str}
    (hwrite : Accessible .write s p (blockSize ss)) :
    (BitVec.ofNat 32 (blockSize ss)).toNat = blockSize ss := by
  have hle := hwrite.add_le (blockSize_pos ss)
  unfold userPages at hle
  rw [BitVec.toNat_ofNat, Nat.mod_eq_of_lt (by omega)]

theorem toNat_next {p : DWORD} (h : p.toNat + 4 < 2 ^ 32) : (p + 4#32).toNat = p.toNat + 4 := by
  rw [BitVec.toNat_add, Nat.mod_eq_of_lt (by simpa using h)]
  rfl

/-- What the second pass relies on: the strings it copies are in the other process, outside of
the block. -/
def Copyable {η : Type} (m : Memories η) (hFrom hTo : η) (p : DWORD) (size : Nat)
    (e : DWORD × DWORD) (s : Str) : Prop :=
  e.2 = BitVec.ofNat 32 (s.length + 1) ∧ (m.process hFrom).mem.IsString e.1 s ∧
    Accessible .read (m.process hFrom).space e.1 (s.length + 1) ∧
    (hFrom = hTo → e.1.toNat + (s.length + 1) ≤ p.toNat ∨ p.toNat + size ≤ e.1.toNat)

section CopyEntries

variable {η : Type} [DecidableEq η] {m m' : Memories η} {hFrom hTo : η} {p : DWORD} {size : Nat}

/-- A store into the block leaves the strings copyable. -/
theorem Copyable.stored {e : DWORD × DWORD} {s : Str} {a : DWORD} {bs : List UInt8}
    (h : Copyable m hFrom hTo p size e s)
    (hs : m.Stored hTo ((m.process hTo).mem.write a bs) m') (hlow : p.toNat ≤ a.toNat)
    (hhigh : a.toNat + bs.length ≤ p.toNat + size) (hsize : p.toNat + size ≤ 2 ^ 32) :
    Copyable m' hFrom hTo p size e s := by
  obtain ⟨hlen, hstring, hread, hapart⟩ := h
  have hle := hread.add_le (by omega)
  unfold userPages at hle
  refine ⟨hlen, hstring.of_agreeOn (hs.agreeOn fun heq ↦ ?_) (by omega), by rwa [hs.space], hapart⟩
  apply Mem.agreeOn_write
  · omega
  · rcases hapart heq with hbefore | hbehind
    · left
      omega
    · right
      omega

/-- The second pass stores the pointers and the strings. -/
theorem stored_copyEntries (host : StringHost) {entries : List (DWORD × DWORD)} {ss : List Str}
    (hcopy : List.Forall₂ (Copyable m hFrom hTo p size) entries ss)
    (hwrite : Accessible .write (m.process hTo).space p size) {pToArray pToData : DWORD}
    (hlow : p.toNat ≤ pToArray.toNat)
    (htable : pToArray.toNat + 4 * (ss.length + 1) ≤ pToData.toNat)
    (hdata : pToData.toNat + dataSize ss ≤ p.toNat + size) :
    m.Stored hTo (copyStrings (m.process hTo).mem pToArray pToData ss)
      (copyEntries host hFrom hTo entries pToArray pToData m) := by
  induction ss generalizing m entries pToArray pToData with
  | nil =>
    cases hcopy
    simp only [List.length_nil] at htable
    exact Memories.stored_writePointer host (hwrite.sub hlow (by omega)) 0#32
  | cons s ss ih =>
    cases hcopy with
    | @cons e _ rest _ he hrest =>
      obtain ⟨addr, len⟩ := e
      rw [List.length_cons] at htable
      rw [dataSize_cons] at hdata
      have hle := hwrite.add_le (by omega)
      unfold userPages at hle
      -- the pointer
      have hpointer := Memories.stored_writePointer host (m := m) (h := hTo)
        (hwrite.sub (k := 4) hlow (by omega)) pToData
      rw [copyEntries, copyStrings]
      generalize m.writePointer host hTo pToArray pToData = m₁ at hpointer
      have he₁ := he.stored hpointer hlow (by rw [length_natBytes]; omega) (by omega)
      -- the string
      obtain ⟨hlen, hstring, hread, hapart⟩ := he₁
      have hwrite₁ : Accessible .write (m₁.process hTo).space pToData (s.length + 1) := by
        rw [hpointer.space]
        exact hwrite.sub (by omega) (by omega)
      have hint : len.toInt = (s.length + 1 : Nat) := by
        simp only at hlen
        rw [hlen, BitVec.toInt_eq_toNat_of_lt] <;> rw [BitVec.toNat_ofNat, Nat.mod_eq_of_lt] <;>
          omega
      have htransfer := Memories.stored_transferMemory host.copier host.buf hread hwrite₁
        (fun heq ↦ (hapart heq).imp (by intro; omega) (by intro; omega)) 0
      rw [← hint] at htransfer
      simp only [BitVec.add_zero, Nat.sub_zero] at htransfer
      rw [hstring.2] at htransfer
      generalize m₁.transferMemory host.copier host.buf hFrom addr hTo pToData len.toInt 0 = m₂
        at htransfer
      have hrest₂ : List.Forall₂ (Copyable m₂ hFrom hTo p size) rest ss := by
        refine hrest.imp fun e s h ↦ ?_
        have h₁ := h.stored hpointer hlow (by rw [length_natBytes]; omega) (by omega)
        exact h₁.stored htransfer (by omega) (by rw [List.length_append]; simp; omega) (by omega)
      have hlen : len = BitVec.ofNat 32 (s.length + 1) := hlen
      have harray := toNat_next (p := pToArray) (by omega)
      have hend : (pToData + len).toNat = pToData.toNat + (s.length + 1) := by
        rw [hlen]
        exact Mem.toNat_add_ofNat (by omega)
      have hrun := @ih m₂ rest hrest₂ (by rwa [htransfer.space, hpointer.space])
        (pToArray + 4#32) (pToData + len) (by omega) (by omega) (by omega)
      rw [htransfer.self, hpointer.self, Remote.mem_setMem, Remote.mem_setMem] at hrun
      rw [← hlen]
      exact (hpointer.trans htransfer).trans hrun

end CopyEntries

/-! ## The block -/

section Block

variable {mem : UserMem} {pToArray pToData : DWORD} {ss : List Str}

/-- Nothing but the table and the strings is stored. -/
theorem agreeOn_copyStrings (htable : pToArray.toNat + 4 * (ss.length + 1) ≤ pToData.toNat)
    (hdata : pToData.toNat + dataSize ss < 2 ^ 32) {a : DWORD} {n : Nat}
    (hout : a.toNat + n ≤ pToArray.toNat ∨
      pToArray.toNat + 4 * (ss.length + 1) ≤ a.toNat ∧ a.toNat + n ≤ pToData.toNat ∨
      pToData.toNat + dataSize ss ≤ a.toNat) :
    Mem.AgreeOn mem (copyStrings mem pToArray pToData ss) a n := by
  induction ss generalizing mem pToArray pToData with
  | nil =>
    simp only [List.length_nil, dataSize, List.map_nil, List.sum_nil] at htable hdata hout
    rw [copyStrings]
    apply Mem.agreeOn_write <;> rw [length_natBytes] <;> omega
  | cons s ss ih =>
    rw [List.length_cons] at htable hout
    rw [dataSize_cons] at hdata hout
    have hnext := toNat_next (p := pToArray) (by omega)
    have hnextData : (pToData + BitVec.ofNat 32 (s.length + 1)).toNat =
        pToData.toNat + (s.length + 1) := Mem.toNat_add_ofNat (by omega)
    rw [copyStrings]
    have hpointer : Mem.AgreeOn mem (mem.write pToArray (natBytes 4 pToData.toNat)) a n := by
      apply Mem.agreeOn_write <;> rw [length_natBytes] <;> omega
    refine (hpointer.trans (Mem.agreeOn_write _ ?_ ?_)).trans (ih ?_ ?_ ?_)
    · rw [List.length_append, List.length_singleton]
      omega
    · rw [List.length_append, List.length_singleton]
      omega
    · omega
    · omega
    · omega

/-- The table and the strings form an array that lies where they have been stored. -/
theorem isStringArray_copyStrings (hss : ∀ s ∈ ss, 0 ∉ s)
    (htable : pToArray.toNat + 4 * (ss.length + 1) ≤ pToData.toNat)
    (hdata : pToData.toNat + dataSize ss < 2 ^ 32) :
    (copyStrings mem pToArray pToData ss).IsStringArray pToArray ss ∧
      ∀ r ∈ (copyStrings mem pToArray pToData ss).arrayRanges pToArray ss,
        pToArray.toNat ≤ r.1.toNat ∧ r.1.toNat + r.2 ≤ pToData.toNat + dataSize ss := by
  induction ss generalizing mem pToArray pToData with
  | nil =>
    rw [List.length_nil] at htable
    refine ⟨Mem.word_write mem pToArray 0#32, fun r hr ↦ ?_⟩
    rw [List.mem_singleton.mp hr]
    exact ⟨Nat.le_refl _, by simp only; omega⟩
  | cons s ss ih =>
    rw [List.length_cons] at htable
    rw [dataSize_cons] at hdata
    have hnext := toNat_next (p := pToArray) (by omega)
    have hnextData : (pToData + BitVec.ofNat 32 (s.length + 1)).toNat =
        pToData.toNat + (s.length + 1) := Mem.toNat_add_ofNat (by omega)
    have hs := hss s List.mem_cons_self
    rw [copyStrings]
    generalize hmem₁ : mem.write pToArray (natBytes 4 pToData.toNat) = mem₁
    generalize hmem₂ : mem₁.write pToData (s ++ [0]) = mem₂
    -- the rest leaves this pointer and this string alone
    have hrest := @ih mem₂ _ _ (fun s hs ↦ hss s (List.mem_cons_of_mem _ hs))
      (show (pToArray + 4#32).toNat + _ ≤ (pToData + BitVec.ofNat 32 (s.length + 1)).toNat by
        omega) (by omega)
    have hpointer : Mem.AgreeOn mem₁ (copyStrings mem₂ (pToArray + 4#32)
        (pToData + BitVec.ofNat 32 (s.length + 1)) ss) pToArray 4 := by
      have hstore : Mem.AgreeOn mem₁ mem₂ pToArray 4 := by
        rw [← hmem₂]
        apply Mem.agreeOn_write <;> rw [List.length_append, List.length_singleton] <;> omega
      exact hstore.trans (agreeOn_copyStrings (by omega) (by omega) (by omega))
    have hstring : Mem.AgreeOn mem₂ (copyStrings mem₂ (pToArray + 4#32)
        (pToData + BitVec.ofNat 32 (s.length + 1)) ss) pToData (s.length + 1) := by
      apply agreeOn_copyStrings <;> omega
    have hword : (copyStrings mem₂ (pToArray + 4#32)
        (pToData + BitVec.ofNat 32 (s.length + 1)) ss).word pToArray = pToData := by
      rw [← Mem.word_of_agreeOn hpointer (by omega), ← hmem₁, Mem.word_write]
    have his : mem₂.IsString pToData s := by
      rw [← hmem₂]
      exact Mem.isString_write mem₁ pToData hs (by omega)
    constructor
    · rw [Mem.IsStringArray, hword]
      refine ⟨?_, his.of_agreeOn hstring (by omega), hrest.1⟩
      rintro rfl
      simp at htable
    · rw [Mem.arrayRanges, hword]
      simp only [List.forall_mem_cons, dataSize_cons]
      refine ⟨by omega, by omega, fun r hr ↦ ?_⟩
      have hin := hrest.2 r hr
      omega

end Block

/-! ## The allocation -/

section Allocation

variable {host : Host} {s s' : Space} {p : DWORD}

/-- What was accessible before an allocation still is. -/
theorem Accessible.allocated {addr size : DWORD} (h : host.allocate s addr size = some (p, s'))
    {rw : ReadWrite} {a : DWORD} {n : Nat} (ha : Accessible rw s a n) : Accessible rw s' a n := by
  intro x hx hlt
  have hgives := ha x hx hlt
  rcases (extended_allocate h).page (x / 4096) with hsame | hfree | ⟨b, access, hreserved, -⟩
  · rwa [hsame]
  · rw [hfree] at hgives
    cases rw <;> exact absurd hgives id
  · rw [hreserved] at hgives
    cases rw <;> exact absurd hgives id

/-- What was committed before an allocation keeps its contents. -/
theorem agreeOn_zeroFresh {rw : ReadWrite} {a : DWORD} {n : Nat} (ha : Accessible rw s a n)
    (mem : UserMem) : Mem.AgreeOn mem (zeroFresh s s' mem) a n :=
  fun _ hx hlt ↦ (zeroFresh_of_committed mem (ha.committed hx hlt)).symm

/-- A block that Windows has chosen was not committed before. -/
theorem not_committed_of_block {size : DWORD} (h : host.allocate s 0#32 size = some (p, s'))
    (hok : p ≠ -1#32) (hwrite : Accessible .write s' p size.toNat) {a : Nat} (ha : p.toNat ≤ a)
    (hlt : a < p.toNat + size.toNat) : ¬s.Committed a := by
  by_cases hplace : host.windows.place s size.toNat = 0
  · have hp : p = 0#32 := (allocate_unplaced h hplace).resolve_left hok
    -- nothing is ever committed at zero
    have hzero := hwrite.committed (a := 0) (by rw [hp]; rfl) (by omega)
    exact absurd (s'.outside 0 (.inl (by decide))) (Page.ne_free_of_state_commit hzero)
  · obtain ⟨q, t, hcall, hspec⟩ := allocate_placed (host.stale s 0#32 size) hplace
    have heq := hcall.symm.trans h
    simp only [Option.some.injEq, Prod.mk.injEq] at heq
    obtain ⟨rfl, rfl⟩ := heq
    exact (hspec hok a ha hlt).2

/-- What was accessible before is outside of it. -/
theorem apart_of_block {size : DWORD} (h : host.allocate s 0#32 size = some (p, s'))
    (hok : p ≠ -1#32) (hwrite : Accessible .write s' p size.toNat) {rw : ReadWrite} {a : DWORD}
    {n : Nat} (ha : Accessible rw s a n) (hn : 0 < n) (hsize : 0 < size.toNat) :
    a.toNat + n ≤ p.toNat ∨ p.toNat + size.toNat ≤ a.toNat := by
  by_contra hnot
  rw [not_or, Nat.not_le, Nat.not_le] at hnot
  exact not_committed_of_block h hok hwrite (a := max a.toNat p.toNat) (by omega) (by omega)
    (ha.committed (by omega) (by omega))

end Allocation

/-- Windows gives the process a block of this size, whose bytes can be read and written. -/
structure Granted (host : Host) (s : Space) (n : Nat) (p : DWORD) (s' : Space) : Prop where
  call : host.allocate s 0#32 (BitVec.ofNat 32 n) = some (p, s')
  ok : p ≠ -1#32
  read : Accessible .read s' p n
  write : Accessible .write s' p n

/-- What was accessible before is outside of a granted block. -/
theorem Granted.apart {host : Host} {s s' : Space} {p a : DWORD} {ss : List Str} {n : Nat}
    {rw : ReadWrite} (h : Granted host s (blockSize ss) p s') (ha : Accessible rw s a n)
    (hn : 0 < n) : a.toNat + n ≤ p.toNat ∨ p.toNat + blockSize ss ≤ a.toNat := by
  have hsize := toNat_blockSize h.write
  have hpos := blockSize_pos ss
  have hapart := apart_of_block h.call h.ok (by rw [hsize]; exact h.write) ha hn (by omega)
  rwa [hsize] at hapart

/-- Windows gives a block of this size, and the pages are then like this. -/
def grants (host : Host) (n : Nat) (next : Space → Bool) (s : Space) : Bool :=
  (host.allocate s 0#32 (BitVec.ofNat 32 n)).any fun r ↦
    decide (r.1 ≠ -1#32 ∧ Accessible .read r.2 r.1 n ∧ Accessible .write r.2 r.1 n) && next r.2

theorem exists_granted {host : Host} {n : Nat} {next : Space → Bool} {s : Space}
    (h : grants host n next s = true) : ∃ p s', Granted host s n p s' ∧ next s' = true := by
  unfold grants at h
  cases hcall : host.allocate s 0#32 (BitVec.ofNat 32 n) with
  | none =>
    rw [hcall] at h
    cases h
  | some r =>
    rw [hcall, Option.any_some, Bool.and_eq_true, decide_eq_true_eq] at h
    obtain ⟨⟨hok, hread, hwrite⟩, hnext⟩ := h
    exact ⟨r.1, r.2, ⟨hcall, hok, hread, hwrite⟩, hnext⟩

/-! ## The whole copy -/

/-- The strings that `pFromList` leads to: none if it is null. -/
def IsStringList (mem : UserMem) (a : DWORD) (ss : List Str) : Prop :=
  if a = 0#32 then ss = [] else mem.IsStringArray a ss

/-- Where they and the pointers to them lie. -/
def listRanges (mem : UserMem) (a : DWORD) (ss : List Str) : List (DWORD × Nat) :=
  if a = 0#32 then [] else mem.arrayRanges a ss

/-- The strings have been copied into the block at `p` of a process with the pages `s`. -/
structure Copied {η : Type} (m : Memories η) (hTo : η) (s : Space) (p : DWORD) (ss : List Str)
    (m' : Memories η) : Prop where
  /-- The block is an array of the same strings. -/
  array : (m'.process hTo).mem.IsStringArray p ss
  /-- Its pointers and its strings lie inside the block. -/
  inside : ∀ r ∈ (m'.process hTo).mem.arrayRanges p ss,
    p.toNat ≤ r.1.toNat ∧ r.1.toNat + r.2 ≤ p.toNat + blockSize ss
  /-- Outside the block is what the allocation has left. -/
  outside : ∀ x : DWORD, x.toNat < p.toNat ∨ p.toNat + blockSize ss ≤ x.toNat →
    (m'.process hTo).mem x = zeroFresh (m.process hTo).space s (m.process hTo).mem x
  space : (m'.process hTo).space = s
  other : ∀ h, h ≠ hTo → m'.process h = m.process h

section Whole

variable {η : Type} [DecidableEq η] {m : Memories η} {hFrom hTo : η} {p : DWORD} {s : Space}
  {ss : List Str}

theorem foldl_arrayEntries (mem : UserMem) (a : DWORD) (ss : List Str) (n : Nat) :
    ((arrayEntries mem a ss).map Prod.snd).foldl (· + ·) (BitVec.ofNat 32 n) =
      BitVec.ofNat 32 (n + dataSize ss) := by
  induction ss generalizing a n with
  | nil => rfl
  | cons s ss ih =>
    rw [arrayEntries, List.map_cons, List.foldl_cons, ← BitVec.ofNat_add, ih, dataSize_cons,
      Nat.add_assoc]

theorem length_arrayEntries (mem : UserMem) (a : DWORD) (ss : List Str) :
    (arrayEntries mem a ss).length = ss.length := by
  induction ss generalizing a with
  | nil => rfl
  | cons s ss ih => rw [arrayEntries, List.length_cons, List.length_cons, ih]

/-- After a block has been allocated, the strings can be copied into it. -/
theorem copyable_arrayEntries {η : Type} {m m' : Memories η} {hFrom hTo : η} {size : Nat}
    {a : DWORD}
    (harray : (m.process hFrom).mem.IsStringArray a ss)
    (hread : ∀ r ∈ (m.process hFrom).mem.arrayRanges a ss,
      Accessible .read (m.process hFrom).space r.1 r.2)
    (hkept : ∀ {b : DWORD} {n : Nat}, Accessible .read (m.process hFrom).space b n → 0 < n →
      Mem.AgreeOn (m.process hFrom).mem (m'.process hFrom).mem b n ∧
        Accessible .read (m'.process hFrom).space b n ∧
        (hFrom = hTo → b.toNat + n ≤ p.toNat ∨ p.toNat + size ≤ b.toNat)) :
    List.Forall₂ (Copyable m' hFrom hTo p size) (arrayEntries (m.process hFrom).mem a ss) ss := by
  induction ss generalizing a with
  | nil => exact .nil
  | cons s ss ih =>
    obtain ⟨-, hs, hrest⟩ := harray
    simp only [Mem.arrayRanges, List.forall_mem_cons] at hread
    obtain ⟨-, hstring, hread⟩ := hread
    obtain ⟨hagree, hread', hapart⟩ := hkept hstring (Nat.succ_pos _)
    have hle := hstring.add_le (Nat.succ_pos _)
    unfold userPages at hle
    exact .cons ⟨rfl, hs.of_agreeOn hagree (by omega), hread', hapart⟩ (ih hrest hread)

theorem IsStringList.zero_notMem {mem : UserMem} {a : DWORD} (h : IsStringList mem a ss) :
    ∀ s ∈ ss, 0 ∉ s := by
  have harray : ∀ {a : DWORD} {ss : List Str}, mem.IsStringArray a ss → ∀ s ∈ ss, 0 ∉ s := by
    intro a ss
    induction ss generalizing a with
    | nil => exact fun _ s hs ↦ absurd hs List.not_mem_nil
    | cons s ss ih =>
      rintro ⟨-, hs, hrest⟩
      exact List.forall_mem_cons.mpr ⟨hs.1, ih hrest⟩
  unfold IsStringList at h
  split at h
  · rw [h]
    exact fun s hs ↦ absurd hs List.not_mem_nil
  · exact harray h

theorem length_lt_dataSize {t : Str} (h : t ∈ ss) : t.length < dataSize ss := by
  induction ss with
  | nil => exact absurd h List.not_mem_nil
  | cons s ss ih =>
    rw [dataSize_cons]
    rcases List.mem_cons.mp h with rfl | h
    · omega
    · have := ih h
      omega

/-- The first pass over a list that can be read. -/
theorem measureList_eq {η : Type} (host : StringHost) {m : Memories η} {hFrom : η}
    {pFromList : DWORD} (hlist : IsStringList (m.process hFrom).mem pFromList ss)
    (hread : ∀ r ∈ listRanges (m.process hFrom).mem pFromList ss,
      Accessible .read (m.process hFrom).space r.1 r.2)
    {turns : Nat} (hturns : blockSize ss ≤ turns) :
    ∃ m₁, measureList host hFrom turns pFromList m =
        .ok (arrayEntries (m.process hFrom).mem pFromList ss) m₁ ∧ m.SameProcesses m₁ := by
  unfold IsStringList at hlist
  unfold listRanges at hread
  unfold measureList
  by_cases hnull : pFromList = 0#32
  · rw [if_pos hnull] at hlist
    rw [if_neg (not_not.mpr hnull), hlist]
    exact ⟨m, rfl, rfl, rfl⟩
  · rw [if_neg hnull] at hlist hread
    rw [if_pos hnull]
    unfold blockSize at hturns
    refine measureStrings_eq host hlist hread (fun t ht ↦ ?_) (by omega)
    have hlen := length_lt_dataSize ht
    omega

/-- An allocation leaves what it was given to copy. -/
theorem forall₂_copyable {η : Type} {host : Host} {m m₂ : Memories η} {hFrom hTo : η}
    {pFromList : DWORD} {entries : List (DWORD × DWORD)}
    (hlist : IsStringList (m.process hFrom).mem pFromList ss)
    (hread : ∀ r ∈ listRanges (m.process hFrom).mem pFromList ss,
      Accessible .read (m.process hFrom).space r.1 r.2)
    (halloc : host.allocate (m.process hTo).space 0#32 (BitVec.ofNat 32 (blockSize ss)) =
      some (p, s))
    (hok : p ≠ -1#32) (hwrite : Accessible .write s p (blockSize ss))
    (hentries : arrayEntries (m.process hFrom).mem pFromList ss = entries)
    (hself : m₂.process hTo = ⟨s, zeroFresh (m.process hTo).space s (m.process hTo).mem⟩)
    (hother : ∀ h, h ≠ hTo → m₂.process h = m.process h) :
    List.Forall₂ (Copyable m₂ hFrom hTo p (blockSize ss)) entries ss := by
  unfold IsStringList at hlist
  unfold listRanges at hread
  by_cases hnull : pFromList = 0#32
  · rw [if_pos hnull] at hlist
    rw [← hentries, hlist]
    exact .nil
  rw [if_neg hnull] at hlist hread
  rw [← hentries]
  apply copyable_arrayEntries hlist hread
  intro b n hb hn
  by_cases heq : hFrom = hTo
  · subst heq
    have hsize := toNat_blockSize hwrite
    have hpos := blockSize_pos ss
    have hapart := apart_of_block halloc hok (by rwa [hsize]) hb hn (by omega)
    rw [hsize] at hapart
    rw [hself]
    exact ⟨agreeOn_zeroFresh hb _, hb.allocated halloc, fun _ ↦ hapart⟩
  · rw [hother hFrom heq]
    exact ⟨fun _ _ _ ↦ rfl, hb, fun h ↦ absurd h heq⟩

/-- What the call does to the memories. -/
theorem copied_copyStringList (host : StringHost) {pFromList : DWORD}
    (pProc : Option η) (hlist : IsStringList (m.process hFrom).mem pFromList ss)
    (hread : ∀ r ∈ listRanges (m.process hFrom).mem pFromList ss,
      Accessible .read (m.process hFrom).space r.1 r.2)
    (halloc : host.allocate (m.process hTo).space 0#32 (BitVec.ofNat 32 (blockSize ss)) =
      some (p, s))
    (hok : p ≠ -1#32) (hwrite : Accessible .write s p (blockSize ss)) {turns : Nat}
    (hturns : blockSize ss ≤ turns) :
    ∃ m', copyStringListBetweenProcesses host hFrom pFromList hTo pProc turns m =
        .ok ⟨p, BitVec.ofNat 32 ss.length, BitVec.ofNat 32 (blockSize ss)⟩ m' ∧
      Copied m hTo s p ss m' := by
  have hle := hwrite.add_le (blockSize_pos ss)
  have hblock : blockSize ss = dataSize ss + 4 * (ss.length + 1) := rfl
  unfold userPages at hle
  obtain ⟨m₁, hrun, hsame⟩ := measureList_eq host hlist hread hturns
  generalize hentries : arrayEntries (m.process hFrom).mem pFromList ss = entries at hrun
  have hcount : entries.length = ss.length := by rw [← hentries, length_arrayEntries]
  have htable : 4#32 * (BitVec.ofNat 32 ss.length + 1#32) =
      BitVec.ofNat 32 (4 * (ss.length + 1)) := by
    rw [BitVec.ofNat_mul, BitVec.ofNat_add]
  have htotal : (entries.map Prod.snd).foldl (· + ·) 0#32 +
      BitVec.ofNat 32 (4 * (ss.length + 1)) = BitVec.ofNat 32 (blockSize ss) := by
    rw [← hentries, show (0#32) = BitVec.ofNat 32 0 from rfl, foldl_arrayEntries, Nat.zero_add,
      ← BitVec.ofNat_add, hblock]
  unfold copyStringListBetweenProcesses
  rw [Comp.bind_of_ok hrun]
  simp only [hcount, htable, htotal]
  rw [Comp.bind_of_ok (Comp.get_eq_ok.mpr ⟨rfl, rfl⟩), hsame.1, halloc]
  -- what the second pass starts from
  generalize hm₂ : (m₁.allocated hTo s).recorded pProc
    ⟨p, BitVec.ofNat 32 (blockSize ss), PAGE_READWRITE⟩ = m₂
  have hprocess : m₂.process = Function.update m.process hTo
      ⟨s, zeroFresh (m.process hTo).space s (m.process hTo).mem⟩ := by
    rw [← hm₂, ← hsame.1]
    cases pProc <;> rfl
  have hself : m₂.process hTo = ⟨s, zeroFresh (m.process hTo).space s (m.process hTo).mem⟩ := by
    rw [hprocess, Function.update_self]
  have hother : ∀ h, h ≠ hTo → m₂.process h = m.process h := by
    intro h hne
    rw [hprocess, Function.update_of_ne hne]
  have hcopy : List.Forall₂ (Copyable m₂ hFrom hTo p (blockSize ss)) entries ss :=
    forall₂_copyable hlist hread halloc hok hwrite hentries hself hother
  have hdata : (p + BitVec.ofNat 32 (4 * (ss.length + 1))).toNat =
      p.toNat + 4 * (ss.length + 1) := Mem.toNat_add_ofNat (by omega)
  have hstored := stored_copyEntries host hcopy (by rwa [hself]) (Nat.le_refl _)
    (show p.toNat + 4 * (ss.length + 1) ≤ _ from Nat.le_of_eq hdata.symm) (by omega)
  rw [hself] at hstored
  refine ⟨copyEntries host hFrom hTo entries p (p + BitVec.ofNat 32 (4 * (ss.length + 1))) m₂,
    ?_, ?_⟩
  · rw [← hm₂]
    rfl
  · have hblockArray := @isStringArray_copyStrings
      (zeroFresh (m.process hTo).space s (m.process hTo).mem) _ _ _
      hlist.zero_notMem (Nat.le_of_eq hdata.symm) (by omega)
    constructor
    · rw [hstored.self, hself]
      exact hblockArray.1
    · rw [hstored.self, hself]
      intro r hr
      have hin := hblockArray.2 r hr
      omega
    · intro x hx
      rw [hstored.self, hself]
      refine (agreeOn_copyStrings (n := 1) (Nat.le_of_eq hdata.symm) (by omega) ?_ x
        (Nat.le_refl _) (Nat.lt_succ_self _)).symm
      omega
    · rw [hstored.self, hself]
      rfl
    · intro h hne
      rw [hstored.other hne, hother h hne]

/-- The copy of a list of strings that can be read, into a block that is allocated and can be
written. -/
theorem copyStringListBetweenProcesses_copies (host : StringHost) {pFromList : DWORD}
    (pProc : Option η) (hlist : IsStringList (m.process hFrom).mem pFromList ss)
    (hread : ∀ r ∈ listRanges (m.process hFrom).mem pFromList ss,
      Accessible .read (m.process hFrom).space r.1 r.2)
    (halloc : host.allocate (m.process hTo).space 0#32 (BitVec.ofNat 32 (blockSize ss)) =
      some (p, s))
    (hok : p ≠ -1#32) (hwrite : Accessible .write s p (blockSize ss)) {turns : Nat}
    (hturns : blockSize ss ≤ turns) :
    ∃ r m', copyStringListBetweenProcesses host hFrom pFromList hTo pProc turns m = .ok r m' ∧
      r.addr = p ∧ r.count.toNat = ss.length ∧ r.memSize.toNat = blockSize ss ∧
      Copied m hTo s p ss m' := by
  obtain ⟨m', hrun, hcopied⟩ :=
    copied_copyStringList host pProc hlist hread halloc hok hwrite hturns
  refine ⟨_, m', hrun, rfl, ?_, toNat_blockSize hwrite, hcopied⟩
  have hle := hwrite.add_le (blockSize_pos ss)
  unfold blockSize userPages at hle
  exact Nat.mod_eq_of_lt (by omega)

end Whole

/-- The array `{"sh", NULL}` at `0x08048000`, with its string across the end of the page. -/
def shArray : UserMem :=
  (Mem.write (fun _ ↦ 0) 0x08048000#32 (natBytes 4 0x08048FFF ++ natBytes 4 0)).write
    0x08048FFF#32 [0x73, 0x68, 0]

/-- A host where all goes well. -/
def easyHost : StringHost :=
  ⟨⟨⟨Windows.generous, fun _ _ _ ↦ ⟨0#32, 0#32, .free⟩⟩, Copier.exact, 0x0012F3A4#32⟩,
    0x0012F3A0#32, 0x0012E39C#32, 0x0012E398#32⟩

/-- One process with this memory. -/
def lonely (mem : UserMem) : Memories Unit :=
  ⟨fun _ ↦ ⟨imageSpace, mem⟩, fun _ ↦ [], fun _ ↦ 0⟩

theorem isStringList_shArray : IsStringList shArray 0x08048000#32 [[0x73, 0x68]] := by
  rw [IsStringList, if_neg (by decide)]
  refine ⟨?_, ⟨?_, ?_⟩, ?_⟩
  · decide +kernel
  · decide +kernel
  · decide +kernel
  · show Mem.word _ _ = _
    decide +kernel

theorem readable_shArray : ∀ r ∈ listRanges shArray 0x08048000#32 [[0x73, 0x68]],
    Accessible .read imageSpace r.1 r.2 := by
  decide +kernel

/-- `"ls"`, `"-la"` and `"/tmp"`. -/
def lsArgs : List Str := [[0x6C, 0x73], [0x2D, 0x6C, 0x61], [0x2F, 0x74, 0x6D, 0x70]]

/-- `"HOME=/root"` and `"A="`. -/
def lsEnv : List Str :=
  [[0x48, 0x4F, 0x4D, 0x45, 0x3D, 0x2F, 0x72, 0x6F, 0x6F, 0x74], [0x41, 0x3D]]

/-- The array of the arguments at `0x08048000`, with its first string across the end of the page,
and that of the environment at `0x08048020`. -/
def lsArrays : UserMem :=
  [(0x08048000#32, natBytes 4 0x08048FFF ++ natBytes 4 0x08048100 ++ natBytes 4 0x08048110),
    (0x08048020#32, natBytes 4 0x08048120 ++ natBytes 4 0x08048130),
    (0x08048FFF#32, lsArgs[0]), (0x08048100#32, lsArgs[1]), (0x08048110#32, lsArgs[2]),
    (0x08048120#32, lsEnv[0]), (0x08048130#32, lsEnv[1])].foldl
      (fun mem r ↦ Mem.write mem r.1 r.2) fun _ ↦ 0

theorem isStringList_lsArgs : IsStringList lsArrays 0x08048000#32 lsArgs := by
  rw [IsStringList, if_neg (by decide)]
  decide +kernel

theorem isStringList_lsEnv : IsStringList lsArrays 0x08048020#32 lsEnv := by
  rw [IsStringList, if_neg (by decide)]
  decide +kernel

theorem readable_lsArgs : ∀ r ∈ listRanges lsArrays 0x08048000#32 lsArgs,
    Accessible .read imageSpace r.1 r.2 := by
  decide +kernel

/-- The arguments are copied inside their process. -/
theorem copyStringListBetweenProcesses_copies_ls :
    ∃ r m', copyStringListBetweenProcesses easyHost () 0x08048000#32 () none 28 (lonely lsArrays) =
        .ok r m' ∧
      r.count.toNat = 3 ∧ r.memSize.toNat = 28 ∧
        (m'.process ()).mem.IsStringArray r.addr lsArgs := by
  have hsucceed : AllocationsSucceed easyHost.toHost imageSpace
      [⟨0#32, 28#32, PAGE_READWRITE⟩] := by decide +kernel
  obtain ⟨p, s, halloc, hok, hwrite, -⟩ := allocationsSucceed_cons.mp hsucceed
  obtain ⟨r, m', hrun, haddr, hcount, hsize, hcopied⟩ :=
    @copyStringListBetweenProcesses_copies Unit _ (lonely lsArrays) () () p s lsArgs
      easyHost 0x08048000#32 none isStringList_lsArgs readable_lsArgs halloc hok hwrite 28
      (Nat.le_refl 28)
  exact ⟨r, m', hrun, hcount, hsize, haddr ▸ hcopied.array⟩

end Keow.Memory
