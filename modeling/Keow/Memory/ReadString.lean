import Keow.Kernel.CharString
import Keow.Memory.StringList
import Mathlib.Data.List.TakeWhile

/-!
# Reading a string of another process

`MemoryHelper::ReadString` byte by byte: the loop over a block appends to a `string` until a NUL
comes. It keeps step with `readString`, which takes the bytes of a block at once.
-/

namespace Keow.Memory

open Keow.Base Keow.Kernel
open Keow.Paths (Str)

variable {η : Type}

/-- The loop over the bytes of a block, `MemoryHelper.cpp:429–435`: the string so far, and whether a
NUL has been met. The memory of a new buffer holds what it does when the string has that length. -/
def appendBlock (raw : Nat → Bool → Nat → UInt8) :
    List UInt8 → CharString → Option (CharString × Bool)
  | [], str => some (str, false)
  | b :: bytes, str =>
      if b = 0 then some (str, true)
      else (str.appendChar (raw str.len) b).bind (appendBlock raw bytes)

/-- Return after a NUL, and go on with the next block without one. -/
def afterBlock {σ : Type} (next : CharString → Comp σ CharString) :
    Option (CharString × Bool) → Comp σ CharString
  | none => Comp.fault
  | some (str, true) => return str
  | some (str, false) => next str

/-- `MemoryHelper::ReadString`, `MemoryHelper.cpp:411–440`, for at most a given number of blocks. -/
def readChars (c : Copier) (raw : Nat → Bool → Nat → UInt8) (buf : DWORD) (h : η) :
    Nat → DWORD → CharString → Comp (Memories η) CharString
  | 0, _, _ => Comp.wait
  | turns + 1, addr, str => do
      let len := (addr &&& ~~~(0x1000#32 - 1#32)) + 0x1000#32 - addr
      Comp.modify (·.readMemory c buf h addr len.toInt)
      let m ← Comp.get
      afterBlock (readChars c raw buf h turns (addr + len))
        (appendBlock raw (m.kernel.read buf len.toNat) str)

/-- A block adds its bytes up to the first NUL. -/
theorem appendBlock_eq (raw : Nat → Bool → Nat → UInt8) (bytes : List UInt8) {str : CharString}
    {text : Str} (hstr : str.Holds text) :
    ∃ str', appendBlock raw bytes str = some (str', decide (0 ∈ bytes)) ∧
      str'.Holds (text ++ bytes.takeWhile (· != 0)) := by
  induction bytes generalizing str text with
  | nil => exact ⟨str, rfl, by rwa [List.takeWhile_nil, List.append_nil]⟩
  | cons b bytes ih =>
    by_cases hb : b = 0
    · subst hb
      refine ⟨str, ?_, ?_⟩
      · rw [appendBlock, if_pos rfl, decide_eq_true (List.mem_cons_self)]
      · rwa [List.takeWhile_cons_of_neg (by simp), List.append_nil]
    · obtain ⟨str₁, happend, h₁, -⟩ := CharString.holds_appendChar hstr (raw str.len) b
      obtain ⟨str₂, hblock, h₂⟩ := ih h₁
      refine ⟨str₂, ?_, ?_⟩
      · rw [appendBlock, if_neg hb, happend, Option.bind_some, hblock]
        simp [Ne.symm hb]
      · rw [List.takeWhile_cons_of_pos (by simpa using hb)]
        rwa [List.append_assoc] at h₂

/-- A turn of it. -/
theorem readChars_succ (c : Copier) (raw : Nat → Bool → Nat → UInt8) (buf : DWORD) (h : η)
    (turns : Nat) (addr : DWORD) (str : CharString) (m : Memories η) :
    readChars c raw buf h (turns + 1) addr str m =
      afterBlock (readChars c raw buf h turns (addr + toNext4k addr))
        (appendBlock raw (m.blockBytes c buf h addr) str) (m.readBlock c buf h addr) := by
  have hblock : Comp.modify (Memories.readMemory c buf h addr (toNext4k addr).toInt) m =
      .ok ⟨⟩ (m.readBlock c buf h addr) := rfl
  rw [readChars, ← toNext4k, Comp.bind_of_ok hblock, Comp.get_bind]
  rfl

/-- Where the bytes of a block at a time give a string, the bytes one at a time give it too. -/
theorem readChars_of_readString (c : Copier) (raw : Nat → Bool → Nat → UInt8) (buf : DWORD) {h : η}
    {turns : Nat} {addr : DWORD} {text s : Str} {m m' : Memories η}
    (hrun : readString c buf h turns addr text m = .ok s m') {str : CharString}
    (hstr : str.Holds text) :
    ∃ str', readChars c raw buf h turns addr str m = .ok str' m' ∧ str'.Holds s := by
  induction turns generalizing addr text m str with
  | zero => exact absurd hrun Comp.wait_ne_ok
  | succ turns ih =>
    rw [readString_succ] at hrun
    rw [readChars_succ]
    generalize m.blockBytes c buf h addr = bytes at hrun ⊢
    generalize m.readBlock c buf h addr = m₁ at hrun ⊢
    obtain ⟨str₁, hblock, h₁⟩ := appendBlock_eq raw bytes hstr
    rw [hblock]
    by_cases hnul : 0 ∈ bytes
    · rw [if_pos hnul] at hrun
      obtain ⟨rfl, rfl⟩ := Comp.pure_eq_ok.mp hrun
      rw [decide_eq_true hnul]
      exact ⟨str₁, rfl, h₁⟩
    · rw [if_neg hnul] at hrun
      rw [decide_eq_false hnul]
      apply ih hrun
      have hall : ∀ b ∈ bytes, (b != 0) = true := by
        intro b hb
        rw [bne_iff_ne]
        rintro rfl
        exact hnul hb
      rwa [List.takeWhile_eq_self_iff.mpr hall] at h₁

/-- The bytes in front of a NUL are a string. -/
theorem isString_read {mem : UserMem} {a : DWORD} {n : Nat}
    (hbytes : ∀ i < n, mem (a + BitVec.ofNat 32 i) ≠ 0) (hnul : mem (a + BitVec.ofNat 32 n) = 0) :
    mem.IsString a (mem.read a n) := by
  constructor
  · intro hmem
    obtain ⟨i, hi, hzero⟩ := List.mem_map.mp hmem
    exact hbytes i (List.mem_range.mp hi) hzero
  · rw [Mem.length_read, Mem.read_add]
    show _ ++ [mem (a + BitVec.ofNat 32 n + 0#32)] = _
    rw [BitVec.add_zero, hnul]

/-- A string whose bytes and NUL can be read is returned, whatever follows, as soon as there may be
more turns than it has bytes. -/
theorem readChars_eq (c : Copier) (raw : Nat → Bool → Nat → UInt8) (buf : DWORD) (m : Memories η)
    (h : η) (a : DWORD) (n : Nat)
    (hbytes : ∀ i < n, (m.process h).mem (a + BitVec.ofNat 32 i) ≠ 0)
    (hnul : (m.process h).mem (a + BitVec.ofNat 32 n) = 0)
    (hread : Accessible .read (m.process h).space a (n + 1)) :
    ∀ turns, n < turns → ∃ str m', readChars c raw buf h turns a .new m = .ok str m' ∧
      str.text = (m.process h).mem.read a n ∧ m.SameProcesses m' := by
  intro turns hturns
  have hs := isString_read hbytes hnul
  have hlen : ((m.process h).mem.read a n).length = n := Mem.length_read ..
  obtain ⟨m', hrun, hsame⟩ := readString_eq c buf hs (by rwa [hlen]) (by rwa [hlen]) []
  obtain ⟨str, hchars, hstr⟩ := readChars_of_readString c raw buf hrun CharString.holds_new
  exact ⟨str, m', hchars, hstr.text_eq, hsame⟩

/-- A process whose only page, at `0x10000`, ends with `"ab"` and a NUL. -/
def endsWithAb : Memories Unit where
  process _ := ⟨onePage, Mem.write (fun _ ↦ 1) 0x10FFD#32 [0x61, 0x62, 0x00]⟩
  memoryAllocations _ := []
  kernel _ := 0

/-- Nothing can be read behind the NUL, and nothing has to be. -/
theorem readChars_endsWithAb : ∃ str m',
    readChars Copier.exact (fun _ _ _ ↦ 0xCC) 0x5000#32 () 3 0x10FFD#32 .new endsWithAb =
      .ok str m' ∧ str.text = [0x61, 0x62] ∧ endsWithAb.SameProcesses m' :=
  readChars_eq Copier.exact _ 0x5000#32 endsWithAb () 0x10FFD#32 2 (by decide) (by decide)
    (show Accessible .read onePage 0x10FFD#32 3 by decide) 3 (by decide)

end Keow.Memory
