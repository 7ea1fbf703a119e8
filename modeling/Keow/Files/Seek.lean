import Keow.Base.Int32
import Keow.Base.Memory
import Keow.Files.FreeSlots

/-!
# File pointers

`sys_lseek` and `sys__llseek` on a regular file. Both give a 64-bit distance to `IOHFile::Seek`,
which takes it apart for `SetFilePointer` in the user process and puts a result together again.
-/

namespace Keow.Files

open Keow.Base Keow.Kernel

/-- What the `m_RemoteHandle` of an `IOHFile` refers to. -/
structure OpenFile where
  length : Nat
  pointer : Nat

/-- The open file behind each `IOHFile`, the user memory of the processes and their
`g_LastError`. -/
structure SeekWorld where
  file : Nat → Option OpenFile
  memory : Nat → Mem 32
  error : Nat → DWORD

def ERROR_NEGATIVE_SEEK : DWORD := 131#32

/-- Where a distance is counted from. -/
def OpenFile.origin (f : OpenFile) (method : DWORD) : Nat :=
  if method = FILE_BEGIN then 0 else if method = FILE_CURRENT then f.pointer else f.length

/-- What `SetFilePointer` returns, and `GetLastError` and the file after it. -/
structure FilePointerSet where
  low : DWORD
  error : DWORD
  file : OpenFile

/-- Win32 `SetFilePointer` by a distance in two halves: a negative position is an error and
leaves the pointer, any other is where it moves. -/
def setFilePointer (f : OpenFile) (posLo posHi method : DWORD) : FilePointerSet :=
  let pos := f.origin method + (posHi ++ posLo).toInt
  if pos < 0 then { low := 0xFFFFFFFF#32, error := ERROR_NEGATIVE_SEEK, file := f }
  else { low := BitVec.ofInt 32 pos, error := 0#32, file := { f with pointer := pos.toNat } }

/-- The file of the `IOHFile` at `a`, and the `g_LastError` of `P`, after a `SetFilePointer`. -/
def SeekWorld.put (r : SeekWorld) (P a : Nat) (done : FilePointerSet) : SeekWorld :=
  { r with
    file := fun b ↦ if b = a then some done.file else r.file b
    error := fun q ↦ if q = P then done.error else r.error q }

/-- `IOHFile::Seek`, `IOHFile.cpp:192–198`, with `SysCallDll::SetFilePointer`,
`SysCallDll_User.cpp:115–119`: the high half that is returned is the one that was passed. -/
def iohFileSeek (P a : Nat) (f : OpenFile) (pos : BitVec 64) (method : DWORD) (r : SeekWorld) :
    BitVec 64 × SeekWorld :=
  let done := setFilePointer f (pos.setWidth 32) (pos.extractLsb' 32 32) method
  (pos.extractLsb' 32 32 ++ done.low, r.put P a done)

variable (base : Environment SeekWorld)

/-- Where the handle is an `IOHFile`, `Seek` goes to its file. -/
def seekEnvironment : Environment SeekWorld :=
  { base with
    seek := fun P a pos method r ↦
      match r.file a with
      | none => base.seek P a pos method r
      | some f => iohFileSeek P a f pos method r
    dllLastError := fun P r ↦ (r.error P, r)
    writeMemory := fun P address bytes r ↦
      { r with memory := fun q ↦
          if q = P then (r.memory P).write address bytes else r.memory q } }

/-- A call that moves a file pointer. -/
inductive SeekCall where
  | lseek (offset whence : DWORD)
  | llseek (offsetHigh offsetLow result whence : DWORD)

namespace SeekCall

def run (P : Nat) (fd : DWORD) : SeekCall → F SeekWorld DWORD
  | .lseek offset whence => sysLseek (seekEnvironment base) P fd offset whence
  | .llseek offsetHigh offsetLow result whence =>
      sysLlseek (seekEnvironment base) P fd offsetHigh offsetLow result whence

def whence : SeekCall → DWORD
  | .lseek _ whence => whence
  | .llseek _ _ _ whence => whence

/-- The offset as the caller means it. -/
def offset : SeekCall → Int
  | .lseek offset _ => offset.toInt
  | .llseek offsetHigh offsetLow _ _ => (offsetHigh ++ offsetLow).toInt

/-- Where the pointer is to go. -/
def target (f : OpenFile) (c : SeekCall) : Option Int :=
  (seekMethod c.whence).map fun method ↦ f.origin method + c.offset

/-- A position is what the call reports: in Eax as far as it is an `int`, or at `result`. -/
def Reports (P : Nat) (pos : Int) (eax : DWORD) (r : SeekWorld) : SeekCall → Prop
  | .lseek _ _ => pos < 2 ^ 31 → eax.toInt = pos
  | .llseek _ _ result _ =>
      eax = 0#32 ∧ (r.memory P).read result 8 = (Codec.word 8).encode (BitVec.ofInt 64 pos)

/-- A call has moved the pointer and reported the position, or failed without moving it. -/
def Does (P a : Nat) (f : OpenFile) (c : SeekCall) (eax : DWORD) (r : SeekWorld) : Prop :=
  match c.target f with
  | none => eax.toInt < 0 ∧ r.file a = some f
  | some pos =>
      if 0 ≤ pos then r.file a = some { f with pointer := pos.toNat } ∧ c.Reports P pos eax r
      else eax.toInt < 0 ∧ r.file a = some f

/-- The call returns, and has done what it should. -/
def Right (w : FileWorld SeekWorld) (P a : Nat) (fd : DWORD) (f : OpenFile) (c : SeekCall) :
    Prop :=
  ∃ eax w', c.run base P fd w = .ok eax w' ∧ c.Does P a f eax w'.rest

/-- The offset of an `lseek` is not negative, or the pointer already is where the code goes with
it instead of failing. The offset of an `_llseek` has the high half that the position has. -/
def FitsAt (f : OpenFile) (pos : Int) : SeekCall → Prop
  | .lseek offset _ => 0 ≤ offset.toInt ∨ pos < 0 ∧ f.pointer = pos + 2 ^ 32
  | .llseek offsetHigh _ _ _ => pos < 0 ∨ BitVec.ofInt 32 (pos / 2 ^ 32) = offsetHigh

def Fits (f : OpenFile) (c : SeekCall) : Prop :=
  ∀ pos, c.target f = some pos → c.FitsAt f pos

end SeekCall

/-! ## `SetFilePointer` -/

theorem setFilePointer_of_nonneg {f : OpenFile} {posLo posHi method : DWORD} {pos : Int}
    (hpos : f.origin method + (posHi ++ posLo).toInt = pos) (h0 : 0 ≤ pos) :
    setFilePointer f posLo posHi method =
      { low := BitVec.ofInt 32 pos, error := 0#32, file := { f with pointer := pos.toNat } } := by
  rw [setFilePointer, hpos, if_neg (Int.not_lt.mpr h0)]

theorem setFilePointer_of_neg {f : OpenFile} {posLo posHi method : DWORD}
    (h0 : f.origin method + (posHi ++ posLo).toInt < 0) :
    setFilePointer f posLo posHi method =
      { low := 0xFFFFFFFF#32, error := ERROR_NEGATIVE_SEEK, file := f } := by
  rw [setFilePointer, if_pos h0]

/-- `IOHFile::Seek` hands on the halves of what it is given. -/
theorem iohFileSeek_append (P a : Nat) (f : OpenFile) (posHi posLo method : DWORD)
    (r : SeekWorld) :
    iohFileSeek P a f (posHi ++ posLo) method r =
      (posHi ++ (setFilePointer f posLo posHi method).low,
        r.put P a (setFilePointer f posLo posHi method)) := by
  have hlow : (posHi ++ posLo).setWidth 32 = posLo := BitVec.setWidth_append_eq_right
  have hhigh : (posHi ++ posLo).extractLsb' 32 32 = posHi := BitVec.extractLsb'_append_eq_left
  rw [iohFileSeek, hlow, hhigh]

/-! ## The calls, run -/

section Run

variable {w : FileWorld SeekWorld} {P a : Nat} {fd : DWORD} {h : Handler} {f : OpenFile}

theorem file_put (r : SeekWorld) (P a : Nat) (done : FilePointerSet) :
    (r.put P a done).file a = some done.file := if_pos rfl

theorem error_put (r : SeekWorld) (P a : Nat) (done : FilePointerSet) :
    (r.put P a done).error P = done.error := if_pos rfl

theorem seek_of_file (hfile : w.rest.file a = some f) (pos : BitVec 64) (method : DWORD) :
    (seekEnvironment base).seek P a pos method w.rest = iohFileSeek P a f pos method w.rest := by
  simp only [seekEnvironment, hfile]

theorem run_of_none (hopen : OpenAt w P fd a h) {c : SeekCall}
    (hnone : seekMethod c.whence = none) :
    c.run base P fd w = .ok (-EINVAL) { w with indexed := (fd.toNat : Int) :: w.indexed } := by
  cases c with
  | lseek offset whence =>
    have hnone : seekMethod whence = none := hnone
    rw [SeekCall.run, sysLseek, withHandler_of_open _ hopen.valid hopen.slot, hnone]
    rfl
  | llseek offsetHigh offsetLow result whence =>
    have hnone : seekMethod whence = none := hnone
    rw [SeekCall.run, sysLlseek, withHandler_of_open _ hopen.valid hopen.slot, hnone]
    rfl

/-- `lseek` passes a high half of 0. -/
theorem run_lseek (hopen : OpenAt w P fd a h) (hfile : w.rest.file a = some f)
    {whence method : DWORD} (hmethod : seekMethod whence = some method) (offset : DWORD) :
    (SeekCall.lseek offset whence).run base P fd w =
      .ok (if -win32ErrToUnixError (setFilePointer f offset 0#32 method).error = 0#32
          then (setFilePointer f offset 0#32 method).low
          else -win32ErrToUnixError (setFilePointer f offset 0#32 method).error)
        { w with
          rest := w.rest.put P a (setFilePointer f offset 0#32 method)
          indexed := (fd.toNat : Int) :: w.indexed } := by
  rw [SeekCall.run, sysLseek, withHandler_of_open _ hopen.valid hopen.slot, hmethod]
  dsimp only
  rw [method_of_openAt hopen, seek_of_file base hfile, iohFileSeek_append,
    Comp.bind_of_ok (dllError_eq _ P _)]
  simp only [BitVec.setWidth_append_eq_right, seekEnvironment, error_put]
  rfl

theorem run_llseek (hopen : OpenAt w P fd a h) (hfile : w.rest.file a = some f)
    {whence method : DWORD} (hmethod : seekMethod whence = some method)
    (offsetHigh offsetLow result : DWORD) :
    ∃ w', (SeekCall.llseek offsetHigh offsetLow result whence).run base P fd w =
        .ok (-win32ErrToUnixError (setFilePointer f offsetLow offsetHigh method).error) w' ∧
      w'.rest.file a = some (setFilePointer f offsetLow offsetHigh method).file ∧
      (w'.rest.memory P).read result 8 = (Codec.word 8).encode
        (offsetHigh ++ (setFilePointer f offsetLow offsetHigh method).low) := by
  have hread : ∀ x : BitVec 64,
      ((w.rest.memory P).write result ((Codec.word 8).encode x)).read result 8 =
        (Codec.word 8).encode x :=
    fun x ↦ Mem.read_write _ _ _ (by rw [Codec.length_encode]; decide)
  refine ⟨{ w with
    rest := (seekEnvironment base).writeMemory P result ((Codec.word 8).encode
      (offsetHigh ++ (setFilePointer f offsetLow offsetHigh method).low))
      (w.rest.put P a (setFilePointer f offsetLow offsetHigh method))
    indexed := (fd.toNat : Int) :: w.indexed }, ?_, ?_, ?_⟩
  · rw [SeekCall.run, sysLlseek, withHandler_of_open _ hopen.valid hopen.slot, hmethod]
    dsimp only
    rw [method_of_openAt hopen, seek_of_file base hfile, iohFileSeek_append]
    show dllError (seekEnvironment base) P _ = _
    rw [dllError_eq]
    simp only [seekEnvironment, error_put]
  · exact file_put _ P a _
  · simp only [seekEnvironment, if_pos]
    exact hread _

/-! ## The calls, judged -/

theorem does_of_nonneg {c : SeekCall} {pos : Int} (htarget : c.target f = some pos) (h0 : 0 ≤ pos)
    (eax : DWORD) (r : SeekWorld) :
    c.Does P a f eax r ↔
      r.file a = some { f with pointer := pos.toNat } ∧ c.Reports P pos eax r := by
  simp only [SeekCall.Does, htarget, if_pos h0]

theorem does_of_neg {c : SeekCall} {pos : Int} (htarget : c.target f = some pos) (h0 : pos < 0)
    (eax : DWORD) (r : SeekWorld) :
    c.Does P a f eax r ↔ eax.toInt < 0 ∧ r.file a = some f := by
  simp only [SeekCall.Does, htarget, if_neg (Int.not_le.mpr h0)]

theorem fits_iff {c : SeekCall} {pos : Int} (htarget : c.target f = some pos) :
    c.Fits f ↔ c.FitsAt f pos := by
  constructor
  · exact fun h ↦ h pos htarget
  · intro h pos' htarget'
    obtain rfl := Option.some.inj (htarget.symm.trans htarget')
    exact h

theorem eq_pointer_iff {x : OpenFile} {n : Nat} : some { x with pointer := n } = some x ↔
    n = x.pointer := by
  constructor
  · exact fun hsame ↦ congrArg OpenFile.pointer (Option.some.inj hsame)
  · rintro rfl
    rfl

theorem right_lseek_iff (hopen : OpenAt w P fd a h) (hfile : w.rest.file a = some f)
    {whence method : DWORD} (hmethod : seekMethod whence = some method) (offset : DWORD) :
    (SeekCall.lseek offset whence).Right base w P a fd f ↔
      (SeekCall.lseek offset whence).Fits f := by
  have htarget : (SeekCall.lseek offset whence).target f =
      some (f.origin method + offset.toInt) := congrArg (Option.map _) hmethod
  have hrange := BitVec.le_toInt offset
  have hlt := BitVec.toInt_lt (x := offset)
  rw [SeekCall.Right, Comp.exists_ok_iff (run_lseek base hopen hfile hmethod offset),
    fits_iff htarget]
  by_cases h0 : 0 ≤ offset.toInt
  · -- the offset is passed as it is
    have hpos : 0 ≤ f.origin method + offset.toInt := by omega
    have harrives : f.origin method + (0#32 ++ offset).toInt = f.origin method + offset.toInt := by
      rw [toInt_zero_append, if_pos h0]
    have hset := setFilePointer_of_nonneg harrives hpos
    rw [does_of_nonneg htarget hpos, hset]
    refine iff_of_true ⟨file_put _ P a _, fun hsmall ↦ ?_⟩ (.inl h0)
    dsimp only
    rw [if_pos neg_win32ErrToUnixError_zero]
    exact (toInt_ofInt_eq_iff _).mpr ⟨by omega, hsmall⟩
  · -- it arrives 2 ^ 32 too large
    have hmoved : 0 ≤ f.origin method + offset.toInt + 2 ^ 32 := by omega
    have harrives : f.origin method + (0#32 ++ offset).toInt =
        f.origin method + offset.toInt + 2 ^ 32 := by
      rw [toInt_zero_append, if_neg h0, Int.add_assoc]
    have hset := setFilePointer_of_nonneg harrives hmoved
    rw [hset]
    by_cases hpos : 0 ≤ f.origin method + offset.toInt
    · rw [does_of_nonneg htarget hpos, file_put]
      refine iff_of_false (fun hdone ↦ ?_) fun hfits ↦ ?_
      · have hsame := congrArg OpenFile.pointer (Option.some.inj hdone.1)
        dsimp only at hsame
        omega
      · rw [SeekCall.FitsAt] at hfits
        omega
    · have heax : (BitVec.ofInt 32 (f.origin method + offset.toInt + 2 ^ 32)).toInt =
          f.origin method + offset.toInt := by
        rw [BitVec.toInt_ofInt, Int.bmod_def]
        omega
      rw [does_of_neg htarget (Int.not_le.mp hpos), file_put, eq_pointer_iff]
      dsimp only [SeekCall.FitsAt]
      rw [if_pos neg_win32ErrToUnixError_zero, heax]
      omega

theorem right_llseek_iff (hopen : OpenAt w P fd a h) (hfile : w.rest.file a = some f)
    {whence method : DWORD} (hmethod : seekMethod whence = some method)
    (offsetHigh offsetLow result : DWORD) :
    (SeekCall.llseek offsetHigh offsetLow result whence).Right base w P a fd f ↔
      (SeekCall.llseek offsetHigh offsetLow result whence).Fits f := by
  have htarget : (SeekCall.llseek offsetHigh offsetLow result whence).target f =
      some (f.origin method + (offsetHigh ++ offsetLow).toInt) :=
    congrArg (Option.map _) hmethod
  obtain ⟨w', hrun, hput, hread⟩ :=
    run_llseek base hopen hfile hmethod offsetHigh offsetLow result
  rw [SeekCall.Right, Comp.exists_ok_iff hrun, fits_iff htarget]
  by_cases hpos : 0 ≤ f.origin method + (offsetHigh ++ offsetLow).toInt
  · have hset := setFilePointer_of_nonneg rfl hpos
    rw [hset] at hput hread ⊢
    rw [does_of_nonneg htarget hpos, and_iff_right hput, SeekCall.Reports,
      and_iff_right neg_win32ErrToUnixError_zero, hread, ← ofInt_append]
    constructor
    · intro hsame
      have hsame := congrArg (Codec.word 8).decode hsame
      rw [Codec.decode_encode_nil, Codec.decode_encode_nil] at hsame
      exact .inr ((BitVec.append_left_inj _).mp hsame).symm
    · rintro (hneg | hhigh)
      · exact absurd hneg (Int.not_lt.mpr hpos)
      · rw [hhigh]
  · have hset := setFilePointer_of_neg (Int.not_le.mp hpos)
    rw [hset] at hput ⊢
    rw [does_of_neg htarget (Int.not_le.mp hpos)]
    exact iff_of_true ⟨(neg_win32ErrToUnixError_neg _).mpr (by decide : ERROR_NEGATIVE_SEEK ≠ 0#32),
      hput⟩ (.inl (Int.not_le.mp hpos))

/-- A call on an open regular file moves its pointer and reports the position, or fails, exactly
if its offset fits. -/
theorem seekCall_right_iff (hopen : OpenAt w P fd a h) (hfile : w.rest.file a = some f)
    (c : SeekCall) : c.Right base w P a fd f ↔ c.Fits f := by
  cases hmethod : seekMethod c.whence with
  | none =>
    have htarget : c.target f = none := congrArg (Option.map _) hmethod
    rw [SeekCall.Right, Comp.exists_ok_iff (run_of_none base hopen hmethod), SeekCall.Does,
      htarget]
    refine iff_of_true ⟨by decide, hfile⟩ fun pos hpos ↦ ?_
    exact absurd (htarget.symm.trans hpos) (Option.some_ne_none pos).symm
  | some method =>
    cases c with
    | lseek offset whence => exact right_lseek_iff base hopen hfile hmethod offset
    | llseek offsetHigh offsetLow result whence =>
      exact right_llseek_iff base hopen hfile hmethod offsetHigh offsetLow result

end Run

/-! ## A file of 5 GB -/

/-- One process with one file open, at position 10. -/
def largeFile : FileWorld SeekWorld where
  table :=
    { processes := 1
      openFiles := fun p fd ↦ if p = 0 ∧ fd = 0 then some 0 else none
      object := fun a ↦ if a = 0 then some { kind := .file } else none
      fresh := 1 }
  rest :=
    { file := fun a ↦ if a = 0 then some { length := 5000000000, pointer := 10 } else none
      memory := fun _ _ ↦ 0
      error := fun _ ↦ 0#32 }

theorem openAt_largeFile : OpenAt largeFile 0 0#32 0 { kind := .file } where
  valid := by decide
  slot := rfl
  object := rfl

/-- The position goes from 10 to 14, and that is what the call returns. -/
theorem seekCall_right_iff_largeFile :
    (SeekCall.lseek 4#32 SEEK_CUR).Right (Environment.idle SeekWorld) largeFile 0 0 0#32
      { length := 5000000000, pointer := 10 } :=
  (seekCall_right_iff (Environment.idle SeekWorld) openAt_largeFile rfl _).mpr
    fun _ _ ↦ .inl (by decide)

/-- Back by 4 with `lseek` goes forward by 2 ^ 32 - 4, and the end of the file, found with
`_llseek`, is reported without its high half. -/
theorem not_seekCall_right_largeFile :
    ¬(SeekCall.lseek (-4#32) SEEK_CUR).Right (Environment.idle SeekWorld) largeFile 0 0 0#32
        { length := 5000000000, pointer := 10 } ∧
      ¬(SeekCall.llseek 0#32 0#32 0x1000#32 SEEK_END).Right (Environment.idle SeekWorld) largeFile 0
        0 0#32 { length := 5000000000, pointer := 10 } := by
  constructor
  · rw [right_lseek_iff (Environment.idle SeekWorld) openAt_largeFile rfl rfl]
    exact fun h ↦ absurd (h 6 rfl) (by unfold SeekCall.FitsAt; decide)
  · rw [right_llseek_iff (Environment.idle SeekWorld) openAt_largeFile rfl rfl]
    exact fun h ↦ absurd (h 5000000000 rfl) (by unfold SeekCall.FitsAt; decide)

end Keow.Files
