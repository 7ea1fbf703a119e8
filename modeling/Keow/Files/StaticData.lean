import Keow.Base.Int32
import Keow.Base.Run
import Keow.Kernel.Linux

/-!
# Generated files

`IOHStaticData`, the handler of files whose bytes the kernel makes up: a block in the kernel's
memory and a file pointer, both of whose numbers are an `int`. Without refresh the block stays as
it is.
-/

namespace Keow.Files

open Keow.Base Keow.Kernel

/-- The members `m_pData`, `m_DataLength` and `m_nFilePointer`, `IOHStaticData.h:68–71`. -/
structure IOHStaticData where
  data : List UInt8
  fits : data.length < 2 ^ 31
  nFilePointer : DWORD := 0#32

/-- What `Read` hands to `WriteMemory`: the indices into `m_pData` that it copies from, and
`*pRead`. -/
structure StaticRead where
  indices : List Int
  count : DWORD

namespace IOHStaticData

def dataLength (d : IOHStaticData) : DWORD := BitVec.ofNat 32 d.data.length

/-- `m_pData[i]`, with the kernel's memory `around` the block. -/
def byteAt (d : IOHStaticData) (around : Int → UInt8) (i : Int) : UInt8 :=
  if 0 ≤ i ∧ i < d.data.length then d.data.getD i.toNat 0 else around i

/-- `IOHStaticData::Read`, `IOHStaticData.cpp:180–200`. -/
def read (d : IOHStaticData) (size : DWORD) : StaticRead × IOHStaticData :=
  let dataLeft := d.dataLength - d.nFilePointer
  if dataLeft.toInt ≤ 0 then ({ indices := [], count := 0#32 }, d)
  else
    let size := if dataLeft < size then dataLeft else size
    ({ indices := (List.range size.toNat).map fun i : Nat ↦ d.nFilePointer.toInt + i
       count := size },
      { d with nFilePointer := d.nFilePointer + size })

/-- `IOHStaticData::Seek`, `IOHStaticData.cpp:234–250`. -/
def seek (d : IOHStaticData) (offset : BitVec 64) (method : DWORD) : BitVec 64 × IOHStaticData :=
  let nFilePointer :=
    if method = FILE_BEGIN then offset.setWidth 32
    else if method = FILE_END then d.dataLength - 1#32 - offset.setWidth 32
    else if method = FILE_CURRENT then d.nFilePointer + offset.setWidth 32
    else d.nFilePointer
  (nFilePointer.signExtend 64, { d with nFilePointer := nFilePointer })

end IOHStaticData

/-- A call on a generated file. -/
inductive StaticCall where
  | seek (offset : BitVec 64) (method : DWORD)
  | read (size : DWORD)

namespace StaticCall

/-- The state after a call. -/
def after (d : IOHStaticData) : StaticCall → IOHStaticData
  | .seek offset method => (d.seek offset method).2
  | .read size => (d.read size).2

/-- Where a `Seek` is to go. -/
def target (d : IOHStaticData) (offset : BitVec 64) (method : DWORD) : Option Int :=
  if method = FILE_BEGIN then some offset.toInt
  else if method = FILE_CURRENT then some (d.nFilePointer.toInt + offset.toInt)
  else if method = FILE_END then some (d.data.length + offset.toInt)
  else none

/-- `Read` copies the block from the position on, as far as asked and as far as it goes, and
nothing outside it. -/
structure ReadRight (around : Int → UInt8) (d : IOHStaticData) (size : DWORD) : Prop where
  inside : ∀ i ∈ (d.read size).1.indices, 0 ≤ i ∧ i < d.data.length
  bytes : (d.read size).1.indices.map (d.byteAt around) =
    (d.data.drop d.nFilePointer.toInt.toNat).take size.toNat
  count : (d.read size).1.count.toNat = (d.read size).1.indices.length
  moved : (d.read size).2.nFilePointer.toInt =
    d.nFilePointer.toInt + (d.read size).1.indices.length

/-- A call does what it does on a regular file. A `Seek` to a negative position fails and stays. -/
def Right (around : Int → UInt8) (d : IOHStaticData) : StaticCall → Prop
  | .seek offset method => ∀ pos, target d offset method = some pos →
      if 0 ≤ pos then (d.seek offset method).2.nFilePointer.toInt = pos
      else (d.seek offset method).1.toInt < 0 ∧
        (d.seek offset method).2.nFilePointer = d.nFilePointer
  | .read size => ReadRight around d size

/-- A `Seek` from the start or from the position, to where an `int` reaches. -/
def Fits (d : IOHStaticData) : StaticCall → Prop
  | .seek offset method => method ≠ FILE_END ∧
      ∀ pos, target d offset method = some pos → 0 ≤ pos ∧ pos < 2 ^ 31
  | .read _ => True

end StaticCall

section Calls

variable {d : IOHStaticData} (around : Int → UInt8)

/-! ## `Read` -/

theorem toNat_dataLength (d : IOHStaticData) : d.dataLength.toNat = d.data.length := by
  have := d.fits
  rw [IOHStaticData.dataLength, BitVec.toNat_ofNat, Nat.mod_eq_of_lt (by omega)]

theorem toInt_dataLength (d : IOHStaticData) : d.dataLength.toInt = d.data.length := by
  have := d.fits
  rw [BitVec.toInt_eq_toNat_of_lt (by rw [toNat_dataLength]; omega), toNat_dataLength]

/-- What `Read` takes from a position in the block. -/
theorem read_inside (hlt : d.nFilePointer.toNat < d.data.length)
    (size : DWORD) :
    ∃ n : DWORD, n.toNat = min size.toNat (d.data.length - d.nFilePointer.toNat) ∧
      d.read size = ({ indices := (List.range n.toNat).map fun i : Nat ↦ d.nFilePointer.toInt + i
                       count := n }, { d with nFilePointer := d.nFilePointer + n }) := by
  have hlen := toNat_dataLength d
  have hfits := d.fits
  have hleft : (d.dataLength - d.nFilePointer).toNat =
      d.data.length - d.nFilePointer.toNat := by
    rw [BitVec.toNat_sub_of_le (by rw [BitVec.le_def]; omega), hlen]
  have hsigned : ¬(d.dataLength - d.nFilePointer).toInt ≤ 0 := by
    rw [BitVec.toInt_eq_toNat_of_lt (by omega)]
    omega
  refine ⟨if d.dataLength - d.nFilePointer < size then d.dataLength - d.nFilePointer else size,
    ?_, ?_⟩
  · split
    · next hsize =>
      rw [BitVec.lt_def] at hsize
      omega
    · next hsize =>
      rw [BitVec.lt_def] at hsize
      omega
  · rw [IOHStaticData.read]
    dsimp only
    rw [if_neg hsigned]

/-- At or behind the end there is nothing to read. -/
theorem read_outside (hpos : 0 ≤ d.nFilePointer.toInt) (hle : d.data.length ≤ d.nFilePointer.toNat)
    (size : DWORD) : d.read size = ({ indices := [], count := 0#32 }, d) := by
  obtain ⟨-, hlt⟩ := toInt_of_nonneg hpos
  have hlen := toNat_dataLength d
  have hsigned : (d.dataLength - d.nFilePointer).toInt ≤ 0 := by
    rw [BitVec.toInt_sub, toInt_dataLength, (toInt_of_nonneg hpos).1, Int.bmod_eq_of_le] <;> omega
  rw [IOHStaticData.read]
  dsimp only
  rw [if_pos hsigned]

theorem byteAt_inside (d : IOHStaticData) {pos n : Nat} (h : pos + n ≤ d.data.length) :
    ((List.range n).map fun i : Nat ↦ (pos : Int) + i).map (d.byteAt around) =
      (d.data.drop pos).take n := by
  apply List.ext_getElem
  · simp
    omega
  · intro i hi _
    have hi : i < n := by simpa using hi
    have hin : (0 : Int) ≤ (pos : Int) + i ∧ (pos : Int) + i < d.data.length := by omega
    have hnat : ((pos : Int) + i).toNat = pos + i := by omega
    simp only [List.getElem_map, List.getElem_range, IOHStaticData.byteAt, if_pos hin, hnat,
      List.getElem_take, List.getElem_drop]
    rw [List.getD_eq_getElem?_getD, List.getElem?_eq_getElem (by omega), Option.getD_some]

/-- From a position that is not negative, `Read` does what it should. -/
theorem read_right (hpos : 0 ≤ d.nFilePointer.toInt) (size : DWORD) :
    StaticCall.ReadRight around d size := by
  obtain ⟨hint, hlt⟩ := toInt_of_nonneg hpos
  have hfits := d.fits
  by_cases hin : d.nFilePointer.toNat < d.data.length
  · obtain ⟨n, hn, hread⟩ := read_inside hin size
    have hfit : d.nFilePointer.toNat + n.toNat ≤ d.data.length := by omega
    have hbytes := byteAt_inside around d hfit
    refine ⟨?_, ?_, ?_, ?_⟩
    · rw [hread]
      intro i hi
      obtain ⟨j, hj, rfl⟩ := List.mem_map.mp hi
      have hj := List.mem_range.mp hj
      omega
    · rw [hread, hint]
      dsimp only
      rw [hbytes, Int.toNat_natCast, hn]
      apply List.take_eq_take_iff.mpr
      rw [List.length_drop]
      omega
    · rw [hread]
      simp
    · rw [hread]
      dsimp only
      have hsum : (d.nFilePointer + n).toNat = d.nFilePointer.toNat + n.toNat := by
        rw [BitVec.toNat_add, Nat.mod_eq_of_lt (by omega)]
      rw [BitVec.toInt_eq_toNat_of_lt (by omega), hsum, hint, List.length_map, List.length_range]
      omega
  · have hread := read_outside hpos (Nat.not_lt.mp hin) size
    refine ⟨?_, ?_, ?_, ?_⟩
    · rw [hread]
      exact fun i hi ↦ absurd hi List.not_mem_nil
    · rw [hread, hint, Int.toNat_natCast, List.drop_eq_nil_of_le (Nat.not_lt.mp hin)]
      simp
    · rw [hread]
      rfl
    · rw [hread]
      simp

/-! ## `Seek` -/

theorem toInt_seek_begin (d : IOHStaticData) (offset : BitVec 64) :
    (d.seek offset FILE_BEGIN).2.nFilePointer.toInt = offset.toInt.bmod (2 ^ 32) := by
  rw [IOHStaticData.seek, if_pos rfl]
  exact toInt_setWidth_32 offset

theorem toInt_seek_current (d : IOHStaticData) (offset : BitVec 64) :
    (d.seek offset FILE_CURRENT).2.nFilePointer.toInt =
      (d.nFilePointer.toInt + offset.toInt).bmod (2 ^ 32) := by
  rw [IOHStaticData.seek, if_neg (by decide), if_neg (by decide), if_pos rfl]
  dsimp only
  rw [BitVec.toInt_add, toInt_setWidth_32, Int.add_bmod_bmod]

theorem toInt_seek_end (d : IOHStaticData) (offset : BitVec 64) :
    (d.seek offset FILE_END).2.nFilePointer.toInt =
      (d.data.length - 1 - offset.toInt).bmod (2 ^ 32) := by
  rw [IOHStaticData.seek, if_neg (by decide), if_pos rfl]
  dsimp only
  rw [BitVec.toInt_sub, BitVec.toInt_sub, toInt_setWidth_32, toInt_dataLength,
    Int.sub_bmod_bmod, Int.bmod_sub_bmod]
  rfl

/-- A `Seek` never fails where the position it stays at is not negative. -/
theorem not_failed (hpos : 0 ≤ d.nFilePointer.toInt) (offset : BitVec 64) (method : DWORD) :
    ¬((d.seek offset method).1.toInt < 0 ∧
      (d.seek offset method).2.nFilePointer = d.nFilePointer) := by
  rintro ⟨hneg, hsame⟩
  have hresult : (d.seek offset method).1 =
      (d.seek offset method).2.nFilePointer.signExtend 64 := rfl
  rw [hresult, hsame, BitVec.toInt_signExtend_of_le (by decide)] at hneg
  omega

theorem seek_right_iff (hpos : 0 ≤ d.nFilePointer.toInt) (offset : BitVec 64) (method : DWORD) :
    (StaticCall.seek offset method).Right around d ↔ (StaticCall.seek offset method).Fits d := by
  have hfail := not_failed hpos offset method
  simp only [StaticCall.Right, StaticCall.Fits]
  by_cases hend : method = FILE_END
  · subst hend
    refine iff_of_false (fun h ↦ ?_) fun h ↦ h.1 rfl
    have hright := h (d.data.length + offset.toInt) rfl
    split at hright
    · -- the offset is subtracted: an odd number would have to be a multiple of 2 ^ 32
      rw [toInt_seek_end, Int.bmod_eq_iff (by decide)] at hright
      omega
    · exact hfail hright
  · rw [and_iff_right hend]
    refine forall₂_congr fun pos htarget ↦ ?_
    have hmoved : (d.seek offset method).2.nFilePointer.toInt = pos.bmod (2 ^ 32) := by
      unfold StaticCall.target at htarget
      split at htarget
      · next hbegin =>
        rw [← Option.some.inj htarget, hbegin]
        exact toInt_seek_begin d offset
      · split at htarget
        · next hcurrent =>
          rw [← Option.some.inj htarget, hcurrent]
          exact toInt_seek_current d offset
        · cases htarget
    by_cases h0 : 0 ≤ pos
    · rw [if_pos h0, hmoved, bmod_eq_self_iff]
      omega
    · rw [if_neg h0]
      exact iff_of_false hfail fun h ↦ h0 h.1

/-! ## Runs -/

theorem right_iff (hpos : 0 ≤ d.nFilePointer.toInt) (c : StaticCall) :
    c.Right around d ↔ c.Fits d := by
  cases c with
  | seek offset method => exact seek_right_iff around hpos offset method
  | read size => exact iff_of_true (read_right around hpos size) trivial

/-- A call that is right leaves a position that is not negative. -/
theorem nonneg_after (hpos : 0 ≤ d.nFilePointer.toInt) (c : StaticCall) (h : c.Right around d) :
    0 ≤ (StaticCall.after d c).nFilePointer.toInt := by
  cases c with
  | seek offset method =>
    rw [StaticCall.after]
    by_cases hnone : StaticCall.target d offset method = none
    · have hother : (d.seek offset method).2.nFilePointer = d.nFilePointer := by
        unfold StaticCall.target at hnone
        unfold IOHStaticData.seek
        dsimp only
        split at hnone
        · cases hnone
        · split at hnone
          · cases hnone
          · split at hnone
            · cases hnone
            · next hbegin hcurrent hend => rw [if_neg hbegin, if_neg hend, if_neg hcurrent]
      rwa [hother]
    · obtain ⟨pos, htarget⟩ := Option.ne_none_iff_exists'.mp hnone
      have hright := h pos htarget
      split at hright
      · next h0 => rwa [hright]
      · rw [hright.2]
        exact hpos
  | read size =>
    rw [StaticCall.after, h.moved]
    omega

/-- Over any sequence of calls on an open file, all do what they do on a regular one exactly if
all `Seek`s fit. -/
theorem along_right_iff (hpos : 0 ≤ d.nFilePointer.toInt) (calls : List StaticCall) :
    Along StaticCall.after (fun d c ↦ c.Right around d) d calls ↔
      Along StaticCall.after (fun d c ↦ c.Fits d) d calls :=
  along_iff (fun (d : IOHStaticData) c (h : 0 ≤ d.nFilePointer.toInt) ↦ right_iff around h c)
    (fun _ c h hc ↦ nonneg_after around h c hc) hpos calls

/-- A file of three bytes, as `Open` leaves it. -/
def threeBytes : IOHStaticData where
  data := [0x61, 0x62, 0x63]
  fits := by decide

theorem along_right_iff_threeBytes :
    Along StaticCall.after (fun d c ↦ c.Right (fun _ ↦ 0) d) threeBytes
      [.seek 1#64 FILE_BEGIN, .read 2#32] := by
  refine (along_right_iff (fun _ ↦ 0) (d := threeBytes) (by decide) _).mpr
    ⟨⟨by decide, fun pos hpos ↦ ?_⟩, trivial, trivial⟩
  obtain rfl := Option.some.inj hpos
  decide

/-- A `Seek` to -4 and a `Read` give away what is in front of the block. -/
theorem not_right_threeBytes :
    ¬Along StaticCall.after (fun d c ↦ c.Right (fun _ ↦ 0) d) threeBytes
      [.seek (-4#64) FILE_BEGIN, .read 4#32] := by
  rintro ⟨hseek, -⟩
  have hright := hseek (-4) (by decide)
  exact absurd hright (by decide)

end Calls

end Keow.Files
