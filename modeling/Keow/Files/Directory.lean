import Keow.Base.Chunks
import Keow.Base.Codec
import Keow.Base.Run
import Keow.Files.StaticData

/-!
# Directory reading

`GetDirEnts64` of `IOHFile`, which keeps a Win32 search open between calls, and of `IOHStaticData`,
whose block holds the records. A record is a `dirent64`: 19 bytes of numbers, the last three of
which are its length and a type, and a name with its NUL. The kernel packs its structures.
-/

namespace Keow.Files

open Keow.Base Keow.Kernel

/-- `sizeof(linux::dirent64)`, with 256 bytes of `d_name`. -/
def sizeofDirent64 : Nat := 275

/-- `d_ino`, `d_off`, `d_reclen` and `d_type`. -/
def dirent64Header (ino off : BitVec 64) (reclen : Nat) (type : UInt8) : List UInt8 :=
  (Codec.word 8).encode ino ++ (Codec.word 8).encode off ++
    (Codec.word 2).encode (BitVec.ofNat 16 reclen) ++ [type]

/-- Bytes are stored in a buffer, from a position on. Past its end that is undefined behaviour. -/
def store (buf : List UInt8) (pos : Nat) (bytes : List UInt8) : Option (List UInt8) :=
  if pos + bytes.length ≤ buf.length then
    some (buf.take pos ++ bytes ++ buf.drop (pos + bytes.length))
  else none

/-- What a call leaves: its result, the buffer, and the handler. -/
structure DirResult (σ : Type) where
  filled : Int
  buf : List UInt8
  state : σ

/-- The names in the records that bytes split into by `d_reclen`. -/
def dirNames (bytes : List UInt8) : Option (List (List UInt8)) :=
  if bytes = [] then some []
  else
    let reclen := ((Codec.word 2).decode ((bytes.drop 16).take 2)).toNat
    if _h : 20 ≤ reclen ∧ reclen ≤ bytes.length ∧ 0 ∈ (bytes.take reclen).drop 19 then
      (dirNames (bytes.drop reclen)).map fun names ↦
        ((bytes.take reclen).drop 19).takeWhile (· ≠ 0) :: names
    else none
termination_by bytes.length
decreasing_by
  obtain ⟨hle, hlength, -⟩ := _h
  rw [List.length_drop]
  omega

/-! ## `IOHFile` -/

/-- An entry as a search gives it: `cFileName`, and what its path is asked for. -/
structure DirEntry where
  cFileName : List UInt8
  noNul : 0 ∉ cFileName
  hash : BitVec 64
  isSymbolicLink : Bool

/-- What a search in a directory enumerates, and the error at its end. -/
structure Directory where
  entries : List DirEntry
  atEnd : DWORD

def ERROR_NO_MORE_FILES : DWORD := 18#32

/-- `m_hFindData`, which stands for the entries to come or is invalid, and `m_nFindCount`. -/
structure FindState where
  hFindData : Option (List DirEntry)
  nFindCount : DWORD

namespace DirEntry

def lower (b : UInt8) : UInt8 := if 65 ≤ b ∧ b ≤ 90 then b + 32 else b

/-- Where a name that ends in `.lnk` is cut, if it is the name of a symbolic link. -/
def cutAt (isSymbolicLink : Bool) (name : List UInt8) : Option Nat :=
  if isSymbolicLink ∧ 4 < name.length ∧
      (name.drop (name.length - 4)).map lower = [0x2E, 0x6C, 0x6E, 0x6B] then
    some (name.length - 4)
  else none

/-- The name of an entry: links are shortcuts, and their names do not show it. -/
def name (e : DirEntry) : List UInt8 :=
  (cutAt e.isSymbolicLink e.cFileName).elim e.cFileName fun n ↦ e.cFileName.take n

/-- `d_name` as it is written: a copy that fits, with its NUL, and another NUL where a name is
cut. -/
def dName (e : DirEntry) : List UInt8 :=
  let copy := e.cFileName.take 255
  (cutAt e.isSymbolicLink copy).elim (copy ++ [0]) fun n ↦ (copy ++ [0]).set n 0

/-- `d_name` as a string. -/
def shownName (e : DirEntry) : List UInt8 := e.dName.takeWhile (· ≠ 0)

/-- `de->d_reclen`. -/
def reclen (e : DirEntry) : Nat := sizeofDirent64 - 256 + e.shownName.length + 1

/-- What is written at `de`. -/
def written (e : DirEntry) (nFindCount : DWORD) : List UInt8 :=
  dirent64Header e.hash ((nFindCount - 1#32).signExtend 64) e.reclen 0 ++ e.dName

end DirEntry

namespace Directory

variable (dir : Directory)

/-- The loop of `IOHFile::GetDirEnts64` with the search open, `IOHFile.cpp:240–300`. In it the
search stays open, or the loop ends. The sum that is tested is an `int`; it does not wrap for a
buffer that ends 275 bytes short of 2 GB, where the kernel's own address space does. -/
def fill (maxbytes : Nat) :
    List DirEntry → DWORD → List UInt8 → Nat → Option (DirResult FindState)
  | found, nFindCount, buf, filled =>
    if filled + sizeofDirent64 < maxbytes then
      match found with
      | [] =>
          if dir.atEnd = ERROR_NO_MORE_FILES then
            some {
              filled := filled
              buf := buf
              state := {
                hFindData := if filled = 0 then none else some []
                nFindCount := nFindCount + 1#32 } }
          else
            some {
              filled := -1
              buf := buf
              state := { hFindData := some [], nFindCount := nFindCount + 1#32 } }
      | e :: found => do
          let buf ← store buf filled (e.written (nFindCount + 1#32))
          fill maxbytes found (nFindCount + 1#32) buf (filled + e.reclen)
    else
      some {
        filled := filled
        buf := buf
        state := { hFindData := some found, nFindCount := nFindCount } }

/-- `IOHFile::GetDirEnts64`, `IOHFile.cpp:233–311`, of a buffer. -/
def getDirEnts64 (s : FindState) (buf : List UInt8) : Option (DirResult FindState) :=
  match s.hFindData with
  | some found => dir.fill buf.length found s.nFindCount buf 0
  | none =>
      if sizeofDirent64 < buf.length then
        match dir.entries with
        | [] =>
            some { filled := -1, buf := buf, state := { hFindData := none, nFindCount := 0#32 } }
        | e :: found => do
            let buf' ← store buf 0 (e.written 0#32)
            dir.fill buf.length found 0#32 buf' e.reclen
      else some { filled := 0, buf := buf, state := s }

end Directory

/-! ## `IOHStaticData` -/

/-- The bytes of a record in the block, with the fields that are filled in. `self` is the low half
of the object's address. -/
def staticRecord (d : IOHStaticData) (around : Int → UInt8) (self : DWORD) : List UInt8 :=
  let bytes := (List.range sizeofDirent64).map fun i : Nat ↦
    d.byteAt around (d.nFilePointer.toInt + i)
  dirent64Header ((self + d.nFilePointer).setWidth 64) (d.nFilePointer.signExtend 64)
    sizeofDirent64 (bytes.getD 18 0) ++ bytes.drop 19

/-- The loop of `IOHStaticData::GetDirEnts64`. -/
def IOHStaticData.fill (around : Int → UInt8) (self : DWORD) (maxbytes : Nat) (d : IOHStaticData)
    (buf : List UInt8) (filled : Nat) : Option (DirResult IOHStaticData) :=
  if filled + sizeofDirent64 < maxbytes ∧ d.nFilePointer.toInt < d.dataLength.toInt then
    (store buf filled (staticRecord d around self)).bind fun buf ↦
      fill around self maxbytes
        { d with nFilePointer := d.nFilePointer + BitVec.ofNat 32 sizeofDirent64 } buf
        (filled + sizeofDirent64)
  else some { filled := filled, buf := buf, state := d }
termination_by maxbytes - filled
decreasing_by
  have : 0 < sizeofDirent64 := by decide
  omega

/-- `IOHStaticData::GetDirEnts64`, `IOHStaticData.cpp:161–178`. -/
def IOHStaticData.getDirEnts64 (around : Int → UInt8) (self : DWORD) (d : IOHStaticData)
    (buf : List UInt8) : Option (DirResult IOHStaticData) :=
  d.fill around self buf.length buf 0

/-! ## Records -/

theorem length_dirent64Header (ino off : BitVec 64) (reclen : Nat) (type : UInt8) :
    (dirent64Header ino off reclen type).length = 19 := by
  simp only [dirent64Header, List.length_append, Codec.length_encode]
  rfl

theorem reclen_dirent64Header (ino off : BitVec 64) {reclen : Nat} (h : reclen < 2 ^ 16)
    (type : UInt8) (rest : List UInt8) :
    ((Codec.word 2).decode (((dirent64Header ino off reclen type ++ rest).drop 16).take 2)).toNat =
      reclen := by
  have hfront : ((Codec.word 8).encode ino ++ (Codec.word 8).encode off).length = 16 := by
    simp only [List.length_append, Codec.length_encode]
    rfl
  have hword : ((Codec.word 2).encode (BitVec.ofNat 16 reclen)).length = 2 :=
    Codec.length_encode _ _
  have hsplit : dirent64Header ino off reclen type ++ rest =
      ((Codec.word 8).encode ino ++ (Codec.word 8).encode off) ++
        ((Codec.word 2).encode (BitVec.ofNat 16 reclen) ++ ([type] ++ rest)) := by
    simp only [dirent64Header, List.append_assoc]
  rw [hsplit, List.drop_left' hfront, List.take_left' hword, Codec.decode_encode_nil]
  show (BitVec.ofNat 16 reclen).toNat = reclen
  rw [BitVec.toNat_ofNat, Nat.mod_eq_of_lt h]

theorem dirNames_nil : dirNames [] = some [] := by
  rw [dirNames, if_pos rfl]

theorem takeWhile_cString {name : List UInt8} (hname : 0 ∉ name) (pad : List UInt8) :
    (name ++ 0 :: pad).takeWhile (· ≠ 0) = name := by
  rw [List.takeWhile_append_of_pos]
  · simp
  · intro b hb
    exact decide_eq_true fun hzero ↦ hname (hzero ▸ hb)

/-- A record in front of others. -/
theorem dirNames_append {ino off : BitVec 64} {reclen : Nat} {type : UInt8} {name pad : List UInt8}
    (hname : 0 ∉ name) (hreclen : reclen = 20 + name.length + pad.length)
    (hlt : reclen < 2 ^ 16) (rest : List UInt8) :
    dirNames (dirent64Header ino off reclen type ++ name ++ 0 :: pad ++ rest) =
      (dirNames rest).map (name :: ·) := by
  have hheader := length_dirent64Header ino off reclen type
  have hrecord : (dirent64Header ino off reclen type ++ name ++ 0 :: pad).length = reclen := by
    simp only [List.length_append, List.length_cons, hheader]
    omega
  have htake : (dirent64Header ino off reclen type ++ name ++ 0 :: pad ++ rest).take reclen =
      dirent64Header ino off reclen type ++ name ++ 0 :: pad := List.take_left' hrecord
  have hdrop : (dirent64Header ino off reclen type ++ name ++ 0 :: pad ++ rest).drop reclen =
      rest := List.drop_left' hrecord
  have hword := reclen_dirent64Header ino off hlt type (name ++ 0 :: pad ++ rest)
  have hsame : dirent64Header ino off reclen type ++ name ++ 0 :: pad ++ rest =
      dirent64Header ino off reclen type ++ (name ++ 0 :: pad ++ rest) := by
    simp only [List.append_assoc]
  have hnames : (dirent64Header ino off reclen type ++ name ++ 0 :: pad).drop 19 =
      name ++ 0 :: pad := by
    rw [List.append_assoc]
    exact List.drop_left' hheader
  have hwhile := takeWhile_cString hname pad
  rw [← hsame] at hword
  rw [dirNames, if_neg (by simp [dirent64Header])]
  dsimp only
  rw [dif_pos, hword, hdrop, htake, hnames, hwhile]
  · rw [hword, htake, hnames]
    refine ⟨by omega, ?_, by simp⟩
    rw [List.length_append, hrecord]
    omega

/-! ## A buffer that is filled -/

section Store

variable {buf buf' bytes : List UInt8} {pos : Nat}

theorem store_eq (h : pos + bytes.length ≤ buf.length) :
    store buf pos bytes = some (buf.take pos ++ bytes ++ buf.drop (pos + bytes.length)) :=
  if_pos h

theorem length_stored (h : pos + bytes.length ≤ buf.length) :
    (buf.take pos ++ bytes ++ buf.drop (pos + bytes.length)).length = buf.length := by
  simp only [List.length_append, List.length_take, List.length_drop]
  omega

/-- What is in front of the end of a part of the bytes just stored. -/
theorem take_stored (h : pos + bytes.length ≤ buf.length) {n : Nat} (hn : n ≤ bytes.length) :
    (buf.take pos ++ bytes ++ buf.drop (pos + bytes.length)).take (pos + n) =
      buf.take pos ++ bytes.take n := by
  have hpos : (buf.take pos).length = pos := by
    rw [List.length_take]
    omega
  have happend : (buf.take pos ++ (bytes ++ buf.drop (pos + bytes.length))).take
      ((buf.take pos).length + n) =
        buf.take pos ++ (bytes ++ buf.drop (pos + bytes.length)).take n :=
    List.take_length_add_append n
  rw [hpos] at happend
  rw [List.append_assoc, happend, List.take_append_of_le_length hn]

end Store

namespace DirEntry

variable (e : DirEntry)

theorem cutAt_lt {isSymbolicLink : Bool} {name : List UInt8} {n : Nat}
    (h : cutAt isSymbolicLink name = some n) : n < name.length := by
  unfold cutAt at h
  split at h
  · next hcut =>
    have hn := Option.some.inj h
    omega
  · cases h

/-- A name that is cut by a NUL, as a string. -/
theorem cutAt_elim_eq (isSymbolicLink : Bool) (copy : List UInt8) :
    ∃ pad, (cutAt isSymbolicLink copy).elim (copy ++ [0]) (fun n ↦ (copy ++ [0]).set n 0) =
      (cutAt isSymbolicLink copy).elim copy (fun n ↦ copy.take n) ++ 0 :: pad := by
  cases hcut : cutAt isSymbolicLink copy with
  | none => exact ⟨[], rfl⟩
  | some n =>
    have hn := cutAt_lt hcut
    have hin : n < (copy ++ [0]).length := by
      rw [List.length_append]
      exact Nat.lt_add_right 1 hn
    refine ⟨(copy ++ [0]).drop (n + 1), ?_⟩
    show (copy ++ [0]).set n 0 = copy.take n ++ _
    rw [List.set_eq_take_append_cons_drop, if_pos hin,
      List.take_append_of_le_length (Nat.le_of_lt hn)]

theorem notMem_cutAt_elim (isSymbolicLink : Bool) {copy : List UInt8} (h : 0 ∉ copy) :
    0 ∉ (cutAt isSymbolicLink copy).elim copy fun n ↦ copy.take n := by
  cases cutAt isSymbolicLink copy with
  | none => exact h
  | some n => exact fun hmem ↦ h (List.mem_of_mem_take hmem)

theorem length_cutAt_elim (isSymbolicLink : Bool) (copy : List UInt8) :
    ((cutAt isSymbolicLink copy).elim (copy ++ [0]) fun n ↦ (copy ++ [0]).set n 0).length =
      copy.length + 1 := by
  cases cutAt isSymbolicLink copy with
  | none => exact List.length_append
  | some n => exact List.length_set.trans List.length_append

/-- `d_name` as a string is the copy that fits, cut. -/
theorem shownName_eq_elim : e.shownName = (cutAt e.isSymbolicLink (e.cFileName.take 255)).elim
    (e.cFileName.take 255) fun n ↦ (e.cFileName.take 255).take n := by
  have hcopy : 0 ∉ e.cFileName.take 255 := fun h ↦ e.noNul (List.mem_of_mem_take h)
  obtain ⟨pad, hpad⟩ := cutAt_elim_eq e.isSymbolicLink (e.cFileName.take 255)
  rw [shownName, dName, hpad]
  exact takeWhile_cString (notMem_cutAt_elim _ hcopy) pad

/-- A name that fits is the name of the entry. -/
theorem shownName_eq (hfits : e.cFileName.length ≤ 255) : e.shownName = e.name := by
  rw [shownName_eq_elim, List.take_of_length_le hfits, name]

/-- `d_name` is a string of at most 255 bytes. -/
theorem dName_eq : ∃ pad, e.dName = e.shownName ++ 0 :: pad ∧ 0 ∉ e.shownName ∧
    e.dName.length ≤ 256 := by
  have hcopy : 0 ∉ e.cFileName.take 255 := fun h ↦ e.noNul (List.mem_of_mem_take h)
  have hlength : (e.cFileName.take 255).length ≤ 255 := List.length_take_le 255 _
  obtain ⟨pad, hpad⟩ := cutAt_elim_eq e.isSymbolicLink (e.cFileName.take 255)
  refine ⟨pad, ?_, ?_, ?_⟩
  · rw [shownName_eq_elim, dName, hpad]
  · rw [shownName_eq_elim]
    exact notMem_cutAt_elim _ hcopy
  · rw [dName, length_cutAt_elim]
    omega

/-- What an entry adds to a buffer: a record, in front of what is written. -/
theorem written_eq (c : DWORD) : 20 ≤ e.reclen ∧ e.reclen ≤ (e.written c).length ∧
    (e.written c).length ≤ sizeofDirent64 ∧ ∀ rest,
      dirNames ((e.written c).take e.reclen ++ rest) = (dirNames rest).map (e.shownName :: ·) := by
  obtain ⟨pad, hdName, hname, hlength⟩ := e.dName_eq
  have hreclen : e.reclen = 20 + e.shownName.length := by
    rw [reclen, show sizeofDirent64 = 275 from rfl]
    omega
  have hwritten : (e.written c).length = 19 + e.dName.length := by
    rw [written, List.length_append, length_dirent64Header]
  have hdLength : e.dName.length = e.shownName.length + (pad.length + 1) := by
    conv_lhs => rw [hdName, List.length_append, List.length_cons]
  refine ⟨by omega, by omega, ?_, fun rest ↦ ?_⟩
  · rw [hwritten, show sizeofDirent64 = 275 from rfl]
    omega
  · have hrecord : (dirent64Header e.hash ((c - 1#32).signExtend 64) e.reclen 0 ++ e.shownName ++
        0 :: []).length = e.reclen := by
      simp only [List.length_append, length_dirent64Header, List.length_cons, List.length_nil]
      omega
    have hassoc : e.written c = (dirent64Header e.hash ((c - 1#32).signExtend 64) e.reclen 0 ++
        e.shownName ++ 0 :: []) ++ pad := by
      conv_lhs => rw [written, hdName]
      simp only [List.append_assoc, List.cons_append, List.nil_append]
    rw [hassoc, List.take_left' hrecord]
    exact dirNames_append hname hreclen (by omega) rest

end DirEntry

/-! ## Every entry once -/

section ListsOnce

variable {σ : Type} (call : σ → List UInt8 → Option (DirResult σ))

/-- The handler after a call. -/
def dirAfter (s : σ) (buf : List UInt8) : σ := (call s buf).elim s DirResult.state

/-- The names that a call gives, unless it returns 0. -/
def dirChunk (s : σ) (buf : List UInt8) : Option (List (List UInt8)) :=
  match call s buf with
  | none => some []
  | some r =>
      if r.filled = 0 then none else some ((dirNames (r.buf.take r.filled.toNat)).getD [])

/-- A call stays in its buffer, and what it fills splits into records. -/
structure CallFits (buf : List UInt8) (r : DirResult σ) : Prop where
  length : r.buf.length = buf.length
  inside : r.filled ≤ buf.length
  records : dirNames (r.buf.take r.filled.toNat) ≠ none

/-- Over the calls with these buffers, all fit and the names up to the first 0 are those of a list,
in order; all of them, if a 0 is reached. -/
structure ListsOnce (s : σ) (names : List (List UInt8)) (bufs : List (List UInt8)) : Prop where
  fits : Along (dirAfter call) (fun s buf ↦ ∃ r, call s buf = some r ∧ CallFits buf r) s bufs
  inOrder : (listing (dirChunk call) (dirAfter call) s bufs).1 <+: names
  all : (listing (dirChunk call) (dirAfter call) s bufs).2 = true →
    (listing (dirChunk call) (dirAfter call) s bufs).1 = names

/-- None of the calls with these buffers fails, and one of them returns 0 if they are more than
the names. -/
structure Ends (s : σ) (names : List (List UInt8)) (bufs : List (List UInt8)) : Prop where
  succeeds : Along (dirAfter call) (fun s buf ↦ ∃ r, call s buf = some r ∧ 0 ≤ r.filled) s bufs
  reached : names.length < bufs.length →
    (listing (dirChunk call) (dirAfter call) s bufs).2 = true

/-- Each of the calls with these buffers fails, and leaves its buffer alone. -/
def Fails (s : σ) (bufs : List (List UInt8)) : Prop :=
  Along (dirAfter call) (fun s buf ↦ ∃ r, call s buf = some r ∧ r.filled = -1 ∧ r.buf = buf) s bufs

variable {call}

theorem dirAfter_eq {s : σ} {buf : List UInt8} {r : DirResult σ} (h : call s buf = some r) :
    dirAfter call s buf = r.state := by
  rw [dirAfter, h, Option.elim_some]

theorem dirChunk_eq_none {s : σ} {buf : List UInt8} {r : DirResult σ} (h : call s buf = some r) :
    dirChunk call s buf = none ↔ r.filled = 0 := by
  rw [dirChunk, h]
  dsimp only
  split
  · next h0 => exact iff_of_true rfl h0
  · next h0 => exact iff_of_false (Option.some_ne_none _) h0

theorem dirChunk_eq_some {s : σ} {buf : List UInt8} {r : DirResult σ} {names : List (List UInt8)}
    (h : call s buf = some r) (h0 : r.filled ≠ 0)
    (hnames : dirNames (r.buf.take r.filled.toNat) = some names) :
    dirChunk call s buf = some names := by
  rw [dirChunk, h]
  dsimp only
  rw [if_neg h0, hnames, Option.getD_some]

/-- Where calls read the names off, each is listed once. -/
theorem listsOnce_of_readsOff {left : σ → List (List UInt8)} {Inv : σ → Prop}
    {ok : List UInt8 → Prop} (h : ReadsOff (dirChunk call) (dirAfter call) left Inv ok)
    (hfits : ∀ s buf, Inv s → ok buf → ∃ r, call s buf = some r ∧ CallFits buf r) {s : σ}
    (hs : Inv s) {bufs : List (List UInt8)} (hbufs : ∀ buf ∈ bufs, ok buf) :
    ListsOnce call s (left s) bufs where
  fits := along_of_invariant h.keeps hfits hs hbufs
  inOrder := h.listing_prefix hs hbufs
  all := h.listing_all hs hbufs

/-- A call has put records for `es` behind what was filled, of the entries that were to come. -/
structure Filled {α : Type} (name : α → List UInt8) (found : List α) (buf : List UInt8)
    (filled : Nat) (r : DirResult σ) (out : List UInt8) (es rest : List α) : Prop where
  split : found = es ++ rest
  length : r.buf.length = buf.length
  result : r.filled = ((filled + out.length : Nat) : Int)
  inside : filled + out.length ≤ buf.length
  bytes : r.buf.take (filled + out.length) = buf.take filled ++ out
  names : dirNames out = some (es.map name)
  progress : filled + sizeofDirent64 < buf.length → es = [] → found = []
  visible : out = [] ↔ es = []

variable {α : Type} {name : α → List UInt8} {found es rest : List α} {buf out : List UInt8}
  {filled : Nat} {r : DirResult σ}

/-- A call that stores nothing. -/
theorem filled_nothing (hfilled : filled ≤ buf.length)
    (hstop : filled + sizeofDirent64 < buf.length → found = []) (s : σ) :
    Filled name found buf filled { filled := filled, buf := buf, state := s } [] [] found where
  split := rfl
  length := rfl
  result := rfl
  inside := hfilled
  bytes := (List.append_nil _).symm
  names := dirNames_nil
  progress h _ := hstop h
  visible := iff_of_true rfl rfl

/-- A record that is stored, and then more. -/
theorem filled_cons {e : α} {written : List UInt8} {reclen : Nat} (hpos : 0 < reclen)
    (hreclen : reclen ≤ written.length) (hnames : ∀ rest,
      dirNames (written.take reclen ++ rest) = (dirNames rest).map (name e :: ·))
    (hin : filled + written.length ≤ buf.length)
    (h : Filled name found (buf.take filled ++ written ++ buf.drop (filled + written.length))
      (filled + reclen) r out es rest) :
    Filled name (e :: found) buf filled r (written.take reclen ++ out) (e :: es) rest := by
  have hlength := length_stored hin
  have hout : (written.take reclen ++ out).length = reclen + out.length := by
    rw [List.length_append, List.length_take]
    omega
  have hbytes := h.bytes
  rw [take_stored hin hreclen] at hbytes
  have hinside := h.inside
  have hresult := h.result
  refine ⟨congrArg (e :: ·) h.split, h.length.trans hlength, ?_, ?_, ?_, ?_,
    fun _ hnil ↦ absurd hnil (List.cons_ne_nil _ _),
    iff_of_false (fun hnil ↦ ?_) (List.cons_ne_nil _ _)⟩
  · rw [hresult, hout, Nat.add_assoc]
  · rw [hout]
    omega
  · rw [hout, ← Nat.add_assoc, hbytes, List.append_assoc]
  · rw [hnames, h.names]
    rfl
  · have hzero := congrArg List.length hnil
    rw [hout, List.length_nil] at hzero
    omega

/-- What a call with room for a record does to the entries that are left: it fails and there are
none, or it takes from their front. -/
def TakesFront (name : α → List UInt8) (left : σ → List α) (s : σ) (buf : List UInt8)
    (r : DirResult σ) : Prop :=
  (r.filled = -1 ∧ r.buf = buf ∧ left s = [] ∧ left r.state = []) ∨
    ∃ out es rest, Filled name (left s) buf 0 r out es rest ∧ (es ≠ [] → left r.state = rest)

theorem nonneg_of_filled (h : Filled name found buf filled r out es rest) : 0 ≤ r.filled := by
  rw [h.result]
  exact Int.natCast_nonneg _

/-- What has been put into a buffer is there to be seen. -/
theorem dirChunk_ne_nil_of_filled {s : σ} (hrun : call s buf = some r)
    (h : Filled name found buf 0 r out es rest) : dirChunk call s buf ≠ some [] := by
  intro hchunk
  have h0 : r.filled ≠ 0 := fun h0 ↦ absurd ((dirChunk_eq_none hrun).mpr h0)
    (hchunk ▸ Option.some_ne_none [])
  have hresult := h.result
  have htoNat : r.filled.toNat = 0 + out.length := by omega
  have hnames := dirChunk_eq_some hrun h0
    (by rw [htoNat, h.bytes, List.take_zero, List.nil_append]; exact h.names)
  have hes : es = [] := List.map_eq_nil_iff.mp (Option.some.inj (hnames.symm.trans hchunk))
  rw [h.visible.mpr hes] at hresult
  exact h0 hresult

theorem callFits_of_filled (h : Filled name found buf 0 r out es rest) : CallFits buf r := by
  have hresult := h.result
  have hinside := h.inside
  have htoNat : r.filled.toNat = 0 + out.length := by omega
  refine ⟨h.length, by omega, ?_⟩
  rw [htoNat, h.bytes, List.take_zero, List.nil_append, h.names]
  exact Option.some_ne_none _

theorem callFits_of_nothing (hbuf : r.buf = buf) (hfilled : r.filled ≤ 0) : CallFits buf r := by
  have hzero : r.filled.toNat = 0 := by omega
  refine ⟨congrArg List.length hbuf, by omega, ?_⟩
  rw [hzero, List.take_zero, dirNames_nil]
  exact Option.some_ne_none _

/-- Where calls read the names off and each puts what it finds into its buffer, they come to an
end. -/
theorem ends_of_readsOff {left : σ → List (List UInt8)} {found : σ → List α} {Inv : σ → Prop}
    {ok : List UInt8 → Prop} (h : ReadsOff (dirChunk call) (dirAfter call) left Inv ok)
    (hcall : ∀ s buf, Inv s → ok buf → ∃ r out es rest, call s buf = some r ∧
      Filled name (found s) buf 0 r out es rest) {s : σ} (hs : Inv s)
    {bufs : List (List UInt8)} (hbufs : ∀ buf ∈ bufs, ok buf) : Ends call s (left s) bufs := by
  constructor
  · refine along_of_invariant h.keeps ?_ hs hbufs
    intro s buf hs hbuf
    obtain ⟨r, out, es, rest, hrun, hfilled⟩ := hcall s buf hs hbuf
    exact ⟨r, hrun, nonneg_of_filled hfilled⟩
  · refine h.listing_ends ?_ hs hbufs
    intro s buf hs hbuf
    obtain ⟨r, out, es, rest, hrun, hfilled⟩ := hcall s buf hs hbuf
    exact dirChunk_ne_nil_of_filled hrun hfilled

/-- Calls that take from the front read the names off. -/
theorem readsOff_of_takesFront {left : σ → List α} {Inv : σ → Prop}
    (hcall : ∀ s buf, Inv s → sizeofDirent64 < buf.length → ∃ r, call s buf = some r ∧
      Inv r.state ∧ TakesFront name left s buf r) :
    ReadsOff (dirChunk call) (dirAfter call) (fun s ↦ (left s).map name) Inv
      fun buf ↦ sizeofDirent64 < buf.length where
  keeps s buf hs hroom := by
    obtain ⟨r, hrun, hinv, -⟩ := hcall s buf hs hroom
    rwa [dirAfter_eq hrun]
  atEnd s buf hs hroom hchunk := by
    obtain ⟨r, hrun, -, ⟨hfilled, -⟩ | ⟨out, es, rest, h, -⟩⟩ := hcall s buf hs hroom
    · have h0 := (dirChunk_eq_none hrun).mp hchunk
      omega
    · have h0 := (dirChunk_eq_none hrun).mp hchunk
      have hresult := h.result
      have hout : out = [] := List.eq_nil_of_length_eq_zero (by omega)
      have hnone := h.progress (by omega) (h.visible.mp hout)
      rw [hnone, List.map_nil]
  takes s buf hs hroom names hchunk := by
    obtain ⟨r, hrun, -, htakes⟩ := hcall s buf hs hroom
    have h0 : r.filled ≠ 0 := fun h0 ↦ absurd ((dirChunk_eq_none hrun).mpr h0)
      (hchunk ▸ Option.some_ne_none names)
    rw [dirAfter_eq hrun]
    rcases htakes with ⟨hfilled, -, hbefore, hafter⟩ | ⟨out, es, rest, h, hleft⟩
    · have hzero : r.filled.toNat = 0 := by omega
      have hnil := dirChunk_eq_some hrun h0
        (by rw [hzero, List.take_zero, dirNames_nil] : dirNames _ = some [])
      obtain rfl := Option.some.inj (hnil.symm.trans hchunk)
      rw [hbefore, hafter]
      rfl
    · have hresult := h.result
      have htoNat : r.filled.toNat = 0 + out.length := by omega
      have hnames := dirChunk_eq_some hrun h0
        (by rw [htoNat, h.bytes, List.take_zero, List.nil_append]; exact h.names)
      obtain rfl := Option.some.inj (hnames.symm.trans hchunk)
      have hes : es ≠ [] := by
        intro hes
        rw [h.visible.mpr hes] at hresult
        exact h0 hresult
      rw [h.split, List.map_append, hleft hes]

end ListsOnce

/-! ## `IOHFile` lists its entries -/

namespace Directory

variable {dir : Directory}

/-- The loop takes from the front of the entries to come. It closes the search only where there
are none and nothing has been filled. -/
theorem fill_filled (hend : dir.atEnd = ERROR_NO_MORE_FILES) (found : List DirEntry) (c : DWORD)
    (buf : List UInt8) {filled : Nat} (hfilled : filled ≤ buf.length) :
    ∃ r out es rest, dir.fill buf.length found c buf filled = some r ∧
      Filled DirEntry.shownName found buf filled r out es rest ∧
      (r.state.hFindData = some rest ∨
        r.state.hFindData = none ∧ filled = 0 ∧ found = []) := by
  induction found generalizing c buf filled with
  | nil =>
    rw [fill]
    by_cases hroom : filled + sizeofDirent64 < buf.length
    · rw [if_pos hroom, if_pos hend]
      refine ⟨_, [], [], [], rfl, filled_nothing hfilled (fun _ ↦ rfl) _, ?_⟩
      by_cases hzero : filled = 0
      · exact .inr ⟨if_pos hzero, hzero, rfl⟩
      · exact .inl (if_neg hzero)
    · rw [if_neg hroom]
      exact ⟨_, [], [], [], rfl, filled_nothing hfilled (fun h ↦ absurd h hroom) _, .inl rfl⟩
  | cons e found ih =>
    rw [fill]
    by_cases hroom : filled + sizeofDirent64 < buf.length
    · obtain ⟨hpos, hreclen, hwritten, hnames⟩ := e.written_eq (c + 1#32)
      have hin : filled + (e.written (c + 1#32)).length ≤ buf.length := by omega
      have hlength := length_stored hin
      have hnext : filled + e.reclen ≤ (buf.take filled ++ e.written (c + 1#32) ++
          buf.drop (filled + (e.written (c + 1#32)).length)).length := by omega
      rw [if_pos hroom, store_eq hin]
      obtain ⟨r, out, es, rest, hfill, h, hstate⟩ := ih (c + 1#32) _ hnext
      rw [hlength] at hfill
      refine ⟨r, _, e :: es, rest, hfill, filled_cons (by omega) hreclen hnames hin h, ?_⟩
      rcases hstate with hopen | ⟨-, hzero, -⟩
      · exact .inl hopen
      · omega
    · rw [if_neg hroom]
      exact ⟨_, [], [], e :: found, rfl, filled_nothing hfilled (fun h ↦ absurd h hroom) _,
        .inl rfl⟩

/-- The entries that a handler has still to give. -/
def left (dir : Directory) (s : FindState) : List DirEntry := s.hFindData.getD dir.entries

/-- A call does nothing, or fails to start a search, or takes from the entries that are left. -/
theorem getDirEnts64_cases (hend : dir.atEnd = ERROR_NO_MORE_FILES) (s : FindState)
    (buf : List UInt8) : ∃ r, dir.getDirEnts64 s buf = some r ∧
      ((s.hFindData = none ∧ r.state.hFindData = none ∧ r.buf = buf ∧
          (r.filled = 0 ∧ ¬sizeofDirent64 < buf.length ∨ r.filled = -1 ∧ dir.entries = [])) ∨
        ∃ out es rest, Filled DirEntry.shownName (dir.left s) buf 0 r out es rest ∧
          (s.hFindData = none → es ≠ []) ∧
          (r.state.hFindData = some rest ∨ r.state.hFindData = none ∧ dir.left s = [])) := by
  unfold getDirEnts64
  cases hfind : s.hFindData with
  | some found =>
    obtain ⟨r, out, es, rest, hfill, h, hstate⟩ :=
      fill_filled hend found s.nFindCount buf (Nat.zero_le _)
    have hleft : dir.left s = found := by rw [left, hfind, Option.getD_some]
    refine ⟨r, hfill, .inr ⟨out, es, rest, hleft ▸ h,
      fun hnone ↦ absurd hnone (Option.some_ne_none _), ?_⟩⟩
    exact hstate.imp_right fun hclosed ↦ ⟨hclosed.1, hleft.trans hclosed.2.2⟩
  | none =>
    by_cases hroom : sizeofDirent64 < buf.length
    · simp only [if_pos hroom]
      cases hentries : dir.entries with
      | nil => exact ⟨_, rfl, .inl ⟨trivial, rfl, rfl, .inr ⟨rfl, rfl⟩⟩⟩
      | cons e found =>
        obtain ⟨hpos, hreclen, hwritten, hnames⟩ := e.written_eq 0#32
        have hin : 0 + (e.written 0#32).length ≤ buf.length := by omega
        have hlength := length_stored hin
        have hnext : 0 + e.reclen ≤ (buf.take 0 ++ e.written 0#32 ++
            buf.drop (0 + (e.written 0#32).length)).length := by omega
        have hleft : dir.left s = e :: found := by rw [left, hfind, Option.getD_none, hentries]
        obtain ⟨r, out, es, rest, hfill, h, hstate⟩ := fill_filled hend found 0#32 _ hnext
        rw [hlength, Nat.zero_add e.reclen] at hfill
        refine ⟨r, ?_, .inr ⟨(e.written 0#32).take e.reclen ++ out, e :: es, rest,
          hleft ▸ filled_cons (by omega) hreclen hnames hin h, fun _ ↦ List.cons_ne_nil _ _, ?_⟩⟩
        · dsimp only
          rw [store_eq hin]
          exact hfill
        · rcases hstate with hopen | ⟨-, hzero, -⟩
          · exact .inl hopen
          · omega
    · simp only [if_neg hroom]
      exact ⟨_, rfl, .inl ⟨trivial, hfind, rfl, .inl ⟨rfl, hroom⟩⟩⟩

theorem getDirEnts64_fits (hend : dir.atEnd = ERROR_NO_MORE_FILES) (s : FindState)
    (buf : List UInt8) : ∃ r, dir.getDirEnts64 s buf = some r ∧ CallFits buf r := by
  obtain ⟨r, hrun, ⟨-, -, hbuf, hfilled⟩ | ⟨out, es, rest, h, -⟩⟩ := getDirEnts64_cases hend s buf
  · exact ⟨r, hrun, callFits_of_nothing hbuf (by omega)⟩
  · exact ⟨r, hrun, callFits_of_filled h⟩

theorem getDirEnts64_takesFront (hend : dir.atEnd = ERROR_NO_MORE_FILES) (s : FindState)
    {buf : List UInt8} (hroom : sizeofDirent64 < buf.length) :
    ∃ r, dir.getDirEnts64 s buf = some r ∧ TakesFront DirEntry.shownName dir.left s buf r := by
  obtain ⟨r, hrun, ⟨hbefore, hafter, hbuf, ⟨-, hsmall⟩ | ⟨hfilled, hempty⟩⟩ |
    ⟨out, es, rest, h, -, hstate⟩⟩ := getDirEnts64_cases hend s buf
  · exact absurd hroom hsmall
  · refine ⟨r, hrun, .inl ⟨hfilled, hbuf, ?_, ?_⟩⟩
    · rw [left, hbefore, Option.getD_none, hempty]
    · rw [left, hafter, Option.getD_none, hempty]
  · refine ⟨r, hrun, .inr ⟨out, es, rest, h, fun hes ↦ ?_⟩⟩
    rcases hstate with hopen | ⟨-, hnone⟩
    · rw [left, hopen, Option.getD_some]
    · exact absurd (List.eq_nil_of_append_eq_nil (h.split.symm.trans hnone)).1 hes

/-- With an entry in the directory, a call that has room does not fail. -/
theorem getDirEnts64_filled (hend : dir.atEnd = ERROR_NO_MORE_FILES) (hentries : dir.entries ≠ [])
    (s : FindState) {buf : List UInt8} (hroom : sizeofDirent64 < buf.length) :
    ∃ r out es rest, dir.getDirEnts64 s buf = some r ∧
      Filled DirEntry.shownName (dir.left s) buf 0 r out es rest := by
  obtain ⟨r, hrun, ⟨-, -, -, ⟨-, hsmall⟩ | ⟨-, hempty⟩⟩ | ⟨out, es, rest, h, -⟩⟩ :=
    getDirEnts64_cases hend s buf
  · exact absurd hroom hsmall
  · exact absurd hempty hentries
  · exact ⟨r, out, es, rest, hrun, h⟩

theorem dirChunk_ne_nil (hend : dir.atEnd = ERROR_NO_MORE_FILES) (hentries : dir.entries ≠ [])
    (s : FindState) {buf : List UInt8} (hroom : sizeofDirent64 < buf.length) :
    dirChunk dir.getDirEnts64 s buf ≠ some [] := by
  obtain ⟨r, out, es, rest, hrun, h⟩ := getDirEnts64_filled hend hentries s hroom
  exact dirChunk_ne_nil_of_filled hrun h

/-- With no entry, `FindFirstFile` fails again and again. -/
theorem getDirEnts64_fails (hempty : dir.entries = []) {s : FindState}
    (hclosed : s.hFindData = none) {bufs : List (List UInt8)}
    (hbufs : ∀ buf ∈ bufs, sizeofDirent64 < buf.length) :
    Fails dir.getDirEnts64 s bufs := by
  have hcall : ∀ (s : FindState) (buf : List UInt8), s.hFindData = none →
      sizeofDirent64 < buf.length → dir.getDirEnts64 s buf =
        some { filled := -1, buf := buf, state := { hFindData := none, nFindCount := 0#32 } } := by
    intro s buf hs hroom
    simp only [getDirEnts64, hs, if_pos hroom, hempty]
  have hkeeps : ∀ (s : FindState) (buf : List UInt8), s.hFindData = none →
      sizeofDirent64 < buf.length → (dirAfter dir.getDirEnts64 s buf).hFindData = none := by
    intro s buf hs hroom
    rw [dirAfter_eq (hcall s buf hs hroom)]
  exact along_of_invariant hkeeps
    (fun s buf hs hroom ↦ ⟨_, hcall s buf hs hroom, rfl, rfl⟩) hclosed hbufs

/-- The names of the entries that are left are read off. -/
theorem readsOff_getDirEnts64 (hend : dir.atEnd = ERROR_NO_MORE_FILES) :
    ReadsOff (dirChunk dir.getDirEnts64) (dirAfter dir.getDirEnts64)
      (fun s ↦ (dir.left s).map DirEntry.shownName) (fun _ ↦ True)
      fun buf ↦ sizeofDirent64 < buf.length := by
  apply readsOff_of_takesFront
  intro s buf _ hroom
  obtain ⟨r, hrun, htakes⟩ := getDirEnts64_takesFront hend s hroom
  exact ⟨r, hrun, trivial, htakes⟩

end Directory

/-! ## `IOHStaticData` lists its records -/

/-- A record as a block holds it, with a name that ends. -/
structure Dirent64 where
  bytes : List UInt8
  length_eq : bytes.length = sizeofDirent64
  terminated : 0 ∈ bytes.drop 19

/-- `d_name` as a string. -/
def Dirent64.name (e : Dirent64) : List UInt8 := (e.bytes.drop 19).takeWhile (· ≠ 0)

namespace IOHStaticData

/-- The block of these records. -/
def blockOf (entries : List Dirent64) : List UInt8 := (entries.map Dirent64.bytes).flatten

theorem blockOf_append (l l' : List Dirent64) : blockOf (l ++ l') = blockOf l ++ blockOf l' := by
  rw [blockOf, List.map_append, List.flatten_append]
  rfl

theorem blockOf_cons (e : Dirent64) (l : List Dirent64) :
    blockOf (e :: l) = e.bytes ++ blockOf l := by
  rw [blockOf, List.map_cons, List.flatten_cons]
  rfl

theorem length_blockOf (entries : List Dirent64) :
    (blockOf entries).length = sizeofDirent64 * entries.length := by
  induction entries with
  | nil => rfl
  | cons e entries ih =>
    rw [blockOf_cons, List.length_append, ih, e.length_eq, List.length_cons, Nat.mul_succ,
      Nat.add_comm]

variable {d : IOHStaticData} (around : Int → UInt8) (self : DWORD)

/-- The position as an `int`, of a pointer in the block or at its end. -/
theorem toInt_nFilePointer (hle : d.nFilePointer.toNat ≤ d.data.length) :
    d.nFilePointer.toInt = d.nFilePointer.toNat := by
  have hfits := d.fits
  exact BitVec.toInt_eq_toNat_of_lt (by omega)

/-- The record that the pointer is at. -/
theorem staticRecord_eq {before found : List Dirent64} {e : Dirent64}
    (hdata : d.data = blockOf (before ++ e :: found))
    (hptr : d.nFilePointer.toNat = sizeofDirent64 * before.length) :
    ∃ ino off type, staticRecord d around self =
      dirent64Header ino off sizeofDirent64 type ++ e.bytes.drop 19 := by
  have hbefore := length_blockOf before
  rw [blockOf_append, blockOf_cons] at hdata
  have hlength : d.nFilePointer.toNat + sizeofDirent64 ≤ d.data.length := by
    rw [hdata, List.length_append, List.length_append, e.length_eq]
    omega
  have hbytes := byteAt_inside around d hlength
  rw [hptr, ← hbefore, hdata, List.drop_left, List.take_left' e.length_eq, hbefore, ← hptr,
    ← toInt_nFilePointer (by omega), List.map_map] at hbytes
  refine ⟨(self + d.nFilePointer).setWidth 64, d.nFilePointer.signExtend 64,
    e.bytes.getD 18 0, ?_⟩
  rw [← hbytes]
  rfl

theorem fill_filled {before found : List Dirent64} (hdata : d.data = blockOf (before ++ found))
    (hptr : d.nFilePointer.toNat = sizeofDirent64 * before.length) (buf : List UInt8)
    {filled : Nat} (hfilled : filled ≤ buf.length) :
    ∃ r out es rest, d.fill around self buf.length buf filled = some r ∧
      Filled Dirent64.name found buf filled r out es rest ∧ r.state.data = d.data ∧
      r.state.nFilePointer.toNat = sizeofDirent64 * (before.length + es.length) := by
  induction found generalizing d before buf filled with
  | nil =>
    have hlength : d.data.length = sizeofDirent64 * before.length := by
      rw [hdata, length_blockOf, List.append_nil]
    have hstop : ¬(filled + sizeofDirent64 < buf.length ∧
        d.nFilePointer.toInt < d.dataLength.toInt) := by
      rw [toInt_nFilePointer (by omega), toInt_dataLength]
      omega
    rw [fill, if_neg hstop]
    exact ⟨_, [], [], [], rfl, filled_nothing hfilled (fun _ ↦ rfl) _, rfl, hptr⟩
  | cons e found ih =>
    have hsize : sizeofDirent64 = 275 := rfl
    have hfits := d.fits
    have hlength : d.data.length = 275 * (before.length + (found.length + 1)) := by
      rw [hdata, length_blockOf, List.length_append, List.length_cons, hsize]
    have hat : d.nFilePointer.toNat = 275 * before.length := hptr
    have hmore : d.nFilePointer.toInt < d.dataLength.toInt := by
      rw [toInt_nFilePointer (by omega), toInt_dataLength]
      omega
    rw [fill]
    by_cases hroom : filled + sizeofDirent64 < buf.length
    · obtain ⟨ino, off, type, hrecord⟩ := staticRecord_eq around self hdata hptr
      obtain ⟨name, pad, hsplit, hname⟩ := List.eq_append_cons_of_mem e.terminated
      have hnameLength : name.length + (pad.length + 1) = 256 := by
        have hdrop := congrArg List.length hsplit
        rw [List.length_drop, e.length_eq, List.length_append, List.length_cons] at hdrop
        omega
      have hrecordLength : (staticRecord d around self).length = sizeofDirent64 := by
        rw [hrecord, List.length_append, length_dirent64Header, List.length_drop, e.length_eq,
          hsize]
      have hnames : ∀ rest, dirNames ((staticRecord d around self).take sizeofDirent64 ++ rest) =
          (dirNames rest).map (e.name :: ·) := by
        intro rest
        rw [List.take_of_length_le (Nat.le_of_eq hrecordLength), hrecord, hsplit,
          ← List.append_assoc, Dirent64.name, hsplit, takeWhile_cString hname]
        exact dirNames_append hname (by omega) (by decide) rest
      have hin : filled + (staticRecord d around self).length ≤ buf.length := by omega
      have hstored := length_stored hin
      have hnext : filled + sizeofDirent64 ≤ (buf.take filled ++ staticRecord d around self ++
          buf.drop (filled + (staticRecord d around self).length)).length := by omega
      have hmoved : (d.nFilePointer + BitVec.ofNat 32 sizeofDirent64).toNat =
          sizeofDirent64 * (before ++ [e]).length := by
        rw [BitVec.toNat_add, List.length_append, List.length_singleton, hsize,
          BitVec.toNat_ofNat, Nat.mod_eq_of_lt (by decide : 275 < 2 ^ 32),
          Nat.mod_eq_of_lt (by omega)]
        omega
      have hdata' : d.data = blockOf ((before ++ [e]) ++ found) := by
        rw [List.append_assoc]
        exact hdata
      obtain ⟨r, out, es, rest, hfill, h, hsame, hafter⟩ := ih
        (d := { d with nFilePointer := d.nFilePointer + BitVec.ofNat 32 sizeofDirent64 })
        hdata' hmoved _ hnext
      rw [hstored] at hfill
      rw [if_pos ⟨hroom, hmore⟩, store_eq hin]
      refine ⟨r, _, e :: es, rest, hfill,
        filled_cons (by omega) (Nat.le_of_eq hrecordLength.symm) hnames hin h, hsame, ?_⟩
      rw [hafter, List.length_append, List.length_singleton, List.length_cons, Nat.add_assoc,
        Nat.add_comm 1]
    · rw [if_neg fun h ↦ hroom h.1]
      exact ⟨_, [], [], e :: found, rfl, filled_nothing hfilled (fun h ↦ absurd h hroom) _, rfl,
        hptr⟩

/-- The records that a handler of their block has still to give. -/
def left (entries : List Dirent64) (d : IOHStaticData) : List Dirent64 :=
  entries.drop (d.nFilePointer.toNat / sizeofDirent64)

/-- A handler of the block of these records, between two of them. -/
def Between (entries : List Dirent64) (d : IOHStaticData) : Prop :=
  d.data = blockOf entries ∧
    ∃ n, n ≤ entries.length ∧ d.nFilePointer.toNat = sizeofDirent64 * n

theorem getDirEnts64_filled {entries : List Dirent64} (hd : Between entries d) (buf : List UInt8) :
    ∃ r out es rest, d.getDirEnts64 around self buf = some r ∧ Between entries r.state ∧
      Filled Dirent64.name (left entries d) buf 0 r out es rest ∧
      (es ≠ [] → left entries r.state = rest) := by
  obtain ⟨hdata, n, hn, hptr⟩ := hd
  have hsplit : entries = entries.take n ++ entries.drop n := (List.take_append_drop n _).symm
  have hbefore : (entries.take n).length = n := by rw [List.length_take, Nat.min_eq_left hn]
  have hleft : left entries d = entries.drop n := by
    rw [left, hptr, Nat.mul_div_cancel_left n (by decide)]
  obtain ⟨r, out, es, rest, hfill, h, hsame, hafter⟩ := fill_filled around self
    (hsplit ▸ hdata : d.data = blockOf (entries.take n ++ entries.drop n))
    (hbefore.symm ▸ hptr) buf (Nat.zero_le _)
  rw [hbefore] at hafter
  have hlength := congrArg List.length h.split
  rw [List.length_drop, List.length_append] at hlength
  refine ⟨r, out, es, rest, hfill, ⟨hsame.trans hdata, n + es.length, by omega, hafter⟩,
    hleft ▸ h, fun _ ↦ ?_⟩
  rw [left, hafter, Nat.mul_div_cancel_left _ (by decide), ← List.drop_drop, h.split,
    List.drop_left]

theorem readsOff_getDirEnts64 (entries : List Dirent64) :
    ReadsOff (dirChunk (getDirEnts64 around self)) (dirAfter (getDirEnts64 around self))
      (fun d ↦ (left entries d).map Dirent64.name) (Between entries)
      fun buf ↦ sizeofDirent64 < buf.length := by
  apply readsOff_of_takesFront
  intro d buf hd _
  obtain ⟨r, out, es, rest, hrun, hafter, h, hleft⟩ := getDirEnts64_filled around self hd buf
  exact ⟨r, hrun, hafter, .inr ⟨out, es, rest, h, hleft⟩⟩

theorem getDirEnts64_fits {entries : List Dirent64} (hd : Between entries d) (buf : List UInt8) :
    ∃ r, d.getDirEnts64 around self buf = some r ∧ CallFits buf r := by
  obtain ⟨r, out, es, rest, hrun, -, h, -⟩ := getDirEnts64_filled around self hd buf
  exact ⟨r, hrun, callFits_of_filled h⟩

end IOHStaticData

/-- Both kinds of directory, just opened, list each entry once, whatever the sizes of the
buffers that have room for a record, and are at their end after more calls than entries. Where a
search enumerates nothing at all, no call returns 0: each fails. -/
theorem getDirEnts64_listsOnce {dir : Directory} (hend : dir.atEnd = ERROR_NO_MORE_FILES)
    (hnames : ∀ e ∈ dir.entries, e.cFileName.length ≤ 255) (nFindCount : DWORD)
    {entries : List Dirent64} {d : IOHStaticData}
    (hblock : d.data = IOHStaticData.blockOf entries) (hstart : d.nFilePointer = 0#32)
    (around : Int → UInt8) (self : DWORD) {bufs : List (List UInt8)}
    (hbufs : ∀ buf ∈ bufs, sizeofDirent64 < buf.length) :
    (ListsOnce dir.getDirEnts64 { hFindData := none, nFindCount := nFindCount }
        (dir.entries.map DirEntry.name) bufs ∧
      (dir.entries ≠ [] →
        Ends dir.getDirEnts64 { hFindData := none, nFindCount := nFindCount }
          (dir.entries.map DirEntry.name) bufs) ∧
      (dir.entries = [] →
        Fails dir.getDirEnts64 { hFindData := none, nFindCount := nFindCount } bufs)) ∧
      ListsOnce (IOHStaticData.getDirEnts64 around self) d (entries.map Dirent64.name) bufs ∧
      Ends (IOHStaticData.getDirEnts64 around self) d (entries.map Dirent64.name) bufs := by
  constructor
  · have hshown : dir.entries.map DirEntry.name = dir.entries.map DirEntry.shownName :=
      List.map_congr_left fun e he ↦ (e.shownName_eq (hnames e he)).symm
    rw [hshown]
    have hreads := Directory.readsOff_getDirEnts64 hend
    refine ⟨listsOnce_of_readsOff hreads (fun s buf _ _ ↦ Directory.getDirEnts64_fits hend s buf)
      trivial hbufs, fun hentries ↦ ?_, fun hempty ↦ Directory.getDirEnts64_fails hempty rfl hbufs⟩
    exact ends_of_readsOff hreads
      (fun s buf _ hroom ↦ Directory.getDirEnts64_filled hend hentries s hroom) trivial hbufs
  · have hbetween : IOHStaticData.Between entries d :=
      ⟨hblock, 0, Nat.zero_le _, by rw [hstart]; rfl⟩
    have hleft : entries = IOHStaticData.left entries d := by
      rw [IOHStaticData.left, hstart]
      rfl
    have hreads := IOHStaticData.readsOff_getDirEnts64 around self entries
    have h := listsOnce_of_readsOff hreads
      (fun d buf hd _ ↦ IOHStaticData.getDirEnts64_fits around self hd buf) hbetween hbufs
    have hcall : ∀ (d : IOHStaticData) (buf : List UInt8), IOHStaticData.Between entries d →
        sizeofDirent64 < buf.length → ∃ r out es rest, d.getDirEnts64 around self buf = some r ∧
          Filled Dirent64.name (IOHStaticData.left entries d) buf 0 r out es rest := by
      intro d buf hd _
      obtain ⟨r, out, es, rest, hrun, -, h, -⟩ :=
        IOHStaticData.getDirEnts64_filled around self hd buf
      exact ⟨r, out, es, rest, hrun, h⟩
    have h' := ends_of_readsOff hreads hcall hbetween hbufs
    rw [← hleft] at h h'
    exact ⟨h, h'⟩

/-- A directory of one file. -/
def oneEntry : Directory where
  entries := [{ cFileName := [0x61], noNul := by decide, hash := 0#64, isSymbolicLink := false }]
  atEnd := ERROR_NO_MORE_FILES

/-- A record with an empty name. -/
def blankRecord : Dirent64 where
  bytes := List.replicate sizeofDirent64 0
  length_eq := List.length_replicate
  terminated := by
    rw [List.drop_replicate]
    exact List.mem_replicate.mpr ⟨by decide, rfl⟩

/-- The block of that record. -/
def blankBlock : IOHStaticData where
  data := IOHStaticData.blockOf [blankRecord]
  fits := by
    rw [IOHStaticData.length_blockOf]
    decide

theorem getDirEnts64_listsOnce_oneEntry :
    listing (dirChunk oneEntry.getDirEnts64) (dirAfter oneEntry.getDirEnts64)
        { hFindData := none, nFindCount := 0#32 } [List.replicate 300 0, List.replicate 300 0] =
          ([[0x61]], true) ∧
      listing (dirChunk (IOHStaticData.getDirEnts64 (fun _ ↦ 0) 0#32))
        (dirAfter (IOHStaticData.getDirEnts64 (fun _ ↦ 0) 0#32)) blankBlock
        [List.replicate 300 0, List.replicate 300 0] = ([blankRecord.name], true) := by
  have hbufs : ∀ buf ∈ [List.replicate 300 (0 : UInt8), List.replicate 300 0],
      sizeofDirent64 < buf.length := by
    intro buf hbuf
    rw [List.mem_pair, or_self] at hbuf
    rw [hbuf, List.length_replicate]
    decide
  obtain ⟨⟨hlists, hends, -⟩, hlists', hends'⟩ := @getDirEnts64_listsOnce oneEntry rfl (by decide)
    0#32 [blankRecord] blankBlock rfl rfl (fun _ ↦ 0) 0#32 _ hbufs
  have hend := (hends (List.cons_ne_nil _ _)).reached (by decide)
  have hend' := hends'.reached (by decide)
  exact ⟨Prod.ext (hlists.all hend) hend, Prod.ext (hlists'.all hend') hend'⟩

end Keow.Files
