import Keow.Files.Seek
import Keow.Memory.Unmap

/-!
# Private mappings of a file

`sys_mmap` reads a file that is mapped privately through its descriptor, with `IOHFile::Seek` and
`IOHFile::Read`. Beside what the mapping holds then, that leaves the position of the descriptor
where the reading ended.
-/

namespace Keow.Memory

open Keow.Base Keow.Kernel
open Keow.Exec (MemoryAlloc recordAlloc PAGE_EXECUTE_READWRITE)
open Keow.Files (setFilePointer)

/-- The file of an `IOHFile`, and the pointer of its handle. -/
structure RegularFile where
  content : List UInt8
  pointer : Nat

namespace RegularFile

/-- `IOHFile::Seek`, `IOHFile.cpp:192–198`. -/
def seek (f : RegularFile) (pos : BitVec 64) (method : DWORD) : BitVec 64 × RegularFile :=
  let done := setFilePointer ⟨f.content.length, f.pointer⟩ (pos.setWidth 32)
    (pos.extractLsb' 32 32) method
  (pos.extractLsb' 32 32 ++ done.low, { f with pointer := done.file.pointer })

/-- `IOHFile::Read`, `IOHFile.cpp:314–330`: what `ReadFile` stored, or nothing when it failed. At
the end of the file it stores no bytes, and succeeds. -/
def read (reads : RegularFile → DWORD → Bool) (f : RegularFile) (size : DWORD) :
    Option (List UInt8) × RegularFile :=
  if reads f size then
    let bytes := (f.content.drop f.pointer).take size.toNat
    (some bytes, { f with pointer := f.pointer + bytes.length })
  else (none, f)

/-- What `sys_mmap` sees of the file. -/
def mapped (reads : RegularFile → DWORD → Bool) (f : RegularFile) : MappedFile where
  length := f.content.length
  seek offset := (f.seek (offset.setWidth 64) FILE_BEGIN).1 ≠ 0xFFFFFFFF#64
  read offset size := ((f.seek (offset.setWidth 64) FILE_BEGIN).2.read reads size).1

end RegularFile

/-- What the calls rely on, with whether `ReadFile` succeeds. -/
structure FileHost extends CallHost where
  reads : RegularFile → DWORD → Bool

/-- The memory of a process, and the files behind the slots of `m_OpenFiles` that hold an
`IOHFile`. -/
structure MappingState where
  memory : MemoryState
  files : DWORD → Option RegularFile

namespace MappingState

/-- The file behind a slot has changed. -/
def setFile (s : MappingState) (fd : DWORD) (f : RegularFile) : MappingState :=
  { s with files := fun d ↦ if d = fd then some f else s.files d }

end MappingState

/-- The host of the calls when these files are open. -/
def FileHost.on (host : FileHost) (files : DWORD → Option RegularFile) : CallHost :=
  { host.toCallHost with file := fun fd ↦ (files fd).map (RegularFile.mapped host.reads) }

section Calls

variable (host : FileHost) (args : MmapArgStruct)

/-- A call that leaves an error, or a mapping at an address. -/
abbrev Mapping := Comp MappingState (Except DWORD DWORD)

/-- What is left in Eax. -/
def MmapArgStruct.eax : Except DWORD DWORD → DWORD
  | .error e => e
  | .ok p => args.result p

/-- `dwReadLen`. -/
def MmapArgStruct.readLen (size : DWORD) : DWORD :=
  if size < args.offset + args.len then size - args.offset else args.len

/-- Reading the file into a mapping at `p`, `sys_mem.cpp:201–228`. -/
def readFileMapping (ioh : Option RegularFile) (p : DWORD) : Mapping := fun s ↦
  match ioh with
  | none => .ok (.ok p) s
  | some f =>
      let sought := f.seek (args.offset.setWidth 64) FILE_BEGIN
      if sought.1 = 0xFFFFFFFF#64 then
        .ok (.error (host.failure s.memory)) (s.setFile args.fdOrSwap sought.2)
      else
        match sought.2.read host.reads (args.readLen (f.mapped host.reads).size) with
        | (none, f') => .ok (.error (host.failure s.memory)) (s.setFile args.fdOrSwap f')
        | (some bytes, f') =>
            .ok (.ok p) { s.setFile args.fdOrSwap f' with
              memory := s.memory.setMem (s.memory.remote.mem.write p bytes) }

/-- A mapping by memory, `sys_mem.cpp:177–229`. -/
def fakeFileMmap (ioh : Option RegularFile) : Mapping := fun s ↦
  if args.WriteShared then .ok (.error (-EINVAL)) s
  else
    match allocateMemAndProtect host.toHost s.memory args.addr args.len4k
      PAGE_EXECUTE_READWRITE with
    | none => .wait s
    | some (p, m) =>
        if p = -1#32 then .ok (.error (-ENOMEM)) { s with memory := m }
        else readFileMapping host args ioh p
          { s with
            memory := m.setMem (m.remote.mem.write p (List.replicate args.len4k.toNat 0)) }

/-- A mapping of Windows, which leaves the file alone. -/
def viewFile (ioh : Option RegularFile) : Mapping := fun s ↦
  let mapped := ioh.map (RegularFile.mapped host.reads)
  let p := host.mapView s.memory.remote.space args.addr args.offset (args.viewSize mapped)
  .ok (if p = 0#32 then .error (host.failure s.memory) else .ok p)
    { s with memory := (mapFile host.toCallHost args mapped s.memory).state }

/-- A mapping over a range where nothing is mapped. -/
def mapFileRange (ioh : Option RegularFile) : Mapping := fun s ↦
  if args.Fake (ioh.map (RegularFile.mapped host.reads)) then fakeFileMmap host args ioh s
  else viewFile host args ioh s

/-- `sys_mmap`, `sys_mem.cpp:92–289`, with what it does to the files. -/
def sysMmapFile : Mapping := fun s ↦
  let fd := args.fdOrSwap
  if args.addr &&& ~~~0xFFF#32 ≠ args.addr then .ok (.error (-EINVAL)) s
  else if fd ≠ -1#32 ∧ BitVec.ofNat 32 Files.MAX_OPEN_FILES < fd then .ok (.error (-EBADF)) s
  else if fd ≠ -1#32 ∧ (s.files fd).isNone then .ok (.error (-EACCES)) s
  else
    let ioh := if fd = -1#32 then none else s.files fd
    if args.addr = 0#32 then mapFileRange host args ioh s
    else
      (Comp.zoom MappingState.memory (fun m s ↦ { s with memory := m })
        (sysMunmap host.toCallHost args.addr args.len4k) >>= fun _ ↦
          mapFileRange host args ioh) s

end Calls

/-! ## What a private mapping should leave -/

namespace MmapArgStruct

/-- The length rounded up to pages. -/
def pages (args : MmapArgStruct) : Nat := (args.len.toNat + 4095) / 4096 * 4096

/-- Byte `i` of the mapping is the byte of the file, or 0 behind its end. In the rest of the last
page it may be 0 in any case. -/
def Mirrors (args : MmapArgStruct) (content : List UInt8) (i : Nat) (b : UInt8) : Prop :=
  if i < args.len.toNat then b = (content[args.offset.toNat + i]?).getD 0
  else b = 0 ∨ content[args.offset.toNat + i]? = some b

/-- Where the copying of a file of this length is meant to end. The file counts for
`0x7fffffff` bytes at most, and the end of the range is computed with 32 bits. -/
def copyEnd (args : MmapArgStruct) (length : Nat) : Nat :=
  let size := min length 0x7fffffff
  let stop := args.offset.toNat + args.len.toNat
  if stop % 2 ^ 32 ≤ size then stop
  else if args.offset.toNat ≤ size then size
  else size + 2 ^ 32

/-- Where it ends. -/
def copied (args : MmapArgStruct) (length : Nat) : Nat :=
  max args.offset.toNat (min (args.copyEnd length) length)

/-- What is in the place of byte `i` before the copying: zeros, but nothing is cleared when the
length rounds up to `2 ^ 32`. -/
def cleared (args : MmapArgStruct) (m : MemoryState) (i : Nat) : UInt8 :=
  if args.len4k = 0#32 then m.remote.mem (args.addr + BitVec.ofNat 32 i) else 0

end MmapArgStruct

/-- The mapping at `p` mirrors the file, and the position is where it was. -/
structure MapsPrivately (args : MmapArgStruct) (f : RegularFile) (p : DWORD)
    (s : MappingState) : Prop where
  bytes : ∀ i < args.pages,
    args.Mirrors f.content i (s.memory.remote.mem (p + BitVec.ofNat 32 i))
  pointer : ∃ f', s.files args.fd = some f' ∧ f'.pointer = f.pointer

/-! ## The call without the files -/

/-- Leave out the files. -/
def MmapArgStruct.answer (args : MmapArgStruct) :
    Result MappingState (Except DWORD DWORD) → Result MemoryState DWORD
  | .ok r s => .ok (args.eax r) s.memory
  | .exit s => .exit s.memory
  | .wait s => .wait s.memory
  | .fault s => .fault s.memory

section Erase

variable (host : FileHost) (args : MmapArgStruct) (files : DWORD → Option RegularFile)

theorem readMapping_eq (ioh : Option RegularFile) (p : DWORD) (s : MappingState) :
    readMapping (host.on files) args (ioh.map (RegularFile.mapped host.reads)) p s.memory =
      args.answer (readFileMapping host args ioh p s) := by
  cases ioh with
  | none => rfl
  | some f =>
    simp only [Option.map_some, readMapping, readFileMapping]
    by_cases hseek : (f.seek (args.offset.setWidth 64) FILE_BEGIN).1 = 0xFFFFFFFF#64
    · have hfails : (f.mapped host.reads).seek args.offset = false :=
        decide_eq_false (not_not.mpr hseek)
      rw [hfails, if_pos hseek]
      rfl
    · have hseeks : (f.mapped host.reads).seek args.offset = true := decide_eq_true hseek
      have hread (len : DWORD) : (f.mapped host.reads).read args.offset len =
          (RegularFile.read host.reads (f.seek (args.offset.setWidth 64) FILE_BEGIN).2 len).1 := rfl
      rw [hseeks, if_neg hseek, if_pos rfl, ← MmapArgStruct.readLen, hread]
      cases RegularFile.read host.reads (f.seek (args.offset.setWidth 64) FILE_BEGIN).2
        (args.readLen (f.mapped host.reads).size) with
      | mk bytes f' =>
        cases bytes with
        | none => rfl
        | some bytes => rfl

theorem fakeMmap_eq (ioh : Option RegularFile) (s : MappingState) :
    fakeMmap (host.on files) args (ioh.map (RegularFile.mapped host.reads)) s.memory =
      args.answer (fakeFileMmap host args ioh s) := by
  simp only [fakeMmap, fakeFileMmap]
  split
  · rfl
  · change (match allocateMemAndProtect host.toHost s.memory args.addr args.len4k
      PAGE_EXECUTE_READWRITE with | none => _ | some (p, m) => _) = _
    cases allocateMemAndProtect host.toHost s.memory args.addr args.len4k
      PAGE_EXECUTE_READWRITE with
    | none => rfl
    | some result =>
      obtain ⟨p, m⟩ := result
      simp only
      split
      · rfl
      · exact readMapping_eq host args files ioh p ⟨_, s.files⟩

theorem mapRange_eq (ioh : Option RegularFile) (s : MappingState) :
    mapRange (host.on files) args (ioh.map (RegularFile.mapped host.reads)) s.memory =
      args.answer (mapFileRange host args ioh s) := by
  simp only [mapRange, mapFileRange]
  split
  · exact fakeMmap_eq host args files ioh s
  · simp only [mapFile, viewFile]
    change (if host.mapView s.memory.remote.space args.addr args.offset
      (args.viewSize (ioh.map (RegularFile.mapped host.reads))) = 0#32 then _ else _) = _
    split
    · rfl
    · rfl

/-- Without what it does to the files it is `sysMmap`. -/
theorem sysMmap_eq (s : MappingState) :
    sysMmap (host.on s.files) args s.memory = args.answer (sysMmapFile host args s) := by
  have hioh : (if args.fdOrSwap = -1#32 then none else (host.on s.files).file args.fdOrSwap) =
      (if args.fdOrSwap = -1#32 then none else s.files args.fdOrSwap).map
        (RegularFile.mapped host.reads) := by
    split
    · rfl
    · rfl
  have hslot : ((host.on s.files).file args.fdOrSwap).isNone = (s.files args.fdOrSwap).isNone :=
    Option.isNone_map
  simp only [sysMmap, sysMmapFile, hioh, hslot]
  split_ifs
  · rfl
  · rfl
  · rfl
  · exact mapRange_eq host args s.files none s
  · exact mapRange_eq host args s.files (s.files args.fdOrSwap) s
  all_goals
    simp only [Comp.bind, Bind.bind, Comp.zoom]
    rw [show sysMunmap (host.on s.files) args.addr args.len4k s.memory =
      sysMunmap host.toCallHost args.addr args.len4k s.memory from rfl]
    cases sysMunmap host.toCallHost args.addr args.len4k s.memory with
    | ok r m => exact mapRange_eq host args s.files _ ⟨m, s.files⟩
    | exit m => rfl
    | wait m => rfl
    | fault m => rfl

end Erase

/-! ## Where the copying ends -/

section Copied

variable {args : MmapArgStruct} {f : RegularFile}

theorem toNat_size (reads : RegularFile → DWORD → Bool) :
    (f.mapped reads).size.toNat = min f.content.length 0x7fffffff := by
  have hlength : (f.mapped reads).length = (f.content.length : Int) := rfl
  unfold MappedFile.size
  rw [hlength]
  split
  · rw [BitVec.toNat_ofNat]
    omega
  · rw [BitVec.ofInt_natCast, BitVec.toNat_ofNat]
    omega

/-- What is read from the offset on ends where the copying does. -/
theorem copied_eq (args : MmapArgStruct) (f : RegularFile)
    (reads : RegularFile → DWORD → Bool) :
    args.copied f.content.length = args.offset.toNat +
      min (args.readLen (f.mapped reads).size).toNat (f.content.length - args.offset.toNat) := by
  have hsize := toNat_size (f := f) reads
  have hoffset := args.offset.isLt
  have hsum := BitVec.toNat_add args.offset args.len
  rw [MmapArgStruct.copied, MmapArgStruct.copyEnd]
  simp only [← hsize]
  generalize (f.mapped reads).size = size at hsize ⊢
  by_cases hfits : (args.offset.toNat + args.len.toNat) % 2 ^ 32 ≤ size.toNat
  · have hread : args.readLen size = args.len := if_neg (by rw [BitVec.lt_def]; omega)
    rw [hread, if_pos hfits]
    omega
  · have hread : args.readLen size = size - args.offset := if_pos (by rw [BitVec.lt_def]; omega)
    rw [hread, if_neg hfits]
    by_cases hin : args.offset.toNat ≤ size.toNat
    · rw [if_pos hin, Mem.toNat_sub_of_le hin]
      omega
    · have hpast : ∀ w, args.offset.toNat < w →
          max args.offset.toNat (min (size.toNat + w) f.content.length) = args.offset.toNat +
            min (w - args.offset.toNat + size.toNat) (f.content.length - args.offset.toNat) := by
        intro w hw
        omega
      rw [if_neg hin, Mem.toNat_sub_of_lt (Nat.lt_of_not_le hin)]
      exact hpast (2 ^ 32) hoffset

/-- `Seek` goes to the offset. -/
theorem seek_offset (offset : DWORD) :
    f.seek (offset.setWidth 64) FILE_BEGIN =
      (offset.setWidth 64, { f with pointer := offset.toNat }) := by
  have hlow : (offset.setWidth 64).setWidth 32 = offset := by
    ext i _
    simp
  have hhigh : (offset.setWidth 64).extractLsb' 32 32 = 0#32 := by
    ext i _
    simp
  have hnat : (0#32 ++ offset).toNat = offset.toNat := by
    rw [BitVec.toNat_append, ← Nat.shiftLeft_add_eq_or_of_lt offset.isLt]
    simp
  have hpos : (Files.OpenFile.mk f.content.length f.pointer).origin FILE_BEGIN +
      (0#32 ++ offset).toInt = (offset.toNat : Int) := by
    rw [Files.OpenFile.origin, if_pos rfl, BitVec.toInt_eq_toNat_of_lt (by omega), hnat]
    simp
  rw [RegularFile.seek, hlow, hhigh]
  simp only [Files.setFilePointer_of_nonneg hpos (Int.natCast_nonneg _), Int.toNat_natCast]
  rw [BitVec.ofInt_natCast, BitVec.ofNat_toNat, BitVec.setWidth_eq]
  congr 1
  apply BitVec.eq_of_toNat_eq
  rw [hnat, BitVec.toNat_setWidth, Nat.mod_eq_of_lt (by omega)]

end Copied

/-! ## Allocating nothing -/

section Nothing

/-- Reserving commits no page. -/
theorem state_reserve {w : Windows} {s : Space} {addr size : DWORD} {n : Nat}
    (h : ((w.reserve s addr size).2.page n).state = .commit) : (s.page n).state = .commit := by
  have hupdate : ∀ first last b,
      ((s.update first last (Page.reserve b)).page n).state = .commit →
        (s.page n).state = .commit := by
    intro first last b hcommit
    rcases Space.page_update_cases s first last n (Page.reserve b) with hpage | ⟨_, _, hpage⟩
    · rwa [hpage] at hcommit
    · rw [hpage] at hcommit
      revert hcommit
      cases s.page n <;> simp [Page.reserve, Page.state]
  simp only [Windows.reserve] at h
  split at h
  · split at h
    · exact h
    · exact hupdate _ _ _ h
  · split at h
    · exact hupdate _ _ _ h
    · exact h

/-- An allocation of no bytes at the start of a page commits nothing. -/
theorem committed_of_backRange {w : Windows} {mbi : MemoryBasicInformation} {s s' : Space}
    {addr p : DWORD} (haddr : addr &&& ~~~0xFFF#32 = addr)
    (h : backRange w mbi s addr addr = some (p, s')) {a : Nat} (ha : s'.Committed a) :
    s.Committed a := by
  have hreserve := leaves_run (p := reservePass w) (w := w)
    (R := fun s s' ↦ ∀ n, (s'.page n).state = .commit → (s.page n).state = .commit)
    (fun _ _ h ↦ h) (fun h h' n hn ↦ h n (h' n hn)) (fun _ _ _ _ h ↦ state_reserve h) addr
    scanFuel mbi (addr &&& ~~~(0x10000#32 - 1#32)) s
  obtain ⟨fuel, hfuel⟩ : ∃ fuel, scanFuel = fuel + 1 :=
    Nat.exists_eq_add_of_le' (show 1 ≤ scanFuel by unfold scanFuel; omega)
  unfold backRange at h
  revert h hreserve
  cases (reservePass w).run w addr scanFuel mbi (addr &&& ~~~(0x10000#32 - 1#32)) s with
  | hung => exact fun h ↦ nomatch h
  | refused s₁ =>
    intro h hkeeps
    cases h
    exact hkeeps _ ha
  | finished mbi₁ s₁ =>
    intro h hkeeps
    simp only at h
    rw [show addr &&& ~~~(0x1000#32 - 1#32) = addr from haddr, hfuel, Pass.run,
      if_neg (BitVec.lt_irrefl addr)] at h
    cases h
    exact hkeeps _ ha

theorem allocate_nothing {host : Host} {m m' : MemoryState} {addr p prot : DWORD}
    (haddr : addr &&& ~~~0xFFF#32 = addr)
    (h : allocateMemAndProtect host m addr 0#32 prot = some (p, m')) (hok : p ≠ -1#32) :
    p = addr ∧ m'.remote.mem = m.remote.mem := by
  obtain ⟨⟨q, s'⟩, hcall, heq⟩ := Option.map_eq_some_iff.mp h
  cases heq
  rw [Host.allocate, allocate_eq_backRange _ fun _ ↦ ?_, BitVec.add_zero] at hcall
  · refine ⟨(backRange_addr hcall).resolve_left hok, ?_⟩
    funext x
    exact if_neg fun hfresh ↦ hfresh.2 (committed_of_backRange haddr hcall hfresh.1)
  · by_contra hplace
    exact (host.windows.place_le _ _ hplace).1 rfl

end Nothing

/-! ## What a call leaves -/

section Run

variable {host : FileHost} {args : MmapArgStruct} {f : RegularFile} {p : DWORD}
  {s s' : MappingState}

/-- Bytes on top of others. -/
theorem write_write_add (mem : UserMem) (p : DWORD) (bs cs : List UInt8) {i : Nat}
    (hi : i < 2 ^ 32) :
    ((mem.write p bs).write p cs) (p + BitVec.ofNat 32 i) =
      (cs[i]?).getD ((bs[i]?).getD (mem (p + BitVec.ofNat 32 i))) := by
  have hoffset : (p + BitVec.ofNat 32 i - p).toNat = i := by
    rw [BitVec.add_comm, BitVec.add_sub_cancel, BitVec.toNat_ofNat, Nat.mod_eq_of_lt hi]
  rw [Mem.write, Mem.write, hoffset]

/-- The length in pages is computed with 32 bits. -/
theorem len4k_eq_pages (h : args.len4k ≠ 0#32) : args.len4k.toNat = args.pages := by
  have hmask := toNat_and_not_sub_one (args.len + 0xFFF#32) (0x1000#32) (k := 12) rfl
  have hlen := args.len.isLt
  have hne : args.len4k.toNat ≠ 0 := fun hz ↦ h (BitVec.eq_of_toNat_eq hz)
  unfold MmapArgStruct.len4k at *
  unfold MmapArgStruct.pages
  rw [show (0x1000#32 : DWORD) - 1#32 = 0xFFF#32 from rfl, BitVec.toNat_add,
    show (0xFFF#32 : DWORD).toNat = 4095 from rfl] at hmask
  omega

theorem mem_sysMunmap {host : CallHost} {addr len r : DWORD} {m m' : MemoryState}
    (h : sysMunmap host addr len m = .ok r m') : m'.remote.mem = m.remote.mem := by
  unfold sysMunmap at h
  split at h
  · cases h
  · simp only [deallocateMemory] at h
    cases h
    split
    · split
      · rfl
      · rfl
    · rfl

/-- The bytes that are read are those up to where the copying ends. -/
theorem readFileMapping_eq_ok {q : DWORD}
    (h : readFileMapping host args (some f) q s = .ok (.ok p) s') :
    p = q ∧ ∃ bytes : List UInt8,
      (∀ i, bytes[i]? =
        if args.offset.toNat + i < args.copied f.content.length
        then f.content[args.offset.toNat + i]? else none) ∧
      s'.memory.remote.mem = s.memory.remote.mem.write p bytes ∧
      s'.files args.fdOrSwap =
        some { f with pointer := args.copied f.content.length } := by
  have hcopied := copied_eq args f host.reads
  simp only [readFileMapping, seek_offset, RegularFile.read] at h
  generalize args.readLen (f.mapped host.reads).size = readLen at h hcopied
  split at h
  · cases h
  · split at h
    · cases h
    · rename_i bytes f' hread
      split at hread
      · cases hread
        cases h
        refine ⟨rfl, _, fun i ↦ ?_, rfl, ?_⟩
        · rw [List.getElem?_take, List.getElem?_drop, hcopied]
          split
          · by_cases hin : args.offset.toNat + i < f.content.length
            · rw [if_pos (by omega)]
            · rw [List.getElem?_eq_none (by omega), ite_self]
          · rw [if_neg (by omega)]
        · simp only [MappingState.setFile, if_true, List.length_take, List.length_drop]
          rw [hcopied]
      · cases hread

/-- A private mapping is made by memory. -/
theorem mapFileRange_eq_ok (hprivate : args.flags &&& MAP_SHARED = 0#32)
    (h : mapFileRange host args (some f) s = .ok (.ok p) s') :
    ∃ q m, allocateMemAndProtect host.toHost s.memory args.addr args.len4k
        PAGE_EXECUTE_READWRITE = some (q, m) ∧ q ≠ -1#32 ∧
      readFileMapping host args (some f) q { s with
        memory := m.setMem (m.remote.mem.write q (List.replicate args.len4k.toNat 0)) } =
          .ok (.ok p) s' := by
  have hshared : ¬args.WriteShared := fun h ↦ h.2 hprivate
  rw [mapFileRange, if_pos (.inr (.inr (.inr hshared))), fakeFileMmap, if_neg hshared] at h
  cases hcall : allocateMemAndProtect host.toHost s.memory args.addr args.len4k
    PAGE_EXECUTE_READWRITE with
  | none =>
    rw [hcall] at h
    cases h
  | some result =>
    obtain ⟨q, m⟩ := result
    rw [hcall] at h
    simp only at h
    split at h
    · cases h
    · next hok => exact ⟨q, m, rfl, hok, h⟩

/-- It is made of the memory as it was: what is unmapped keeps its bytes. -/
theorem sysMmapFile_eq_ok (hfd : args.fdOrSwap ≠ -1#32) (hfile : s.files args.fdOrSwap = some f)
    (h : sysMmapFile host args s = .ok (.ok p) s') :
    args.addr &&& ~~~0xFFF#32 = args.addr ∧ ∃ m, m.remote.mem = s.memory.remote.mem ∧
      mapFileRange host args (some f) { s with memory := m } = .ok (.ok p) s' := by
  simp only [sysMmapFile, hfile, if_neg hfd] at h
  split at h
  · cases h
  · next haddr =>
    refine ⟨not_not.mp haddr, ?_⟩
    split at h
    · cases h
    · split at h
      · cases h
      · split at h
        · exact ⟨s.memory, rfl, h⟩
        · obtain ⟨r, t, hunmap, hmap⟩ := Comp.bind_eq_ok.mp h
          unfold Comp.zoom at hunmap
          split at hunmap
          · next hrun =>
            cases hunmap
            exact ⟨_, mem_sysMunmap hrun, hmap⟩
          all_goals cases hunmap

/-- What is at byte `i` of a mapping. -/
theorem sysMmapFile_mem (hprivate : args.flags &&& MAP_SHARED = 0#32)
    (hfd : args.fdOrSwap ≠ -1#32) (hfile : s.files args.fdOrSwap = some f)
    (h : sysMmapFile host args s = .ok (.ok p) s') :
    (∀ i < args.pages, s'.memory.remote.mem (p + BitVec.ofNat 32 i) =
      if args.offset.toNat + i < args.copied f.content.length
      then (f.content[args.offset.toNat + i]?).getD 0 else args.cleared s.memory i) ∧
      s'.files args.fdOrSwap =
        some { f with pointer := args.copied f.content.length } := by
  obtain ⟨haddr, m₁, hmem, hmap⟩ := sysMmapFile_eq_ok hfd hfile h
  obtain ⟨q, m₂, hcall, hok, hread⟩ := mapFileRange_eq_ok hprivate hmap
  obtain ⟨rfl, bytes, hbytes, hstored, hpointer⟩ := readFileMapping_eq_ok hread
  refine ⟨fun i hi ↦ ?_, hpointer⟩
  have hlen := args.len.isLt
  have hpages : args.pages ≤ 2 ^ 32 := by
    unfold MmapArgStruct.pages
    omega
  rw [hstored]
  change ((m₂.remote.mem.write p (List.replicate args.len4k.toNat 0)).write p bytes) _ = _
  rw [write_write_add _ _ _ _ (by omega), hbytes]
  split
  · next hin =>
    have hlt : args.offset.toNat + i < f.content.length := by
      unfold MmapArgStruct.copied at hin
      omega
    rw [List.getElem?_eq_getElem hlt]
    rfl
  · unfold MmapArgStruct.cleared
    split
    · next hzero =>
      rw [hzero] at hcall
      obtain ⟨rfl, hkept⟩ := allocate_nothing haddr hcall hok
      have hkept : m₂.remote.mem = s.memory.remote.mem := hkept.trans hmem
      rw [hzero, hkept]
      rfl
    · next hne =>
      have hcleared : i < args.len4k.toNat := by
        rw [len4k_eq_pages hne]
        exact hi
      rw [List.getElem?_replicate_of_lt hcleared]
      rfl

end Run

/-! ## Mappings that leave the position -/

theorem mirrors_of_some {args : MmapArgStruct} {content : List UInt8} {i : Nat} {b : UInt8}
    (h : content[args.offset.toNat + i]? = some b) : args.Mirrors content i b := by
  unfold MmapArgStruct.Mirrors
  rw [h]
  split
  · rfl
  · exact .inr rfl

/-- What is cleared is right where nothing is copied, unless the file has `2 ^ 31` bytes or more, or
the length rounds up to `2 ^ 32`. -/
theorem mirrors_cleared {args : MmapArgStruct} {content : List UInt8} {m : MemoryState} {i : Nat}
    (hlen : args.len4k ≠ 0#32) (hsmall : content.length < 2 ^ 31)
    (hbehind : args.copied content.length ≤ args.offset.toNat + i) :
    args.Mirrors content i (args.cleared m i) := by
  have hzero : args.cleared m i = 0 := if_neg hlen
  rw [hzero]
  by_cases hin : args.offset.toNat + i < content.length
  · -- inside of the file the copying ends with the range
    have hrange : args.len.toNat ≤ i := by
      unfold MmapArgStruct.copied MmapArgStruct.copyEnd at hbehind
      simp only at hbehind
      split at hbehind
      · omega
      · split at hbehind
        · omega
        · omega
    unfold MmapArgStruct.Mirrors
    rw [if_neg (Nat.not_lt.mpr hrange)]
    exact .inl rfl
  · unfold MmapArgStruct.Mirrors
    rw [List.getElem?_eq_none (Nat.not_lt.mp hin)]
    split
    · rfl
    · exact .inl rfl

/-- A private mapping of a file mirrors it and leaves the position where it was, exactly if the
position was where the copying ends, and behind that the cleared bytes are right already. -/
theorem mapsPrivately_iff {host : FileHost} {args : MmapArgStruct} {f : RegularFile} {p : DWORD}
    {s s' : MappingState} (hprivate : args.flags &&& MAP_SHARED = 0#32)
    (hanon : args.flags &&& MAP_ANONYMOUS = 0#32) (hfd : args.fd ≠ -1#32)
    (hfile : s.files args.fd = some f) (hrun : sysMmapFile host args s = .ok (.ok p) s') :
    MapsPrivately args f p s' ↔
      f.pointer = args.copied f.content.length ∧
        ∀ i < args.pages, args.copied f.content.length ≤ args.offset.toNat + i →
          args.Mirrors f.content i (args.cleared s.memory i) := by
  have hslot : args.fdOrSwap = args.fd := if_neg (not_not.mpr hanon)
  rw [← hslot] at hfd hfile
  obtain ⟨hmem, hpointer⟩ := sysMmapFile_mem hprivate hfd hfile hrun
  constructor
  · rintro ⟨hbytes, f', hf', hposition⟩
    rw [← hslot, hpointer] at hf'
    cases hf'
    refine ⟨hposition.symm, fun i hi hbehind ↦ ?_⟩
    have hbyte := hbytes i hi
    rwa [hmem i hi, if_neg (Nat.not_lt.mpr hbehind)] at hbyte
  · rintro ⟨hposition, hcleared⟩
    refine ⟨fun i hi ↦ ?_, _, hslot ▸ hpointer, hposition.symm⟩
    rw [hmem i hi]
    split
    · next hin =>
      have hlt : args.offset.toNat + i < f.content.length := by
        unfold MmapArgStruct.copied at hin
        omega
      apply mirrors_of_some
      rw [List.getElem?_eq_getElem hlt]
      rfl
    · next hbehind => exact hcleared i hi (Nat.not_lt.mp hbehind)

/-- Windows when it refuses no reading. -/
def readingHost : FileHost := { carefulHost with reads := fun _ _ ↦ true }

/-- A process with a file of three bytes behind slot 3, at a position. -/
def openAt (pointer : Nat) : MappingState where
  memory := image
  files fd := if fd = 3#32 then some ⟨[1, 2, 3], pointer⟩ else none

/-- The first page of the file is mapped privately. -/
def firstPage : MmapArgStruct := ⟨0#32, 0x1000#32, 0x1#32, 0x2#32, 3#32, 0#32⟩

/-- The position is at the end of the file already. -/
theorem mapsPrivately_at_end :
    ∃ s', sysMmapFile readingHost firstPage (openAt 3) = .ok (.ok 0x10000#32) s' ∧
      MapsPrivately firstPage ⟨[1, 2, 3], 3⟩ 0x10000#32 s' := by
  obtain ⟨s', hrun⟩ := Result.ok_of_value (r := sysMmapFile readingHost firstPage (openAt 3))
    (a := .ok 0x10000#32) (by decide +kernel)
  exact ⟨s', hrun, (mapsPrivately_iff rfl rfl (by decide) rfl hrun).mpr
    ⟨rfl, fun _ _ hbehind ↦ mirrors_cleared (by decide) (by decide) hbehind⟩⟩

/-- At its beginning it is moved. -/
theorem not_mapsPrivately_at_start :
    ∃ s', sysMmapFile readingHost firstPage (openAt 0) = .ok (.ok 0x10000#32) s' ∧
      ¬MapsPrivately firstPage ⟨[1, 2, 3], 0⟩ 0x10000#32 s' := by
  obtain ⟨s', hrun⟩ := Result.ok_of_value (r := sysMmapFile readingHost firstPage (openAt 0))
    (a := .ok 0x10000#32) (by decide +kernel)
  refine ⟨s', hrun, ?_⟩
  rintro ⟨_, f', hf', hposition⟩
  rw [show firstPage.fd = firstPage.fdOrSwap from rfl,
    (sysMmapFile_mem (f := ⟨[1, 2, 3], 0⟩) rfl (by decide) rfl hrun).2] at hf'
  cases hf'
  exact absurd hposition (by decide)

end Keow.Memory
