import Keow.Base.Align
import Keow.Exec.Layout

/-!
# The memory image of an ELF file

When `LoadElfImage` returns 0, every `PT_LOAD` segment should stand in memory as the file has
it, with zeros behind. Segments are widened to their alignment and zeroed one after another, and
an interpreter is loaded after all of them, so what decides is the last store on each byte.
-/

namespace Keow.Exec

open Keow.Base Keow.Kernel Keow.Paths

/-! ## Segments of a file -/

/-- The `k`-th program header of a file. -/
def Elf32Hdr.phdr (hdr : Elf32Hdr) (file : List UInt8) (k : Nat) : Phdr :=
  Phdr.ofBytes (file.drop (hdr.ePhoff.toNat + k * hdr.ePhentsize.toNat))

/-- The `PT_LOAD` headers of a file, in order. -/
def Elf32Hdr.segments (hdr : Elf32Hdr) (file : List UInt8) : List Phdr :=
  ((List.range hdr.ePhnum.toNat).map (hdr.phdr file)).filter (·.pType = PT_LOAD)

/-- Byte `i` of a segment as the file has it. -/
def Phdr.imageByte (file : List UInt8) (p : Phdr) (i : Nat) : UInt8 :=
  if i < p.pFilesz.toNat then file.getD (p.pOffset.toNat + i) 0 else 0

/-- The address lies in the unplaced segment. -/
def Phdr.Contains (p : Phdr) (a : Nat) : Prop :=
  p.pVaddr.toNat ≤ a ∧ a < p.pVaddr.toNat + p.pMemsz.toNat

/-- The segments stand in memory as the file has them. -/
def HoldsImage (hdr : Elf32Hdr) (file : List UInt8) (base : DWORD) (mem : UserMem) : Prop :=
  ∀ p ∈ hdr.segments file, ∀ i < p.pMemsz.toNat,
    mem (base + p.pVaddr + BitVec.ofNat 32 i) = p.imageByte file i

/-- A file whose segments are laid out soundly for a base address, and whose header table and
segments `SetFilePointer` can reach. -/
structure WellFormed (hdr : Elf32Hdr) (file : List UInt8) (base : DWORD) : Prop where
  phentsize : 32 ≤ hdr.ePhentsize.toNat
  table : hdr.ePhoff.toNat + hdr.ePhnum.toNat * hdr.ePhentsize.toNat ≤ file.length
  table_reached : hdr.ePhoff.toNat + hdr.ePhnum.toNat * hdr.ePhentsize.toNat ≤ 2 ^ 31
  offset_reached : ∀ p ∈ hdr.segments file, p.pOffset.toNat < 2 ^ 31
  filesz_le : ∀ p ∈ hdr.segments file, p.pFilesz.toNat ≤ p.pMemsz.toNat
  align : ∀ p ∈ hdr.segments file, ∃ k, p.pAlign.toNat = 2 ^ k
  no_wrap : ∀ p ∈ hdr.segments file, base.toNat + p.pVaddr.toNat + p.pMemsz.toNat ≤ 2 ^ 32
  disjoint : (hdr.segments file).Pairwise (fun p q ↦ ∀ a, p.Contains a → ¬q.Contains a)

/-- The widened segment covers the address with its zero fill. The length is an `int`, so that
one of `2 ^ 31` or more fills nothing. -/
def Phdr.Zeroes (p : Phdr) (base x : DWORD) : Prop :=
  (x - p.alignedMem base).toNat < (p.alignedSize base).toInt.toNat

instance (p : Phdr) (base x : DWORD) : Decidable (p.Zeroes base x) := by
  unfold Phdr.Zeroes
  infer_instance

/-- Byte `i` of a segment is not spoiled, `after` being the segments behind it. Where an
interpreter is stored on the byte, the last such store puts there what the file has. Elsewhere
a byte of the file is 0 or outside the zero fill of every later segment, and a byte behind the
file's part was 0 before or is inside the zero fill of some segment. -/
def UnspoiledAt (host : Host) (depth : Nat) (r : Request) (mem : UserMem) (p : Phdr)
    (after : List Phdr) (i : Nat) : Prop :=
  match Patch.lastByte (r.interpreterPatches host depth)
      (r.base + p.pVaddr + BitVec.ofNat 32 i) with
  | some b => b = p.imageByte r.hImg.bytes i
  | none =>
      if i < p.pFilesz.toNat then
        p.imageByte r.hImg.bytes i = 0 ∨
          ∀ q ∈ after, ¬q.Zeroes r.base (r.base + p.pVaddr + BitVec.ofNat 32 i)
      else
        mem (r.base + p.pVaddr + BitVec.ofNat 32 i) = 0 ∨
          ∃ q ∈ r.hdr.segments r.hImg.bytes,
            q.Zeroes r.base (r.base + p.pVaddr + BitVec.ofNat 32 i)

instance (host : Host) (depth : Nat) (r : Request) (mem : UserMem) (p : Phdr)
    (after : List Phdr) (i : Nat) : Decidable (UnspoiledAt host depth r mem p after i) := by
  unfold UnspoiledAt
  split <;> infer_instance

/-- No byte of a segment is spoiled. -/
def Unspoiled (host : Host) (depth : Nat) (r : Request) (mem : UserMem) : Prop :=
  ∀ before p after, r.hdr.segments r.hImg.bytes = before ++ p :: after →
    ∀ i < p.pMemsz.toNat, UnspoiledAt host depth r mem p after i

/-! ## Reading the header table -/

/-- A field of a buffer that was read whole is the field of the file. -/
theorem word_overwrite (bs buf : List UInt8) {n offset : Nat} (hn : n ≤ bs.length)
    (ho : offset + 4 ≤ n) : word (overwrite buf (bs.take n)) offset = word bs offset := by
  have htake : ((bs.take n ++ buf.drop (bs.take n).length).drop offset).take 4 =
      (bs.drop offset).take 4 := by
    have hlen : (bs.take n).length = n := by simp [hn]
    rw [List.drop_append_of_le_length (by omega), List.take_append_of_le_length, List.drop_take,
      List.take_take, Nat.min_eq_left (by omega)]
    rw [List.length_drop]
    omega
  simp only [word, Codec.word, overwrite, htake]

/-- So is a whole program header. -/
theorem ofBytes_overwrite (bs buf : List UInt8) {n : Nat} (hn : n ≤ bs.length) (h32 : 32 ≤ n) :
    Phdr.ofBytes (overwrite buf (bs.take n)) = Phdr.ofBytes bs := by
  simp only [Phdr.ofBytes]
  rw [word_overwrite bs buf hn (by omega), word_overwrite bs buf hn (by omega),
    word_overwrite bs buf hn (by omega), word_overwrite bs buf hn (by omega),
    word_overwrite bs buf hn (by omega), word_overwrite bs buf hn (by omega)]

theorem seek_of_lt (h : Handle) {distance : DWORD} (hd : distance.toNat < 2 ^ 31) :
    h.seek distance = { h with pos := distance.toNat } := by
  have hnn : ¬distance.toInt < 0 := by
    rw [BitVec.toInt_eq_toNat_of_lt (by omega)]
    omega
  rw [Handle.seek, if_neg hnn]

theorem bytes_seek (h : Handle) (distance : DWORD) : (h.seek distance).bytes = h.bytes := by
  unfold Handle.seek
  split <;> rfl

theorem bytes_afterRound (h : Handle) (p : Phdr) : (h.afterRound p).bytes = h.bytes := by
  unfold Handle.afterRound
  split
  · exact bytes_seek h p.pOffset
  · rfl

/-- The round of a segment that can be reached. -/
def Phdr.entry (file : List UInt8) (p : Phdr) : Entry :=
  ⟨p, (file.drop p.pOffset.toNat).take p.pFilesz.toNat⟩

/-- The rounds of a table that lies in the file are its headers, one after the other. -/
theorem filter_rounds {hdr : Elf32Hdr} {file : List UInt8} (h32 : 32 ≤ hdr.ePhentsize.toNat)
    (n i : Nat)
    (htable : hdr.ePhoff.toNat + (i + n) * hdr.ePhentsize.toNat ≤ file.length)
    (hreach : hdr.ePhoff.toNat + (i + n) * hdr.ePhentsize.toNat ≤ 2 ^ 31)
    (hoffset : ∀ k, i ≤ k → k < i + n → (hdr.phdr file k).pType = PT_LOAD →
      (hdr.phdr file k).pOffset.toNat < 2 ^ 31)
    (h : Handle) (hbytes : h.bytes = file) (buf : List UInt8) :
    (hdr.rounds n i h buf).filter (·.phdr.pType = PT_LOAD) =
      (((List.range' i n).map (hdr.phdr file)).filter (·.pType = PT_LOAD)).map
        (Phdr.entry file) := by
  induction n generalizing i h buf with
  | zero => rfl
  | succ n ih =>
    have hsucc : (i + (n + 1)) * hdr.ePhentsize.toNat =
        i * hdr.ePhentsize.toNat + hdr.ePhentsize.toNat + n * hdr.ePhentsize.toNat := by
      rw [Nat.add_mul, Nat.succ_mul]
      omega
    have hdist : (hdr.ePhoff + BitVec.ofNat 32 (i * hdr.ePhentsize.toNat)).toNat =
        hdr.ePhoff.toNat + i * hdr.ePhentsize.toNat := Mem.toNat_add_ofNat (by omega)
    -- the seek succeeds and the header is read whole
    have hseek : h.seek (hdr.ePhoff + BitVec.ofNat 32 (i * hdr.ePhentsize.toNat)) =
        { h with pos := hdr.ePhoff.toNat + i * hdr.ePhentsize.toNat } := by
      rw [seek_of_lt h (by omega), hdist]
    have hread : (Handle.mk h.bytes (hdr.ePhoff.toNat + i * hdr.ePhentsize.toNat)).read
        hdr.ePhentsize.toNat =
        (file.drop (hdr.ePhoff.toNat + i * hdr.ePhentsize.toNat)).take hdr.ePhentsize.toNat := by
      rw [Handle.read, hbytes]
    have hphdr : ∀ buf, Phdr.ofBytes (overwrite buf
        ((file.drop (hdr.ePhoff.toNat + i * hdr.ePhentsize.toNat)).take hdr.ePhentsize.toNat)) =
        hdr.phdr file i := by
      intro buf
      apply ofBytes_overwrite _ _ _ h32
      rw [List.length_drop]
      omega
    rw [Elf32Hdr.rounds, hseek, hread, hphdr, List.range'_succ, List.map_cons]
    have hrest := ih (i + 1) (by rw [Nat.add_right_comm, Nat.add_assoc]; exact htable)
      (by rw [Nat.add_right_comm, Nat.add_assoc]; exact hreach)
      (fun k hik hk ↦ hoffset k (by omega) (by omega))
    rw [List.filter_cons, List.filter_cons]
    by_cases hload : (hdr.phdr file i).pType = PT_LOAD
    · rw [if_pos (by simpa using hload), if_pos (by simpa using hload), List.map_cons, hrest,
        seek_of_lt _ (hoffset i (by omega) (by omega) hload), Handle.read, Phdr.entry]
      · simp only [Handle.skip, hbytes]
      · rw [bytes_afterRound]
        exact hbytes
    · rw [if_neg (by simpa using hload), if_neg (by simpa using hload), hrest]
      rw [bytes_afterRound]
      exact hbytes

section Table

variable {host : Host} {r : Request}

theorem filter_entries (hwf : WellFormed r.hdr r.hImg.bytes r.base) :
    (r.entries host).filter (·.phdr.pType = PT_LOAD) =
      (r.hdr.segments r.hImg.bytes).map (Phdr.entry r.hImg.bytes) := by
  have htable := hwf.table
  have hreach := hwf.table_reached
  rw [Request.entries, filter_rounds hwf.phentsize _ 0 (by simpa using htable)
    (by simpa using hreach) _ _ rfl, ← List.range_eq_range', Elf32Hdr.segments]
  intro k _ hk hload
  apply hwf.offset_reached
  rw [Elf32Hdr.segments, List.mem_filter]
  exact ⟨List.mem_map.mpr ⟨k, by simpa using hk, rfl⟩, by simpa using hload⟩

/-- Only segments are stored. -/
theorem flatMap_patches_filter (base : DWORD) (es : List Entry) :
    es.flatMap (Entry.patches base) =
      (es.filter (·.phdr.pType = PT_LOAD)).flatMap (Entry.patches base) := by
  induction es with
  | nil => rfl
  | cons e es ih =>
    rw [List.flatMap_cons, List.filter_cons, ih]
    by_cases hload : e.phdr.pType = PT_LOAD
    · rw [if_pos (by simpa using hload), List.flatMap_cons]
    · rw [if_neg (by simpa using hload), Entry.patches, if_neg hload, List.nil_append]

theorem ownPatches_eq (hwf : WellFormed r.hdr r.hImg.bytes r.base) :
    r.ownPatches host = (r.hdr.segments r.hImg.bytes).flatMap
      (fun p ↦ (p.entry r.hImg.bytes).patches r.base) := by
  rw [Request.ownPatches, flatMap_patches_filter, filter_entries hwf, List.flatMap_map]

theorem accepted_of_mem {hdr : Elf32Hdr} {base : DWORD} {allocs : List MemoryAlloc}
    {es : List Entry} (h : AllAccepted host hdr base allocs es) {e : Entry} (he : e ∈ es) :
    ∃ allocs', e.Accepted host hdr base allocs' := by
  induction es generalizing allocs with
  | nil => simp at he
  | cons e' es ih =>
    rcases List.mem_cons.mp he with rfl | he
    · exact ⟨allocs, h.1⟩
    · exact ih h.2 he

/-- An accepted segment was read whole. -/
theorem length_payload (hwf : WellFormed r.hdr r.hImg.bytes r.base)
    (hacc : AllAccepted host r.hdr r.base r.allocations (r.entries host)) {p : Phdr}
    (hp : p ∈ r.hdr.segments r.hImg.bytes) :
    (p.entry r.hImg.bytes).payload.length = p.pFilesz.toNat := by
  have hmem : p.entry r.hImg.bytes ∈ (r.entries host).filter (·.phdr.pType = PT_LOAD) := by
    rw [filter_entries hwf]
    exact List.mem_map.mpr ⟨p, hp, rfl⟩
  obtain ⟨hmem, hload⟩ := List.mem_filter.mp hmem
  obtain ⟨_, _, _, hseg⟩ := accepted_of_mem hacc hmem
  rcases (hseg (by simpa using hload)).2 with hzero | hlen
  · have hzero : p.pFilesz = 0#32 := hzero
    simp [Phdr.entry, hzero]
  · exact hlen

end Table

/-! ## The last store on a byte -/

/-- Byte `i` of a segment whose file part was read whole. -/
theorem byteAt_payload {file : List UInt8} {p : Phdr} (base : DWORD) {i : Nat}
    (hlen : (p.entry file).payload.length = p.pFilesz.toNat) (hi : i < 2 ^ 32) :
    Patch.byteAt ⟨p.wantMem base, (p.entry file).payload⟩
        (base + p.pVaddr + BitVec.ofNat 32 i) =
      if i < p.pFilesz.toNat then some (p.imageByte file i) else none := by
  have hoff : (base + p.pVaddr + BitVec.ofNat 32 i - p.wantMem base).toNat = i := by
    rw [Phdr.wantMem, BitVec.add_comm base, BitVec.add_comm (p.pVaddr + base),
      BitVec.add_sub_cancel, BitVec.toNat_ofNat, Nat.mod_eq_of_lt hi]
  rw [Patch.byteAt, hoff]
  by_cases hif : i < p.pFilesz.toNat
  · have hfile : i < file.length - p.pOffset.toNat := by
      rw [Phdr.entry, List.length_take, List.length_drop] at hlen
      omega
    rw [if_pos hif, Phdr.imageByte, if_pos hif, Phdr.entry, List.getElem?_take_of_lt hif,
      List.getElem?_drop, List.getD_eq_getElem?_getD, List.getElem?_eq_getElem (by omega),
      Option.getD_some]
  · have hle : (p.entry file).payload.length ≤ i := by omega
    rw [if_neg hif, List.getElem?_eq_none hle]

theorem patches_entry (file : List UInt8) (base : DWORD) {p : Phdr} (h : p.pType = PT_LOAD) :
    (p.entry file).patches base =
      [⟨p.alignedMem base, List.replicate (p.alignedSize base).toInt.toNat 0⟩,
        ⟨p.wantMem base, (p.entry file).payload⟩] := if_pos h

/-- Segments that do not store on a byte can only zero it. -/
theorem lastByte_zeroes {file : List UInt8} {base x : DWORD} {qs : List Phdr}
    (hload : ∀ q ∈ qs, q.pType = PT_LOAD)
    (hmiss : ∀ q ∈ qs, Patch.byteAt ⟨q.wantMem base, (q.entry file).payload⟩ x = none) :
    Patch.lastByte (qs.flatMap (fun q ↦ (q.entry file).patches base)) x =
      if ∃ q ∈ qs, q.Zeroes base x then some 0 else none := by
  induction qs with
  | nil => simp
  | cons q qs ih =>
    have hq : Patch.lastByte ((q.entry file).patches base) x =
        if q.Zeroes base x then some 0 else none := by
      rw [patches_entry file base (hload q (by simp)), Patch.lastByte_cons, Patch.lastByte_cons,
        hmiss q (by simp), Patch.lastByte_nil,
        Option.or_none, Option.none_or, Patch.byteAt_replicate]
      rfl
    rw [List.flatMap_cons, Patch.lastByte_append, hq,
      ih (fun q hq ↦ hload q (by simp [hq])) (fun q hq ↦ hmiss q (by simp [hq]))]
    by_cases hz : q.Zeroes base x
    · by_cases hzs : ∃ q ∈ qs, q.Zeroes base x <;> simp [hz, hzs]
    · by_cases hzs : ∃ q ∈ qs, q.Zeroes base x <;> simp [hz, hzs]

theorem toNat_imageAddr {base vaddr : DWORD} {i : Nat} (h : base.toNat + vaddr.toNat + i < 2 ^ 32) :
    (base + vaddr + BitVec.ofNat 32 i).toNat = base.toNat + vaddr.toNat + i := by
  have hsum : (base + vaddr).toNat = base.toNat + vaddr.toNat :=
    BitVec.toNat_add_of_lt (by omega)
  rw [Mem.toNat_add_ofNat (by omega), hsum]

/-- The file part of one segment misses the bytes of another. -/
theorem byteAt_eq_none_of_disjoint {file : List UInt8} {base : DWORD} {p q : Phdr} {i : Nat}
    (hlen : (q.entry file).payload.length = q.pFilesz.toNat)
    (hfilesz : q.pFilesz.toNat ≤ q.pMemsz.toNat)
    (hp : base.toNat + p.pVaddr.toNat + p.pMemsz.toNat ≤ 2 ^ 32)
    (hq : base.toNat + q.pVaddr.toNat + q.pMemsz.toNat ≤ 2 ^ 32)
    (hdisj : ∀ a, p.Contains a → ¬q.Contains a) (hi : i < p.pMemsz.toNat) :
    Patch.byteAt ⟨q.wantMem base, (q.entry file).payload⟩
      (base + p.pVaddr + BitVec.ofNat 32 i) = none := by
  have hx := toNat_imageAddr (show base.toNat + p.pVaddr.toNat + i < 2 ^ 32 by omega)
  have hout := hdisj (p.pVaddr.toNat + i) ⟨by omega, by omega⟩
  rw [Phdr.Contains, not_and_or] at hout
  have hfar : q.pFilesz.toNat ≤ (base + p.pVaddr + BitVec.ofNat 32 i - q.wantMem base).toNat := by
    by_cases hzero : q.pMemsz.toNat = 0
    · omega
    have hwant : (q.wantMem base).toNat = base.toNat + q.pVaddr.toNat := by
      rw [Phdr.wantMem, BitVec.toNat_add, Nat.mod_eq_of_lt (by omega), Nat.add_comm]
    by_cases hbelow : p.pVaddr.toNat + i < q.pVaddr.toNat
    · rw [Mem.toNat_sub_of_lt (by omega)]
      omega
    · rw [Mem.toNat_sub_of_le (by omega)]
      omega
  rw [← hlen] at hfar
  exact List.getElem?_eq_none hfar

/-- The last store of the image itself on a byte of a segment. -/
theorem lastByte_ownPatches {host : Host} {r : Request}
    (hwf : WellFormed r.hdr r.hImg.bytes r.base)
    (hacc : AllAccepted host r.hdr r.base r.allocations (r.entries host))
    {before after : List Phdr} {p : Phdr}
    (hsplit : r.hdr.segments r.hImg.bytes = before ++ p :: after) {i : Nat}
    (hi : i < p.pMemsz.toNat) :
    Patch.lastByte (r.ownPatches host) (r.base + p.pVaddr + BitVec.ofNat 32 i) =
      if i < p.pFilesz.toNat then
        if ∃ q ∈ after, q.Zeroes r.base (r.base + p.pVaddr + BitVec.ofNat 32 i) then some 0
        else some (p.imageByte r.hImg.bytes i)
      else if ∃ q ∈ r.hdr.segments r.hImg.bytes,
          q.Zeroes r.base (r.base + p.pVaddr + BitVec.ofNat 32 i) then some 0
      else none := by
  have hload : ∀ q ∈ r.hdr.segments r.hImg.bytes, q.pType = PT_LOAD := by
    intro q hq
    simpa using (List.mem_filter.mp hq).2
  have hp : p ∈ r.hdr.segments r.hImg.bytes := by simp [hsplit]
  have hown := byteAt_payload r.base (length_payload hwf hacc hp) (by omega : i < 2 ^ 32)
  have hdisj := hwf.disjoint
  rw [hsplit, List.pairwise_append, List.pairwise_cons] at hdisj
  have hother : ∀ q ∈ r.hdr.segments r.hImg.bytes, (∀ a, p.Contains a → ¬q.Contains a) →
      Patch.byteAt ⟨q.wantMem r.base, (q.entry r.hImg.bytes).payload⟩
        (r.base + p.pVaddr + BitVec.ofNat 32 i) = none := by
    intro q hq hpq
    exact byteAt_eq_none_of_disjoint (length_payload hwf hacc hq) (hwf.filesz_le q hq)
      (hwf.no_wrap p hp) (hwf.no_wrap q hq) hpq hi
  have hafter : ∀ q ∈ after, Patch.byteAt ⟨q.wantMem r.base, (q.entry r.hImg.bytes).payload⟩
      (r.base + p.pVaddr + BitVec.ofNat 32 i) = none :=
    fun q hq ↦ hother q (by simp [hsplit, hq]) (hdisj.2.1.1 q hq)
  have hbefore : ∀ q ∈ before, Patch.byteAt ⟨q.wantMem r.base, (q.entry r.hImg.bytes).payload⟩
      (r.base + p.pVaddr + BitVec.ofNat 32 i) = none :=
    fun q hq ↦ hother q (by simp [hsplit, hq])
      (fun a hpa hqa ↦ hdisj.2.2 q hq p (by simp) a hqa hpa)
  by_cases hif : i < p.pFilesz.toNat
  · rw [if_pos hif] at hown ⊢
    have hstore : Patch.lastByte ((p.entry r.hImg.bytes).patches r.base)
        (r.base + p.pVaddr + BitVec.ofNat 32 i) = some (p.imageByte r.hImg.bytes i) := by
      rw [patches_entry _ _ (hload p hp), Patch.lastByte_cons, Patch.lastByte_cons, hown,
        Patch.lastByte_nil, Option.none_or, Option.some_or]
    rw [ownPatches_eq hwf, hsplit, List.flatMap_append, List.flatMap_cons,
      Patch.lastByte_append, Patch.lastByte_append, hstore,
      lastByte_zeroes (fun q hq ↦ hload q (by simp [hsplit, hq])) hafter]
    split <;> rfl
  · rw [if_neg hif] at hown ⊢
    rw [ownPatches_eq hwf, lastByte_zeroes hload]
    intro q hq
    rw [hsplit, List.mem_append, List.mem_cons] at hq
    rcases hq with hq | rfl | hq
    · exact hbefore q hq
    · exact hown
    · exact hafter q hq

/-! ## The image -/

theorem eq_imageByte_iff {host : Host} {depth : Nat} {r : Request} {mem : UserMem}
    (hwf : WellFormed r.hdr r.hImg.bytes r.base)
    (hacc : AllAccepted host r.hdr r.base r.allocations (r.entries host))
    {before after : List Phdr} {p : Phdr}
    (hsplit : r.hdr.segments r.hImg.bytes = before ++ p :: after) {i : Nat}
    (hi : i < p.pMemsz.toNat) :
    mem.patch (r.patches host (depth + 1)) (r.base + p.pVaddr + BitVec.ofNat 32 i) =
        p.imageByte r.hImg.bytes i ↔ UnspoiledAt host depth r mem p after i := by
  rw [patches_succ, Mem.patch_append, Mem.patch_apply, Mem.patch_apply,
    lastByte_ownPatches hwf hacc hsplit hi, UnspoiledAt]
  cases Patch.lastByte (r.interpreterPatches host depth)
      (r.base + p.pVaddr + BitVec.ofNat 32 i) with
  | some b => rfl
  | none =>
    rw [Option.getD_none]
    by_cases hif : i < p.pFilesz.toNat
    · simp only [if_pos hif]
      by_cases hz : ∃ q ∈ after, q.Zeroes r.base (r.base + p.pVaddr + BitVec.ofNat 32 i)
      · have hnot : ¬∀ q ∈ after, ¬q.Zeroes r.base (r.base + p.pVaddr + BitVec.ofNat 32 i) := by
          obtain ⟨q, hq, hqz⟩ := hz
          exact fun hall ↦ hall q hq hqz
        rw [if_pos hz, Option.getD_some, or_iff_left hnot]
        exact eq_comm
      · have hall : ∀ q ∈ after, ¬q.Zeroes r.base (r.base + p.pVaddr + BitVec.ofNat 32 i) :=
          fun q hq hqz ↦ hz ⟨q, hq, hqz⟩
        rw [if_neg hz, Option.getD_some]
        exact ⟨fun _ ↦ .inr hall, fun _ ↦ rfl⟩
    · have hzero : p.imageByte r.hImg.bytes i = 0 := by rw [Phdr.imageByte, if_neg hif]
      simp only [if_neg hif, hzero]
      split
      · next hz => exact ⟨fun _ ↦ .inr hz, fun _ ↦ rfl⟩
      · next hz => rw [Option.getD_none, or_iff_left hz]

/-- When `LoadElfImage` returns 0, the segments of a sound file stand in memory exactly if none
of their bytes is spoiled. -/
theorem loadElfImage_holdsImage_iff (host : Host) (fuel : Nat) (hImg : Handle) (hdr : Elf32Hdr)
    (library : Bool) (t t' : Task)
    (hwf : WellFormed hdr hImg.bytes (t.request hImg hdr library).base)
    (hrun : loadElfImage host (fuel + 1) hImg hdr library t = .ok 0#32 t') :
    HoldsImage hdr hImg.bytes (t.request hImg hdr library).base t'.world.mem ↔
      Unspoiled host fuel (t.request hImg hdr library) t.world.mem := by
  obtain ⟨⟨_, _, hacc, _⟩, hloaded⟩ := loaded_of_eq_zero hrun
  rw [hloaded.mem]
  constructor
  · intro himage before p after hsplit i hi
    rw [← eq_imageByte_iff hwf hacc hsplit hi]
    have hp : p ∈ hdr.segments hImg.bytes := by
      rw [show hdr.segments hImg.bytes = before ++ p :: after from hsplit]
      simp
    exact himage p hp i hi
  · intro hunspoiled p hp i hi
    obtain ⟨before, after, hsplit⟩ := List.append_of_mem hp
    exact (eq_imageByte_iff hwf hacc hsplit hi).mpr (hunspoiled before p after hsplit i hi)

/-! ## Segments on pages of their own -/

/-- The start of a segment is rounded down by what it exceeds its alignment. -/
theorem toNat_alignedMem {p : Phdr} (base : DWORD) {k : Nat} (h : p.pAlign.toNat = 2 ^ k) :
    (p.alignedMem base).toNat = (p.wantMem base).toNat - (p.wantMem base).toNat % 2 ^ k := by
  unfold Phdr.alignedMem
  split
  · exact toNat_and_not_sub_one _ _ h
  · next hle =>
    have hle : ¬1 < p.pAlign.toNat := hle
    have hone : 2 ^ k = 1 := by
      have := Nat.two_pow_pos k
      omega
    rw [hone, Nat.mod_one, Nat.sub_zero]

/-- The length covers the segment and what its start was rounded down by. -/
theorem le_alignedSize {p : Phdr} (base : DWORD) {k : Nat} (h : p.pAlign.toNat = 2 ^ k)
    (hsize : p.pMemsz.toNat + (p.wantMem base).toNat % 2 ^ k + 2 ^ k ≤ 2 ^ 31) :
    p.pMemsz.toNat + (p.wantMem base).toNat % 2 ^ k ≤ (p.alignedSize base).toNat ∧
      (p.alignedSize base).toNat < 2 ^ 31 := by
  have hpos := Nat.two_pow_pos k
  have hdown := toNat_alignedMem base h
  have hmod := Nat.mod_le (p.wantMem base).toNat (2 ^ k)
  unfold Phdr.alignedSize
  split
  · next hgt =>
    have hgap : (p.wantMem base - p.alignedMem base).toNat =
        (p.wantMem base).toNat % 2 ^ k := by
      rw [Mem.toNat_sub_of_le (by omega)]
      omega
    have hmask : (p.pAlign - 1#32).toNat = 2 ^ k - 1 := by
      rw [Mem.toNat_sub_of_le (by rw [h]; exact hpos), h]
      rfl
    have hsum : (p.pMemsz + (p.wantMem base - p.alignedMem base) + (p.pAlign - 1#32)).toNat =
        p.pMemsz.toNat + (p.wantMem base).toNat % 2 ^ k + (2 ^ k - 1) := by
      rw [BitVec.toNat_add, BitVec.toNat_add, hgap, hmask,
        Nat.mod_eq_of_lt (a := p.pMemsz.toNat + _) (by omega), Nat.mod_eq_of_lt (by omega)]
    have hlow := Nat.mod_lt (p.pMemsz.toNat + (p.wantMem base).toNat % 2 ^ k + (2 ^ k - 1)) hpos
    rw [toNat_and_not_sub_one _ _ h, hsum]
    omega
  · next hle =>
    have hle : ¬1 < p.pAlign.toNat := hle
    have hone : 2 ^ k = 1 := by omega
    rw [hone, Nat.mod_one] at hsize ⊢
    omega

/-- A segment whose length stays positive as an `int` is zeroed whole. -/
theorem zeroes_self {p : Phdr} {base : DWORD} {k i : Nat} (h : p.pAlign.toNat = 2 ^ k)
    (hwrap : base.toNat + p.pVaddr.toNat + p.pMemsz.toNat ≤ 2 ^ 32)
    (hsize : p.pMemsz.toNat + (p.wantMem base).toNat % 2 ^ k + 2 ^ k ≤ 2 ^ 31)
    (hi : i < p.pMemsz.toNat) : p.Zeroes base (base + p.pVaddr + BitVec.ofNat 32 i) := by
  have hdown := toNat_alignedMem base h
  have hmod := Nat.mod_le (p.wantMem base).toNat (2 ^ k)
  obtain ⟨hlen, hsmall⟩ := le_alignedSize base h hsize
  have hwant : (p.wantMem base).toNat = base.toNat + p.pVaddr.toNat := by
    rw [Phdr.wantMem, BitVec.toNat_add, Nat.mod_eq_of_lt (by omega), Nat.add_comm]
  have hx := toNat_imageAddr (show base.toNat + p.pVaddr.toNat + i < 2 ^ 32 by omega)
  rw [Phdr.Zeroes, BitVec.toInt_eq_toNat_of_lt (by omega), Int.toNat_natCast,
    Mem.toNat_sub_of_le (by omega)]
  omega

/-- A statically linked file is loaded right when its widened segments are below `2 ^ 31` bytes
and none of them reaches into the file part of an earlier one. -/
theorem unspoiled_of_apart {host : Host} {depth : Nat} {r : Request} {mem : UserMem}
    (hwf : WellFormed r.hdr r.hImg.bytes r.base)
    (hstatic : r.interpreterName host = some [])
    (hsize : ∀ p ∈ r.hdr.segments r.hImg.bytes,
      p.pMemsz.toNat + (p.wantMem r.base).toNat % p.pAlign.toNat + p.pAlign.toNat ≤ 2 ^ 31)
    (hapart : (r.hdr.segments r.hImg.bytes).Pairwise (fun p q ↦ ∀ i < p.pFilesz.toNat,
      ¬q.Zeroes r.base (r.base + p.pVaddr + BitVec.ofNat 32 i))) :
    Unspoiled host depth r mem := by
  intro before p after hsplit i hi
  have hp : p ∈ r.hdr.segments r.hImg.bytes := by simp [hsplit]
  rw [hsplit, List.pairwise_append, List.pairwise_cons] at hapart
  rw [UnspoiledAt, Request.interpreterPatches, hstatic, Patch.lastByte_nil]
  by_cases hif : i < p.pFilesz.toNat
  · rw [if_pos hif]
    exact .inr (fun q hq ↦ hapart.2.1.1 q hq i hif)
  · obtain ⟨k, hk⟩ := hwf.align p hp
    have hsize := hsize p hp
    rw [hk] at hsize
    rw [if_neg hif]
    exact .inr ⟨p, hp, zeroes_self hk (hwf.no_wrap p hp) hsize hi⟩

/-! ## Two segments on one page -/

/-- The bytes of a program header. -/
def Phdr.toBytes (p : Phdr) : List UInt8 :=
  [p.pType, p.pOffset, p.pVaddr, p.pVaddr, p.pFilesz, p.pMemsz, 7#32, p.pAlign].flatMap
    (fun w ↦ natBytes 4 w.toNat)

/-- An executable for the i386: header, program headers, data. -/
def executable (entry : DWORD) (phdrs : List Phdr) (data : List UInt8) : List UInt8 :=
  [0x7F, 0x45, 0x4C, 0x46, 1, 1, 1, 0, 0, 0, 0, 0, 0, 0, 0, 0] ++ natBytes 2 2 ++ natBytes 2 3 ++
    natBytes 4 1 ++ natBytes 4 entry.toNat ++ natBytes 4 52 ++ natBytes 4 0 ++ natBytes 4 0 ++
    natBytes 2 52 ++ natBytes 2 32 ++ natBytes 2 phdrs.length ++ natBytes 2 0 ++ natBytes 2 0 ++
    natBytes 2 0 ++ phdrs.flatMap Phdr.toBytes ++ data

/-- A host with the given files and every address free. -/
def freeHost (files : Str → Option (List UInt8)) : Host where
  createFile path := ((files path).map Except.ok).getD (.error 2#32)
  allocateMem _ addr _ := addr
  virtualFree mem _ _ := mem
  uninitialised n := List.replicate n 0
  createFile_error := by
    intro path err h
    cases hf : files path with
    | none =>
      rw [hf] at h
      cases h
      decide
    | some bytes =>
      rw [hf] at h
      cases h
  length_uninitialised n := List.length_replicate

/-- A process that has not been given an image yet. -/
def freshTask : Task where
  world := loneWorld []

/-- One byte of code. -/
def codeSegment : Phdr := ⟨PT_LOAD, 116#32, 0x08048000#32, 1#32, 1#32, 0x1000#32⟩

/-- One byte of data and two zeros. -/
def dataSegment (vaddr : DWORD) : Phdr := ⟨PT_LOAD, 117#32, vaddr, 1#32, 3#32, 0x1000#32⟩

/-- A program of these two segments. -/
def twoSegments (vaddr : DWORD) : List UInt8 :=
  executable 0x08048000#32 [codeSegment, dataSegment vaddr] [0x90, 0x55]

/-- The request to load it in a fresh process. -/
def twoSegmentsRequest (vaddr : DWORD) : Request :=
  freshTask.request ⟨twoSegments vaddr, 0⟩ (Elf32Hdr.ofBytes (twoSegments vaddr)) false

/-- The data half a page behind the code. -/
def samePage : DWORD := 0x08048800#32

/-- The data on the page behind the code. -/
def nextPage : DWORD := 0x08049800#32

theorem segments_twoSegments {vaddr : DWORD} (h : vaddr = samePage ∨ vaddr = nextPage) :
    (twoSegmentsRequest vaddr).hdr.segments (twoSegmentsRequest vaddr).hImg.bytes =
      [codeSegment, dataSegment vaddr] := by
  rcases h with rfl | rfl <;> decide +kernel

theorem wellFormed_twoSegments {vaddr : DWORD} (h : vaddr = samePage ∨ vaddr = nextPage) :
    WellFormed (twoSegmentsRequest vaddr).hdr (twoSegmentsRequest vaddr).hImg.bytes
      (twoSegmentsRequest vaddr).base where
  phentsize := by rcases h with rfl | rfl <;> decide +kernel
  table := by rcases h with rfl | rfl <;> decide +kernel
  table_reached := by rcases h with rfl | rfl <;> decide +kernel
  offset_reached := by rcases h with rfl | rfl <;> decide +kernel
  filesz_le := by rcases h with rfl | rfl <;> decide +kernel
  align := by
    rw [segments_twoSegments h]
    simp only [List.mem_cons, List.not_mem_nil, or_false, forall_eq_or_imp, forall_eq]
    exact ⟨⟨12, rfl⟩, ⟨12, rfl⟩⟩
  no_wrap := by rcases h with rfl | rfl <;> decide +kernel
  disjoint := by
    have hbehind : 0x08048001 ≤ vaddr.toNat := by rcases h with rfl | rfl <;> decide
    rw [segments_twoSegments h, List.pairwise_pair]
    rintro a ⟨_, hlt⟩ ⟨hle, _⟩
    have hlt : a < 0x08048001 := hlt
    have hle : vaddr.toNat ≤ a := hle
    omega

/-- Either program is loaded without complaint. -/
theorem exists_loaded_twoSegments {vaddr : DWORD} (h : vaddr = samePage ∨ vaddr = nextPage) :
    ∃ t', loadElfImage (freeHost fun _ ↦ none) 1 (twoSegmentsRequest vaddr).hImg
      (twoSegmentsRequest vaddr).hdr false freshTask = .ok 0#32 t' := by
  have hloadable : Loadable (freeHost fun _ ↦ none) 1 (twoSegmentsRequest vaddr) := by
    refine ⟨?_, ?_, ?_, .inl ?_⟩ <;> rcases h with rfl | rfl <;> decide +kernel
  exact exists_eq_zero_of_loadable hloadable

/-- On one page, the zero fill of the data wipes out the code in front of it. -/
theorem code_before_data_wiped :
    WellFormed (twoSegmentsRequest samePage).hdr (twoSegmentsRequest samePage).hImg.bytes
      (twoSegmentsRequest samePage).base ∧
    ∃ t', loadElfImage (freeHost fun _ ↦ none) 1 (twoSegmentsRequest samePage).hImg
        (twoSegmentsRequest samePage).hdr false freshTask = .ok 0#32 t' ∧
      ¬HoldsImage (twoSegmentsRequest samePage).hdr (twoSegmentsRequest samePage).hImg.bytes
        (twoSegmentsRequest samePage).base t'.world.mem := by
  have hwf := @wellFormed_twoSegments samePage (.inl rfl)
  obtain ⟨t', hrun⟩ := @exists_loaded_twoSegments samePage (.inl rfl)
  obtain ⟨⟨_, _, hacc, _⟩, hloaded⟩ := loaded_of_eq_zero hrun
  refine ⟨hwf, t', hrun, fun himage ↦ ?_⟩
  rw [hloaded.mem] at himage
  have hsplit : (twoSegmentsRequest samePage).hdr.segments
      (twoSegmentsRequest samePage).hImg.bytes = [] ++ codeSegment :: [dataSegment samePage] :=
    segments_twoSegments (.inl rfl)
  have hcode : codeSegment ∈ (twoSegmentsRequest samePage).hdr.segments
      (twoSegmentsRequest samePage).hImg.bytes := by
    rw [hsplit]
    exact List.mem_cons_self
  have hspoiled := (eq_imageByte_iff hwf hacc hsplit (by decide)).mp
    (himage codeSegment hcode 0 (by decide))
  revert hspoiled
  decide +kernel

/-- On pages of their own, both stand in memory. -/
theorem loadElfImage_holdsImage_nextPage :
    ∃ t', loadElfImage (freeHost fun _ ↦ none) 1 (twoSegmentsRequest nextPage).hImg
        (twoSegmentsRequest nextPage).hdr false freshTask = .ok 0#32 t' ∧
      HoldsImage (twoSegmentsRequest nextPage).hdr (twoSegmentsRequest nextPage).hImg.bytes
        (twoSegmentsRequest nextPage).base t'.world.mem := by
  have hwf := @wellFormed_twoSegments nextPage (.inr rfl)
  obtain ⟨t', hrun⟩ := @exists_loaded_twoSegments nextPage (.inr rfl)
  have hunspoiled : Unspoiled (freeHost fun _ ↦ none) 0 (twoSegmentsRequest nextPage)
      freshTask.world.mem := by
    have hstatic : (twoSegmentsRequest nextPage).interpreterName (freeHost fun _ ↦ none) =
        some [] := by
      decide +kernel
    apply unspoiled_of_apart (r := twoSegmentsRequest nextPage) hwf hstatic
    · decide +kernel
    · rw [segments_twoSegments (.inr rfl), List.pairwise_pair]
      decide +kernel
  exact ⟨t', hrun, (loadElfImage_holdsImage_iff _ 0 _ _ _ _ _ hwf hrun).mpr hunspoiled⟩

end Keow.Exec
