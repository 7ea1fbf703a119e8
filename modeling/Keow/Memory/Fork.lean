import Keow.Base.Comp
import Keow.Memory.Process

/-!
# The memory of a forked process

The child is a new stub without records. `Process::ForkCopyOtherProcess` allocates for it what
is recorded for the parent and transfers the contents record by record.
-/

namespace Keow.Memory

open Keow.Base Keow.Kernel
open Keow.Exec (MemoryAlloc PAGE_EXECUTE_READWRITE recordAlloc)

/-- What the copy relies on. `buf` is where the buffer of `TransferMemory` lies. -/
structure CopyHost extends Host where
  copier : Copier
  buf : DWORD

/-- The loop over the records of the other process, `Process.cpp:813–823`: the child and the
memory of the kernel afterwards. `none` when an allocation does not return. -/
def copyAllocations (host : CopyHost) (other : Remote) :
    List MemoryAlloc → MemoryState → UserMem → Option (MemoryState × UserMem)
  | [], m, kernel => some (m, kernel)
  | r :: rs, m, kernel =>
      match allocateMemAndProtect host.toHost m r.addr r.len r.prot with
      | none => none
      | some (p, m) =>
          let ends := transferMemory host.copier host.buf other r.addr p r.len.toInt
            ⟨m.remote, kernel⟩ 0
          copyAllocations host other rs { m with remote := ends.remote } ends.kernel

/-- `Process::ForkCopyOtherProcess` on the memory of the child, `Process.cpp:779–845`. A mapping
of the parent runs into a `DebugBreak` after the records have been copied. -/
def forkCopyOtherProcess (host : CopyHost) (other : MemoryState) (kernel : UserMem) :
    Comp MemoryState Unit := fun m ↦
  match copyAllocations host other.remote other.memoryAllocations { m with brk := other.brk }
    kernel with
  | none => .wait m
  | some (m, _) => if other.mmapList = [] then .ok () m else .fault m

/-- Every allocation in the child succeeds: it returns an address, and the range is committed
there with the access that was asked for. -/
def AllocationsSucceed (host : Host) : Space → List MemoryAlloc → Prop
  | _, [] => True
  | s, r :: rs =>
      match host.allocate s r.addr r.len with
      | none => False
      | some (p, s') =>
          p ≠ -1#32 ∧ Accessible .write s' p r.len.toNat ∧ AllocationsSucceed host s' rs

instance decidableAllocationsSucceed (host : Host) :
    (s : Space) → (rs : List MemoryAlloc) → Decidable (AllocationsSucceed host s rs)
  | _, [] => isTrue trivial
  | s, r :: rs =>
      match h : host.allocate s r.addr r.len with
      | none => isFalse (by simp [AllocationsSucceed, h])
      | some (p, s') =>
          have := decidableAllocationsSucceed host s' rs
          decidable_of_iff
            (p ≠ -1#32 ∧ Accessible .write s' p r.len.toNat ∧ AllocationsSucceed host s' rs)
            (by simp [AllocationsSucceed, h])

/-- The child has the bytes of the other process at every address the records cover. -/
def Cloned (other child : Remote) (rs : List MemoryAlloc) : Prop :=
  ∀ r ∈ rs, ∀ a : DWORD, r.Covers a.toNat → child.mem a = other.mem a

/-- The recorded ranges are committed and can be read. -/
def RangesReadable (m : MemoryState) : Prop :=
  ∀ r ∈ m.memoryAllocations, Accessible .read m.remote.space r.addr r.len.toNat

instance (m : MemoryState) : Decidable (RangesReadable m) :=
  inferInstanceAs (Decidable (∀ r ∈ m.memoryAllocations, _))

theorem allocationsSucceed_cons {host : Host} {s : Space} {r : MemoryAlloc}
    {rs : List MemoryAlloc} : AllocationsSucceed host s (r :: rs) ↔
      ∃ p s', host.allocate s r.addr r.len = some (p, s') ∧ p ≠ -1#32 ∧
        Accessible .write s' p r.len.toNat ∧ AllocationsSucceed host s' rs := by
  rw [AllocationsSucceed]
  cases host.allocate s r.addr r.len with
  | none => simp
  | some q =>
    constructor
    · exact fun h ↦ ⟨q.1, q.2, rfl, h⟩
    · rintro ⟨p, s', hq, h⟩
      cases hq
      exact h

/-! ## One record -/

/-- An empty allocation without an address stays without one. -/
theorem allocate_zero_addr {host : Host} {s s' : Space} {p : DWORD}
    (h : host.allocate s 0#32 0#32 = some (p, s')) : p = -1#32 ∨ p = 0#32 := by
  have hplace : host.windows.place s 0 = 0 := by
    by_contra hp
    exact (host.windows.place_le s 0 hp).1 rfl
  exact allocate_unplaced h hplace

/-- An allocation for a record that can be read is at the address of the record. -/
theorem allocate_record_addr {host : Host} {s s' other : Space} {p : DWORD} {r : MemoryAlloc}
    (hread : Accessible .read other r.addr r.len.toNat)
    (h : host.allocate s r.addr r.len = some (p, s')) (hok : p ≠ -1#32) : p = r.addr := by
  by_cases hz : r.addr = 0#32
  · have hlen : r.len = 0#32 := by
      by_contra hne
      have hpos : 0 < r.len.toNat := Nat.pos_of_ne_zero fun h ↦ hne (BitVec.eq_of_toNat_eq h)
      have hzero : r.addr.toNat = 0 := by rw [hz]; rfl
      have hc := hread.committed (a := 0) (by omega) (by omega)
      exact Page.ne_free_of_state_commit hc (other.outside 0 (.inl (by decide)))
    rw [hz, hlen] at h
    rw [hz]
    exact (allocate_zero_addr h).resolve_left hok
  · exact (allocate_addr h hz).resolve_left hok

/-- The transfer of a record puts the bytes of the other process into its range and leaves the
rest of the child alone. -/
theorem mem_transfer_record (c : Copier) (buf : DWORD) {other : Remote} (child : Remote)
    (kernel : UserMem) {r : MemoryAlloc}
    (hread : Accessible .read other.space r.addr r.len.toNat)
    (hwrite : Accessible .write child.space r.addr r.len.toNat) :
    ∃ mem, (transferMemory c buf other r.addr r.addr r.len.toInt ⟨child, kernel⟩ 0).remote =
        child.setMem mem ∧
      ∀ x : DWORD, (r.Covers x.toNat → mem x = other.mem x) ∧
        (¬r.Covers x.toNat → mem x = child.mem x) := by
  have hlen : r.len.toInt = r.len.toNat := by
    by_cases hpos : 0 < r.len.toNat
    · have hle := hread.add_le hpos
      unfold userPages at hle
      rw [BitVec.toInt_eq_toNat_of_lt (by omega)]
    · rw [BitVec.toInt_eq_toNat_of_lt (by omega)]
  have hcopy := transferMemory_eq c buf other (m := ⟨child, kernel⟩) hread hwrite 0
  rw [← hlen] at hcopy
  refine ⟨_, hcopy, fun x ↦ ⟨fun hx ↦ ?_, fun hx ↦ ?_⟩⟩
  · simp only [BitVec.add_zero, Nat.sub_zero]
    rw [Mem.write_read_apply _ _ hx.1 hx.2, BitVec.add_comm, BitVec.sub_add_cancel]
  · simp only [BitVec.add_zero, Nat.sub_zero]
    rcases Nat.lt_or_ge x.toNat r.addr.toNat with hlow | hhigh
    · apply Mem.write_below _ _ _ _ _ hlow
      rw [Mem.length_read]
      have hle := hread.add_le
      have hlt := r.addr.isLt
      unfold userPages at hle
      omega
    · apply Mem.write_above
      rw [Mem.length_read]
      by_contra hlt
      exact hx ⟨hhigh, by omega⟩

/-! ## All records -/

theorem Accessible.of_grows {s s' : Space} (h : s.Grows s') {addr : DWORD} {len : Nat}
    (ha : Accessible .write s addr len) : Accessible .write s' addr len :=
  fun a hlow hlast ↦ h.writable _ (ha a hlow hlast)

theorem committed_of_covers {s : Space} {r : MemoryAlloc} {rw : ReadWrite}
    (h : Accessible rw s r.addr r.len.toNat) {a : Nat} (ha : r.Covers a) : s.Committed a :=
  h.committed ha.1 ha.2

/-- The records copied so far are writable in the child and hold the bytes of the other
process, and the remaining ones keep it that way. -/
theorem copyAllocations_spec (host : CopyHost) (other : Remote) (rs : List MemoryAlloc)
    (m : MemoryState) (kernel : UserMem) (copied : List MemoryAlloc)
    (hread : ∀ r ∈ rs, Accessible .read other.space r.addr r.len.toNat)
    (halloc : AllocationsSucceed host.toHost m.remote.space rs)
    (hwritable : ∀ r ∈ copied, Accessible .write m.remote.space r.addr r.len.toNat)
    (hcopied : Cloned other m.remote copied) :
    ∃ m' kernel', copyAllocations host other rs m kernel = some (m', kernel') ∧
      m'.memoryAllocations = m.memoryAllocations ++ rs ∧
      Cloned other m'.remote (copied ++ rs) := by
  induction rs generalizing m kernel copied with
  | nil => exact ⟨m, kernel, rfl, by simp, by simpa using hcopied⟩
  | cons r rs ih =>
    obtain ⟨p, s', hcall, hok, hwrite, hrest⟩ := allocationsSucceed_cons.mp halloc
    have hr := hread r List.mem_cons_self
    obtain rfl := allocate_record_addr hr hcall hok
    have hgrows := grows_allocate hcall
    obtain ⟨mem, hremote, hmem⟩ := mem_transfer_record host.copier host.buf
      ⟨s', zeroFresh m.remote.space s' m.remote.mem⟩ kernel hr hwrite
    have hstep : copyAllocations host other (r :: rs) m kernel =
        copyAllocations host other rs
          { m with
            remote := ⟨s', mem⟩
            memoryAllocations := m.memoryAllocations ++ [r] }
          (transferMemory host.copier host.buf other r.addr r.addr r.len.toInt
            ⟨⟨s', zeroFresh m.remote.space s' m.remote.mem⟩, kernel⟩ 0).kernel := by
      rw [copyAllocations, allocateMemAndProtect, hcall]
      simp only [Option.map_some, hremote, recordAlloc, if_neg hok]
      rfl
    have hwritable' : ∀ q ∈ copied ++ [r], Accessible .write s' q.addr q.len.toNat := by
      intro q hq
      rcases List.mem_append.mp hq with hq | hq
      · exact (hwritable q hq).of_grows hgrows
      · exact List.mem_singleton.mp hq ▸ hwrite
    have hcopied' : Cloned other ⟨s', mem⟩ (copied ++ [r]) := by
      intro q hq a ha
      show mem a = other.mem a
      by_cases hcov : r.Covers a.toNat
      · exact (hmem a).1 hcov
      · have hold : q ∈ copied := by
          rcases List.mem_append.mp hq with hq | hq
          · exact hq
          · exact absurd (List.mem_singleton.mp hq ▸ ha) hcov
        rw [(hmem a).2 hcov]
        exact (zeroFresh_of_committed _ (committed_of_covers (hwritable q hold) ha)).trans
          (hcopied q hold a ha)
    obtain ⟨m', kernel', hrun, hrecords, hcloned⟩ := ih
      { m with remote := ⟨s', mem⟩, memoryAllocations := m.memoryAllocations ++ [r] } _
      (copied ++ [r]) (fun q hq ↦ hread q (List.mem_cons_of_mem r hq)) hrest hwritable' hcopied'
    refine ⟨m', kernel', hstep.trans hrun, ?_, ?_⟩
    · rw [hrecords, List.append_assoc, List.singleton_append]
    · rwa [List.append_assoc, List.singleton_append] at hcloned

/-- Whatever the number, the sizes and the alignment of the records: a child whose allocations
succeed ends with the records of its parent, in order, and with the parent's bytes at every
address they cover. -/
theorem forkCopyOtherProcess_clones (host : CopyHost) (other : MemoryState) (stub : Remote)
    (kernel : UserMem) (hread : RangesReadable other)
    (halloc : AllocationsSucceed host.toHost stub.space other.memoryAllocations) :
    ∃ m, forkCopyOtherProcess host other kernel { remote := stub } =
        (if other.mmapList = [] then .ok () m else .fault m) ∧
      m.memoryAllocations = other.memoryAllocations ∧
      Cloned other.remote m.remote other.memoryAllocations := by
  obtain ⟨m, kernel', hrun, hrecords, hcloned⟩ := copyAllocations_spec host other.remote
    other.memoryAllocations { remote := stub, brk := other.brk } kernel [] hread halloc
    (fun _ h ↦ nomatch h) (fun _ h ↦ nomatch h)
  refine ⟨m, ?_, hrecords, hcloned⟩
  rw [forkCopyOtherProcess, hrun]

/-- The pages of a stub whose image begins at `0x08060000`: one granule two granules below it is
like this, what is below the image is free otherwise. -/
def stubSpace (p : Page) : Space where
  page n :=
    if granulePages ≤ n ∧ n < userPages then
      if 0x8060 ≤ n then .committed 0x8060 { read := true, write := false }
      else if 0x8040 ≤ n ∧ n < 0x8050 then p else .free
    else .free
  outside n h := by
    rw [if_neg (by omega)]

/-- Two records that share a page and end in the middle of pages. -/
def forkedRecords : List MemoryAlloc :=
  [⟨0x08048FF0#32, 0x1020#32, PAGE_EXECUTE_READWRITE⟩,
    ⟨0x0804A010#32, 0x7F3#32, PAGE_EXECUTE_READWRITE⟩]

theorem forkCopyOtherProcess_clones_misaligned :
    ∃ m, forkCopyOtherProcess
        ⟨⟨Windows.generous, fun _ _ _ ↦ ⟨0#32, 0#32, .free⟩⟩, Copier.exact, 0x0012F3A4#32⟩
        { remote := ⟨stubSpace (.committed 0x8040 { read := true, write := true }),
            fun x ↦ UInt8.ofNat x.toNat⟩
          memoryAllocations := forkedRecords }
        (fun _ ↦ 0) { remote := ⟨stubSpace .free, fun _ ↦ 0⟩ } = .ok () m ∧
      m.memoryAllocations = forkedRecords ∧
      Cloned ⟨stubSpace (.committed 0x8040 { read := true, write := true }),
          fun x ↦ UInt8.ofNat x.toNat⟩
        m.remote forkedRecords :=
  forkCopyOtherProcess_clones _ _ _ _ (by decide +kernel) (by decide +kernel)

end Keow.Memory
