import Keow.Memory.Failure
import Keow.Memory.Recorded

/-!
# Unmapping what was mapped

`sys_mmap` records the length rounded up to pages, `sys_munmap` looks for the length that it is
given. The two fit together for whole pages only.
-/

namespace Keow.Memory

open Keow.Base Keow.Kernel
open Keow.Exec (MemoryAlloc recordAlloc PAGE_EXECUTE_READWRITE)

/-- The pages from `first` on and before `last` all belong to one reservation. -/
def OneReservation (s : Space) (first last : Nat) : Prop :=
  ∃ b, ∀ i < last - first, (s.page (first + i)).base = some b

/-- What is documented of `VirtualFreeEx` with `MEM_DECOMMIT`: the pages of one reservation can be
decommitted, and pages that are not reserved cannot. -/
structure DecommitsReservations (w : Windows) : Prop where
  granted : ∀ s (addr size : DWORD), size ≠ 0#32 →
    OneReservation s (addr.toNat / 4096) (pageEnd addr.toNat size.toNat) →
    w.grantsDecommit s addr.toNat size.toNat = true
  refused : ∀ s (addr size : DWORD), size ≠ 0#32 → s.page (addr.toNat / 4096) = .free →
    w.grantsDecommit s addr.toNat size.toNat = false

variable {w : Windows} {s s' : Space}

/-! ## What a mapping without an address leaves -/

/-- Without an address the allocation is where Windows chose. -/
theorem allocate_anywhere {mbi : MemoryBasicInformation} {size p : DWORD}
    (h : allocateMemAndProtectProcess w mbi s 0#32 size = some (p, s')) (hok : p ≠ -1#32) :
    p = BitVec.ofNat 32 (w.place s size.toNat) := by
  unfold allocateMemAndProtectProcess at h
  rw [if_pos rfl] at h
  rw [(backRange_addr h).resolve_left hok, Windows.reserve, if_pos rfl]

theorem base_of_extends {p p' : Page} {b : Nat} (h : Extends p p') (hp : p.base = some b) :
    p'.base = some b := by
  rcases h with rfl | rfl | ⟨b', access, rfl, rfl⟩
  · exact hp
  · cases hp
  · exact hp

/-- The block that Windows chose is one reservation. -/
theorem oneReservation_allocate {mbi : MemoryBasicInformation} {size p : DWORD}
    (h : allocateMemAndProtectProcess w mbi s 0#32 size = some (p, s'))
    (hp : w.place s size.toNat ≠ 0) :
    OneReservation s' (w.place s size.toNat / 4096)
      (pageEnd (w.place s size.toNat) size.toNat) := by
  unfold allocateMemAndProtectProcess at h
  rw [if_pos rfl, Windows.reserve, if_pos rfl] at h
  simp only [if_neg hp] at h
  have haligned := w.place_aligned s size.toNat
  have hfree := w.place_free s size.toNat hp
  have hend := pageEnd_place_le w s hp
  have hext := extended_backRange h
  generalize w.place s size.toNat = q at *
  refine ⟨q / 4096, fun i hi ↦ base_of_extends (hext.page _) ?_⟩
  rw [Space.page_update_of_mem, hfree i hi]
  · rfl
  · omega
  · unfold granulePages
    omega

/-- What an anonymous mapping without an address and without sharing does when it returns one. -/
theorem mmap_anonymous {host : CallHost} {args : MmapArgStruct} {m m' : MemoryState} {r : DWORD}
    (haddr : args.addr = 0#32) (hanon : args.flags &&& MAP_ANONYMOUS ≠ 0#32)
    (hprivate : args.flags &&& MAP_SHARED = 0#32) (h : sysMmap host args m = .ok r m')
    (hr : r ≠ -ENOMEM) :
    ∃ p s', host.allocate m.remote.space 0#32 args.len4k = some (p, s') ∧ p ≠ -1#32 ∧
      r = args.result p ∧ m'.remote.space = s' ∧ m'.mmapList = m.mmapList ∧
      m'.memoryAllocations =
        m.memoryAllocations ++ [⟨p, args.len4k, PAGE_EXECUTE_READWRITE⟩] := by
  have hfd : args.fdOrSwap = -1#32 := if_pos hanon
  have hshared : ¬args.WriteShared := fun h ↦ h.2 hprivate
  unfold sysMmap at h
  rw [haddr, hfd] at h
  simp only [BitVec.zero_and, ne_eq, not_true_eq_false, false_and, if_false, if_true] at h
  rw [mapRange, if_pos (.inr (.inr (.inr hshared))), fakeMmap, if_neg hshared, haddr,
    allocateMemAndProtect] at h
  cases hcall : host.allocate m.remote.space 0#32 args.len4k with
  | none =>
    rw [hcall] at h
    cases h
  | some r =>
    obtain ⟨p, s'⟩ := r
    rw [hcall] at h
    simp only [Option.map_some] at h
    split at h
    · injection h with hr' _
      exact absurd hr'.symm hr
    · next hp =>
      rw [readMapping] at h
      injection h with hr' hm
      rw [← hm, ← hr']
      refine ⟨p, s', rfl, hp, rfl, rfl, rfl, ?_⟩
      show recordAlloc m.memoryAllocations p args.len4k PAGE_EXECUTE_READWRITE = _
      rw [recordAlloc, if_neg hp]

/-! ## Unmapping it -/

/-- `sys_munmap` returns 0, erases the record that was added last and no other, and changes no
page outside the range. -/
def Unmaps (host : CallHost) (m m' : MemoryState) (r len : DWORD) : Prop :=
  m'.memoryAllocations.findIdx (fun rec ↦ IsRecord r len rec) = m.memoryAllocations.length ∧
    ∃ m'', sysMunmap host r len m' = .ok 0#32 m'' ∧
      m''.memoryAllocations = m.memoryAllocations ∧
      ∀ n, ¬(r.toNat / 4096 ≤ n ∧ n < pageEnd r.toNat len.toNat) →
        m''.remote.space.page n = m'.remote.space.page n

theorem findIdx_append_singleton {α : Type} (p : α → Bool) (xs : List α) (x : α) :
    (xs ++ [x]).findIdx p = xs.length ↔ (∀ y ∈ xs, ¬p y) ∧ p x = true := by
  have hlen : (xs ++ [x]).length = xs.length + 1 := by simp
  rw [List.findIdx_eq (by omega), List.getElem_concat_length rfl]
  constructor
  · rintro ⟨hx, hxs⟩
    refine ⟨fun y hy ↦ ?_, hx⟩
    obtain ⟨i, hi, rfl⟩ := List.getElem_of_mem hy
    have := hxs i hi
    rw [List.getElem_append_left hi] at this
    rw [this]
    exact Bool.false_ne_true
  · rintro ⟨hxs, hx⟩
    refine ⟨hx, fun i hi ↦ ?_⟩
    rw [List.getElem_append_left hi]
    exact Bool.eq_false_of_not_eq_true (hxs _ (List.getElem_mem hi))

theorem len4k_mod (args : MmapArgStruct) : args.len4k.toNat % 4096 = 0 := by
  have h := toNat_and_not_sub_one (args.len + 0xFFF#32) (0x1000#32) (k := 12) rfl
  unfold MmapArgStruct.len4k
  rw [show (0xFFF#32 : DWORD) = 0x1000#32 - 1#32 from rfl] at h ⊢
  omega

theorem len4k_eq_iff (args : MmapArgStruct) :
    args.len4k = args.len ↔ args.len.toNat % 4096 = 0 := by
  constructor
  · intro h
    rw [← h]
    exact len4k_mod args
  · intro h
    apply BitVec.eq_of_toNat_eq
    have hmask := toNat_and_not_sub_one (args.len + 0xFFF#32) (0x1000#32) (k := 12) rfl
    have hlt := args.len.isLt
    unfold MmapArgStruct.len4k
    rw [show (0x1000#32 : DWORD) - 1#32 = 0xFFF#32 from rfl, BitVec.toNat_add] at hmask
    rw [hmask, show (0xFFF#32 : DWORD).toNat = 4095 from rfl]
    omega

/-- Deallocation finds the record that was added last. -/
theorem unmaps_of_granted {host : CallHost} {m m' : MemoryState} {p len : DWORD} {prot : DWORD}
    (hmaps : m'.mmapList = []) (hlen : len ≠ 0#32)
    (hrecords : m'.memoryAllocations = m.memoryAllocations ++ [⟨p, len, prot⟩])
    (hnew : ∀ rec ∈ m.memoryAllocations, ¬IsRecord p len rec)
    (hgranted : host.windows.grantsDecommit m'.remote.space p.toNat len.toNat = true) :
    Unmaps host m m' p len := by
  have hlast : IsRecord p len ⟨p, len, prot⟩ := ⟨rfl, rfl⟩
  constructor
  · rw [hrecords, findIdx_append_singleton]
    exact ⟨fun rec hrec ↦ by simpa using hnew rec hrec, decide_eq_true hlast⟩
  · obtain ⟨s', hs'⟩ : ∃ s', host.windows.decommit m'.remote.space p len = some s' := by
      rw [Windows.decommit, if_pos hgranted]
      exact ⟨_, rfl⟩
    have hex : ∃ rec ∈ m'.memoryAllocations, IsRecord p len rec := by
      rw [hrecords]
      exact ⟨_, List.mem_append_right _ (List.mem_singleton_self _), hlast⟩
    refine ⟨{ m' with
      remote := { m'.remote with space := s' }
      memoryAllocations := others p len m'.memoryAllocations }, ?_, ?_, ?_⟩
    · rw [sysMunmap, if_neg (not_not.mpr hmaps)]
      simp only [deallocateMemory, if_pos hex, hs', if_true]
    · show others p len m'.memoryAllocations = m.memoryAllocations
      rw [hrecords, others, List.eraseP_append_right _ fun rec hrec ↦ by
        simpa using hnew rec hrec]
      rw [List.eraseP_cons_of_pos (p := fun rec ↦ decide (IsRecord p len rec))
        (decide_eq_true hlast), List.append_nil]
    · intro n hn
      apply Windows.page_decommit hs'
      unfold Windows.Decommits
      rwa [if_neg hlen]

theorem not_unmaps_of_refused {host : CallHost} {m m' : MemoryState} {p len : DWORD}
    {rec : MemoryAlloc} (hmaps : m'.mmapList = [])
    (hrecords : m'.memoryAllocations = m.memoryAllocations ++ [rec])
    (hrefused : host.windows.grantsDecommit m'.remote.space p.toNat len.toNat = false) :
    ¬Unmaps host m m' p len := by
  rintro ⟨-, m'', hcall, hrecords', -⟩
  have hnone : host.windows.decommit m'.remote.space p len = none := by
    rw [Windows.decommit, if_neg (by rw [hrefused]; exact Bool.false_ne_true)]
  have hsame : (deallocateMemory host.toHost m' p len).2 = m' := by
    unfold deallocateMemory
    rw [hnone]
    split <;> rfl
  rw [sysMunmap, if_neg (not_not.mpr hmaps)] at hcall
  injection hcall with _ hm
  rw [← hm, hsame, hrecords] at hrecords'
  simpa using congrArg List.length hrecords'

/-- An anonymous private mapping that `sys_mmap` placed is undone by `sys_munmap` with the same
length exactly when that is a number of whole pages, the address returned is the start of the
mapping, Windows had an address to offer, and no older record is named alike. -/
theorem munmap_mmap_iff {host : CallHost} {args : MmapArgStruct} {m m' : MemoryState} {r : DWORD}
    (hw : DecommitsReservations host.windows) (hmaps : m.mmapList = []) (haddr : args.addr = 0#32)
    (hanon : args.flags &&& MAP_ANONYMOUS ≠ 0#32) (hprivate : args.flags &&& MAP_SHARED = 0#32)
    (hlen : args.len ≠ 0#32) (h : sysMmap host args m = .ok r m') (hr : r ≠ -ENOMEM) :
    Unmaps host m m' r args.len ↔
      args.len.toNat % 4096 = 0 ∧ args.flags &&& MAP_GROWSDOWN = 0#32 ∧
        host.windows.place m.remote.space args.len4k.toNat ≠ 0 ∧
        ∀ rec ∈ m.memoryAllocations,
          ¬IsRecord (BitVec.ofNat 32 (host.windows.place m.remote.space args.len4k.toNat))
            args.len4k rec := by
  obtain ⟨p, s', hcall, hok, rfl, hs', hmaps', hrecords⟩ :=
    mmap_anonymous haddr hanon hprivate h hr
  have hp := allocate_anywhere hcall hok
  rw [hmaps] at hmaps'
  have hplace := toNat_place host.windows m.remote.space args.len4k.toNat
  constructor
  · intro hunmaps
    have hfind := hunmaps.1
    rw [hrecords, findIdx_append_singleton] at hfind
    obtain ⟨hnew, hlast⟩ := hfind
    obtain ⟨hstart, hsame⟩ := of_decide_eq_true hlast
    have hstart : p = args.result p := hstart
    have hsame : args.len4k = args.len := hsame
    have hgrows : args.flags &&& MAP_GROWSDOWN = 0#32 := by
      by_contra hgrows
      rw [MmapArgStruct.result, if_pos hgrows] at hstart
      exact hlen (BitVec.self_eq_add_right.mp hstart)
    refine ⟨(len4k_eq_iff args).mp hsame, hgrows, ?_, ?_⟩
    · intro hzero
      rw [hzero] at hp
      rw [← hstart] at hunmaps
      apply not_unmaps_of_refused hmaps' hrecords _ hunmaps
      apply hw.refused _ _ _ hlen
      rw [hp]
      exact m'.remote.space.outside _ (.inl (by decide))
    · intro rec hrec
      rw [← hp, hsame, hstart]
      exact fun h ↦ hnew rec hrec (decide_eq_true h)
  · rintro ⟨hwhole, hgrows, hroom, hnew⟩
    have hsame := (len4k_eq_iff args).mpr hwhole
    have hstart : args.result p = p := if_neg fun h ↦ h hgrows
    rw [hstart]
    rw [← hp, hsame] at hnew
    rw [hsame] at hrecords hroom hcall hp hplace
    apply unmaps_of_granted hmaps' hlen hrecords hnew
    apply hw.granted _ _ _ hlen
    rw [hp, hplace, hs']
    exact oneReservation_allocate hcall hroom

/-! ## A process that maps some bytes -/

/-- Windows when it refuses nothing but the decommitment of pages that are not one reservation's. -/
def careful : Windows :=
  { Windows.generous with
    grantsDecommit := fun s a size ↦ decide (s.page (a / 4096) ≠ .free ∧
      ∀ i < pageEnd a size - a / 4096, (s.page (a / 4096 + i)).base = (s.page (a / 4096)).base) }

theorem decommitsReservations_careful : DecommitsReservations careful where
  granted s addr size hsize hone := by
    obtain ⟨b, hb⟩ := hone
    have hpos : 0 < size.toNat := Nat.pos_of_ne_zero fun h ↦ hsize (BitVec.eq_of_toNat_eq h)
    have hfirst : (s.page (addr.toNat / 4096)).base = some b :=
      hb 0 (by unfold pageEnd; omega)
    apply decide_eq_true
    refine ⟨fun hfree ↦ ?_, fun i hi ↦ (hb i hi).trans hfirst.symm⟩
    rw [hfree] at hfirst
    cases hfirst
  refused s addr size _ hfree := decide_eq_false fun h ↦ h.1 hfree

def carefulHost : CallHost := { plainHost with windows := careful }

/-- A private anonymous mapping anywhere. -/
def anywhere (len : DWORD) : MmapArgStruct := ⟨0#32, len, PROT_WRITE, 0x22#32, 0#32, 0#32⟩

theorem munmap_mmap_page :
    ∃ m', sysMmap carefulHost (anywhere 0x1000#32) image = .ok 0x10000#32 m' ∧
      Unmaps carefulHost image m' 0x10000#32 0x1000#32 := by
  obtain ⟨m', hm'⟩ := Result.ok_of_value (r := sysMmap carefulHost (anywhere 0x1000#32) image)
    (a := 0x10000#32) (by decide +kernel)
  exact ⟨m', hm', (munmap_mmap_iff decommitsReservations_careful rfl rfl (by decide) rfl
    (by decide) hm' (by decide)).mpr (by decide +kernel)⟩

/-- One byte is mapped as a page, and cannot be unmapped as a byte. -/
theorem munmap_byte :
    ¬∀ (host : CallHost) (args : MmapArgStruct) (m m' : MemoryState) (r : DWORD),
      DecommitsReservations host.windows → m.mmapList = [] → args.addr = 0#32 →
      args.flags &&& MAP_ANONYMOUS ≠ 0#32 → args.flags &&& MAP_SHARED = 0#32 →
      args.len ≠ 0#32 → sysMmap host args m = .ok r m' → r ≠ -ENOMEM →
      Unmaps host m m' r args.len := by
  intro h
  obtain ⟨m', hm'⟩ := Result.ok_of_value (r := sysMmap carefulHost (anywhere 1#32) image)
    (a := 0x10000#32) (by decide +kernel)
  have hunmaps := h carefulHost (anywhere 1#32) image m' 0x10000#32
    decommitsReservations_careful rfl rfl (by decide) rfl (by decide) hm' (by decide)
  obtain ⟨p, s', -, -, -, -, -, hrecords⟩ :=
    mmap_anonymous (show (anywhere 1#32).addr = 0#32 from rfl) (by decide) rfl hm' (by decide)
  have hfind := hunmaps.1
  rw [hrecords, findIdx_append_singleton] at hfind
  have hlen : (anywhere 1#32).len4k = (anywhere 1#32).len := (of_decide_eq_true hfind.2).2
  exact absurd hlen (by decide)

end Keow.Memory
