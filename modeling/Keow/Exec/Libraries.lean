import Keow.Base.Align
import Keow.Exec.Segments

/-!
# The addresses of libraries

Every image that `LoadElfImage` loads as a library goes to the 64k boundary at or above
`last_lib_addr`, `Process.cpp:1055–1065`, and moves `last_lib_addr` behind its segments,
`Process.cpp:1160–1164`: by their length from where they start rounded down, not from where
they start.
-/

namespace Keow.Exec

open Keow.Base Keow.Kernel Keow.Paths

/-- A successful call of `LoadElfImage` with `LoadAsLibrary`. -/
structure LibraryLoad (host : Host) where
  fuel : Nat
  hImg : Handle
  hdr : Elf32Hdr
  before : Task
  after : Task
  loaded : loadElfImage host fuel hImg hdr true before = .ok 0#32 after

namespace LibraryLoad

variable {host : Host} (l : LibraryLoad host)

/-- What the call asks for. -/
def request : Request := l.before.request l.hImg l.hdr true

/-- `last_lib_addr` at the start. -/
def found : DWORD := l.before.pElfLoadData.lastLibAddr

/-- `last_lib_addr` at the end. -/
def left : DWORD := l.after.pElfLoadData.lastLibAddr

/-- The header of a segment of the image. -/
def HasSegment (p : Phdr) : Prop := p.pType = PT_LOAD ∧ ∃ e ∈ l.request.entries host, e.phdr = p

/-- The address lies in the segment: in `[base+p_vaddr, base+p_vaddr+p_memsz)`. -/
def Covers (p : Phdr) (x : Nat) : Prop :=
  (p.wantMem l.request.base).toNat ≤ x ∧ x < (p.wantMem l.request.base).toNat + p.pMemsz.toNat

/-- The image is placed without a wrap of 32 bits. -/
structure NoWrap : Prop where
  base : l.found.toNat + 0xFFFF < 2 ^ 32
  segment : ∀ p, l.HasSegment p →
    l.request.base.toNat + p.pVaddr.toNat + p.pMemsz.toNat < 2 ^ 32

end LibraryLoad

/-- The next load starts from what this one has left. -/
def Follows {host : Host} (l m : LibraryLoad host) : Prop := m.found = l.left

/-- No address is in a segment of both images. -/
def Apart {host : Host} (l m : LibraryLoad host) : Prop :=
  ∀ p q, l.HasSegment p → m.HasSegment q → ∀ x, ¬(l.Covers p x ∧ m.Covers q x)

/-- The 64k boundary at or above an address. -/
def boundary (x : Nat) : Nat := (x + 0xFFFF) / 0x10000 * 0x10000

/-- Every segment ends at or below the boundary behind some segment that is moved down to where
it starts rounded down. -/
def LibraryLoad.Covered {host : Host} (l : LibraryLoad host) : Prop :=
  ∀ p, l.HasSegment p → p.pMemsz ≠ 0#32 → ∃ q, l.HasSegment q ∧
    (p.wantMem l.request.base).toNat + p.pMemsz.toNat ≤
      boundary ((q.alignedMem l.request.base).toNat + q.pMemsz.toNat)

/-! ## Boundaries -/

theorem boundary_mono {x y : Nat} (h : x ≤ y) : boundary x ≤ boundary y := by
  unfold boundary
  omega

/-- Where a library goes. -/
theorem toNat_baseAddr (hdr : Elf32Hdr) {last : DWORD} (h : last.toNat + 0xFFFF < 2 ^ 32) :
    (hdr.baseAddr true last).toNat =
      boundary (if last = 0#32 then 0x40000000 else last.toNat) := by
  have hround : ∀ x : DWORD, x.toNat + 0xFFFF < 2 ^ 32 →
      ((x + 0xFFFF#32) &&& ~~~0xFFFF#32).toNat = boundary x.toNat := by
    intro x hx
    have hand := toNat_and_not_sub_one (x + 0xFFFF#32) 0x10000#32 (k := 16) rfl
    have hadd : (x + 0xFFFF#32).toNat = x.toNat + 0xFFFF := by
      rw [BitVec.toNat_add, Nat.mod_eq_of_lt (by simpa using hx)]
      rfl
    rw [hadd] at hand
    refine hand.trans ?_
    unfold boundary
    omega
  rw [Elf32Hdr.baseAddr, if_pos (.inl rfl)]
  split
  · exact hround _ (by decide)
  · exact hround last h

theorem boundary_le_base {host : Host} {l : LibraryLoad host} (h : l.NoWrap) :
    boundary l.found.toNat ≤ l.request.base.toNat := by
  have hbase : l.request.base = l.hdr.baseAddr true l.found := rfl
  rw [hbase, toNat_baseAddr _ h.base]
  apply boundary_mono
  split
  · next hz => simp [hz]
  · exact le_refl _

/-! ## The end of an image -/

theorem toNat_maxAddr (a b : DWORD) : (maxAddr a b).toNat = max a.toNat b.toNat := by
  unfold maxAddr
  split
  · next h =>
    have h' : b.toNat < a.toNat := h
    omega
  · next h =>
    have h' : ¬b.toNat < a.toNat := h
    omega

/-- `last_lib_addr` never goes down, and goes behind every segment as far as it is tracked. -/
theorem le_foldl_lastLibAddr (base : DWORD) (es : List Entry) (last : DWORD) :
    last.toNat ≤ (es.foldl (Entry.lastLibAddr base true) last).toNat ∧
      ∀ e ∈ es, e.phdr.pType = PT_LOAD → (e.phdr.alignedMem base + e.phdr.pMemsz).toNat ≤
        (es.foldl (Entry.lastLibAddr base true) last).toNat := by
  induction es generalizing last with
  | nil => exact ⟨le_refl _, by simp⟩
  | cons e es ih =>
    obtain ⟨hle, hall⟩ := ih (e.lastLibAddr base true last)
    have hstep : last.toNat ≤ (e.lastLibAddr base true last).toNat ∧
        (e.phdr.pType = PT_LOAD → (e.phdr.alignedMem base + e.phdr.pMemsz).toNat ≤
          (e.lastLibAddr base true last).toNat) := by
      unfold Entry.lastLibAddr
      split
      · rw [toNat_maxAddr]
        omega
      · next h => exact ⟨le_refl _, fun hload ↦ absurd ⟨hload, rfl⟩ h⟩
    rw [List.foldl_cons]
    refine ⟨hstep.1.trans hle, ?_⟩
    intro f hf hload
    rcases List.mem_cons.mp hf with rfl | hf
    · exact (hstep.2 hload).trans hle
    · exact hall f hf hload

/-- `last_lib_addr` behind the image of a request. -/
def Request.leftLibAddr (host : Host) (r : Request) : DWORD :=
  (r.entries host).foldl (Entry.lastLibAddr r.base r.library) r.lastLibAddr

/-- A copy of the load data is left behind the image itself. -/
theorem lastLibAddr_of_copy {host : Host} {fuel : Nat} {hImg : Handle} {hdr : Elf32Hdr}
    {library : Bool} {t t' : Task} (hcopy : t.loadData2.isSome = true)
    (h : loadElfImage host fuel hImg hdr library t = .ok 0#32 t') :
    t'.pElfLoadData.lastLibAddr = (t.request hImg hdr library).leftLibAddr host := by
  cases fuel with
  | zero => exact absurd h Comp.wait_ne_ok
  | succ fuel =>
    have hdone := roundsDone_afterRounds host hImg hdr library t
    obtain ⟨-, -, -, hend⟩ := (loadElfImage_eq_zero ..).mp h
    rcases hend with ⟨-, rfl⟩ | ⟨_, _, t₂, -, -, -, -, -, rfl⟩
    · exact hdone.lastLibAddr
    · have hlast := hdone.lastLibAddr
      rw [← hdone.loadData2, Option.isSome_iff_exists] at hcopy
      obtain ⟨d, hd⟩ := hcopy
      rw [Task.pElfLoadData, hd] at hlast
      rw [hd]
      exact hlast

/-- The next library starts behind the image, or behind its interpreter. -/
theorem leftLibAddr_le {host : Host} {fuel : Nat} {hImg : Handle} {hdr : Elf32Hdr} {t t' : Task}
    (h : loadElfImage host fuel hImg hdr true t = .ok 0#32 t') :
    ((t.request hImg hdr true).leftLibAddr host).toNat ≤ t'.pElfLoadData.lastLibAddr.toNat := by
  cases fuel with
  | zero => exact absurd h Comp.wait_ne_ok
  | succ fuel =>
    have hdone := roundsDone_afterRounds host hImg hdr true t
    obtain ⟨-, -, -, hend⟩ := (loadElfImage_eq_zero ..).mp h
    rcases hend with ⟨-, rfl⟩ | ⟨_, bytes, t₂, -, -, -, -, hload, ht'⟩
    · exact le_of_eq (congrArg BitVec.toNat hdone.lastLibAddr).symm
    · cases hd : (t.afterRounds host hImg hdr true).loadData2 with
      | some d =>
        have hlast := hdone.lastLibAddr
        rw [Task.pElfLoadData, hd] at hlast
        rw [ht', hd]
        exact le_of_eq (congrArg BitVec.toNat hlast).symm
      | none =>
        have hinner := lastLibAddr_of_copy rfl hload
        rw [request_enterInterpreter hdone] at hinner
        have hleave : (Task.leaveInterpreter none t₂).pElfLoadData.lastLibAddr =
            t₂.pElfLoadData.lastLibAddr := rfl
        rw [ht', hd, hleave, hinner]
        exact (le_foldl_lastLibAddr _ _ _).1

/-! ## Libraries one after the other -/

namespace LibraryLoad

variable {host : Host} {l m : LibraryLoad host}

theorem toNat_wantMem (h : l.NoWrap) {p : Phdr} (hp : l.HasSegment p) :
    (p.wantMem l.request.base).toNat = l.request.base.toNat + p.pVaddr.toNat := by
  have hlt := h.segment p hp
  rw [Phdr.wantMem, BitVec.toNat_add, Nat.mod_eq_of_lt (by omega), Nat.add_comm]

theorem alignedMem_le (p : Phdr) (base : DWORD) :
    (p.alignedMem base).toNat ≤ (p.wantMem base).toNat := by
  unfold Phdr.alignedMem
  split
  · rw [BitVec.toNat_and]
    exact Nat.and_le_left
  · exact le_refl _

/-- `last_lib_addr` does not go down. -/
theorem found_le_left (l : LibraryLoad host) : l.found.toNat ≤ l.left.toNat :=
  (le_foldl_lastLibAddr _ _ _).1.trans (leftLibAddr_le l.loaded)

/-- As far as a segment is tracked, `last_lib_addr` is behind it. -/
theorem tracked_le_left (h : l.NoWrap) {p : Phdr} (hp : l.HasSegment p) :
    (p.alignedMem l.request.base).toNat + p.pMemsz.toNat ≤ l.left.toNat := by
  obtain ⟨hload, e, he, rfl⟩ := hp
  have hlt := h.segment e.phdr ⟨hload, e, he, rfl⟩
  have hwant := toNat_wantMem h ⟨hload, e, he, rfl⟩
  have hdown := alignedMem_le e.phdr l.request.base
  have htracked := (le_foldl_lastLibAddr l.request.base _ l.request.lastLibAddr).2 e he hload
  rw [BitVec.toNat_add, Nat.mod_eq_of_lt (by omega)] at htracked
  exact htracked.trans (leftLibAddr_le l.loaded)

/-- An image whose segments end where they are tracked to lies below every image that starts
from what it has left, or from more. -/
theorem apart_of_le (hl : l.NoWrap) (hm : m.NoWrap) (hcov : l.Covered)
    (hle : l.left.toNat ≤ m.found.toNat) : Apart l m := by
  rintro p q hp hq x ⟨⟨hfirst, hend⟩, hstart, -⟩
  have hne : p.pMemsz ≠ 0#32 := by
    intro hz
    rw [hz, BitVec.toNat_zero] at hend
    omega
  obtain ⟨r, hr, hbound⟩ := hcov p hp hne
  have htracked := boundary_mono ((tracked_le_left hl hr).trans hle)
  have hbase := boundary_le_base hm
  have hwant := toNat_wantMem hm hq
  omega

end LibraryLoad

/-- Libraries that follow one another are apart when every one of them ends where it is tracked
to. -/
theorem apart_of_covered {host : Host} {loads : List (LibraryLoad host)}
    (hchain : loads.IsChain Follows) (hwrap : ∀ l ∈ loads, l.NoWrap)
    (hcov : ∀ l ∈ loads, l.Covered) : loads.Pairwise Apart := by
  have hbelow : loads.Pairwise fun l m ↦ l.left.toNat ≤ m.found.toNat := by
    have htrans : IsTrans (LibraryLoad host) fun l m ↦ l.left.toNat ≤ m.found.toNat :=
      ⟨fun _ m _ h h' ↦ h.trans (m.found_le_left.trans h')⟩
    have hstep : loads.IsChain fun l m ↦ l.left.toNat ≤ m.found.toNat :=
      hchain.imp fun _ _ h ↦ le_of_eq (congrArg BitVec.toNat h).symm
    exact hstep.pairwise
  exact hbelow.imp_of_mem fun hl hm hle ↦
    LibraryLoad.apart_of_le (hwrap _ hl) (hwrap _ hm) (hcov _ hl) hle

/-- `last_lib_addr` is the one found, or one that a segment has been tracked to. -/
theorem foldl_lastLibAddr_mem (base : DWORD) (es : List Entry) (last : DWORD) :
    es.foldl (Entry.lastLibAddr base true) last = last ∨
      ∃ e ∈ es, e.phdr.pType = PT_LOAD ∧
        es.foldl (Entry.lastLibAddr base true) last =
          e.phdr.alignedMem base + e.phdr.pMemsz := by
  induction es generalizing last with
  | nil => exact .inl rfl
  | cons e es ih =>
    rw [List.foldl_cons]
    rcases ih (e.lastLibAddr base true last) with h | ⟨f, hf, hload, h⟩
    · rw [h]
      unfold Entry.lastLibAddr maxAddr
      split
      · next hload =>
        split
        · exact .inr ⟨e, by simp, hload.1, rfl⟩
        · exact .inl rfl
      · exact .inl rfl
    · exact .inr ⟨f, by simp [hf], hload, h⟩

/-- The condition is exact: some segment address of the next image falls into an image that ends
behind where it is tracked to. -/
theorem exists_not_apart {host : Host} {l : LibraryLoad host} (hl : l.NoWrap)
    (hcopy : l.before.loadData2.isSome = true) (hcov : ¬l.Covered) :
    ∃ vaddr : DWORD, ∀ m : LibraryLoad host, Follows l m → m.NoWrap →
      (∃ q, m.HasSegment q ∧ q.pVaddr = vaddr ∧ q.pMemsz ≠ 0#32) → ¬Apart l m := by
  simp only [LibraryLoad.Covered, not_forall, not_exists, not_and, not_le] at hcov
  obtain ⟨p, hp, hne, hbeyond⟩ := hcov
  have hpos : 0 < p.pMemsz.toNat := by
    have hz : p.pMemsz.toNat ≠ 0 := fun hz ↦ hne (BitVec.eq_of_toNat_eq hz)
    omega
  have hwant := LibraryLoad.toNat_wantMem hl hp
  have hend := hl.segment p hp
  have htracked := LibraryLoad.tracked_le_left hl hp
  have hleft : l.left ≠ 0#32 := by
    intro hz
    rw [hz, BitVec.toNat_zero] at htracked
    omega
  have hbound : boundary l.left.toNat < (p.wantMem l.request.base).toNat + p.pMemsz.toNat := by
    have hown : l.left = l.request.leftLibAddr host := lastLibAddr_of_copy hcopy l.loaded
    rcases foldl_lastLibAddr_mem l.request.base (l.request.entries host) l.request.lastLibAddr
      with h | ⟨e, he, hload, h⟩
    · have hfound : l.left = l.found := hown.trans h
      have hbase := boundary_le_base hl
      rw [hfound]
      omega
    · have hq : l.HasSegment e.phdr := ⟨hload, e, he, rfl⟩
      have hmem : l.left = e.phdr.alignedMem l.request.base + e.phdr.pMemsz := hown.trans h
      have hq' := hbeyond e.phdr hq
      have hlt := hl.segment e.phdr hq
      have hdown := LibraryLoad.alignedMem_le e.phdr l.request.base
      have hwant' := LibraryLoad.toNat_wantMem hl hq
      rwa [hmem, BitVec.toNat_add, Nat.mod_eq_of_lt (by omega)]
  -- the segment starts at the last address of this image
  refine ⟨BitVec.ofNat 32 ((p.wantMem l.request.base).toNat + p.pMemsz.toNat - 1 -
    boundary l.left.toNat), fun m hfollows hm ↦ ?_⟩
  rintro ⟨q, hq, hvaddr, hqne⟩ hapart
  have hqpos : 0 < q.pMemsz.toNat := by
    have hz : q.pMemsz.toNat ≠ 0 := fun hz ↦ hqne (BitVec.eq_of_toNat_eq hz)
    omega
  have hmbase : m.request.base.toNat = boundary l.left.toNat := by
    have hfound : m.found = l.left := hfollows
    have hbase : m.request.base = m.hdr.baseAddr true m.found := rfl
    rw [hbase, toNat_baseAddr _ hm.base, hfound, if_neg hleft]
  have hmwant := LibraryLoad.toNat_wantMem hm hq
  rw [hmbase, hvaddr, BitVec.toNat_ofNat, Nat.mod_eq_of_lt (by omega)] at hmwant
  refine hapart p q hp hq ((p.wantMem l.request.base).toNat + p.pMemsz.toNat - 1)
    ⟨⟨by omega, by omega⟩, by omega, by omega⟩

/-! ## Two libraries -/

/-- A host without files. -/
def bareHost : Host := freeHost fun _ ↦ none

/-- A library of one segment. -/
def library (p : Phdr) : List UInt8 := executable 0#32 [p] []

/-- The request to load it with a copy of load data that starts from `last`. -/
def libraryTask (last : DWORD) : Task :=
  { freshTask with loadData2 := some { lastLibAddr := last } }

/-- What loading it asks for. -/
def libraryRequest (p : Phdr) (last : DWORD) : Request :=
  (libraryTask last).request ⟨library p, 0⟩ (Elf32Hdr.ofBytes (library p)) true

/-- It starts 16 bytes into its first page and ends 8 bytes behind a 64k boundary. -/
def overhang : Phdr := ⟨PT_LOAD, 84#32, 0x10#32, 0#32, 0xFFF8#32, 0x1000#32⟩

/-- One page. -/
def onePage : Phdr := ⟨PT_LOAD, 84#32, 0#32, 0#32, 0x1000#32, 0x1000#32⟩

/-- The load of a library of one segment that starts from `last`, goes to `base` and leaves
`left`. -/
structure OneSegment (l : LibraryLoad bareHost) (p : Phdr) (last base left : DWORD) : Prop where
  found : l.found = last
  base : l.request.base = base
  left : l.left = left
  segment : ∀ q, l.HasSegment q ↔ q = p

section OneSegment

variable {p q : Phdr} {last base left base' left' : DWORD}

/-- A library that can be loaded is. -/
theorem exists_oneSegment (h : Loadable bareHost 1 (libraryRequest p last))
    (hp : (libraryRequest p last).entries bareHost = [⟨p, []⟩]) (hload : p.pType = PT_LOAD)
    (hbase : (libraryRequest p last).base = base)
    (hleft : (libraryRequest p last).leftLibAddr bareHost = left) :
    ∃ l : LibraryLoad bareHost, OneSegment l p last base left := by
  obtain ⟨t', ht'⟩ := exists_eq_zero_of_loadable h
  refine ⟨⟨1, _, _, _, t', ht'⟩, rfl, hbase, (lastLibAddr_of_copy rfl ht').trans hleft, ?_⟩
  intro q
  change (q.pType = PT_LOAD ∧ ∃ e ∈ (libraryRequest p last).entries bareHost, e.phdr = q) ↔ q = p
  rw [hp]
  constructor
  · rintro ⟨-, e, he, rfl⟩
    rw [List.mem_singleton.mp he]
  · rintro rfl
    exact ⟨hload, _, List.mem_singleton.mpr rfl, rfl⟩

variable {l m : LibraryLoad bareHost}

theorem OneSegment.noWrap (h : OneSegment l p last base left) (hlast : last.toNat + 0xFFFF < 2 ^ 32)
    (hfits : base.toNat + p.pVaddr.toNat + p.pMemsz.toNat < 2 ^ 32) : l.NoWrap := by
  constructor
  · rw [h.found]
    exact hlast
  · intro q hq
    rw [(h.segment q).mp hq, h.base]
    exact hfits

/-- The segment is covered when it ends below the boundary behind its own copy. -/
theorem OneSegment.covered (h : OneSegment l p last base left)
    (hend : (p.wantMem base).toNat + p.pMemsz.toNat ≤
      boundary ((p.alignedMem base).toNat + p.pMemsz.toNat)) : l.Covered := by
  intro q hq _
  refine ⟨q, hq, ?_⟩
  rw [(h.segment q).mp hq, h.base]
  exact hend

theorem OneSegment.isChain (h : OneSegment l p last base left)
    (h' : OneSegment m q left base' left') : [l, m].IsChain Follows := by
  refine .cons_cons ?_ (.singleton m)
  rw [Follows, h'.found, h.left]

end OneSegment

/-- A page-long library behind one that hangs over: they share 8 bytes. -/
theorem not_apart_overhang :
    ∃ l m : LibraryLoad bareHost, [l, m].IsChain Follows ∧ (∀ k ∈ [l, m], k.NoWrap) ∧
      ¬[l, m].Pairwise Apart := by
  obtain ⟨l, hl⟩ : ∃ l, OneSegment l overhang 0#32 0x40000000#32 0x4000FFF8#32 := by
    refine exists_oneSegment ⟨?_, ?_, ?_, .inl ?_⟩ ?_ rfl ?_ ?_ <;> decide +kernel
  obtain ⟨m, hm⟩ : ∃ m, OneSegment m onePage 0x4000FFF8#32 0x40010000#32 0x40011000#32 := by
    refine exists_oneSegment ⟨?_, ?_, ?_, .inl ?_⟩ ?_ rfl ?_ ?_ <;> decide +kernel
  refine ⟨l, m, hl.isChain hm, ?_, ?_⟩
  · simp only [List.mem_cons, List.not_mem_nil, or_false, forall_eq_or_imp, forall_eq]
    exact ⟨hl.noWrap (by decide) (by decide), hm.noWrap (by decide) (by decide)⟩
  · rw [List.pairwise_pair]
    intro hapart
    apply hapart overhang onePage ((hl.segment _).mpr rfl) ((hm.segment _).mpr rfl) 0x40010000
    rw [LibraryLoad.Covers, LibraryLoad.Covers, hl.base, hm.base]
    decide

/-- Two libraries of one page each. -/
theorem apart_of_onePage :
    ∃ l m : LibraryLoad bareHost, [l, m].IsChain Follows ∧ [l, m].Pairwise Apart := by
  obtain ⟨l, hl⟩ : ∃ l, OneSegment l onePage 0#32 0x40000000#32 0x40001000#32 := by
    refine exists_oneSegment ⟨?_, ?_, ?_, .inl ?_⟩ ?_ rfl ?_ ?_ <;> decide +kernel
  obtain ⟨m, hm⟩ : ∃ m, OneSegment m onePage 0x40001000#32 0x40010000#32 0x40011000#32 := by
    refine exists_oneSegment ⟨?_, ?_, ?_, .inl ?_⟩ ?_ rfl ?_ ?_ <;> decide +kernel
  refine ⟨l, m, hl.isChain hm, apart_of_covered (hl.isChain hm) ?_ ?_⟩
  · simp only [List.mem_cons, List.not_mem_nil, or_false, forall_eq_or_imp, forall_eq]
    exact ⟨hl.noWrap (by decide) (by decide), hm.noWrap (by decide) (by decide)⟩
  · simp only [List.mem_cons, List.not_mem_nil, or_false, forall_eq_or_imp, forall_eq]
    exact ⟨hl.covered (by decide), hm.covered (by decide)⟩

end Keow.Exec
