import Keow.Base.Run
import Keow.Memory.Calls
import Keow.Memory.Committed

/-!
# Recorded memory is disjoint and backed

The invariant of `m_MemoryAllocations` that the calls rely on and do not check: the recorded
ranges do not overlap and every byte of them is committed. It is kept by every call that meets
the condition `Sound`, and one mapping over part of another is enough to lose it.
-/

namespace Keow.Memory

open Keow.Base Keow.Kernel
open Keow.Exec (MemoryAlloc PAGE_EXECUTE_READWRITE recordAlloc)

/-- The recorded ranges are disjoint and committed. -/
structure Recorded (m : MemoryState) : Prop where
  disjoint : m.memoryAllocations.Pairwise MemoryAlloc.Disjoint
  backed : ∀ r ∈ m.memoryAllocations, ∀ a, r.Covers a → m.remote.space.Committed a

/-! ## What the calls would have to check -/

/-- The allocator cannot get through the range, or it can back it, and an address that is asked for
lies in no range that stays recorded. -/
def Room (host : Host) (s : Space) (kept : List MemoryAlloc) (addr size : DWORD) : Prop :=
  GivesUp s addr (addr + size) ∨
    Backable host.windows (host.stale s addr size) s addr size ∧
      (addr ≠ 0#32 → ∀ r ∈ kept, ∀ a, r.Covers a →
        ¬(addr.toNat ≤ a ∧ a < addr.toNat + size.toNat))

/-- The range is recorded, and Windows lets it go. -/
def Releases (host : Host) (m : MemoryState) (addr size : DWORD) : Prop :=
  (∃ r ∈ m.memoryAllocations, IsRecord addr size r) ∧
    host.windows.grantsDecommit m.remote.space addr.toNat size.toNat

instance (host : Host) (m : MemoryState) (addr size : DWORD) :
    Decidable (Releases host m addr size) :=
  inferInstanceAs (Decidable (_ ∧ _))

/-- No record that stays has a byte on a page that is given up with the range. -/
def Releasable (host : Host) (m : MemoryState) (addr size : DWORD) : Prop :=
  Releases host m addr size → ∀ r ∈ others addr size m.memoryAllocations, ∀ a, r.Covers a →
    ¬Windows.Decommits m.remote.space addr size (a / 4096)

/-- The records that stay when the range is unmapped. -/
def kept (host : Host) (m : MemoryState) (addr size : DWORD) : List MemoryAlloc :=
  if Releases host m addr size then others addr size m.memoryAllocations
  else m.memoryAllocations

/-- The arguments are accepted. -/
def MmapArgStruct.Accepted (host : CallHost) (args : MmapArgStruct) : Prop :=
  args.addr &&& ~~~0xFFF#32 = args.addr ∧
    (args.fdOrSwap ≠ -1#32 → args.fdOrSwap ≤ BitVec.ofNat 32 Files.MAX_OPEN_FILES ∧
      (host.file args.fdOrSwap).isSome)

/-- The handler that is mapped, none for swap. -/
def MmapArgStruct.ioh (host : CallHost) (args : MmapArgStruct) : Option MappedFile :=
  if args.fdOrSwap = -1#32 then none else host.file args.fdOrSwap

/-- What a call has to meet in the state it is made in. Shared mappings count only in that the
first one stops the kernel at the next unmapping. -/
def Sound (host : CallHost) (m : MemoryState) : Call → Prop
  | .brk newBrk =>
      m.brk < newBrk → Room host.toHost m.remote.space m.memoryAllocations m.brk (newBrk - m.brk)
  | .munmap addr len => m.mmapList = [] → Releasable host.toHost m addr len
  | .mmap args =>
      args.Accepted host → args.addr = 0#32 ∨ m.mmapList = [] →
        (args.addr ≠ 0#32 → Releasable host.toHost m args.addr args.len4k) ∧
        (args.Fake (args.ioh host) → ¬args.WriteShared →
          Room host.toHost m.remote.space (kept host.toHost m args.addr args.len4k)
              args.addr args.len4k ∧
            -- no record starts below 64k
            (args.addr.toNat < 65536 →
              args.addr = 0#32 ∨ ¬Releases host.toHost m args.addr args.len4k))

/-! ## Allocation and release -/

/-- A range that the allocator returns where there is room is committed, and was not before or is
apart from the ranges that stay recorded. -/
theorem allocate_of_room {host : Host} {s s' : Space} {kept : List MemoryAlloc}
    {addr size p : DWORD} (hroom : Room host s kept addr size)
    (hcall : host.allocate s addr size = some (p, s')) (hok : p ≠ -1#32) :
    (∀ a, p.toNat ≤ a → a < p.toNat + size.toNat → s'.Committed a) ∧
      ((∀ a, p.toNat ≤ a → a < p.toNat + size.toNat → ¬s.Committed a) ∨
        ∀ r ∈ kept, ∀ a, r.Covers a → ¬(p.toNat ≤ a ∧ a < p.toNat + size.toNat)) := by
  rcases hroom with hgives | ⟨hback, hapart⟩
  · refine ⟨committed_of_givesUp hgives hcall hok, .inl ?_⟩
    by_cases hplaced : addr = 0#32 ∧ host.windows.place s size.toNat ≠ 0
    · obtain ⟨rfl, hp⟩ := hplaced
      obtain ⟨p', s'', hcall', hspec⟩ := allocate_placed (host.stale s 0#32 size) hp
      cases hcall'.symm.trans hcall
      exact fun a ha hlast ↦ (hspec hok a ha hlast).2
    · rw [Host.allocate, allocate_eq_backRange _ fun h ↦ by_contra fun h' ↦ hplaced ⟨h, h'⟩]
        at hcall
      exact absurd (eq_neg_one_of_givesUp hgives hcall) hok
  · obtain ⟨p', s'', hcall', hspec⟩ := allocate_spec hback
    cases hcall'.symm.trans hcall
    obtain ⟨hcommitted, hp⟩ := hspec hok
    refine ⟨hcommitted, ?_⟩
    rcases hp with rfl | hfresh
    · by_cases hz : p = 0#32
      · -- nothing is committed at address 0, so that the range is empty
        left
        intro a ha hlast
        have hzero : p.toNat = 0 := by rw [hz]; rfl
        exact absurd (Space.le_of_committed (hcommitted 0 (by omega) (by omega))) (by decide)
      · exact .inr (hapart hz)
    · exact .inl hfresh

/-- Recorded memory in which there is room stays so when it is taken. -/
theorem recorded_allocate {host : Host} {m m' : MemoryState} (h : Recorded m)
    {addr size prot p : DWORD} (hroom : Room host m.remote.space m.memoryAllocations addr size)
    (hcall : allocateMemAndProtect host m addr size prot = some (p, m')) : Recorded m' := by
  obtain ⟨⟨q, s'⟩, hspace, heq⟩ := Option.map_eq_some_iff.mp hcall
  cases heq
  have hgrows := grows_allocate hspace
  constructor
  · show (recordAlloc m.memoryAllocations p size prot).Pairwise MemoryAlloc.Disjoint
    unfold recordAlloc
    split
    · exact h.disjoint
    · next hok =>
      apply List.pairwise_append.mpr
      refine ⟨h.disjoint, List.pairwise_singleton _ _, fun r hr q hq a ha hqa ↦ ?_⟩
      obtain rfl := List.mem_singleton.mp hq
      rcases (allocate_of_room hroom hspace hok).2 with hfresh | hapart
      · exact hfresh a hqa.1 hqa.2 (h.backed r hr a ha)
      · exact hapart r hr a ha hqa
  · intro r hr a ha
    show s'.Committed a
    have hr' : r ∈ recordAlloc m.memoryAllocations p size prot := hr
    unfold recordAlloc at hr'
    split at hr'
    · exact Space.committed_of_grows hgrows (h.backed r hr' a ha)
    · next hok =>
      rcases List.mem_append.mp hr' with hr' | hr'
      · exact Space.committed_of_grows hgrows (h.backed r hr' a ha)
      · obtain rfl := List.mem_singleton.mp hr'
        exact (allocate_of_room hroom hspace hok).1 a ha.1 ha.2

/-- A release takes the record out and decommits its pages. -/
theorem deallocate_of_releases {host : Host} {m : MemoryState} {addr size : DWORD}
    (h : Releases host m addr size) :
    ∃ s, host.windows.decommit m.remote.space addr size = some s ∧
      deallocateMemory host m addr size = (true,
        { m with
          remote := { m.remote with space := s }
          memoryAllocations := others addr size m.memoryAllocations }) := by
  refine ⟨_, if_pos h.2, ?_⟩
  rw [deallocateMemory, if_pos h.1, Windows.decommit, if_pos h.2]

/-- Otherwise nothing changes. -/
theorem deallocate_of_not_releases {host : Host} {m : MemoryState} {addr size : DWORD}
    (h : ¬Releases host m addr size) : deallocateMemory host m addr size = (false, m) := by
  unfold deallocateMemory
  split
  · next hr =>
    rw [Windows.decommit, if_neg fun hg ↦ h ⟨hr, hg⟩]
  · rfl

/-- Recorded memory stays so when a range is released that shares no page with the rest. -/
theorem recorded_deallocate {host : Host} {m : MemoryState} (h : Recorded m) {addr size : DWORD}
    (hrel : Releasable host m addr size) : Recorded (deallocateMemory host m addr size).2 := by
  by_cases hr : Releases host m addr size
  · obtain ⟨s, hs, heq⟩ := deallocate_of_releases hr
    rw [heq]
    constructor
    · exact h.disjoint.sublist List.eraseP_sublist
    · intro r hmem a ha
      show s.Committed a
      rw [Space.Committed, Windows.page_decommit hs (hrel hr r hmem a ha)]
      exact h.backed r (List.eraseP_sublist.subset hmem) a ha
  · rw [deallocate_of_not_releases hr]
    exact h

/-! ## The calls -/

theorem recorded_sysMunmap {host : CallHost} {m : MemoryState} (h : Recorded m) {addr len : DWORD}
    (hs : m.mmapList = [] → Releasable host.toHost m addr len) :
    Recorded (sysMunmap host addr len m).state := by
  unfold sysMunmap
  split
  · exact h
  · next hempty =>
    exact recorded_deallocate h (hs (not_not.mp hempty))

theorem recorded_sysBrk {host : CallHost} {m : MemoryState} (h : Recorded m) {newBrk : DWORD}
    (hs : m.brk < newBrk → Room host.toHost m.remote.space m.memoryAllocations m.brk
      (newBrk - m.brk)) : Recorded (sysBrk host newBrk m).state := by
  unfold sysBrk
  split
  · exact h
  · split
    · exact h
    · split
      · next hlt =>
        split
        · exact h
        · next p m' hcall =>
          have hm' := recorded_allocate h (hs hlt) hcall
          split
          · exact hm'
          · exact ⟨hm'.disjoint, hm'.backed⟩
      · exact ⟨h.disjoint, h.backed⟩

theorem recorded_readMapping {host : CallHost} {args : MmapArgStruct} {ioh : Option MappedFile}
    {p : DWORD} {m : MemoryState} (h : Recorded m) :
    Recorded (readMapping host args ioh p m).state := by
  unfold readMapping
  cases ioh with
  | none => exact h
  | some f =>
    simp only
    split
    · exact h
    · exact ⟨h.disjoint, h.backed⟩

theorem recorded_fakeMmap {host : CallHost} {args : MmapArgStruct} {ioh : Option MappedFile}
    {m : MemoryState} (h : Recorded m)
    (hs : ¬args.WriteShared → Room host.toHost m.remote.space m.memoryAllocations args.addr
      args.len4k) : Recorded (fakeMmap host args ioh m).state := by
  unfold fakeMmap
  split
  · exact h
  · next hshared =>
    split
    · exact h
    · next p m' hcall =>
      have hm' := recorded_allocate h (hs hshared) hcall
      split
      · exact hm'
      · exact recorded_readMapping ⟨hm'.disjoint, hm'.backed⟩

/-- A mapping of Windows is made of pages that were free. -/
theorem recorded_mapFile {host : CallHost} {args : MmapArgStruct} {ioh : Option MappedFile}
    {m : MemoryState} (h : Recorded m) : Recorded (mapFile host args ioh m).state := by
  unfold mapFile
  simp only
  split
  · exact h
  · next hp =>
    have hfree := host.mapView_free _ _ _ _ hp
    refine ⟨h.disjoint, fun r hr a ha ↦ ?_⟩
    have hc := h.backed r hr a ha
    simp only [Result.state, Space.Committed]
    rw [Space.page_update_of_not_mem]
    · exact hc
    · intro hin
      have hpage := hfree (a / 4096 - _) (Nat.sub_lt_sub_right hin.1 hin.2)
      rw [Nat.add_sub_cancel' hin.1] at hpage
      exact Page.ne_free_of_state_commit hc hpage

theorem recorded_mapRange {host : CallHost} {args : MmapArgStruct} {ioh : Option MappedFile}
    {m : MemoryState} (h : Recorded m) (hs : args.Fake ioh → ¬args.WriteShared →
      Room host.toHost m.remote.space m.memoryAllocations args.addr args.len4k) :
    Recorded (mapRange host args ioh m).state := by
  unfold mapRange
  split
  · next hfake => exact recorded_fakeMmap h (hs hfake)
  · exact recorded_mapFile h

theorem givesUp_congr {s s' : Space} (hfree : ∀ n, s'.page n = .free ↔ s.page n = .free)
    {addr endAddr : DWORD} (h : GivesUp s addr endAddr) : GivesUp s' addr endAddr := by
  rcases h with h | h | h | ⟨g, hg, he, ⟨hfirst, n, hn, htaken⟩, habove⟩
  · exact .inl h
  · exact .inr (.inl h)
  · exact .inr (.inr (.inl h))
  · have hsplit : Split s' g := ⟨(hfree _).mpr hfirst, n, hn, fun h ↦ htaken ((hfree n).mp h)⟩
    refine .inr (.inr (.inr ⟨g, hg, he, hsplit, habove.imp id ?_⟩))
    rintro ⟨n, hn, htaken⟩
    exact ⟨n, hn, fun h ↦ htaken ((hfree n).mp h)⟩

/-- There is still room once the range itself has been unmapped. -/
theorem room_deallocate {host : Host} {m : MemoryState} {addr size : DWORD}
    (h : Room host m.remote.space (kept host m addr size) addr size)
    (hlow : addr.toNat < 65536 → addr = 0#32 ∨ ¬Releases host m addr size) (hz : addr ≠ 0#32) :
    Room host (deallocateMemory host m addr size).2.remote.space
      (deallocateMemory host m addr size).2.memoryAllocations addr size := by
  by_cases hr : Releases host m addr size
  · obtain ⟨s, hs, heq⟩ := deallocate_of_releases hr
    have hhigh : ¬addr.toNat < 65536 := fun hlt ↦ (hlow hlt).elim hz fun hn ↦ hn hr
    rw [kept, if_pos hr] at h
    rw [heq]
    refine h.imp (givesUp_congr (Windows.decommit_eq_free_iff hs)) (And.imp_left fun hback ↦ ?_)
    unfold Backable at hback ⊢
    rw [if_neg hhigh] at hback ⊢
    simpa only [Windows.decommit_eq_free_iff hs] using hback
  · rw [kept, if_neg hr] at h
    rw [deallocate_of_not_releases hr]
    exact h

theorem recorded_sysMmap {host : CallHost} {m : MemoryState} (h : Recorded m)
    {args : MmapArgStruct} (hs : Sound host m (.mmap args)) :
    Recorded (sysMmap host args m).state := by
  unfold sysMmap
  simp only
  split
  · exact h
  · next haligned =>
    split
    · exact h
    · next hrange =>
      split
      · exact h
      · next hopen =>
        have haccepted : args.Accepted host := by
          refine ⟨not_not.mp haligned, fun hfd ↦ ⟨?_, ?_⟩⟩
          · rw [← BitVec.not_lt]
            exact fun hlt ↦ hrange ⟨hfd, hlt⟩
          · rw [← Option.not_isNone, Bool.not_eq_true']
            exact eq_false_of_ne_true fun hn ↦ hopen ⟨hfd, hn⟩
        have hs' := hs haccepted
        change Recorded (Result.state (if args.addr = 0#32 then mapRange host args (args.ioh host) m
          else Comp.bind (sysMunmap host args.addr args.len4k)
            (fun _ ↦ mapRange host args (args.ioh host)) m))
        by_cases hz : args.addr = 0#32
        · rw [if_pos hz]
          apply recorded_mapRange h
          intro hfake hshared
          have hroom := ((hs' (.inl hz)).2 hfake hshared).1
          exact hroom.imp_right fun hback ↦ ⟨hback.1, fun hne ↦ absurd hz hne⟩
        · rw [if_neg hz]
          unfold Comp.bind sysMunmap
          by_cases hempty : m.mmapList = []
          · rw [if_neg (not_not.mpr hempty)]
            obtain ⟨hrel, hroom⟩ := hs' (.inr hempty)
            apply recorded_mapRange (recorded_deallocate h (hrel hz))
            intro hfake hshared
            exact room_deallocate (hroom hfake hshared).1 (hroom hfake hshared).2 hz
          · rw [if_pos hempty]
            exact h

theorem recorded_run {host : CallHost} {m : MemoryState} (h : Recorded m) {call : Call}
    (hs : Sound host m call) : Recorded (call.run host m).state := by
  cases call with
  | brk newBrk => exact recorded_sysBrk h hs
  | mmap args => exact recorded_sysMmap h hs
  | munmap addr len => exact recorded_sysMunmap h hs

/-! ## Runs -/

/-- A process that makes its calls one after the other, until one of them does not return. -/
structure Running where
  m : MemoryState
  running : Bool := true

/-- The next call, and what the system answers in it. -/
def Running.step (r : Running) (i : CallHost × Call) : Running :=
  if r.running then ⟨(i.2.run i.1 r.m).state, (i.2.run i.1 r.m).returned⟩ else r

/-- The call meets its condition in the state it is made in. -/
def Running.Sound (r : Running) (i : CallHost × Call) : Prop :=
  r.running → Memory.Sound i.1 r.m i.2

/-- Whatever a freshly loaded image has recorded, if it is disjoint and committed then it stays
so in every state of a run whose calls all meet their conditions. -/
theorem trail_recorded {m : MemoryState} (hm : Recorded m) (calls : List (CallHost × Call))
    (h : Along Running.step Running.Sound { m := m } calls) :
    ∀ r ∈ trail Running.step { m := m } calls, Recorded r.m := by
  have hstep : ∀ (r : Running) i, Recorded r.m → r.Sound i → Recorded (r.step i).m := by
    intro r i hr hi
    unfold Running.step
    split
    · next hrun => exact recorded_run hr (hi hrun)
    · exact hr
  exact trail_of_along hstep hm h

/-- A host without files to map. -/
def plainHost : CallHost where
  windows := Windows.generous
  stale _ _ _ := ⟨0#32, 0#32, .free⟩
  failure _ := -EINVAL
  file _ := none
  mapView _ _ _ _ := 0#32
  mapView_free _ _ _ _ h := absurd rfl h

/-- The pages of a process with two pages of program at `0x08048000` and its stack below
`0x70000000`. -/
def imageSpace : Space where
  page n :=
    if 0x8040 ≤ n ∧ n < 0x8050 then
      if 0x8048 ≤ n ∧ n < 0x804A then .committed 0x8040 { read := true, write := true }
      else .reserved 0x8040
    else if 0x6FF00 ≤ n ∧ n < 0x70000 then .committed 0x6FF00 { read := true, write := true }
    else .free
  outside n h := by
    unfold granulePages userPages at h
    rw [if_neg (by omega), if_neg (by omega)]

/-- The process. -/
def image : MemoryState where
  remote := ⟨imageSpace, fun _ ↦ 0⟩
  memoryAllocations :=
    [⟨0x6FF00000#32, 0x100000#32, PAGE_EXECUTE_READWRITE⟩,
      ⟨0x08048000#32, 0x2000#32, PAGE_EXECUTE_READWRITE⟩]
  brk := 0x0804A000#32

theorem covers_image {r : MemoryAlloc} (h : r ∈ image.memoryAllocations) {a : Nat}
    (ha : r.Covers a) : 0x6FF00000 ≤ a ∧ a < 0x70000000 ∨ 0x08048000 ≤ a ∧ a < 0x0804A000 := by
  simp only [image, List.mem_cons, List.not_mem_nil, or_false] at h
  rcases h with rfl | rfl
  · exact .inl ha
  · exact .inr ha

theorem recorded_image : Recorded image := by
  constructor
  · simp only [image, List.pairwise_cons, List.mem_singleton, List.not_mem_nil, false_implies,
      implies_true, List.Pairwise.nil, and_true, forall_eq]
    intro a ha ha'
    simp only [MemoryAlloc.Covers, BitVec.toNat_ofNat] at ha ha'
    omega
  · intro r hr a ha
    have hin := covers_image hr ha
    simp only [Space.Committed, image, imageSpace]
    rcases hin with hin | hin
    · rw [if_neg (by omega), if_pos (by omega)]
      rfl
    · rw [if_pos (by omega), if_pos (by omega)]
      rfl

/-- A private anonymous mapping of some pages at an address. -/
def anonymous (addr len : DWORD) : Call :=
  .mmap ⟨addr, len, PROT_WRITE, MAP_ANONYMOUS, 0#32, 0#32⟩

/-- The process grows its break by two pages, maps three and unmaps them. -/
def threeCalls : List (CallHost × Call) :=
  [(plainHost, .brk 0x0804C000#32), (plainHost, anonymous 0x6FEF0000#32 0x3000#32),
    (plainHost, .munmap 0x6FEF0000#32 0x3000#32)]

/-- Its records with the one of the break. -/
def grownRecords : List MemoryAlloc :=
  image.memoryAllocations ++ [⟨0x0804A000#32, 0x2000#32, PAGE_EXECUTE_READWRITE⟩]

theorem covers_grown {r : MemoryAlloc} (h : r ∈ grownRecords) {a : Nat} (ha : r.Covers a) :
    0x6FF00000 ≤ a ∧ a < 0x70000000 ∨ 0x08048000 ≤ a ∧ a < 0x0804C000 := by
  rcases List.mem_append.mp h with h | h
  · rcases covers_image h ha with hin | hin
    · exact .inl hin
    · exact .inr ⟨hin.1, Nat.lt_trans hin.2 (by decide)⟩
  · obtain rfl := List.mem_singleton.mp h
    exact .inr ⟨Nat.le_trans (by decide) ha.1, ha.2⟩

theorem sound_brk : Sound plainHost image (.brk 0x0804C000#32) := by
  refine fun _ ↦ .inr ⟨?_, fun _ r hr a ha hin ↦ ?_⟩
  · unfold Backable
    rw [if_neg (by decide)]
    refine ⟨by decide, fun a ha hlast hfree ↦ ?_⟩
    have ha' : 0x0804A000 ≤ a := ha
    have hlast' : a < 0x0804C000 := hlast
    simp only [image, imageSpace] at hfree
    rw [if_pos (by omega), if_neg (by omega)] at hfree
    cases hfree
  · have hlow : 0x0804A000 ≤ a := hin.1
    have hhigh : a < 0x0804C000 := hin.2
    have hcov := covers_image hr ha
    omega

theorem sound_anonymous {m : MemoryState} (hrecords : m.memoryAllocations = grownRecords)
    (hpages : ∀ i < 3, m.remote.space.page (0x6FEF0 + i) = .free) :
    Sound plainHost m (anonymous 0x6FEF0000#32 0x3000#32) := by
  have hunrecorded : ¬Releases plainHost.toHost m 0x6FEF0000#32 0x3000#32 := by
    rintro ⟨hrecord, -⟩
    rw [hrecords] at hrecord
    exact absurd hrecord (by decide)
  refine fun _ _ ↦ ⟨fun _ hrel ↦ absurd hrel hunrecorded, fun _ _ ↦ ⟨.inr ⟨?_, fun _ ↦ ?_⟩, ?_⟩⟩
  · unfold Backable
    rw [if_neg (by decide)]
    refine ⟨by decide, fun a ha hlast _ ↦ ?_⟩
    have ha' : 0x6FEF0000 ≤ a := ha
    have hlast' : a < 0x6FEF3000 := hlast
    have hgranule : a / 4096 / 16 * 16 = 0x6FEF0 := by omega
    rw [hgranule]
    exact hpages 0 (by decide)
  · intro r hr a ha hin
    have hkept : kept plainHost.toHost m 0x6FEF0000#32 0x3000#32 = grownRecords := by
      rw [kept, if_neg hunrecorded, hrecords]
    have hr' : r ∈ grownRecords := hkept ▸ hr
    have hlow : 0x6FEF0000 ≤ a := hin.1
    have hhigh : a < 0x6FEF3000 := hin.2
    have hcov := covers_grown hr' ha
    omega
  · exact fun hlt ↦ absurd hlt (by decide)

/-- Nothing of the mapping is left in the records. -/
theorem trail_recorded_threeCalls :
    (∀ r ∈ trail Running.step { m := image } threeCalls, Recorded r.m) ∧
      (threeCalls.foldl Running.step { m := image }).m.memoryAllocations = grownRecords := by
  have hrecords : ((threeCalls.take 1).foldl Running.step { m := image }).m.memoryAllocations =
      grownRecords := by
    decide +kernel
  have hpages : ∀ i < 3, ((threeCalls.take 1).foldl Running.step
      { m := image }).m.remote.space.page (0x6FEF0 + i) = .free := by
    decide +kernel
  have hleft : others 0x6FEF0000#32 0x3000#32
      ((threeCalls.take 2).foldl Running.step { m := image }).m.memoryAllocations =
        grownRecords := by
    decide +kernel
  constructor
  · apply trail_recorded recorded_image
    refine ⟨fun _ ↦ sound_brk, fun _ ↦ sound_anonymous hrecords hpages, ?_, trivial⟩
    intro _ _ _ r hr a ha hgone
    have hr' : r ∈ grownRecords := hleft ▸ hr
    have hcov := covers_grown hr' ha
    rw [Windows.Decommits, if_neg (by decide)] at hgone
    have hlow : 0x6FEF0 ≤ a / 4096 := hgone.1
    have hhigh : a / 4096 < 0x6FEF3 := hgone.2
    omega
  · decide +kernel

/-- The second page of the program is mapped once more: it is committed already, so that the
allocation succeeds, and it is recorded twice. -/
theorem overlappingHint_not_recorded :
    Recorded image ∧
      ¬∀ r ∈ trail Running.step { m := image } [(plainHost, anonymous 0x08049000#32 0x1000#32)],
        Recorded r.m := by
  refine ⟨recorded_image, fun h ↦ ?_⟩
  have hlast := (h _ (foldl_mem_trail _ _ _)).disjoint
  have hrecords : (Running.step { m := image }
      (plainHost, anonymous 0x08049000#32 0x1000#32)).m.memoryAllocations =
      image.memoryAllocations ++ [⟨0x08049000#32, 0x1000#32, PAGE_EXECUTE_READWRITE⟩] := by
    decide +kernel
  rw [List.foldl_cons, List.foldl_nil, hrecords] at hlast
  have hpair := (List.pairwise_append.mp hlast).2.2 
    ⟨0x08048000#32, 0x2000#32, PAGE_EXECUTE_READWRITE⟩ (by decide) _ (List.mem_singleton_self _)
  exact hpair 0x08049000 (by decide) (by decide)

end Keow.Memory
