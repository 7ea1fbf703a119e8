import Keow.Memory.Recorded

/-!
# What a failed allocation leaves behind

The allocator takes nothing back when it gives up. What it took before is reserved or committed
then without a record.
-/

namespace Keow.Memory

open Keow.Base Keow.Kernel
open Keow.Exec (MemoryAlloc recordAlloc PAGE_EXECUTE_READWRITE)

/-- What an allocation may make of a page: a free one may be taken, a reserved one committed. -/
def Extends (p p' : Page) : Prop :=
  p' = p ∨ p = .free ∨ ∃ b access, p = .reserved b ∧ p' = .committed b access

theorem Extends.trans {p p' p'' : Page} (h : Extends p p') (h' : Extends p' p'') :
    Extends p p'' := by
  rcases h with rfl | rfl | ⟨b, access, rfl, rfl⟩
  · exact h'
  · exact .inr (.inl rfl)
  · rcases h' with rfl | h' | ⟨_, _, h', -⟩
    · exact .inr (.inr ⟨b, access, rfl, rfl⟩)
    · cases h'
    · cases h'

/-- What an allocation may make of a space: outside of the pages from `lo` on and before `hi` it
changes nothing. -/
structure Extended (lo hi : Nat) (s s' : Space) : Prop where
  page : ∀ n, Extends (s.page n) (s'.page n)
  outside : ∀ n, n < lo ∨ hi ≤ n → s'.page n = s.page n

theorem Extended.refl (lo hi : Nat) (s : Space) : Extended lo hi s s :=
  ⟨fun _ ↦ .inl rfl, fun _ _ ↦ rfl⟩

theorem Extended.trans {lo hi : Nat} {s s' s'' : Space} (h : Extended lo hi s s')
    (h' : Extended lo hi s' s'') : Extended lo hi s s'' :=
  ⟨fun n ↦ (h.page n).trans (h'.page n), fun n hn ↦ (h'.outside n hn).trans (h.outside n hn)⟩

theorem extended_update {lo hi first last : Nat} {s : Space} {f : Page → Page}
    (hf : ∀ n, first ≤ n → n < last → Extends (s.page n) (f (s.page n)))
    (hfirst : lo ≤ first) (hlast : last ≤ hi) : Extended lo hi s (s.update first last f) := by
  constructor
  · intro n
    rcases Space.page_update_cases s first last n f with h | ⟨h₁, h₂, h⟩
    · exact .inl h
    · rw [h]
      exact hf n h₁ h₂
  · intro n hn
    exact Space.page_update_of_not_mem f (by omega)

theorem extended_reserve {lo hi first last b : Nat} {s : Space} (hfree : s.AllFree first last)
    (hfirst : lo ≤ first) (hlast : last ≤ hi) :
    Extended lo hi s (s.update first last (Page.reserve b)) := by
  apply extended_update _ hfirst hlast
  intro n hn hn'
  have := hfree (n - first) (by omega)
  rw [show first + (n - first) = n by omega] at this
  exact .inr (.inl this)

/-- The pages that an allocation may change: those of the granules that hold the range, or any
page when it starts below 64k, where Windows chooses, or goes round the address space. -/
def reach (addr endAddr : DWORD) : Nat × Nat :=
  if 65536 ≤ addr.toNat ∧ endAddr.toNat ≤ 0xFFFF0000 then
    (addr.toNat / 65536 * 16, (endAddr.toNat + 65535) / 65536 * 16)
  else (0, userPages)

variable {w : Windows} {endAddr : DWORD} {s s' : Space} {lo hi : Nat}

/-- The bounds fit the range: either every page is within, or the pass does not leave them. -/
def Bounds (endAddr : DWORD) (lo hi : Nat) : Prop :=
  lo = 0 ∧ hi = userPages ∨
    16 ≤ lo ∧ endAddr.toNat ≤ 0xFFFF0000 ∧ hi = (endAddr.toNat + 65535) / 65536 * 16

theorem bounds_reach (addr endAddr : DWORD) :
    Bounds endAddr (reach addr endAddr).1 (reach addr endAddr).2 := by
  unfold reach
  split
  · next h => exact .inr ⟨by omega, h.2, rfl⟩
  · exact .inl ⟨rfl, rfl⟩

/-- A turn is never longer than what is left of the range, rounded up. -/
theorem toNat_chunk_le {p : Pass} {k : Nat} (hu : p.unit.toNat = 2 ^ k) (hk : k = 12 ∨ k = 16)
    {tmp : DWORD} (mbi : MemoryBasicInformation) (hlt : tmp < endAddr) :
    (p.chunk endAddr tmp mbi).toNat ≤ endAddr.toNat - tmp.toNat + (2 ^ k - 1) := by
  have hunit : (p.unit - 1#32).toNat = 2 ^ k - 1 := by
    rw [BitVec.toNat_sub_of_le (by
      rw [BitVec.le_def, hu]
      rcases hk with rfl | rfl <;> decide), hu]
    rfl
  have hleft : (endAddr - tmp).toNat = endAddr.toNat - tmp.toNat :=
    BitVec.toNat_sub_of_le (BitVec.le_of_lt hlt)
  unfold Pass.chunk
  simp only
  generalize mbi.regionSize - (tmp - mbi.baseAddress) = rest
  have hmin : (if rest < endAddr - tmp then rest else endAddr - tmp).toNat ≤
      endAddr.toNat - tmp.toNat := by
    split
    · next h =>
      rw [BitVec.lt_def] at h
      omega
    · omega
  rw [toNat_and_not_sub_one _ _ hu, BitVec.toNat_add, hunit]
  omega

/-- Above the user address space nothing is taken. -/
theorem reserve_space_top {c c' : Cursor} (htmp : userEnd ≤ c.tmp.toNat)
    (h : (reservePass w).turn w endAddr c = some c') : c'.space = c.space := by
  obtain ⟨-, -, ⟨-, hs⟩ | ⟨-, hcall⟩⟩ := Pass.turn_cases h
  · exact hs
  · generalize (reservePass w).chunk endAddr c.tmp c'.mbi = len at hcall
    have hcall' : w.reserve c.space c.tmp len = (c.tmp, c'.space) := hcall
    have hz : c.tmp ≠ 0#32 := by
      intro h
      rw [h] at htmp
      exact absurd htmp (by decide)
    rw [Windows.reserve, if_neg hz] at hcall'
    split at hcall'
    · next hok =>
      have hpos : 0 < len.toNat := Nat.pos_of_ne_zero fun h ↦ hok.1 (BitVec.eq_of_toNat_eq h)
      have hlast := hok.2.2.1
      unfold pageEnd at hlast
      unfold userEnd at htmp
      omega
    · injection hcall' with hp _
      exact absurd hp.symm hz

theorem commit_space_top {c c' : Cursor} (htmp : userEnd ≤ c.tmp.toNat)
    (h : (commitPass w).turn w endAddr c = some c') : c'.space = c.space := by
  obtain ⟨-, -, ⟨-, hs⟩ | ⟨-, hcall⟩⟩ := Pass.turn_cases h
  · exact hs
  · generalize (commitPass w).chunk endAddr c.tmp c'.mbi = len at hcall
    have hcall' : w.commit c.space c.tmp len = (c.tmp, c'.space) := hcall
    rw [Windows.commit] at hcall'
    split at hcall'
    · next hok =>
      have hpos : 0 < len.toNat := Nat.pos_of_ne_zero fun h ↦ hok.1 (BitVec.eq_of_toNat_eq h)
      have hlast := hok.2.1
      unfold pageEnd at hlast
      unfold userEnd at htmp
      omega
    · injection hcall' with _ hs
      exact hs.symm

/-- Where a pass stands that has kept to the bounds. -/
structure Keeps (k lo hi : Nat) (s : Space) (c : Cursor) : Prop where
  aligned : c.tmp.toNat % 2 ^ k = 0
  ge : lo * 4096 ≤ c.tmp.toNat
  extended : Extended lo hi s c.space

/-- A turn keeps to the bounds if what it does to the space does. -/
theorem keeps_of_turn {p : Pass} {k : Nat} (hu : p.unit.toNat = 2 ^ k) (hk : k = 12 ∨ k = 16)
    (hbounds : Bounds endAddr lo hi) {c c' : Cursor} (hc : Keeps k lo hi s c)
    (hlt : c.tmp < endAddr) (h : p.turn w endAddr c = some c')
    (hext : Extended lo hi c.space c'.space) : Keeps k lo hi s c' := by
  obtain ⟨-, htmp, -⟩ := Pass.turn_cases h
  have hmod : (p.chunk endAddr c.tmp c'.mbi).toNat % 2 ^ k = 0 := toNat_chunk_mod hu _ _
  have hlen := toNat_chunk_le hu hk c'.mbi hlt
  have haligned := hc.aligned
  have hge := hc.ge
  rw [BitVec.lt_def] at hlt
  refine ⟨?_, ?_, hc.extended.trans hext⟩
  · rw [htmp, BitVec.toNat_add]
    rcases hk with rfl | rfl <;> omega
  · rcases hbounds with ⟨rfl, -⟩ | ⟨-, hend, -⟩
    · rw [Nat.zero_mul]
      exact Nat.zero_le _
    · rw [htmp, BitVec.toNat_add, Nat.mod_eq_of_lt]
      · omega
      · rcases hk with rfl | rfl <;> omega

/-- The pages of a turn are within the bounds. -/
theorem next_le_of_bounds {k : Nat} (hk : k = 12 ∨ k = 16) (hbounds : Bounds endAddr lo hi)
    {c c' : Cursor} (hadv : Advances w k endAddr c c') : c'.tmp.toNat / 4096 ≤ hi := by
  have hle := hadv.le
  have hlt := hadv.lt
  have haligned := hadv.aligned
  rcases hbounds with ⟨-, rfl⟩ | ⟨-, -, rfl⟩
  · unfold userEnd at hle
    omega
  · rcases hk with rfl | rfl <;> omega

theorem Keeps.reserve_turn (hbounds : Bounds endAddr lo hi) {c c' : Cursor}
    (hc : Keeps 16 lo hi s c) (hlt : c.tmp < endAddr)
    (h : (reservePass w).turn w endAddr c = some c') : Keeps 16 lo hi s c' := by
  apply keeps_of_turn (p := reservePass w) rfl (.inr rfl) hbounds hc hlt h
  by_cases huser : c.tmp.toNat < userEnd
  · obtain ⟨hadv, ⟨hs, -⟩ | ⟨-, hall, hs⟩⟩ := Memory.reserve_turn hc.aligned hlt huser h
    · rw [hs]
      exact Extended.refl _ _ _
    · have hge := hc.ge
      rw [hs]
      exact extended_reserve hall (by omega) (next_le_of_bounds (.inr rfl) hbounds hadv)
  · rw [reserve_space_top (Nat.le_of_not_lt huser) h]
    exact Extended.refl _ _ _

theorem Keeps.commit_turn (hbounds : Bounds endAddr lo hi) {c c' : Cursor}
    (hc : Keeps 12 lo hi s c) (hlt : c.tmp < endAddr)
    (h : (commitPass w).turn w endAddr c = some c') : Keeps 12 lo hi s c' := by
  apply keeps_of_turn (p := commitPass w) rfl (.inl rfl) hbounds hc hlt h
  by_cases huser : c.tmp.toNat < userEnd
  · obtain ⟨hadv, ⟨hs, -⟩ | ⟨hstate, hs⟩⟩ := Memory.commit_turn hc.aligned hlt huser h
    · rw [hs]
      exact Extended.refl _ _ _
    · have hge := hc.ge
      rw [hs]
      apply extended_update _ (by omega) (next_le_of_bounds (.inl rfl) hbounds hadv)
      intro n hn hlast
      have haligned := hadv.aligned
      have ht := hc.aligned
      rw [hadv.page_eq (.inl rfl) hc.aligned (by omega) (by omega) (by omega)]
      cases hp : c.space.page (c.tmp.toNat / 4096) with
      | free => exact .inr (.inl rfl)
      | reserved b => exact .inr (.inr ⟨b, _, rfl, rfl⟩)
      | committed b access =>
        rw [hp] at hstate
        cases hstate
  · rw [commit_space_top (Nat.le_of_not_lt huser) h]
    exact Extended.refl _ _ _

theorem pageEnd_place_le (w : Windows) (s : Space) {size : Nat} (hp : w.place s size ≠ 0) :
    pageEnd (w.place s size) size ≤ userPages := by
  have hle := (w.place_le s size hp).2
  unfold pageEnd userPages at *
  omega

/-- A reservation that is refused leaves the space alone, or it was made elsewhere. -/
theorem extended_of_refused_reserve (hbounds : Bounds endAddr lo hi) {c : Cursor}
    (hge : lo * 4096 ≤ c.tmp.toNat) (ht : c.tmp.toNat % 65536 = 0) {len : DWORD}
    (h : (w.reserve c.space c.tmp len).1 ≠ c.tmp) :
    Extended lo hi c.space (w.reserve c.space c.tmp len).2 := by
  by_cases hz : c.tmp = 0#32
  · rcases hbounds with ⟨rfl, rfl⟩ | ⟨hlo, -⟩
    · rw [Windows.reserve, if_pos hz]
      simp only
      split
      · exact Extended.refl _ _ _
      · next hp =>
        exact extended_reserve (w.place_free c.space len.toNat hp) (Nat.zero_le _)
          (pageEnd_place_le w c.space hp)
    · rw [hz] at hge
      have hzero : lo * 4096 ≤ 0 := hge
      omega
  · rw [Windows.reserve, if_neg hz] at h ⊢
    split at h
    · next hok =>
      exfalso
      apply h
      apply BitVec.eq_of_toNat_eq
      rw [BitVec.toNat_ofNat]
      have := c.tmp.isLt
      omega
    · next hno =>
      rw [if_neg hno]
      exact Extended.refl _ _ _

theorem commit_space_of_refused {c : Cursor} (ht : c.tmp.toNat % 2 ^ 12 = 0) {len : DWORD}
    (h : (w.commit c.space c.tmp len).1 ≠ c.tmp) :
    (w.commit c.space c.tmp len).2 = c.space := by
  rw [Windows.commit] at h ⊢
  split at h
  · exfalso
    apply h
    apply BitVec.eq_of_toNat_eq
    rw [BitVec.toNat_ofNat]
    have := c.tmp.isLt
    omega
  · next hno => rw [if_neg hno]

theorem extended_go_reserve (hbounds : Bounds endAddr lo hi) (fuel : Nat) {c : Cursor}
    (hc : Keeps 16 lo hi s c) :
    ((reservePass w).go w endAddr fuel c).Leaves (Extended lo hi s) :=
  Pass.go_leaves (fun _ _ hc hlt ht ↦ hc.reserve_turn hbounds hlt ht)
    (fun _ _ hc _ hno ↦
      hc.extended.trans (extended_of_refused_reserve hbounds hc.ge hc.aligned hno))
    (fun _ hc ↦ hc.extended) fuel hc

theorem extended_go_commit (hbounds : Bounds endAddr lo hi) (fuel : Nat) {c : Cursor}
    (hc : Keeps 12 lo hi s c) :
    ((commitPass w).go w endAddr fuel c).Leaves (Extended lo hi s) :=
  Pass.go_leaves (fun _ _ hc hlt ht ↦ hc.commit_turn hbounds hlt ht)
    (fun c len hc _ hno ↦ by
      rw [show ((commitPass w).alloc c.space c.tmp len).2 = c.space from
        commit_space_of_refused hc.aligned hno]
      exact hc.extended)
    (fun _ hc ↦ hc.extended) fuel hc

theorem Extended.widen (h : Extended lo hi s s') : Extended 0 userPages s s' :=
  ⟨h.page, fun n hn ↦ by rw [s.outside n (.inr (by omega)), s'.outside n (.inr (by omega))]⟩

theorem reach_le (addr endAddr : DWORD) :
    (reach addr endAddr).1 * 4096 ≤ addr.toNat - addr.toNat % 65536 := by
  unfold reach
  split
  · show addr.toNat / 65536 * 16 * 4096 ≤ _
    rw [Nat.mul_assoc]
    omega
  · show 0 * 4096 ≤ _
    omega

theorem extended_backRange {mbi : MemoryBasicInformation} {addr p : DWORD}
    (h : backRange w mbi s addr endAddr = some (p, s')) :
    Extended (reach addr endAddr).1 (reach addr endAddr).2 s s' := by
  have hbounds := bounds_reach addr endAddr
  have hle := reach_le addr endAddr
  generalize (reach addr endAddr).1 = lo at hbounds hle ⊢
  generalize (reach addr endAddr).2 = hi at hbounds ⊢
  have h64 := toNat_start64k mbi s addr
  have hreserve := extended_go_reserve (w := w) (s := s) hbounds scanFuel
    (c := start64k mbi s addr) ⟨by omega, by omega, Extended.refl _ _ _⟩
  unfold backRange at h
  unfold Pass.go start64k at hreserve
  split at h
  · cases h
  · next hrun =>
    rw [hrun] at hreserve
    cases h
    exact hreserve
  · next mbi₁ s₁ hrun =>
    rw [hrun] at hreserve
    have h4 := toNat_start4k mbi₁ s₁ addr
    have hcommit := extended_go_commit (w := w) (s := s₁) hbounds scanFuel
      (c := start4k mbi₁ s₁ addr) ⟨by omega, by omega, Extended.refl _ _ _⟩
    unfold Pass.go start4k at hcommit
    have hreserve : Extended lo hi s s₁ := hreserve
    split at h
    · cases h
    · next hrun' =>
      rw [hrun'] at hcommit
      cases h
      exact hreserve.trans hcommit
    · next hrun' =>
      rw [hrun'] at hcommit
      cases h
      exact hreserve.trans hcommit

/-- An allocation frees nothing and changes no committed page, and no page out of its reach. -/
theorem extended_allocate {mbi : MemoryBasicInformation} {addr size p : DWORD}
    (h : allocateMemAndProtectProcess w mbi s addr size = some (p, s')) :
    Extended (reach addr (addr + size)).1 (reach addr (addr + size)).2 s s' := by
  by_cases hplaced : addr = 0#32 ∧ w.place s size.toNat ≠ 0
  · obtain ⟨rfl, hp⟩ := hplaced
    have hreach : reach 0#32 (0#32 + size) = (0, userPages) := if_neg fun h ↦ absurd h.1 (by decide)
    rw [hreach]
    unfold allocateMemAndProtectProcess at h
    rw [if_pos rfl, Windows.reserve, if_pos rfl] at h
    simp only [if_neg hp] at h
    have hreserve : Extended 0 userPages s _ := extended_reserve (b := w.place s size.toNat / 4096)
      (w.place_free s size.toNat hp) (Nat.zero_le _) (pageEnd_place_le w s hp)
    exact hreserve.trans (extended_backRange h).widen
  · rw [allocate_eq_backRange mbi fun h ↦ by_contra fun h' ↦ hplaced ⟨h, h'⟩] at h
    exact extended_backRange h

/-! ## The calls -/

/-- What a refused allocation leaves of the memory of a process. -/
structure Refused (addr size : DWORD) (m m' : MemoryState) : Prop where
  records : m'.memoryAllocations = m.memoryAllocations
  mmapList : m'.mmapList = m.mmapList
  brk : m'.brk = m.brk
  space : Extended (reach addr (addr + size)).1 (reach addr (addr + size)).2 m.remote.space
    m'.remote.space

theorem Refused.refl (addr size : DWORD) (m : MemoryState) : Refused addr size m m :=
  ⟨rfl, rfl, rfl, Extended.refl _ _ _⟩

theorem refused_of_allocate {host : Host} {m m' : MemoryState} {addr size prot : DWORD}
    (h : allocateMemAndProtect host m addr size prot = some (-1#32, m')) :
    Refused addr size m m' := by
  unfold allocateMemAndProtect at h
  obtain ⟨⟨p, s'⟩, hcall, hm⟩ := Option.map_eq_some_iff.mp h
  cases hm
  refine ⟨?_, rfl, rfl, extended_allocate hcall⟩
  show recordAlloc m.memoryAllocations (-1#32) size prot = m.memoryAllocations
  rw [recordAlloc, if_pos rfl]

/-- No allocation of a range that ends at the last byte of the address space is granted. -/
theorem allocate_to_last {mbi : MemoryBasicInformation} {addr size p : DWORD}
    (he : addr + size = -1#32) (h : allocateMemAndProtectProcess w mbi s addr size = some (p, s')) :
    p = -1#32 := by
  rw [allocate_eq_backRange mbi] at h
  · apply eq_neg_one_of_givesUp _ h
    right
    left
    rw [he]
    decide
  · rintro rfl
    by_contra hp
    have hle := (w.place_le s size.toNat hp).2
    rw [BitVec.zero_add] at he
    rw [he] at hle
    revert hle
    unfold userPages
    simp only [BitVec.toNat_neg, BitVec.toNat_ofNat]
    omega

/-- A `sys_brk` that returns -1 leaves the records and the break. -/
theorem refused_of_brk {host : CallHost} {m m' : MemoryState} {newBrk : DWORD}
    (h : sysBrk host newBrk m = .ok (-1#32) m') : Refused m.brk (newBrk - m.brk) m m' := by
  unfold sysBrk at h
  split at h
  · injection h with _ hm
    rw [hm]
    exact Refused.refl _ _ _
  · split at h
    · injection h with _ hm
      rw [hm]
      exact Refused.refl _ _ _
    · next hge =>
      split at h
      · split at h
        · cases h
        · next p m₁ hcall =>
          split at h
          · next hp =>
            subst hp
            injection h with _ hm
            rw [← hm]
            exact refused_of_allocate hcall
          · next hp =>
            exfalso
            injection h with hr _
            unfold allocateMemAndProtect at hcall
            obtain ⟨⟨q, s'⟩, hcall', hq⟩ := Option.map_eq_some_iff.mp hcall
            cases hq
            apply hp
            apply allocate_to_last _ hcall'
            rw [hr, BitVec.add_comm, BitVec.sub_add_cancel]
      · next hle =>
        have heq : newBrk = m.brk :=
          BitVec.le_antisymm (BitVec.not_lt.mp hle) (BitVec.not_lt.mp hge)
        injection h with _ hm
        rw [← hm, heq]
        exact Refused.refl _ _ _

/-- The state in which `sys_mmap` makes its mapping: the range asked for is unmapped if it is
mapped as a whole. -/
def unmapped (host : CallHost) (args : MmapArgStruct) (m : MemoryState) : MemoryState :=
  if args.addr = 0#32 then m else (deallocateMemory host.toHost m args.addr args.len4k).2

theorem refused_of_mapRange {host : CallHost} {args : MmapArgStruct} {ioh : Option MappedFile}
    {m m' : MemoryState} {r : DWORD} (hshared : ¬args.WriteShared)
    (hrefused : (host.allocate m.remote.space args.addr args.len4k).map Prod.fst = some (-1#32))
    (h : mapRange host args ioh m = .ok r m') :
    r = -ENOMEM ∧ Refused args.addr args.len4k m m' := by
  rw [mapRange, if_pos (.inr (.inr (.inr hshared))), fakeMmap, if_neg hshared] at h
  obtain ⟨⟨p, s'⟩, hcall, hp⟩ := Option.map_eq_some_iff.mp hrefused
  have hp : p = -1#32 := hp
  subst hp
  obtain ⟨m₁, halloc⟩ : ∃ m₁, allocateMemAndProtect host.toHost m args.addr args.len4k
      PAGE_EXECUTE_READWRITE = some (-1#32, m₁) := by
    rw [allocateMemAndProtect, hcall]
    exact ⟨_, rfl⟩
  rw [halloc] at h
  simp only [if_true] at h
  injection h with hr hm
  rw [← hm]
  exact ⟨hr.symm, refused_of_allocate halloc⟩

/-- A `sys_mmap` whose allocation is refused fails, and has unmapped the range it asked for. -/
theorem refused_of_mmap {host : CallHost} {args : MmapArgStruct} {m m' : MemoryState} {r : DWORD}
    (hshared : ¬args.WriteShared)
    (hrefused : (host.allocate (unmapped host args m).remote.space args.addr args.len4k).map
      Prod.fst = some (-1#32)) (h : sysMmap host args m = .ok r m') :
    m' = m ∨ r = -ENOMEM ∧ Refused args.addr args.len4k (unmapped host args m) m' := by
  unfold sysMmap at h
  simp only at h
  split at h
  · injection h with _ hm
    exact .inl hm.symm
  split at h
  · injection h with _ hm
    exact .inl hm.symm
  split at h
  · injection h with _ hm
    exact .inl hm.symm
  right
  unfold unmapped at hrefused ⊢
  split at h
  · next hz =>
    rw [if_pos hz] at hrefused ⊢
    exact refused_of_mapRange hshared hrefused h
  · next hz =>
    rw [if_neg hz] at hrefused ⊢
    unfold Comp.bind sysMunmap at h
    by_cases hmaps : m.mmapList ≠ []
    · rw [if_pos hmaps] at h
      cases h
    · rw [if_neg hmaps] at h
      exact refused_of_mapRange hshared hrefused h

/-- An allocation that fails gives nothing up: committed pages are as they were, reserved pages
are reserved or committed in the same reservation, and pages out of its reach are as they were. It
makes no record. So a `sys_brk` that returns -1 leaves records and break as they were, and a
`sys_mmap` whose allocation is refused changes the records by the unmapping of the range it asks
for at most. -/
theorem refused_allocation (host : CallHost) (m m' : MemoryState) :
    (∀ addr size prot, allocateMemAndProtect host.toHost m addr size prot = some (-1#32, m') →
      Refused addr size m m') ∧
    (∀ newBrk, sysBrk host newBrk m = .ok (-1#32) m' → Refused m.brk (newBrk - m.brk) m m') ∧
    (∀ args r, ¬args.WriteShared →
      (host.allocate (unmapped host args m).remote.space args.addr args.len4k).map Prod.fst =
        some (-1#32) → sysMmap host args m = .ok r m' →
      m' = m ∨ r = -ENOMEM ∧ Refused args.addr args.len4k (unmapped host args m) m') :=
  ⟨fun _ _ _ ↦ refused_of_allocate, fun _ ↦ refused_of_brk, fun _ _ ↦ refused_of_mmap⟩

/-- A process that has taken all but the first granule. -/
def oneGranule : Space where
  page n := if 32 ≤ n ∧ n < userPages then .reserved 32 else .free
  outside n h := by
    apply if_neg
    unfold granulePages at h
    omega

/-- Windows when it reserves what it is asked to but has nothing left to commit. -/
def exhausted : Windows := { crowded with grantsCommit := fun _ _ _ ↦ false }

/-- A process without memory of its own, with its break in that granule. -/
def unbacked : MemoryState where
  remote := ⟨oneGranule, fun _ ↦ 0⟩
  brk := 0x10000#32

/-- It cannot move its break, and keeps the granule that was reserved for it. -/
theorem refused_allocation_brk :
    ∃ m', sysBrk { plainHost with windows := exhausted } 0x11000#32 unbacked = .ok (-1#32) m' ∧
      Refused 0x10000#32 0x1000#32 unbacked m' ∧ (m'.remote.space.page 16).state = .reserve := by
  obtain ⟨m', hrun⟩ := Result.ok_of_value (a := -1#32)
    (r := sysBrk { plainHost with windows := exhausted } 0x11000#32 unbacked) (by decide +kernel)
  have hpage : ((sysBrk { plainHost with windows := exhausted } 0x11000#32
      unbacked).state.remote.space.page 16).state = .reserve := by
    decide +kernel
  rw [hrun] at hpage
  exact ⟨m', hrun, (refused_allocation _ unbacked m').2.1 0x11000#32 hrun, hpage⟩

/-- The granule that was reserved for a page stays reserved when the page cannot be committed. -/
theorem refusedCommit_reserved :
    ¬∀ (w : Windows) (mbi : MemoryBasicInformation) (s : Space) (addr size : DWORD) (s' : Space),
      allocateMemAndProtectProcess w mbi s addr size = some (-1#32, s') →
      ∀ n, (s'.page n).state = (s.page n).state := by
  intro h
  have hcall : (allocateMemAndProtectProcess exhausted staleBuffer oneGranule 0x10000#32
      0x1000#32).map (fun r ↦ (r.1, (r.2.page 16).state)) = some (-1#32, .reserve) := by
    decide +kernel
  obtain ⟨⟨p, s'⟩, hs', hpage⟩ := Option.map_eq_some_iff.mp hcall
  injection hpage with hp hstate
  have hp : p = -1#32 := hp
  subst hp
  have hsame := h exhausted staleBuffer oneGranule 0x10000#32 0x1000#32 s' hs' 16
  rw [hstate] at hsame
  cases hsame

end Keow.Memory
