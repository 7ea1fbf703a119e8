import Keow.Memory.Loops

/-!
# What the allocator returns

An address that `AllocateMemAndProtectProcess` returns need not be backed. Free pages of a granule
whose first page is taken are skipped by both loops, below 64k a reservation that finds no room
looks like one at address 0, and above the user address space the loops believe what is left in
the buffer of `VirtualQueryEx`.
-/

namespace Keow.Memory

open Keow.Base Keow.Kernel

variable {w : Windows} {endAddr : DWORD} {s : Space}

theorem backRange_of_not_finished {mbi : MemoryBasicInformation} {addr p : DWORD} {s' : Space}
    (h : ∀ c c' : Cursor, (reservePass w).go w endAddr scanFuel (start64k mbi s addr) =
      .finished c.mbi c.space → (commitPass w).go w endAddr scanFuel
        (start4k c.mbi c.space addr) ≠ .finished c'.mbi c'.space)
    (hcall : backRange w mbi s addr endAddr = some (p, s')) : p = -1#32 := by
  unfold backRange at hcall
  split at hcall
  · cases hcall
  · cases hcall
    rfl
  · next mbi₁ s₁ hfin =>
    split at hcall
    · cases hcall
    · cases hcall
      rfl
    · next mbi₂ s₂ hfin' =>
      have hno := h ⟨mbi₁, addr, s₁⟩ ⟨mbi₂, addr, s₂⟩
      unfold Pass.go start64k start4k at hno
      exact absurd hfin' (hno hfin)

theorem backRange_of_finished {mbi : MemoryBasicInformation} {addr : DWORD} {c c' : Cursor}
    (h : (reservePass w).go w endAddr scanFuel (start64k mbi s addr) = .finished c.mbi c.space)
    (h' : (commitPass w).go w endAddr scanFuel (start4k c.mbi c.space addr) =
      .finished c'.mbi c'.space) : backRange w mbi s addr endAddr = some (addr, c'.space) := by
  unfold backRange
  rw [show (reservePass w).run w endAddr scanFuel mbi (addr &&& ~~~(0x10000#32 - 1#32)) s = _
    from h]
  simp only
  rw [show (commitPass w).run w endAddr scanFuel c.mbi (addr &&& ~~~(0x1000#32 - 1#32)) c.space = _
    from h']

/-! ## Passes that do not finish -/

theorem toNat_chunk_mod {p : Pass} {k : Nat} (hu : p.unit.toNat = 2 ^ k) (tmp : DWORD)
    (mbi : MemoryBasicInformation) : (p.chunk endAddr tmp mbi).toNat % 2 ^ k = 0 := by
  unfold Pass.chunk
  rw [toNat_and_not_sub_one _ _ hu]
  exact Nat.sub_mod_eq_zero_of_mod_eq (Nat.mod_mod _ _).symm

theorem aligned_of_reserve_turn {c c' : Cursor} (hc : c.tmp.toNat % 65536 = 0)
    (ht : (reservePass w).turn w endAddr c = some c') : c'.tmp.toNat % 65536 = 0 := by
  have htmp := (Pass.turn_cases ht).2.1
  have hlen : ((reservePass w).chunk endAddr c.tmp c'.mbi).toNat % 65536 = 0 :=
    toNat_chunk_mod (p := reservePass w) (k := 16) rfl c.tmp c'.mbi
  rw [htmp, BitVec.toNat_add]
  omega

/-- The first pass cannot get past the last granule of the address space. -/
theorem reserve_ne_finished_of_last (he : 0xFFFF0000 < endAddr.toNat) {c : Cursor}
    (hc : c.tmp.toNat % 65536 = 0) (fuel : Nat) (mbi : MemoryBasicInformation) (s' : Space) :
    (reservePass w).go w endAddr fuel c ≠ .finished mbi s' := by
  apply Pass.go_ne_finished (I := fun c ↦ c.tmp.toNat % 65536 = 0) _ _ fuel hc
  · intro c hc
    have := c.tmp.isLt
    rw [BitVec.lt_def]
    omega
  · exact fun c c' hc ht ↦ aligned_of_reserve_turn hc ht

/-- Neither can it get past a split granule. -/
theorem reserve_ne_finished_of_ahead {g : Nat} (hs : Split s g) (he : 65536 * g < endAddr.toNat)
    {c : Cursor} (hc : Ahead s g c) (fuel : Nat) (mbi : MemoryBasicInformation) (s' : Space) :
    (reservePass w).go w endAddr fuel c ≠ .finished mbi s' := by
  apply Pass.go_ne_finished (I := Ahead s g) _ _ fuel hc
  · intro c hc
    have := hc.le
    rw [BitVec.lt_def]
    omega
  · exact fun c c' hc ht ↦ (hc.turn hs he ht).1

/-- The buffer was filled by the query of the region that ends here. -/
def AtEnd (c : Cursor) : Prop := c.mbi.baseAddress + c.mbi.regionSize = c.tmp

/-- A loop makes no way where its buffer says that nothing is left of the region. -/
theorem chunk_of_atEnd {p : Pass} {c : Cursor} (hc : AtEnd c) :
    p.chunk endAddr c.tmp c.mbi = 0#32 := by
  have hrest : c.mbi.regionSize - (c.tmp - c.mbi.baseAddress) = 0#32 := by
    rw [← hc, BitVec.add_comm, BitVec.add_sub_cancel, BitVec.sub_self]
  have hmin : (if (0#32 : DWORD) < endAddr - c.tmp then 0#32 else endAddr - c.tmp) = 0#32 := by
    split
    · rfl
    · next h =>
      rw [BitVec.lt_def] at h
      apply BitVec.eq_of_toNat_eq
      show _ = 0
      simp only [BitVec.toNat_ofNat] at h
      omega
  unfold Pass.chunk
  simp only [hrest, hmin, BitVec.zero_add, BitVec.and_not_self]
  rfl

/-- A turn of the second pass that does not come to the end of the range goes through to the end
of the region. -/
theorem atEnd_of_commit_turn {c c' : Cursor} (ht : c.tmp.toNat % 2 ^ 12 = 0)
    (hlt : c.tmp < endAddr) (he : userEnd < endAddr.toNat) (huser : c.tmp.toNat < userEnd)
    (h : (commitPass w).turn w endAddr c = some c') : AtEnd c' := by
  obtain ⟨hadv, -⟩ := commit_turn ht hlt huser h
  have hge := hadv.ge
  have hlt' := hadv.lt
  have haligned := hadv.aligned
  have hle := w.region_le c.space (c.tmp.toNat / 4096) (by
    unfold userEnd userPages at *
    omega)
  unfold AtEnd
  apply BitVec.eq_of_toNat_eq
  unfold userEnd userPages at *
  rw [hadv.mbi]
  simp only
  rw [BitVec.toNat_add, BitVec.toNat_ofNat]
  omega

/-- The second pass cannot get past the user address space. -/
theorem commit_ne_finished (he : userEnd < endAddr.toNat) {c : Cursor}
    (ht : c.tmp.toNat % 2 ^ 12 = 0) (huser : c.tmp.toNat < userEnd) (fuel : Nat)
    (mbi : MemoryBasicInformation) (s' : Space) :
    (commitPass w).go w endAddr fuel c ≠ .finished mbi s' := by
  apply Pass.go_ne_finished (I := fun c ↦ c.tmp.toNat % 2 ^ 12 = 0 ∧
    (c.tmp.toNat < userEnd ∨ c.tmp.toNat = userEnd ∧ AtEnd c)) _ _ fuel ⟨ht, .inl huser⟩
  · rintro c ⟨-, hc⟩
    rw [BitVec.lt_def]
    omega
  · rintro c c' ⟨ht, huser | ⟨hend, hc⟩⟩ hturn
    · have hlt : c.tmp < endAddr := by
        rw [BitVec.lt_def]
        omega
      obtain ⟨hadv, -⟩ := commit_turn ht hlt huser hturn
      refine ⟨hadv.aligned, ?_⟩
      rcases Nat.lt_or_eq_of_le hadv.le with h | h
      · exact .inl h
      · exact .inr ⟨h, atEnd_of_commit_turn ht hlt he huser hturn⟩
    · obtain ⟨hmbi, htmp, -⟩ := Pass.turn_cases hturn
      have hfail : ¬c.tmp.toNat / 4096 < userPages := by
        rw [hend]
        decide
      rw [Windows.virtualQueryEx, if_neg hfail] at hmbi
      rw [hmbi, chunk_of_atEnd hc, BitVec.add_zero] at htmp
      unfold AtEnd
      rw [hmbi, htmp]
      exact ⟨ht, .inr ⟨hend, hc⟩⟩

/-! ## Passes that finish -/

/-- Where the first pass of a lenient system stands: no split granule lies ahead, other than for
the turn that goes where Windows chooses. A free page of a granule whose first page was taken is
as before. -/
structure Open (s : Space) (endAddr : DWORD) (c : Cursor) : Prop where
  aligned : c.tmp.toNat % 65536 = 0
  ahead : ∀ g, c.tmp.toNat ≤ 65536 * g → 65536 * g < endAddr.toNat → Split c.space g →
    c.tmp.toNat < 65536 ∧ ∀ n < 16 * g, c.space.page n = .free
  skipped : ∀ n, s.page n = .free → s.page (n / 16 * 16) ≠ .free →
    c.space.page n = .free ∧ c.space.page (n / 16 * 16) ≠ .free

theorem split_of_page_eq {s s' : Space} {g : Nat} (h : ∀ n, n / 16 = g → s'.page n = s.page n)
    (hs : Split s' g) : Split s g := by
  obtain ⟨hfirst, n, hn, htaken⟩ := hs
  refine ⟨?_, n, hn, ?_⟩
  · rw [← h (16 * g) (by omega)]
    exact hfirst
  · rwa [← h n hn]

theorem Open.turn (hw : Lenient w) {c : Cursor} (hc : Open s endAddr c) (hlt : c.tmp < endAddr)
    (huser : c.tmp.toNat < userEnd) :
    ∃ c', (reservePass w).turn w endAddr c = some c' ∧ Open s endAddr c' ∧
      c.tmp.toNat + 4096 ≤ c'.tmp.toNat ∧ c'.tmp.toNat ≤ userEnd := by
  have ht := hc.aligned
  obtain ⟨c', hturn⟩ := exists_reserve_turn hw ht hlt huser fun hbase g hg hend hs ↦
    absurd (hc.ahead g hg hend hs).1 (by omega)
  obtain ⟨hadv, hspace⟩ := reserve_turn ht hlt huser hturn
  have hgt := hadv.gt
  have haligned : c'.tmp.toNat % 65536 = 0 := hadv.aligned
  refine ⟨c', hturn, ⟨haligned, ?_, ?_⟩, by omega, hadv.le⟩
  · intro g hg hend hs
    have hs' : Split c.space g := by
      apply split_of_page_eq _ hs
      intro n hn
      rcases hspace with ⟨h, -⟩ | ⟨-, -, h⟩
      · rw [h]
      · rw [h]
        exact Space.page_update_of_not_mem _ (by omega)
    obtain ⟨hlow, hbelow⟩ := hc.ahead g (by omega) hend hs'
    -- the first taken page is where the region that starts at 0 ends
    exfalso
    have hge := hadv.ge
    have hin := lt_userEnd_of_split hs'
    apply w.region_max c.space (c.tmp.toNat / 4096)
    · unfold userEnd at hin
      omega
    · rw [hbelow (c.tmp.toNat / 4096) (by omega)]
      generalize hr : c.tmp.toNat / 4096 + w.region c.space (c.tmp.toNat / 4096) = r at hge
      rcases Nat.lt_or_ge r (16 * g) with h | h
      · exact hbelow r h
      · rw [show r = 16 * g by omega]
        exact hs'.1
  · intro n hfree htaken
    obtain ⟨hn, hfirst⟩ := hc.skipped n hfree htaken
    rcases hspace with ⟨h, -⟩ | ⟨-, hall, h⟩
    · rw [h]
      exact ⟨hn, hfirst⟩
    · rw [h]
      refine ⟨?_, (Space.grows_reserve _ _ _ _).taken _ hfirst⟩
      rw [Space.page_update_of_not_mem _ _, hn]
      intro hin
      apply hfirst
      generalize hg : n / 16 = g at hfirst ⊢
      have := hall (g * 16 - c.tmp.toNat / 4096) (by omega)
      rwa [show c.tmp.toNat / 4096 + (g * 16 - c.tmp.toNat / 4096) = g * 16 by omega] at this

theorem commit_turn_lenient (hw : Lenient w) (he : endAddr.toNat ≤ userEnd) {c : Cursor}
    (ht : c.tmp.toNat % 2 ^ 12 = 0) (hlt : c.tmp < endAddr) :
    ∃ c', (commitPass w).turn w endAddr c = some c' ∧ Advances w 12 endAddr c c' ∧
      ∀ n, c.space.page n = .free → c'.space.page n = .free := by
  have huser : c.tmp.toNat < userEnd := Nat.lt_of_lt_of_le (BitVec.lt_def.mp hlt) he
  obtain ⟨c', hturn⟩ := exists_commit_turn hw ht hlt huser
  obtain ⟨hadv, hspace⟩ := commit_turn ht hlt huser hturn
  refine ⟨c', hturn, hadv, fun n hn ↦ ?_⟩
  rcases hspace with ⟨h, -⟩ | ⟨-, h⟩
  · rwa [h]
  · rw [h]
    rcases Space.page_update_cases c.space (c.tmp.toNat / 4096) (c'.tmp.toNat / 4096) n
      Page.commit with h | ⟨-, -, h⟩
    · rwa [h]
    · rw [h, hn]
      rfl

/-- On a lenient system the call returns the address of every range in the user address space that
is not blocked, with the free pages still free that neither pass is responsible for. -/
theorem backRange_of_open (hw : Lenient w) (he : endAddr.toNat ≤ userEnd)
    {mbi : MemoryBasicInformation} {addr : DWORD}
    (hopen : Open s endAddr (start64k mbi s addr)) :
    ∃ s', backRange w mbi s addr endAddr = some (addr, s') ∧
      ∀ n, s.page n = .free → s.page (n / 16 * 16) ≠ .free → s'.page n = .free := by
  obtain ⟨c, hreserve, hc⟩ := Pass.go_finishes (p := reservePass w) userEnd
    (fun c hc hlt ↦ hc.turn hw hlt (Nat.lt_of_lt_of_le (BitVec.lt_def.mp hlt) he)) scanFuel hopen
    (le_scanFuel (Nat.le_refl _) _)
  let KeepsFree (c' : Cursor) : Prop :=
    c'.tmp.toNat % 2 ^ 12 = 0 ∧ ∀ n, c.space.page n = .free → c'.space.page n = .free
  have hturns : ∀ c₁, KeepsFree c₁ → c₁.tmp < endAddr →
      ∃ c₂, (commitPass w).turn w endAddr c₁ = some c₂ ∧ KeepsFree c₂ ∧
        c₁.tmp.toNat + 4096 ≤ c₂.tmp.toNat ∧ c₂.tmp.toNat ≤ userEnd := by
    rintro c₁ ⟨ht, hfree⟩ hlt
    obtain ⟨c₂, hturn, hadv, hfree'⟩ := commit_turn_lenient hw he ht hlt
    have hgt := hadv.gt
    have haligned := hadv.aligned
    exact ⟨c₂, hturn, ⟨haligned, fun n hn ↦ hfree' n (hfree n hn)⟩, by omega, hadv.le⟩
  have hstart : KeepsFree (start4k c.mbi c.space addr) :=
    ⟨by rw [toNat_start4k]; omega, fun _ h ↦ h⟩
  obtain ⟨c', hcommit, hc'⟩ :=
    Pass.go_finishes userEnd hturns scanFuel hstart (le_scanFuel (Nat.le_refl _) _)
  exact ⟨c'.space, backRange_of_finished hreserve hcommit, fun n hn hfirst ↦
    hc'.2 n (hc.skipped n hn hfirst).1⟩

/-- Windows when it refuses nothing but has no address to offer. -/
def crowded : Windows :=
  { Windows.generous with
    place := fun _ _ ↦ 0
    place_aligned := fun _ _ ↦ rfl
    place_free := fun _ _ h ↦ absurd rfl h
    place_le := fun _ _ h ↦ absurd rfl h }

theorem lenient_crowded : Lenient crowded := ⟨fun _ _ _ ↦ rfl, fun _ _ _ ↦ rfl, fun _ _ ↦ rfl⟩

/-- A buffer that makes the loops believe that all is committed. -/
def staleBuffer : MemoryBasicInformation := ⟨0#32, 0xFFFFFFFF#32, .commit⟩

/-- Above the user address space a loop with that buffer is through in one turn. -/
theorem go_stale {p : Pass} {k : Nat} (hu : p.unit.toNat = 2 ^ k) (hk : k = 12 ∨ k = 16)
    (hp : p.state ≠ .commit) {c : Cursor} (hmbi : c.mbi = staleBuffer)
    (hc : c.tmp.toNat % 2 ^ k = 0) (huser : userEnd ≤ c.tmp.toNat)
    (he : endAddr.toNat ≤ 0xFFFF0000) :
    p.go w endAddr scanFuel c = .finished staleBuffer c.space := by
  obtain ⟨fuel, hfuel⟩ : ∃ fuel, scanFuel = fuel + 1 + 1 :=
    Nat.exists_eq_add_of_le' (show 2 ≤ scanFuel by unfold scanFuel; omega)
  rw [hfuel]
  by_cases hlt : c.tmp < endAddr
  · rw [BitVec.lt_def] at hlt
    have hfail : ¬c.tmp.toNat / 4096 < userPages := by
      unfold userEnd at huser
      omega
    have hquery : w.virtualQueryEx c.space c.tmp c.mbi = staleBuffer := by
      rw [Windows.virtualQueryEx, if_neg hfail, hmbi]
    have hturn : p.turn w endAddr c =
        some ⟨staleBuffer, c.tmp + p.chunk endAddr c.tmp staleBuffer, c.space⟩ := by
      unfold Pass.turn
      simp only [hquery]
      exact if_neg fun h ↦ hp h.symm
    have hrest : staleBuffer.regionSize - (c.tmp - staleBuffer.baseAddress) =
        0xFFFFFFFF#32 - c.tmp := by
      unfold staleBuffer
      rw [BitVec.sub_zero]
    have hmin : (if 0xFFFFFFFF#32 - c.tmp < endAddr - c.tmp then 0xFFFFFFFF#32 - c.tmp
        else endAddr - c.tmp) = endAddr - c.tmp := by
      apply if_neg
      have := c.tmp.isLt
      rw [BitVec.lt_def, BitVec.toNat_sub, BitVec.toNat_sub, BitVec.toNat_ofNat]
      omega
    have hunit : (p.unit - 1#32).toNat = 2 ^ k - 1 := by
      rw [BitVec.toNat_sub_of_le (by
        rw [BitVec.le_def, hu]
        rcases hk with rfl | rfl <;> decide), hu]
      rfl
    have hend : ¬c.tmp + p.chunk endAddr c.tmp staleBuffer < endAddr := by
      unfold Pass.chunk
      simp only [hrest, hmin]
      rw [BitVec.lt_def, BitVec.toNat_add, toNat_and_not_sub_one _ _ hu, BitVec.toNat_add, hunit,
        BitVec.toNat_sub]
      have := endAddr.isLt
      rcases hk with rfl | rfl <;> omega
    rw [Pass.go_of_turn (BitVec.lt_def.mpr hlt) hturn]
    exact Pass.go_of_not_lt (c := ⟨_, _, _⟩) hend fuel
  · rw [Pass.go_of_not_lt hlt, hmbi]

/-- The range that both passes together are responsible for, in the user address space. -/
def Whole (s : Space) (addr size : DWORD) : Prop :=
  65536 ≤ addr.toNat ∧ addr.toNat + size.toNat ≤ userEnd ∧
    ∀ a, addr.toNat ≤ a → a < addr.toNat + size.toNat → s.page (a / 4096) = .free →
      s.page (a / 4096 / 16 * 16) = .free

/-- The call can only return -1. -/
def GivesUp (s : Space) (addr endAddr : DWORD) : Prop :=
  addr = -1#32 ∨ 0xFFFF0000 < endAddr.toNat ∨
    addr.toNat < userEnd ∧ userEnd < endAddr.toNat ∨ Blocked s addr endAddr

theorem eq_neg_one_of_givesUp {addr p : DWORD} {s' : Space} {mbi : MemoryBasicInformation}
    (h : GivesUp s addr endAddr) (hcall : backRange w mbi s addr endAddr = some (p, s')) :
    p = -1#32 := by
  rcases h with h | h | ⟨huser, he⟩ | ⟨g, hg, he, hs, habove⟩
  · rcases backRange_addr hcall with hp | hp
    · exact hp
    · rw [hp, h]
  · apply backRange_of_not_finished _ hcall
    intro c c' hfin
    exact absurd hfin (reserve_ne_finished_of_last h (by rw [toNat_start64k]; omega) _ _ _)
  · apply backRange_of_not_finished _ hcall
    intro c c' hfin
    apply commit_ne_finished he
    · rw [toNat_start4k]
      omega
    · rw [toNat_start4k]
      omega
  · apply backRange_of_not_finished _ hcall
    intro c c' hfin
    exact absurd hfin (reserve_ne_finished_of_ahead hs he (ahead_start hg habove mbi) _ _ _)

theorem open_start (mbi : MemoryBasicInformation) {addr : DWORD} (h : ¬Blocked s addr endAddr) :
    Open s endAddr (start64k mbi s addr) := by
  have htmp := toNat_start64k mbi s addr
  refine ⟨by omega, fun g hg hend hs ↦ ?_, fun n hn hfirst ↦ ⟨hn, hfirst⟩⟩
  have hs' : Split s g := hs
  by_contra hno
  apply h
  refine ⟨g, by omega, hend, hs', ?_⟩
  by_cases hbase : 65536 ≤ addr.toNat
  · exact .inl hbase
  · right
    by_contra hnone
    apply hno
    refine ⟨by omega, fun n hn ↦ ?_⟩
    by_contra htaken
    exact hnone ⟨n, hn, htaken⟩

/-- Above the user address space both loops go past everything with that buffer. -/
theorem backRange_stale {addr size : DWORD} (huser : userEnd ≤ addr.toNat)
    (hlast : (addr + size).toNat ≤ 0xFFFF0000) :
    backRange crowded staleBuffer s addr (addr + size) = some (addr, s) := by
  have hstart := toNat_start64k staleBuffer s addr
  have hstart' := toNat_start4k staleBuffer s addr
  have hreserve := go_stale (p := reservePass crowded) (w := crowded) (k := 16) rfl (.inr rfl)
    (fun h ↦ nomatch h) (c := start64k staleBuffer s addr) rfl (by omega) (by
      unfold userEnd userPages at *
      omega) hlast
  have hcommit := go_stale (p := commitPass crowded) (w := crowded) (k := 12) rfl (.inl rfl)
    (fun h ↦ nomatch h) (c := start4k staleBuffer s addr) rfl (by omega) (by
      unfold userEnd userPages at *
      omega) hlast
  exact @backRange_of_finished _ _ _ _ _ ⟨staleBuffer, addr, s⟩ ⟨staleBuffer, addr, s⟩ hreserve
    hcommit

/-- Where the loops cannot get through, only a range that Windows places is returned. -/
theorem committed_of_givesUp {mbi : MemoryBasicInformation} {addr size p : DWORD} {s' : Space}
    (hgives : GivesUp s addr (addr + size))
    (hcall : allocateMemAndProtectProcess w mbi s addr size = some (p, s')) (hok : p ≠ -1#32)
    (a : Nat) (ha : p.toNat ≤ a) (hlast : a < p.toNat + size.toNat) : s'.Committed a := by
  by_cases hplaced : addr = 0#32 ∧ w.place s size.toNat ≠ 0
  · obtain ⟨rfl, hp⟩ := hplaced
    obtain ⟨p', s'', hcall', hspec⟩ := allocate_placed mbi hp
    cases hcall'.symm.trans hcall
    exact (hspec hok a ha hlast).1
  · rw [allocate_eq_backRange mbi fun h ↦ by_contra fun h' ↦ hplaced ⟨h, h'⟩] at hcall
    exact absurd (eq_neg_one_of_givesUp hgives hcall) hok

/-- Whatever the system leaves open, an address that the allocator returns starts a range that is
committed as a whole: this holds exactly of empty ranges, of ranges that the loops cannot get
through, and of ranges from 64k on and in the user address space where each granule that starts
with a taken page has no free page that is asked for. -/
theorem allocate_committed_iff (s : Space) (addr size : DWORD) :
    (∀ w mbi p s', allocateMemAndProtectProcess w mbi s addr size = some (p, s') → p ≠ -1#32 →
      ∀ a, p.toNat ≤ a → a < p.toNat + size.toNat → s'.Committed a) ↔
    size = 0#32 ∨ GivesUp s addr (addr + size) ∨ Whole s addr size := by
  constructor
  · intro h
    by_cases hsize : size = 0#32
    · exact .inl hsize
    by_cases hgives : GivesUp s addr (addr + size)
    · exact .inr (.inl hgives)
    right
    right
    have hpos : 0 < size.toNat := Nat.pos_of_ne_zero fun h ↦ hsize (BitVec.eq_of_toNat_eq h)
    have hne : addr ≠ -1#32 := fun h ↦ hgives (.inl h)
    have hlast : (addr + size).toNat ≤ 0xFFFF0000 := by
      by_contra h
      exact hgives (.inr (.inl (by omega)))
    have hcall : allocateMemAndProtectProcess crowded staleBuffer s addr size =
        backRange crowded staleBuffer s addr (addr + size) :=
      allocate_eq_backRange staleBuffer fun _ ↦ rfl
    by_cases huser : addr.toNat < userEnd
    · have he : (addr + size).toNat ≤ userEnd := by
        by_contra h
        exact hgives (.inr (.inr (.inl ⟨huser, Nat.lt_of_not_le h⟩)))
      have hopen := open_start staleBuffer fun h ↦ hgives (.inr (.inr (.inr h)))
      obtain ⟨s', hback, hskipped⟩ := backRange_of_open lenient_crowded he hopen
      have hcommitted := h crowded staleBuffer addr s' (hcall.trans hback) hne
      refine ⟨Space.le_of_committed (hcommitted _ (Nat.le_refl _) (by omega)), ?_, ?_⟩
      · have := Space.lt_of_committed
          (hcommitted (addr.toNat + size.toNat - 1) (by omega) (by omega))
        unfold userEnd
        omega
      · intro a ha hin hfree
        by_contra hfirst
        have hpage := hcommitted a ha hin
        rw [Space.Committed, hskipped _ hfree hfirst] at hpage
        cases hpage
    · exfalso
      have hback := @backRange_stale s addr size (Nat.not_lt.mp huser) hlast
      exact huser (Space.lt_of_committed
        (h crowded staleBuffer addr s (hcall.trans hback) hne _ (Nat.le_refl _) (by omega)))
  · rintro (rfl | hgives | ⟨hbase, hle, hgranule⟩) w mbi p s' hcall hok a ha hlast
    · exact absurd hlast (by simp only [BitVec.toNat_ofNat]; omega)
    · exact committed_of_givesUp hgives hcall hok a ha hlast
    · have hbackable : Backable w mbi s addr size := by
        unfold Backable
        rw [if_neg (by omega)]
        exact ⟨hle, hgranule⟩
      obtain ⟨p', s'', hcall', hspec⟩ := allocate_spec hbackable
      cases hcall'.symm.trans hcall
      exact (hspec hok).1 a ha hlast

/-- A process that holds one page, as `mmap` without an address and for one page leaves it. -/
def onePage : Space where
  page n := if n = 16 then .committed 16 { read := true, write := true } else .free
  outside n h := by
    apply if_neg
    unfold granulePages userPages at h
    omega

/-- The page after it is granted, and stays free. -/
theorem secondPage_not_committed :
    ¬∀ (w : Windows) (mbi : MemoryBasicInformation) (s : Space) (addr size p : DWORD) (s' : Space),
      allocateMemAndProtectProcess w mbi s addr size = some (p, s') → p ≠ -1#32 →
      ∀ a, p.toNat ≤ a → a < p.toNat + size.toNat → s'.Committed a := by
  intro h
  have hopen : Open onePage (0x11000#32 + 0x1000#32) (start64k staleBuffer onePage 0x11000#32) := by
    apply open_start
    rintro ⟨g, hg, hend, ⟨hfirst, -⟩, -⟩
    have hone : g = 1 := by
      simp only [BitVec.toNat_ofNat] at hg
      rw [show (0x11000#32 + 0x1000#32).toNat = 0x12000 from rfl] at hend
      omega
    subst hone
    exact absurd hfirst (by decide)
  obtain ⟨s', hcall, hskipped⟩ := backRange_of_open lenient_crowded (by decide) hopen
  have hpage := hskipped 17 (by decide) (by decide)
  have hcommitted := h crowded staleBuffer onePage 0x11000#32 0x1000#32 0x11000#32 s' hcall
    (by decide) 0x11000 (by decide) (by decide)
  rw [Space.Committed, hpage] at hcommitted
  cases hcommitted

end Keow.Memory
