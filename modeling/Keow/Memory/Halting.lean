import Keow.Memory.Committed

/-!
# Whether the allocator returns

Inside the user address space both loops advance with each turn. Past its end `VirtualQueryEx`
fails, and what the last query left in the buffer decides: with nothing left of the region the
loop stays where it is, with a region that ended within the last granule it goes on, past the end
of the range or round to address 0.
-/

namespace Keow.Memory

open Keow.Base Keow.Kernel

variable {w : Windows} {endAddr : DWORD} {s : Space}

/-- The two passes over a range end. -/
def PassesEnd (w : Windows) (mbi : MemoryBasicInformation) (s : Space) (addr endAddr : DWORD) :
    Prop :=
  (reservePass w).Halts w endAddr (start64k mbi s addr) ∧
    ∀ fuel mbi' s', (reservePass w).go w endAddr fuel (start64k mbi s addr) = .finished mbi' s' →
      (commitPass w).Halts w endAddr (start4k mbi' s' addr)

/-- Both loops of `AllocateMemAndProtectProcess` end. -/
def LoopsEnd (w : Windows) (mbi : MemoryBasicInformation) (s : Space) (addr size : DWORD) : Prop :=
  let start := if addr = 0#32 then w.reserve s 0#32 size else (addr, s)
  PassesEnd w mbi start.2 start.1 (start.1 + size)

/-! ## Below the end of the user address space -/

/-- A pass over a range in the user address space ends. -/
theorem halts_of_le {p : Pass} {k : Nat} (hu : p.unit.toNat = 2 ^ k) (hk : k = 12 ∨ k = 16)
    (he : endAddr.toNat ≤ userEnd) {c : Cursor} (hc : c.tmp.toNat % 2 ^ k = 0) :
    p.Halts w endAddr c := by
  apply Pass.halts_of_bound (I := fun c ↦ c.tmp.toNat % 2 ^ k = 0) userEnd _ hc
  intro c c' hc hlt ht
  obtain ⟨hmbi, htmp, -⟩ := Pass.turn_cases ht
  have huser : c.tmp.toNat < userEnd := Nat.lt_of_lt_of_le (BitVec.lt_def.mp hlt) he
  have hadv := advances_chunk hu hk hc hlt huser hmbi htmp
  exact .inr ⟨hadv.aligned, hadv.gt, hadv.le⟩

/-- The first pass ends at a split granule. -/
theorem halts_of_ahead {g : Nat} (hs : Split s g) (he : 65536 * g < endAddr.toNat) {c : Cursor}
    (hc : Ahead s g c) : (reservePass w).Halts w endAddr c := by
  apply Pass.halts_of_bound (I := Ahead s g) (65536 * g) _ hc
  intro c c' hc _ ht
  obtain ⟨hc', hgt⟩ := hc.turn hs he ht
  exact .inr ⟨hc', hgt, hc'.le⟩

/-! ## At the end of the user address space -/

/-- The first page of the last granule. -/
def lastGranule : Nat := userPages - granulePages

/-- What the last query below the end of the user address space left behind: the state of the last
granule's first page, and a region that ends so many pages before the end. -/
structure AtTop (s : Space) (d : Nat) (c : Cursor) : Prop where
  tmp : c.tmp.toNat = userEnd
  state : c.mbi.state = (s.page lastGranule).state
  lt : d < 16
  region : (c.mbi.baseAddress + c.mbi.regionSize).toNat + d * 4096 = userEnd
  uniform : d = 0 ↔ ∀ n, lastGranule ≤ n → n < userPages → s.page n = s.page lastGranule

theorem atTop_of_turn {c c' : Cursor} (ht : c.tmp.toNat % 65536 = 0)
    (huser : c.tmp.toNat < userEnd) (he : userEnd < endAddr.toNat)
    (hadv : Advances w 16 endAddr c c') (htop : c'.tmp.toNat = userEnd) :
    ∃ d, AtTop c.space d c' := by
  have hge := hadv.ge
  have hlt := hadv.lt
  have hpage : c.tmp.toNat / 4096 < userPages := by
    unfold userEnd userPages at *
    omega
  have hle := w.region_le c.space _ hpage
  have hmax := w.region_max c.space (c.tmp.toNat / 4096)
  have hbelow : c.tmp.toNat / 4096 ≤ lastGranule := by
    unfold lastGranule userEnd userPages granulePages at *
    omega
  have hsame : ∀ n, lastGranule ≤ n →
      n < c.tmp.toNat / 4096 + w.region c.space (c.tmp.toNat / 4096) →
      c.space.page n = c.space.page (c.tmp.toNat / 4096) := by
    intro n hn hlast
    have := w.region_same c.space (c.tmp.toNat / 4096) (n - c.tmp.toNat / 4096) (by omega)
    rwa [show c.tmp.toNat / 4096 + (n - c.tmp.toNat / 4096) = n by omega] at this
  generalize hr : c.tmp.toNat / 4096 + w.region c.space (c.tmp.toNat / 4096) = r at *
  have hbounds : userPages - 16 < r ∧ r ≤ userPages := by
    unfold userEnd userPages at *
    omega
  have hfirst : c.space.page lastGranule = c.space.page (c.tmp.toNat / 4096) :=
    hsame _ (Nat.le_refl _) hbounds.1
  refine ⟨userPages - r, htop, ?_, by omega, ?_, ?_⟩
  · rw [hadv.mbi, hfirst]
  · rw [hadv.mbi]
    simp only
    rw [BitVec.toNat_add, BitVec.toNat_ofNat]
    unfold userEnd userPages at *
    omega
  · rw [hfirst]
    constructor
    · intro hd n hn hlast
      exact hsame n hn (by omega)
    · intro hall
      by_contra hd
      exact hmax (by omega) (hall r (by unfold lastGranule granulePages; omega) (by omega))

theorem query_top {c : Cursor} (h : userEnd ≤ c.tmp.toNat) :
    w.virtualQueryEx c.space c.tmp c.mbi = c.mbi := by
  rw [Windows.virtualQueryEx, if_neg]
  unfold userEnd at h
  omega

/-- Nothing can be reserved there. -/
theorem reserve_turn_top {c : Cursor} (htmp : c.tmp.toNat = userEnd) (hfree : c.mbi.state = .free) :
    (reservePass w).turn w endAddr c = none := by
  unfold Pass.turn
  simp only [query_top (Nat.le_of_eq htmp.symm)]
  rw [if_pos (show c.mbi.state = (reservePass w).state from hfree), if_neg]
  generalize (reservePass w).chunk endAddr c.tmp c.mbi = len
  show (w.reserve c.space c.tmp len).1 ≠ c.tmp
  have hz : c.tmp ≠ 0#32 := by
    intro h
    rw [h] at htmp
    exact absurd htmp (by decide)
  rw [Windows.reserve, if_neg hz, if_neg]
  · exact hz.symm
  · rintro ⟨hlen, -, hlast, -⟩
    have hpos : 0 < len.toNat := Nat.pos_of_ne_zero fun h ↦ hlen (BitVec.eq_of_toNat_eq h)
    rw [htmp] at hlast
    unfold pageEnd userEnd at hlast
    omega

/-- Nor committed. -/
theorem commit_turn_top {c : Cursor} (htmp : c.tmp.toNat = userEnd)
    (hreserve : c.mbi.state = .reserve) : (commitPass w).turn w endAddr c = none := by
  unfold Pass.turn
  simp only [query_top (Nat.le_of_eq htmp.symm)]
  rw [if_pos (show c.mbi.state = (commitPass w).state from hreserve), if_neg]
  generalize (commitPass w).chunk endAddr c.tmp c.mbi = len
  show (w.commit c.space c.tmp len).1 ≠ c.tmp
  rw [Windows.commit, if_neg]
  · intro h
    rw [← h] at htmp
    exact absurd (show (0#32).toNat = userEnd from htmp) (by decide)
  · rintro ⟨hlen, hlast, -⟩
    have hpos : 0 < len.toNat := Nat.pos_of_ne_zero fun h ↦ hlen (BitVec.eq_of_toNat_eq h)
    rw [htmp] at hlast
    unfold pageEnd userEnd at hlast
    omega

theorem turn_top {p : Pass} {c : Cursor} (htmp : userEnd ≤ c.tmp.toNat)
    (hstate : c.mbi.state ≠ p.state) :
    p.turn w endAddr c = some ⟨c.mbi, c.tmp + p.chunk endAddr c.tmp c.mbi, c.space⟩ := by
  unfold Pass.turn
  simp only [query_top htmp]
  rw [if_neg hstate]

/-- The turn of the first pass after a region that ended within the last granule goes past the end
of the range, or round to address 0. -/
theorem toNat_turn_top {c : Cursor} {d : Nat} (hc : AtTop s d c) (hd : d ≠ 0)
    (he : userEnd < endAddr.toNat) :
    if endAddr.toNat ≤ 0xFFFF0000 then
      endAddr.toNat ≤ (c.tmp + (reservePass w).chunk endAddr c.tmp c.mbi).toNat
    else c.tmp + (reservePass w).chunk endAddr c.tmp c.mbi = 0#32 := by
  have htmp := hc.tmp
  have hregion := hc.region
  have hlt := hc.lt
  have hrest : c.mbi.regionSize - (c.tmp - c.mbi.baseAddress) =
      c.mbi.baseAddress + c.mbi.regionSize - c.tmp := by
    apply BitVec.eq_of_toNat_eq
    rw [BitVec.toNat_sub, BitVec.toNat_sub, BitVec.toNat_sub, BitVec.toNat_add]
    omega
  have hmin : (if c.mbi.baseAddress + c.mbi.regionSize - c.tmp < endAddr - c.tmp then
      c.mbi.baseAddress + c.mbi.regionSize - c.tmp else endAddr - c.tmp) = endAddr - c.tmp := by
    apply if_neg
    have := endAddr.isLt
    unfold userEnd userPages at *
    rw [BitVec.lt_def, BitVec.toNat_sub, BitVec.toNat_sub]
    omega
  have hunit : ((reservePass w).unit - 1#32).toNat = 65535 := by
    show (0x10000#32 - 1#32).toNat = 65535
    decide
  have hchunk : (c.tmp + (reservePass w).chunk endAddr c.tmp c.mbi).toNat =
      (endAddr.toNat + 65535) / 65536 * 65536 % 2 ^ 32 := by
    unfold Pass.chunk
    simp only [hrest, hmin]
    have := endAddr.isLt
    unfold userEnd userPages at *
    rw [BitVec.toNat_add, toNat_and_not_sub_one _ _ (k := 16) rfl, BitVec.toNat_add, hunit,
      BitVec.toNat_sub]
    omega
  have := endAddr.isLt
  split
  · rw [hchunk]
    omega
  · apply BitVec.eq_of_toNat_eq
    rw [hchunk]
    show _ = 0
    omega

/-! ## The way there -/

/-- The first pass on its way from page `first` to the end of the user address space: it has
changed pages on its way only, and not the last granule if that starts with a taken page. -/
structure Scans (s : Space) (first : Nat) (c : Cursor) : Prop where
  aligned : c.tmp.toNat % 65536 = 0
  ge : first * 4096 ≤ c.tmp.toNat
  page_eq : ∀ n, n < first ∨ c.tmp.toNat ≤ n * 4096 → c.space.page n = s.page n
  last : s.page lastGranule ≠ .free → ∀ n, lastGranule ≤ n → n < userPages →
    c.space.page n = s.page n
  top : c.tmp.toNat < userEnd ∨ ∃ d, AtTop s d c

theorem scans_self {first : Nat} {c : Cursor} (ht : c.tmp.toNat % 65536 = 0)
    (hfirst : first * 4096 ≤ c.tmp.toNat) (huser : c.tmp.toNat < userEnd) :
    Scans c.space first c :=
  ⟨ht, hfirst, fun _ _ ↦ rfl, fun _ _ _ _ ↦ rfl, .inl huser⟩

theorem Scans.turn {first : Nat} (he : userEnd < endAddr.toNat) {c c' : Cursor}
    (hc : Scans s first c) (huser : c.tmp.toNat < userEnd)
    (h : (reservePass w).turn w endAddr c = some c') :
    Scans s first c' ∧ c.tmp.toNat < c'.tmp.toNat ∧ c'.tmp.toNat ≤ userEnd := by
  have ht := hc.aligned
  obtain ⟨hadv, hspace⟩ := reserve_turn ht (BitVec.lt_def.mpr (Nat.lt_trans huser he)) huser h
  have hgt := hadv.gt
  have hfirst := hc.ge
  have haligned : c'.tmp.toNat % 65536 = 0 := hadv.aligned
  have hbelow : c.tmp.toNat ≤ lastGranule * 4096 := by
    unfold lastGranule userEnd userPages granulePages at *
    omega
  have hlastPages : ∀ n, lastGranule ≤ n → c.space.page n = s.page n := fun n hn ↦
    hc.page_eq n (.inr (Nat.le_trans hbelow (Nat.mul_le_mul_right _ hn)))
  refine ⟨⟨haligned, by omega, fun n hn ↦ ?_, fun htaken n hn hlast ↦ ?_, ?_⟩, hgt, hadv.le⟩
  · rw [← hc.page_eq n (by omega)]
    rcases hspace with ⟨hs, -⟩ | ⟨-, -, hs⟩
    · rw [hs]
    · rw [hs]
      exact Space.page_update_of_not_mem _ (by omega)
  · rw [← hlastPages n hn]
    rcases hspace with ⟨hs, -⟩ | ⟨-, hall, hs⟩
    · rw [hs]
    · -- the reservation stays below the last granule, whose first page was taken
      rw [hs, Space.page_update_of_not_mem]
      intro hin
      apply htaken
      have hfree := hall (lastGranule - c.tmp.toNat / 4096) (by omega)
      rwa [show c.tmp.toNat / 4096 + (lastGranule - c.tmp.toNat / 4096) = lastGranule by omega,
        hlastPages _ (Nat.le_refl _)] at hfree
  · rcases Nat.lt_or_eq_of_le hadv.le with hlt | htop
    · exact .inl hlt
    · right
      obtain ⟨d, hd⟩ := atTop_of_turn ht huser he hadv htop
      refine ⟨d, hd.tmp, ?_, hd.lt, hd.region, ?_⟩
      · rw [hd.state, hlastPages _ (Nat.le_refl _)]
      · rw [hd.uniform, hlastPages _ (Nat.le_refl _)]
        constructor
        · intro hall n hn hlast
          rw [← hlastPages n hn, hall n hn hlast]
        · intro hall n hn hlast
          rw [hlastPages n hn, hall n hn hlast]

/-- The first pass ends if it does so once it came to the end of the user address space. -/
theorem halts_of_scans {first : Nat} (he : userEnd < endAddr.toNat)
    (htop : ∀ c d, Scans s first c → AtTop s d c → (reservePass w).Halts w endAddr c)
    {c : Cursor} (hc : Scans s first c) : (reservePass w).Halts w endAddr c := by
  rcases hc.top with huser | ⟨d, hd⟩
  · apply Pass.halts_of_bound (I := fun c ↦ Scans s first c ∧ c.tmp.toNat < userEnd) userEnd _
      ⟨hc, huser⟩
    rintro c c' ⟨hc, huser⟩ - ht
    obtain ⟨hc', hgt, hle⟩ := hc.turn he huser ht
    rcases hc'.top with huser' | ⟨d, hd⟩
    · exact .inr ⟨⟨hc', huser'⟩, hgt, hle⟩
    · exact .inl (htop c' d hc' hd)
  · exact htop c d hc hd

/-- The second pass on its way to the end of the user address space, whose last page it comes to
in this state. -/
structure Commits (state : PageState) (c : Cursor) : Prop where
  aligned : c.tmp.toNat % 2 ^ 12 = 0
  top : c.tmp.toNat < userEnd ∧ (c.space.page (userPages - 1)).state = state ∨
    c.tmp.toNat = userEnd ∧ c.mbi.state = state ∧ AtEnd c

theorem Commits.turn {state : PageState} (he : userEnd < endAddr.toNat) {c c' : Cursor}
    (hc : Commits state c) (huser : c.tmp.toNat < userEnd)
    (h : (commitPass w).turn w endAddr c = some c') :
    Commits state c' ∧ c.tmp.toNat < c'.tmp.toNat ∧ c'.tmp.toNat ≤ userEnd := by
  have hlt : c.tmp < endAddr := BitVec.lt_def.mpr (Nat.lt_trans huser he)
  obtain ⟨hadv, hspace⟩ := commit_turn hc.aligned hlt huser h
  have hlast : (c.space.page (userPages - 1)).state = state := by
    rcases hc.top with ⟨-, h⟩ | ⟨h, -⟩
    · exact h
    · omega
  refine ⟨⟨hadv.aligned, ?_⟩, hadv.gt, hadv.le⟩
  rcases Nat.lt_or_eq_of_le hadv.le with hbelow | htop
  · left
    refine ⟨hbelow, ?_⟩
    rw [← hlast]
    rcases hspace with ⟨hs, -⟩ | ⟨-, hs⟩
    · rw [hs]
    · rw [hs, Space.page_update_of_not_mem]
      unfold userEnd at hbelow
      omega
  · right
    refine ⟨htop, ?_, atEnd_of_commit_turn hc.aligned hlt he huser h⟩
    have hpage : c.space.page (userPages - 1) = c.space.page (c.tmp.toNat / 4096) := by
      apply hadv.page_eq (.inl rfl) hc.aligned
      · have := hc.aligned
        unfold userEnd at huser
        omega
      · rw [htop]
        decide
      · decide
    rw [hadv.mbi, ← hlast, hpage]

/-- The second pass ends if the last page is reserved. -/
theorem halts_of_commits (he : userEnd < endAddr.toNat) {c : Cursor} (hc : Commits .reserve c) :
    (commitPass w).Halts w endAddr c := by
  apply Pass.halts_of_bound (I := Commits .reserve) userEnd _ hc
  intro c c' hc hlt ht
  rcases hc.top with ⟨huser, -⟩ | ⟨htop, hstate, -⟩
  · exact .inr (hc.turn he huser ht)
  · rw [commit_turn_top htop hstate] at ht
    cases ht

/-- Otherwise it does not, unless a commitment is refused. -/
theorem not_halts_of_commits (hw : Lenient w) (he : userEnd < endAddr.toNat) {state : PageState}
    (hstate : state ≠ .reserve) {c : Cursor} (hc : Commits state c) :
    ¬(commitPass w).Halts w endAddr c := by
  apply Pass.not_halts (I := Commits state) _ hc
  intro c hc
  rcases hc.top with ⟨huser, -⟩ | ⟨htop, hmbi, hend⟩
  · have hlt : c.tmp < endAddr := BitVec.lt_def.mpr (Nat.lt_trans huser he)
    obtain ⟨c', ht⟩ := exists_commit_turn hw hc.aligned hlt huser
    exact ⟨hlt, c', ht, (hc.turn he huser ht).1⟩
  · have htaken : c.mbi.state ≠ (commitPass w).state := by
      rw [hmbi]
      exact hstate
    have hturn : (commitPass w).turn w endAddr c = some _ :=
      turn_top (Nat.le_of_eq htop.symm) htaken
    rw [chunk_of_atEnd hend, BitVec.add_zero] at hturn
    exact ⟨BitVec.lt_def.mpr (by omega), c, hturn, hc⟩

/-! ## Both loops -/

/-- No split granule has a taken page below it. -/
def Grounded (s : Space) : Prop := ∀ g, Split s g → ∀ n < 16 * g, s.page n = .free

theorem grounded_of_turn (he : userEnd < endAddr.toNat) {c c' : Cursor} (hopen : Open s endAddr c)
    (hc : Grounded c.space) (huser : c.tmp.toNat < userEnd)
    (h : (reservePass w).turn w endAddr c = some c') : Grounded c'.space := by
  have ht := hopen.aligned
  obtain ⟨hadv, hspace⟩ := reserve_turn ht (BitVec.lt_def.mpr (Nat.lt_trans huser he)) huser h
  have haligned : c'.tmp.toNat % 65536 = 0 := hadv.aligned
  rcases hspace with ⟨hs, -⟩ | ⟨hbase, hall, hs⟩
  · rwa [hs]
  · intro g hsplit
    have huser' := lt_userEnd_of_split hsplit
    by_cases hbelow : 65536 * g < c.tmp.toNat
    · have hsame : ∀ n, n / 16 ≤ g → c'.space.page n = c.space.page n := by
        intro n hn
        rw [hs, Space.page_update_of_not_mem]
        omega
      intro n hn
      rw [hsame n (by omega)]
      exact hc g (split_of_page_eq (fun n hn ↦ hsame n (by omega)) hsplit) n hn
    · exfalso
      by_cases hin : 65536 * g < c'.tmp.toNat
      · have hfirst := hsplit.1
        have hfree := hall (16 * g - c.tmp.toNat / 4096) (by omega)
        rw [show c.tmp.toNat / 4096 + (16 * g - c.tmp.toNat / 4096) = 16 * g by omega] at hfree
        rw [hs, Space.page_update_of_mem _ (by omega), hfree] at hfirst
        · cases hfirst
        · unfold userEnd at huser'
          unfold granulePages
          omega
      · have hsplit' : Split c.space g := by
          apply split_of_page_eq _ hsplit
          intro n hn
          rw [hs, Space.page_update_of_not_mem]
          omega
        exact absurd (hopen.ahead g (by omega) (Nat.lt_trans huser' he) hsplit').1 (by omega)

/-- The loops end, whatever the system leaves open and the buffer holds. -/
def Returns (s : Space) (addr endAddr : DWORD) : Prop :=
  endAddr.toNat ≤ addr.toNat - addr.toNat % 65536 ∨
    addr.toNat < userEnd ∧ (endAddr.toNat ≤ userEnd ∨ Blocked s addr endAddr ∨
      s.page lastGranule = .free ∨
      (∃ n, lastGranule ≤ n ∧ n < userPages ∧ s.page n ≠ s.page lastGranule) ∧
        if endAddr.toNat ≤ 0xFFFF0000 then (s.page (userPages - 1)).state = .reserve
        else ∃ g, Split s g ∧ ∃ n < 16 * g, s.page n ≠ .free)

theorem scans_start (mbi : MemoryBasicInformation) (s : Space) {addr : DWORD}
    (huser : addr.toNat < userEnd) : Scans s (addr.toNat / 65536 * 16) (start64k mbi s addr) := by
  have htmp := toNat_start64k mbi s addr
  apply scans_self (c := start64k mbi s addr)
  · omega
  · rw [htmp, Nat.mul_assoc]
    omega
  · omega

theorem Scans.lt {first : Nat} {c : Cursor} (hc : Scans s first c) (he : userEnd < endAddr.toNat) :
    c.tmp < endAddr := by
  rw [BitVec.lt_def]
  rcases hc.top with h | ⟨d, hd⟩
  · omega
  · have := hd.tmp
    omega

theorem halts_of_not_lt {p : Pass} {c : Cursor} (h : ¬c.tmp < endAddr) : p.Halts w endAddr c :=
  Pass.halts_of_turn fun _ hlt _ ↦ absurd hlt h

theorem passesEnd_of_blocked {addr : DWORD} (mbi : MemoryBasicInformation)
    (h : Blocked s addr endAddr) : PassesEnd w mbi s addr endAddr := by
  obtain ⟨g, hg, he, hs, habove⟩ := h
  have hahead := ahead_start hg habove mbi
  exact ⟨halts_of_ahead hs he hahead, fun fuel mbi' s' hfin ↦
    absurd hfin (reserve_ne_finished_of_ahead hs he hahead _ _ _)⟩

theorem passesEnd_of_free {addr : DWORD} (mbi : MemoryBasicInformation)
    (huser : addr.toNat < userEnd) (he : userEnd < endAddr.toNat)
    (hfree : s.page lastGranule = .free) : PassesEnd w mbi s addr endAddr := by
  have htop : ∀ c d, AtTop s d c → (reservePass w).turn w endAddr c = none := by
    intro c d hc
    apply reserve_turn_top hc.tmp
    rw [hc.state, hfree]
    rfl
  constructor
  · apply halts_of_scans he _ (scans_start mbi s huser)
    intro c d _ hc
    apply Pass.halts_of_turn
    intro c' _ ht
    rw [htop c d hc] at ht
    cases ht
  · intro fuel mbi' s' hfin
    exfalso
    apply Pass.go_ne_finished (I := Scans s (addr.toNat / 65536 * 16)) _ _ fuel
      (scans_start mbi s huser) _ _ hfin
    · exact fun c hc ↦ hc.lt he
    · intro c c' hc ht
      rcases hc.top with hbelow | ⟨d, hd⟩
      · exact (hc.turn he hbelow ht).1
      · rw [htop c d hd] at ht
        cases ht

/-- Where the last granule starts with a taken page and is not uniform the first pass goes on at
the end of the user address space. -/
theorem turn_of_mixed {c : Cursor} {d : Nat} (hc : AtTop s d c) (he : userEnd < endAddr.toNat)
    (htaken : s.page lastGranule ≠ .free)
    (hmixed : ∃ n, lastGranule ≤ n ∧ n < userPages ∧ s.page n ≠ s.page lastGranule) :
    ∃ tmp, (reservePass w).turn w endAddr c = some ⟨c.mbi, tmp, c.space⟩ ∧
      if endAddr.toNat ≤ 0xFFFF0000 then endAddr.toNat ≤ tmp.toNat else tmp = 0#32 := by
  have hd : d ≠ 0 := by
    intro hd
    obtain ⟨n, hn, hlast, hne⟩ := hmixed
    exact hne (hc.uniform.mp hd n hn hlast)
  refine ⟨_, turn_top (Nat.le_of_eq hc.tmp.symm) ?_, toNat_turn_top hc hd he⟩
  rw [hc.state]
  exact fun h ↦ htaken (Page.state_eq_free_iff.mp h)

/-- The first pass leaves the last granule as it was if it gets past the end of the user address
space. -/
theorem last_of_finished {addr : DWORD} {mbi : MemoryBasicInformation}
    (huser : addr.toNat < userEnd) (he : userEnd < endAddr.toNat)
    (hend : endAddr.toNat ≤ 0xFFFF0000) (htaken : s.page lastGranule ≠ .free)
    (hmixed : ∃ n, lastGranule ≤ n ∧ n < userPages ∧ s.page n ≠ s.page lastGranule) {fuel : Nat}
    {mbi' : MemoryBasicInformation} {s' : Space}
    (hfin : (reservePass w).go w endAddr fuel (start64k mbi s addr) = .finished mbi' s') :
    s'.page (userPages - 1) = s.page (userPages - 1) := by
  have hstep : ∀ c c', ((c.tmp < endAddr → Scans s (addr.toNat / 65536 * 16) c) ∧
      c.space.page (userPages - 1) = s.page (userPages - 1)) → c.tmp < endAddr →
      (reservePass w).turn w endAddr c = some c' →
      (c'.tmp < endAddr → Scans s (addr.toNat / 65536 * 16) c') ∧
        c'.space.page (userPages - 1) = s.page (userPages - 1) := by
    rintro c c' ⟨hc, hlast⟩ hlt ht
    have hc := hc hlt
    rcases hc.top with hbelow | ⟨d, hd⟩
    · have hc' := (hc.turn he hbelow ht).1
      exact ⟨fun _ ↦ hc', hc'.last htaken _ (by decide) (by decide)⟩
    · obtain ⟨tmp, hturn, hpast⟩ := turn_of_mixed (w := w) hd he htaken hmixed
      cases hturn.symm.trans ht
      rw [if_pos hend] at hpast
      exact ⟨fun h ↦ absurd (BitVec.lt_def.mp h) (Nat.not_lt.mpr hpast), hlast⟩
  obtain ⟨tmp, ⟨-, hlast⟩, -⟩ := Pass.inv_of_go_finished hstep fuel
    ⟨fun _ ↦ scans_start mbi s huser, rfl⟩ hfin
  exact hlast

theorem commits_start {mbi : MemoryBasicInformation} {addr : DWORD} (huser : addr.toNat < userEnd) :
    Commits (s.page (userPages - 1)).state (start4k mbi s addr) := by
  have htmp := toNat_start4k mbi s addr
  exact ⟨by omega, .inl ⟨by omega, rfl⟩⟩

theorem passesEnd_of_past {addr : DWORD} (mbi : MemoryBasicInformation)
    (hpast : endAddr.toNat ≤ addr.toNat - addr.toNat % 65536) : PassesEnd w mbi s addr endAddr := by
  have h64 := toNat_start64k mbi s addr
  refine ⟨halts_of_not_lt ?_, fun _ mbi' s' _ ↦ halts_of_not_lt ?_⟩
  · rw [BitVec.lt_def]
    omega
  · rw [BitVec.lt_def, toNat_start4k]
    omega

theorem passesEnd_of_user {addr : DWORD} (mbi : MemoryBasicInformation)
    (hle : endAddr.toNat ≤ userEnd) : PassesEnd w mbi s addr endAddr := by
  have h64 := toNat_start64k mbi s addr
  refine ⟨halts_of_le (k := 16) rfl (.inr rfl) hle ?_, fun _ mbi' s' _ ↦
    halts_of_le (k := 12) rfl (.inl rfl) hle ?_⟩
  · omega
  · rw [toNat_start4k]
    omega

/-- The first pass steps over the end from a last granule that is not uniform; the second ends
where the last page is reserved. -/
theorem passesEnd_of_reserved {addr : DWORD} (mbi : MemoryBasicInformation)
    (huser : addr.toNat < userEnd) (he : userEnd < endAddr.toNat)
    (hend : endAddr.toNat ≤ 0xFFFF0000) (htaken : s.page lastGranule ≠ .free)
    (hmixed : ∃ n, lastGranule ≤ n ∧ n < userPages ∧ s.page n ≠ s.page lastGranule)
    (hreserved : (s.page (userPages - 1)).state = .reserve) :
    PassesEnd w mbi s addr endAddr := by
  constructor
  · apply halts_of_scans he _ (scans_start mbi s huser)
    intro c d _ hc
    obtain ⟨tmp, hturn, hpast⟩ := turn_of_mixed (w := w) hc he htaken hmixed
    rw [if_pos hend] at hpast
    apply Pass.halts_of_turn
    intro c' _ ht
    cases hturn.symm.trans ht
    exact halts_of_not_lt fun h ↦ absurd (BitVec.lt_def.mp h) (Nat.not_lt.mpr hpast)
  · intro fuel mbi' s' hfin
    apply halts_of_commits he
    have hstart : Commits _ (start4k mbi' s' addr) := commits_start huser
    rwa [last_of_finished huser he hend htaken hmixed hfin, hreserved] at hstart

/-- Past `0xFFFF0000` the first pass starts again at address 0, and its second way round comes to a
split granule below the first one's start. -/
theorem passesEnd_of_wraps {addr : DWORD} (mbi : MemoryBasicInformation)
    (huser : addr.toNat < userEnd) (he : userEnd < endAddr.toNat)
    (hend : ¬endAddr.toNat ≤ 0xFFFF0000) (hblocked : ¬Blocked s addr endAddr)
    (htaken : s.page lastGranule ≠ .free)
    (hmixed : ∃ n, lastGranule ≤ n ∧ n < userPages ∧ s.page n ≠ s.page lastGranule)
    (hround : ∃ g, Split s g ∧ ∃ n < 16 * g, s.page n ≠ .free) :
    PassesEnd w mbi s addr endAddr := by
  constructor
  · apply halts_of_scans he _ (scans_start mbi s huser)
    intro c d hscans hc
    obtain ⟨tmp, hturn, hzero⟩ := turn_of_mixed (w := w) hc he htaken hmixed
    rw [if_neg hend] at hzero
    apply Pass.halts_of_turn
    intro c' _ ht
    cases hturn.symm.trans ht
    obtain ⟨g, hs, n, hn, htaken'⟩ := hround
    have huser' := lt_userEnd_of_split hs
    have hbelow : g < addr.toNat / 65536 := by
      by_contra hge
      exact hblocked ⟨g, by omega, by omega, hs, .inr ⟨n, hn, htaken'⟩⟩
    have hsame : ∀ m, m / 16 ≤ g → c.space.page m = s.page m := fun m hm ↦
      hscans.page_eq m (.inl (by omega))
    apply halts_of_ahead (s := c.space) (g := g)
    · exact split_of_page_eq (fun m hm ↦ (hsame m (by omega)).symm) hs
    · omega
    · subst hzero
      refine ⟨rfl, Nat.zero_le _, fun _ _ ↦ rfl, .inr ⟨n, hn, ?_⟩⟩
      rwa [hsame n (by omega)]
  · intro fuel mbi' s' hfin
    have h64 := toNat_start64k mbi s addr
    exact absurd hfin (reserve_ne_finished_of_last (by omega) (by omega) _ _ _)

theorem passesEnd_of_returns {addr : DWORD} (mbi : MemoryBasicInformation)
    (h : Returns s addr endAddr) : PassesEnd w mbi s addr endAddr := by
  rcases h with hpast | ⟨huser, h⟩
  · exact passesEnd_of_past mbi hpast
  by_cases hle : endAddr.toNat ≤ userEnd
  · exact passesEnd_of_user mbi hle
  have he : userEnd < endAddr.toNat := Nat.lt_of_not_le hle
  by_cases hblocked : Blocked s addr endAddr
  · exact passesEnd_of_blocked mbi hblocked
  by_cases hfree : s.page lastGranule = .free
  · exact passesEnd_of_free mbi huser he hfree
  obtain ⟨hmixed, hround⟩ := ((h.resolve_left hle).resolve_left hblocked).resolve_left hfree
  split at hround
  · next hend => exact passesEnd_of_reserved mbi huser he hend hfree hmixed hround
  · next hend => exact passesEnd_of_wraps mbi huser he hend hblocked hfree hmixed hround

/-- A loop that makes no way and is not through goes on for ever. -/
theorem not_halts_of_atEnd {p : Pass} {c : Cursor} (htmp : userEnd ≤ c.tmp.toNat)
    (hlt : c.tmp < endAddr) (hstate : c.mbi.state ≠ p.state) (hend : AtEnd c) :
    ¬p.Halts w endAddr c := by
  have hturn : p.turn w endAddr c = some _ := turn_top htmp hstate
  rw [chunk_of_atEnd hend, BitVec.add_zero] at hturn
  apply Pass.not_halts (I := fun c' ↦ c' = c) _ rfl
  rintro c' rfl
  exact ⟨hlt, c', hturn, rfl⟩

theorem atEnd_of_uniform {c : Cursor} (hc : AtTop s 0 c) : AtEnd c := by
  apply BitVec.eq_of_toNat_eq
  have := hc.region
  have := hc.tmp
  omega

theorem not_halts_of_uniform (hw : Lenient w) (he : userEnd < endAddr.toNat)
    (htaken : s.page lastGranule ≠ .free)
    (huniform : ∀ n, lastGranule ≤ n → n < userPages → s.page n = s.page lastGranule)
    {first : Nat} {c : Cursor} (hscans : Scans s first c) (hopen : Open s endAddr c) :
    ¬(reservePass w).Halts w endAddr c := by
  apply Pass.not_halts (I := fun c ↦ Scans s first c ∧ Open s endAddr c) _ ⟨hscans, hopen⟩
  rintro c ⟨hscans, hopen⟩
  have hlt := hscans.lt he
  refine ⟨hlt, ?_⟩
  rcases hscans.top with huser | ⟨d, hd⟩
  · obtain ⟨c', ht, hopen', -⟩ := hopen.turn hw hlt huser
    exact ⟨c', ht, (hscans.turn he huser ht).1, hopen'⟩
  · have hzero := hd.uniform.mpr huniform
    subst hzero
    have hmbi : c.mbi.state ≠ (reservePass w).state := by
      rw [hd.state]
      exact fun h ↦ htaken (Page.state_eq_free_iff.mp h)
    have hturn : (reservePass w).turn w endAddr c = some _ :=
      turn_top (Nat.le_of_eq hd.tmp.symm) hmbi
    rw [chunk_of_atEnd (atEnd_of_uniform hd), BitVec.add_zero] at hturn
    exact ⟨c, hturn, hscans, hopen⟩

theorem finishes_of_mixed (hw : Lenient w) (he : userEnd < endAddr.toNat)
    (hend : endAddr.toNat ≤ 0xFFFF0000) (htaken : s.page lastGranule ≠ .free)
    (hmixed : ∃ n, lastGranule ≤ n ∧ n < userPages ∧ s.page n ≠ s.page lastGranule)
    {first : Nat} {c : Cursor} (hscans : Scans s first c) (hopen : Open s endAddr c) :
    ∃ fuel mbi' s', (reservePass w).go w endAddr fuel c = .finished mbi' s' := by
  let OpenWithin (c : Cursor) : Prop := c.tmp < endAddr → Scans s first c ∧ Open s endAddr c
  have hturns : ∀ c, OpenWithin c → c.tmp < endAddr →
      ∃ c', (reservePass w).turn w endAddr c = some c' ∧ OpenWithin c' ∧
        c.tmp.toNat + 4096 ≤ c'.tmp.toNat ∧ c'.tmp.toNat ≤ 2 ^ 32 := by
    intro c hc hlt
    obtain ⟨hscans, hopen⟩ := hc hlt
    rcases hscans.top with huser | ⟨d, hd⟩
    · obtain ⟨c', ht, hopen', hgt, hle⟩ := hopen.turn hw hlt huser
      unfold userEnd userPages at hle
      exact ⟨c', ht, fun _ ↦ ⟨(hscans.turn he huser ht).1, hopen'⟩, hgt, by omega⟩
    · obtain ⟨tmp, ht, hpast⟩ := turn_of_mixed (w := w) hd he htaken hmixed
      rw [if_pos hend] at hpast
      have haligned : tmp.toNat % 65536 = 0 := aligned_of_reserve_turn hscans.aligned ht
      have htop := hscans.aligned
      rw [hd.tmp] at htop
      refine ⟨_, ht, fun h ↦ absurd (BitVec.lt_def.mp h) (Nat.not_lt.mpr hpast), ?_,
        Nat.le_of_lt tmp.isLt⟩
      show c.tmp.toNat + 4096 ≤ tmp.toNat
      rw [hd.tmp]
      omega
  obtain ⟨c', hfin, -⟩ :=
    Pass.go_finishes (2 ^ 32) hturns (2 ^ 20 + 1) (fun _ ↦ ⟨hscans, hopen⟩) (by omega)
  exact ⟨_, _, _, hfin⟩

/-- With an end in the last granule of the address space the first pass goes round and round. -/
theorem not_halts_of_mixed (hw : Lenient w) (hend : 0xFFFF0000 < endAddr.toNat)
    (htaken : s.page lastGranule ≠ .free)
    (hmixed : ∃ n, lastGranule ≤ n ∧ n < userPages ∧ s.page n ≠ s.page lastGranule)
    {c : Cursor} (hscans : Scans s 0 c) (hopen : Open s endAddr c) (hgrounded : Grounded c.space) :
    ¬(reservePass w).Halts w endAddr c := by
  have he : userEnd < endAddr.toNat := by
    unfold userEnd userPages
    omega
  apply Pass.not_halts (I := fun c ↦ ∃ s : Space, s.page lastGranule ≠ .free ∧
    (∃ n, lastGranule ≤ n ∧ n < userPages ∧ s.page n ≠ s.page lastGranule) ∧
    Scans s 0 c ∧ Open s endAddr c ∧ Grounded c.space) _
    ⟨s, htaken, hmixed, hscans, hopen, hgrounded⟩
  rintro c ⟨s, htaken, hmixed, hscans, hopen, hgrounded⟩
  have hlt := hscans.lt he
  refine ⟨hlt, ?_⟩
  rcases hscans.top with huser | ⟨d, hd⟩
  · obtain ⟨c', ht, hopen', -⟩ := hopen.turn hw hlt huser
    exact ⟨c', ht, s, htaken, hmixed, (hscans.turn he huser ht).1, hopen',
      grounded_of_turn he hopen hgrounded huser ht⟩
  · obtain ⟨tmp, ht, hzero⟩ := turn_of_mixed (w := w) hd he htaken hmixed
    rw [if_neg (by omega)] at hzero
    subst hzero
    have hlast := hscans.last htaken
    have hfirst := hlast lastGranule (Nat.le_refl _) (by decide)
    refine ⟨_, ht, c.space, by rwa [hfirst], ?_, ?_, ?_, hgrounded⟩
    · obtain ⟨n, hn, hn', hne⟩ := hmixed
      exact ⟨n, hn, hn', by rwa [hlast n hn hn', hfirst]⟩
    · exact scans_self (c := ⟨c.mbi, 0#32, c.space⟩) rfl (Nat.le_of_eq rfl)
        (show (0#32).toNat < userEnd by decide)
    · exact ⟨rfl, fun g _ _ hs ↦ ⟨show (0#32).toNat < 65536 by decide, hgrounded g hs⟩,
        fun n hn htaken ↦ ⟨hn, htaken⟩⟩

theorem returns_of_passesEnd {addr : DWORD}
    (h : ∀ mbi, PassesEnd crowded mbi s addr endAddr) : Returns s addr endAddr := by
  by_contra hno
  have hpast : addr.toNat - addr.toNat % 65536 < endAddr.toNat := by
    by_contra hle
    exact hno (.inl (by omega))
  by_cases huser : addr.toNat < userEnd
  · have he : userEnd < endAddr.toNat := by
      by_contra hle
      exact hno (.inr ⟨huser, .inl (Nat.le_of_not_lt hle)⟩)
    have hopen := open_start staleBuffer fun hb ↦ hno (.inr ⟨huser, .inr (.inl hb)⟩)
    have hscans := scans_start staleBuffer s huser
    have htaken : s.page lastGranule ≠ .free := fun hf ↦
      hno (.inr ⟨huser, .inr (.inr (.inl hf))⟩)
    obtain ⟨hreserve, hcommit⟩ := h staleBuffer
    by_cases hmixed : ∃ n, lastGranule ≤ n ∧ n < userPages ∧ s.page n ≠ s.page lastGranule
    · by_cases hend : endAddr.toNat ≤ 0xFFFF0000
      · obtain ⟨fuel, mbi', s', hfin⟩ :=
          finishes_of_mixed lenient_crowded he hend htaken hmixed hscans hopen
        have hlast := last_of_finished huser he hend htaken hmixed hfin
        apply not_halts_of_commits lenient_crowded he _ (commits_start huser)
          (hcommit fuel mbi' s' hfin)
        rw [hlast]
        intro hstate
        exact hno (.inr ⟨huser, .inr (.inr (.inr ⟨hmixed, by rwa [if_pos hend]⟩))⟩)
      · apply not_halts_of_mixed lenient_crowded (by omega) htaken hmixed _ hopen _ hreserve
        · have htmp := toNat_start64k staleBuffer s addr
          exact scans_self (c := start64k staleBuffer s addr) (by omega) (by omega) (by omega)
        · intro g hs n hn
          by_contra hfree
          exact hno (.inr ⟨huser, .inr (.inr (.inr ⟨hmixed, by
            rw [if_neg hend]
            exact ⟨g, hs, n, hn, hfree⟩⟩))⟩)
    · apply not_halts_of_uniform lenient_crowded he htaken _ hscans hopen hreserve
      intro n hn hlast
      by_contra hne
      exact hmixed ⟨n, hn, hlast, hne⟩
  · -- the buffer holds that nothing is left of the region
    generalize htmp : addr &&& ~~~(0x10000#32 - 1#32) = tmp
    have h64 := toNat_start64k ⟨tmp, 0#32, .commit⟩ s addr
    apply not_halts_of_atEnd _ _ _ _ (h ⟨tmp, 0#32, .commit⟩).1
    · unfold userEnd userPages at *
      omega
    · rw [BitVec.lt_def]
      omega
    · exact fun h ↦ nomatch h
    · show tmp + 0#32 = addr &&& ~~~(0x10000#32 - 1#32)
      rw [htmp, BitVec.add_zero]

/-- Whatever the system leaves open and the buffer holds, both loops end: this holds exactly of
the ranges that `Returns` describes. -/
theorem loopsEnd_iff (s : Space) (addr size : DWORD) :
    (∀ w mbi, LoopsEnd w mbi s addr size) ↔ Returns s addr (addr + size) := by
  constructor
  · intro h
    apply returns_of_passesEnd
    intro mbi
    have hends := h crowded mbi
    unfold LoopsEnd at hends
    rwa [start_of_unplaced fun _ ↦ rfl] at hends
  · intro h w mbi
    unfold LoopsEnd
    by_cases hplaced : addr = 0#32 ∧ w.place s size.toNat ≠ 0
    · obtain ⟨rfl, hp⟩ := hplaced
      have hle := (w.place_le s size.toNat hp).2
      have hpos := (w.place_le s size.toNat hp).1
      have htoNat := toNat_place w s size.toNat
      rw [if_pos rfl, Windows.reserve, if_pos rfl]
      simp only
      apply passesEnd_of_returns
      refine .inr ⟨?_, .inl ?_⟩
      · rw [htoNat]
        unfold userEnd
        omega
      · unfold userEnd userPages at *
        rw [BitVec.toNat_add, htoNat, Nat.mod_eq_of_lt (by omega)]
        exact hle
    · rw [start_of_unplaced fun hz ↦ by_contra fun hp ↦ hplaced ⟨hz, hp⟩]
      exact passesEnd_of_returns mbi h

/-- A process whose last granule is reserved, as a refused allocation that goes past the end of
the user address space leaves it. -/
def lastReserved : Space where
  page n := if lastGranule ≤ n ∧ n < userPages then .reserved lastGranule else .free
  outside n h := by
    apply if_neg
    unfold lastGranule granulePages userPages at *
    omega

/-- The same allocation again does not return. -/
theorem pastUserEnd_not_loopsEnd :
    ¬∀ (w : Windows) (mbi : MemoryBasicInformation) (s : Space) (addr size : DWORD),
      LoopsEnd w mbi s addr size := by
  intro h
  have hpage : ∀ n, lastGranule ≤ n → n < userPages →
      lastReserved.page n = .reserved lastGranule := fun n hn hlast ↦ if_pos ⟨hn, hlast⟩
  have hreserve := (h crowded staleBuffer lastReserved 0x7FFE0000#32 0x11000#32).1
  apply not_halts_of_uniform lenient_crowded (by decide) _ _
    (scans_start staleBuffer lastReserved (by decide)) (open_start staleBuffer _) hreserve
  · rw [hpage _ (Nat.le_refl _) (by decide)]
    exact fun h ↦ nomatch h
  · intro n hn hlast
    rw [hpage n hn hlast, hpage _ (Nat.le_refl _) (by decide)]
  · rintro ⟨g, hg, -, ⟨hfirst, n, hn, htaken⟩, -⟩
    apply htaken
    apply if_neg
    rintro ⟨hn', hlast⟩
    rw [hpage (16 * g)] at hfirst
    · cases hfirst
    · unfold lastGranule userPages granulePages at *
      omega
    · omega

end Keow.Memory
