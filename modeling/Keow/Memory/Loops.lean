import Keow.Memory.Allocate

/-!
# Turns of the allocator's loops

Both loops of the allocator carry the buffer of `VirtualQueryEx` from turn to turn, and where the
call fails they go on with what the last one left there. The rules of this module say from single
turns how a loop ends, or that it does not.
-/

namespace Keow.Memory

open Keow.Base Keow.Kernel

/-- Where a loop stands. -/
structure Cursor where
  mbi : MemoryBasicInformation
  tmp : DWORD
  space : Space

namespace Pass

variable {w : Windows} {p : Pass} {endAddr : DWORD}

/-- One turn. `none` when the allocation is refused. -/
def turn (w : Windows) (p : Pass) (endAddr : DWORD) (c : Cursor) : Option Cursor :=
  let mbi := w.virtualQueryEx c.space c.tmp c.mbi
  let len := p.chunk endAddr c.tmp mbi
  if mbi.state = p.state then
    if (p.alloc c.space c.tmp len).1 = c.tmp then
      some ⟨mbi, c.tmp + len, (p.alloc c.space c.tmp len).2⟩
    else none
  else some ⟨mbi, c.tmp + len, c.space⟩

/-- The loop from a cursor on. -/
def go (w : Windows) (p : Pass) (endAddr : DWORD) (fuel : Nat) (c : Cursor) : Scan :=
  p.run w endAddr fuel c.mbi c.tmp c.space

/-- The loop ends. -/
def Halts (w : Windows) (p : Pass) (endAddr : DWORD) (c : Cursor) : Prop :=
  ∃ fuel, p.go w endAddr fuel c ≠ .hung

theorem go_of_turn {c c' : Cursor} (hlt : c.tmp < endAddr) (ht : p.turn w endAddr c = some c')
    (fuel : Nat) : p.go w endAddr (fuel + 1) c = p.go w endAddr fuel c' := by
  unfold go
  rw [run, if_pos hlt]
  unfold turn at ht
  simp only at ht ⊢
  split at ht
  · next hact =>
    rw [if_pos hact]
    split at ht
    · next hok =>
      rw [if_pos hok]
      cases ht
      rfl
    · cases ht
  · next hskip =>
    rw [if_neg hskip]
    cases ht
    rfl

theorem go_of_refused {c : Cursor} (hlt : c.tmp < endAddr) (ht : p.turn w endAddr c = none)
    (fuel : Nat) : p.go w endAddr (fuel + 1) c = .refused (p.alloc c.space c.tmp
      (p.chunk endAddr c.tmp (w.virtualQueryEx c.space c.tmp c.mbi))).2 := by
  unfold go
  rw [run, if_pos hlt]
  unfold turn at ht
  simp only at ht ⊢
  split at ht
  · next hact =>
    rw [if_pos hact]
    split at ht
    · cases ht
    · next hno => rw [if_neg hno]
  · cases ht

theorem go_of_not_lt {c : Cursor} (hlt : ¬c.tmp < endAddr) (fuel : Nat) :
    p.go w endAddr (fuel + 1) c = .finished c.mbi c.space := by
  unfold go
  rw [run, if_neg hlt]

/-- What a turn does. -/
theorem turn_cases {c c' : Cursor} (h : p.turn w endAddr c = some c') :
    c'.mbi = w.virtualQueryEx c.space c.tmp c.mbi ∧
      c'.tmp = c.tmp + p.chunk endAddr c.tmp c'.mbi ∧
      (c'.mbi.state ≠ p.state ∧ c'.space = c.space ∨
        c'.mbi.state = p.state ∧
          p.alloc c.space c.tmp (p.chunk endAddr c.tmp c'.mbi) = (c.tmp, c'.space)) := by
  unfold turn at h
  simp only at h
  split at h
  · next hact =>
    split at h
    · next hok =>
      cases h
      exact ⟨rfl, rfl, .inr ⟨hact, Prod.ext hok rfl⟩⟩
    · cases h
  · next hskip =>
    cases h
    exact ⟨rfl, rfl, .inl ⟨hskip, rfl⟩⟩

/-! ## Invariants -/

/-- What turns keep holds where a loop finishes. -/
theorem inv_of_go_finished {I : Cursor → Prop}
    (hstep : ∀ c c', I c → c.tmp < endAddr → p.turn w endAddr c = some c' → I c') (fuel : Nat)
    {c : Cursor} (hc : I c) {mbi : MemoryBasicInformation} {s : Space}
    (h : p.go w endAddr fuel c = .finished mbi s) :
    ∃ tmp, I ⟨mbi, tmp, s⟩ ∧ ¬tmp < endAddr := by
  induction fuel generalizing c with
  | zero => cases h
  | succ fuel ih =>
    by_cases hlt : c.tmp < endAddr
    · cases ht : p.turn w endAddr c with
      | none =>
        rw [go_of_refused hlt ht fuel] at h
        cases h
      | some c' =>
        rw [go_of_turn hlt ht] at h
        exact ih (hstep c c' hc hlt ht) h
    · rw [go_of_not_lt hlt] at h
      cases h
      exact ⟨c.tmp, hc, hlt⟩

/-- What turns keep holds of what a loop leaves, if a refusal keeps it too. -/
theorem go_leaves {I : Cursor → Prop} {P : Space → Prop}
    (hstep : ∀ c c', I c → c.tmp < endAddr → p.turn w endAddr c = some c' → I c')
    (hrefused : ∀ c len, I c → c.tmp < endAddr → (p.alloc c.space c.tmp len).1 ≠ c.tmp →
      P (p.alloc c.space c.tmp len).2)
    (hP : ∀ c, I c → P c.space) (fuel : Nat) {c : Cursor} (hc : I c) :
    (p.go w endAddr fuel c).Leaves P := by
  induction fuel generalizing c with
  | zero => trivial
  | succ fuel ih =>
    by_cases hlt : c.tmp < endAddr
    · cases ht : p.turn w endAddr c with
      | none =>
        rw [go_of_refused hlt ht fuel]
        apply hrefused c _ hc hlt
        intro hok
        unfold turn at ht
        simp only [if_pos hok] at ht
        split at ht <;> cases ht
      | some c' =>
        rw [go_of_turn hlt ht]
        exact ih (hstep c c' hc hlt ht)
    · rw [go_of_not_lt hlt]
      exact hP c hc

/-- A loop that keeps below its end does not finish. -/
theorem go_ne_finished {I : Cursor → Prop} (hlt : ∀ c, I c → c.tmp < endAddr)
    (hstep : ∀ c c', I c → p.turn w endAddr c = some c' → I c') (fuel : Nat) {c : Cursor}
    (hc : I c) (mbi : MemoryBasicInformation) (s : Space) :
    p.go w endAddr fuel c ≠ .finished mbi s := by
  intro h
  obtain ⟨tmp, hI, hge⟩ := inv_of_go_finished (fun c c' hc _ ↦ hstep c c' hc) fuel hc h
  exact hge (hlt _ hI)

/-- A loop that always takes one more turn. -/
theorem not_halts {I : Cursor → Prop}
    (hstep : ∀ c, I c → c.tmp < endAddr ∧ ∃ c', p.turn w endAddr c = some c' ∧ I c')
    {c : Cursor} (hc : I c) : ¬p.Halts w endAddr c := by
  rintro ⟨fuel, hfuel⟩
  apply hfuel
  clear hfuel
  induction fuel generalizing c with
  | zero => rfl
  | succ fuel ih =>
    obtain ⟨hlt, c', ht, hc'⟩ := hstep c hc
    rw [go_of_turn hlt ht]
    exact ih hc'

/-- A loop whose turns are granted, advance and stay below a bound finishes, with its invariant
kept. -/
theorem go_finishes {I : Cursor → Prop} (bound : Nat)
    (hstep : ∀ c, I c → c.tmp < endAddr → ∃ c', p.turn w endAddr c = some c' ∧ I c' ∧
      c.tmp.toNat + 4096 ≤ c'.tmp.toNat ∧ c'.tmp.toNat ≤ bound)
    (fuel : Nat) {c : Cursor} (hc : I c) (hfuel : bound - c.tmp.toNat + 4096 ≤ fuel * 4096) :
    ∃ c', p.go w endAddr fuel c = .finished c'.mbi c'.space ∧ I c' := by
  induction fuel generalizing c with
  | zero => omega
  | succ fuel ih =>
    by_cases hlt : c.tmp < endAddr
    · obtain ⟨c', ht, hc', hgt, hle⟩ := hstep c hc hlt
      rw [go_of_turn hlt ht]
      exact ih hc' (by omega)
    · rw [go_of_not_lt hlt]
      exact ⟨c, rfl, hc⟩

theorem halts_of_turn {c : Cursor}
    (h : ∀ c', c.tmp < endAddr → p.turn w endAddr c = some c' → p.Halts w endAddr c') :
    p.Halts w endAddr c := by
  by_cases hlt : c.tmp < endAddr
  · cases ht : p.turn w endAddr c with
    | none =>
      exact ⟨1, by rw [go_of_refused hlt ht]; exact fun h ↦ nomatch h⟩
    | some c' =>
      obtain ⟨fuel, hfuel⟩ := h c' hlt ht
      exact ⟨fuel + 1, by rwa [go_of_turn hlt ht]⟩
  · exact ⟨1, by rw [go_of_not_lt hlt]; exact fun h ↦ nomatch h⟩

/-- A loop that comes closer to a bound with each turn, or to where it is known to end. -/
theorem halts_of_bound {I : Cursor → Prop} (bound : Nat)
    (hstep : ∀ c c', I c → c.tmp < endAddr → p.turn w endAddr c = some c' →
      p.Halts w endAddr c' ∨ I c' ∧ c.tmp.toNat < c'.tmp.toNat ∧ c'.tmp.toNat ≤ bound)
    {c : Cursor} (hc : I c) : p.Halts w endAddr c := by
  induction hm : bound - c.tmp.toNat using Nat.strong_induction_on generalizing c with
  | _ m ih =>
    apply halts_of_turn
    intro c' hlt ht
    rcases hstep c c' hc hlt ht with h | ⟨hc', hgt, hle⟩
    · exact h
    · exact ih (bound - c'.tmp.toNat) (by omega) hc' rfl

end Pass

/-! ## Turns inside the user address space -/

variable {w : Windows} {p : Pass} {k : Nat} {endAddr : DWORD}

/-- A turn covers the rest of the range or of the region, rounded up, and leaves in the buffer
what it was told of the region. -/
structure Advances (w : Windows) (k : Nat) (endAddr : DWORD) (c c' : Cursor) : Prop where
  aligned : c'.tmp.toNat % 2 ^ k = 0
  ge : min endAddr.toNat ((c.tmp.toNat / 4096 + w.region c.space (c.tmp.toNat / 4096)) * 4096) ≤
    c'.tmp.toNat
  lt : c'.tmp.toNat <
    min endAddr.toNat ((c.tmp.toNat / 4096 + w.region c.space (c.tmp.toNat / 4096)) * 4096) + 2 ^ k
  gt : c.tmp.toNat < c'.tmp.toNat
  le : c'.tmp.toNat ≤ userEnd
  mbi : c'.mbi = ⟨c.tmp, BitVec.ofNat 32 (w.region c.space (c.tmp.toNat / 4096) * 4096),
    (c.space.page (c.tmp.toNat / 4096)).state⟩

theorem advances_chunk (hu : p.unit.toNat = 2 ^ k) (hk : k = 12 ∨ k = 16) {c c' : Cursor}
    (ht : c.tmp.toNat % 2 ^ k = 0) (hlt : c.tmp < endAddr) (he : c.tmp.toNat < userEnd)
    (hmbi : c'.mbi = w.virtualQueryEx c.space c.tmp c.mbi)
    (htmp : c'.tmp = c.tmp + p.chunk endAddr c.tmp c'.mbi) : Advances w k endAddr c c' := by
  rw [BitVec.lt_def] at hlt
  have hpage : c.tmp.toNat / 4096 < userPages := by
    unfold userEnd userPages at *
    omega
  have hchunk := toNat_chunk (w := w) (s := c.space) hu hk c.mbi ht hlt he rfl
  have hpos := w.region_pos c.space (c.tmp.toNat / 4096)
  have hle := w.region_le c.space (c.tmp.toNat / 4096) hpage
  have hbase : c.tmp &&& ~~~(0x1000#32 - 1#32) = c.tmp := by
    apply BitVec.eq_of_toNat_eq
    rw [toNat_and_not_sub_one c.tmp (0x1000#32) (k := 12) rfl]
    rcases hk with rfl | rfl <;> omega
  rw [← hmbi] at hchunk
  generalize p.chunk endAddr c.tmp c'.mbi = len at htmp hchunk
  generalize hr : w.region c.space (c.tmp.toNat / 4096) = r at hchunk hpos hle ⊢
  obtain ⟨hmod, hge, hsmall⟩ := hchunk
  have hsum : c'.tmp.toNat = c.tmp.toNat + len.toNat := by
    unfold userEnd userPages at *
    rw [htmp, BitVec.toNat_add, Nat.mod_eq_of_lt]
    rcases hk with rfl | rfl <;> omega
  unfold userEnd userPages at *
  refine ⟨?_, ?_, ?_, ?_, ?_, ?_⟩
  · rw [hsum, Nat.add_mod, ht, hmod]
    simp
  · rcases hk with rfl | rfl <;> omega
  · rcases hk with rfl | rfl <;> omega
  · omega
  · unfold userEnd userPages
    rcases hk with rfl | rfl <;> omega
  · rw [hmbi, Windows.virtualQueryEx, if_pos (show _ < userPages from hpage), hbase, hr]

/-- The units of a turn all start with a page like the one that was queried. -/
theorem Advances.page_eq {c c' : Cursor} (h : Advances w k endAddr c c')
    (hk : k = 12 ∨ k = 16) (ht : c.tmp.toNat % 2 ^ k = 0) {n : Nat} (hn : c.tmp.toNat ≤ n * 4096)
    (hlast : n * 4096 < c'.tmp.toNat) (hunit : n * 4096 % 2 ^ k = 0) :
    c.space.page n = c.space.page (c.tmp.toNat / 4096) := by
  have hlt := h.lt
  have haligned := h.aligned
  have hin : n - c.tmp.toNat / 4096 < w.region c.space (c.tmp.toNat / 4096) := by
    rcases hk with rfl | rfl <;> omega
  have hsame := w.region_same _ _ _ hin
  rwa [show c.tmp.toNat / 4096 + (n - c.tmp.toNat / 4096) = n by omega] at hsame

/-- Before its last unit a turn covers nothing but the region. -/
theorem Advances.page_eq_of_le {c c' : Cursor} (h : Advances w k endAddr c c') {n : Nat}
    (hn : c.tmp.toNat / 4096 ≤ n) (hlast : n * 4096 + 2 ^ k ≤ c'.tmp.toNat) :
    c.space.page n = c.space.page (c.tmp.toNat / 4096) := by
  have hlt := h.lt
  have hsame := w.region_same c.space (c.tmp.toNat / 4096) (n - c.tmp.toNat / 4096) (by omega)
  rwa [show c.tmp.toNat / 4096 + (n - c.tmp.toNat / 4096) = n by omega] at hsame

/-- Every unit of a turn starts below the end of the range. -/
theorem Advances.lt_endAddr {c c' : Cursor} (h : Advances w k endAddr c c')
    (hk : k = 12 ∨ k = 16) {a : Nat} (ha : a % 2 ^ k = 0) (hlast : a < c'.tmp.toNat) :
    a < endAddr.toNat := by
  have hlt := h.lt
  have haligned := h.aligned
  rcases hk with rfl | rfl <;> omega

/-- A turn ends where the block of its length does. -/
theorem Advances.pageEnd_eq {c c' : Cursor} {len : DWORD} (h : Advances w k endAddr c c')
    (hk : k = 12 ∨ k = 16) (ht : c.tmp.toNat % 2 ^ k = 0) (htmp : c'.tmp = c.tmp + len) :
    pageEnd c.tmp.toNat len.toNat = c'.tmp.toNat / 4096 := by
  have hgt := h.gt
  have haligned := h.aligned
  have hlen := len.isLt
  have hsum := BitVec.toNat_add c.tmp len
  rw [← htmp] at hsum
  have hnowrap : c'.tmp.toNat = c.tmp.toNat + len.toNat := by omega
  unfold pageEnd
  rcases hk with rfl | rfl <;> omega

/-- A turn that starts below 64k is over free pages, and goes on to 64k or to the end. -/
theorem Advances.low {c c' : Cursor} (h : Advances w k endAddr c c') (hlow : c.tmp.toNat < 65536) :
    c.space.page (c.tmp.toNat / 4096) = .free ∧
      (65536 ≤ c'.tmp.toNat ∨ endAddr.toNat ≤ c'.tmp.toNat) := by
  have hfree : ∀ n < 16, c.space.page n = .free := fun n hn ↦ c.space.outside n (.inl hn)
  have hge := h.ge
  refine ⟨hfree _ (by omega), ?_⟩
  by_contra hno
  have hregion : c.tmp.toNat / 4096 + w.region c.space (c.tmp.toNat / 4096) < 16 := by omega
  apply w.region_max c.space (c.tmp.toNat / 4096)
  · unfold userPages
    omega
  · rw [hfree _ hregion, hfree _ (by omega)]

/-- A turn of the first pass. Below 64k the reservation goes where Windows chooses, and the pass
goes on only if there was no room. -/
theorem reserve_turn {c c' : Cursor} (ht : c.tmp.toNat % 2 ^ 16 = 0) (hlt : c.tmp < endAddr)
    (he : c.tmp.toNat < userEnd) (h : (reservePass w).turn w endAddr c = some c') :
    Advances w 16 endAddr c c' ∧
      (c'.space = c.space ∧
          (c.space.page (c.tmp.toNat / 4096) ≠ .free ∨ c.tmp.toNat < 65536) ∨
        65536 ≤ c.tmp.toNat ∧ c.space.AllFree (c.tmp.toNat / 4096) (c'.tmp.toNat / 4096) ∧
          c'.space = c.space.update (c.tmp.toNat / 4096) (c'.tmp.toNat / 4096)
            (Page.reserve (c.tmp.toNat / 4096))) := by
  obtain ⟨hmbi, htmp, hact⟩ := Pass.turn_cases h
  have hadv := advances_chunk (p := reservePass w) rfl (.inr rfl) ht hlt he hmbi htmp
  refine ⟨hadv, ?_⟩
  rw [hadv.mbi] at hact
  rcases hact with ⟨hskip, hs⟩ | ⟨-, hcall⟩
  · exact .inl ⟨hs, .inl fun hp ↦ hskip (congrArg Page.state hp)⟩
  · rw [← hadv.mbi] at hcall
    have hlen := hadv.pageEnd_eq (.inr rfl) ht htmp
    generalize (reservePass w).chunk endAddr c.tmp c'.mbi = len at htmp hcall hlen
    have hcall' : w.reserve c.space c.tmp len = (c.tmp, c'.space) := hcall
    have ha : c.tmp.toNat / 65536 * 65536 = c.tmp.toNat := by omega
    by_cases hz : c.tmp = 0#32
    · left
      refine ⟨?_, .inr (by rw [hz]; decide)⟩
      simp only [Windows.reserve, if_pos hz] at hcall'
      injection hcall' with hp hs
      rw [hz] at hp
      rw [← hs, if_pos]
      rw [← toNat_place w c.space len.toNat, hp]
      rfl
    · right
      simp only [Windows.reserve, if_neg hz, ha, hlen] at hcall'
      split at hcall'
      · next hok =>
        injection hcall' with _ hs
        have hbase : 65536 ≤ c.tmp.toNat := by
          have := Nat.pos_of_ne_zero fun h ↦ hz (BitVec.eq_of_toNat_eq h)
          omega
        exact ⟨hbase, hok.2.2.2.1, hs.symm⟩
      · injection hcall' with hp _
        exact absurd hp.symm hz

/-- A turn of the second pass. -/
theorem commit_turn {c c' : Cursor} (ht : c.tmp.toNat % 2 ^ 12 = 0) (hlt : c.tmp < endAddr)
    (he : c.tmp.toNat < userEnd) (h : (commitPass w).turn w endAddr c = some c') :
    Advances w 12 endAddr c c' ∧
      (c'.space = c.space ∧ (c.space.page (c.tmp.toNat / 4096)).state ≠ .reserve ∨
        (c.space.page (c.tmp.toNat / 4096)).state = .reserve ∧
          c'.space =
            c.space.update (c.tmp.toNat / 4096) (c'.tmp.toNat / 4096) Page.commit) := by
  obtain ⟨hmbi, htmp, hact⟩ := Pass.turn_cases h
  have hadv := advances_chunk (p := commitPass w) rfl (.inl rfl) ht hlt he hmbi htmp
  refine ⟨hadv, ?_⟩
  have hstate : c'.mbi.state = (c.space.page (c.tmp.toNat / 4096)).state := by rw [hadv.mbi]
  rw [hstate] at hact
  rcases hact with ⟨hskip, hs⟩ | ⟨hact, hcall⟩
  · exact .inl ⟨hs, hskip⟩
  · right
    refine ⟨hact, ?_⟩
    have hlen := hadv.pageEnd_eq (.inl rfl) ht htmp
    generalize (commitPass w).chunk endAddr c.tmp c'.mbi = len at hcall hlen
    have hcall' : w.commit c.space c.tmp len = (c.tmp, c'.space) := hcall
    have ha : c.tmp.toNat / 4096 * 4096 = c.tmp.toNat := by omega
    simp only [Windows.commit, ha, hlen] at hcall'
    split at hcall'
    · injection hcall' with _ hs
      exact hs.symm
    · injection hcall' with hp _
      rw [← hp, c.space.outside _ (.inl (by decide))] at hact
      exact absurd (show PageState.free = .reserve from hact) (by decide)

/-! ## A system that refuses nothing but has no address to offer -/

/-- Reservations and commitments are granted, and a reservation that asks for no address finds no
room. -/
structure Lenient (w : Windows) : Prop where
  reserve : ∀ s a size, w.grantsReserve s a size = true
  commit : ∀ s a size, w.grantsCommit s a size = true
  place : ∀ s size, w.place s size = 0

/-- A granule that starts with a free page and holds a taken one. -/
def Split (s : Space) (g : Nat) : Prop :=
  s.page (16 * g) = .free ∧ ∃ n, n / 16 = g ∧ s.page n ≠ .free

/-- Where no granule is split, the turn's pages are all free if its first one is. -/
theorem Advances.allFree {c c' : Cursor} (h : Advances w 16 endAddr c c')
    (ht : c.tmp.toNat % 2 ^ 16 = 0) (hfree : c.space.page (c.tmp.toNat / 4096) = .free)
    (hsplit : ∀ g, c.tmp.toNat ≤ 65536 * g → 65536 * g < endAddr.toNat → ¬Split c.space g) :
    c.space.AllFree (c.tmp.toNat / 4096) (c'.tmp.toNat / 4096) := by
  intro i hi
  generalize hn : c.tmp.toNat / 4096 + i = n
  generalize hg : n / 16 = g
  have haligned : c'.tmp.toNat % 65536 = 0 := h.aligned
  have ht' : c.tmp.toNat % 65536 = 0 := ht
  have hend : 65536 * g < endAddr.toNat := h.lt_endAddr (.inr rfl) (by omega) (by omega)
  by_contra htaken
  apply hsplit g (by omega) hend
  refine ⟨?_, n, hg, htaken⟩
  rw [h.page_eq (.inr rfl) ht (by omega) (by omega) (by omega), hfree]

/-- The first pass of a lenient system is stopped by split granules only. -/
theorem exists_reserve_turn (hw : Lenient w) {c : Cursor} (ht : c.tmp.toNat % 2 ^ 16 = 0)
    (hlt : c.tmp < endAddr) (he : c.tmp.toNat < userEnd)
    (hsplit : 65536 ≤ c.tmp.toNat → ∀ g, c.tmp.toNat ≤ 65536 * g → 65536 * g < endAddr.toNat →
      ¬Split c.space g) : ∃ c', (reservePass w).turn w endAddr c = some c' := by
  unfold Pass.turn
  simp only
  split
  · next hact =>
    generalize hmbi : w.virtualQueryEx c.space c.tmp c.mbi = mbi
    generalize hlen : (reservePass w).chunk endAddr c.tmp mbi = len
    have hadv : Advances w 16 endAddr c ⟨mbi, c.tmp + len, c.space⟩ :=
      advances_chunk (p := reservePass w) rfl (.inr rfl) ht hlt he hmbi.symm (by rw [hlen])
    rw [if_pos]
    · exact ⟨_, rfl⟩
    · show (w.reserve c.space c.tmp len).1 = c.tmp
      by_cases hz : c.tmp = 0#32
      · rw [Windows.reserve, if_pos hz, hw.place]
        exact hz.symm
      · have hbase : 65536 ≤ c.tmp.toNat := by
          have := Nat.pos_of_ne_zero fun h ↦ hz (BitVec.eq_of_toNat_eq h)
          omega
        have hend := hadv.pageEnd_eq (.inr rfl) ht rfl
        have ha : c.tmp.toNat / 65536 * 65536 = c.tmp.toNat := by omega
        have hpos := hadv.gt
        have hle := hadv.le
        have hfree : c.space.page (c.tmp.toNat / 4096) = .free := by
          rw [hmbi] at hact
          have hstate := congrArg MemoryBasicInformation.state hadv.mbi
          exact Page.state_eq_free_iff.mp (hstate.symm.trans hact)
        have hall := hadv.allFree ht hfree (hsplit hbase)
        simp only at hpos hle hall
        have hne : len ≠ 0#32 := by
          rintro rfl
          rw [BitVec.add_zero] at hpos
          exact Nat.lt_irrefl _ hpos
        simp only [Windows.reserve, if_neg hz, ha, hend]
        rw [if_pos]
        · rw [BitVec.ofNat_toNat, BitVec.setWidth_eq]
        · unfold userEnd at hle
          exact ⟨hne, by unfold granulePages; omega, by omega, hall, hw.reserve _ _ _⟩
  · exact ⟨_, rfl⟩

/-- The second pass of a lenient system is stopped by nothing. -/
theorem exists_commit_turn (hw : Lenient w) {c : Cursor} (ht : c.tmp.toNat % 2 ^ 12 = 0)
    (hlt : c.tmp < endAddr) (he : c.tmp.toNat < userEnd) :
    ∃ c', (commitPass w).turn w endAddr c = some c' := by
  unfold Pass.turn
  simp only
  split
  · next hact =>
    generalize hmbi : w.virtualQueryEx c.space c.tmp c.mbi = mbi
    generalize hlen : (commitPass w).chunk endAddr c.tmp mbi = len
    have hadv : Advances w 12 endAddr c ⟨mbi, c.tmp + len, c.space⟩ :=
      advances_chunk (p := commitPass w) rfl (.inl rfl) ht hlt he hmbi.symm (by rw [hlen])
    rw [if_pos]
    · exact ⟨_, rfl⟩
    · show (w.commit c.space c.tmp len).1 = c.tmp
      have hend := hadv.pageEnd_eq (.inl rfl) ht rfl
      have ha : c.tmp.toNat / 4096 * 4096 = c.tmp.toNat := by omega
      have hpos := hadv.gt
      have hle := hadv.le
      have htaken : c.space.page (c.tmp.toNat / 4096) ≠ .free := by
        rw [hmbi] at hact
        have hstate := congrArg MemoryBasicInformation.state hadv.mbi
        intro hfree
        rw [hfree] at hstate
        exact absurd (hact.symm.trans hstate) (show PageState.reserve ≠ .free by decide)
      have hall : c.space.AllTaken (c.tmp.toNat / 4096) ((c.tmp + len).toNat / 4096) := by
        intro i hi
        have haligned := hadv.aligned
        simp only at haligned
        rw [hadv.page_eq (.inl rfl) ht (by omega) (by simp only; omega) (by omega)]
        exact htaken
      simp only at hpos hle
      have hne : len ≠ 0#32 := by
        rintro rfl
        rw [BitVec.add_zero] at hpos
        exact Nat.lt_irrefl _ hpos
      simp only [Windows.commit, ha, hend]
      rw [if_pos]
      · rw [BitVec.ofNat_toNat, BitVec.setWidth_eq]
      · unfold userEnd at hle
        exact ⟨hne, by omega, hall, hw.commit _ _ _⟩
  · exact ⟨_, rfl⟩

/-! ## Split granules -/

theorem lt_userEnd_of_split {s : Space} {g : Nat} (h : Split s g) : 65536 * g < userEnd := by
  obtain ⟨-, n, hn, htaken⟩ := h
  by_contra hge
  apply htaken
  apply s.outside
  unfold userEnd at hge
  omega

/-- A granule that the first pass comes to in the state it was in, and not in the turn that goes
where Windows chooses. -/
structure Ahead (s : Space) (g : Nat) (c : Cursor) : Prop where
  aligned : c.tmp.toNat % 65536 = 0
  le : c.tmp.toNat ≤ 65536 * g
  page_eq : ∀ n, c.tmp.toNat ≤ n * 4096 → c.space.page n = s.page n
  above : 65536 ≤ c.tmp.toNat ∨ ∃ n < 16 * g, s.page n ≠ .free

/-- The first pass does not get past a split granule. -/
theorem Ahead.turn {s : Space} {g : Nat} (hs : Split s g) (he : 65536 * g < endAddr.toNat)
    {c c' : Cursor} (hc : Ahead s g c) (h : (reservePass w).turn w endAddr c = some c') :
    Ahead s g c' ∧ c.tmp.toNat < c'.tmp.toNat := by
  have hle := hc.le
  have ht := hc.aligned
  obtain ⟨hadv, hspace⟩ := reserve_turn ht (by rw [BitVec.lt_def]; omega)
    (Nat.lt_of_le_of_lt hle (lt_userEnd_of_split hs)) h
  have haligned : c'.tmp.toNat % 65536 = 0 := hadv.aligned
  have hnext : c'.tmp.toNat ≤ 65536 * g := by
    by_contra hpast
    have hfirst : c.space.page (c.tmp.toNat / 4096) = .free := by
      rw [← hadv.page_eq (.inr rfl) ht (n := 16 * g) (by omega) (by omega) (by omega),
        hc.page_eq _ (by omega)]
      exact hs.1
    rcases hspace with ⟨-, htaken | hlow⟩ | ⟨-, hall, -⟩
    · exact htaken hfirst
    · rcases hc.above with hbase | ⟨n, hn, htaken⟩
      · omega
      · apply htaken
        rw [← hc.page_eq n (by omega), hadv.page_eq_of_le (by omega) (by omega), hfirst]
    · obtain ⟨n, hn, htaken⟩ := hs.2
      apply htaken
      have hpage := hall (n - c.tmp.toNat / 4096) (by omega)
      rw [show c.tmp.toNat / 4096 + (n - c.tmp.toNat / 4096) = n by omega] at hpage
      rw [← hc.page_eq n (by omega), hpage]
  have habove : 65536 ≤ c'.tmp.toNat := by
    by_cases hlow : c.tmp.toNat < 65536
    · rcases (hadv.low hlow).2 with h | h <;> omega
    · have := hadv.gt
      omega
  refine ⟨⟨haligned, hnext, ?_, .inl habove⟩, hadv.gt⟩
  intro n hn
  rw [← hc.page_eq n (by have := hadv.gt; omega)]
  rcases hspace with ⟨hs, -⟩ | ⟨-, -, hs⟩
  · rw [hs]
  · rw [hs]
    exact Space.page_update_of_not_mem _ (by omega)

/-- The first pass over the range comes to a split granule, other than in a turn that goes where
Windows chooses. -/
def Blocked (s : Space) (addr endAddr : DWORD) : Prop :=
  ∃ g, addr.toNat / 65536 ≤ g ∧ 65536 * g < endAddr.toNat ∧ Split s g ∧
    (65536 ≤ addr.toNat ∨ ∃ n < 16 * g, s.page n ≠ .free)

/-- Where the first pass starts. -/
def start64k (mbi : MemoryBasicInformation) (s : Space) (addr : DWORD) : Cursor :=
  ⟨mbi, addr &&& ~~~(0x10000#32 - 1#32), s⟩

/-- Where the second pass starts. -/
def start4k (mbi : MemoryBasicInformation) (s : Space) (addr : DWORD) : Cursor :=
  ⟨mbi, addr &&& ~~~(0x1000#32 - 1#32), s⟩

theorem toNat_start64k (mbi : MemoryBasicInformation) (s : Space) (addr : DWORD) :
    (start64k mbi s addr).tmp.toNat = addr.toNat - addr.toNat % 65536 :=
  toNat_and_not_sub_one addr (0x10000#32) (k := 16) rfl

theorem toNat_start4k (mbi : MemoryBasicInformation) (s : Space) (addr : DWORD) :
    (start4k mbi s addr).tmp.toNat = addr.toNat - addr.toNat % 4096 :=
  toNat_and_not_sub_one addr (0x1000#32) (k := 12) rfl

theorem ahead_start {s : Space} {addr : DWORD} {g : Nat} (hg : addr.toNat / 65536 ≤ g)
    (habove : 65536 ≤ addr.toNat ∨ ∃ n < 16 * g, s.page n ≠ .free)
    (mbi : MemoryBasicInformation) : Ahead s g (start64k mbi s addr) := by
  have htmp := toNat_start64k mbi s addr
  refine ⟨by omega, by omega, fun _ _ ↦ rfl, ?_⟩
  exact habove.imp_left fun h ↦ by omega

end Keow.Memory
