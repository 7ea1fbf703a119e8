import Keow.Base.Align
import Keow.Base.VirtualMemory
import Keow.Kernel.Linux

/-!
# Allocation in a process

`MemoryHelper::AllocateMemAndProtectProcess` makes two passes over the range it is asked for:
one reserves the granules that are free, the other commits the pages that are reserved. Pages
that neither pass is responsible for are skipped, and the call succeeds all the same.
-/

namespace Keow.Memory

open Keow.Base Keow.Kernel

/-- What tells the two loops of `AllocateMemAndProtectProcess` apart: the size they round up to,
the state of the pages they act on, and the call that they make. -/
structure Pass where
  unit : DWORD
  state : PageState
  alloc : Space → DWORD → DWORD → DWORD × Space

/-- `MemoryHelper.cpp:64–88`. -/
def reservePass (w : Windows) : Pass := ⟨0x10000#32, .free, w.reserve⟩

/-- `MemoryHelper.cpp:90–113`. -/
def commitPass (w : Windows) : Pass := ⟨0x1000#32, .reserve, w.commit⟩

/-- How a pass ends. -/
inductive Scan where
  | hung
  | refused (s : Space)
  | finished (mbi : MemoryBasicInformation) (s : Space)

namespace Pass

/-- `len64k` and `len4k`: what is left of the range, or of the region when that is less, rounded
up. -/
def chunk (p : Pass) (endAddr tmp : DWORD) (mbi : MemoryBasicInformation) : DWORD :=
  let len := endAddr - tmp
  let rest := mbi.regionSize - (tmp - mbi.baseAddress)
  ((if rest < len then rest else len) + (p.unit - 1#32)) &&& ~~~(p.unit - 1#32)

/-- A pass from `tmp` on. -/
def run (w : Windows) (p : Pass) (endAddr : DWORD) :
    Nat → MemoryBasicInformation → DWORD → Space → Scan
  | 0, _, _, _ => .hung
  | fuel + 1, mbi, tmp, s =>
      if tmp < endAddr then
        let mbi := w.virtualQueryEx s tmp mbi
        let len := p.chunk endAddr tmp mbi
        if mbi.state = p.state then
          if (p.alloc s tmp len).1 = tmp then
            p.run w endAddr fuel mbi (tmp + len) (p.alloc s tmp len).2
          else .refused (p.alloc s tmp len).2
        else p.run w endAddr fuel mbi (tmp + len) s
      else .finished mbi s

end Pass

/-- The turns after which a pass that still runs will not end: a second way round the address
space finds nothing new. -/
def scanFuel : Nat := 2 ^ 20

/-- The two passes, `MemoryHelper.cpp:64–117`: the address, or -1. `none` when they do not
return. -/
def backRange (w : Windows) (mbi : MemoryBasicInformation) (s : Space) (addr endAddr : DWORD) :
    Option (DWORD × Space) :=
  match (reservePass w).run w endAddr scanFuel mbi (addr &&& ~~~(0x10000#32 - 1#32)) s with
  | .hung => none
  | .refused s => some (-1#32, s)
  | .finished mbi s =>
      match (commitPass w).run w endAddr scanFuel mbi (addr &&& ~~~(0x1000#32 - 1#32)) s with
      | .hung => none
      | .refused s => some (-1#32, s)
      | .finished _ s => some (addr, s)

/-- `MemoryHelper::AllocateMemAndProtectProcess`, `MemoryHelper.cpp:42–118`. `mbi` is what the
output argument of `VirtualQueryEx` holds before the first call. -/
def allocateMemAndProtectProcess (w : Windows) (mbi : MemoryBasicInformation) (s : Space)
    (addr size : DWORD) : Option (DWORD × Space) :=
  let start := if addr = 0#32 then w.reserve s 0#32 size else (addr, s)
  backRange w mbi start.2 start.1 (start.1 + size)

/-! ## One pass -/

/-- Whatever the pass leaves behind satisfies this. -/
def Scan.Leaves (P : Space → Prop) : Scan → Prop
  | .hung => True
  | .refused s => P s
  | .finished _ s => P s

/-- The pass ends, and satisfies this if it was not refused. -/
def Scan.Ends (P : Space → Prop) : Scan → Prop
  | .hung => False
  | .refused _ => True
  | .finished _ s => P s

/-- The end of the user address space. -/
def userEnd : Nat := userPages * 4096

/-- One turn covers whole units, and the first page of each unit is in the state of the page
that was queried. -/
structure Turn (k : Nat) (s : Space) (tmp len : DWORD) : Prop where
  base : 65536 ≤ tmp.toNat
  aligned : tmp.toNat % 2 ^ k = 0
  len_aligned : len.toNat % 2 ^ k = 0
  len_pos : 0 < len.toNat
  le : tmp.toNat + len.toNat ≤ userEnd
  same : ∀ n, tmp.toNat ≤ n * 4096 → n * 4096 < tmp.toNat + len.toNat → n * 4096 % 2 ^ k = 0 →
    (s.page n).state = (s.page (tmp.toNat / 4096)).state

variable {w : Windows} {p : Pass} {k : Nat} {s : Space}

theorem Turn.ne_zero {tmp len : DWORD} (h : Turn k s tmp len) : tmp ≠ 0#32 := by
  rintro rfl
  exact absurd h.base (by decide)

theorem state_virtualQueryEx (w : Windows) (s : Space) (addr : DWORD)
    (mbi : MemoryBasicInformation) (h : addr.toNat < userEnd) :
    (w.virtualQueryEx s addr mbi).state = (s.page (addr.toNat / 4096)).state := by
  have hp : addr.toNat / 4096 < userPages := by
    unfold userEnd userPages at *
    omega
  rw [Windows.virtualQueryEx, if_pos hp]

/-- The length of a turn: all that is left, or at least the rest of the region, and less than a
unit more. -/
theorem toNat_chunk (hu : p.unit.toNat = 2 ^ k) (hk : k = 12 ∨ k = 16) {endAddr tmp : DWORD}
    (mbi : MemoryBasicInformation) (ht : tmp.toNat % 2 ^ k = 0) (hlt : tmp.toNat < endAddr.toNat)
    (he : tmp.toNat < userEnd) {m : Nat}
    (hm : m = min (endAddr.toNat - tmp.toNat) (w.region s (tmp.toNat / 4096) * 4096)) :
    (p.chunk endAddr tmp (w.virtualQueryEx s tmp mbi)).toNat % 2 ^ k = 0 ∧
      m ≤ (p.chunk endAddr tmp (w.virtualQueryEx s tmp mbi)).toNat ∧
      (p.chunk endAddr tmp (w.virtualQueryEx s tmp mbi)).toNat < m + 2 ^ k := by
  have hp : tmp.toNat / 4096 < userPages := by
    unfold userEnd userPages at *
    omega
  have hr := w.region_le s _ hp
  have hbase : tmp &&& ~~~(0x1000#32 - 1#32) = tmp := by
    apply BitVec.eq_of_toNat_eq
    rw [toNat_and_not_sub_one tmp (0x1000#32) (k := 12) rfl]
    rcases hk with rfl | rfl <;> omega
  unfold userEnd userPages at *
  have hregion : (BitVec.ofNat 32 (w.region s (tmp.toNat / 4096) * 4096)).toNat =
      w.region s (tmp.toNat / 4096) * 4096 := by
    rw [BitVec.toNat_ofNat, Nat.mod_eq_of_lt (by omega)]
  have hleft : (endAddr - tmp).toNat = endAddr.toNat - tmp.toNat :=
    BitVec.toNat_sub_of_le (by rw [BitVec.le_def]; omega)
  have hunit : (p.unit - 1#32).toNat = 2 ^ k - 1 := by
    rw [BitVec.toNat_sub_of_le (by
      rw [BitVec.le_def, hu]
      rcases hk with rfl | rfl <;> decide), hu]
    rfl
  unfold Pass.chunk Windows.virtualQueryEx
  rw [if_pos (show tmp.toNat / 4096 < userPages from hp)]
  simp only [hbase, BitVec.sub_self, BitVec.sub_zero]
  have hif : (if BitVec.ofNat 32 (w.region s (tmp.toNat / 4096) * 4096) < endAddr - tmp then
      BitVec.ofNat 32 (w.region s (tmp.toNat / 4096) * 4096) else endAddr - tmp).toNat = m := by
    split
    · next h =>
      rw [BitVec.lt_def, hregion, hleft] at h
      rw [hregion]
      omega
    · next h =>
      rw [BitVec.lt_def, hregion, hleft] at h
      rw [hleft]
      omega
  have hsum : (m + (2 ^ k - 1)) % 2 ^ 32 = m + (2 ^ k - 1) := by
    apply Nat.mod_eq_of_lt
    rcases hk with rfl | rfl <;> omega
  rw [toNat_and_not_sub_one _ _ hu, BitVec.toNat_add, hif, hunit, hsum]
  rcases hk with rfl | rfl <;> omega

/-- Every turn inside the user address space is one. -/
theorem turn_chunk (hu : p.unit.toNat = 2 ^ k) (hk : k = 12 ∨ k = 16) {endAddr tmp : DWORD}
    (mbi : MemoryBasicInformation) (hb : 65536 ≤ tmp.toNat) (ht : tmp.toNat % 2 ^ k = 0)
    (hlt : tmp.toNat < endAddr.toNat) (he : tmp.toNat < userEnd) :
    Turn k s tmp (p.chunk endAddr tmp (w.virtualQueryEx s tmp mbi)) := by
  have hspec := toNat_chunk (w := w) (s := s) hu hk mbi ht hlt he rfl
  have hpos := w.region_pos s (tmp.toNat / 4096)
  have hr := w.region_le s (tmp.toNat / 4096) (by
    unfold userEnd userPages at *
    omega)
  generalize p.chunk endAddr tmp (w.virtualQueryEx s tmp mbi) = len at hspec
  obtain ⟨hmod, hle, hsmall⟩ := hspec
  refine ⟨hb, ht, hmod, by omega, ?_, ?_⟩
  · unfold userEnd userPages at *
    rcases hk with rfl | rfl <;> omega
  · intro n hn hlast hfirst
    have hin : n - tmp.toNat / 4096 < w.region s (tmp.toNat / 4096) := by
      rcases hk with rfl | rfl <;> omega
    have hstate := w.region_state hin
    rwa [show tmp.toNat / 4096 + (n - tmp.toNat / 4096) = n by
      rcases hk with rfl | rfl <;> omega] at hstate

/-- What a pass establishes of each page of its range, from what each turn does. -/
structure Establishes (p : Pass) (k : Nat) (Q : Space → Space → Nat → Prop) : Prop where
  unit_eq : p.unit.toNat = 2 ^ k
  granularity : k = 12 ∨ k = 16
  mono : ∀ s s₁ s' n, Q s s₁ n → s₁.Grows s' → Q s s' n
  later : ∀ s s₁ s' t n, t % 2 ^ k = 0 → t ≤ n * 4096 →
    (∀ m, t ≤ m * 4096 → s₁.page m = s.page m) → Q s₁ s' n → Q s s' n
  grows : ∀ (s : Space) tmp len, s.Grows (p.alloc s tmp len).2
  frame : ∀ s tmp len, Turn k s tmp len → ∀ m, tmp.toNat + len.toNat ≤ m * 4096 →
    (p.alloc s tmp len).2.page m = s.page m
  taken : ∀ s tmp len, Turn k s tmp len → (s.page (tmp.toNat / 4096)).state = p.state →
    (p.alloc s tmp len).1 = tmp → ∀ n, tmp.toNat ≤ n * 4096 →
    n * 4096 < tmp.toNat + len.toNat → Q s (p.alloc s tmp len).2 n
  skipped : ∀ s tmp len, Turn k s tmp len → (s.page (tmp.toNat / 4096)).state ≠ p.state →
    ∀ n, tmp.toNat ≤ n * 4096 → n * 4096 < tmp.toNat + len.toNat → Q s s n

/-- What every call of a pass does to the space, the pass does, wherever it goes. -/
theorem leaves_run {R : Space → Space → Prop} (hrefl : ∀ s, R s s)
    (htrans : ∀ {s s' s''}, R s s' → R s' s'' → R s s'')
    (hp : ∀ (s : Space) tmp len, R s (p.alloc s tmp len).2) (endAddr : DWORD) (fuel : Nat)
    (mbi : MemoryBasicInformation) (tmp : DWORD) (s : Space) :
    (p.run w endAddr fuel mbi tmp s).Leaves (R s) := by
  induction fuel generalizing tmp mbi s with
  | zero => trivial
  | succ fuel ih =>
    have hrest : ∀ mbi tmp s₁, R s s₁ → (p.run w endAddr fuel mbi tmp s₁).Leaves (R s) := by
      intro mbi tmp s₁ hstep
      have hrun := ih mbi tmp s₁
      revert hrun
      cases p.run w endAddr fuel mbi tmp s₁ with
      | hung => exact id
      | refused s' => exact htrans hstep
      | finished mbi' s' => exact htrans hstep
    rw [Pass.run]
    split
    · simp only
      split
      · split
        · exact hrest _ _ _ (hp s tmp _)
        · exact hp s tmp _
      · exact hrest _ _ s (hrefl s)
    · exact hrefl s

/-- A pass gives nothing up. -/
theorem grows_run (hp : ∀ (s : Space) tmp len, s.Grows (p.alloc s tmp len).2) (endAddr : DWORD)
    (fuel : Nat) (mbi : MemoryBasicInformation) (tmp : DWORD) (s : Space) :
    (p.run w endAddr fuel mbi tmp s).Leaves s.Grows :=
  leaves_run Space.Grows.refl Space.Grows.trans hp endAddr fuel mbi tmp s

/-- A pass inside the user address space ends, and then has established its property for the
range. -/
theorem ends_run {Q : Space → Space → Nat → Prop} (hQ : Establishes p k Q) {endAddr : DWORD}
    (he : endAddr.toNat ≤ userEnd) (fuel : Nat) (mbi : MemoryBasicInformation)
    (tmp : DWORD) (s : Space) (hb : 65536 ≤ tmp.toNat) (ht : tmp.toNat % 2 ^ k = 0)
    (hfuel : endAddr.toNat - tmp.toNat + 4096 ≤ fuel * 4096) :
    (p.run w endAddr fuel mbi tmp s).Ends fun s' ↦
      ∀ n, tmp.toNat ≤ n * 4096 → n * 4096 < endAddr.toNat → Q s s' n := by
  induction fuel generalizing tmp mbi s with
  | zero => omega
  | succ fuel ih =>
    rw [Pass.run]
    split
    · next hlt =>
      rw [BitVec.lt_def] at hlt
      have hturn := turn_chunk (w := w) (s := s) hQ.unit_eq hQ.granularity mbi hb ht hlt (by omega)
      have hstate := state_virtualQueryEx w s tmp mbi (by omega)
      generalize w.virtualQueryEx s tmp mbi = mbi' at hturn hstate
      simp only [hstate]
      generalize p.chunk endAddr tmp mbi' = len at hturn
      have hnext : (tmp + len).toNat = tmp.toNat + len.toNat := by
        have hle := hturn.le
        unfold userEnd userPages at hle
        rw [BitVec.toNat_add, Nat.mod_eq_of_lt (by omega)]
      have hpos := hturn.len_pos
      have haligned : (tmp + len).toNat % 2 ^ k = 0 := by
        rw [hnext, Nat.add_mod, ht, hturn.len_aligned]
        simp
      have hlen : 4096 ≤ len.toNat := by
        have := hturn.len_aligned
        rcases hQ.granularity with rfl | rfl <;> omega
      -- the rest of the pass starts in `s₁`, which differs from `s` in this turn's pages at most
      have hrest : ∀ s₁,
          (∀ m, tmp.toNat + len.toNat ≤ m * 4096 → s₁.page m = s.page m) →
          (∀ n, tmp.toNat ≤ n * 4096 → n * 4096 < tmp.toNat + len.toNat → Q s s₁ n) →
          (p.run w endAddr fuel mbi' (tmp + len) s₁).Ends fun s' ↦
            ∀ n, tmp.toNat ≤ n * 4096 → n * 4096 < endAddr.toNat → Q s s' n := by
        intro s₁ hframe hnow
        have hrun := ih mbi' (tmp + len) s₁ (by omega) haligned (by omega)
        have hgrows := grows_run (w := w) hQ.grows endAddr fuel mbi' (tmp + len) s₁
        revert hrun hgrows
        cases p.run w endAddr fuel mbi' (tmp + len) s₁ with
        | hung => exact fun h _ ↦ h
        | refused s' => exact fun _ _ ↦ trivial
        | finished mbi'' s' =>
          intro hlater hgrows n hn hlast
          by_cases hin : n * 4096 < tmp.toNat + len.toNat
          · exact hQ.mono s s₁ s' n (hnow n hn hin) hgrows
          · exact hQ.later s s₁ s' _ n haligned (by omega) (fun m hm ↦ hframe m (by omega))
              (hlater n (by omega) hlast)
      split
      · next hact =>
        split
        · next hok =>
          exact hrest _ (hQ.frame s tmp len hturn) (hQ.taken s tmp len hturn hact hok)
        · trivial
      · next hskip =>
        exact hrest s (fun _ _ ↦ rfl) (hQ.skipped s tmp len hturn hskip)
    · next hle =>
      rw [BitVec.lt_def] at hle
      intro n hn hlast
      omega

/-! ## The two passes -/

/-- A granule that a page lies in starts at or above any boundary below the page. -/
theorem le_granule {t n : Nat} (ht : t % 2 ^ 16 = 0) (hn : t ≤ n * 4096) :
    t ≤ n / 16 * 16 * 4096 := by
  have hq : t / 65536 ≤ n / 16 := by omega
  clear hn
  generalize n / 16 = m at hq
  omega

theorem granule_aligned (n : Nat) : n / 16 * 16 * 4096 % 2 ^ 16 = 0 := by
  rw [Nat.mul_assoc]
  exact Nat.mul_mod_left _ _

theorem pageEnd_turn {tmp len : DWORD} (hk : k = 12 ∨ k = 16) (h : Turn k s tmp len) :
    pageEnd tmp.toNat len.toNat * 4096 = tmp.toNat + len.toNat ∧
      tmp.toNat / 4096 * 4096 = tmp.toNat := by
  have ht := h.aligned
  have hl := h.len_aligned
  unfold pageEnd
  rcases hk with rfl | rfl <;> omega

/-- A reservation at an address takes the pages or leaves the space alone. -/
theorem reserve_cases {tmp len : DWORD} (h : Turn 16 s tmp len) :
    w.reserve s tmp len = (0#32, s) ∨
      w.reserve s tmp len = (tmp, s.update (tmp.toNat / 4096) (pageEnd tmp.toNat len.toNat)
        (Page.reserve (tmp.toNat / 4096))) := by
  have hne := h.ne_zero
  have ha : tmp.toNat / 65536 * 65536 = tmp.toNat := by
    have := h.aligned
    omega
  simp only [Windows.reserve, if_neg hne, ha]
  split
  · right
    rw [BitVec.ofNat_toNat, BitVec.setWidth_eq]
  · exact .inl rfl

/-- So does a commitment. -/
theorem commit_cases {tmp len : DWORD} (h : Turn 12 s tmp len) :
    w.commit s tmp len = (0#32, s) ∨
      w.commit s tmp len = (tmp, s.update (tmp.toNat / 4096) (pageEnd tmp.toNat len.toNat)
        Page.commit) := by
  have ha : tmp.toNat / 4096 * 4096 = tmp.toNat := (pageEnd_turn (.inl rfl) h).2
  simp only [Windows.commit, ha]
  split
  · right
    rw [BitVec.ofNat_toNat, BitVec.setWidth_eq]
  · exact .inl rfl

/-- The pages of a turn can be taken. -/
theorem page_update_turn (hk : k = 12 ∨ k = 16) {tmp len : DWORD} (h : Turn k s tmp len)
    (f : Page → Page) {n : Nat} (hn : tmp.toNat ≤ n * 4096)
    (hlast : n * 4096 < tmp.toNat + len.toNat) :
    (s.update (tmp.toNat / 4096) (pageEnd tmp.toNat len.toNat) f).page n = f (s.page n) := by
  have hend := pageEnd_turn hk h
  have hb := h.base
  have hle := h.le
  apply Space.page_update_of_mem
  · omega
  · unfold granulePages
    unfold userEnd at hle
    omega

theorem page_update_after_turn (hk : k = 12 ∨ k = 16) {tmp len : DWORD} (h : Turn k s tmp len)
    (f : Page → Page) {m : Nat} (hm : tmp.toNat + len.toNat ≤ m * 4096) :
    (s.update (tmp.toNat / 4096) (pageEnd tmp.toNat len.toNat) f).page m = s.page m := by
  have hend := pageEnd_turn hk h
  apply Space.page_update_of_not_mem
  omega

/-- After the first pass a page is free only if its granule starts with a page that was taken. -/
theorem establishes_reservePass (w : Windows) : Establishes (reservePass w) 16
    fun s s' n ↦ s'.page n = .free → s.page (n / 16 * 16) ≠ .free where
  unit_eq := rfl
  granularity := .inr rfl
  mono s s₁ s' n hQ hgrows hfree := by
    apply hQ
    by_contra htaken
    exact hgrows.taken n htaken hfree
  later s s₁ s' t n ht hn hframe hQ hfree := by
    rw [← hframe (n / 16 * 16) (le_granule ht hn)]
    exact hQ hfree
  grows := w.grows_reserve
  frame s tmp len h m hm := by
    show (w.reserve s tmp len).2.page m = s.page m
    rcases reserve_cases (w := w) h with heq | heq
    · rw [heq]
    · rw [heq]
      exact page_update_after_turn (.inr rfl) h _ hm
  taken s tmp len h hact hok n hn hlast hfree := by
    have hok' : (w.reserve s tmp len).1 = tmp := hok
    have hfree' : (w.reserve s tmp len).2.page n = .free := hfree
    rcases reserve_cases (w := w) h with heq | heq
    · rw [heq] at hok'
      exact absurd hok' (Ne.symm h.ne_zero)
    · rw [heq, page_update_turn (.inr rfl) h _ hn hlast] at hfree'
      cases hp : s.page n <;> simp [hp, Page.reserve] at hfree'
  skipped s tmp len h hact n hn hlast _ hfirst := by
    have ht := h.aligned
    have hl := h.len_aligned
    apply hact
    rw [← h.same (n / 16 * 16) (le_granule ht hn)
      (Nat.lt_of_le_of_lt (Nat.mul_le_mul_right _ (Nat.div_mul_le_self n 16)) hlast)
      (granule_aligned n), hfirst]
    rfl

/-- After the second pass every page is committed that was not free. -/
theorem establishes_commitPass (w : Windows) : Establishes (commitPass w) 12
    fun s s' n ↦ (s'.page n).state = .commit ∨ s.page n = .free where
  unit_eq := rfl
  granularity := .inl rfl
  mono s s₁ s' n hQ hgrows := hQ.imp_left (hgrows.committed n)
  later s s₁ s' t n _ hn hframe hQ := hQ.imp_right fun h ↦ by rwa [← hframe n hn]
  grows := w.grows_commit
  frame s tmp len h m hm := by
    show (w.commit s tmp len).2.page m = s.page m
    rcases commit_cases (w := w) h with heq | heq
    · rw [heq]
    · rw [heq]
      exact page_update_after_turn (.inl rfl) h _ hm
  taken s tmp len h hact hok n hn hlast := by
    have hok' : (w.commit s tmp len).1 = tmp := hok
    left
    show ((w.commit s tmp len).2.page n).state = .commit
    rcases commit_cases (w := w) h with heq | heq
    · rw [heq] at hok'
      exact absurd hok' (Ne.symm h.ne_zero)
    · have hstate : (s.page n).state = .reserve := by
        rw [h.same n hn hlast (by omega)]
        exact hact
      rw [heq, page_update_turn (.inl rfl) h _ hn hlast]
      cases hp : s.page n <;> simp_all [Page.state, Page.commit]
  skipped s tmp len h hact n hn hlast := by
    have hact' : (s.page (tmp.toNat / 4096)).state ≠ .reserve := hact
    rw [← h.same n hn hlast (by omega)] at hact'
    cases hp : s.page n <;> simp_all [Page.state]

/-! ## The whole call -/

theorem le_scanFuel {e : Nat} (h : e ≤ userEnd) (t : Nat) : e - t + 4096 ≤ scanFuel * 4096 := by
  unfold userEnd userPages at h
  unfold scanFuel
  omega

/-- The two passes give nothing up. -/
theorem grows_backRange {mbi : MemoryBasicInformation} {addr endAddr p : DWORD} {s' : Space}
    (h : backRange w mbi s addr endAddr = some (p, s')) : s.Grows s' := by
  unfold backRange at h
  have hreserve := grows_run (w := w) w.grows_reserve endAddr scanFuel mbi
    (addr &&& ~~~(0x10000#32 - 1#32)) s (p := reservePass w)
  revert h hreserve
  cases (reservePass w).run w endAddr scanFuel mbi (addr &&& ~~~(0x10000#32 - 1#32)) s with
  | hung => exact fun h ↦ nomatch h
  | refused s₁ =>
    intro h hgrows
    cases h
    exact hgrows
  | finished mbi₁ s₁ =>
    have hcommit := grows_run (w := w) w.grows_commit endAddr scanFuel mbi₁
      (addr &&& ~~~(0x1000#32 - 1#32)) s₁ (p := commitPass w)
    simp only
    revert hcommit
    cases (commitPass w).run w endAddr scanFuel mbi₁ (addr &&& ~~~(0x1000#32 - 1#32)) s₁ with
    | hung => exact fun _ h ↦ nomatch h
    | refused s₂ =>
      intro hgrows' h hgrows
      cases h
      exact hgrows.trans hgrows'
    | finished mbi₂ s₂ =>
      intro hgrows' h hgrows
      cases h
      exact hgrows.trans hgrows'

/-- The address of the two passes is the one they were given, or -1. -/
theorem backRange_addr {mbi : MemoryBasicInformation} {addr endAddr p : DWORD} {s' : Space}
    (h : backRange w mbi s addr endAddr = some (p, s')) : p = -1#32 ∨ p = addr := by
  unfold backRange at h
  revert h
  cases (reservePass w).run w endAddr scanFuel mbi (addr &&& ~~~(0x10000#32 - 1#32)) s with
  | hung => exact fun h ↦ nomatch h
  | refused s₁ =>
    intro h
    cases h
    exact .inl rfl
  | finished mbi₁ s₁ =>
    simp only
    cases (commitPass w).run w endAddr scanFuel mbi₁ (addr &&& ~~~(0x1000#32 - 1#32)) s₁ with
    | hung => exact fun h ↦ nomatch h
    | refused s₂ =>
      intro h
      cases h
      exact .inl rfl
    | finished mbi₂ s₂ =>
      intro h
      cases h
      exact .inr rfl

/-- Over a range in the user address space the two passes return, and with the address returned
every page is committed, except for free pages in a granule whose first page was taken. -/
theorem backRange_spec (w : Windows) (mbi : MemoryBasicInformation) (s : Space)
    (addr endAddr : DWORD) (hb : 65536 ≤ addr.toNat) (he : endAddr.toNat ≤ userEnd) :
    ∃ p s', backRange w mbi s addr endAddr = some (p, s') ∧
      (p ≠ -1#32 → ∀ a, addr.toNat ≤ a → a < endAddr.toNat →
        s'.Committed a ∨ s.page (a / 4096) = .free ∧ s.page (a / 4096 / 16 * 16) ≠ .free) := by
  have h64 := toNat_and_not_sub_one addr (0x10000#32) (k := 16) rfl
  have h4 := toNat_and_not_sub_one addr (0x1000#32) (k := 12) rfl
  unfold backRange
  generalize addr &&& ~~~(0x10000#32 - 1#32) = tmp64k at h64
  generalize addr &&& ~~~(0x1000#32 - 1#32) = tmp4k at h4
  have hreserve := ends_run (establishes_reservePass w) (w := w) he scanFuel mbi tmp64k s
    (by omega) (by omega) (le_scanFuel he _)
  have hgrows := grows_run (w := w) w.grows_reserve endAddr scanFuel mbi tmp64k s
    (p := reservePass w)
  revert hreserve hgrows
  cases (reservePass w).run w endAddr scanFuel mbi tmp64k s with
  | hung => exact False.elim
  | refused s₁ => exact fun _ _ ↦ ⟨_, s₁, rfl, fun h ↦ absurd rfl h⟩
  | finished mbi₁ s₁ =>
    intro hfree hgrows
    have hcommit := ends_run (establishes_commitPass w) (w := w) he scanFuel mbi₁ tmp4k s₁
      (by omega) (by omega) (le_scanFuel he _)
    simp only
    revert hcommit
    cases (commitPass w).run w endAddr scanFuel mbi₁ tmp4k s₁ with
    | hung => exact False.elim
    | refused s₂ => exact fun _ ↦ ⟨_, s₂, rfl, fun h ↦ absurd rfl h⟩
    | finished mbi₂ s₂ =>
      intro hcommitted
      refine ⟨addr, s₂, rfl, fun _ a ha hlast ↦ ?_⟩
      rcases hcommitted (a / 4096) (by omega) (by omega) with hc | hc
      · exact .inl hc
      · right
        constructor
        · by_contra htaken
          exact hgrows.taken _ htaken hc
        · exact hfree _ (by omega) (by omega) hc

/-- An allocation gives nothing up. -/
theorem grows_allocate {mbi : MemoryBasicInformation} {addr size p : DWORD} {s' : Space}
    (h : allocateMemAndProtectProcess w mbi s addr size = some (p, s')) : s.Grows s' := by
  unfold allocateMemAndProtectProcess at h
  split at h
  · exact (w.grows_reserve s _ _).trans (grows_backRange h)
  · exact grows_backRange h

/-- An allocation at an address is there. -/
theorem allocate_addr {mbi : MemoryBasicInformation} {addr size p : DWORD} {s' : Space}
    (h : allocateMemAndProtectProcess w mbi s addr size = some (p, s')) (hne : addr ≠ 0#32) :
    p = -1#32 ∨ p = addr := by
  unfold allocateMemAndProtectProcess at h
  rw [if_neg hne] at h
  exact backRange_addr h

/-- An allocation that Windows has no place for stays without an address. -/
theorem allocate_unplaced {mbi : MemoryBasicInformation} {size p : DWORD} {s' : Space}
    (h : allocateMemAndProtectProcess w mbi s 0#32 size = some (p, s'))
    (hplace : w.place s size.toNat = 0) : p = -1#32 ∨ p = 0#32 := by
  have hreserve : w.reserve s 0#32 size = (0#32, s) := by
    simp [Windows.reserve, hplace]
  unfold allocateMemAndProtectProcess at h
  rw [if_pos rfl, hreserve] at h
  exact backRange_addr h

/-- The turn with which the first pass begins at address 0 asks for a reservation of this
size. -/
def firstLength (w : Windows) (mbi : MemoryBasicInformation) (s : Space) (endAddr : DWORD) :
    DWORD :=
  (reservePass w).chunk endAddr 0#32 (w.virtualQueryEx s 0#32 mbi)

/-- The ranges that the allocator can back, or refuses. From 64k on they lie in the user address
space, and no granule starts with a taken page and goes on with a free one that is asked for.
Below, either there is room at an address that Windows chooses, or Windows chooses another
address for the first reservation of the first pass, which gives up then. -/
def Backable (w : Windows) (mbi : MemoryBasicInformation) (s : Space) (addr size : DWORD) : Prop :=
  if addr.toNat < 65536 then
    addr = 0#32 ∧ (size = 0#32 ∨ w.place s size.toNat ≠ 0) ∨
      addr + size ≠ 0#32 ∧ w.place s (firstLength w mbi s (addr + size)).toNat ≠ 0
  else addr.toNat + size.toNat ≤ userEnd ∧
    ∀ a, addr.toNat ≤ a → a < addr.toNat + size.toNat → s.page (a / 4096) = .free →
      s.page (a / 4096 / 16 * 16) = .free

theorem toNat_place (w : Windows) (s : Space) (size : Nat) :
    (BitVec.ofNat 32 (w.place s size)).toNat = w.place s size := by
  rw [BitVec.toNat_ofNat]
  apply Nat.mod_eq_of_lt
  by_cases hp : w.place s size = 0
  · omega
  · have hle := (w.place_le s size hp).2
    unfold userPages at hle
    omega

/-- Where Windows chooses an address for the first reservation, the first pass gives up. -/
theorem backRange_of_lt (mbi : MemoryBasicInformation) {addr endAddr : DWORD}
    (hlow : addr.toNat < 65536) (he : endAddr ≠ 0#32)
    (hp : w.place s (firstLength w mbi s endAddr).toNat ≠ 0) :
    ∃ s', backRange w mbi s addr endAddr = some (-1#32, s') := by
  have htmp : addr &&& ~~~(0x10000#32 - 1#32) = 0#32 := by
    apply BitVec.eq_of_toNat_eq
    rw [toNat_and_not_sub_one addr (0x10000#32) (k := 16) rfl]
    show addr.toNat - addr.toNat % 2 ^ 16 = 0
    omega
  have hlt : 0#32 < endAddr := by
    rw [BitVec.lt_def]
    exact Nat.pos_of_ne_zero fun h ↦ he (BitVec.eq_of_toNat_eq h)
  have hfree : (w.virtualQueryEx s 0#32 mbi).state = (reservePass w).state := by
    rw [state_virtualQueryEx w s 0#32 mbi (show (0#32).toNat < userEnd by decide)]
    exact congrArg Page.state (s.outside 0 (.inl (by decide)))
  have hmoved : ((reservePass w).alloc s 0#32 (firstLength w mbi s endAddr)).1 ≠ 0#32 := by
    intro h
    apply hp
    rw [← toNat_place, show BitVec.ofNat 32 _ = 0#32 from h]
    rfl
  have hrun : (reservePass w).run w endAddr scanFuel mbi 0#32 s =
      .refused ((reservePass w).alloc s 0#32 (firstLength w mbi s endAddr)).2 := by
    show (reservePass w).run w endAddr (2 ^ 20 - 1 + 1) mbi 0#32 s = _
    rw [Pass.run, if_pos hlt]
    simp only [hfree, if_true]
    exact if_neg hmoved
  rw [backRange, htmp, hrun]
  exact ⟨_, rfl⟩

/-- An allocation where Windows chose. -/
theorem allocate_placed (mbi : MemoryBasicInformation) {size : DWORD}
    (hp : w.place s size.toNat ≠ 0) :
    ∃ p s', allocateMemAndProtectProcess w mbi s 0#32 size = some (p, s') ∧
      (p ≠ -1#32 → ∀ a, p.toNat ≤ a → a < p.toNat + size.toNat →
        s'.Committed a ∧ ¬s.Committed a) := by
  have haligned := w.place_aligned s size.toNat
  have hfree := w.place_free s size.toNat hp
  obtain ⟨hsize, hle⟩ := w.place_le s size.toNat hp
  have hstart := toNat_place w s size.toNat
  have hend : (BitVec.ofNat 32 (w.place s size.toNat) + size).toNat =
      w.place s size.toNat + size.toNat := by
    unfold userPages at hle
    rw [BitVec.toNat_add, hstart, Nat.mod_eq_of_lt (by omega)]
  have hreserve : w.reserve s 0#32 size = (BitVec.ofNat 32 (w.place s size.toNat),
      s.update (w.place s size.toNat / 4096) (pageEnd (w.place s size.toNat) size.toNat)
        (Page.reserve (w.place s size.toNat / 4096))) := by
    simp only [Windows.reserve, if_true, if_neg hp]
  unfold allocateMemAndProtectProcess
  rw [if_pos rfl, hreserve]
  simp only
  generalize hs₁ : s.update _ _ _ = s₁
  generalize hq : w.place s size.toNat = q at hp haligned hfree hle hstart hend hs₁
  obtain ⟨p, s', hcall, hspec⟩ := backRange_spec w mbi s₁ (BitVec.ofNat 32 q)
    (BitVec.ofNat 32 q + size) (by omega) (by rw [hend]; exact hle)
  refine ⟨p, s', hcall, fun hok a ha hlast ↦ ?_⟩
  have hpq : p.toNat = q := by
    rcases backRange_addr hcall with h | h
    · exact absurd h hok
    · rw [h, hstart]
  rw [hpq] at ha hlast
  have hpage : s.page (a / 4096) = .free := by
    have := hfree (a / 4096 - q / 4096) (by unfold pageEnd; omega)
    rwa [show q / 4096 + (a / 4096 - q / 4096) = a / 4096 by omega] at this
  constructor
  · rcases hspec hok a (by omega) (by omega) with h | h
    · exact h
    · have hreserved : s₁.page (a / 4096) = .reserved (q / 4096) := by
        rw [← hs₁, Space.page_update_of_mem, hpage]
        · rfl
        · unfold pageEnd
          omega
        · unfold userPages at hle ⊢
          unfold granulePages
          omega
      rw [hreserved] at h
      exact absurd h.1 (by simp)
  · intro hc
    rw [Space.Committed, hpage] at hc
    exact absurd hc (by simp)

/-- Without an address from Windows the loops start at the one asked for. -/
theorem start_of_unplaced {addr size : DWORD} (h : addr = 0#32 → w.place s size.toNat = 0) :
    (if addr = 0#32 then w.reserve s 0#32 size else (addr, s)) = (addr, s) := by
  split
  · next hz => simp only [Windows.reserve, if_true, h hz, hz]
  · rfl

theorem allocate_eq_backRange (mbi : MemoryBasicInformation) {addr size : DWORD}
    (h : addr = 0#32 → w.place s size.toNat = 0) :
    allocateMemAndProtectProcess w mbi s addr size = backRange w mbi s addr (addr + size) := by
  rw [allocateMemAndProtectProcess, start_of_unplaced h]

/-- The allocation of a range that can be backed returns, with -1 or with a range that is
committed, and that is at the address asked for or was not committed before. -/
theorem allocate_spec {mbi : MemoryBasicInformation} {addr size : DWORD}
    (h : Backable w mbi s addr size) :
    ∃ p s', allocateMemAndProtectProcess w mbi s addr size = some (p, s') ∧
      (p ≠ -1#32 → (∀ a, p.toNat ≤ a → a < p.toNat + size.toNat → s'.Committed a) ∧
        (p = addr ∨ ∀ a, p.toNat ≤ a → a < p.toNat + size.toNat → ¬s.Committed a)) := by
  unfold Backable at h
  split at h
  · next hlow =>
    by_cases hplaced : addr = 0#32 ∧ w.place s size.toNat ≠ 0
    · obtain ⟨rfl, hp⟩ := hplaced
      obtain ⟨p, s', hcall, hspec⟩ := allocate_placed mbi hp
      exact ⟨p, s', hcall, fun hok ↦ ⟨fun a ha hlast ↦ (hspec hok a ha hlast).1,
        .inr fun a ha hlast ↦ (hspec hok a ha hlast).2⟩⟩
    · rw [allocate_eq_backRange mbi fun hz ↦ by_contra fun hp ↦ hplaced ⟨hz, hp⟩]
      by_cases hz : addr = 0#32 ∧ size = 0#32
      · obtain ⟨rfl, rfl⟩ := hz
        refine ⟨0#32, s, rfl, fun _ ↦ ⟨fun a ha hlast ↦ ?_, .inl rfl⟩⟩
        exact absurd hlast (by simp)
      · have hmoves : addr + size ≠ 0#32 ∧
            w.place s (firstLength w mbi s (addr + size)).toNat ≠ 0 := by
          rcases h with ⟨ha, hs | hp⟩ | h
          · exact absurd ⟨ha, hs⟩ hz
          · exact absurd ⟨ha, hp⟩ hplaced
          · exact h
        obtain ⟨s', hcall⟩ := backRange_of_lt mbi hlow hmoves.1 hmoves.2
        exact ⟨_, s', hcall, fun hok ↦ absurd rfl hok⟩
  · next hhigh =>
    obtain ⟨hle, hgranule⟩ := h
    have hne : addr ≠ 0#32 := by
      rintro rfl
      exact hhigh (by decide)
    have hend : (addr + size).toNat = addr.toNat + size.toNat := by
      unfold userEnd userPages at hle
      rw [BitVec.toNat_add, Nat.mod_eq_of_lt (by omega)]
    rw [allocate_eq_backRange mbi fun hz ↦ absurd hz hne]
    obtain ⟨p, s', hcall, hspec⟩ := backRange_spec w mbi s addr
      (addr + size) (by omega) (by rw [hend]; exact hle)
    refine ⟨p, s', hcall, fun hok ↦ ?_⟩
    have hp : p = addr := (backRange_addr hcall).resolve_left hok
    subst hp
    refine ⟨fun a ha hlast ↦ ?_, .inl rfl⟩
    rcases hspec hok a ha (by rw [hend]; exact hlast) with h | h
    · exact h
    · exact absurd (hgranule a ha hlast h.1) h.2

end Keow.Memory
