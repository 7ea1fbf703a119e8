import Keow.Base.Int32
import Keow.Files.Select
import Mathlib.Order.Monotone.Basic

/-!
# How long `select` waits

The deadline of `SysCalls::sys__newselect` is the tick count at entry plus the milliseconds to
wait, in 32 bits, and waiting forever is a wait of 2^32 - 1 milliseconds, `sys_io.cpp:1159–1225`.
-/

namespace Keow.Files

open Keow.Base Keow.Kernel

namespace SelectCall

variable (c : SelectCall)

/-- Scan `n` finds a descriptor ready that was asked for. -/
def FindsAsked (n : Nat) : Prop :=
  ∃ k fd, fd < c.width ∧ c.asked k fd = true ∧ c.isReady n k fd = true

/-- A call without a timeout returns only after a descriptor asked for was ready; one with a
timeout returns 0 only when that time has passed since entry. -/
def HonoursTimeout : Prop :=
  match c.timeout with
  | none => ∀ turns last s, c.run turns = .returned last s → ∃ n ≤ last, c.FindsAsked n
  | some tv => 0 < tv.ms → tv.ms < 2 ^ 31 → ∀ turns last s, c.run turns = .returned last s →
      c.eax s = 0#32 → c.time 0 + tv.ms ≤ c.time (last + 1)

/-- Without a timeout: a scan that finds nothing is followed by a tick count below the one at
entry less 1, and one that finds something finds a descriptor asked for. With a timeout: the
first scan finds something or never ends, the deadline does not wrap, or the clock wraps before
it is read again. -/
def KeepsTime : Prop :=
  match c.timeout with
  | none => ∀ n, c.Reaches n → ¬c.Overruns n →
      (c.Finds n → c.FindsAsked n) ∧ (¬c.Finds n → c.tick (n + 1) < c.tick 0 - 1#32)
  | some tv => 0 < tv.ms → tv.ms < 2 ^ 31 →
      c.Overruns 0 ∨ c.Finds 0 ∨ (c.tick 0).toNat + tv.ms < 2 ^ 32 ∨
        2 ^ 32 ≤ (c.tick 0).toNat + (c.time 1 - c.time 0)

variable {c}

theorem time_le_of_le {i j : Nat} (h : i ≤ j) : c.time i ≤ c.time j :=
  monotone_nat_of_le_succ c.time_le h

theorem toNat_tick (i : Nat) : (c.tick i).toNat = c.time i % 2 ^ 32 := BitVec.toNat_ofNat _ _

/-! ## No timeout -/

theorem dwWait_of_none (h : c.timeout = none) : c.dwWait = INFINITE := by
  rw [dwWait, h]
  rfl

theorem dwEnd_of_none (h : c.timeout = none) : c.dwEnd = c.tick 0 - 1#32 := by
  rw [dwEnd, dwWait_of_none h, BitVec.sub_eq_add_neg]
  rfl

/-- A descriptor asked for that is found ready is found. -/
theorem finds_of_findsAsked {n : Nat} (h : c.FindsAsked n) : c.Finds n := by
  obtain ⟨k, fd, hfd, hasked, hready⟩ := h
  obtain ⟨given, hgiven, -⟩ := Option.any_eq_true _ _ |>.mp hasked
  exact ⟨k, fd, hfd, (hit_iff hgiven fd).mpr ⟨hasked, hready⟩⟩

theorem waits_iff (h : c.timeout = none) :
    (∀ turns last s, c.run turns = .returned last s → ∃ n ≤ last, c.FindsAsked n) ↔
    ∀ n, c.Reaches n → ¬c.Overruns n →
      (c.Finds n → c.FindsAsked n) ∧ (¬c.Finds n → c.tick (n + 1) < c.tick 0 - 1#32) := by
  have hwait : c.dwWait ≠ 0#32 := by
    rw [dwWait_of_none h]
    decide
  rw [← dwEnd_of_none h]
  constructor
  · intro hright n hreach hin
    -- a call that ends with scan `n` has found something there
    have hfound : c.EndsAt n → c.FindsAsked n := by
      intro hends
      obtain ⟨m, hle, hasked⟩ := hright _ n _ (run_of_endsAt hends)
      rcases Nat.lt_or_eq_of_le hle with hlt | rfl
      · exact absurd (finds_of_findsAsked hasked) (hreach m hlt).2.1
      · exact hasked
    constructor
    · exact fun hfinds ↦ hfound ⟨hreach, hin, .inl hfinds⟩
    · intro hnothing
      by_contra hlate
      exact hnothing (finds_of_findsAsked (hfound ⟨hreach, hin, .inr (.inr hlate)⟩))
  · intro hkeeps turns last s hrun
    obtain ⟨⟨hreach, hin, hends⟩, -⟩ := poll_returned reaches_zero hrun
    obtain ⟨hfound, hearly⟩ := hkeeps last hreach hin
    have hfinds : c.Finds last := by
      by_contra hnothing
      rcases hends with hfinds | hzero | hlate
      · exact hnothing hfinds
      · exact hwait hzero
      · exact hlate (hearly hnothing)
    exact ⟨last, Nat.le_refl _, hfound hfinds⟩

/-! ## A timeout -/

theorem toNat_dwWait {tv : Timeval} (h : c.timeout = some tv) (hpos : 0 < tv.ms)
    (hlt : tv.ms < 2 ^ 31) : ((c.dwWait).toNat : Int) = tv.ms := by
  rw [dwWait, h]
  show (((BitVec.ofInt 32 tv.ms).toNat : Nat) : Int) = tv.ms
  rw [BitVec.toNat_ofInt]
  omega

theorem expires_iff {tv : Timeval} (h : c.timeout = some tv) (hpos : 0 < tv.ms)
    (hlt : tv.ms < 2 ^ 31) :
    (∀ turns last s, c.run turns = .returned last s → c.eax s = 0#32 →
      c.time 0 + tv.ms ≤ c.time (last + 1)) ↔
    c.Overruns 0 ∨ c.Finds 0 ∨ (c.tick 0).toNat + tv.ms < 2 ^ 32 ∨
      2 ^ 32 ≤ (c.tick 0).toNat + (c.time 1 - c.time 0) := by
  have hms := toNat_dwWait h hpos hlt
  have hwait : c.dwWait ≠ 0#32 := by
    intro hzero
    rw [hzero] at hms
    exact absurd hms (by simp; omega)
  have hdeadline : c.dwEnd.toNat = ((c.tick 0).toNat + c.dwWait.toNat) % 2 ^ 32 :=
    BitVec.toNat_add _ _
  have hentry := toNat_tick (c := c) 0
  have hfirst := time_le_of_le (c := c) (Nat.zero_le 1)
  have hearly : ∀ n, c.tick (n + 1) < c.dwEnd ↔ c.time (n + 1) % 2 ^ 32 < c.dwEnd.toNat := by
    intro n
    rw [BitVec.lt_def, toNat_tick]
  constructor
  · intro hright
    by_contra hneither
    simp only [not_or] at hneither
    obtain ⟨hin, hnothing, hwraps, hstays⟩ := hneither
    have hlate : ¬c.tick 1 < c.dwEnd := by
      rw [hearly 0, hdeadline, Nat.zero_add]
      omega
    have htime : c.time 0 + tv.ms ≤ c.time 1 :=
      hright _ 0 _ (run_of_endsAt ⟨reaches_zero, hin, .inr (.inr hlate)⟩)
        ((eax_after_eq_zero_iff 0).mpr hnothing)
    omega
  · intro hkeeps turns last s hrun hzero
    obtain ⟨⟨hreach, hin, hends⟩, rfl⟩ := poll_returned reaches_zero hrun
    have hnothing := (eax_after_eq_zero_iff last).mp hzero
    have hlate : ¬c.tick (last + 1) < c.dwEnd := by
      rcases hends with hfinds | hwaits | hlate
      · exact absurd hfinds hnothing
      · exact absurd hwaits hwait
      · exact hlate
    rw [hearly, hdeadline] at hlate
    have hlater : c.time 1 ≤ c.time (last + 1) :=
      time_le_of_le (Nat.succ_le_succ (Nat.zero_le last))
    have hfirst' : ¬c.Overruns 0 ∧ ¬c.Finds 0 := by
      cases last with
      | zero => exact ⟨hin, hnothing⟩
      | succ last =>
        have hquiet := hreach 0 (Nat.succ_pos last)
        exact ⟨hquiet.1, hquiet.2.1⟩
    rcases hkeeps with hout | hfinds | hnowrap | hwrapped
    · exact absurd hout hfirst'.1
    · exact absurd hfinds hfirst'.2
    · omega
    · omega

/-- Whether a call waits long enough is a matter of where its readings of the tick count fall. -/
theorem honoursTimeout_iff (c : SelectCall) : c.HonoursTimeout ↔ c.KeepsTime := by
  unfold HonoursTimeout KeepsTime
  cases h : c.timeout with
  | none => exact waits_iff h
  | some tv =>
    exact forall_congr' fun hpos ↦ forall_congr' fun hlt ↦ expires_iff h hpos hlt

/-- `select(1, {0}, NULL, NULL, timeout)` of a process whose descriptor 0 is never ready, with a
tick count of `entry` at entry and 50 milliseconds from one reading to the next. -/
def neverReady (timeout : Option Timeval) (entry : Nat) : SelectCall where
  numFds := 1#32
  sets k := if k = .read then some (BitVec.twoPow FD_SETSIZE 0) else none
  timeout := timeout
  openFiles fd := if fd = 0 then some 0 else none
  ready _ _ _ := false
  requestLocal _ := noBits
  resultLocal _ := noBits
  behind _ _ _ := false
  time i := entry + 50 * i
  time_le i := by omega

theorem not_finds_neverReady (timeout : Option Timeval) (entry n : Nat) :
    ¬(neverReady timeout entry).Finds n := by
  rintro ⟨k, fd, -, hhit⟩
  have hready : (neverReady timeout entry).isReady n k fd = true :=
    (Bool.and_eq_true _ _ ▸ hhit).2
  obtain ⟨a, -, ha⟩ := Option.any_eq_true _ _ |>.mp hready
  exact absurd ha Bool.false_ne_true

theorem endsAt_neverReady {timeout : Option Timeval} {entry : Nat}
    (hlate : ¬(neverReady timeout entry).tick 1 < (neverReady timeout entry).dwEnd) :
    (neverReady timeout entry).EndsAt 0 := by
  refine ⟨reaches_zero, ?_, .inr (.inr hlate)⟩
  rintro ⟨k, fd, -, -, hbit⟩
  exact absurd hbit Bool.false_ne_true

/-- Without a timeout the call returns although nothing is ready, if the tick count was 5 at entry;
a timeout of 100 milliseconds is over after 50, if it was 2^32 - 60. -/
theorem not_honoursTimeout_neverReady :
    ¬(neverReady none 5).HonoursTimeout ∧
      ¬(neverReady (some ⟨0#32, 100000#32⟩) 4294967236).HonoursTimeout := by
  constructor
  · intro h
    obtain ⟨n, -, hasked⟩ := h _ 0 _ (run_of_endsAt (endsAt_neverReady (by decide)))
    exact not_finds_neverReady none 5 n (finds_of_findsAsked hasked)
  · intro h
    have htime := h (by decide) (by decide) _ 0 _ (run_of_endsAt (endsAt_neverReady (by decide)))
      ((eax_after_eq_zero_iff 0).mpr (not_finds_neverReady _ _ 0))
    exact absurd htime (by decide)

end SelectCall

end Keow.Files
