import Keow.Base.BitSet
import Keow.Files.Handler

/-!
# `select`

`SysCalls::sys__newselect`, `sys_io.cpp:1134–1226`, with the bit macros of
`linux_includes.h:35–67`. The call looks at the descriptors again and again until one is ready or
the time is up. The sets are local variables, and `KEOW_FD_ZERO` clears only their first 32 bytes.
-/

namespace Keow.Files

open Keow.Base Keow.Kernel

/-- `__FD_SETSIZE`. -/
def FD_SETSIZE : Nat := 1024

/-- `__FDSET_LONGS`. -/
def FDSET_LONGS : Nat := 32

/-- `linux::fd_set`. -/
abbrev FdSet := BitVec FD_SETSIZE

/-- `INFINITE`. -/
def INFINITE : DWORD := 0xFFFFFFFF#32

/-- `linux::timeval`, both members of type `long`. -/
structure Timeval where
  tv_sec : DWORD
  tv_usec : DWORD

/-- The milliseconds of a `timeval`. -/
def Timeval.ms (tv : Timeval) : Int := tv.tv_sec.toInt * 1000 + tv.tv_usec.toInt.tdiv 1000

/-- The three sets of a call. -/
inductive SetKind where
  | read
  | write
  | except
deriving DecidableEq

def SetKind.all : List SetKind := [.read, .write, .except]

/-- `KEOW_FD_SET`. -/
def KEOW_FD_SET (fd : Nat) (set : FdSet) : FdSet := insertBit set fd

/-- `KEOW_FD_ZERO`: `memset` gets the number of longs for a number of bytes. -/
def KEOW_FD_ZERO (set : FdSet) : FdSet := clearBelow set (8 * FDSET_LONGS)

/-- A call and what it meets: its arguments, `none` for a null pointer; the slots of the process
and what `CanRead`, `CanWrite` and `HasException` say of an object at the time of each scan; what
the local sets hold before they are cleared, and the bits that are read behind the end of a
requested set; and the milliseconds since the system was started, at entry and at each later
`GetTickCount`. -/
structure SelectCall where
  numFds : DWORD
  sets : SetKind → Option FdSet
  timeout : Option Timeval
  openFiles : Nat → Option Nat
  ready : SetKind → Nat → Nat → Bool
  requestLocal : SetKind → FdSet
  resultLocal : SetKind → FdSet
  behind : SetKind → Nat → Nat → Bool
  time : Nat → Nat
  time_le : ∀ i, time i ≤ time (i + 1)

/-- The locals that the scans change. -/
structure Scanned where
  results : SetKind → FdSet
  foundData : Bool

/-- What becomes of a call: it returns behind a scan, an index leaves `m_OpenFiles`, or it still
looks. -/
inductive Selected where
  | returned (scan : Nat) (s : Scanned)
  | fault
  | polling

namespace SelectCall

variable (c : SelectCall)

/-- How many descriptors a scan looks at. -/
def width : Nat := c.numFds.toInt.toNat

/-- `ReadRequest` and its siblings. -/
def request (k : SetKind) : FdSet := (c.sets k).getD (KEOW_FD_ZERO (c.requestLocal k))

/-- `KEOW_FD_ISSET` on a request. -/
def isSet (n : Nat) (k : SetKind) (fd : Nat) : Bool :=
  if fd < FD_SETSIZE then (c.request k).getLsbD fd else c.behind k n fd

/-- One of the three tests for a descriptor, in scan `n`. -/
def test (n fd : Nat) (k : SetKind) (s : Scanned) : Option Scanned :=
  if c.isSet n k fd then
    if fd < MAX_OPEN_FILES then
      if (c.openFiles fd).any (c.ready k n) then
        some
          { results := fun k' ↦ if k' = k then KEOW_FD_SET fd (s.results k) else s.results k'
            foundData := true }
      else some s
    else none
  else some s

/-- The body of the loop over descriptors. -/
def testFd (n : Nat) (s : Scanned) (fd : Nat) : Option Scanned := do
  let s ← c.test n fd .read s
  let s ← c.test n fd .write s
  c.test n fd .except s

/-- The loop over descriptors. -/
def scan (n : Nat) (s : Scanned) : Option Scanned := (List.range c.width).foldlM (c.testFd n) s

/-- `GetTickCount`, whose result wraps. -/
def tick (i : Nat) : DWORD := BitVec.ofNat 32 (c.time i)

/-- `dwWait`. -/
def dwWait : DWORD := c.timeout.elim INFINITE fun tv ↦ BitVec.ofInt 32 tv.ms

/-- `dwEnd`. -/
def dwEnd : DWORD := c.tick 0 + c.dwWait

/-- The loop, for so many scans, from scan `n` on. -/
def poll : Nat → Nat → Scanned → Selected
  | 0, _, _ => .polling
  | turns + 1, n, s =>
    match c.scan n s with
    | none => .fault
    | some s =>
      if s.foundData then .returned n s
      else if c.dwWait = 0#32 then .returned n s
      else if c.tick (n + 1) < c.dwEnd then poll turns (n + 1) s
      else .returned n s

/-- The locals in front of the loop. -/
def start : Scanned where
  results k := KEOW_FD_ZERO (c.resultLocal k)
  foundData := false

/-- `SysCalls::sys__newselect`, followed for so many scans. -/
def run (turns : Nat) : Selected := c.poll turns 0 c.start

/-- What is stored for a set. -/
def stored (s : Scanned) (k : SetKind) : Option FdSet := (c.sets k).map fun _ ↦ s.results k

/-- Eax. -/
def eax (s : Scanned) : DWORD := if s.foundData then c.numFds else 0#32

/-! ## What a call is about -/

/-- A descriptor was asked for in a set. -/
def asked (k : SetKind) (fd : Nat) : Bool := (c.sets k).any fun set ↦ set.getLsbD fd

/-- A descriptor is found ready in scan `n`. -/
def isReady (n : Nat) (k : SetKind) (fd : Nat) : Bool := (c.openFiles fd).any (c.ready k n)

/-- All numbers in the sets that are stored. -/
def totalBits (s : Scanned) : Nat :=
  (SetKind.all.map fun k ↦ (c.stored s k).elim 0 bitCount).sum

/-- No index leaves `m_OpenFiles`, what is stored are the descriptors asked for and found ready in
the last scan, and a result that is not zero is their number. -/
structure ReportsReady : Prop where
  indexed : ∀ turns, c.run turns ≠ .fault
  stored : ∀ turns n s, c.run turns = .returned n s → ∀ k set, c.stored s k = some set →
    ∀ fd < FD_SETSIZE, set.getLsbD fd = true ↔
      fd < c.width ∧ c.asked k fd = true ∧ c.isReady n k fd = true
  returned : ∀ turns n s, c.run turns = .returned n s → c.eax s ≠ 0#32 →
    (c.eax s).toInt = c.totalBits s

/-! ## When it is right -/

/-- A scan looks at an index that leaves `m_OpenFiles`. -/
def Overruns (n : Nat) : Prop :=
  ∃ k fd, MAX_OPEN_FILES ≤ fd ∧ fd < c.width ∧ c.behind k n fd = true

/-- A descriptor that the scan takes for requested and finds ready. -/
def hit (n : Nat) (k : SetKind) (fd : Nat) : Bool := (c.request k).getLsbD fd && c.isReady n k fd

/-- A scan finds something. -/
def Finds (n : Nat) : Prop := ∃ k fd, fd < c.width ∧ c.hit n k fd = true

/-- There is a scan `n`: in none of those before it was an index outside or a descriptor ready,
and none of them was behind the deadline. -/
def Reaches (n : Nat) : Prop :=
  ∀ i < n, ¬c.Overruns i ∧ ¬c.Finds i ∧ c.dwWait ≠ 0#32 ∧ c.tick (i + 1) < c.dwEnd

/-- Scan `n` is the last one. -/
def EndsAt (n : Nat) : Prop :=
  c.Reaches n ∧ ¬c.Overruns n ∧ (c.Finds n ∨ c.dwWait = 0#32 ∨ ¬c.tick (n + 1) < c.dwEnd)

/-- How many descriptors scan `n` finds ready, over the sets that are stored. -/
def hits (n : Nat) : Nat :=
  (SetKind.all.map fun k ↦ (c.sets k).elim 0 fun _ ↦ (List.range c.width).countP (c.hit n k)).sum

/-- What the local of a stored result set holds behind its first 32 bytes, scan `n` finds ready. -/
def CleanAt (n : Nat) : Prop :=
  ∀ k, c.sets k ≠ none → ∀ fd, 8 * FDSET_LONGS ≤ fd → fd < FD_SETSIZE →
    (c.resultLocal k).getLsbD fd = true → fd < c.width ∧ c.hit n k fd = true

/-- No scan looks behind the end of `m_OpenFiles`; the last one finds ready what the local sets
held before; and it finds as many as it looks at, or none. -/
structure OnlyRequested : Prop where
  inRange : ∀ n, c.Reaches n → ¬c.Overruns n
  clean : ∀ n, c.EndsAt n → c.CleanAt n
  counted : ∀ n, c.EndsAt n → c.Finds n → c.width = c.hits n

/-! ## A scan -/

/-- An index outside, at one descriptor. -/
def strays (n : Nat) (k : SetKind) (fd : Nat) : Bool :=
  decide (MAX_OPEN_FILES ≤ fd) && c.behind k n fd

variable {c}

theorem test_eq (n fd : Nat) (k : SetKind) (s : Scanned) :
    c.test n fd k s =
      if c.strays n k fd then none
      else some
        { results := fun k' ↦
            if k' = k ∧ c.hit n k fd = true then KEOW_FD_SET fd (s.results k') else s.results k'
          foundData := s.foundData || c.hit n k fd } := by
  unfold test isSet strays hit isReady
  by_cases hfd : fd < FD_SETSIZE
  · have hin : fd < MAX_OPEN_FILES := hfd
    have hnot : ¬MAX_OPEN_FILES ≤ fd := Nat.not_le.mpr hin
    rw [if_pos hfd, if_pos hin]
    cases hbit : (c.request k).getLsbD fd with
    | false => simp [hnot]
    | true =>
      cases hready : (c.openFiles fd).any (c.ready k n) with
      | false => simp [hnot]
      | true =>
        simp only [hnot, decide_false, Bool.false_and, Bool.false_eq_true, if_false, if_true,
          Bool.and_self, and_true, Bool.or_true, Option.some.injEq, Scanned.mk.injEq]
        funext k'
        split
        · next hk => rw [hk]
        · rfl
  · have hout : MAX_OPEN_FILES ≤ fd := Nat.not_lt.mp hfd
    have hbit : (c.request k).getLsbD fd = false := BitVec.getLsbD_of_ge _ _ hout
    rw [if_neg hfd, if_neg (Nat.not_lt.mpr hout), hbit, decide_eq_true hout, Bool.true_and,
      Bool.false_and]
    split
    · rfl
    · simp

/-- The three tests at a descriptor. -/
theorem testFd_eq (n : Nat) (s : Scanned) (fd : Nat) :
    c.testFd n s fd =
      if SetKind.all.any (c.strays n · fd) then none
      else some
        { results := fun k ↦ if c.hit n k fd then KEOW_FD_SET fd (s.results k) else s.results k
          foundData := s.foundData || SetKind.all.any (c.hit n · fd) } := by
  have hall : ∀ p : SetKind → Bool, SetKind.all.any p = (p .read || p .write || p .except) := by
    intro p
    simp [SetKind.all, Bool.or_assoc]
  unfold testFd
  rw [hall, hall, test_eq]
  by_cases hread : c.strays n .read fd = true
  · simp [hread]
  by_cases hwrite : c.strays n .write fd = true
  · simp [hread, hwrite, test_eq]
  by_cases hexcept : c.strays n .except fd = true
  · simp [hread, hwrite, hexcept, test_eq]
  simp only [hread, hwrite, hexcept, test_eq, Bool.false_eq_true, if_false, Option.bind_eq_bind,
    Option.bind_some, Bool.or_self, Option.some.injEq, Scanned.mk.injEq]
  refine ⟨funext fun k ↦ ?_, by simp only [Bool.or_assoc]⟩
  cases k with
  | read => simp
  | write => simp
  | except => simp

variable (c) in
/-- What a scan leaves if no index is outside. -/
def scanned (n : Nat) (s : Scanned) : Scanned where
  results k := insertBits (c.hit n k) (List.range c.width) (s.results k)
  foundData := s.foundData ||
    (List.range c.width).any fun fd ↦ SetKind.all.any (c.hit n · fd)

theorem scan_eq (n : Nat) (s : Scanned) :
    c.scan n s =
      if (List.range c.width).any fun fd ↦ SetKind.all.any (c.strays n · fd) then none
      else some (c.scanned n s) := by
  unfold scan scanned insertBits
  generalize List.range c.width = fds
  induction fds generalizing s with
  | nil => simp
  | cons fd fds ih =>
    rw [List.foldlM_cons, testFd_eq, List.any_cons]
    by_cases hstray : SetKind.all.any (c.strays n · fd) = true
    · rw [if_pos hstray, hstray, Bool.true_or, if_pos rfl]
      rfl
    · have hfalse := Bool.eq_false_iff.mpr hstray
      rw [if_neg hstray, hfalse, Bool.false_or, Option.bind_eq_bind, Option.bind_some, ih]
      simp only [List.foldl_cons, List.any_cons, Bool.or_assoc, KEOW_FD_SET]

theorem mem_all (k : SetKind) : k ∈ SetKind.all := by
  cases k <;> simp [SetKind.all]

theorem overruns_iff (n : Nat) :
    c.Overruns n ↔
      ((List.range c.width).any fun fd ↦ SetKind.all.any (c.strays n · fd)) = true := by
  simp only [Overruns, strays, List.any_eq_true, List.mem_range, Bool.and_eq_true,
    decide_eq_true_eq]
  constructor
  · rintro ⟨k, fd, hle, hlt, hbit⟩
    exact ⟨fd, hlt, k, mem_all k, hle, hbit⟩
  · rintro ⟨fd, hlt, k, -, hle, hbit⟩
    exact ⟨k, fd, hle, hlt, hbit⟩

theorem finds_iff (n : Nat) :
    c.Finds n ↔ ((List.range c.width).any fun fd ↦ SetKind.all.any (c.hit n · fd)) = true := by
  simp only [Finds, List.any_eq_true, List.mem_range]
  constructor
  · rintro ⟨k, fd, hlt, hhit⟩
    exact ⟨fd, hlt, k, mem_all k, hhit⟩
  · rintro ⟨fd, hlt, k, -, hhit⟩
    exact ⟨k, fd, hlt, hhit⟩

theorem scan_of_overruns {n : Nat} (h : c.Overruns n) (s : Scanned) : c.scan n s = none := by
  rw [scan_eq, if_pos ((overruns_iff n).mp h)]

theorem scan_of_not_overruns {n : Nat} (h : ¬c.Overruns n) (s : Scanned) :
    c.scan n s = some (c.scanned n s) := by
  rw [scan_eq, if_neg (mt (overruns_iff n).mpr h)]

/-- A scan that finds nothing changes nothing. -/
theorem scanned_of_not_finds {n : Nat} (h : ¬c.Finds n) (s : Scanned) : c.scanned n s = s := by
  have hany := Bool.eq_false_iff.mpr (mt (finds_iff n).mpr h)
  have hnone : ∀ k, ∀ fd ∈ List.range c.width, c.hit n k fd = false := by
    intro k fd hfd
    rw [Bool.eq_false_iff]
    exact fun hhit ↦ h ⟨k, fd, List.mem_range.mp hfd, hhit⟩
  rw [scanned, hany, Bool.or_false]
  simp only [insertBits_eq_self (hnone _)]

variable (c) in
/-- The locals behind scan `n`, when nothing was found before. -/
def after (n : Nat) : Scanned := c.scanned n c.start

theorem foundData_after (n : Nat) : (c.after n).foundData = true ↔ c.Finds n := by
  rw [finds_iff, after, scanned, start, Bool.false_or]

theorem getLsbD_after (n : Nat) (k : SetKind) {fd : Nat} (hfd : fd < FD_SETSIZE) :
    ((c.after n).results k).getLsbD fd = true ↔
      8 * FDSET_LONGS ≤ fd ∧ (c.resultLocal k).getLsbD fd = true ∨
        fd < c.width ∧ c.hit n k fd = true := by
  show (insertBits _ _ (clearBelow _ _)).getLsbD fd = true ↔ _
  rw [getLsbD_insertBits _ _ _ hfd, getLsbD_clearBelow _ _ hfd, List.mem_range, Bool.and_eq_true,
    decide_eq_true_eq]

/-! ## The loop -/

theorem poll_of_overruns {n : Nat} (h : c.Overruns n) (turns : Nat) :
    c.poll (turns + 1) n c.start = .fault := by
  rw [poll, scan_of_overruns h]

theorem poll_of_endsAt {n : Nat} (h : c.EndsAt n) (turns : Nat) :
    c.poll (turns + 1) n c.start = .returned n (c.after n) := by
  obtain ⟨-, hin, hends⟩ := h
  rw [poll, scan_of_not_overruns hin]
  show (if (c.after n).foundData then _ else _) = _
  split
  · rfl
  · next hnothing =>
    split
    · rfl
    · next hwait =>
      have hlate : ¬c.tick (n + 1) < c.dwEnd := by
        rcases hends with hfinds | hzero | hlate
        · exact absurd ((foundData_after n).mpr hfinds) hnothing
        · exact absurd hzero hwait
        · exact hlate
      rw [if_neg hlate]
      rfl

theorem poll_of_reaches {n : Nat} (h : c.Reaches (n + 1)) (turns : Nat) :
    c.poll (turns + 1) n c.start = c.poll turns (n + 1) c.start := by
  obtain ⟨hin, hnothing, hwait, hearly⟩ := h n (Nat.lt_succ_self n)
  rw [poll, scan_of_not_overruns hin, scanned_of_not_finds hnothing]
  show (if false = true then _ else if c.dwWait = 0#32 then _ else _) = _
  rw [if_neg Bool.false_ne_true, if_neg hwait, if_pos hearly]

theorem reaches_zero : c.Reaches 0 := fun _ hi ↦ absurd hi (Nat.not_lt_zero _)

theorem reaches_of_lt {m n : Nat} (h : c.Reaches n) (hmn : m ≤ n) : c.Reaches m :=
  fun i hi ↦ h i (Nat.lt_of_lt_of_le hi hmn)

/-- What a scan that is reached comes to. -/
theorem reaches_cases {n : Nat} (h : c.Reaches n) :
    c.Overruns n ∨ c.EndsAt n ∨ c.Reaches (n + 1) := by
  by_cases hin : c.Overruns n
  · exact .inl hin
  · by_cases hends : c.Finds n ∨ c.dwWait = 0#32 ∨ ¬c.tick (n + 1) < c.dwEnd
    · exact .inr (.inl ⟨h, hin, hends⟩)
    · refine .inr (.inr fun i hi ↦ ?_)
      push Not at hends
      rcases Nat.lt_succ_iff_lt_or_eq.mp hi with hi | rfl
      · exact h i hi
      · exact ⟨hin, hends.1, hends.2.1, hends.2.2⟩

/-- A scan that is reached is run. -/
theorem run_of_reaches {n : Nat} (h : c.Reaches n) (turns : Nat) :
    c.run (n + turns) = c.poll turns n c.start := by
  induction n generalizing turns with
  | zero => rw [Nat.zero_add, run]
  | succ n ih =>
    rw [Nat.succ_add_eq_add_succ, ih (reaches_of_lt h (Nat.le_succ n)), poll_of_reaches h]

theorem run_of_endsAt {n : Nat} (h : c.EndsAt n) : c.run (n + 1) = .returned n (c.after n) := by
  rw [run_of_reaches h.1, poll_of_endsAt h]

theorem run_of_overruns {n : Nat} (h : c.Reaches n) (hout : c.Overruns n) :
    c.run (n + 1) = .fault := by
  rw [run_of_reaches h, poll_of_overruns hout]

theorem poll_returned {turns n last : Nat} {s : Scanned} (h : c.Reaches n)
    (hrun : c.poll turns n c.start = .returned last s) : c.EndsAt last ∧ s = c.after last := by
  induction turns generalizing n with
  | zero => exact absurd hrun (by simp [poll])
  | succ turns ih =>
    rcases reaches_cases h with hout | hends | hnext
    · rw [poll_of_overruns hout] at hrun
      exact absurd hrun (by simp)
    · rw [poll_of_endsAt hends] at hrun
      obtain ⟨rfl, rfl⟩ := Selected.returned.inj hrun
      exact ⟨hends, rfl⟩
    · rw [poll_of_reaches hnext] at hrun
      exact ih hnext hrun

theorem poll_fault {turns n : Nat} (h : c.Reaches n)
    (hrun : c.poll turns n c.start = .fault) : ∃ m, c.Reaches m ∧ c.Overruns m := by
  induction turns generalizing n with
  | zero => exact absurd hrun (by simp [poll])
  | succ turns ih =>
    rcases reaches_cases h with hout | hends | hnext
    · exact ⟨n, h, hout⟩
    · rw [poll_of_endsAt hends] at hrun
      exact absurd hrun (by simp)
    · rw [poll_of_reaches hnext] at hrun
      exact ih hnext hrun

/-! ## What a call reports -/

theorem lt_of_hit {n : Nat} {k : SetKind} {fd : Nat} (h : c.hit n k fd = true) :
    fd < FD_SETSIZE :=
  BitVec.lt_of_getLsbD (Bool.and_eq_true _ _ ▸ h).1

theorem hit_iff {n : Nat} {k : SetKind} {set : FdSet} (hset : c.sets k = some set) (fd : Nat) :
    c.hit n k fd = true ↔ c.asked k fd = true ∧ c.isReady n k fd = true := by
  rw [hit, request, asked, hset, Bool.and_eq_true]
  rfl

theorem stored_eq_some {s : Scanned} {k : SetKind} {set : FdSet} (h : c.stored s k = some set) :
    ∃ given, c.sets k = some given ∧ set = s.results k := by
  obtain ⟨given, hgiven, heq⟩ := Option.map_eq_some_iff.mp h
  exact ⟨given, hgiven, heq.symm⟩

/-- The number of descriptors is positive where one is found. -/
theorem toInt_numFds {n : Nat} (h : c.Finds n) : c.numFds.toInt = c.width ∧ 0 < c.width := by
  obtain ⟨k, fd, hlt, -⟩ := h
  have hwidth : c.width = c.numFds.toInt.toNat := rfl
  omega

theorem eax_after_of_finds {n : Nat} (h : c.Finds n) : c.eax (c.after n) = c.numFds := by
  rw [eax, if_pos ((foundData_after n).mpr h)]

theorem eax_after_eq_zero_iff (n : Nat) : c.eax (c.after n) = 0#32 ↔ ¬c.Finds n := by
  constructor
  · intro hzero hfinds
    obtain ⟨hnum, hpos⟩ := toInt_numFds hfinds
    rw [← eax_after_of_finds hfinds, hzero] at hnum
    have : (0#32 : DWORD).toInt = 0 := rfl
    omega
  · intro hnot
    rw [eax, if_neg (mt (foundData_after n).mp hnot)]

/-- Without garbage, the bits that are stored are the descriptors found ready. -/
theorem totalBits_after {n : Nat} (hclean : c.CleanAt n) :
    c.totalBits (c.after n) = c.hits n := by
  have hterm : ∀ k, (c.stored (c.after n) k).elim 0 bitCount =
      (c.sets k).elim 0 fun _ ↦ (List.range c.width).countP (c.hit n k) := by
    intro k
    cases hset : c.sets k with
    | none => simp [stored, hset]
    | some given =>
      simp only [stored, hset, Option.map_some, Option.elim_some]
      refine bitCount_eq_countP (fun fd hfd ↦ ?_) fun fd ↦ lt_of_hit
      rw [getLsbD_after n k hfd, or_iff_right_of_imp]
      rintro ⟨hle, hbit⟩
      exact hclean k (by simp [hset]) fd hle hfd hbit
  simp only [totalBits, hits, hterm]

/-- A call reports the ready descriptors exactly if it never looks behind the end of
`m_OpenFiles`, its local result sets hold no garbage that stays garbage, and it finds as many as
it looks at, or none. -/
theorem reportsReady_iff (c : SelectCall) : c.ReportsReady ↔ c.OnlyRequested := by
  constructor
  · rintro ⟨hindexed, hstored, hreturned⟩
    have hclean : ∀ n, c.EndsAt n → c.CleanAt n := by
      intro n hends k hsome fd hle hfd hbit
      obtain ⟨given, hset⟩ := Option.ne_none_iff_exists'.mp hsome
      have hout : c.stored (c.after n) k = some ((c.after n).results k) := by
        rw [stored, hset, Option.map_some]
      obtain ⟨hlt, hasked, hready⟩ := (hstored _ n _ (run_of_endsAt hends) k _ hout fd hfd).mp
        ((getLsbD_after n k hfd).mpr (.inl ⟨hle, hbit⟩))
      exact ⟨hlt, (hit_iff hset fd).mpr ⟨hasked, hready⟩⟩
    refine ⟨fun n hreach hout ↦ hindexed _ (run_of_overruns hreach hout), hclean, ?_⟩
    intro n hends hfinds
    have hnum := toInt_numFds hfinds
    have hcount := hreturned _ n _ (run_of_endsAt hends)
      (mt (eax_after_eq_zero_iff n).mp (not_not_intro hfinds))
    rw [eax_after_of_finds hfinds, totalBits_after (hclean n hends)] at hcount
    omega
  · rintro ⟨hinRange, hclean, hcounted⟩
    constructor
    · intro turns hfault
      obtain ⟨m, hreach, hout⟩ := poll_fault reaches_zero hfault
      exact hinRange m hreach hout
    · intro turns n s hrun k set hset fd hfd
      obtain ⟨hends, rfl⟩ := poll_returned reaches_zero hrun
      obtain ⟨given, hgiven, rfl⟩ := stored_eq_some hset
      rw [getLsbD_after n k hfd, ← hit_iff hgiven, or_iff_right_of_imp]
      rintro ⟨hle, hbit⟩
      exact hclean n hends k (by simp [hgiven]) fd hle hfd hbit
    · intro turns n s hrun hne
      obtain ⟨hends, rfl⟩ := poll_returned reaches_zero hrun
      have hfinds := Classical.not_not.mp (mt (eax_after_eq_zero_iff n).mpr hne)
      have hcount := hcounted n hends hfinds
      rw [eax_after_of_finds hfinds, totalBits_after (hclean n hends), (toInt_numFds hfinds).1]
      omega

/-- `select(2, {0}, NULL, NULL, NULL)` of a process whose descriptor 0 can be read. -/
def oneOfTwo : SelectCall where
  numFds := 2#32
  sets k := if k = .read then some (BitVec.twoPow FD_SETSIZE 0) else none
  timeout := none
  openFiles fd := if fd = 0 then some 0 else none
  ready _ _ _ := true
  requestLocal _ := noBits
  resultLocal _ := noBits
  behind _ _ _ := false
  time i := 50 * i
  time_le i := by omega

theorem hit_oneOfTwo (n : Nat) (k : SetKind) (fd : Nat) :
    oneOfTwo.hit n k fd = (decide (k = .read) && decide (fd = 0)) := by
  have hready : oneOfTwo.isReady n k fd = decide (fd = 0) := by
    show (if fd = 0 then some 0 else none : Option Nat).any (fun _ ↦ true) = _
    split
    · next h => simp [h]
    · next h => simp [h]
  have hrequest : (oneOfTwo.request k).getLsbD fd = true ↔ k = .read ∧ fd = 0 := by
    show ((if k = .read then some (BitVec.twoPow FD_SETSIZE 0) else none).getD
      (clearBelow noBits (8 * FDSET_LONGS))).getLsbD fd = true ↔ _
    split
    · next h =>
      rw [Option.getD_some, BitVec.getLsbD_twoPow, decide_eq_true (by decide : 0 < FD_SETSIZE)]
      simp [h, eq_comm]
    · next h =>
      rw [Option.getD_none, clearBelow_noBits, getLsbD_noBits]
      exact iff_of_false Bool.false_ne_true fun hread ↦ h hread.1
  rw [hit, hready, Bool.eq_iff_iff, Bool.and_eq_true, Bool.and_eq_true, hrequest]
  simp only [decide_eq_true_eq, and_assoc, and_self]

/-- One descriptor is ready, and the call returns 2. -/
theorem not_reportsReady_oneOfTwo : ¬oneOfTwo.ReportsReady := by
  intro h
  have hfinds : oneOfTwo.Finds 0 := ⟨.read, 0, by decide, by rw [hit_oneOfTwo]; decide⟩
  have hends : oneOfTwo.EndsAt 0 := by
    refine ⟨reaches_zero, ?_, .inl hfinds⟩
    rintro ⟨k, fd, -, -, hbit⟩
    exact absurd hbit Bool.false_ne_true
  have hclean : oneOfTwo.CleanAt 0 := by
    intro k _ fd _ _ hbit
    rw [show (oneOfTwo.resultLocal k).getLsbD fd = false from getLsbD_noBits fd] at hbit
    exact absurd hbit Bool.false_ne_true
  have hhits : oneOfTwo.hits 0 = 1 := by
    have hrange : List.range oneOfTwo.width = [0, 1] := by decide
    simp only [hits, hrange, List.countP_cons, List.countP_nil, hit_oneOfTwo]
    decide
  have hcount := h.returned _ 0 _ (run_of_endsAt hends)
    (mt (eax_after_eq_zero_iff 0).mp (not_not_intro hfinds))
  rw [totalBits_after hclean, hhits, eax_after_of_finds hfinds] at hcount
  exact absurd hcount (by decide)

end SelectCall

end Keow.Files
