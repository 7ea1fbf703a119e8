import Keow.Base.Run
import Keow.Signal.Tracer

/-!
# Stopping for a tracer

The kernel thread of a traced process suspends itself in `HandleSignal` (`Process.cpp:1522–1540`),
on `PTRACE_SYSCALL` also around every system call (`SysCalls.cpp:402–469`). Its tracer finds it
suspended in `sys_wait4` (`sys_process.cpp:391–442`), by suspending it once more
(`Process.cpp:2203–2224`), and resumes it (`sys_sys.cpp:361–383,469–474`). Only the suspend count
holds the two together, and a thread that is not suspended does not keep a resume for later.
-/

namespace Keow.Signal

open Keow.Base Keow.Kernel

/-! ## The two threads -/

/-- What the traced process's kernel thread goes on with behind a signal. -/
inductive Return where
  | loop
  /-- The handler of a system call. -/
  | handler (syscall : DWORD)
  /-- The end of `HandleInt80SysCall`. -/
  | leaving

/-- Where that thread is. -/
inductive Point where
  | running (after : Return)
  /-- It has called `HandleSignal`. -/
  | handling (sig : Signal) (after : Return)
  /-- It has stored `new_signal`, and sends the tracer its `SIGCHLD`. -/
  | stored (sig : Signal) (after : Return)
  /-- It has suspended itself. -/
  | stopped (sig : Signal) (after : Return)

def Point.isStopped : Point → Bool
  | .stopped _ _ => true
  | _ => false

/-- What comes to that thread: a signal, a system call, and the return of its handler. -/
inductive Activity where
  | signal (sig : Signal)
  | syscall (ctx : Context)
  | finish (ctx : Context)

/-- `PTRACE_SYSCALL`, `PTRACE_CONT` and `PTRACE_KILL`. -/
inductive Resume where
  | syscall (data : DWORD)
  | cont (data : DWORD)
  | kill

namespace Resume

/-- What becomes of `new_signal`. -/
def left : Resume → DWORD → DWORD
  | syscall data, sig | cont data, sig =>
      if data ≠ 0#32 ∧ data ≠ BitVec.ofNat 32 SIGSTOP then data else sig
  | kill, sig => sig

/-- What is stored in the traced process. `PTRACE_KILL` sends it a `SIGKILL`, which stays
pending. -/
def store (r : Resume) (p : PtraceData) : PtraceData :=
  match r with
  | syscall _ => { p with request := PTRACE_SYSCALL, newSignal := r.left p.newSignal }
  | cont _ => { p with request := 0#32, newSignal := r.left p.newSignal }
  | kill => p

/-- The other two store what `sys_ptrace` does. -/
theorem store_eq (data : DWORD) (p : Process) :
    (syscall data).store p.ptrace = (resumedBy PTRACE_SYSCALL data p).ptrace ∧
      (cont data).store p.ptrace = (resumedBy 0#32 data p).ptrace :=
  ⟨rfl, rfl⟩

@[simp] theorem store_newSignal (r : Resume) (p : PtraceData) :
    (r.store p).newSignal = r.left p.newSignal := by
  cases r <;> rfl

@[simp] theorem store_ownerPid (r : Resume) (p : PtraceData) :
    (r.store p).ownerPid = p.ownerPid := by
  cases r <;> rfl

end Resume

/-- What is left of the signal is what `HandleSignal` acts on. -/
theorem handleSignal_left {w : World} {sig : Signal} {sends : List Signal} {request data : DWORD}
    {rest : List Input} {slot : Slot} {r : Resume} (h : Resumed w sends request data rest slot)
    (hstop : data ≠ BitVec.ofNat 32 SIGSTOP) (hr : r = .syscall data ∨ r = .cont data) :
    handleSignal sig.val w = actOnSignal (r.left (BitVec.ofNat 32 sig.val)).toNat
      (goesOn sends request data rest (stoppedFor sig.val slot w)) := by
  have hleft : r.left (BitVec.ofNat 32 sig.val) =
      if data ≠ 0#32 ∧ data ≠ BitVec.ofNat 32 SIGSTOP then data else BitVec.ofNat 32 sig.val := by
    rcases hr with rfl | rfl <;> rfl
  have hsig : (BitVec.ofNat 32 sig.val).toNat = sig.val := by
    have hlt : sig.val < 64 := sig.property.2
    rw [BitVec.toNat_ofNat]
    omega
  rw [handleSignal_eq sig h hstop, hleft]
  by_cases hdata : data = 0#32
  · rw [if_pos hdata, if_neg fun hne ↦ hne.1 hdata, hsig]
  · rw [if_neg hdata, if_pos ⟨hdata, hstop⟩]

/-- The two threads, with what has happened between them. -/
structure Tracing where
  ptrace : PtraceData
  currentSignal : Nat
  point : Point
  /-- Of the traced process's kernel thread. -/
  suspendCount : Nat
  /-- The tracer inside `IsSuspended`: whether it has found the thread suspended. -/
  poll : Option Bool
  /-- The other processes inside `IsSuspended`, which `/proc` calls. -/
  askers : Nat
  /-- The status that `wait4` has returned, if there has been no resume since. -/
  told : Option Nat
  /-- The signals stopped for. -/
  stops : List Signal
  resumes : List Resume
  /-- What was left of those signals. -/
  acted : List DWORD

/-- `SuspendThread` fails above it. -/
def MAXIMUM_SUSPEND_COUNT : Nat := 127

def sigtrap : Signal := ⟨SIGTRAP, by decide⟩

namespace Tracing

/-- A process that is traced, and runs. -/
def start (owner : {pid : DWORD // pid ≠ 0#32}) (request : DWORD) : Tracing where
  ptrace := { ownerPid := owner.val, request := request }
  currentSignal := 0
  point := .running .loop
  suspendCount := 0
  poll := none
  askers := 0
  told := none
  stops := []
  resumes := []
  acted := []

/-- `SendSignal` of a process on itself. -/
def takeUp (sig : Signal) (after : Return) (s : Tracing) : Tracing :=
  { s with currentSignal := sig.val, point := .handling sig after }

/-- The test before and behind the handler. -/
def followsCalls (s : Tracing) : Bool :=
  decide (s.ptrace.ownerPid ≠ 0#32 ∧ s.ptrace.request = PTRACE_SYSCALL)

/-- `HandleInt80SysCall` as far as the handler. -/
def enterSyscall (ctx : Context) (s : Tracing) : Tracing :=
  let s := { s with ptrace := { s.ptrace with ctx := ctx, ctxValid := true } }
  if ctx.eax.toNat < NR_syscalls then
    if s.followsCalls then
      takeUp sigtrap (.handler ctx.eax)
        { s with ptrace := { s.ptrace with savedEax := ctx.eax, ctx := ctx.withEax (-ENOSYS) } }
    else { s with point := .running (.handler ctx.eax) }
  else { s with point := .running .leaving }

/-- And behind the handler. -/
def leaveSyscall (syscall : DWORD) (ctx : Context) (s : Tracing) : Tracing :=
  if s.followsCalls then
    takeUp sigtrap .leaving { s with ptrace := { s.ptrace with ctx := ctx, savedEax := syscall } }
  else { s with point := .running .leaving }

/-- Something new comes to the thread. -/
def take (a : Activity) (s : Tracing) : Tracing :=
  match s.point, a with
  | .running .loop, .signal sig => takeUp sig .loop s
  | .running (.handler n), .signal sig => takeUp sig (.handler n) s
  | .running .loop, .syscall ctx => s.enterSyscall ctx
  | .running (.handler n), .finish ctx => s.leaveSyscall n ctx
  | _, _ => s

/-- The thread goes on by itself. -/
def advance (s : Tracing) : Tracing :=
  match s.point with
  | .running .leaving =>
      { s with ptrace := { s.ptrace with ctxValid := false }, point := .running .loop }
  | .running _ => s
  | .handling sig after =>
      if s.ptrace.ownerPid ≠ 0#32 then
        { s with
          ptrace := { s.ptrace with newSignal := BitVec.ofNat 32 sig.val }
          point := .stored sig after }
      else { s with currentSignal := 0, point := .running after }
  | .stored sig after =>
      { s with
        suspendCount := s.suspendCount + 1
        stops := s.stops ++ [sig]
        point := .stopped sig after }
  | .stopped _ after =>
      { s with
        currentSignal := 0
        acted := s.acted ++ [s.ptrace.newSignal]
        point := .running after }

/-- The signal in the status of a stopped process, `sys_process.cpp:438–442`. -/
def status (s : Tracing) : Nat :=
  if s.ptrace.request ≠ 0#32 then SIGTRAP else s.currentSignal &&& 0xFF

/-- `wait4` goes on in the tracer: it enters `IsSuspended`, or comes back from there. -/
def wait (s : Tracing) : Tracing :=
  match s.poll with
  | none =>
      if s.suspendCount < MAXIMUM_SUSPEND_COUNT then
        { s with poll := some (decide (0 < s.suspendCount)), suspendCount := s.suspendCount + 1 }
      else s
  | some suspended =>
      { s with
        poll := none
        suspendCount := s.suspendCount - 1
        told := if suspended then some s.status else s.told }

/-- Another process enters `IsSuspended`. -/
def ask (s : Tracing) : Tracing :=
  if s.suspendCount < MAXIMUM_SUSPEND_COUNT then
    { s with askers := s.askers + 1, suspendCount := s.suspendCount + 1 }
  else s

/-- And leaves it. -/
def answer (s : Tracing) : Tracing :=
  if s.askers = 0 then s
  else { s with askers := s.askers - 1, suspendCount := s.suspendCount - 1 }

/-- A request of a process, which need not be the tracer: `sys_ptrace` does not ask. -/
def resume (r : Resume) (s : Tracing) : Tracing :=
  { s with
    ptrace := r.store s.ptrace
    suspendCount := s.suspendCount - 1
    told := none
    resumes := s.resumes ++ [r] }

inductive Move where
  | take (a : Activity)
  | advance
  | wait
  | ask
  | answer
  | resume (r : Resume)

/-- A suspended thread does not run. -/
def step (s : Tracing) : Move → Tracing
  | .take a => if s.suspendCount = 0 then s.take a else s
  | .advance => if s.suspendCount = 0 then s.advance else s
  | .wait => s.wait
  | .ask => s.ask
  | .answer => s.answer
  | .resume r => s.resume r

/-! ## In step -/

/-- The suspensions that are about to end by themselves. -/
def polls (s : Tracing) : Nat := (if s.poll.isSome then 1 else 0) + s.askers

/-- The thread waits for a resume. -/
def Held (s : Tracing) : Prop := s.point.isStopped ∧ s.polls < s.suspendCount

/-- What the resumes have left of the signals. -/
def left (s : Tracing) : List DWORD :=
  List.zipWith (fun sig r ↦ r.left (BitVec.ofNat 32 sig.val)) s.stops s.resumes

/-- Each resume has ended one stop, with what it has left of the signal. -/
structure InStep (s : Tracing) : Prop where
  le : s.resumes.length ≤ s.stops.length
  acted : s.acted <+: s.left
  all : ∀ after, s.point = .running after → s.resumes.length = s.stops.length ∧ s.acted = s.left

/-- A resume comes to a thread that waits for it. -/
def Ready (s : Tracing) : Move → Prop
  | .resume _ => s.Held
  | _ => True

/-- What the thread keeps of the signal it is at. -/
def Noted (s : Tracing) : Prop :=
  match s.point with
  | .running _ => True
  | .stored sig _ => s.currentSignal = sig.val ∧ s.ptrace.newSignal = BitVec.ofNat 32 sig.val
  | .handling sig _ | .stopped sig _ => s.currentSignal = sig.val

/-- Stops, resumes and suspensions balance. -/
inductive Balanced (s : Tracing) : Prop
  | going (hpoint : s.point.isStopped = false) (hcount : s.suspendCount = s.polls)
      (hlength : s.resumes.length = s.stops.length) (hacted : s.acted = s.left)
  | held {sig : Signal} {after : Return} {earlier : List Signal}
      (hpoint : s.point = .stopped sig after) (hcount : s.suspendCount = s.polls + 1)
      (hstops : s.stops = earlier ++ [sig]) (hlength : s.resumes.length = earlier.length)
      (hnew : s.ptrace.newSignal = BitVec.ofNat 32 sig.val) (hacted : s.acted = s.left)
  | letGo (hpoint : s.point.isStopped) (hcount : s.suspendCount = s.polls)
      (hlength : s.resumes.length = s.stops.length)
      (hacted : s.acted ++ [s.ptrace.newSignal] = s.left)

structure Inv (s : Tracing) : Prop where
  traced : s.ptrace.ownerPid ≠ 0#32
  noted : s.Noted
  balanced : s.Balanced

theorem inv_start (owner : {pid : DWORD // pid ≠ 0#32}) (request : DWORD) :
    (start owner request).Inv where
  traced := owner.property
  noted := trivial
  balanced := .going rfl rfl rfl rfl

theorem inStep_of_inv {s : Tracing} (h : s.Inv) : s.InStep := by
  cases h.balanced with
  | going hpoint hcount hlength hacted =>
    exact ⟨hlength.le, hacted ▸ List.prefix_rfl, fun _ _ ↦ ⟨hlength, hacted⟩⟩
  | held hpoint hcount hstops hlength hnew hacted =>
    refine ⟨?_, hacted ▸ List.prefix_rfl, ?_⟩
    · rw [hlength, hstops, List.length_append]
      exact Nat.le_add_right _ _
    · intro after hafter
      rw [hpoint] at hafter
      cases hafter
  | letGo hpoint hcount hlength hacted =>
    refine ⟨hlength.le, hacted ▸ List.prefix_append _ _, ?_⟩
    intro after hafter
    rw [hafter] at hpoint
    cases hpoint

/-! ## The thread's own steps -/

/-- Before a stop, the thread and the tracer are even. -/
theorem even_of_going {s : Tracing} (h : s.Inv) (hs : s.point.isStopped = false) :
    s.suspendCount = s.polls ∧ s.resumes.length = s.stops.length ∧ s.acted = s.left := by
  cases h.balanced with
  | going _ hcount hlength hacted => exact ⟨hcount, hlength, hacted⟩
  | held hpoint =>
    rw [hpoint] at hs
    cases hs
  | letGo hpoint =>
    rw [hpoint] at hs
    cases hs

/-- What is between the two threads. -/
def ledger (s : Tracing) : Nat × Nat × List Signal × List Resume × List DWORD :=
  (s.suspendCount, s.polls, s.stops, s.resumes, s.acted)

/-- The thread has gone on, and not to a stop. -/
structure Quiet (s s' : Tracing) : Prop where
  ledger : s'.ledger = s.ledger
  owner : s'.ptrace.ownerPid = s.ptrace.ownerPid
  noted : s'.Noted
  stopped : s'.point.isStopped = false

theorem inv_of_quiet {s s' : Tracing} (h : s.Inv) (hs : s.point.isStopped = false)
    (hq : Quiet s s') : s'.Inv := by
  obtain ⟨hcount₀, hlength, hacted₀⟩ := even_of_going h hs
  obtain ⟨hledger, howner, hnoted, hs'⟩ := hq
  simp only [ledger, Prod.mk.injEq] at hledger
  obtain ⟨hcount, hpolls, hstops, hresumes, hacted⟩ := hledger
  refine ⟨howner ▸ h.traced, hnoted, .going hs' ?_ ?_ ?_⟩
  · rw [hcount, hcount₀, hpolls]
  · rw [hresumes, hstops, hlength]
  · rw [hacted, hacted₀, left, left, hstops, hresumes]

theorem quiet_takeUp (sig : Signal) (after : Return) (s : Tracing) :
    Quiet s (s.takeUp sig after) :=
  ⟨rfl, rfl, rfl, rfl⟩

theorem quiet_enterSyscall (ctx : Context) (s : Tracing) : Quiet s (s.enterSyscall ctx) := by
  unfold enterSyscall
  dsimp only
  split_ifs
  · exact ⟨rfl, rfl, rfl, rfl⟩
  · exact ⟨rfl, rfl, trivial, rfl⟩
  · exact ⟨rfl, rfl, trivial, rfl⟩

theorem quiet_leaveSyscall (n : DWORD) (ctx : Context) (s : Tracing) :
    Quiet s (s.leaveSyscall n ctx) := by
  unfold leaveSyscall
  split_ifs
  · exact ⟨rfl, rfl, rfl, rfl⟩
  · exact ⟨rfl, rfl, trivial, rfl⟩

theorem inv_take {s : Tracing} (h : s.Inv) (a : Activity) : (s.take a).Inv := by
  unfold take
  split
  · next sig hpoint => exact inv_of_quiet h (by rw [hpoint]; rfl) (quiet_takeUp sig .loop s)
  · next n sig hpoint =>
    exact inv_of_quiet h (by rw [hpoint]; rfl) (quiet_takeUp sig (.handler n) s)
  · next ctx hpoint => exact inv_of_quiet h (by rw [hpoint]; rfl) (quiet_enterSyscall ctx s)
  · next n ctx hpoint => exact inv_of_quiet h (by rw [hpoint]; rfl) (quiet_leaveSyscall n ctx s)
  · exact h

section Lists

variable {α β γ : Type} {f : α → β → γ} {xs : List α} {ys : List β}

/-- The resumes so far say nothing of a further stop. -/
theorem zipWith_concat_left (h : ys.length = xs.length) (x : α) :
    List.zipWith f (xs ++ [x]) ys = List.zipWith f xs ys := by
  have happend : List.zipWith f (xs ++ [x]) (ys ++ []) = List.zipWith f xs ys ++ [] :=
    List.zipWith_append h.symm
  rwa [List.append_nil, List.append_nil] at happend

theorem zipWith_concat (h : ys.length = xs.length) (x : α) (y : β) :
    List.zipWith f (xs ++ [x]) (ys ++ [y]) = List.zipWith f xs ys ++ [f x y] :=
  List.zipWith_append h.symm

end Lists

theorem inv_stop {s : Tracing} {sig : Signal} {after : Return} (h : s.Inv)
    (hpoint : s.point = .stored sig after) : s.advance.Inv := by
  obtain ⟨hcount, hlength, hacted⟩ := even_of_going h (by rw [hpoint]; rfl)
  have hnoted := h.noted
  simp only [Noted, hpoint] at hnoted
  simp only [advance, hpoint]
  refine ⟨h.traced, hnoted.1, .held rfl ?_ rfl hlength hnoted.2 ?_⟩
  · rw [hcount]
    rfl
  · exact hacted.trans (zipWith_concat_left hlength sig).symm

theorem inv_goOn {s : Tracing} {sig : Signal} {after : Return} (h : s.Inv)
    (hcount : s.suspendCount = 0) (hpoint : s.point = .stopped sig after) : s.advance.Inv := by
  simp only [advance, hpoint]
  refine ⟨h.traced, trivial, ?_⟩
  cases h.balanced with
  | going hgoing =>
    rw [hpoint] at hgoing
    cases hgoing
  | held _ hheld => omega
  | letGo _ hpolls hlength hacted => exact .going rfl hpolls hlength hacted

theorem inv_advance {s : Tracing} (h : s.Inv) (hcount : s.suspendCount = 0) : s.advance.Inv := by
  cases hpoint : s.point with
  | running after =>
    have hquiet : s.point.isStopped = false := by rw [hpoint]; rfl
    cases after with
    | loop => simpa only [advance, hpoint] using h
    | handler n => simpa only [advance, hpoint] using h
    | leaving =>
      simp only [advance, hpoint]
      exact inv_of_quiet h hquiet ⟨rfl, rfl, trivial, rfl⟩
  | handling sig after =>
    have hnoted := h.noted
    simp only [Noted, hpoint] at hnoted
    simp only [advance, hpoint, if_pos h.traced]
    exact inv_of_quiet h (by rw [hpoint]; rfl) ⟨rfl, rfl, ⟨hnoted, rfl⟩, rfl⟩
  | stored sig after => exact inv_stop h hpoint
  | stopped sig after => exact inv_goOn h hcount hpoint

/-! ## Looking at the thread -/

/-- Nothing has happened but suspensions that will end by themselves. -/
structure Observed (s s' : Tracing) : Prop where
  ptrace : s'.ptrace = s.ptrace
  current : s'.currentSignal = s.currentSignal
  point : s'.point = s.point
  count : s'.suspendCount + s.polls = s.suspendCount + s'.polls
  history : (s'.stops, s'.resumes, s'.acted) = (s.stops, s.resumes, s.acted)

theorem polls_le {s : Tracing} (h : s.Inv) : s.polls ≤ s.suspendCount := by
  cases h.balanced with
  | going _ hcount => exact hcount.ge
  | held _ hcount => omega
  | letGo _ hcount => exact hcount.ge

section Observed

variable {s s' : Tracing}

theorem inv_of_observed (h : s.Inv) (ho : Observed s s') : s'.Inv := by
  obtain ⟨hptrace, hcurrent, hpoint, hcount, hhistory⟩ := ho
  simp only [Prod.mk.injEq] at hhistory
  obtain ⟨hstops, hresumes, hacted⟩ := hhistory
  have hleft : s'.left = s.left := by rw [left, left, hstops, hresumes]
  refine ⟨hptrace ▸ h.traced, ?_, ?_⟩
  · have hnoted := h.noted
    rwa [Noted, hpoint, hcurrent, hptrace]
  · cases h.balanced with
    | going hp hc hl ha =>
      refine .going (hpoint ▸ hp) (by omega) ?_ ?_
      · rw [hresumes, hstops, hl]
      · rw [hacted, hleft, ha]
    | held hp hc hs hl hn ha =>
      refine .held (hpoint.trans hp) (by omega) (hstops.trans hs) ?_ (hptrace ▸ hn) ?_
      · rw [hresumes, hl]
      · rw [hacted, hleft, ha]
    | letGo hp hc hl ha =>
      refine .letGo (hpoint ▸ hp) (by omega) ?_ ?_
      · rw [hresumes, hstops, hl]
      · rw [hacted, hptrace, hleft, ha]

theorem held_of_observed (h : s.Held) (ho : Observed s s') : s'.Held := by
  refine ⟨ho.point ▸ h.1, ?_⟩
  have hcount := ho.count
  have hheld := h.2
  omega

theorem observed_wait (h : s.Inv) : Observed s s.wait := by
  have hle := polls_le h
  unfold wait
  split
  · next hpoll =>
    split_ifs
    · refine ⟨rfl, rfl, rfl, ?_, rfl⟩
      simp only [polls, hpoll, Option.isSome_some, Option.isSome_none, if_true, Bool.false_eq_true,
        if_false]
      omega
    · exact ⟨rfl, rfl, rfl, rfl, rfl⟩
  · next hpoll =>
    refine ⟨rfl, rfl, rfl, ?_, rfl⟩
    simp only [polls, hpoll, Option.isSome_some, Option.isSome_none, if_true, Bool.false_eq_true,
      if_false] at hle ⊢
    omega

theorem observed_ask (s : Tracing) : Observed s s.ask := by
  unfold ask
  split_ifs
  · refine ⟨rfl, rfl, rfl, ?_, rfl⟩
    simp only [polls]
    omega
  · exact ⟨rfl, rfl, rfl, rfl, rfl⟩

theorem observed_answer (h : s.Inv) : Observed s s.answer := by
  have hle := polls_le h
  unfold answer
  split_ifs
  · exact ⟨rfl, rfl, rfl, rfl, rfl⟩
  · refine ⟨rfl, rfl, rfl, ?_, rfl⟩
    simp only [polls] at hle ⊢
    omega

end Observed

/-! ## Resuming it -/

theorem inv_resume {s : Tracing} (h : s.Inv) (hheld : s.Held) (r : Resume) :
    (s.resume r).Inv := by
  obtain ⟨hstopped, hpolls⟩ := hheld
  refine ⟨?_, ?_, ?_⟩
  · rw [resume, Resume.store_ownerPid]
    exact h.traced
  · have hnoted := h.noted
    cases hpoint : s.point with
    | stopped sig after =>
      rw [Noted, hpoint] at hnoted
      rwa [Noted, resume, hpoint]
    | running | handling | stored =>
      rw [hpoint] at hstopped
      cases hstopped
  · cases h.balanced with
    | going hpoint =>
      rw [hstopped] at hpoint
      cases hpoint
    | letGo _ hcount => omega
    | held hpoint hcount hstops hlength hnew hacted =>
      refine .letGo hstopped ?_ ?_ ?_
      · show s.suspendCount - 1 = s.polls
        omega
      · simp [resume, hstops, hlength]
      · simp only [resume, left, Resume.store_newSignal, hnew, hstops]
        rw [zipWith_concat hlength, hacted, left, hstops, zipWith_concat_left hlength]

/-- A resume that the thread does not wait for is one too many. -/
theorem not_inStep_resume {s : Tracing} (h : s.Inv) (hheld : ¬s.Held) (r : Resume) :
    ¬(s.resume r).InStep := by
  intro hstep
  have hle := hstep.le
  have hmore : (s.resume r).resumes.length = s.resumes.length + 1 := List.length_append
  cases h.balanced with
  | going _ _ hlength =>
    have hsame : (s.resume r).stops.length = s.stops.length := rfl
    omega
  | held hpoint hcount => exact hheld ⟨by rw [hpoint]; rfl, by omega⟩
  | letGo _ _ hlength =>
    have hsame : (s.resume r).stops.length = s.stops.length := rfl
    omega

theorem inv_step (s : Tracing) (m : Move) (h : s.Inv) (hready : s.Ready m) : (s.step m).Inv := by
  cases m with
  | take a =>
    rw [step]
    split_ifs
    · exact inv_take h a
    · exact h
  | advance =>
    rw [step]
    split_ifs with hcount
    · exact inv_advance h hcount
    · exact h
  | wait => exact inv_of_observed h (observed_wait h)
  | ask => exact inv_of_observed h (observed_ask s)
  | answer => exact inv_of_observed h (observed_answer h)
  | resume r => exact inv_resume h hready r

theorem not_inStep_step (s : Tracing) (m : Move) (h : s.Inv) (hready : ¬s.Ready m) :
    ¬(s.step m).InStep := by
  cases m with
  | resume r => exact not_inStep_resume h hready r
  | take a => exact absurd trivial hready
  | advance => exact absurd trivial hready
  | wait => exact absurd trivial hready
  | ask => exact absurd trivial hready
  | answer => exact absurd trivial hready

/-- Stops and resumes stay in step exactly in the runs in which every resume comes to a thread
that waits for it. -/
theorem trail_inStep_iff (owner : {pid : DWORD // pid ≠ 0#32}) (request : DWORD)
    (moves : List Move) :
    (∀ s ∈ trail step (start owner request) moves, s.InStep) ↔
      Along step Ready (start owner request) moves :=
  trail_iff_along (fun _ ↦ inStep_of_inv) inv_step not_inStep_step (inv_start owner request) moves

/-! ## What the tracer is told -/

/-- A tracer that resumes the process when it has been told of the stop, while nobody else looks
at it. -/
def Answers (s : Tracing) : Move → Prop
  | .resume _ => s.poll = none ∧ s.told.isSome
  | .ask => False
  | _ => True

structure Told (s : Tracing) : Prop where
  alone : s.askers = 0
  found : s.poll = some true → s.Held
  reported : ∀ st, s.told = some st → s.Held ∧ st = s.status

theorem told_start (owner : {pid : DWORD // pid ≠ 0#32}) (request : DWORD) :
    (start owner request).Told where
  alone := rfl
  found h := by cases h
  reported _ h := by cases h

theorem ready_of_answers {s : Tracing} (ht : s.Told) {m : Move} (h : s.Answers m) : s.Ready m := by
  cases m with
  | resume r =>
    obtain ⟨st, hst⟩ := Option.isSome_iff_exists.mp h.2
    exact (ht.reported st hst).1
  | take a => trivial
  | advance => trivial
  | wait => trivial
  | ask => trivial
  | answer => trivial

/-- What the tracer has found and been told. -/
def talk (s : Tracing) : Option Bool × Nat × Option Nat := (s.poll, s.askers, s.told)

theorem talk_take (s : Tracing) (a : Activity) : (s.take a).talk = s.talk := by
  unfold take
  split
  · rfl
  · rfl
  · unfold enterSyscall
    dsimp only
    split_ifs <;> rfl
  · unfold leaveSyscall
    split_ifs <;> rfl
  · rfl

theorem talk_advance (s : Tracing) : s.advance.talk = s.talk := by
  unfold advance
  split
  · rfl
  · rfl
  · split_ifs <;> rfl
  · rfl
  · rfl

/-- While the thread runs, nothing has been found. -/
theorem told_of_running {s s' : Tracing} (ht : s.Told) (hcount : s.suspendCount = 0)
    (htalk : s'.talk = s.talk) : s'.Told := by
  have hheld : ¬s.Held := fun hheld ↦ Nat.not_lt_zero _ (hcount ▸ hheld.2)
  simp only [talk, Prod.mk.injEq] at htalk
  obtain ⟨hpoll, haskers, htold⟩ := htalk
  refine ⟨haskers.trans ht.alone, ?_, ?_⟩
  · intro h
    exact absurd (ht.found (hpoll ▸ h)) hheld
  · intro st h
    exact absurd (ht.reported st (htold ▸ h)).1 hheld

theorem status_of_observed {s s' : Tracing} (ho : Observed s s') : s'.status = s.status := by
  rw [status, status, ho.ptrace, ho.current]

/-- A thread that is suspended waits for a resume, when nobody looks at it. -/
theorem held_of_pos {s : Tracing} (h : s.Inv) (hpolls : s.polls = 0) (hpos : 0 < s.suspendCount) :
    s.Held := by
  cases h.balanced with
  | going _ hcount => omega
  | held hpoint hcount => exact ⟨by rw [hpoint]; rfl, by omega⟩
  | letGo _ hcount => omega

theorem told_wait {s : Tracing} (h : s.Inv) (ht : s.Told) : s.wait.Told := by
  have ho := observed_wait h
  have hkept : ∀ st, s.told = some st → s.wait.Held ∧ st = s.wait.status := by
    intro st hst
    obtain ⟨hheld, hright⟩ := ht.reported st hst
    exact ⟨held_of_observed hheld ho, hright.trans (status_of_observed ho).symm⟩
  cases hpoll : s.poll with
  | none =>
    by_cases hmax : s.suspendCount < MAXIMUM_SUSPEND_COUNT
    · have hwait : s.wait = { s with
          poll := some (decide (0 < s.suspendCount)), suspendCount := s.suspendCount + 1 } := by
        rw [wait, hpoll]
        exact if_pos hmax
      rw [hwait] at ho hkept ⊢
      refine ⟨ht.alone, ?_, hkept⟩
      intro hfound
      have hpos : 0 < s.suspendCount := of_decide_eq_true (Option.some.inj hfound)
      have hpolls : s.polls = 0 := by rw [polls, hpoll, ht.alone]; rfl
      exact held_of_observed (held_of_pos h hpolls hpos) ho
    · have hwait : s.wait = s := by
        rw [wait, hpoll]
        exact if_neg hmax
      rwa [hwait]
  | some suspended =>
    have hwait : s.wait = { s with
        poll := none
        suspendCount := s.suspendCount - 1
        told := if suspended then some s.status else s.told } := by
      rw [wait, hpoll]
    rw [hwait] at ho hkept ⊢
    refine ⟨ht.alone, ?_, ?_⟩
    · intro hfound
      cases hfound
    cases suspended with
    | true =>
      intro st hst
      have hst : some s.status = some st := hst
      exact ⟨held_of_observed (ht.found hpoll) ho, (Option.some.inj hst).symm⟩
    | false => exact hkept

theorem told_step {s : Tracing} {m : Move} (h : s.Inv) (ht : s.Told) (hm : s.Answers m) :
    (s.step m).Told := by
  cases m with
  | take a =>
    rw [step]
    split_ifs with hcount
    · exact told_of_running ht hcount (talk_take s a)
    · exact ht
  | advance =>
    rw [step]
    split_ifs with hcount
    · exact told_of_running ht hcount (talk_advance s)
    · exact ht
  | wait => exact told_wait h ht
  | ask => exact hm.elim
  | answer =>
    rw [step, answer, if_pos ht.alone]
    exact ht
  | resume r =>
    refine ⟨ht.alone, fun hfound ↦ ?_, fun st hst ↦ ?_⟩
    · have hfound : s.poll = some true := hfound
      rw [hm.1] at hfound
      cases hfound
    · cases hst

/-- The tracer is told of the stop, and the thread goes on. -/
def round (r : Resume) (s : Tracing) : Tracing := [.wait, .wait, .resume r, .advance].foldl step s

/-- What such a tracer can rely on. -/
structure Relies (s : Tracing) : Prop where
  inStep : s.InStep
  /-- It is told of stops only. -/
  right : ∀ st, s.told = some st → s.Held ∧ st = s.status
  /-- Every stop can be told and ended. -/
  ends : ∀ sig after, s.point = .stopped sig after → s.Held → s.poll = none → ∀ r,
    s.wait.wait.told = some s.status ∧ (s.round r).point = .running after ∧
      (s.round r).acted = s.acted ++ [r.left (BitVec.ofNat 32 sig.val)]

/-- Two turns of `wait4` find a thread that waits for a resume. -/
theorem wait_wait {s : Tracing} (hcount : s.suspendCount = 1) (hpoll : s.poll = none) :
    s.wait.wait = { s with told := some s.status } := by
  have hfirst : s.wait = { s with poll := some true, suspendCount := 2 } := by
    rw [wait, hpoll]
    simp only [hcount, MAXIMUM_SUSPEND_COUNT]
    rfl
  rw [hfirst]
  show { s with poll := none, suspendCount := 1, told := some s.status } = _
  rw [← hpoll, ← hcount]

theorem relies_of_told {s : Tracing} (h : s.Inv) (ht : s.Told) : s.Relies where
  inStep := inStep_of_inv h
  right := ht.reported
  ends := by
    intro sig after hpoint hheld hpoll r
    have hpolls : s.polls = 0 := by rw [polls, hpoll, ht.alone]; rfl
    cases h.balanced with
    | going hgoing =>
      rw [hpoint] at hgoing
      cases hgoing
    | letGo _ hcount => exact absurd hheld.2 (by omega)
    | held hstop hcount _ _ hnew _ =>
      obtain ⟨rfl, rfl⟩ : sig = _ ∧ after = _ := Point.stopped.inj (hpoint.symm.trans hstop)
      have hcount : s.suspendCount = 1 := by omega
      have hwait := wait_wait hcount hpoll
      have hround : s.round r = ({ s with told := some s.status }.resume r).advance := by
        show step (s.wait.wait.resume r) .advance = _
        rw [hwait, step, if_pos (by rw [resume, hcount])]
      refine ⟨by rw [hwait], ?_, ?_⟩
      · rw [hround]
        simp only [advance, resume, hpoint]
      · rw [hround]
        simp only [advance, resume, hpoint, Resume.store_newSignal, hnew]

/-- The process stops for a `SIGTRAP`, and goes on with it. -/
def sigtrapStop : List Move :=
  [.take (.signal sigtrap), .advance, .advance, .wait, .wait, .resume (.cont 0#32), .advance]

theorem answers_sigtrapStop : Along step Answers (start ⟨1#32, by decide⟩ 0#32) sigtrapStop :=
  ⟨trivial, trivial, trivial, trivial, trivial, ⟨rfl, rfl⟩, trivial, trivial⟩

/-- A process that reads `/proc` makes the tracer see a stop where there is none. -/
example : ¬([.ask, .wait, .wait, .resume (.cont 0#32)].foldl step
    (start ⟨1#32, by decide⟩ 0#32)).InStep := by
  intro h
  exact absurd h.le (by decide)

end Tracing

end Keow.Signal
