import Keow.Kernel.Process

/-!
# Waking another process

`SendSignal` on a process other than `P`, `Process.cpp:1501–1514`, and `SetSingleStep`,
`Process.cpp:1445–1474`, with the user threads of all processes side by side. The context that
is looked at is that of `T`, the thread the calling kernel thread handles, and none is ever
written back.
-/

namespace Keow.Signal

open Keow.Base Keow.Kernel

/-- A `ThreadInfo`, with what Windows keeps for its thread. -/
structure UserThread where
  context : Context
  suspendCount : Nat

/-- The processes by address. The `m_ThreadList` of each has the one thread that
`KernelProcessHandlerEntry` puts there, `Process.cpp:292`. -/
structure Processes where
  process : Nat → Process
  thread : Nat → UserThread
  /-- `m_hWaitTerminatingEvent` is set. -/
  terminating : Nat → Bool

namespace Processes

/-- Change one process. -/
def modifyProcess (s : Processes) (p : Nat) (f : Process → Process) : Processes :=
  { s with process := fun q ↦ if q = p then f (s.process q) else s.process q }

/-- Change the thread of one process. -/
def modifyThread (s : Processes) (p : Nat) (f : UserThread → UserThread) : Processes :=
  { s with thread := fun q ↦ if q = p then f (s.thread q) else s.thread q }

/-- `SetEvent` on the event of a process. -/
def setTerminating (s : Processes) (p : Nat) : Processes :=
  { s with terminating := fun q ↦ if q = p then true else s.terminating q }

end Processes

/-- Computations of a kernel thread on the processes. -/
abbrev N := Comp Processes

/-- `SuspendThread(T->hThread)`. -/
def suspendThread (T : Nat) : N Unit :=
  Comp.modify fun s ↦ s.modifyThread T fun t ↦ { t with suspendCount := t.suspendCount + 1 }

/-- `ResumeThread(T->hThread)`. -/
def resumeThread (T : Nat) : N Unit :=
  Comp.modify fun s ↦ s.modifyThread T fun t ↦ { t with suspendCount := t.suspendCount - 1 }

/-- `SINGLE_STEP_BIT`. -/
def SINGLE_STEP_BIT : DWORD := 0x100#32

/-- The trap flag of a context, set or cleared. -/
def singleStepped (set : Bool) (ctx : Context) : Context :=
  { ctx with
    eFlags := if set then ctx.eFlags ||| SINGLE_STEP_BIT else ctx.eFlags &&& ~~~SINGLE_STEP_BIT }

/-- `Process::SetSingleStep` without a context of the caller's, `Process.cpp:1445–1474`:
nothing changes `bDoSet`. -/
def setSingleStep (T : Nat) (set : Bool) : N Unit := do
  let bDoSet := false
  let s ← Comp.get
  let tmpCtx := singleStepped set (s.thread T).context
  if bDoSet then
    Comp.modify fun s ↦ s.modifyThread T fun t ↦ { t with context := tmpCtx }

/-- `Process::SendSignal` on a process other than `P`, run by a kernel thread with this `T`. -/
def sendToOther (T : Option Nat) (target sig : Nat) : N Unit := do
  if nsig ≤ sig then Comp.fault -- outside `m_PendingSignals`
  else
    Comp.modify fun s ↦ s.modifyProcess target (Process.setPending sig)
    Comp.modify fun s ↦ s.setTerminating target
    match T with
    | none => Comp.fault
    | some T =>
        suspendThread T
        setSingleStep T true
        resumeThread T

/-- The trap flag is set in the context of a thread. -/
def Trapped (t : UserThread) : Prop := t.context.eFlags &&& SINGLE_STEP_BIT ≠ 0#32

instance (t : UserThread) : Decidable (Trapped t) := inferInstanceAs (Decidable (_ ≠ _))

/-- The target has the signal pending and traps, and nothing has been done to any other process
or its thread. -/
structure Notified (target sig : Nat) (s s' : Processes) : Prop where
  pending : (s'.process target).pendingSignals sig = true
  trapped : Trapped (s'.thread target)
  others : ∀ q, q ≠ target → s'.process q = s.process q ∧ s'.thread q = s.thread q ∧
    s'.terminating q = s.terminating q

theorem modifyThread_cancel (s : Processes) (p : Nat) {f g : UserThread → UserThread}
    (h : ∀ t, g (f t) = t) : (s.modifyThread p f).modifyThread p g = s := by
  have hthread : ((s.modifyThread p f).modifyThread p g).thread = s.thread := by
    funext q
    by_cases hq : q = p
    · simp only [Processes.modifyThread, hq, if_true, h]
    · simp only [Processes.modifyThread, if_neg hq]
  exact congrArg (fun thread ↦ { s with thread := thread }) hthread

/-- The thread that `T` stands for is stopped, looked at and started again. -/
theorem single_step_eq (T : Nat) (s : Processes) :
    (do
      suspendThread T
      setSingleStep T true
      resumeThread T : N Unit) s = .ok () s :=
  congrArg (Result.ok ()) (modifyThread_cancel s T fun _ ↦ rfl)

/-- All that a send does is to set the flag and the event. -/
theorem sendToOther_eq {sig : Nat} (hsig : sig < nsig) (T target : Nat) (s : Processes) :
    sendToOther (some T) target sig s =
      .ok () ((s.modifyProcess target (Process.setPending sig)).setTerminating target) := by
  rw [sendToOther, if_neg (Nat.not_le.mpr hsig)]
  exact single_step_eq T _

theorem notified_setPending_iff (target sig : Nat) (s : Processes) :
    Notified target sig s
        ((s.modifyProcess target (Process.setPending sig)).setTerminating target) ↔
      Trapped (s.thread target) := by
  constructor
  · exact fun h ↦ h.trapped
  · intro htrap
    refine ⟨?_, htrap, ?_⟩
    · simp [Processes.modifyProcess, Processes.setTerminating, Process.setPending]
    · intro q hq
      simp [Processes.modifyProcess, Processes.setTerminating, hq]

/-- A send from the kernel thread of another process wakes the target exactly if that was trapping
already; and the kernel thread has to have a thread of its own to look at. -/
theorem sendToOther_notified_iff {sig : Nat} (hsig : sig < nsig) (T : Option Nat) (target : Nat)
    (s : Processes) :
    (∃ s', sendToOther T target sig s = .ok () s' ∧ Notified target sig s s') ↔
      T ≠ none ∧ Trapped (s.thread target) := by
  cases T with
  | none =>
    have hfault : ∃ s', sendToOther none target sig s = .fault s' := by
      rw [sendToOther, if_neg (Nat.not_le.mpr hsig)]
      exact ⟨_, rfl⟩
    obtain ⟨s₁, hfault⟩ := hfault
    refine iff_of_false ?_ fun h ↦ h.1 rfl
    rintro ⟨s', hok, -⟩
    cases hfault.symm.trans hok
  | some T =>
    rw [sendToOther_eq hsig]
    constructor
    · rintro ⟨s', hok, hnotified⟩
      rw [← (Result.ok.inj hok).2, notified_setPending_iff] at hnotified
      exact ⟨Option.some_ne_none T, hnotified⟩
    · rintro ⟨-, htrap⟩
      exact ⟨_, rfl, (notified_setPending_iff target sig s).mpr htrap⟩

/-- Two processes at 0 and 1, whose threads have these flags. -/
def twoProcesses (flags : DWORD) : Processes where
  process p := { pid := BitVec.ofNat 32 (p + 1), parentPid := 0#32 }
  thread _ := ⟨{ Context.zero with eFlags := flags }, 0⟩
  terminating _ := false

/-- Process 1 traps, and gets a `SIGTERM` from process 0. -/
theorem sendToOther_notified_trapping :
    (∃ s', sendToOther (some 0) 1 SIGTERM (twoProcesses 0x100#32) = .ok () s' ∧
      Notified 1 SIGTERM (twoProcesses 0x100#32) s') :=
  (sendToOther_notified_iff (by decide) (some 0) 1 (twoProcesses 0x100#32)).mpr
    ⟨Option.some_ne_none 0, by decide⟩

/-- If it does not trap, it goes on running with the signal pending. -/
theorem sendToOther_not_notified :
    ∃ s', sendToOther (some 0) 1 SIGTERM (twoProcesses 0#32) = .ok () s' ∧
      ¬Notified 1 SIGTERM (twoProcesses 0#32) s' := by
  refine ⟨_, sendToOther_eq (by decide) 0 1 _, fun h ↦ ?_⟩
  exact absurd ((notified_setPending_iff 1 SIGTERM _).mp h) (by decide)

end Keow.Signal
