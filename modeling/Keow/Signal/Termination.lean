import Keow.Signal.Calls

/-!
# The end of a process

`Process::KernelProcessHandlerEntry` (`Process.cpp:268–343`): the debugger loop and the clean-up
after it. `InjectFunctionCall` has an event loop of its own, which ends the kernel thread when
it sees the exit of the process, and the clean-up is never reached.
-/

namespace Keow.Signal

open Keow.Base Keow.Kernel

/-! ## The kernel thread -/

/-- What the end of process `pid` means to a process, `Process.cpp:322–332`: `init` inherits
children, and a tracer is gone. -/
def releasedBy (pid : DWORD) (p : Process) : Process :=
  { p with
    parentPid := if p.parentPid = pid then 1#32 else p.parentPid
    ptrace := { p.ptrace with
      ownerPid := if p.ptrace.ownerPid = pid then 0#32 else p.ptrace.ownerPid } }

/-- The loop over the kernel table. -/
def World.released (w : World) : World :=
  { w with
    before := w.before.map (releasedBy w.cur.pid)
    cur := releasedBy w.cur.pid w.cur
    after := w.after.map (releasedBy w.cur.pid) }

/-- The part of `KernelProcessHandlerEntry` after the loop. The parent is dereferenced before it
is compared with null. -/
def cleanUp : K Unit := do
  let w ← Comp.get
  if w.cur.pid ≠ 1#32 then
    match w.findProcess w.cur.parentPid with
    | none => Comp.fault
    | some slot => sendSignal slot SIGCHLD
  Comp.modify World.released

/-- `Process::KernelProcessHandlerEntry` once the stub runs, for at most a given number of
turns. -/
def kernelProcessHandlerEntry (env : Environment) (fuel : Nat) : K Unit := do
  modifyCur (fun p ↦ { p with inWin32Setup := true })
  debuggerLoop env fuel
  cleanUp

/-- The world a kernel thread leaves behind when it has finished: by returning or by
`ExitThread`. -/
def finished {α : Type} : Result World α → Option World
  | .ok _ w => some w
  | .exit w => some w
  | .wait _ => none
  | .fault _ => none

/-- The lines of the trace since the exit of the process. -/
def sinceExit (t : List Trace) : List Trace :=
  t.takeWhile (fun
    | .processExit _ => false
    | _ => true)

/-- The process is gone from the kernel's point of view. -/
structure Terminated (w : World) : Prop where
  stillRunning : w.cur.stillRunning = false
  parentNotified : w.cur.pid ≠ 1#32 → .sent w.cur.parentPid SIGCHLD ∈ sinceExit w.trace
  noChildren : ∀ p ∈ w.processes, p.parentPid ≠ w.cur.pid
  noTracees : ∀ p ∈ w.processes, p.ptrace.ownerPid ≠ w.cur.pid

/-! ## How the loop is left -/

theorem leaving_modifyCur {f : Process → Process} (hpid : ∀ p, (f p).pid = p.pid)
    (hparent : ∀ p, (f p).parentPid = p.parentPid) : Comp.Within leaving (modifyCur f) :=
  Comp.within_modify (fun w ↦ ⟨hpid w.cur, hparent w.cur⟩)

theorem leaving_log (t : Trace) : Comp.Within leaving (log t) :=
  Comp.within_modify (fun _ ↦ ⟨rfl, rfl⟩)

theorem leaving_modifyOther (f : Process → Process) (slot : Slot) :
    Comp.Within leaving (Comp.modify (fun w ↦ w.modifyOther f slot)) :=
  Comp.within_modify (fun w ↦ by cases slot <;> exact ⟨rfl, rfl⟩)

theorem leaving_ptraceStop (inputs : List Input) : Comp.Within leaving (ptraceStop inputs) := by
  induction inputs with
  | nil => exact Comp.within_wait
  | cons i rest ih =>
    cases i with
    | send sig => exact Comp.within_bind (Comp.within_modify (fun _ ↦ ⟨rfl, rfl⟩)) (fun _ ↦ ih)
    | resume request data => exact Comp.within_modify (fun _ ↦ ⟨rfl, rfl⟩)
    | event evt ctx mem => exact Comp.within_wait

theorem leaving_notifyTracer : Comp.Within leaving notifyTracer := by
  refine Comp.within_bind Comp.within_get (fun w ↦ ?_)
  cases w.findProcess w.cur.ptrace.ownerPid with
  | none => exact Comp.within_fault
  | some slot =>
    cases slot with
    | cur => exact Comp.within_fault
    | before i => exact Comp.within_bind (leaving_modifyOther _ _) (fun _ ↦ leaving_log _)
    | after i => exact Comp.within_bind (leaving_modifyOther _ _) (fun _ ↦ leaving_log _)

theorem leaving_actOnSignal (sig : Nat) : Comp.Within leaving (actOnSignal sig) := by
  intro w
  refine Comp.post_mono (actOnSignal_post sig w) ?_ ?_
  · intro _ w' h
    cases h with
    | masked hkill hstop hblocked h => rw [h]; exact ⟨rfl, rfl⟩
    | caught hc h => rw [h]; exact ⟨rfl, rfl⟩
    | settled hc t ht h => exact ⟨h.pid, h.parentPid⟩
  · rintro w' ⟨exitCode, w₁, h, rfl⟩
    exact ⟨exitCode, w₁, ⟨h.pid, h.parentPid⟩, rfl⟩

theorem leaving_handleSignal (sig : Nat) : Comp.Within leaving (handleSignal sig) := by
  refine Comp.within_bind Comp.within_get (fun w ↦ ?_)
  refine Comp.within_ite ?_ (leaving_actOnSignal sig)
  refine Comp.within_bind (leaving_modifyCur (fun _ ↦ rfl) (fun _ ↦ rfl)) (fun _ ↦ ?_)
  refine Comp.within_bind leaving_notifyTracer (fun _ ↦ ?_)
  refine Comp.within_bind Comp.within_get (fun w ↦ ?_)
  refine Comp.within_bind (leaving_ptraceStop _) (fun _ ↦ ?_)
  refine Comp.within_bind Comp.within_get (fun w ↦ ?_)
  exact Comp.within_ite (Comp.within_pure _) (leaving_actOnSignal _)

theorem leaving_handleCurrentSignal (sig : Nat) : Comp.Within leaving (handleCurrentSignal sig) :=
  Comp.within_bind (leaving_modifyCur (fun _ ↦ rfl) (fun _ ↦ rfl)) (fun _ ↦
    Comp.within_bind (leaving_handleSignal sig) (fun _ ↦
      leaving_modifyCur (fun _ ↦ rfl) (fun _ ↦ rfl)))

theorem leaving_sendSignal (slot : Slot) (sig : Nat) :
    Comp.Within leaving (sendSignal slot sig) := by
  refine Comp.within_bind Comp.within_get (fun w ↦ ?_)
  split
  · exact Comp.within_bind (leaving_log _) (fun _ ↦ leaving_handleCurrentSignal sig)
  · refine Comp.within_bind (leaving_modifyOther _ _) (fun _ ↦ ?_)
    split
    · exact leaving_log _
    · exact Comp.within_pure _

theorem leaving_sendToSlots (select : Process → Bool) (sig : Nat) (slots : List Slot) :
    Comp.Within leaving (sendToSlots select sig slots) := by
  induction slots with
  | nil => exact Comp.within_pure _
  | cons slot rest ih =>
    refine Comp.within_bind (Comp.within_bind Comp.within_get (fun w ↦ ?_)) (fun _ ↦ ih)
    cases w.at slot with
    | none => exact Comp.within_pure _
    | some p => exact Comp.within_ite (leaving_sendSignal slot sig) (Comp.within_pure _)

theorem leaving_raisePipe (r : Context × Bool) : Comp.Within leaving (raisePipe r) :=
  Comp.within_ite (Comp.within_bind (leaving_sendSignal _ _) (fun _ ↦ Comp.within_pure _))
    (Comp.within_pure _)

theorem leaving_sysKill (ctx : Context) : Comp.Within leaving (sysKill ctx) := by
  refine Comp.within_ite (Comp.within_pure _) (Comp.within_ite ?_ ?_)
  · refine Comp.within_bind Comp.within_get (fun w ↦ ?_)
    cases w.findProcess ctx.ebx with
    | none => exact Comp.within_pure _
    | some slot =>
      exact Comp.within_ite
        (Comp.within_bind (leaving_sendSignal slot _) (fun _ ↦ Comp.within_pure _))
        (Comp.within_pure _)
  · refine Comp.within_bind Comp.within_get (fun w ↦ ?_)
    exact Comp.within_bind (leaving_sendToSlots _ _ _) (fun _ ↦ Comp.within_pure _)

theorem leaving_sysExecve (env : Environment) (ctx : Context) :
    Comp.Within leaving (sysExecve env ctx) := by
  refine Comp.within_bind (leaving_of_receiving (within_untilReset env ctx)) (fun err ↦ ?_)
  cases err with
  | some err => exact Comp.within_pure _
  | none =>
    have hinit : Comp.Within leaving initSignalHandling :=
      Comp.within_bind (leaving_modifyCur (fun _ ↦ rfl) (fun _ ↦ rfl)) (fun _ ↦ leaving_log _)
    refine Comp.within_bind hinit (fun _ ↦ ?_)
    refine Comp.within_bind (leaving_of_receiving (env.within_startImage ctx)) (fun _ ↦ ?_)
    refine Comp.within_bind Comp.within_get (fun w ↦ ?_)
    have hctx : Comp.Within leaving getThreadContext :=
      Comp.within_bind Comp.within_get (fun _ ↦ Comp.within_pure _)
    refine Comp.within_ite ?_ hctx
    refine Comp.within_bind (leaving_modifyCur (fun _ ↦ rfl) (fun _ ↦ rfl)) (fun _ ↦ ?_)
    exact Comp.within_bind (leaving_sendSignal _ _) (fun _ ↦ hctx)

theorem leaving_sysPtrace (env : Environment) (ctx : Context) :
    Comp.Within leaving (sysPtrace env ctx) := by
  refine Comp.within_bind Comp.within_get (fun w ↦ ?_)
  cases w.findProcess ctx.ecx with
  | none => exact Comp.within_fault
  | some slot =>
    refine Comp.within_ite ?_ (Comp.within_ite ?_ (Comp.within_ite ?_ ?_))
    · exact Comp.within_bind (leaving_modifyCur (fun _ ↦ rfl) (fun _ ↦ rfl))
        (fun _ ↦ Comp.within_pure _)
    · refine Comp.within_bind (Comp.within_modify (fun w ↦ ?_)) (fun _ ↦ Comp.within_pure _)
      cases slot <;> exact ⟨rfl, rfl⟩
    · exact Comp.within_bind (leaving_sendSignal slot _) (fun _ ↦ Comp.within_pure _)
    · exact leaving_of_receiving (env.within_ptracePeek ctx)

theorem leaving_syscallHandler (env : Environment) (n : Nat) (ctx : Context) :
    Comp.Within leaving (syscallHandler env n ctx) := by
  unfold syscallHandler
  split
  · exact leaving_of_silent (silent_sysExit ctx)
  · exact Comp.within_bind (leaving_of_receiving (within_writeAttempt ctx)) leaving_raisePipe
  · exact leaving_sysExecve env ctx
  · exact leaving_sysPtrace env ctx
  · exact leaving_sysKill ctx
  · exact leaving_of_silent (silent_sysSigaction ctx)
  · exact leaving_of_silent (silent_sysRtSigreturn ctx)
  · exact leaving_of_silent (silent_sysSigprocmask ctx)
  · exact Comp.within_bind (leaving_of_receiving (within_writevAttempt ctx)) leaving_raisePipe
  · exact leaving_of_silent (silent_sysRtSigreturn ctx)
  all_goals first
    | exact Comp.within_pure _
    | exact leaving_of_receiving (env.within_otherSyscall n ctx)

theorem leaving_stopForPtrace (seen : Context) (savedEax : DWORD) :
    Comp.Within leaving (stopForPtrace seen savedEax) := by
  refine Comp.within_bind Comp.within_get (fun w ↦ Comp.within_ite ?_ (Comp.within_pure _))
  exact Comp.within_bind (leaving_modifyCur (fun _ ↦ rfl) (fun _ ↦ rfl))
    (fun _ ↦ leaving_sendSignal _ _)

theorem leaving_handleInt80SysCall (env : Environment) (ctx : Context) :
    Comp.Within leaving (handleInt80SysCall env ctx) := by
  have hend : ∀ ctx' : Context, Comp.Within leaving (do
      modifyCur (fun p ↦ { p with ptrace := { p.ptrace with ctxValid := false } })
      return ctx') :=
    fun _ ↦ Comp.within_bind (leaving_modifyCur (fun _ ↦ rfl) (fun _ ↦ rfl))
      (fun _ ↦ Comp.within_pure _)
  refine Comp.within_bind (leaving_modifyCur (fun _ ↦ rfl) (fun _ ↦ rfl)) (fun _ ↦ ?_)
  split
  · refine Comp.within_bind (leaving_stopForPtrace _ _) (fun _ ↦ ?_)
    refine Comp.within_bind (leaving_syscallHandler env _ ctx) (fun ctx' ↦ ?_)
    exact Comp.within_bind (leaving_stopForPtrace _ _) (fun _ ↦ hend ctx')
  · exact hend _

theorem leaving_handleExceptionCode (env : Environment) (code : ExceptionCode) (address : DWORD)
    (ctx : Context) : Comp.Within leaving (handleExceptionCode env code address ctx) := by
  have hfault : ∀ sig, Comp.Within leaving (do
      sendSignal .cur sig
      return ctx) :=
    fun sig ↦ Comp.within_bind (leaving_sendSignal .cur sig) (fun _ ↦ Comp.within_pure _)
  refine Comp.within_bind Comp.within_get (fun w ↦ ?_)
  split
  · exact Comp.within_pure _
  · exact Comp.within_ite (leaving_handleInt80SysCall env _)
      (Comp.within_ite (leaving_handleInt80SysCall env _) (hfault _))
  · refine Comp.within_ite (leaving_handleInt80SysCall env _) (Comp.within_ite ?_ (hfault _))
    refine Comp.within_bind Comp.within_get (fun _ ↦ ?_)
    exact Comp.within_bind (Comp.within_modify (fun _ ↦ ⟨rfl, rfl⟩)) (fun _ ↦ Comp.within_pure _)
  · exact Comp.within_fault
  · split
    · exact hfault _
    · exact Comp.within_pure _

theorem leaving_handleException (env : Environment) (code : ExceptionCode) (address : DWORD) :
    Comp.Within leaving (handleException env code address) := by
  refine Comp.within_bind (Comp.within_bind Comp.within_get (fun _ ↦ Comp.within_pure _))
    (fun ctx ↦ ?_)
  refine Comp.within_bind (Comp.within_modify (fun _ ↦ ⟨rfl, rfl⟩)) (fun _ ↦ ?_)
  exact Comp.within_bind (leaving_handleExceptionCode env code address ctx)
    (fun ctx' ↦ leaving_of_receiving (within_setThreadContext ctx'))

/-- The exit of the process has just been recorded. -/
def JustExited (w₀ w : World) : Prop :=
  ∃ exitCode w₁, leaving.ok w₀ w₁ ∧ w = w₁.recordExit exitCode

/-- A turn leaves the loop with the exit recorded, or goes on. -/
theorem debuggerTurn_leaves (env : Environment) (w : World) :
    Comp.Post (debuggerTurn env) w
      (fun left w' ↦ if left then JustExited w w' else leaving.ok w w')
      (fun w' ↦ JustExited w w') := by
  have hgoes : ∀ {x : K Unit}, Comp.Within leaving x → ∀ w₁, leaving.ok w w₁ →
      Comp.Post (x >>= fun _ ↦ Pure.pure false) w₁
        (fun left w' ↦ if left then JustExited w w' else leaving.ok w w')
        (fun w' ↦ JustExited w w') := by
    intro x hx w₁ hw₁
    rw [Comp.post_bind]
    exact Comp.post_mono (hx w₁) (fun _ _ h ↦ leaving.trans hw₁ h)
      (fun _ h ↦ leaving.trans_exit hw₁ h)
  have hresume : ∀ gs, Comp.Within leaving (resumeKeowProcess gs) :=
    fun gs ↦ leaving_of_receiving (within_resumeKeowProcess gs)
  simp only [debuggerTurn, Comp.post_bind, Comp.post_get]
  refine Comp.post_mono (leaving_of_receiving (within_nextEvent w.inputs) w) ?_ (fun _ h ↦ h)
  intro evt w₁ hw₁
  cases w₁.cur.lowestPending with
  | some sig =>
    have hclear : Comp.Within leaving (modifyCur (fun p ↦ { p with
        pendingSignals := fun s ↦ if s = sig then false else p.pendingSignals s })) :=
      leaving_modifyCur (fun _ ↦ rfl) (fun _ ↦ rfl)
    simp only [Comp.post_bind, post_modifyCur]
    have hturn := hgoes (Comp.within_bind hclear (fun _ ↦
      Comp.within_bind (leaving_handleCurrentSignal sig) (fun _ ↦ hresume true))) w₁ hw₁
    simpa only [Comp.post_bind, post_modifyCur] using hturn
  | none =>
    cases evt with
    | exitProcess exitCode => exact ⟨exitCode, w₁, hw₁, rfl⟩
    | exception code address =>
      simp only [handleDebugEvent, Comp.post_bind, Comp.post_get]
      split
      · split
        · have hturn := hgoes (Comp.within_bind env.within_convertProcessToKeow
            (fun _ ↦ hresume false)) w₁ hw₁
          simpa only [Comp.post_bind] using hturn
        · exact hgoes (hresume false) w₁ hw₁
      · have hturn := hgoes (Comp.within_bind (leaving_handleException env code address)
          (fun _ ↦ hresume true)) w₁ hw₁
        simpa only [Comp.post_bind] using hturn
    | createProcess => exact hgoes (hresume false) w₁ hw₁
    | createThread => exact hgoes (hresume false) w₁ hw₁
    | exitThread => exact hgoes (hresume false) w₁ hw₁
    | loadDll => exact hgoes (hresume false) w₁ hw₁
    | unloadDll => exact hgoes (hresume false) w₁ hw₁
    | outputDebugString => exact hgoes (hresume false) w₁ hw₁
    | other => exact hgoes (hresume false) w₁ hw₁

theorem justExited_trans {w₀ w₁ w : World} (h : leaving.ok w₀ w₁) (h' : JustExited w₁ w) :
    JustExited w₀ w := leaving.trans_exit h h'

/-- However many turns it takes, and whichever of the two loops sees the exit. -/
theorem debuggerLoop_leaves (env : Environment) (fuel : Nat) (w : World) :
    Comp.Post (debuggerLoop env fuel) w (fun _ w' ↦ JustExited w w')
      (fun w' ↦ JustExited w w') := by
  induction fuel generalizing w with
  | zero => trivial
  | succ fuel ih =>
    simp only [debuggerLoop, Comp.post_bind]
    refine Comp.post_mono (debuggerTurn_leaves env w) ?_ (fun _ h ↦ h)
    intro left w₁ h
    cases left with
    | true => exact h
    | false =>
      exact Comp.post_mono (ih w₁) (fun _ _ h' ↦ justExited_trans h h')
        (fun _ h' ↦ justExited_trans h h')

/-! ## The clean-up -/

theorem findProcess_spec {w : World} {pid : DWORD} {slot : Slot}
    (h : w.findProcess pid = some slot) : ∃ p, w.at slot = some p ∧ p.pid = pid := by
  unfold World.findProcess at h
  split at h
  · next i hi =>
    obtain rfl := Option.some.inj h
    obtain ⟨hlt, hp, -⟩ := List.findIdx?_eq_some_iff_getElem.mp hi
    exact ⟨w.before[i], List.getElem?_eq_getElem hlt, by simpa using hp⟩
  · split at h
    · next hcur =>
      obtain rfl := Option.some.inj h
      exact ⟨w.cur, rfl, by simpa using hcur⟩
    · obtain ⟨i, hi, rfl⟩ := Option.map_eq_some_iff.mp h
      obtain ⟨hlt, hp, -⟩ := List.findIdx?_eq_some_iff_getElem.mp hi
      exact ⟨w.after[i], List.getElem?_eq_getElem hlt, by simpa using hp⟩

theorem processes_released (w : World) :
    (World.released w).processes = w.processes.map (releasedBy w.cur.pid) := by
  simp [World.released, World.processes]

theorem releasedBy_ownerPid {pid : DWORD} (hpid : pid ≠ 0#32) (p : Process) :
    (releasedBy pid p).ptrace.ownerPid ≠ pid := by
  unfold releasedBy
  dsimp only
  split
  · exact hpid.symm
  · next h => exact h

theorem releasedBy_parentPid_iff {pid : DWORD} (p : Process) :
    (releasedBy pid p).parentPid ≠ pid ↔ pid ≠ 1#32 ∨ p.parentPid ≠ 1#32 := by
  unfold releasedBy
  dsimp only
  split
  · next h =>
    rw [h]
    constructor
    · exact fun h1 ↦ .inl h1.symm
    · rintro (h1 | h1)
      · exact h1.symm
      · exact fun h2 ↦ h1 h2.symm
  · next h =>
    refine ⟨fun _ ↦ ?_, fun _ ↦ h⟩
    by_cases h1 : pid = 1#32
    · exact .inr (h1 ▸ h)
    · exact .inl h1

/-- After the loop over the table, only `init` can have children left. -/
theorem terminated_released_iff {w : World} (hrun : w.cur.stillRunning = false)
    (hpid : w.cur.pid ≠ 0#32) (hparent : w.cur.parentPid ≠ w.cur.pid)
    (hsent : w.cur.pid ≠ 1#32 → .sent w.cur.parentPid SIGCHLD ∈ sinceExit w.trace) :
    Terminated (World.released w) ↔
      (w.cur.pid ≠ 1#32 ∨ ∀ p ∈ w.processes, p.parentPid ≠ 1#32) := by
  have hsame : (World.released w).cur.parentPid = w.cur.parentPid := if_neg hparent
  constructor
  · intro h
    by_cases h1 : w.cur.pid = 1#32
    · refine .inr (fun p hp ↦ ?_)
      have hreleased : releasedBy w.cur.pid p ∈ (World.released w).processes := by
        rw [processes_released]
        exact List.mem_map_of_mem hp
      have hne := h.noChildren _ hreleased
      rcases (releasedBy_parentPid_iff p).mp hne with h' | h'
      · exact absurd h1 h'
      · exact h'
    · exact .inl h1
  · intro h
    refine ⟨hrun, fun h1 ↦ by rw [hsame]; exact hsent h1, ?_, ?_⟩
    · intro q hq
      rw [processes_released] at hq
      obtain ⟨p, hp, rfl⟩ := List.mem_map.mp hq
      exact (releasedBy_parentPid_iff p).mpr (h.imp_right (fun hall ↦ hall p hp))
    · intro q hq
      rw [processes_released] at hq
      obtain ⟨p, hp, rfl⟩ := List.mem_map.mp hq
      exact releasedBy_ownerPid hpid p

/-- The clean-up sends `SIGCHLD` to a parent that is in the table and is not `P` itself. -/
theorem sendSignal_parent {w : World} {slot : Slot} (hparent : w.cur.parentPid ≠ w.cur.pid)
    (hfind : w.findProcess w.cur.parentPid = some slot) :
    ∃ w₁, sendSignal slot SIGCHLD w = .ok () w₁ ∧ w₁.cur = w.cur ∧
      w₁.trace = .sent w.cur.parentPid SIGCHLD :: w.trace := by
  obtain ⟨p, hat, hp⟩ := findProcess_spec hfind
  rw [← hp]
  cases slot with
  | cur =>
    obtain rfl := Option.some.inj hat
    exact absurd hp.symm hparent
  | before i =>
    refine ⟨(w.modifyOther (Process.setPending SIGCHLD) (.before i)).withTrace
      (.sent p.pid SIGCHLD), ?_, rfl, rfl⟩
    simp only [sendSignal, Bind.bind, Comp.bind, Comp.get, Comp.modify, hat]
    rfl
  | after i =>
    refine ⟨(w.modifyOther (Process.setPending SIGCHLD) (.after i)).withTrace (.sent p.pid SIGCHLD),
      ?_, rfl, rfl⟩
    simp only [sendSignal, Bind.bind, Comp.bind, Comp.get, Comp.modify, hat]
    rfl

theorem cleanUp_post {w₀ w : World} (h : JustExited w₀ w) (hpid : w₀.cur.pid ≠ 0#32)
    (hparent : w₀.cur.parentPid ≠ w₀.cur.pid) :
    Comp.Post cleanUp w
      (fun _ w' ↦ Terminated w' ↔ (w₀.cur.pid ≠ 1#32 ∨ ∀ p ∈ w.processes, p.parentPid ≠ 1#32))
      (fun _ ↦ False) := by
  obtain ⟨exitCode, w₂, ⟨hp, hpp⟩, rfl⟩ := h
  have hpid₂ : (w₂.recordExit exitCode).cur.pid ≠ 0#32 := fun h0 ↦ hpid (hp.symm.trans h0)
  have hparent₂ : (w₂.recordExit exitCode).cur.parentPid ≠ (w₂.recordExit exitCode).cur.pid :=
    fun h0 ↦ hparent (hpp.symm.trans (Eq.trans h0 hp))
  have hcur : (w₂.recordExit exitCode).cur.pid = w₀.cur.pid := hp
  simp only [cleanUp, Comp.post_bind, Comp.post_get]
  split
  · next h1 =>
    cases hfind : (w₂.recordExit exitCode).findProcess (w₂.recordExit exitCode).cur.parentPid with
    | none => trivial
    | some slot =>
      obtain ⟨w₁, hsend, hcur₁, htrace₁⟩ := sendSignal_parent hparent₂ hfind
      simp only [Comp.post_bind, Comp.post_modify]
      rw [Comp.Post, hsend]
      have hiff := terminated_released_iff (w := w₁) (by rw [hcur₁]; rfl)
        (by rw [hcur₁]; exact hpid₂) (by rw [hcur₁]; exact hparent₂)
        (fun _ ↦ by rw [htrace₁, hcur₁]; exact List.mem_cons_self ..)
      refine ⟨fun _ ↦ .inl (hcur ▸ h1), fun _ ↦ hiff.mpr (.inl ?_)⟩
      rw [hcur₁]
      exact h1
  · next h1 =>
    simp only [Comp.post_modify]
    rw [← hcur]
    exact terminated_released_iff rfl hpid₂ hparent₂ (fun h1' ↦ absurd h1' h1)

/-- The thread that `ExitThread` ends leaves everything to do, so nothing may be there to do. -/
theorem justExited_terminated_iff {w₀ w : World} (h : JustExited w₀ w) :
    Terminated w ↔ w₀.cur.pid = 1#32 ∧ (∀ p ∈ w.processes, p.parentPid ≠ 1#32) ∧
      ∀ p ∈ w.processes, p.ptrace.ownerPid ≠ 1#32 := by
  obtain ⟨exitCode, w₁, ⟨hp, -⟩, rfl⟩ := h
  have hcur : (w₁.recordExit exitCode).cur.pid = w₀.cur.pid := hp
  constructor
  · intro ht
    have h1 : w₀.cur.pid = 1#32 := by
      by_contra hne
      have hsent := ht.parentNotified (by rw [hcur]; exact hne)
      exact absurd hsent (by simp [sinceExit, World.recordExit])
    have hchildren := ht.noChildren
    have htracees := ht.noTracees
    rw [hcur, h1] at hchildren htracees
    exact ⟨h1, hchildren, htracees⟩
  · rintro ⟨h1, hchildren, htracees⟩
    refine ⟨rfl, fun hne ↦ absurd (hcur.trans h1) hne, ?_, ?_⟩
    · rw [hcur, h1]
      exact hchildren
    · rw [hcur, h1]
      exact htracees

/-- `P` at the start of its kernel thread. -/
def inSetup (w : World) : World := { w with cur := { w.cur with inWin32Setup := true } }

/-- A kernel thread that has finished has completed the termination of its process exactly if
`DebuggerLoop` saw the exit, and then `init` had no children, or `InjectFunctionCall` saw it and
the process was `init` without children and without traced processes. -/
theorem kernelProcessHandlerEntry_terminated_iff (env : Environment) (fuel : Nat) (w₀ w' : World)
    (hpid : w₀.cur.pid ≠ 0#32) (hparent : w₀.cur.parentPid ≠ w₀.cur.pid)
    (hfinished : finished (kernelProcessHandlerEntry env fuel w₀) = some w') :
    Terminated w' ↔
      (∃ w, debuggerLoop env fuel (inSetup w₀) = .ok () w ∧
        (w₀.cur.pid ≠ 1#32 ∨ ∀ p ∈ w.processes, p.parentPid ≠ 1#32)) ∨
      (∃ w, debuggerLoop env fuel (inSetup w₀) = .exit w ∧ w₀.cur.pid = 1#32 ∧
        (∀ p ∈ w.processes, p.parentPid ≠ 1#32) ∧
        ∀ p ∈ w.processes, p.ptrace.ownerPid ≠ 1#32) := by
  have hentry : kernelProcessHandlerEntry env fuel w₀ =
      (debuggerLoop env fuel >>= fun _ ↦ cleanUp) (inSetup w₀) := rfl
  have hleaves := debuggerLoop_leaves env fuel (inSetup w₀)
  rw [hentry] at hfinished
  simp only [Bind.bind, Comp.bind] at hfinished
  cases hloop : debuggerLoop env fuel (inSetup w₀) with
  | ok u w =>
    have hexited : JustExited (inSetup w₀) w := Comp.of_post_ok hleaves hloop
    have hclean := cleanUp_post hexited hpid hparent
    rw [hloop] at hfinished
    dsimp only at hfinished
    have hiff : Terminated w' ↔
        (w₀.cur.pid ≠ 1#32 ∨ ∀ p ∈ w.processes, p.parentPid ≠ 1#32) := by
      cases hc : cleanUp w with
      | ok u' w₁ =>
        rw [hc] at hfinished
        obtain rfl := Option.some.inj hfinished
        exact Comp.of_post_ok hclean hc
      | exit w₁ => exact absurd (Comp.of_post_exit hclean hc) id
      | wait w₁ => rw [hc] at hfinished; exact absurd hfinished (by simp [finished])
      | fault w₁ => rw [hc] at hfinished; exact absurd hfinished (by simp [finished])
    simp [hiff]
  | exit w =>
    rw [hloop] at hfinished
    obtain rfl := Option.some.inj hfinished
    have hexited : JustExited (inSetup w₀) w := Comp.of_post_exit hleaves hloop
    simp [justExited_terminated_iff hexited, inSetup]
  | wait w => rw [hloop] at hfinished; exact absurd hfinished (by simp [finished])
  | fault w => rw [hloop] at hfinished; exact absurd hfinished (by simp [finished])

/-- A kernel whose unmodelled parts do nothing but end the setup of a process. -/
def startingEnvironment : Environment :=
  { idleEnvironment with
    convertProcessToKeow := modifyCur (fun p ↦ { p with inWin32Setup := false })
    within_convertProcessToKeow := leaving_modifyCur (fun _ ↦ rfl) (fun _ ↦ rfl) }

/-- Process 2 with its parent `init` in the table. -/
def childOfInit (inputs : List Input) : World :=
  { loneWorld inputs with before := [{ pid := 1#32, parentPid := 0#32 }] }

/-- A stub that ends by itself is cleaned up after. -/
theorem kernelProcessHandlerEntry_terminated_iff_exit :
    ∃ w', finished (kernelProcessHandlerEntry startingEnvironment 1
        (childOfInit [.event (.exitProcess 7#32) Context.zero (fun _ ↦ 0)])) = some w' ∧
      Terminated w' := by
  refine ⟨_, rfl, ?_⟩
  refine (kernelProcessHandlerEntry_terminated_iff startingEnvironment 1
    (childOfInit [.event (.exitProcess 7#32) Context.zero (fun _ ↦ 0)]) _ (by decide) (by decide)
    rfl).mpr ?_
  exact .inl ⟨_, rfl, .inl (by decide)⟩

/-- The registers of `exit(7)` at address 0. -/
def exitContext : Context := { Context.zero with eax := 1#32, ebx := 7#32 }

/-- `int 80h` at address 0. -/
def exitCall : UserMem := fun a ↦ if a = 0#32 then 0xcd else if a = 1#32 then 0x80 else 0

/-- `exit(7)`: the exit is seen by the injected call, and the parent never hears of it. -/
theorem sys_exit_unfinished :
    ∃ w', finished (kernelProcessHandlerEntry startingEnvironment 3
        (childOfInit [.event (.exception .singleStep 0#32) Context.zero (fun _ ↦ 0),
          .event (.exception .accessViolation 0#32) exitContext exitCall,
          .event (.exitProcess 7#32) Context.zero (fun _ ↦ 0)])) = some w' ∧
      w'.cur.exitCode = 7#32 ∧ ¬Terminated w' := by
  refine ⟨_, rfl, rfl, fun h ↦ ?_⟩
  have hsent : Trace.sent 1#32 SIGCHLD ∈ ([] : List Trace) := h.parentNotified (by decide)
  exact absurd hsent List.not_mem_nil

end Keow.Signal
