import Keow.Base.Recorder
import Keow.Signal.Loop

/-!
# Signal numbers as indices

The debugger loop once more, with a record of the indices it uses into `m_PendingSignals`,
`m_SignalAction` and the words of `m_SignalMask` (`Process.h:212–218`), and of the numbers that
are given to `sys_sigaction` and by a tracer. Loops over a whole array are not recorded.
-/

namespace Keow.Signal

open Keow.Base Keow.Kernel

/-! ## Indices -/

/-- The arrays that signal numbers lead into. -/
inductive SignalArray where
  | pendingSignals
  | signalAction
  | signalMask
deriving DecidableEq

/-- `_NSIG` entries, or `_NSIG_WORDS`. -/
def SignalArray.size : SignalArray → Nat
  | .pendingSignals => nsig
  | .signalAction => nsig
  | .signalMask => 2

/-- What is recorded. -/
inductive Note where
  /-- An array is used at this index. -/
  | index (array : SignalArray) (i : Int)
  /-- `sys_sigaction` is called for this number. -/
  | sigaction (signum : DWORD)
  /-- The tracer answers a stop with this data. -/
  | resumed (data : DWORD)
deriving DecidableEq

/-- The index is inside its array. -/
def Note.Inside : Note → Prop
  | .index array i => 0 ≤ i ∧ i < array.size
  | .sigaction _ => True
  | .resumed _ => True

/-- The number is none of those that get past the checks: `sys_sigaction` lets 64 through, and
nothing looks at what a tracer gives. -/
def Note.Ordinary : Note → Prop
  | .index _ _ => True
  | .sigaction signum => signum.toNat ≠ nsig
  | .resumed data => data.toNat < nsig

instance : DecidablePred Note.Inside := fun e ↦ by
  cases e <;> simp only [Note.Inside] <;> infer_instance

instance : DecidablePred Note.Ordinary := fun e ↦ by
  cases e <;> simp only [Note.Ordinary] <;> infer_instance

/-- A signal number as the `int` that `SendSignal` and `HandleSignal` take. -/
def signalInt (sig : Nat) : Int := (BitVec.ofNat 32 sig).toInt

/-- The indices that `HandleSignal` uses for a signal that can be caught,
`Process.cpp:1574–1812`. -/
def handlerIndices (sig : Nat) : List Note :=
  if sig = SIGKILL ∨ sig = SIGSTOP then []
  else [.index .signalMask ((signalInt sig - 1).tdiv 32), .index .signalAction (signalInt sig)]

/-! ## Delivery -/

/-- A computation of the kernel thread with its record. -/
abbrev KR := Comp (World × List Note)

/-- `ptraceStop`. -/
def ptraceStopR : List Input → KR Unit
  | [] => Comp.wait
  | .event _ _ _ :: _ => Comp.wait
  | .send sig :: rest => do
      Comp.silent (Comp.modify (fun w ↦ { w.absorb (.send sig) with inputs := rest }))
      ptraceStopR rest
  | .resume request data :: rest => do
      Comp.record [.resumed data]
      Comp.silent (Comp.modify (fun w ↦ { w.absorb (.resume request data) with inputs := rest }))

/-- `notifyTracer`. -/
def notifyTracerR : KR Unit := do
  let w ← Comp.silent Comp.get
  match w.findProcess w.cur.ptrace.ownerPid with
  | none => Comp.fault
  | some .cur => Comp.fault
  | some slot =>
      Comp.record [.index .pendingSignals (signalInt SIGCHLD)]
      Comp.silent (Comp.modify (fun w ↦ w.modifyOther (Process.setPending SIGCHLD) slot))
      Comp.silent (log (.sent w.cur.ptrace.ownerPid SIGCHLD))

/-- `actOnSignal`. -/
def actOnSignalR (sig : Nat) : KR Unit := do
  Comp.record (handlerIndices sig)
  Comp.silent (actOnSignal sig)

/-- `handleSignal`. -/
def handleSignalR (sig : Nat) : KR Unit := do
  let w ← Comp.silent Comp.get
  if w.cur.ptrace.ownerPid ≠ 0#32 then
    Comp.silent (modifyCur (fun p ↦ { p with
      ptrace := { p.ptrace with newSignal := BitVec.ofNat 32 sig } }))
    notifyTracerR
    let w ← Comp.silent Comp.get
    ptraceStopR w.inputs
    let w ← Comp.silent Comp.get
    let newSignal := w.cur.ptrace.newSignal.toNat
    if newSignal ≠ sig ∧ newSignal = 0 then return ()
    else actOnSignalR newSignal
  else actOnSignalR sig

/-- `handleCurrentSignal`. -/
def handleCurrentSignalR (sig : Nat) : KR Unit := do
  Comp.silent (modifyCur (fun p ↦ { p with currentSignal := sig }))
  handleSignalR sig
  Comp.silent (modifyCur (fun p ↦ { p with currentSignal := 0 }))

/-- `sendSignal`. -/
def sendSignalR (slot : Slot) (sig : Nat) : KR Unit := do
  let w ← Comp.silent Comp.get
  match slot with
  | .cur =>
      Comp.silent (log (.raised sig (w.cur.blocks sig)))
      handleCurrentSignalR sig
  | slot =>
      Comp.record [.index .pendingSignals (signalInt sig)]
      Comp.silent (Comp.modify (fun w ↦ w.modifyOther (Process.setPending sig) slot))
      match w.at slot with
      | some p => Comp.silent (log (.sent p.pid sig))
      | none => return ()

/-! ## System calls -/

/-- `sendIfSelected`. -/
def sendIfSelectedR (select : Process → Bool) (sig : Nat) (slot : Slot) : KR Unit := do
  let w ← Comp.silent Comp.get
  match w.at slot with
  | some p => if select p ∧ sig ≠ 0 then sendSignalR slot sig
  | none => return ()

/-- `sendToSlots`. -/
def sendToSlotsR (select : Process → Bool) (sig : Nat) : List Slot → KR Unit
  | [] => return ()
  | slot :: rest => do
      sendIfSelectedR select sig slot
      sendToSlotsR select sig rest

/-- `sysKill`. -/
def sysKillR (ctx : Context) : KR Context := do
  let pid := ctx.ebx
  let sig := ctx.ecx.toNat
  if nsig ≤ sig then return ctx.withEax (-EINVAL)
  else if 0 < pid.toInt then
    let w ← Comp.silent Comp.get
    match w.findProcess pid with
    | none => return ctx.withEax (-ESRCH)
    | some slot =>
        if sig ≠ 0 then sendSignalR slot sig
        return ctx.withEax 0#32
  else
    let w ← Comp.silent Comp.get
    sendToSlotsR (killSelects w.cur pid) sig w.slots
    return ctx.withEax 0#32

/-- `sysSigaction`. -/
def sysSigactionR (ctx : Context) : KR Context := do
  Comp.record (if nsig < ctx.ebx.toNat then [.sigaction ctx.ebx]
    else [.sigaction ctx.ebx, .index .signalAction ctx.ebx.toNat])
  Comp.silent (sysSigaction ctx)

/-- `raisePipe`. -/
def raisePipeR (r : Context × Bool) : KR Context := do
  if r.2 then sendSignalR .cur SIGPIPE
  return r.1

/-- `sysWrite`. -/
def sysWriteR (ctx : Context) : KR Context := do raisePipeR (← Comp.silent (writeAttempt ctx))

/-- `sysWritev`. -/
def sysWritevR (ctx : Context) : KR Context := do raisePipeR (← Comp.silent (writevAttempt ctx))

/-- `sysPtrace`. -/
def sysPtraceR (env : Environment) (ctx : Context) : KR Context := do
  let request := ctx.ebx
  let data := ctx.esi
  let w ← Comp.silent Comp.get
  match w.findProcess ctx.ecx with
  | none => Comp.fault
  | some slot =>
    if request = PTRACE_TRACEME then
      Comp.silent (modifyCur (fun p ↦ { p with
        ptrace := { p.ptrace with ownerPid := p.parentPid, request := PTRACE_TRACEME } }))
      return ctx.withEax 0#32
    else if request = PTRACE_SYSCALL ∨ request = PTRACE_CONT then
      Comp.silent (Comp.modify (fun w ↦ w.modifySlot (fun p ↦ { p with ptrace :=
        { p.ptrace with
          request := if request = PTRACE_SYSCALL then PTRACE_SYSCALL else 0#32
          newSignal := if data ≠ 0#32 ∧ data ≠ BitVec.ofNat 32 SIGSTOP then data
            else p.ptrace.newSignal } }) slot))
      return ctx.withEax 0#32
    else if request = PTRACE_KILL then
      sendSignalR slot SIGKILL
      return ctx.withEax 0#32
    else Comp.silent (env.ptracePeek ctx)

/-- `sysExecve`. -/
def sysExecveR (env : Environment) (ctx : Context) : KR Context := do
  match ← Comp.silent (untilReset env ctx) with
  | some err => return ctx.withEax (-win32ErrToUnixError err)
  | none =>
      Comp.silent initSignalHandling
      Comp.silent (env.startImage ctx)
      let w ← Comp.silent Comp.get
      if w.cur.ptrace.ownerPid ≠ 0#32 then
        Comp.silent (modifyCur (fun p ↦ { p with ptrace := { p.ptrace with
          ctx := ctx.withEax 0#32, savedEax := 11#32, ctxValid := true } }))
        sendSignalR .cur SIGTRAP
      Comp.silent getThreadContext

/-- `syscallHandler`. -/
def syscallHandlerR (env : Environment) (n : Nat) (ctx : Context) : KR Context :=
  match n with
  | 4 => sysWriteR ctx
  | 11 => sysExecveR env ctx
  | 26 => sysPtraceR env ctx
  | 37 => sysKillR ctx
  | 67 => sysSigactionR ctx
  | 146 => sysWritevR ctx
  | n => Comp.silent (syscallHandler env n ctx)

/-- `stopForPtrace`. -/
def stopForPtraceR (seen : Context) (savedEax : DWORD) : KR Unit := do
  let w ← Comp.silent Comp.get
  if w.cur.ptrace.ownerPid ≠ 0#32 ∧ w.cur.ptrace.request = PTRACE_SYSCALL then
    Comp.silent (modifyCur (fun p ↦ { p with
      ptrace := { p.ptrace with ctx := seen, savedEax := savedEax } }))
    sendSignalR .cur SIGTRAP

/-- `handleInt80SysCall`. -/
def handleInt80SysCallR (env : Environment) (ctx : Context) : KR Context := do
  Comp.silent (modifyCur fun p ↦
    { p with ptrace := { p.ptrace with ctx := ctx, ctxValid := true } })
  let ctx' ←
    if ctx.eax.toNat < NR_syscalls then do
      stopForPtraceR (ctx.withEax (-ENOSYS)) ctx.eax
      let ctx' ← syscallHandlerR env ctx.eax.toNat ctx
      stopForPtraceR ctx' ctx.eax
      Pure.pure ctx'
    else Comp.silent (unhandled ctx)
  Comp.silent (modifyCur (fun p ↦ { p with ptrace := { p.ptrace with ctxValid := false } }))
  return ctx'

/-! ## The loop -/

/-- `handleExceptionCode`. -/
def handleExceptionCodeR (env : Environment) (code : ExceptionCode) (address : DWORD)
    (ctx : Context) : KR Context := do
  let w ← Comp.silent Comp.get
  match code with
  | .singleStep => return { ctx with eFlags := ctx.eFlags ||| 0x100#32 }
  | .intOverflow =>
      if w.instruction (ctx.eip - 2#32) = INT4 then handleInt80SysCallR env ctx
      else if w.instruction (ctx.eip - 1#32) = INT4 then
        handleInt80SysCallR env (ctx.withEip (ctx.eip + 1#32))
      else
        sendSignalR .cur SIGFPE
        return ctx
  | .accessViolation =>
      if w.instruction address = INT80 ∨ w.instruction address = INT4 then
        handleInt80SysCallR env (ctx.withEip (ctx.eip + 2#32))
      else if w.instruction address = MOV_GS_EAX then Comp.silent (loadGs env ctx)
      else
        sendSignalR .cur SIGSEGV
        return ctx
  | .breakpoint => Comp.fault
  | code =>
      match code.faultSignal with
      | some sig =>
          sendSignalR .cur sig
          return ctx
      | none => return ctx

/-- `handleException`. -/
def handleExceptionR (env : Environment) (code : ExceptionCode) (address : DWORD) : KR Unit := do
  let ctx ← Comp.silent getThreadContext
  Comp.silent (Comp.modify (fun w ↦ { w with segGs := ctx.segGs }))
  let ctx' ← handleExceptionCodeR env code address ctx
  Comp.silent (setThreadContext ctx')

/-- `handleDebugEvent`. -/
def handleDebugEventR (env : Environment) (evt : DebugEvent) : KR Bool := do
  match evt with
  | .exitProcess exitCode =>
      Comp.silent (Comp.modify (fun w ↦ w.recordExit exitCode))
      return true
  | .exception code address =>
      let w ← Comp.silent Comp.get
      if w.cur.inWin32Setup then
        if code = .singleStep then Comp.silent env.convertProcessToKeow
        Comp.silent (resumeKeowProcess false)
      else
        handleExceptionR env code address
        Comp.silent (resumeKeowProcess true)
      return false
  | _ =>
      Comp.silent (resumeKeowProcess false)
      return false

/-- `debuggerTurn`. -/
def debuggerTurnR (env : Environment) : KR Bool := do
  let w ← Comp.silent Comp.get
  let evt ← Comp.silent (nextEvent w.inputs)
  let w ← Comp.silent Comp.get
  match w.cur.lowestPending with
  | some sig =>
      Comp.record [.index .pendingSignals (signalInt sig)]
      Comp.silent (modifyCur (fun p ↦ { p with
        pendingSignals := fun s ↦ if s = sig then false else p.pendingSignals s }))
      handleCurrentSignalR sig
      Comp.silent (resumeKeowProcess true)
      return false
  | none => handleDebugEventR env evt

/-- `debuggerLoop`. -/
def debuggerLoopR (env : Environment) : Nat → KR Unit
  | 0 => Comp.wait
  | n + 1 => do
      if ← debuggerTurnR env then return ()
      else debuggerLoopR env n

/-! ## Without the record -/

theorem erases_ptraceStop (inputs : List Input) :
    Comp.Erases (ptraceStopR inputs) (ptraceStop inputs) := by
  induction inputs with
  | nil => exact Comp.erases_wait
  | cons i rest ih =>
    cases i with
    | event evt ctx mem => exact Comp.erases_wait
    | send sig => exact Comp.erases_bind (Comp.erases_silent _) fun _ ↦ ih
    | resume request data => exact Comp.erases_record (Comp.erases_silent _)

theorem erases_notifyTracer : Comp.Erases notifyTracerR notifyTracer := by
  refine Comp.erases_bind (Comp.erases_silent _) fun w ↦ ?_
  cases w.findProcess w.cur.ptrace.ownerPid with
  | none => exact Comp.erases_fault
  | some slot =>
    cases slot with
    | cur => exact Comp.erases_fault
    | before i =>
      exact Comp.erases_record (Comp.erases_bind (Comp.erases_silent _) fun _ ↦
        Comp.erases_silent _)
    | after i =>
      exact Comp.erases_record (Comp.erases_bind (Comp.erases_silent _) fun _ ↦
        Comp.erases_silent _)

theorem erases_actOnSignal (sig : Nat) : Comp.Erases (actOnSignalR sig) (actOnSignal sig) :=
  Comp.erases_record (Comp.erases_silent _)

theorem erases_handleSignal (sig : Nat) : Comp.Erases (handleSignalR sig) (handleSignal sig) := by
  refine Comp.erases_bind (Comp.erases_silent _) fun w ↦ Comp.erases_ite ?_ (erases_actOnSignal sig)
  refine Comp.erases_bind (Comp.erases_silent _) fun _ ↦ ?_
  refine Comp.erases_bind erases_notifyTracer fun _ ↦ ?_
  refine Comp.erases_bind (Comp.erases_silent _) fun w ↦ ?_
  refine Comp.erases_bind (erases_ptraceStop _) fun _ ↦ ?_
  refine Comp.erases_bind (Comp.erases_silent _) fun w ↦ ?_
  exact Comp.erases_ite (Comp.erases_pure _) (erases_actOnSignal _)

theorem erases_handleCurrentSignal (sig : Nat) :
    Comp.Erases (handleCurrentSignalR sig) (handleCurrentSignal sig) :=
  Comp.erases_bind (Comp.erases_silent _) fun _ ↦
    Comp.erases_bind (erases_handleSignal sig) fun _ ↦ Comp.erases_silent _

theorem erases_sendSignal (slot : Slot) (sig : Nat) :
    Comp.Erases (sendSignalR slot sig) (sendSignal slot sig) := by
  refine Comp.erases_bind (Comp.erases_silent _) fun w ↦ ?_
  have hother : ∀ slot : Slot, Comp.Erases
      (match w.at slot with
        | some p => Comp.silent (log (.sent p.pid sig))
        | none => return () : KR Unit)
      (match w.at slot with
        | some p => log (.sent p.pid sig)
        | none => return ()) := by
    intro slot
    cases w.at slot with
    | none => exact Comp.erases_pure _
    | some p => exact Comp.erases_silent _
  cases slot with
  | cur => exact Comp.erases_bind (Comp.erases_silent _) fun _ ↦ erases_handleCurrentSignal sig
  | before i => exact Comp.erases_record (Comp.erases_bind (Comp.erases_silent _) fun _ ↦ hother _)
  | after i => exact Comp.erases_record (Comp.erases_bind (Comp.erases_silent _) fun _ ↦ hother _)

/-- A signal that is sent under a condition, and a value. -/
theorem erases_sendIf {c : Prop} [Decidable c] {α : Type} (slot : Slot) (sig : Nat) (a : α) :
    Comp.Erases (do
        if c then sendSignalR slot sig
        return a)
      (do
        if c then sendSignal slot sig
        return a) :=
  Comp.erases_ite (Comp.erases_bind (erases_sendSignal slot sig) fun _ ↦ Comp.erases_pure a)
    (Comp.erases_pure a)

theorem erases_sendIfSelected (select : Process → Bool) (sig : Nat) (slot : Slot) :
    Comp.Erases (sendIfSelectedR select sig slot) (sendIfSelected select sig slot) := by
  refine Comp.erases_bind (Comp.erases_silent _) fun w ↦ ?_
  cases w.at slot with
  | none => exact Comp.erases_pure _
  | some p => exact Comp.erases_ite (erases_sendSignal slot sig) (Comp.erases_pure _)

theorem erases_sendToSlots (select : Process → Bool) (sig : Nat) (slots : List Slot) :
    Comp.Erases (sendToSlotsR select sig slots) (sendToSlots select sig slots) := by
  induction slots with
  | nil => exact Comp.erases_pure _
  | cons slot rest ih =>
    exact Comp.erases_bind (erases_sendIfSelected select sig slot) fun _ ↦ ih

theorem erases_sysKill (ctx : Context) : Comp.Erases (sysKillR ctx) (sysKill ctx) := by
  refine Comp.erases_ite (Comp.erases_pure _) (Comp.erases_ite ?_ ?_)
  · refine Comp.erases_bind (Comp.erases_silent _) fun w ↦ ?_
    cases w.findProcess ctx.ebx with
    | none => exact Comp.erases_pure _
    | some slot => exact erases_sendIf slot _ _
  · exact Comp.erases_bind (Comp.erases_silent _) fun w ↦
      Comp.erases_bind (erases_sendToSlots _ _ _) fun _ ↦ Comp.erases_pure _

theorem erases_sysSigaction (ctx : Context) :
    Comp.Erases (sysSigactionR ctx) (sysSigaction ctx) :=
  Comp.erases_record (Comp.erases_silent _)

theorem erases_raisePipe (r : Context × Bool) : Comp.Erases (raisePipeR r) (raisePipe r) :=
  erases_sendIf .cur SIGPIPE r.1

theorem erases_sysPtrace (env : Environment) (ctx : Context) :
    Comp.Erases (sysPtraceR env ctx) (sysPtrace env ctx) := by
  refine Comp.erases_bind (Comp.erases_silent _) fun w ↦ ?_
  cases w.findProcess ctx.ecx with
  | none => exact Comp.erases_fault
  | some slot =>
    refine Comp.erases_ite ?_ (Comp.erases_ite ?_ (Comp.erases_ite ?_ (Comp.erases_silent _)))
    · exact Comp.erases_bind (Comp.erases_silent _) fun _ ↦ Comp.erases_pure _
    · exact Comp.erases_bind (Comp.erases_silent _) fun _ ↦ Comp.erases_pure _
    · exact Comp.erases_bind (erases_sendSignal slot SIGKILL) fun _ ↦ Comp.erases_pure _

theorem erases_sysExecve (env : Environment) (ctx : Context) :
    Comp.Erases (sysExecveR env ctx) (sysExecve env ctx) := by
  refine Comp.erases_bind (Comp.erases_silent _) fun err ↦ ?_
  cases err with
  | some err => exact Comp.erases_pure _
  | none =>
    refine Comp.erases_bind (Comp.erases_silent _) fun _ ↦ ?_
    refine Comp.erases_bind (Comp.erases_silent _) fun _ ↦ ?_
    refine Comp.erases_bind (Comp.erases_silent _) fun w ↦ ?_
    refine Comp.erases_ite ?_ (Comp.erases_silent _)
    exact Comp.erases_bind (Comp.erases_silent _) fun _ ↦
      Comp.erases_bind (erases_sendSignal .cur SIGTRAP) fun _ ↦ Comp.erases_silent _

theorem erases_syscallHandler (env : Environment) (n : Nat) (ctx : Context) :
    Comp.Erases (syscallHandlerR env n ctx) (syscallHandler env n ctx) := by
  unfold syscallHandlerR
  split
  · exact Comp.erases_bind (Comp.erases_silent _) fun _ ↦ erases_raisePipe _
  · exact erases_sysExecve env ctx
  · exact erases_sysPtrace env ctx
  · exact erases_sysKill ctx
  · exact erases_sysSigaction ctx
  · exact Comp.erases_bind (Comp.erases_silent _) fun _ ↦ erases_raisePipe _
  · exact Comp.erases_silent _

theorem erases_stopForPtrace (seen : Context) (savedEax : DWORD) :
    Comp.Erases (stopForPtraceR seen savedEax) (stopForPtrace seen savedEax) :=
  Comp.erases_bind (Comp.erases_silent _) fun _ ↦
    Comp.erases_ite (Comp.erases_bind (Comp.erases_silent _) fun _ ↦
      erases_sendSignal .cur SIGTRAP) (Comp.erases_pure _)

theorem erases_handleInt80SysCall (env : Environment) (ctx : Context) :
    Comp.Erases (handleInt80SysCallR env ctx) (handleInt80SysCall env ctx) := by
  refine Comp.erases_bind (Comp.erases_silent _) fun _ ↦ Comp.erases_ite ?_ ?_
  · refine Comp.erases_bind (erases_stopForPtrace _ _) fun _ ↦ ?_
    refine Comp.erases_bind (erases_syscallHandler env _ ctx) fun ctx' ↦ ?_
    refine Comp.erases_bind (erases_stopForPtrace _ _) fun _ ↦ ?_
    refine Comp.erases_bind (Comp.erases_pure ctx') fun ctx' ↦ ?_
    exact Comp.erases_bind (Comp.erases_silent _) fun _ ↦ Comp.erases_pure _
  · refine Comp.erases_bind (Comp.erases_silent _) fun ctx' ↦ ?_
    exact Comp.erases_bind (Comp.erases_silent _) fun _ ↦ Comp.erases_pure _

theorem erases_handleExceptionCode (env : Environment) (code : ExceptionCode) (address : DWORD)
    (ctx : Context) :
    Comp.Erases (handleExceptionCodeR env code address ctx)
      (handleExceptionCode env code address ctx) := by
  have hsend : ∀ sig, Comp.Erases (do
      sendSignalR .cur sig
      return ctx) (do
      sendSignal .cur sig
      return ctx) := fun sig ↦
    Comp.erases_bind (erases_sendSignal .cur sig) fun _ ↦ Comp.erases_pure ctx
  refine Comp.erases_bind (Comp.erases_silent _) fun w ↦ ?_
  cases code with
  | singleStep => exact Comp.erases_pure _
  | breakpoint => exact Comp.erases_fault
  | intOverflow =>
    exact Comp.erases_ite (erases_handleInt80SysCall env _)
      (Comp.erases_ite (erases_handleInt80SysCall env _) (hsend SIGFPE))
  | accessViolation =>
    exact Comp.erases_ite (erases_handleInt80SysCall env _)
      (Comp.erases_ite (Comp.erases_silent _) (hsend SIGSEGV))
  | _ => exact hsend _

theorem erases_handleException (env : Environment) (code : ExceptionCode) (address : DWORD) :
    Comp.Erases (handleExceptionR env code address) (handleException env code address) := by
  refine Comp.erases_bind (Comp.erases_silent _) fun ctx ↦ ?_
  refine Comp.erases_bind (Comp.erases_silent _) fun _ ↦ ?_
  exact Comp.erases_bind (erases_handleExceptionCode env code address ctx) fun _ ↦
    Comp.erases_silent _

theorem erases_handleDebugEvent (env : Environment) (evt : DebugEvent) :
    Comp.Erases (handleDebugEventR env evt) (handleDebugEvent env evt) := by
  have hresume : Comp.Erases (do
      Comp.silent (resumeKeowProcess false)
      return false : KR Bool) (do
      resumeKeowProcess false
      return false) :=
    Comp.erases_bind (Comp.erases_silent _) fun _ ↦ Comp.erases_pure _
  cases evt with
  | exitProcess exitCode =>
    exact Comp.erases_bind (Comp.erases_silent _) fun _ ↦ Comp.erases_pure _
  | exception code address =>
    refine Comp.erases_bind (Comp.erases_silent _) fun w ↦ Comp.erases_ite ?_ ?_
    · exact Comp.erases_ite (Comp.erases_bind (Comp.erases_silent _) fun _ ↦ hresume) hresume
    · exact Comp.erases_bind (erases_handleException env code address) fun _ ↦
        Comp.erases_bind (Comp.erases_silent _) fun _ ↦ Comp.erases_pure _
  | _ => exact hresume

theorem erases_debuggerTurn (env : Environment) :
    Comp.Erases (debuggerTurnR env) (debuggerTurn env) := by
  refine Comp.erases_bind (Comp.erases_silent _) fun w ↦ ?_
  refine Comp.erases_bind (Comp.erases_silent _) fun evt ↦ ?_
  refine Comp.erases_bind (Comp.erases_silent _) fun w ↦ ?_
  cases w.cur.lowestPending with
  | none => exact erases_handleDebugEvent env evt
  | some sig =>
    refine Comp.erases_record (Comp.erases_bind (Comp.erases_silent _) fun _ ↦ ?_)
    exact Comp.erases_bind (erases_handleCurrentSignal sig) fun _ ↦
      Comp.erases_bind (Comp.erases_silent _) fun _ ↦ Comp.erases_pure _

/-- Without its record it is the debugger loop. -/
theorem erases_debuggerLoop (env : Environment) (n : Nat) :
    Comp.Erases (debuggerLoopR env n) (debuggerLoop env n) := by
  induction n with
  | zero => exact Comp.erases_wait
  | succ n ih =>
    exact Comp.erases_bind (erases_debuggerTurn env) fun _ ↦
      Comp.erases_ite (Comp.erases_pure _) ih

/-! ## Where the indices are -/

/-- As long as the numbers are ordinary, every index is inside its array. -/
def Sound (log : List Note) : Prop := (∀ e ∈ log, e.Ordinary) → ∀ e ∈ log, e.Inside

/-- The record stays sound, however the computation stops. -/
def KeepsSound {α : Type} (x : KR α) : Prop :=
  Comp.Leads (fun p ↦ Sound p.2) x (fun p ↦ Sound p.2)

theorem sound_append {items log : List Note} (h : Sound log)
    (hitems : (∀ e ∈ items ++ log, e.Ordinary) → ∀ e ∈ items, e.Inside) :
    Sound (items ++ log) := by
  intro hordinary e he
  rcases List.mem_append.mp he with hnew | hold
  · exact hitems hordinary e hnew
  · exact h (fun e' he' ↦ hordinary e' (List.mem_append_right _ he')) e hold

section KeepsSound

variable {α β : Type}

theorem keepsSound_pure (a : α) : KeepsSound (Pure.pure a : KR α) := Comp.leads_pure a

theorem keepsSound_wait : KeepsSound (Comp.wait : KR α) := Comp.leads_wait

theorem keepsSound_fault : KeepsSound (Comp.fault : KR α) := Comp.leads_fault

theorem keepsSound_silent (x : K α) : KeepsSound (Comp.silent x) := Comp.leads_silent x

theorem keepsSound_bind {x : KR α} {f : α → KR β} (hx : KeepsSound x)
    (hf : ∀ a, KeepsSound (f a)) : KeepsSound (x >>= f) :=
  Comp.leads_bind hx hf fun _ h ↦ h

theorem keepsSound_silent_bind {x : K α} {f : α → KR β} (hf : ∀ a, KeepsSound (f a)) :
    KeepsSound (Comp.silent x >>= f) :=
  keepsSound_bind (keepsSound_silent x) hf

theorem keepsSound_record {items : List Note}
    (h : (∀ e ∈ items, e.Ordinary) → ∀ e ∈ items, e.Inside) :
    KeepsSound (Comp.record items) :=
  Comp.leads_record fun _ hlog ↦ sound_append hlog fun hordinary ↦
    h fun e he ↦ hordinary e (List.mem_append_left _ he)

theorem keepsSound_ite {c : Prop} [Decidable c] {x y : KR α} (hx : KeepsSound x)
    (hy : KeepsSound y) : KeepsSound (if c then x else y) :=
  Comp.leads_ite hx hy

end KeepsSound

theorem inside_handlerIndices : ∀ sig < nsig, ∀ e ∈ handlerIndices sig, e.Inside := by
  decide

theorem inside_pendingSignals : ∀ sig < nsig,
    (Note.index .pendingSignals (signalInt sig)).Inside := by
  decide

/-- Acting on a signal that is in range as long as the numbers are ordinary. -/
theorem sound_actOnSignal {sig : Nat} {w : World} {log : List Note} (h : Sound log)
    (hsig : (∀ e ∈ log, e.Ordinary) → sig < nsig) :
    Sound (actOnSignalR sig (w, log)).state.2 := by
  refine keepsSound_silent (actOnSignal sig) (w, handlerIndices sig ++ log) ?_
  refine sound_append h fun hordinary ↦ inside_handlerIndices sig (hsig fun e he ↦ ?_)
  exact hordinary e (List.mem_append_right _ he)

/-- Besides, the signal that a tracer can replace is in range. -/
def Replaceable (p : World × List Note) : Prop :=
  Sound p.2 ∧ ((∀ e ∈ p.2, e.Ordinary) → p.1.cur.ptrace.newSignal.toNat < nsig)

theorem replaceable_silent {α : Type} {x : K α}
    (hx : ∀ w, (x w).state.cur.ptrace.newSignal = w.cur.ptrace.newSignal) :
    Comp.Leads Replaceable (Comp.silent x) Replaceable := by
  intro p hp
  unfold Replaceable at hp ⊢
  rw [Comp.state_silent, hx]
  exact hp

theorem replaceable_notifyTracer : Comp.Leads Replaceable notifyTracerR Replaceable := by
  refine Comp.leads_bind (replaceable_silent fun _ ↦ rfl) (fun w ↦ ?_) fun _ h ↦ h
  have hslot : ∀ slot, Comp.Leads Replaceable (do
      Comp.record [.index .pendingSignals (signalInt SIGCHLD)]
      Comp.silent (Comp.modify (fun w ↦ w.modifyOther (Process.setPending SIGCHLD) slot))
      Comp.silent (log (.sent w.cur.ptrace.ownerPid SIGCHLD)) : KR Unit) Replaceable := by
    intro slot
    refine Comp.leads_bind (J := Replaceable) ?_ (fun _ ↦ ?_) fun _ h ↦ h
    · rintro ⟨w, log⟩ ⟨hsound, hsignal⟩
      refine ⟨sound_append hsound fun _ e he ↦ ?_, fun hordinary ↦ hsignal fun e he ↦ ?_⟩
      · rw [List.mem_singleton.mp he]
        exact inside_pendingSignals SIGCHLD (by decide)
      · exact hordinary e (List.mem_cons_of_mem _ he)
    · refine Comp.leads_bind (replaceable_silent fun w ↦ ?_) (fun _ ↦ ?_) fun _ h ↦ h
      · cases slot <;> rfl
      · exact replaceable_silent fun _ ↦ rfl
  cases w.findProcess w.cur.ptrace.ownerPid with
  | none => exact Comp.leads_fault
  | some slot =>
    cases slot with
    | cur => exact Comp.leads_fault
    | before i => exact hslot _
    | after i => exact hslot _

theorem replaceable_ptraceStop (inputs : List Input) :
    Comp.Leads Replaceable (ptraceStopR inputs) Replaceable := by
  induction inputs with
  | nil => exact Comp.leads_wait
  | cons i rest ih =>
    cases i with
    | event evt ctx mem => exact Comp.leads_wait
    | send sig =>
      exact Comp.leads_bind (replaceable_silent fun _ ↦ rfl) (fun _ ↦ ih) fun _ h ↦ h
    | resume request data =>
      rintro ⟨w, log⟩ ⟨hsound, hsignal⟩
      refine ⟨@sound_append [.resumed data] log hsound fun _ e he ↦ ?_, fun hordinary ↦ ?_⟩
      · rw [List.mem_singleton.mp he]
        trivial
      · have hdata : data.toNat < nsig := hordinary (.resumed data) List.mem_cons_self
        have hold := hsignal fun e he ↦ hordinary e (List.mem_cons_of_mem _ he)
        show (World.absorb w (.resume request data)).cur.ptrace.newSignal.toNat < nsig
        simp only [World.absorb]
        split
        · exact hdata
        · exact hold

/-- A signal in range, and whatever a tracer makes of it. -/
theorem keepsSound_handleSignal {sig : Nat} (h : sig < nsig) : KeepsSound (handleSignalR sig) := by
  refine keepsSound_silent_bind fun w ↦ keepsSound_ite ?_ fun p hp ↦ sound_actOnSignal hp fun _ ↦ h
  have hstart : Comp.Leads (fun p : World × List Note ↦ Sound p.2)
      (Comp.silent (modifyCur fun p ↦ { p with
        ptrace := { p.ptrace with newSignal := BitVec.ofNat 32 sig } })) Replaceable := by
    intro p hp
    refine ⟨hp, fun _ ↦ ?_⟩
    show (BitVec.ofNat 32 sig).toNat < nsig
    rw [BitVec.toNat_ofNat]
    exact Nat.lt_of_le_of_lt (Nat.mod_le _ _) h
  refine Comp.leads_bind hstart (fun _ ↦ ?_) fun _ hJ ↦ hJ.1
  refine Comp.leads_bind replaceable_notifyTracer (fun _ ↦ ?_) fun _ hJ ↦ hJ.1
  refine Comp.leads_bind (replaceable_silent fun _ ↦ rfl) (fun w ↦ ?_) fun _ hJ ↦ hJ.1
  refine Comp.leads_bind (replaceable_ptraceStop _) (fun _ ↦ ?_) fun _ hJ ↦ hJ.1
  rintro ⟨w, log⟩ ⟨hsound, hsignal⟩
  show Sound ((if _ then _ else actOnSignalR w.cur.ptrace.newSignal.toNat : KR Unit)
    (w, log)).state.2
  split
  · exact hsound
  · exact sound_actOnSignal hsound hsignal

theorem keepsSound_handleCurrentSignal {sig : Nat} (h : sig < nsig) :
    KeepsSound (handleCurrentSignalR sig) :=
  keepsSound_silent_bind fun _ ↦
    keepsSound_bind (keepsSound_handleSignal h) fun _ ↦ keepsSound_silent _

theorem keepsSound_sendSignal (slot : Slot) {sig : Nat} (h : sig < nsig) :
    KeepsSound (sendSignalR slot sig) := by
  refine keepsSound_silent_bind fun w ↦ ?_
  have hother : ∀ slot : Slot, KeepsSound (do
      Comp.record [.index .pendingSignals (signalInt sig)]
      Comp.silent (Comp.modify (fun w ↦ w.modifyOther (Process.setPending sig) slot))
      match w.at slot with
      | some p => Comp.silent (log (.sent p.pid sig))
      | none => return () : KR Unit) := by
    intro slot
    refine keepsSound_bind (keepsSound_record fun _ e he ↦ ?_) fun _ ↦ keepsSound_silent_bind ?_
    · rw [List.mem_singleton.mp he]
      exact inside_pendingSignals sig h
    · intro _
      cases w.at slot with
      | none => exact keepsSound_pure _
      | some p => exact keepsSound_silent _
  cases slot with
  | cur => exact keepsSound_silent_bind fun _ ↦ keepsSound_handleCurrentSignal h
  | before i => exact hother _
  | after i => exact hother _

theorem keepsSound_sendIf {c : Prop} [Decidable c] {α : Type} (slot : Slot) {sig : Nat}
    (h : sig < nsig) (a : α) : KeepsSound (do
      if c then sendSignalR slot sig
      return a) :=
  keepsSound_ite (keepsSound_bind (keepsSound_sendSignal slot h) fun _ ↦ keepsSound_pure a)
    (keepsSound_pure a)

theorem keepsSound_sendToSlots (select : Process → Bool) {sig : Nat} (h : sig < nsig)
    (slots : List Slot) : KeepsSound (sendToSlotsR select sig slots) := by
  induction slots with
  | nil => exact keepsSound_pure _
  | cons slot rest ih =>
    refine keepsSound_bind (keepsSound_silent_bind fun w ↦ ?_) fun _ ↦ ih
    cases w.at slot with
    | none => exact keepsSound_pure _
    | some p => exact keepsSound_ite (keepsSound_sendSignal slot h) (keepsSound_pure _)

/-- `sys_kill` checks its number itself. -/
theorem keepsSound_sysKill (ctx : Context) : KeepsSound (sysKillR ctx) := by
  unfold sysKillR
  dsimp only
  split
  · exact keepsSound_pure _
  · next hsig =>
    refine keepsSound_ite ?_ ?_
    · refine keepsSound_silent_bind fun w ↦ ?_
      cases w.findProcess ctx.ebx with
      | none => exact keepsSound_pure _
      | some slot => exact keepsSound_sendIf slot (Nat.lt_of_not_le hsig) _
    · exact keepsSound_silent_bind fun w ↦
        keepsSound_bind (keepsSound_sendToSlots _ (Nat.lt_of_not_le hsig) _)
          fun _ ↦ keepsSound_pure _

/-- What gets past the check of `sys_sigaction` is in range, but for 64. -/
theorem keepsSound_sysSigaction (ctx : Context) : KeepsSound (sysSigactionR ctx) := by
  refine keepsSound_bind (keepsSound_record fun hordinary ↦ ?_) fun _ ↦ keepsSound_silent _
  split at hordinary
  · next hbig =>
    rw [if_pos hbig]
    exact fun e he ↦ List.mem_singleton.mp he ▸ trivial
  · next hle =>
    have hne : ctx.ebx.toNat ≠ nsig := hordinary (.sigaction ctx.ebx) List.mem_cons_self
    rw [if_neg hle, List.forall_mem_cons, List.forall_mem_singleton]
    refine ⟨trivial, Int.natCast_nonneg _, ?_⟩
    show (ctx.ebx.toNat : Int) < (nsig : Nat)
    omega

theorem keepsSound_sysPtrace (env : Environment) (ctx : Context) :
    KeepsSound (sysPtraceR env ctx) := by
  refine keepsSound_silent_bind fun w ↦ ?_
  cases w.findProcess ctx.ecx with
  | none => exact keepsSound_fault
  | some slot =>
    refine keepsSound_ite ?_ (keepsSound_ite ?_ (keepsSound_ite ?_ (keepsSound_silent _)))
    · exact keepsSound_silent_bind fun _ ↦ keepsSound_pure _
    · exact keepsSound_silent_bind fun _ ↦ keepsSound_pure _
    · exact keepsSound_bind (keepsSound_sendSignal slot (by decide)) fun _ ↦ keepsSound_pure _

theorem keepsSound_sysExecve (env : Environment) (ctx : Context) :
    KeepsSound (sysExecveR env ctx) := by
  refine keepsSound_silent_bind fun err ↦ ?_
  cases err with
  | some err => exact keepsSound_pure _
  | none =>
    refine keepsSound_silent_bind fun _ ↦ keepsSound_silent_bind fun _ ↦ ?_
    refine keepsSound_silent_bind fun w ↦ keepsSound_ite ?_ (keepsSound_silent _)
    exact keepsSound_silent_bind fun _ ↦
      keepsSound_bind (keepsSound_sendSignal .cur (by decide)) fun _ ↦ keepsSound_silent _

theorem keepsSound_syscallHandler (env : Environment) (n : Nat) (ctx : Context) :
    KeepsSound (syscallHandlerR env n ctx) := by
  have hpipe : ∀ r, KeepsSound (raisePipeR r) := fun r ↦ keepsSound_sendIf .cur (by decide) r.1
  unfold syscallHandlerR
  split
  · exact keepsSound_silent_bind fun _ ↦ hpipe _
  · exact keepsSound_sysExecve env ctx
  · exact keepsSound_sysPtrace env ctx
  · exact keepsSound_sysKill ctx
  · exact keepsSound_sysSigaction ctx
  · exact keepsSound_silent_bind fun _ ↦ hpipe _
  · exact keepsSound_silent _

theorem keepsSound_stopForPtrace (seen : Context) (savedEax : DWORD) :
    KeepsSound (stopForPtraceR seen savedEax) :=
  keepsSound_silent_bind fun _ ↦
    keepsSound_ite (keepsSound_silent_bind fun _ ↦ keepsSound_sendSignal .cur (by decide))
      (keepsSound_pure _)

theorem keepsSound_handleInt80SysCall (env : Environment) (ctx : Context) :
    KeepsSound (handleInt80SysCallR env ctx) := by
  refine keepsSound_silent_bind fun _ ↦ keepsSound_ite ?_ ?_
  · refine keepsSound_bind (keepsSound_stopForPtrace _ _) fun _ ↦ ?_
    refine keepsSound_bind (keepsSound_syscallHandler env _ ctx) fun ctx' ↦ ?_
    refine keepsSound_bind (keepsSound_stopForPtrace _ _) fun _ ↦ ?_
    refine keepsSound_bind (keepsSound_pure ctx') fun ctx' ↦ ?_
    exact keepsSound_silent_bind fun _ ↦ keepsSound_pure _
  · refine keepsSound_silent_bind fun ctx' ↦ ?_
    exact keepsSound_silent_bind fun _ ↦ keepsSound_pure _

theorem keepsSound_handleExceptionCode (env : Environment) (code : ExceptionCode)
    (address : DWORD) (ctx : Context) :
    KeepsSound (handleExceptionCodeR env code address ctx) := by
  have hsend : ∀ sig < nsig, KeepsSound (do
      sendSignalR .cur sig
      return ctx) := fun sig h ↦
    keepsSound_bind (keepsSound_sendSignal .cur h) fun _ ↦ keepsSound_pure ctx
  refine keepsSound_silent_bind fun w ↦ ?_
  cases code with
  | singleStep => exact keepsSound_pure _
  | breakpoint => exact keepsSound_fault
  | intOverflow =>
    exact keepsSound_ite (keepsSound_handleInt80SysCall env _)
      (keepsSound_ite (keepsSound_handleInt80SysCall env _) (hsend SIGFPE (by decide)))
  | accessViolation =>
    exact keepsSound_ite (keepsSound_handleInt80SysCall env _)
      (keepsSound_ite (keepsSound_silent _) (hsend SIGSEGV (by decide)))
  | _ => exact hsend _ (by decide)

theorem keepsSound_handleDebugEvent (env : Environment) (evt : DebugEvent) :
    KeepsSound (handleDebugEventR env evt) := by
  have hresume : KeepsSound (do
      Comp.silent (resumeKeowProcess false)
      return false : KR Bool) :=
    keepsSound_silent_bind fun _ ↦ keepsSound_pure _
  cases evt with
  | exitProcess exitCode => exact keepsSound_silent_bind fun _ ↦ keepsSound_pure _
  | exception code address =>
    refine keepsSound_silent_bind fun w ↦ keepsSound_ite ?_ ?_
    · exact keepsSound_ite (keepsSound_silent_bind fun _ ↦ hresume) hresume
    · refine keepsSound_bind ?_ fun _ ↦ keepsSound_silent_bind fun _ ↦ keepsSound_pure _
      refine keepsSound_silent_bind fun ctx ↦ keepsSound_silent_bind fun _ ↦ ?_
      exact keepsSound_bind (keepsSound_handleExceptionCode env code address ctx) fun _ ↦
        keepsSound_silent _
  | _ => exact hresume

/-- One turn. -/
theorem keepsSound_debuggerTurn (env : Environment) : KeepsSound (debuggerTurnR env) := by
  refine keepsSound_silent_bind fun w ↦ keepsSound_silent_bind fun evt ↦ ?_
  refine keepsSound_silent_bind fun w ↦ ?_
  cases hpending : w.cur.lowestPending with
  | none => exact keepsSound_handleDebugEvent env evt
  | some sig =>
    have hsig : sig < nsig := List.mem_range.mp (List.mem_of_find?_eq_some hpending)
    refine keepsSound_bind (keepsSound_record fun _ e he ↦ ?_) fun _ ↦
      keepsSound_silent_bind fun _ ↦ ?_
    · rw [List.mem_singleton.mp he]
      exact inside_pendingSignals sig hsig
    · exact keepsSound_bind (keepsSound_handleCurrentSignal hsig) fun _ ↦
        keepsSound_silent_bind fun _ ↦ keepsSound_pure _

/-- Any number of turns. -/
theorem keepsSound_debuggerLoop (env : Environment) (n : Nat) :
    KeepsSound (debuggerLoopR env n) := by
  induction n with
  | zero => exact keepsSound_wait
  | succ n ih =>
    exact keepsSound_bind (keepsSound_debuggerTurn env) fun _ ↦
      keepsSound_ite (keepsSound_pure _) ih

/-- In every run whose numbers are ordinary each index is inside its array. Other numbers that
are out of range are refused by `kill` and `sigaction`, and `rt_sigaction` refuses all. -/
theorem signalNumbers_inside (env : Environment) (n : Nat) (w : World)
    (hordinary : ∀ e ∈ (debuggerLoopR env n (w, [])).state.2, e.Ordinary) :
    (debuggerLoopR env n (w, [])).forget = debuggerLoop env n w ∧
    (∀ e ∈ (debuggerLoopR env n (w, [])).state.2, e.Inside) ∧
    (∀ ctx w, nsig ≤ ctx.ecx.toNat →
      syscallHandler env 37 ctx w = .ok (ctx.withEax (-EINVAL)) w) ∧
    (∀ ctx w, nsig < ctx.ebx.toNat →
      syscallHandler env 67 ctx w = .ok (ctx.withEax (-EINVAL)) w) ∧
    ∀ ctx w, syscallHandler env 174 ctx w = .ok (ctx.withEax (-ENOSYS)) w := by
  refine ⟨erases_debuggerLoop env n w [], ?_, fun ctx w h ↦ ?_, fun ctx w h ↦ ?_, fun _ _ ↦ rfl⟩
  · refine keepsSound_debuggerLoop env n (w, []) ?_ hordinary
    exact fun _ e he ↦ absurd he List.not_mem_nil
  · show sysKill ctx w = _
    simp only [sysKill, if_pos h]
    rfl
  · show sysSigaction ctx w = _
    simp only [sysSigaction, if_pos h]
    rfl

/-- A system call by `int 80h` at address 0. -/
def callAtZero (eax ebx ecx : DWORD) : Input :=
  .event (.exception .accessViolation 0#32)
    { Context.zero with eax := eax, ebx := ebx, ecx := ecx }
    (Mem.write (fun _ ↦ 0) 0#32 [0xCD, 0x80])

/-- The process asks for the action of `SIGCHLD` and sends it to itself. -/
theorem signalNumbers_inside_sigchld :
    (∀ e ∈ (debuggerLoopR idleEnvironment 2 (loneWorld [callAtZero 67#32 17#32 0#32,
        callAtZero 37#32 2#32 17#32], [])).state.2, e.Inside) ∧
      Note.index .signalAction 17 ∈ (debuggerLoopR idleEnvironment 2 (loneWorld
        [callAtZero 67#32 17#32 0#32, callAtZero 37#32 2#32 17#32], [])).state.2 :=
  ⟨(signalNumbers_inside idleEnvironment 2 _ (by decide +kernel)).2.1, by decide +kernel⟩

/-- `rt_sigaction` with number 100 does not answer `-EINVAL`. -/
theorem rtSigaction_100 :
    let ctx := { Context.zero with eax := 174#32, ebx := 100#32 }
    syscallHandler idleEnvironment 174 ctx (loneWorld []) =
        .ok (ctx.withEax (-ENOSYS)) (loneWorld []) ∧
      (ctx.withEax (-ENOSYS)).eax ≠ -EINVAL :=
  ⟨rfl, by decide⟩

end Keow.Signal
