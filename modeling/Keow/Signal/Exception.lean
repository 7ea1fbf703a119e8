import Keow.Signal.Deliver

/-!
# Exceptions and system calls

`Process::HandleException` (`Process.cpp:623–768`), `SysCalls::HandleInt80SysCall`
(`SysCalls.cpp:402–466`) and the system calls that touch signals: `exit`, `write`, `writev`,
`kill`, `sigaction`, `sigprocmask`, `sigreturn`, `ptrace` and `execve`. The other system calls
and the parts of `execve` and `ptrace` that deal with files and memory are parameters: they
never call `SendSignal` on `P` and never write its signal state, so all they do to it is
receive what other threads send meanwhile. `ConvertProcessToKeow` may take over the signal state
of the parent, but not its place among the processes.
-/

namespace Keow.Signal

open Keow.Base Keow.Kernel

/-! ## What is left to parameters -/

/-- The parts of the kernel that are not modelled. -/
structure Environment where
  /-- `MemoryHelper::CalculateLDTEntryForThread` for the current thread. -/
  ldtEntryForThread : World → DWORD → DWORD
  /-- The system calls without a definition below. -/
  otherSyscall : Nat → Context → K Context
  /-- `PTRACE_PEEKUSR`, `PTRACE_PEEKTEXT`, `PTRACE_PEEKDATA` and unknown requests. -/
  ptracePeek : Context → K Context
  /-- `CanLoadImage` for `execve`: the Win32 error that refuses the image, if any. -/
  canLoadImage : Context → K (Option DWORD)
  /-- `FreeResourcesBeforeExec` up to the reset of signals. -/
  freeResources : K Unit
  /-- `LoadImage` and `StartNewImageRunning`, with the reset of the stack before them. -/
  startImage : Context → K Unit
  /-- `ConvertProcessToKeow`. -/
  convertProcessToKeow : K Unit
  within_otherSyscall : ∀ n ctx, Comp.Within receiving (otherSyscall n ctx)
  within_ptracePeek : ∀ ctx, Comp.Within receiving (ptracePeek ctx)
  within_canLoadImage : ∀ ctx, Comp.Within receiving (canLoadImage ctx)
  within_freeResources : Comp.Within receiving freeResources
  within_startImage : ∀ ctx, Comp.Within receiving (startImage ctx)
  within_convertProcessToKeow : Comp.Within leaving convertProcessToKeow

/-! ## System calls -/

/-- `SysCalls::sys_exit`. -/
def sysExit (ctx : Context) : K Context := do
  sysCallDllExit ctx.ebx
  return ctx

/-- `IOHandler::Write`: whether it worked, and the count it reports. -/
def ioHandlerWrite (buf len : DWORD) : IOHandler → K (Bool × DWORD)
  | .remote handle => do
      let written ← sysCallDllWriteFile handle buf len
      return (written != 0#32, written)
  | .swallow => return (true, len)
  | .readOnly => return (false, 0#32)

/-- Errors after which `write` raises `SIGPIPE`. -/
def isBrokenPipe (err : DWORD) : Bool :=
  err == ERROR_BROKEN_PIPE || err == ERROR_NO_DATA || err == ERROR_PIPE_NOT_CONNECTED

/-- After a failed write: `Eax`, and whether the pipe is broken. The error is fetched twice. -/
def writeError : K (DWORD × Bool) := do
  let err ← sysCallDllGetLastError
  let again ← sysCallDllGetLastError
  return (-win32ErrToUnixError again, isBrokenPipe err)

/-- The open file of a descriptor, `sys_io.cpp:46–58`. The bound lets one index past the end
of the table through. -/
def openFile (fd : DWORD) : K (Option IOHandler) := do
  let w ← Comp.get
  if fd.toInt < 0 ∨ fd.toInt > 1024 then return none
  else if fd.toNat = 1024 then Comp.fault
  else return (w.cur.openFiles fd.toNat).map OpenFile.handler

/-- `sys_write` up to its signal: the context, and whether it goes on to raise `SIGPIPE`. -/
def writeAttempt (ctx : Context) : K (Context × Bool) := do
  match ← openFile ctx.ebx with
  | none => return (ctx.withEax (-EBADF), false)
  | some ioh =>
      let (done, written) ← ioHandlerWrite ctx.ecx ctx.edx ioh
      if done then return (ctx.withEax written, false)
      else
        let (eax, broken) ← writeError
        return (ctx.withEax eax, broken)

/-- The loop of `sys_writev` over the buffers that are left. -/
def writevLoop (ioh : IOHandler) (ctx : Context) : Nat → DWORD → DWORD → K (Context × Bool)
  | 0, _, total => return (ctx.withEax total, false)
  | n + 1, pV, total => do
      let base ← readMemory pV 4
      let len ← readMemory (pV + 4#32) 4
      let (done, written) ←
        ioHandlerWrite ((Codec.word 4).decode base) ((Codec.word 4).decode len) ioh
      if done then writevLoop ioh ctx n (pV + 8#32) (total + written)
      else
        let (eax, broken) ← writeError
        return (ctx.withEax eax, broken)

/-- `sys_writev` up to its signal. -/
def writevAttempt (ctx : Context) : K (Context × Bool) := do
  match ← openFile ctx.ebx with
  | none => return (ctx.withEax (-EBADF), false)
  | some ioh => writevLoop ioh ctx ctx.edx.toInt.toNat ctx.ecx 0#32

/-- Raise `SIGPIPE` on `P` if the attempt asks for it. -/
def raisePipe (r : Context × Bool) : K Context := do
  if r.2 then sendSignal .cur SIGPIPE
  return r.1

/-- `SysCalls::sys_write`, `sys_io.cpp:41–73`. -/
def sysWrite (ctx : Context) : K Context := do raisePipe (← writeAttempt ctx)

/-- `SysCalls::sys_writev`, `sys_io.cpp:79–127`. -/
def sysWritev (ctx : Context) : K Context := do raisePipe (← writevAttempt ctx)

/-- Send to the process at a place if it is selected. Signal 0 is never sent. -/
def sendIfSelected (select : Process → Bool) (sig : Nat) (slot : Slot) : K Unit := do
  let w ← Comp.get
  match w.at slot with
  | some p => if select p ∧ sig ≠ 0 then sendSignal slot sig
  | none => return ()

/-- Send to the selected processes among the given places, in order. -/
def sendToSlots (select : Process → Bool) (sig : Nat) : List Slot → K Unit
  | [] => return ()
  | slot :: rest => do
      sendIfSelected select sig slot
      sendToSlots select sig rest

/-- Which processes `kill` selects when its target is not a single pid, `sys_sys.cpp:291–328`. -/
def killSelects (self : Process) (pid : DWORD) (p : Process) : Bool :=
  if pid = -1#32 then p.pid != 1#32
  else p.pid != 1#32 && p.processGroupPID == (if pid = 0#32 then self.pid else -pid)

/-- `SysCalls::sys_kill`, `sys_sys.cpp:264–331`. -/
def sysKill (ctx : Context) : K Context := do
  let pid := ctx.ebx
  let sig := ctx.ecx.toNat
  if nsig ≤ sig then return ctx.withEax (-EINVAL)
  else if 0 < pid.toInt then
    let w ← Comp.get
    match w.findProcess pid with
    | none => return ctx.withEax (-ESRCH)
    | some slot =>
        if sig ≠ 0 then sendSignal slot sig
        return ctx.withEax 0#32
  else
    let w ← Comp.get
    sendToSlots (killSelects w.cur pid) sig w.slots
    return ctx.withEax 0#32

/-- `SysCalls::sys_sigaction`, `sys_process.cpp:49–88`. Only the low word of the mask is
exchanged; the bound lets one index past the end of the array through. -/
def sysSigaction (ctx : Context) : K Context := do
  let signum := ctx.ebx.toNat
  if nsig < signum then return ctx.withEax (-EINVAL)
  else if signum = nsig then Comp.fault
  else
    let w ← Comp.get
    let old := w.cur.signalAction signum
    if ctx.edx ≠ 0#32 then
      writeMemory ctx.edx ((Codec.word 4).encode old.saHandler ++
        (Codec.word 4).encode (old.saMask.setWidth 32) ++
        (Codec.word 4).encode old.saFlags ++ (Codec.word 4).encode old.saRestorer)
    if ctx.ecx ≠ 0#32 then
      let bytes ← readMemory ctx.ecx 16
      let field (i : Nat) : DWORD := (Codec.word 4).decode (bytes.drop (4 * i))
      modifyCur (fun p ↦ { p with signalAction := fun s ↦ if s = signum then
        { saHandler := field 0
          saFlags := field 2
          saRestorer := field 3
          saMask := (old.saMask >>> 32).setWidth 32 ++ field 1 } else p.signalAction s })
    return ctx.withEax 0#32

/-- One turn of the switch of `sigprocmask`: the new word, `none` for an unknown request. -/
def nextWord (how set mask : DWORD) : Option DWORD :=
  if how = SIG_BLOCK then some (mask ||| set)
  else if how = SIG_UNBLOCK then some (mask &&& ~~~set)
  else if how = SIG_SETMASK then some set
  else none

/-- The loop over the words that are left, `sys_process.cpp:116–137`: Eax and the mask. -/
def procmaskLoop (how : DWORD) (set : Nat → DWORD) :
    List Nat → DWORD → (Nat → DWORD) → DWORD × (Nat → DWORD)
  | [], eax, mask => (eax, mask)
  | i :: is, _, mask =>
      match nextWord how (set i) (mask i) with
      | none => (-EINVAL, mask)
      | some word => procmaskLoop how set is 0#32 fun j ↦ if j = i then word else mask j

/-- `SysCalls::sys_sigprocmask`, `sys_process.cpp:95–137`. A request for the old mask returns
before the new one is looked at. -/
def sysSigprocmask (ctx : Context) : K Context := do
  let w ← Comp.get
  if ctx.edx ≠ 0#32 then
    writeMemory ctx.edx ((Codec.word 8).encode w.cur.signalMask)
    return ctx.withEax 0#32
  else if ctx.ecx ≠ 0#32 then
    let bytes ← readMemory ctx.ecx 8
    let r := procmaskLoop ctx.ebx (sigWord ((Codec.word 8).decode bytes)) (List.range nsigWords)
      ctx.eax (sigWord w.cur.signalMask)
    modifyCur (fun p ↦ { p with signalMask := ofSigWords r.2 })
    return ctx.withEax r.1
  else return ctx

/-- `SysCalls::sys_rt_sigreturn`, `sys_rtsig.cpp:55–70`: the whole context comes from the saved
state that `Ebx` points to. -/
def sysRtSigreturn (ctx : Context) : K Context := do
  let bytes ← readMemory ctx.ebx SignalSaveState.codec.size
  let state := SignalSaveState.codec.decode bytes
  modifyCur (fun p ↦ { p with signalMask := state.signalMask })
  return state.ctx

/-- `SysCalls::sys_sigreturn`. -/
def sysSigreturn (ctx : Context) : K Context := sysRtSigreturn ctx

/-- `SysCalls::sys_ptrace`, `sys_sys.cpp:340–481`. The traced process is looked up first and
dereferenced for every request. -/
def sysPtrace (env : Environment) (ctx : Context) : K Context := do
  let request := ctx.ebx
  let data := ctx.esi
  let w ← Comp.get
  match w.findProcess ctx.ecx with
  | none => Comp.fault
  | some slot =>
    if request = PTRACE_TRACEME then
      modifyCur (fun p ↦ { p with
        ptrace := { p.ptrace with ownerPid := p.parentPid, request := PTRACE_TRACEME } })
      return ctx.withEax 0#32
    else if request = PTRACE_SYSCALL ∨ request = PTRACE_CONT then
      Comp.modify (fun w ↦ w.modifySlot (fun p ↦ { p with ptrace :=
        { p.ptrace with
          request := if request = PTRACE_SYSCALL then PTRACE_SYSCALL else 0#32
          newSignal := if data ≠ 0#32 ∧ data ≠ BitVec.ofNat 32 SIGSTOP then data
            else p.ptrace.newSignal } }) slot)
      return ctx.withEax 0#32
    else if request = PTRACE_KILL then
      sendSignal slot SIGKILL
      return ctx.withEax 0#32
    else env.ptracePeek ctx

/-- `Process::InitSignalHandling` on `P`. -/
def initSignalHandling : K Unit := do
  modifyCur Process.initSignalHandling
  log .signalsReset

/-- `SysCalls::sys_execve` up to the reset of signals: the Win32 error that refuses the image,
if any. -/
def untilReset (env : Environment) (ctx : Context) : K (Option DWORD) := do
  match ← env.canLoadImage ctx with
  | some err => return some err
  | none =>
      env.freeResources
      return none

/-- `SysCalls::sys_execve` as far as signals go, `sys_process.cpp:213–268`. -/
def sysExecve (env : Environment) (ctx : Context) : K Context := do
  match ← untilReset env ctx with
  | some err => return ctx.withEax (-win32ErrToUnixError err)
  | none =>
      initSignalHandling
      env.startImage ctx
      let w ← Comp.get
      if w.cur.ptrace.ownerPid ≠ 0#32 then
        modifyCur (fun p ↦ { p with ptrace := { p.ptrace with
          ctx := ctx.withEax 0#32, savedEax := 11#32, ctxValid := true } })
        sendSignal .cur SIGTRAP
      getThreadContext

/-- The real-time signal calls that `sys_rtsig.cpp:38–43` refuses, and `Unhandled`. -/
def unhandled (ctx : Context) : K Context := return ctx.withEax (-ENOSYS)

/-- The handler of a system call number below `NR_syscalls`. -/
def syscallHandler (env : Environment) (n : Nat) (ctx : Context) : K Context :=
  match n with
  | 1 => sysExit ctx
  | 4 => sysWrite ctx
  | 11 => sysExecve env ctx
  | 26 => sysPtrace env ctx
  | 37 => sysKill ctx
  | 67 => sysSigaction ctx
  | 119 => sysSigreturn ctx
  | 126 => sysSigprocmask ctx
  | 146 => sysWritev ctx
  | 173 => sysRtSigreturn ctx
  | 174 | 175 | 176 | 177 | 178 | 179 => unhandled ctx
  | n => env.otherSyscall n ctx

/-- Stop for a tracer that follows system calls, `SysCalls.cpp:420–432,442–454`. -/
def stopForPtrace (seen : Context) (savedEax : DWORD) : K Unit := do
  let w ← Comp.get
  if w.cur.ptrace.ownerPid ≠ 0#32 ∧ w.cur.ptrace.request = PTRACE_SYSCALL then
    modifyCur (fun p ↦ { p with ptrace := { p.ptrace with ctx := seen, savedEax := savedEax } })
    sendSignal .cur SIGTRAP

/-- `SysCalls::HandleInt80SysCall`. -/
def handleInt80SysCall (env : Environment) (ctx : Context) : K Context := do
  modifyCur (fun p ↦ { p with ptrace := { p.ptrace with ctx := ctx, ctxValid := true } })
  let ctx' ←
    if ctx.eax.toNat < NR_syscalls then do
      stopForPtrace (ctx.withEax (-ENOSYS)) ctx.eax
      let ctx' ← syscallHandler env ctx.eax.toNat ctx
      stopForPtrace ctx' ctx.eax
      Pure.pure ctx'
    else unhandled ctx
  modifyCur (fun p ↦ { p with ptrace := { p.ptrace with ctxValid := false } })
  return ctx'

/-! ## Exceptions -/

/-- `int 80h`. -/
def INT80 : BitVec 16 := 0x80CD#16

/-- `int 4`, which replaces `int 80h` in intercepted code. -/
def INT4 : BitVec 16 := 0x04CD#16

/-- `mov gs, eax`. -/
def MOV_GS_EAX : BitVec 16 := 0xE88E#16

/-- `MemoryHelper::HandlePossibleLDTException` on the trapped `mov gs, eax`,
`MemoryHelper.cpp:655–662`. -/
def loadGs (env : Environment) (ctx : Context) : K Context := do
  let w ← Comp.get
  let selector := env.ldtEntryForThread w (ctx.eax >>> 3) <<< 3 ||| 7#32
  Comp.modify (fun w ↦ { w with segGs := selector })
  return { ctx with eax := selector, segGs := selector, eip := ctx.eip + 2#32 }

/-- The switch of `HandleException` over the exception code: the context it is left with. -/
def handleExceptionCode (env : Environment) (code : ExceptionCode) (address : DWORD)
    (ctx : Context) : K Context := do
  let w ← Comp.get
  match code with
  | .singleStep => return { ctx with eFlags := ctx.eFlags ||| 0x100#32 }
  | .intOverflow =>
      if w.instruction (ctx.eip - 2#32) = INT4 then handleInt80SysCall env ctx
      else if w.instruction (ctx.eip - 1#32) = INT4 then
        handleInt80SysCall env (ctx.withEip (ctx.eip + 1#32))
      else
        sendSignal .cur SIGFPE
        return ctx
  | .accessViolation =>
      if w.instruction address = INT80 ∨ w.instruction address = INT4 then
        handleInt80SysCall env (ctx.withEip (ctx.eip + 2#32))
      else if w.instruction address = MOV_GS_EAX then loadGs env ctx
      else
        sendSignal .cur SIGSEGV
        return ctx
  | .breakpoint => Comp.fault -- DebugBreak() in the kernel itself
  | code =>
      match code.faultSignal with
      | some sig =>
          sendSignal .cur sig
          return ctx
      | none => return ctx

/-- `Process::HandleException`: the context is copied at the start and written back at the
end, whatever happened to the thread in between. -/
def handleException (env : Environment) (code : ExceptionCode) (address : DWORD) : K Unit := do
  let ctx ← getThreadContext
  Comp.modify (fun w ↦ { w with segGs := ctx.segGs })
  let ctx' ← handleExceptionCode env code address ctx
  setThreadContext ctx'

/-! ## Calls that only receive signals -/

theorem within_ioHandlerWrite (buf len : DWORD) (ioh : IOHandler) :
    Comp.Within receiving (ioHandlerWrite buf len ioh) := by
  cases ioh with
  | remote handle =>
    exact Comp.within_bind (within_sysCallDllWriteFile _ _ _) (fun _ ↦ Comp.within_pure _)
  | swallow => exact Comp.within_pure _
  | readOnly => exact Comp.within_pure _

theorem within_writeError : Comp.Within receiving writeError :=
  Comp.within_bind within_sysCallDllGetLastError (fun _ ↦
    Comp.within_bind within_sysCallDllGetLastError (fun _ ↦ Comp.within_pure _))

theorem within_openFile (fd : DWORD) : Comp.Within receiving (openFile fd) :=
  Comp.within_bind Comp.within_get (fun _ ↦
    Comp.within_ite (Comp.within_pure _)
      (Comp.within_ite Comp.within_fault (Comp.within_pure _)))

theorem within_writeAttempt (ctx : Context) : Comp.Within receiving (writeAttempt ctx) := by
  refine Comp.within_bind (within_openFile _) (fun f ↦ ?_)
  cases f with
  | none => exact Comp.within_pure _
  | some ioh =>
    refine Comp.within_bind (within_ioHandlerWrite _ _ _) (fun r ↦ ?_)
    exact Comp.within_ite (Comp.within_pure _)
      (Comp.within_bind within_writeError (fun _ ↦ Comp.within_pure _))

theorem within_writevLoop (ioh : IOHandler) (ctx : Context) (n : Nat) (pV total : DWORD) :
    Comp.Within receiving (writevLoop ioh ctx n pV total) := by
  induction n generalizing pV total with
  | zero => exact Comp.within_pure _
  | succ n ih =>
    refine Comp.within_bind (within_readMemory _ _) (fun _ ↦ ?_)
    refine Comp.within_bind (within_readMemory _ _) (fun _ ↦ ?_)
    refine Comp.within_bind (within_ioHandlerWrite _ _ _) (fun r ↦ ?_)
    exact Comp.within_ite (ih _ _)
      (Comp.within_bind within_writeError (fun _ ↦ Comp.within_pure _))

theorem within_writevAttempt (ctx : Context) : Comp.Within receiving (writevAttempt ctx) := by
  refine Comp.within_bind (within_openFile _) (fun f ↦ ?_)
  cases f with
  | none => exact Comp.within_pure _
  | some ioh => exact within_writevLoop ioh ctx _ _ _

theorem within_untilReset (env : Environment) (ctx : Context) :
    Comp.Within receiving (untilReset env ctx) := by
  refine Comp.within_bind (env.within_canLoadImage ctx) (fun err ↦ ?_)
  cases err with
  | some err => exact Comp.within_pure _
  | none => exact Comp.within_bind env.within_freeResources (fun _ ↦ Comp.within_pure _)

end Keow.Signal
