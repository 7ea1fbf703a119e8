import Keow.Kernel.Process

/-!
# Injected calls and signal delivery

`Process::InjectFunctionCall` (`Process.cpp:1822–1972`, the release build) and
`Process::HandleSignal` with `Process::SendSignal` (`Process.cpp:1487–1812`). Structures are
packed, as the `pragma` of `linux_types.h` leaves them, so a signal frame is 888 bytes.
-/

namespace Keow.Signal

open Keow.Base Keow.Kernel

/-! ## Injection -/

/-- The wait of `InjectFunctionCall` for the break at the end of the injected function,
`Process.cpp:1892–1956`. An exit of the process ends the kernel thread here and now. -/
def injectLoop : List Input → K Unit
  | [] => Comp.wait
  | i :: rest => do
      Comp.modify (fun w ↦ { w.absorb i with inputs := rest })
      match i with
      | .event (.exception .breakpoint _) _ _ => return ()
      | .event (.exception .singleStep _) _ _ =>
          -- SetSingleStep(true, &ctx) and SetThreadContext with CONTEXT_FULL
          Comp.modify (fun w ↦ { w with threadCtx :=
            { w.threadCtx with eFlags := w.threadCtx.eFlags ||| 0x100#32 } })
          injectLoop rest
      | .event (.exitProcess exitCode) _ _ =>
          Comp.modify (fun w ↦ w.recordExit exitCode)
          Comp.exit
      | _ => injectLoop rest

/-- `Process::InjectFunctionCall`: run a function of the stub on the original Win32 stack and
return its `Eax`. The thread is left where the function broke, except during setup. -/
def injectFunctionCall (func : DWORD) (stackData : List UInt8) : K DWORD := do
  let w ← Comp.get
  let oldCtx := { w.threadCtx with contextFlags := Context.CONTEXT_FULL }
  let injectCtx := { w.cur.baseWin32Ctx with
    eip := func
    esp := w.cur.baseWin32Ctx.esp - 4#32 - BitVec.ofNat 32 stackData.length }
  setThreadContext injectCtx
  writeMemory injectCtx.esp (natBytes 4 0)
  writeMemory (injectCtx.esp + 4#32) stackData
  let w ← Comp.get
  injectLoop w.inputs
  let w ← Comp.get
  let ret := w.threadCtx.eax
  if w.cur.inWin32Setup then setThreadContext oldCtx
  return ret

/-- `SysCallDll::exit`. -/
def sysCallDllExit (exitcode : DWORD) : K Unit := do
  let w ← Comp.get
  let _ ← injectFunctionCall w.cur.sysCallAddr.exit ((Codec.word 4).encode exitcode)
  return ()

/-- `SysCallDll::WriteFile`. -/
def sysCallDllWriteFile (h buf len : DWORD) : K DWORD := do
  let w ← Comp.get
  injectFunctionCall w.cur.sysCallAddr.writeFile
    ((Codec.word 4).encode h ++ (Codec.word 4).encode buf ++ (Codec.word 4).encode len)

/-- `SysCallDll::GetLastError`. -/
def sysCallDllGetLastError : K DWORD := do
  let w ← Comp.get
  injectFunctionCall w.cur.sysCallAddr.getLastError []

/-- The wait takes the inputs one by one. -/
theorem consumes_injectLoop (w : World) :
    Comp.Post (injectLoop w.inputs) w (fun _ w' ↦ Consumes w w') (ConsumesExit w) := by
  obtain ⟨inputs, hinputs⟩ : ∃ inputs, w.inputs = inputs := ⟨_, rfl⟩
  rw [hinputs]
  induction inputs generalizing w with
  | nil => trivial
  | cons i rest ih =>
    have hfirst : Consumes w { w.absorb i with inputs := rest } :=
      ⟨[i], hinputs, receives_absorb w i rest⟩
    -- behind a step of the loop, with the thread as that has left it
    have hrest : ∀ ctx, Comp.Post (injectLoop rest)
        { w.absorb i with inputs := rest, threadCtx := ctx } (fun _ w' ↦ Consumes w w')
        (ConsumesExit w) := by
      intro ctx
      have hnow := consumes_trans hfirst (consumes_thread _ ctx (w.absorb i).mem)
      exact Comp.post_mono (ih _ rfl) (fun _ _ h ↦ consumes_trans hnow h)
        fun _ h ↦ consuming.trans_exit hnow h
    refine (Comp.post_bind _ _).mpr (Comp.post_modify _ _ |>.mpr ?_)
    split
    · exact hfirst
    · rw [Comp.post_bind, Comp.post_modify]
      exact hrest _
    · rw [Comp.post_bind, Comp.post_modify]
      exact ⟨_, _, hfirst, rfl⟩
    · exact hrest _

theorem consumes_injectFunctionCall (func : DWORD) (stackData : List UInt8) :
    Comp.Within consuming (injectFunctionCall func stackData) := by
  have hthread : ∀ ctx, Comp.Within consuming (setThreadContext ctx) :=
    fun ctx ↦ Comp.within_modify fun w ↦ consumes_thread w _ w.mem
  have hwrite : ∀ addr bytes, Comp.Within consuming (writeMemory addr bytes) :=
    fun addr bytes ↦ Comp.within_modify fun w ↦ consumes_thread w w.threadCtx _
  refine Comp.within_bind Comp.within_get fun w ↦ ?_
  refine Comp.within_bind (hthread _) fun _ ↦ ?_
  refine Comp.within_bind (hwrite _ _) fun _ ↦ ?_
  refine Comp.within_bind (hwrite _ _) fun _ ↦ ?_
  intro w'
  rw [Comp.post_bind, Comp.post_get, Comp.post_bind]
  refine Comp.post_mono (consumes_injectLoop w') (fun _ w'' h ↦ ?_) fun _ h ↦ h
  refine Comp.post_mono (Comp.within_bind (E := consuming) Comp.within_get (fun w ↦ ?_) w'')
    (fun _ _ h' ↦ consumes_trans h h') fun _ h' ↦ consuming.trans_exit h h'
  exact Comp.within_ite
    (Comp.within_bind (hthread _) fun _ ↦ Comp.within_pure _) (Comp.within_pure _)

/-- An injected call changes the user thread and may receive signals, nothing more. -/
theorem within_injectFunctionCall (func : DWORD) (stackData : List UInt8) :
    Comp.Within receiving (injectFunctionCall func stackData) := by
  refine Comp.within_mono (consumes_injectFunctionCall func stackData) received_of_consumes ?_
  rintro w w' ⟨exitCode, w₁, hconsumes, rfl⟩
  exact ⟨exitCode, w₁, received_of_consumes hconsumes, rfl⟩

theorem within_sysCallDllExit (exitcode : DWORD) :
    Comp.Within receiving (sysCallDllExit exitcode) :=
  Comp.within_bind Comp.within_get (fun _ ↦
    Comp.within_bind (within_injectFunctionCall _ _) (fun _ ↦ Comp.within_pure _))

theorem within_sysCallDllWriteFile (h buf len : DWORD) :
    Comp.Within receiving (sysCallDllWriteFile h buf len) :=
  Comp.within_bind Comp.within_get (fun _ ↦ within_injectFunctionCall _ _)

theorem within_sysCallDllGetLastError : Comp.Within receiving sysCallDllGetLastError :=
  Comp.within_bind Comp.within_get (fun _ ↦ within_injectFunctionCall _ _)

/-! ## The signal frame -/

/-- `Process::SignalSaveState`, `Process.h:220–223`. -/
structure SignalSaveState where
  ctx : Context
  signalMask : BitVec 64

/-- The layout of a saved state. -/
def SignalSaveState.codec : Codec SignalSaveState :=
  (Context.codec.pair (Codec.word 8)).imap (fun p ↦ ⟨p.1, p.2⟩) (fun s ↦ (s.ctx, s.signalMask))
    (fun _ ↦ rfl)

/-- The restorer code, `Process.cpp:1721–1737`:
`mov ebx, contextAddr; mov eax, __NR_sigreturn; int 80` and then the sequence gdb looks for. -/
def asmCode (contextAddr : DWORD) : List UInt8 :=
  [0xbb] ++ (Codec.word 4).encode contextAddr ++
  [0xb8] ++ natBytes 4 NR_sigreturn ++
  [0xcd, 0x80, 0x58, 0xb8] ++ natBytes 4 NR_sigreturn ++ [0xcd, 0x80]

/-- `sizeof(stack)`. -/
def frameSize : Nat := 888

/-- `offset_of(stack, stack.SigInfo)`. -/
def offsetSigInfo : DWORD := 16#32

/-- `offset_of(stack, stack.SavedState.ctx)`. -/
def offsetSavedState : DWORD := 144#32

/-- `offset_of(stack, stack.Restorer)`. -/
def offsetRestorer : DWORD := 868#32

/-- The bytes of the frame at `newEsp`, `Process.cpp:1739–1790`: return address, three
arguments, `siginfo`, the saved state and the restorer. -/
def frameBytes (newEsp : DWORD) (sig : Nat) (flags : DWORD) (saved : SignalSaveState) :
    List UInt8 :=
  let siginfo := flags &&& SA_SIGINFO ≠ 0#32
  (Codec.word 4).encode (newEsp + offsetRestorer) ++
  natBytes 4 sig ++
  (Codec.word 4).encode (if siginfo then newEsp + offsetSigInfo else 0#32) ++
  natBytes 4 0 ++
  (natBytes 4 (if siginfo then sig else 0) ++ List.replicate 124 0) ++
  SignalSaveState.codec.encode saved ++
  asmCode (newEsp + offsetSavedState)

/-! ## Delivery -/

/-- The wait of a traced process for its tracer, `Process.cpp:1525–1527`. The user thread is
stopped meanwhile, so no debug event can come. -/
def ptraceStop : List Input → K Unit
  | [] => Comp.wait
  | .event _ _ _ :: _ => Comp.wait
  | .send sig :: rest => do
      Comp.modify (fun w ↦ { w.absorb (.send sig) with inputs := rest })
      ptraceStop rest
  | .resume request data :: rest =>
      Comp.modify (fun w ↦ { w.absorb (.resume request data) with inputs := rest })

/-- `SendSignal(SIGCHLD)` on the tracer. A missing tracer is a null dereference and a process
that traces itself recurses without end. -/
def notifyTracer : K Unit := do
  let w ← Comp.get
  match w.findProcess w.cur.ptrace.ownerPid with
  | none => Comp.fault
  | some .cur => Comp.fault
  | some slot =>
      Comp.modify (fun w ↦ w.modifyOther (Process.setPending SIGCHLD) slot)
      log (.sent w.cur.ptrace.ownerPid SIGCHLD)

/-- Suspend every thread. -/
def suspendThreads : K Unit :=
  Comp.modify (fun w ↦ { w with suspendCount := w.suspendCount + 1 })

/-- Resume every thread. -/
def resumeThreads : K Unit :=
  Comp.modify (fun w ↦ { w with suspendCount := w.suspendCount - 1 })

/-- The process dies of the signal. -/
def killBy (sig : Nat) : K Unit := do
  modifyCur (fun p ↦ { p with killedBySig := sig })
  sysCallDllExit (-BitVec.ofNat 32 sig)

/-- What `SIG_DFL` means for a signal. -/
inductive DefaultAction where
  | ignore
  | resume
  | stop
  | terminate
  | coreDump
deriving DecidableEq

/-- The cases of `Process.cpp:1592–1664`. `SIGTRAP` falls through to a core dump unless the
process is traced. -/
def defaultAction (traced : Bool) (sig : Nat) : DefaultAction :=
  if sig = SIGCHLD ∨ sig = SIGURG then .ignore
  else if sig = SIGCONT then .resume
  else if sig = SIGSTOP ∨ sig = SIGTSTP ∨ sig = SIGTTIN ∨ sig = SIGTTOU then .stop
  else if sig = SIGTRAP ∧ traced then .ignore
  else if sig = SIGTRAP ∨ sig = SIGQUIT ∨ sig = SIGILL ∨ sig = SIGABRT ∨ sig = SIGFPE ∨
    sig = SIGSEGV ∨ sig = SIGBUS ∨ sig = SIGSYS then .coreDump
  else .terminate

/-- The default action of a signal. -/
def runDefaultAction (sig : Nat) : K Unit := do
  let w ← Comp.get
  match defaultAction (w.cur.ptrace.ownerPid != 0#32) sig with
  | .ignore => return ()
  | .resume => resumeThreads
  | .stop => suspendThreads
  | .terminate => killBy sig
  | .coreDump => do
      modifyCur (fun p ↦ { p with coreDumped := true })
      killBy sig

/-- Enter a user handler: save the thread's context and the mask on its stack and point it at
the handler, `Process.cpp:1672–1812`. -/
def dispatchToHandler (sig : Nat) : K Unit := do
  let w ← Comp.get
  let action := w.cur.signalAction sig
  let ctx ← getThreadContext
  let newEsp := ctx.esp - BitVec.ofNat 32 frameSize
  let siginfo := action.saFlags &&& SA_SIGINFO ≠ 0#32
  modifyCur (fun p ↦ { p with
    signalAction := fun s ↦ if s = sig then action.afterDispatch else p.signalAction s
    signalMask := action.handlerMask sig })
  writeMemory newEsp (frameBytes newEsp sig action.saFlags ⟨ctx, w.cur.signalMask⟩)
  setThreadContext { ctx with
    eax := BitVec.ofNat 32 sig
    edx := if siginfo then newEsp + offsetSigInfo else 0#32
    ecx := 0#32
    esp := newEsp
    eip := action.saHandler }
  log (.dispatched sig action.saHandler newEsp)

/-- `HandleSignal` once the signal to deliver is settled, `Process.cpp:1542–1812`. -/
def actOnSignal (sig : Nat) : K Unit := do
  if sig = SIGKILL then
    log (.defaulted sig)
    killBy sig
  else if sig = SIGSTOP then
    log (.defaulted sig)
    suspendThreads
  else if sig = 0 ∨ nsig ≤ sig then Comp.fault -- outside the signal arrays
  else
    let w ← Comp.get
    if w.cur.blocks sig then log (.masked sig)
    else if (w.cur.signalAction sig).saHandler = SIG_DFL then
      log (.defaulted sig)
      runDefaultAction sig
    else if (w.cur.signalAction sig).saHandler = SIG_IGN then log (.ignored sig)
    else dispatchToHandler sig

/-- `Process::HandleSignal`, `Process.cpp:1518–1812`: a traced process first stops for its
tracer, which may replace the signal or cancel it. -/
def handleSignal (sig : Nat) : K Unit := do
  let w ← Comp.get
  if w.cur.ptrace.ownerPid ≠ 0#32 then
    modifyCur (fun p ↦ { p with ptrace := { p.ptrace with newSignal := BitVec.ofNat 32 sig } })
    notifyTracer
    let w ← Comp.get
    ptraceStop w.inputs
    let w ← Comp.get
    let newSignal := w.cur.ptrace.newSignal.toNat
    if newSignal ≠ sig ∧ newSignal = 0 then return ()
    else actOnSignal newSignal
  else actOnSignal sig

/-- `HandleSignal` between the two writes of `m_CurrentSignal`. -/
def handleCurrentSignal (sig : Nat) : K Unit := do
  modifyCur (fun p ↦ { p with currentSignal := sig })
  handleSignal sig
  modifyCur (fun p ↦ { p with currentSignal := 0 })

/-- `Process::SendSignal` on the process at a place of the table, `Process.cpp:1487–1515`:
handled at once on `P`, and left pending on any other. -/
def sendSignal (slot : Slot) (sig : Nat) : K Unit := do
  let w ← Comp.get
  match slot with
  | .cur =>
      log (.raised sig (w.cur.blocks sig))
      handleCurrentSignal sig
  | slot =>
      Comp.modify (fun w ↦ w.modifyOther (Process.setPending sig) slot)
      match w.at slot with
      | some p => log (.sent p.pid sig)
      | none => return ()

/-! ## What handling a signal can do -/

/-- The world once the thread stands at the handler. -/
def enterHandler (sig : Nat) (w : World) : World :=
  let action := w.cur.signalAction sig
  let ctx := { w.threadCtx with contextFlags := Context.CONTEXT_ALL }
  let newEsp := w.threadCtx.esp - BitVec.ofNat 32 frameSize
  { w with
    cur := { w.cur with
      signalAction := fun s ↦ if s = sig then action.afterDispatch else w.cur.signalAction s
      signalMask := action.handlerMask sig }
    mem := Mem.write w.mem newEsp (frameBytes newEsp sig action.saFlags ⟨ctx, w.cur.signalMask⟩)
    threadCtx := { ctx with
      eax := BitVec.ofNat 32 sig
      edx := if action.saFlags &&& SA_SIGINFO ≠ 0#32 then newEsp + offsetSigInfo else 0#32
      ecx := 0#32
      esp := newEsp
      eip := action.saHandler }
    trace := .dispatched sig action.saHandler newEsp :: w.trace }

theorem dispatchToHandler_eq (sig : Nat) (w : World) :
    dispatchToHandler sig w = .ok () (enterHandler sig w) := by
  simp only [dispatchToHandler, getThreadContext, modifyCur, writeMemory, setThreadContext, log,
    Bind.bind, Comp.bind, Comp.get, Comp.modify, Pure.pure, Comp.pure]
  rw [Context.merge_of_all rfl]
  rfl

/-- A signal that is caught reaches its handler. -/
theorem actOnSignal_eq {sig : Nat} {w : World} (hcatch : w.cur.Catches sig) :
    actOnSignal sig w = .ok () (enterHandler sig w) := by
  obtain ⟨hkill, hstop, hrange, hblocks, hdfl, hign⟩ := hcatch
  have hself : (Comp.get : K World) w = .ok w w := rfl
  unfold actOnSignal
  rw [if_neg hkill, if_neg hstop, if_neg hrange, Comp.bind_of_ok hself]
  simp only [hblocks, hdfl, hign, Bool.false_eq_true, if_false]
  exact dispatchToHandler_eq sig w

theorem within_killBy (sig : Nat) : Comp.Within receiving (killBy sig) :=
  Comp.within_bind
    (Comp.within_modify (fun _ ↦ ⟨rfl, rfl, rfl, rfl, rfl, rfl, rfl, [], rfl, by simp⟩))
    (fun _ ↦ within_sysCallDllExit _)

theorem within_suspendThreads : Comp.Within receiving suspendThreads :=
  Comp.within_modify (fun _ ↦ received_of_cur_eq rfl rfl)

theorem within_runDefaultAction (sig : Nat) : Comp.Within receiving (runDefaultAction sig) := by
  refine Comp.within_bind Comp.within_get (fun w ↦ ?_)
  cases defaultAction (w.cur.ptrace.ownerPid != 0#32) sig with
  | ignore => exact Comp.within_pure _
  | resume => exact Comp.within_modify (fun _ ↦ received_of_cur_eq rfl rfl)
  | stop => exact within_suspendThreads
  | terminate => exact within_killBy sig
  | coreDump =>
    exact Comp.within_bind
      (Comp.within_modify (fun _ ↦ ⟨rfl, rfl, rfl, rfl, rfl, rfl, rfl, [], rfl, by simp⟩))
      (fun _ ↦ within_killBy sig)

/-- The signal was settled without a handler: by its default action or by ignoring it. -/
inductive Settled (sig : Nat) : Trace → Prop
  | defaulted : Settled sig (.defaulted sig)
  | ignored : Settled sig (.ignored sig)

/-- Everything `HandleSignal` can do once the signal is settled. -/
inductive Acted (sig : Nat) (w w' : World) : Prop
  | masked (hkill : sig ≠ SIGKILL) (hstop : sig ≠ SIGSTOP) (hblocked : w.cur.blocks sig = true)
      (h : w' = w.withTrace (.masked sig))
  | caught (hc : w.cur.Catches sig) (h : w' = enterHandler sig w)
  | settled (hc : ¬w.cur.Catches sig) (t : Trace) (ht : Settled sig t)
      (h : Received (w.withTrace t) w')

/-- `HandleSignal` found the process gone, in the course of the default action. -/
def ActedExit (sig : Nat) (w w' : World) : Prop :=
  ∃ exitCode w₁, Received (w.withTrace (.defaulted sig)) w₁ ∧ w' = w₁.recordExit exitCode

/-- The one place that looks into `HandleSignal`: what it can do to the world. -/
theorem actOnSignal_post (sig : Nat) (w : World) :
    Comp.Post (actOnSignal sig) w (fun _ w' ↦ Acted sig w w') (fun w' ↦ ActedExit sig w w') := by
  have hdefault : ∀ {x : K Unit}, Comp.Within receiving x → ¬w.cur.Catches sig →
      Comp.Post (log (.defaulted sig) >>= fun _ ↦ x) w (fun _ w' ↦ Acted sig w w')
        (fun w' ↦ ActedExit sig w w') := by
    intro x hx hc
    rw [Comp.post_bind, post_log]
    exact Comp.post_mono (hx (w.withTrace (.defaulted sig)))
      (fun _ w' h ↦ .settled hc _ .defaulted h) (fun w' h ↦ h)
  unfold actOnSignal
  split
  · next hk => exact hdefault (within_killBy sig) (fun hc ↦ hc.1 hk)
  · next hk =>
    split
    · next hs => exact hdefault within_suspendThreads (fun hc ↦ hc.2.1 hs)
    · next hs =>
      split
      · trivial
      · next hr =>
        rw [Comp.post_bind, Comp.post_get]
        split
        · next hb => exact .masked hk hs hb rfl
        · next hb =>
          split
          · next hd => exact hdefault (within_runDefaultAction sig) (fun hc ↦ hc.2.2.2.2.1 hd)
          · next hd =>
            split
            · next hi =>
              exact .settled (fun hc ↦ hc.2.2.2.2.2 hi) _ .ignored (received_refl _)
            · next hi =>
              have hc : w.cur.Catches sig := ⟨hk, hs, hr, by simpa using hb, hd, hi⟩
              rw [Comp.Post, dispatchToHandler_eq]
              exact .caught hc rfl

/-- `m_CurrentSignal`, which nothing else here looks at. -/
def setCurrentSignal (sig : Nat) (w : World) : World :=
  { w with cur := { w.cur with currentSignal := sig } }

/-- Handling a signal of a process that is not traced. -/
theorem handleCurrentSignal_post (sig : Nat) {w : World} (h : w.cur.ptrace.ownerPid = 0#32) :
    Comp.Post (handleCurrentSignal sig) w
      (fun _ w' ↦ ∃ w₁, Acted sig (setCurrentSignal sig w) w₁ ∧ w' = setCurrentSignal 0 w₁)
      (fun w' ↦ ActedExit sig (setCurrentSignal sig w) w') := by
  have hsig : handleSignal sig (setCurrentSignal sig w) =
      actOnSignal sig (setCurrentSignal sig w) := by
    simp [handleSignal, Bind.bind, Comp.bind, Comp.get, setCurrentSignal, h]
  have hpost := actOnSignal_post sig (setCurrentSignal sig w)
  simp only [handleCurrentSignal, Comp.post_bind, post_modifyCur]
  refine Comp.post_mono (Q := fun _ w' ↦ Acted sig (setCurrentSignal sig w) w')
    (X := fun w' ↦ ActedExit sig (setCurrentSignal sig w) w') ?_
    (fun _ w₁ h ↦ ⟨w₁, h, rfl⟩) (fun _ h ↦ h)
  unfold Comp.Post at hpost ⊢
  rw [← hsig] at hpost
  exact hpost

end Keow.Signal
