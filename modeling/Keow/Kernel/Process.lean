import Keow.Base.Comp
import Keow.Kernel.SignalSet

/-!
# Processes and the kernel thread that handles one

The part of `Process` (`Process.h:82–240`) that signals, exceptions and termination read
and write, and the world as one kernel thread sees it: its own process `P`, the rest of
the kernel table around it, the registers and memory of the user thread it debugs, and
what reaches it from outside (debug events, signals sent by other kernel threads, a tracer
that resumes it), in the order of arrival.
-/

namespace Keow.Kernel

open Keow.Base

/-- `linux::sigaction`. Bit `sig - 1` of the mask stands for signal `sig`. -/
structure SigAction where
  saHandler : DWORD := SIG_DFL
  saFlags : DWORD := 0#32
  saRestorer : DWORD := 0#32
  saMask : BitVec 64 := 0#64

/-- `Process::PtraceData`, `Process.h:182–189`. -/
structure PtraceData where
  ownerPid : DWORD := 0#32
  request : DWORD := 0#32
  ctx : Context := Context.zero
  ctxValid : Bool := false
  savedEax : DWORD := 0#32
  newSignal : DWORD := 0#32

/-- How an open file takes a write: by a `WriteFile` injected into the stub (`IOHFile`,
`IOHPipe`, `IOHNtConsole`), by swallowing it (`IOHNull`, `IOHRandom`), or not at all
(`IOHStaticData`). -/
inductive IOHandler where
  | remote (handle : DWORD)
  | swallow
  | readOnly

/-- A slot of `m_OpenFiles` that is in use: the handler, and whether `execve` keeps it. -/
structure OpenFile where
  handler : IOHandler
  inheritable : Bool := true

/-- `SysCallDll::RemoteAddrInfo`, the stub functions that the model injects. -/
structure RemoteAddrInfo where
  exit : DWORD := 0#32
  writeFile : DWORD := 0#32
  getLastError : DWORD := 0#32

/-- `Process`. The signal arrays have `_NSIG` entries. -/
structure Process where
  pid : DWORD
  parentPid : DWORD
  processGroupPID : DWORD := 0#32
  ptrace : PtraceData := {}
  stillRunning : Bool := true
  coreDumped : Bool := false
  exitCode : DWORD := -6#32
  inWin32Setup : Bool := false
  baseWin32Ctx : Context := Context.zero
  sysCallAddr : RemoteAddrInfo := {}
  currentSignal : Nat := 0
  killedBySig : Nat := 0
  pendingSignals : Nat → Bool := fun _ ↦ false
  signalMask : BitVec 64 := 0#64
  signalAction : Nat → SigAction := fun _ ↦ {}
  openFiles : Nat → Option OpenFile := fun _ ↦ none

/-- The exception codes that `HandleException` tells apart, `Process.cpp:640–760`. -/
inductive ExceptionCode where
  | singleStep
  | fltDenormalOperand
  | fltDivideByZero
  | fltInexactResult
  | fltInvalidOperation
  | fltOverflow
  | fltStackCheck
  | fltUnderflow
  | intDivideByZero
  | intOverflow
  | accessViolation
  | privInstruction
  | illegalInstruction
  | noncontinuableException
  | inPageError
  | stackOverflow
  | guardPage
  | breakpoint
  | other
deriving DecidableEq

/-- `DEBUG_EVENT`, as far as the two event loops look at it. -/
inductive DebugEvent where
  | createProcess
  | exitProcess (exitCode : DWORD)
  | createThread
  | exitThread
  | exception (code : ExceptionCode) (address : DWORD)
  | loadDll
  | unloadDll
  | outputDebugString
  | other
deriving DecidableEq

/-- What reaches a kernel thread from outside. -/
inductive Input where
  /-- Another kernel thread calls `SendSignal` on this process. -/
  | send (sig : Signal)
  /-- The tracer issues `PTRACE_SYSCALL` or `PTRACE_CONT` with this request and data. -/
  | resume (request data : DWORD)
  /-- A debug event, with the registers and memory the user thread has reached by then. -/
  | event (evt : DebugEvent) (ctx : Context) (mem : UserMem)

/-- What happened to signals, newest first: the `ktrace` lines of `HandleSignal` and the
sends themselves. -/
inductive Trace where
  | raised (sig : Nat) (blocked : Bool)
  | masked (sig : Nat)
  | dispatched (sig : Nat) (handler esp : DWORD)
  | defaulted (sig : Nat)
  | ignored (sig : Nat)
  | sent (pid : DWORD) (sig : Nat)
  | processExit (exitCode : DWORD)
  | signalsReset

/-- The world of one kernel thread. `before` and `after` are the rest of
`g_pKernelTable->m_Processes`, around `cur`. -/
structure World where
  before : List Process
  cur : Process
  after : List Process
  threadCtx : Context
  segGs : DWORD
  suspendCount : Nat
  mem : UserMem
  inputs : List Input
  trace : List Trace

/-- Process 2, child of init, alone in the table with the given inputs ahead. -/
def loneWorld (inputs : List Input) : World where
  before := []
  cur := { pid := 2#32, parentPid := 1#32 }
  after := []
  threadCtx := Context.zero
  segGs := 0#32
  suspendCount := 0
  mem := fun _ ↦ 0
  inputs := inputs
  trace := []

/-- A computation of the kernel thread. -/
abbrev K := Comp World

/-- `g_pKernelTable->m_Processes`. -/
def World.processes (w : World) : List Process := w.before ++ w.cur :: w.after

/-- Change `P`. -/
def modifyCur (f : Process → Process) : K Unit :=
  Comp.modify (fun w ↦ { w with cur := f w.cur })

/-- One more line in the trace. -/
def World.withTrace (t : Trace) (w : World) : World := { w with trace := t :: w.trace }

/-- Record what happened to a signal. -/
def log (t : Trace) : K Unit := Comp.modify (fun w ↦ w.withTrace t)

@[simp] theorem post_log (t : Trace) (w : World) (Q : Unit → World → Prop) (X : World → Prop) :
    Comp.Post (log t) w Q X ↔ Q () (w.withTrace t) := Iff.rfl

@[simp] theorem post_modifyCur (f : Process → Process) (w : World) (Q : Unit → World → Prop)
    (X : World → Prop) :
    Comp.Post (modifyCur f) w Q X ↔ Q () { w with cur := f w.cur } := Iff.rfl

/-- `Process::InitSignalHandling`, `Process.cpp:2183–2201`. -/
def Process.initSignalHandling (p : Process) : Process :=
  { p with
    currentSignal := 0
    killedBySig := 0
    pendingSignals := fun _ ↦ false
    signalMask := 0#64
    signalAction := fun _ ↦ {} }

/-- The mask bit of a signal, `Process.cpp:1574`. -/
def Process.blocks (p : Process) (sig : Nat) : Bool := testSignal (sigWord p.signalMask) sig

theorem Process.blocks_eq (p : Process) (sig : Nat) :
    p.blocks sig = p.signalMask.getLsbD (sig - 1) :=
  testSignal_sigWord p.signalMask sig

/-- The signal reaches a handler of the user: it can be caught, is not blocked, and its action
is neither the default nor to ignore it. -/
def Process.Catches (p : Process) (sig : Nat) : Prop :=
  sig ≠ SIGKILL ∧ sig ≠ SIGSTOP ∧ ¬(sig = 0 ∨ nsig ≤ sig) ∧ p.blocks sig = false ∧
    (p.signalAction sig).saHandler ≠ SIG_DFL ∧ (p.signalAction sig).saHandler ≠ SIG_IGN

/-- Mark a signal pending, `Process.cpp:1503`. -/
def Process.setPending (sig : Nat) (p : Process) : Process :=
  { p with pendingSignals := fun s ↦ s == sig || p.pendingSignals s }

/-- The signal the scan of `Process.cpp:357–365` stops at. -/
def Process.lowestPending (p : Process) : Option Nat :=
  (List.range nsig).find? (fun sig ↦ p.pendingSignals sig)

/-- The effect of a send or of a tracer's request at any time. A request stores its data as
the replacement signal unless it is 0 or `SIGSTOP` (`sys_sys.cpp:361–383`). -/
def World.absorb (w : World) : Input → World
  | .send sig =>
      { w with
        cur := w.cur.setPending sig.val
        trace := .raised sig.val (w.cur.blocks sig.val) :: w.trace }
  | .resume request data =>
      let newSignal :=
        if data ≠ 0#32 ∧ data ≠ BitVec.ofNat 32 SIGSTOP then data else w.cur.ptrace.newSignal
      { w with cur := { w.cur with ptrace :=
          { w.cur.ptrace with request := request, newSignal := newSignal } } }
  | .event _ ctx mem => { w with threadCtx := ctx, mem := mem }

/-- What both event loops do with the exit of the process, `Process.cpp:388–391,1931–1934`. -/
def World.recordExit (exitCode : DWORD) (w : World) : World :=
  { w with
    cur := { w.cur with exitCode := exitCode, stillRunning := false }
    trace := .processExit exitCode :: w.trace }

/-- `GetThreadContext` with every register group. -/
def getThreadContext : K Context := do
  let w ← Comp.get
  return { w.threadCtx with contextFlags := Context.CONTEXT_ALL }

/-- `SetThreadContext`. -/
def setThreadContext (ctx : Context) : K Unit :=
  Comp.modify (fun w ↦ { w with threadCtx := ctx.merge w.threadCtx })

/-- `Process::WriteMemory`. -/
def writeMemory (addr : DWORD) (bytes : List UInt8) : K Unit :=
  Comp.modify (fun w ↦ { w with mem := Mem.write w.mem addr bytes })

/-- `Process::ReadMemory`. -/
def readMemory (addr : DWORD) (len : Nat) : K (List UInt8) := do
  let w ← Comp.get
  return Mem.read w.mem addr len

/-- A place in the kernel table. -/
inductive Slot where
  | before (i : Nat)
  | cur
  | after (i : Nat)
deriving DecidableEq

/-- `KernelTable::FindProcess`: the first process with the pid. -/
def World.findProcess (w : World) (pid : DWORD) : Option Slot :=
  match w.before.findIdx? (fun p ↦ p.pid == pid) with
  | some i => some (.before i)
  | none =>
    if w.cur.pid == pid then some .cur
    else (w.after.findIdx? (fun p ↦ p.pid == pid)).map .after

/-- Change a process other than `P`. -/
def World.modifyOther (f : Process → Process) (w : World) : Slot → World
  | .before i => { w with before := w.before.modify i f }
  | .cur => w
  | .after i => { w with after := w.after.modify i f }

/-- The process at a place of the table. -/
def World.at (w : World) : Slot → Option Process
  | .before i => w.before[i]?
  | .cur => some w.cur
  | .after i => w.after[i]?

/-- The places of the table, in order. -/
def World.slots (w : World) : List Slot :=
  (List.range w.before.length).map .before ++ [.cur] ++ (List.range w.after.length).map .after

/-- Change the process at a place of the table. -/
def World.modifySlot (f : Process → Process) (w : World) : Slot → World
  | .cur => { w with cur := f w.cur }
  | slot => w.modifyOther f slot

/-- A one-shot action falls back to the default, `Process.cpp:1683–1685`. -/
def SigAction.afterDispatch (a : SigAction) : SigAction :=
  if a.saFlags &&& SA_ONESHOT ≠ 0#32 ∨ a.saFlags &&& SA_RESETHAND ≠ 0#32 then
    { a with saHandler := SIG_DFL }
  else a

/-- The mask while the handler runs, `Process.cpp:1789–1796`. -/
def SigAction.handlerMask (a : SigAction) (sig : Nat) : BitVec 64 :=
  if a.saFlags &&& SA_NODEFER = 0#32 ∨ a.saFlags &&& SA_NOMASK = 0#32 then
    ofSigWords (addSignal (sigWord a.saMask) sig)
  else a.saMask

/-- The signal of the exceptions that are nothing but a fault, `Process.cpp:645–657,725–740`. -/
def ExceptionCode.faultSignal : ExceptionCode → Option Nat
  | .fltDenormalOperand | .fltDivideByZero | .fltInexactResult | .fltInvalidOperation
  | .fltOverflow | .fltStackCheck | .fltUnderflow | .intDivideByZero => some SIGFPE
  | .privInstruction | .illegalInstruction => some SIGILL
  | .noncontinuableException | .inPageError | .stackOverflow | .guardPage | .other => some SIGSEGV
  | .singleStep | .intOverflow | .accessViolation | .breakpoint => none

/-- The instruction word at an address. -/
def World.instruction (w : World) (addr : DWORD) : BitVec 16 :=
  (Codec.word 2).decode (Mem.read w.mem addr 2)

/-! ## Code that only receives signals -/

/-- Between two worlds the process received the signals `sends`, newest first, and nothing
else happened to its signals or to its standing among the processes. -/
structure Received (w w' : World) : Prop where
  pid : w'.cur.pid = w.cur.pid
  parentPid : w'.cur.parentPid = w.cur.parentPid
  ownerPid : w'.cur.ptrace.ownerPid = w.cur.ptrace.ownerPid
  stillRunning : w'.cur.stillRunning = w.cur.stillRunning
  inWin32Setup : w'.cur.inWin32Setup = w.cur.inWin32Setup
  signalMask : w'.cur.signalMask = w.cur.signalMask
  signalAction : w'.cur.signalAction = w.cur.signalAction
  sends : ∃ sends : List Nat,
    w'.trace = sends.map (fun sig ↦ .raised sig (w.cur.blocks sig)) ++ w.trace ∧
      ∀ sig, w'.cur.pendingSignals sig = (sends.contains sig || w.cur.pendingSignals sig)

theorem received_refl (w : World) : Received w w :=
  ⟨rfl, rfl, rfl, rfl, rfl, rfl, rfl, [], rfl, by simp⟩

theorem received_trans {a b c : World} (h : Received a b) (h' : Received b c) : Received a c := by
  obtain ⟨s, ht, hp⟩ := h.sends
  obtain ⟨s', ht', hp'⟩ := h'.sends
  have hb : ∀ sig, b.cur.blocks sig = a.cur.blocks sig := by
    intro sig
    rw [Process.blocks, h.signalMask]
    rfl
  refine ⟨h'.pid.trans h.pid, h'.parentPid.trans h.parentPid, h'.ownerPid.trans h.ownerPid,
    h'.stillRunning.trans h.stillRunning, h'.inWin32Setup.trans h.inWin32Setup,
    h'.signalMask.trans h.signalMask, h'.signalAction.trans h.signalAction, s' ++ s, ?_, ?_⟩
  · rw [ht', ht, List.map_append, List.append_assoc]
    simp only [hb]
  · intro sig
    rw [hp', hp]
    simp [Bool.or_assoc]

/-- Registers, memory and the rest of the table may change freely. -/
theorem received_of_cur_eq {w w' : World} (hcur : w'.cur = w.cur) (htrace : w'.trace = w.trace) :
    Received w w' := by
  refine ⟨?_, ?_, ?_, ?_, ?_, ?_, ?_, [], ?_, ?_⟩
  all_goals simp [hcur, htrace]

/-- Whatever arrives, nothing more than a signal is received. -/
theorem received_absorb (w : World) (i : Input) (rest : List Input) :
    Received w { w.absorb i with inputs := rest } := by
  cases i with
  | send sig =>
    refine ⟨rfl, rfl, rfl, rfl, rfl, rfl, rfl, [sig.val], rfl, ?_⟩
    intro s
    simp [World.absorb, Process.setPending, Bool.beq_eq_decide_eq]
  | resume request data =>
    exact ⟨rfl, rfl, rfl, rfl, rfl, rfl, rfl, [], rfl, by simp [World.absorb]⟩
  | event evt ctx mem => exact received_of_cur_eq rfl rfl

/-- A computation that may receive signals and may find the process gone. -/
def receiving : Comp.Effect World where
  ok := Received
  exit w w' := ∃ exitCode w₁, Received w w₁ ∧ w' = w₁.recordExit exitCode
  refl := received_refl
  trans := received_trans
  trans_exit := by
    rintro a b c h ⟨exitCode, w₁, h₁, rfl⟩
    exact ⟨exitCode, w₁, received_trans h h₁, rfl⟩

/-- A computation that leaves `P` its place among the processes, and ends the thread only when
it has recorded the exit of `P`. -/
def leaving : Comp.Effect World where
  ok w w' := w'.cur.pid = w.cur.pid ∧ w'.cur.parentPid = w.cur.parentPid
  exit w w' := ∃ (exitCode : DWORD) (w₁ : World),
    (w₁.cur.pid = w.cur.pid ∧ w₁.cur.parentPid = w.cur.parentPid) ∧
    w' = w₁.recordExit exitCode
  refl _ := ⟨rfl, rfl⟩
  trans h h' := ⟨h'.1.trans h.1, h'.2.trans h.2⟩
  trans_exit := by
    rintro a b c h ⟨exitCode, w₁, h₁, rfl⟩
    exact ⟨exitCode, w₁, ⟨h₁.1.trans h.1, h₁.2.trans h.2⟩, rfl⟩

theorem leaving_of_receiving {α : Type} {x : K α} (h : Comp.Within receiving x) :
    Comp.Within leaving x := by
  refine Comp.within_mono h (fun h ↦ ⟨h.pid, h.parentPid⟩) ?_
  rintro a b ⟨exitCode, w₁, h₁, rfl⟩
  exact ⟨exitCode, w₁, ⟨h₁.pid, h₁.parentPid⟩, rfl⟩

theorem within_setThreadContext (ctx : Context) : Comp.Within receiving (setThreadContext ctx) :=
  Comp.within_modify (fun _ ↦ received_of_cur_eq rfl rfl)

theorem within_writeMemory (addr : DWORD) (bytes : List UInt8) :
    Comp.Within receiving (writeMemory addr bytes) :=
  Comp.within_modify (fun _ ↦ received_of_cur_eq rfl rfl)

theorem within_readMemory (addr : DWORD) (len : Nat) :
    Comp.Within receiving (readMemory addr len) :=
  Comp.within_bind Comp.within_get (fun _ ↦ Comp.within_pure _)

/-! ## What the inputs leave in the kernel -/

/-- The signal that another kernel thread sends. -/
def Input.sent : Input → Option Nat
  | .send sig => some sig.val
  | _ => none

/-- What the tracer leaves in the process. -/
def Input.resumed (d : PtraceData) : Input → PtraceData
  | .resume request data =>
      { d with
        request := request
        newSignal :=
          if data ≠ 0#32 ∧ data ≠ BitVec.ofNat 32 SIGSTOP then data else d.newSignal }
  | _ => d

/-- Of these inputs the kernel has kept the signals sent and the requests of the tracer. Nothing
else in it has changed. -/
structure Receives (w : World) (is : List Input) (w' : World) : Prop where
  before : w'.before = w.before
  cur : w'.cur = { w.cur with
    ptrace := is.foldl Input.resumed w.cur.ptrace
    pendingSignals := fun sig ↦
      (is.filterMap Input.sent).contains sig || w.cur.pendingSignals sig }
  after : w'.after = w.after
  segGs : w'.segGs = w.segGs
  suspendCount : w'.suspendCount = w.suspendCount
  trace : w'.trace = (is.filterMap Input.sent).reverse.map
    (fun sig ↦ .raised sig (w.cur.blocks sig)) ++ w.trace

/-- The inputs that were taken are those that were received. -/
def Consumes (w w' : World) : Prop := ∃ is, w.inputs = is ++ w'.inputs ∧ Receives w is w'

/-- They were, and then the process was found gone. -/
def ConsumesExit (w w' : World) : Prop :=
  ∃ exitCode w₁, Consumes w w₁ ∧ w' = w₁.recordExit exitCode

/-- The user thread may change freely. -/
theorem receives_thread (w : World) (ctx : Context) (mem : UserMem) (inputs : List Input) :
    Receives w [] { w with threadCtx := ctx, mem := mem, inputs := inputs } :=
  ⟨rfl, by simp, rfl, rfl, rfl, rfl⟩

theorem consumes_thread (w : World) (ctx : Context) (mem : UserMem) :
    Consumes w { w with threadCtx := ctx, mem := mem } :=
  ⟨[], rfl, receives_thread w ctx mem w.inputs⟩

theorem receives_append {w w' w'' : World} {is js : List Input} (h : Receives w is w')
    (h' : Receives w' js w'') : Receives w (is ++ js) w'' := by
  have hblocks : ∀ sig, w'.cur.blocks sig = w.cur.blocks sig := by
    intro sig
    rw [h.cur]
    rfl
  refine ⟨h'.before.trans h.before, ?_, h'.after.trans h.after, h'.segGs.trans h.segGs,
    h'.suspendCount.trans h.suspendCount, ?_⟩
  · rw [h'.cur, h.cur]
    simp [List.foldl_append, Bool.or_assoc, Bool.or_left_comm]
  · rw [h'.trace, h.trace]
    simp [hblocks]

theorem consumes_trans {w w' w'' : World} (h : Consumes w w') (h' : Consumes w' w'') :
    Consumes w w'' := by
  obtain ⟨is, hinputs, hreceives⟩ := h
  obtain ⟨js, hinputs', hreceives'⟩ := h'
  exact ⟨is ++ js, by rw [hinputs, hinputs', List.append_assoc],
    receives_append hreceives hreceives'⟩

theorem receives_absorb (w : World) (i : Input) (rest : List Input) :
    Receives w [i] { w.absorb i with inputs := rest } := by
  cases i with
  | send sig =>
    refine ⟨rfl, ?_, rfl, rfl, rfl, rfl⟩
    simp [World.absorb, Process.setPending, Input.sent, Input.resumed, Bool.beq_eq_decide_eq]
  | resume request data =>
    refine ⟨rfl, ?_, rfl, rfl, rfl, rfl⟩
    simp [World.absorb, Input.sent, Input.resumed]
  | event evt ctx mem =>
    exact ⟨rfl, by simp [World.absorb, Input.sent, Input.resumed], rfl, rfl, rfl, rfl⟩

theorem ownerPid_resumed (is : List Input) (d : PtraceData) :
    (is.foldl Input.resumed d).ownerPid = d.ownerPid := by
  induction is generalizing d with
  | nil => rfl
  | cons i is ih =>
    rw [List.foldl_cons, ih]
    cases i <;> rfl

/-- What was taken in is at most received. -/
theorem received_of_consumes {w w' : World} (h : Consumes w w') : Received w w' := by
  obtain ⟨is, -, hreceives⟩ := h
  have hcur := hreceives.cur
  refine ⟨?_, ?_, ?_, ?_, ?_, ?_, ?_, (is.filterMap Input.sent).reverse, hreceives.trace, ?_⟩
  · rw [hcur]
  · rw [hcur]
  · rw [hcur]
    exact ownerPid_resumed is _
  · rw [hcur]
  · rw [hcur]
  · rw [hcur]
  · rw [hcur]
  · intro sig
    rw [hcur]
    simp

/-- A computation that takes in what arrives, and may find the process gone. -/
def consuming : Comp.Effect World where
  ok := Consumes
  exit := ConsumesExit
  refl w := consumes_thread w w.threadCtx w.mem
  trans := consumes_trans
  trans_exit := by
    rintro a b c h ⟨exitCode, w₁, h₁, rfl⟩
    exact ⟨exitCode, w₁, consumes_trans h h₁, rfl⟩

end Keow.Kernel
