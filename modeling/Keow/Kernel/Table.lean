import Keow.Base.Comp
import Keow.Kernel.LinkedList
import Keow.Kernel.Process

/-!
# The process table

`KernelTable` with its list of `Process` objects, the allocation of pids by `StartFork` and
the reaping of children by `wait4`. A `Process*` is the address of an object; the list holds
addresses, and the objects stay where they are when they leave it.
-/

namespace Keow.Kernel

open Keow.Base

/-- The part of `KernelTable` that processes are registered in, `KernelTable.h:60–70`, with the
`Process` objects and the address that `new Process` returns next. -/
structure KernelTable where
  processes : LinkedList Nat
  object : Nat → Process
  fresh : Nat
  lastPID : DWORD
  forksSinceBoot : Nat

namespace KernelTable

/-- The registered processes, in order. -/
def listed (k : KernelTable) : List Nat := k.processes.toList

def pid (k : KernelTable) (p : Nat) : DWORD := (k.object p).pid

/-- Change one object. -/
def update (k : KernelTable) (p : Nat) (f : Process → Process) : KernelTable :=
  { k with object := fun q ↦ if q = p then f (k.object q) else k.object q }

/-- `KernelTable::FindProcess`, `KernelTable.cpp:92–104`. -/
def findProcess (k : KernelTable) (pid : DWORD) : Option Nat :=
  k.listed.find? fun p ↦ k.pid p = pid

/-- The constructor, `KernelTable.cpp:38–42`. -/
def new : KernelTable where
  processes := LinkedList.empty
  object := fun _ ↦ { pid := 0#32, parentPid := 0#32 }
  fresh := 0
  lastPID := 0#32
  forksSinceBoot := 0

/-- `new Process()`, at the address `fresh`. -/
def newProcess (k : KernelTable) : KernelTable :=
  { k with
    object := fun q ↦ if q = k.fresh then { pid := 0#32, parentPid := 0#32 } else k.object q
    fresh := k.fresh + 1 }

/-- Set the pids of `p` and put it at the end of the list. -/
def register (k : KernelTable) (p : Nat) (pid parentPid : DWORD) : KernelTable :=
  { k.update p fun q ↦ { q with pid := pid, parentPid := parentPid } with
    processes := k.processes.pushBack p }

/-- The address of init. -/
def init : Nat := 0

/-- The table once `StartInit` has registered init, `Process.cpp:121–138`. -/
def startInit : KernelTable := new.newProcess.register init 1#32 0#32

/-- `delete p`: the destructor unregisters the process, `Process.cpp:93–96`. -/
def deleteProcess (p : Nat) : Comp KernelTable Unit := do
  let k ← Comp.get
  match k.processes.eraseValue p with
  | none => Comp.fault
  | some l => Comp.modify fun k ↦ { k with processes := l }

/-- The loop that allocates a pid, `Process.cpp:199–216`, with `turns` left until `cnt` exceeds
10000: the pid, if any, and `m_LastPID`. -/
def allocatePid (inUse : DWORD → Bool) : Nat → DWORD → Option DWORD × DWORD
  | turns, lastPID =>
      if lastPID + 1#32 = 0#32 then (some 0#32, 0#32)
      else
        match turns with
        | 0 => (none, lastPID + 1#32)
        | turns + 1 =>
            -- pid 1 is only ever for init
            let lastPID := if 0xFFFF < (lastPID + 1#32).toInt then 2#32 else lastPID + 1#32
            if inUse lastPID then allocatePid inUse turns lastPID
            else (some lastPID, lastPID)

/-- What the system lets `StartFork` reach: no kernel thread, no Win32 process for it, or a
child with these duplicates of the open files. -/
inductive ForkOutcome where
  | noThread
  | noProcess
  | started (openFiles : Nat → Option OpenFile)

/-- The fields that `ForkCopyOtherProcess` takes over, `Process.cpp:771–832`. -/
def forkCopyOtherProcess (other : Process) (openFiles : Nat → Option OpenFile) (p : Process) :
    Process :=
  { p with
    processGroupPID := other.processGroupPID
    pendingSignals := other.pendingSignals
    signalMask := other.signalMask
    signalAction := other.signalAction
    openFiles := openFiles }

/-- A fork counted, its process created and the pid counter moved, `Process.cpp:186–216`. -/
def beginFork (lastPID : DWORD) (k : KernelTable) : KernelTable :=
  { k.newProcess with lastPID := lastPID, forksSinceBoot := k.forksSinceBoot + 1 }

/-- `Process::StartFork` called by `P`, `Process.cpp:184–264`, with the part of
`KernelProcessHandlerEntry` it waits for. -/
def startFork (P : Nat) (outcome : ForkOutcome) : Comp KernelTable (Option Nat) := do
  let k ← Comp.get
  let newP := k.fresh
  let (pid, lastPID) := allocatePid (fun pid ↦ (k.findProcess pid).isSome) 10000 k.lastPID
  Comp.modify (beginFork lastPID)
  match pid with
  | none =>
      deleteProcess newP
      return none
  | some pid =>
      Comp.modify fun k ↦ k.register newP pid (k.pid P)
      match outcome with
      | .noThread =>
          deleteProcess newP
          return none
      | .noProcess =>
          Comp.modify fun k ↦ k.update newP fun p ↦ { p with inWin32Setup := true }
          deleteProcess newP
          return none
      | .started openFiles =>
          let k ← Comp.get
          match k.findProcess (k.object newP).parentPid with
          | none => Comp.fault
          | some parent =>
              Comp.modify fun k ↦
                k.update newP (forkCopyOtherProcess (k.object parent) openFiles)
              return some newP

/-- What the kernel thread of `p` does to the table when its process ends. -/
inductive ProcessEvent where
  /-- `EXIT_PROCESS_DEBUG_EVENT`, `Process.cpp:386–390`. -/
  | exitProcess (p : Nat) (exitCode : DWORD)
  /-- The loop after `DebuggerLoop`, `Process.cpp:320–331`. -/
  | releaseChildren (p : Nat)

/-- Children are inherited by init, and tracees let go. -/
def adopt (pid : DWORD) (p2 : Process) : Process :=
  { p2 with
    parentPid := if p2.parentPid = pid then 1#32 else p2.parentPid
    ptrace :=
      { p2.ptrace with ownerPid := if p2.ptrace.ownerPid = pid then 0#32 else p2.ptrace.ownerPid } }

/-- A kernel thread runs only for a process that has been given its pid. -/
def event (k : KernelTable) : ProcessEvent → KernelTable
  | .exitProcess p exitCode =>
      k.update p fun q ↦ { q with stillRunning := false, exitCode := exitCode }
  | .releaseChildren p =>
      if k.pid p = 0#32 then k
      else k.listed.foldl (fun k' p2 ↦ k'.update p2 (adopt (k'.pid p))) k

/-- What `WaitForMultipleObjects` returns to `wait4`. -/
inductive Wakeup where
  | object (i : Nat)
  | timeout
  | failed

/-- One turn of the waiting loop: what other threads do before it, the wake-up, and which
processes are found suspended. -/
structure WaitTurn where
  events : List ProcessEvent := []
  wakeup : Wakeup
  suspended : Nat → Bool := fun _ ↦ false

/-- The four ways a `pid` argument selects a child, `sys_process.cpp:305–317`. -/
def selects (P child : Process) (waitPid : DWORD) : Bool :=
  (waitPid.toInt < -1 && child.processGroupPID = waitPid) ||
    waitPid = -1#32 ||
    (waitPid = 0#32 && child.processGroupPID = P.processGroupPID) ||
    (0 < waitPid.toInt && child.pid = waitPid)

/-- The loop that selects the children to wait for, `sys_process.cpp:294–332`: their pids, the
last one exited already if the result is its pid. -/
def selectChildren (k : KernelTable) (P : Nat) (waitPid : DWORD) :
    List Nat → List DWORD × Option DWORD
  | [] => ([], none)
  | p :: ps =>
      let child := k.object p
      if child.parentPid ≠ k.pid P then selectChildren k P waitPid ps
      else if selects (k.object P) child waitPid then
        if child.stillRunning then
          let rest := selectChildren k P waitPid ps
          (child.pid :: rest.1, rest.2)
        else ([child.pid], some child.pid)
      else selectChildren k P waitPid ps

/-- What a wake-up decides, `sys_process.cpp:349–391`. -/
def wakeupResult (pids : List DWORD) : Wakeup → Comp KernelTable (Option DWORD)
  | .failed => return some (-EINVAL)
  | .timeout => return none
  | .object i => do
      if i = pids.length then return some (-EINTR)
      else
        match pids[i]? with
        | none => return none
        | some pid =>
            let k ← Comp.get
            match k.findProcess pid with
            | none => Comp.fault
            | some child =>
                return if (k.object child).stillRunning then none else some pid

/-- The loop that looks for a stopped child, `sys_process.cpp:396–420`. -/
def firstStopped (P : Nat) (options : DWORD) (suspended : Nat → Bool) :
    List DWORD → Comp KernelTable (Option DWORD)
  | [] => return none
  | pid :: pids => do
      let k ← Comp.get
      match k.findProcess pid with
      | none => Comp.fault
      | some p =>
          let child := k.object p
          if (options &&& WUNTRACED ≠ 0#32 ∨ child.ptrace.ownerPid = k.pid P) ∧
              ¬child.inWin32Setup ∧ suspended p then return some pid
          else firstStopped P options suspended pids

/-- The waiting loop, `sys_process.cpp:344–426`: the result and `one_stopped`. -/
def waitLoop (P : Nat) (options : DWORD) (pids : List DWORD) :
    List WaitTurn → Comp KernelTable (DWORD × Bool)
  | [] => Comp.wait
  | t :: ts => do
      Comp.modify fun k ↦ t.events.foldl event k
      match ← wakeupResult pids t.wakeup with
      | some result => return (result, false)
      | none =>
          if options &&& WNOHANG ≠ 0#32 then return (-ECHILD, false)
          else
            match ← firstStopped P options t.suspended pids with
            | some pid => return (pid, true)
            | none => waitLoop P options pids ts

/-- The part of `sys_wait4` that finds a child, `sys_process.cpp:273–426`. -/
def waitForChild (P : Nat) (waitPid options : DWORD) (turns : List WaitTurn) :
    Comp KernelTable (DWORD × Bool) := do
  let k ← Comp.get
  match k.selectChildren P waitPid k.listed with
  | ([], _) => return (-ECHILD, false)
  | (_, some pid) => return (pid, false)
  | (pids, none) => waitLoop P options pids turns

/-- `SysCalls::sys_wait4` called by `P`, `sys_process.cpp:273–487`, without the status and the
`rusage` it stores in user memory. -/
def sysWait4 (P : Nat) (waitPid options : DWORD) (turns : List WaitTurn) :
    Comp KernelTable DWORD := do
  let (result, oneStopped) ← waitForChild P waitPid options turns
  if 0 < result.toInt then
    let k ← Comp.get
    match k.findProcess result with
    | none => Comp.fault
    | some child =>
        if oneStopped then return result
        else
          deleteProcess child
          return result
  else return result

/-- A call by process `P`, or an event. -/
inductive Call where
  | startFork (P : Nat) (outcome : ForkOutcome)
  | wait4 (P : Nat) (waitPid options : DWORD) (turns : List WaitTurn)
  | event (e : ProcessEvent)

/-- One call, as one step. Only a registered process calls. -/
def step (k : KernelTable) : Call → KernelTable
  | .startFork P outcome => if P ∈ k.listed then (startFork P outcome k).state else k
  | .wait4 P waitPid options turns =>
      if P ∈ k.listed then (sysWait4 P waitPid options turns k).state else k
  | .event e => k.event e

end KernelTable

end Keow.Kernel
