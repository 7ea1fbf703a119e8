import Keow.Signal.Exception

/-!
# The debugger loop

`Process::DebuggerLoop` (`Process.cpp:346–459`) and `Process::ResumeKeowProcess`
(`Process.cpp:462–510`). A turn of the loop waits for a debug event, but a pending signal
found first takes the turn, and the event that ended the wait is resumed unread.
-/

namespace Keow.Signal

open Keow.Base Keow.Kernel

/-- `WaitForDebugEvent`: what else arrives before the event takes effect meanwhile. -/
def nextEvent : List Input → K DebugEvent
  | [] => Comp.wait
  | i :: rest => do
      Comp.modify (fun w ↦ { w.absorb i with inputs := rest })
      match i with
      | .event evt _ _ => return evt
      | _ => nextEvent rest

/-- The code that reloads `gs` and returns, on the stack of the user thread:
`segGs`, `retAddress`, `pop gs`, `ret 6`. -/
def gsFrame (segGs retAddress : DWORD) : List UInt8 :=
  (Codec.word 4).encode segGs ++ (Codec.word 4).encode retAddress ++
    [0x0F, 0xA9, 0xC2, 0x06, 0x00, 0x00]

/-- `Process::ResumeKeowProcess`. -/
def resumeKeowProcess (needToRestoreGS : Bool) : K Unit := do
  if needToRestoreGS then
    let w ← Comp.get
    let esp := w.threadCtx.esp - 14#32
    Comp.modify (fun w ↦ { w with threadCtx := { w.threadCtx with esp := esp, eip := esp + 8#32 } })
    writeMemory esp (gsFrame w.segGs w.threadCtx.eip)

/-- A debug event handled for its own reason: whether the loop is left. -/
def handleDebugEvent (env : Environment) (evt : DebugEvent) : K Bool := do
  match evt with
  | .exitProcess exitCode =>
      Comp.modify (fun w ↦ w.recordExit exitCode)
      return true
  | .exception code address =>
      let w ← Comp.get
      if w.cur.inWin32Setup then
        if code = .singleStep then env.convertProcessToKeow
        resumeKeowProcess false
      else
        handleException env code address
        resumeKeowProcess true
      return false
  | _ =>
      resumeKeowProcess false
      return false

/-- One turn of `Process::DebuggerLoop`: whether the loop is left. -/
def debuggerTurn (env : Environment) : K Bool := do
  let w ← Comp.get
  let evt ← nextEvent w.inputs
  let w ← Comp.get
  match w.cur.lowestPending with
  | some sig =>
      modifyCur (fun p ↦ { p with
        pendingSignals := fun s ↦ if s = sig then false else p.pendingSignals s })
      handleCurrentSignal sig
      resumeKeowProcess true
      return false
  | none => handleDebugEvent env evt

/-- `Process::DebuggerLoop`, for at most a given number of turns. -/
def debuggerLoop (env : Environment) : Nat → K Unit
  | 0 => Comp.wait
  | n + 1 => do
      if ← debuggerTurn env then return ()
      else debuggerLoop env n

/-- The world at the head of the loop after a number of turns, unless it has ended. -/
def turns (env : Environment) : Nat → World → Option World
  | 0, w => some w
  | n + 1, w =>
      match debuggerTurn env w with
      | .ok false w' => turns env n w'
      | _ => none

theorem within_nextEvent (inputs : List Input) : Comp.Within receiving (nextEvent inputs) := by
  induction inputs with
  | nil => exact Comp.within_wait
  | cons i rest ih =>
    refine Comp.within_bind (Comp.within_modify (fun w ↦ received_absorb w i rest)) (fun _ ↦ ?_)
    split
    · exact Comp.within_pure _
    · exact ih

theorem within_resumeKeowProcess (needToRestoreGS : Bool) :
    Comp.Within receiving (resumeKeowProcess needToRestoreGS) := by
  refine Comp.within_ite ?_ (Comp.within_pure _)
  refine Comp.within_bind Comp.within_get (fun w ↦ ?_)
  exact Comp.within_bind (Comp.within_modify (fun _ ↦ received_of_cur_eq rfl rfl))
    (fun _ ↦ within_writeMemory _ _)

/-! ## The exit event -/

/-- What the next turn waits for: the event, and the world when it has come. -/
def arrival (w : World) : Option (DebugEvent × World) :=
  match nextEvent w.inputs w with
  | .ok evt w' => some (evt, w')
  | _ => none

/-- If the next turn consumes an exit of the process, it records the exit and leaves the
loop. -/
def ExitRecorded (env : Environment) (w : World) : Prop :=
  ∀ exitCode w₁, arrival w = some (.exitProcess exitCode, w₁) →
    ∃ w₂, debuggerTurn env w = .ok true w₂ ∧ w₂.cur.stillRunning = false ∧
      w₂.cur.exitCode = exitCode

/-- If the next turn consumes an exit of the process, no signal is pending by then. -/
def NoneSentBeforeExit (w : World) : Prop :=
  ∀ exitCode w₁, arrival w = some (.exitProcess exitCode, w₁) →
    ∀ sig < nsig, w₁.cur.pendingSignals sig = false

theorem lowestPending_eq_none_iff (p : Process) :
    p.lowestPending = none ↔ ∀ sig < nsig, p.pendingSignals sig = false := by
  simp [Process.lowestPending, List.find?_eq_none]

/-- A turn after its wait. -/
theorem debuggerTurn_of_arrival {env : Environment} {w w₁ : World} {evt : DebugEvent}
    (h : arrival w = some (evt, w₁)) :
    debuggerTurn env w =
      (match w₁.cur.lowestPending with
        | some sig => do
            modifyCur (fun p ↦ { p with
              pendingSignals := fun s ↦ if s = sig then false else p.pendingSignals s })
            handleCurrentSignal sig
            resumeKeowProcess true
            return false
        | none => handleDebugEvent env evt : K Bool) w₁ := by
  unfold arrival at h
  split at h
  · next evt' w' hn =>
    obtain ⟨rfl, rfl⟩ := Prod.mk.inj (Option.some.inj h)
    simp only [debuggerTurn, Bind.bind, Comp.bind, Comp.get, hn]
  · exact absurd h (by simp)

/-- A turn taken by a pending signal does not leave the loop. -/
theorem debuggerTurn_ne_true_of_pending {env : Environment} {w w₁ w₂ : World} {evt : DebugEvent}
    {sig : Nat} (h : arrival w = some (evt, w₁)) (hsig : w₁.cur.lowestPending = some sig) :
    debuggerTurn env w ≠ .ok true w₂ := by
  rw [debuggerTurn_of_arrival h, hsig]
  intro htrue
  have hpost : Comp.Post (do
      modifyCur (fun p ↦ { p with
        pendingSignals := fun s ↦ if s = sig then false else p.pendingSignals s })
      handleCurrentSignal sig
      resumeKeowProcess true
      return false : K Bool) w₁ (fun b _ ↦ b = false) (fun _ ↦ True) := by
    simp only [Comp.post_bind, Comp.post_pure]
    exact Comp.post_of_forall (fun _ _ ↦ Comp.post_of_forall (fun _ _ ↦ Comp.post_of_forall
      (fun _ _ ↦ trivial) (fun _ ↦ trivial)) (fun _ ↦ trivial)) (fun _ ↦ trivial)
  exact absurd (Comp.of_post_ok hpost htrue) (by simp)

/-- A turn records the exit it consumes exactly when no signal is pending by then. -/
theorem exitRecorded_iff_noneSent (env : Environment) (w : World) :
    ExitRecorded env w ↔ NoneSentBeforeExit w := by
  constructor
  · intro hrec exitCode w₁ harr
    obtain ⟨w₂, hturn, -, -⟩ := hrec exitCode w₁ harr
    rw [← lowestPending_eq_none_iff]
    cases hsig : w₁.cur.lowestPending with
    | none => rfl
    | some sig => exact absurd hturn (debuggerTurn_ne_true_of_pending harr hsig)
  · intro hnone exitCode w₁ harr
    have hsig := (lowestPending_eq_none_iff w₁.cur).mpr (hnone exitCode w₁ harr)
    rw [debuggerTurn_of_arrival harr, hsig]
    exact ⟨_, rfl, rfl, rfl⟩

/-- In every run of the loop, whatever signals other threads send and whenever: all exit events
are recorded and end the loop exactly when no signal is pending as one is consumed. -/
theorem run_exitRecorded_iff (env : Environment) (w₀ : World) :
    (∀ n w, turns env n w₀ = some w → ExitRecorded env w) ↔
      ∀ n w, turns env n w₀ = some w → NoneSentBeforeExit w := by
  constructor
  · exact fun h n w hrun ↦ (exitRecorded_iff_noneSent env w).mp (h n w hrun)
  · exact fun h n w hrun ↦ (exitRecorded_iff_noneSent env w).mpr (h n w hrun)

/-- A kernel whose unmodelled parts do nothing. -/
def idleEnvironment : Environment where
  ldtEntryForThread _ _ := 0#32
  otherSyscall _ ctx := return ctx
  ptracePeek ctx := return ctx
  canLoadImage _ := return none
  freeResources := return ()
  startImage _ := return ()
  convertProcessToKeow := return ()
  within_otherSyscall _ _ := Comp.within_pure _
  within_ptracePeek _ := Comp.within_pure _
  within_canLoadImage _ := Comp.within_pure _
  within_freeResources := Comp.within_pure _
  within_startImage _ := Comp.within_pure _
  within_convertProcessToKeow := Comp.within_pure _

/-- A `SIGCHLD` sent just before the process exits takes the turn that consumes the exit. -/
theorem exit_event_dropped :
    ¬∀ n w, turns idleEnvironment n (loneWorld [.send ⟨SIGCHLD, by decide⟩,
        .event (.exitProcess 7#32) Context.zero (fun _ ↦ 0)]) = some w →
      ExitRecorded idleEnvironment w := by
  intro hrec
  obtain ⟨w₂, hturn, -, -⟩ := hrec 0 _ rfl 7#32 _ rfl
  have hpending : ((loneWorld []).absorb (.send ⟨SIGCHLD, by decide⟩)).cur.lowestPending =
      some SIGCHLD := by decide
  exact debuggerTurn_ne_true_of_pending rfl hpending hturn

end Keow.Signal
