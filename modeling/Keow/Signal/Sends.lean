import Keow.Base.Ledger
import Keow.Base.Run
import Keow.Kernel.Table

/-!
# A sent signal across the system

The kernel threads of all processes side by side, as far as `m_PendingSignals` is concerned:
`SendSignal` sets a flag, `DebuggerLoop` clears one and handles its signal, `execve` clears all
of them and the child of a fork takes over those of its parent. Beside the flags goes a ledger
of the sends that each flag stands for, so that every `HandleSignal` can be traced to the sends
it answers.
-/

namespace Keow.Kernel.KernelTable

open Keow.Base

/-- `StartFork` gives up on a child. -/
def failFork (newP : Nat) : Comp KernelTable (Option Nat) := do
  deleteProcess newP
  return none

/-- `StartFork` called by `P`, up to its wait for the child, `Process.cpp:184–249`: the child
that has been registered, unless the fork fails before its process `runs`. -/
def openFork (P : Nat) (runs : Bool) : Comp KernelTable (Option Nat) := do
  let k ← Comp.get
  let newP := k.fresh
  let (pid, lastPID) := allocatePid (fun pid ↦ (k.findProcess pid).isSome) 10000 k.lastPID
  Comp.modify (beginFork lastPID)
  match pid with
  | none => failFork newP
  | some pid =>
      Comp.modify fun k ↦ k.register newP pid (k.pid P)
      if runs then return some newP else failFork newP

/-- The process that a new child copies, `Process.cpp:560`. -/
def parent (k : KernelTable) (child : Nat) : Option Nat :=
  k.findProcess (k.object child).parentPid

/-- The copy that the thread of a child makes, `Process.cpp:560–562`. -/
def copyParent (child : Nat) (openFiles : Nat → Option OpenFile) : Comp KernelTable Unit := do
  let k ← Comp.get
  match k.parent child with
  | none => Comp.fault
  | some parent =>
      Comp.modify fun k ↦ k.update child (forkCopyOtherProcess (k.object parent) openFiles)

/-- The two parts make up a fork that nothing interrupts. -/
theorem startFork_started (P : Nat) (openFiles : Nat → Option OpenFile) :
    startFork P (.started openFiles) = do
      match ← openFork P true with
      | none => return none
      | some newP =>
          copyParent newP openFiles
          return some newP := by
  funext k
  simp only [startFork, openFork, failFork, copyParent, parent, Bind.bind, Comp.bind, Comp.get,
    Comp.modify]
  generalize allocatePid (fun pid ↦ (k.findProcess pid).isSome) 10000 k.lastPID = r
  obtain ⟨pid, lastPID⟩ := r
  cases pid with
  | none =>
    dsimp only [Comp.bind]
    cases deleteProcess k.fresh (k.beginFork lastPID) <;> rfl
  | some pid =>
    simp only [Comp.bind, if_true, Comp.modify, Comp.get]
    show _ = Comp.bind _ _ _
    generalize (k.beginFork lastPID).register k.fresh pid ((k.beginFork lastPID).pid P) = k'
    dsimp only [Comp.bind, Comp.get]
    cases k'.findProcess (k'.object k.fresh).parentPid <;> rfl

/-! ## Pending flags of the table -/

/-- The flag `m_PendingSignals[sig]` of a process, by process and signal. -/
def pending (k : KernelTable) (c : Nat × Nat) : Bool := (k.object c.1).pendingSignals c.2

theorem pending_update (k : KernelTable) (p : Nat) (f : Process → Process) (c : Nat × Nat) :
    (k.update p f).pending c =
      if c.1 = p then (f (k.object p)).pendingSignals c.2 else k.pending c := by
  unfold pending update
  dsimp only
  split
  · next he => rw [he]
  · rfl

/-- No flag has changed. -/
def SameFlags (k k' : KernelTable) : Prop := ∀ c, k'.pending c = k.pending c

theorem SameFlags.trans {k₁ k₂ k₃ : KernelTable} (h : SameFlags k₁ k₂) (h' : SameFlags k₂ k₃) :
    SameFlags k₁ k₃ := fun c ↦ (h' c).trans (h c)

/-- An update that leaves the signals of the process alone. -/
theorem sameFlags_update (k : KernelTable) (p : Nat) {f : Process → Process}
    (hf : ∀ q, (f q).pendingSignals = q.pendingSignals) : SameFlags k (k.update p f) := by
  intro c
  rw [pending_update, hf]
  split
  · next he => rw [pending, he]
  · rfl

theorem sameFlags_register (k : KernelTable) (p : Nat) (pid parentPid : DWORD) :
    SameFlags k (k.register p pid parentPid) := by
  have hupdate : SameFlags k (k.update p fun q ↦ { q with pid := pid, parentPid := parentPid }) :=
    sameFlags_update k p fun _ ↦ rfl
  exact hupdate

theorem sameFlags_event (k : KernelTable) (e : ProcessEvent) : SameFlags k (k.event e) := by
  cases e with
  | exitProcess p exitCode =>
    rw [event]
    apply sameFlags_update
    exact fun _ ↦ rfl
  | releaseChildren p =>
    rw [event]
    split
    · exact fun _ ↦ rfl
    · have hfold : ∀ (ps : List Nat) (k' : KernelTable), SameFlags k k' →
          SameFlags k (ps.foldl (fun k' p2 ↦ k'.update p2 (adopt (k'.pid p))) k') := by
        intro ps
        induction ps with
        | nil => exact fun _ h ↦ h
        | cons p2 ps ih =>
          intro k' hk'
          apply ih
          exact hk'.trans (sameFlags_update k' p2 fun _ ↦ rfl)
      exact hfold k.listed k fun _ ↦ rfl

theorem sameFlags_deleteProcess (p : Nat) : Comp.Always SameFlags (deleteProcess p) := by
  intro k
  simp only [deleteProcess, Bind.bind, Comp.bind, Comp.get]
  cases k.processes.eraseValue p <;> exact fun _ ↦ rfl

theorem sameFlags_bind {α β : Type} {x : Comp KernelTable α} {f : α → Comp KernelTable β}
    (hx : Comp.Always SameFlags x) (hf : ∀ a, Comp.Always SameFlags (f a)) :
    Comp.Always SameFlags (x >>= f) := by
  apply Comp.always_bind _ hx hf
  exact fun _ _ _ h h' ↦ SameFlags.trans h h'

theorem sameFlags_failFork (newP : Nat) : Comp.Always SameFlags (failFork newP) := by
  apply sameFlags_bind (sameFlags_deleteProcess newP)
  exact fun _ ↦ Comp.always_pure (fun _ _ ↦ rfl) none

/-- A fork that has begun has added a process without a pending signal, or none. -/
theorem pending_openFork (P : Nat) (runs : Bool) (k : KernelTable) (c : Nat × Nat) :
    (openFork P runs k).state.pending c = if c.1 = k.fresh then false else k.pending c := by
  have hbegin : ∀ lastPID, (k.beginFork lastPID).pending c =
      if c.1 = k.fresh then false else k.pending c := by
    intro lastPID
    unfold pending beginFork newProcess
    dsimp only
    split <;> rfl
  simp only [openFork, Bind.bind, Comp.bind, Comp.get, Comp.modify]
  generalize allocatePid (fun pid ↦ (k.findProcess pid).isSome) 10000 k.lastPID = r
  obtain ⟨pid, lastPID⟩ := r
  rw [← hbegin lastPID]
  generalize k.beginFork lastPID = k₁
  have hrest : Comp.Always SameFlags (match pid with
      | none => failFork k.fresh
      | some pid => do
          Comp.modify fun k₁ ↦ k₁.register k.fresh pid (k₁.pid P)
          if runs then return some k.fresh else failFork k.fresh) := by
    cases pid with
    | none => exact sameFlags_failFork _
    | some pid =>
      apply sameFlags_bind
      · exact Comp.always_modify fun k₁ ↦ sameFlags_register k₁ k.fresh pid (k₁.pid P)
      · intro _
        cases runs with
        | true => exact Comp.always_pure (fun _ _ ↦ rfl) _
        | false => exact sameFlags_failFork _
  exact hrest k₁ c

end Keow.Kernel.KernelTable

namespace Keow.Signal

open Keow.Base Keow.Kernel

/-- Where the kernel thread of a process is: in `WaitForDebugEvent`, handling a signal or an
event, in `StartFork` until the child has copied it, or past `DebuggerLoop`. -/
inductive Phase where
  | waiting
  | handling
  | forking
  | left
deriving DecidableEq

/-- The kernel threads over one process table: the phase of each, the process that waits for
the `m_hForkDoneEvent` of a child, and the ledger of sends by flag. A service of the ledger is a
call of `HandleSignal`. -/
structure System where
  table : KernelTable
  phase : Nat → Phase
  forkDone : Nat → Option Nat
  ledger : Ledger (Nat × Nat)

/-- What a kernel thread does next. -/
inductive Action where
  /-- `WaitForDebugEvent` returns in the thread of `p`. -/
  | debugEvent (p : Nat) (evt : DebugEvent)
  /-- The thread of `p` resumes its process and waits for the next event. -/
  | resume (p : Nat)
  /-- The thread of `p` meets the exit of its process in a nested loop. -/
  | exitThread (p : Nat) (exitCode : DWORD)
  /-- What the thread of `p` does to the table after its loop. -/
  | releaseChildren (p : Nat)
  /-- The thread of `P` calls `SendSignal` on `p`. -/
  | sendSignal (P p : Nat) (sig : Signal)
  /-- The thread of `P` starts a fork, which fails unless its process `runs`. -/
  | startFork (P : Nat) (runs : Bool)
  /-- The thread of `child` runs `ForkCopyOtherProcess` and lets its parent go on. -/
  | forkCopy (child : Nat) (openFiles : Nat → Option OpenFile)
  /-- The thread of `p` resets its signals in `execve`. -/
  | initSignalHandling (p : Nat)
  /-- The thread of `P` reaps `p` in `wait4`. -/
  | reap (P p : Nat)

namespace System

/-- Move one thread to another phase. -/
def enter (s : System) (p : Nat) (phase : Phase) : System :=
  { s with phase := fun q ↦ if q = p then phase else s.phase q }

/-- Clear a flag, `Process.cpp:362`. -/
def clearPending (sig : Nat) (p : Process) : Process :=
  { p with pendingSignals := fun s ↦ if s = sig then false else p.pendingSignals s }

/-- Every flag of `p` lost. -/
def lose (p : Nat) (c : Nat × Nat) : Option (Nat × Nat) := if c.1 = p then none else some c

/-- Every flag of `child` taken over from `parent`. -/
def takeOver (child parent : Nat) (c : Nat × Nat) : Option (Nat × Nat) :=
  if c.1 = child then some (parent, c.2) else some c

/-- A turn of `DebuggerLoop`, `Process.cpp:351–391`: the lowest pending signal is handled in
place of the event. -/
def turn (s : System) (p : Nat) (evt : DebugEvent) : System :=
  match (s.table.object p).lowestPending with
  | some sig =>
      { s.enter p .handling with
        table := s.table.update p (clearPending sig)
        ledger := s.ledger.serve (p, sig) }
  | none =>
      match evt with
      | .exitProcess exitCode =>
          { s.enter p .left with table := s.table.event (.exitProcess p exitCode) }
      | _ => s.enter p .handling

/-- `Process::SendSignal`, `Process.cpp:1487–1515`. -/
def send (s : System) (P p sig : Nat) : System :=
  if p = P then { s with ledger := s.ledger.serveUnasked (p, sig) }
  else
    { s with
      table := s.table.update p (Process.setPending sig)
      ledger := s.ledger.issue (p, sig) }

/-- `P` starts a fork and blocks if there is a child to wait for. -/
def fork (s : System) (P : Nat) (runs : Bool) : System :=
  let s' := { s with
    table := (KernelTable.openFork P runs s.table).state
    ledger := s.ledger.retarget (lose s.table.fresh) }
  match KernelTable.openFork P runs s.table with
  | .ok (some child) _ =>
      { s'.enter P .forking with forkDone := fun c ↦ if c = child then some P else s.forkDone c }
  | _ => s'

/-- The copy of the parent of `child`, which sets the event that `P` waits for. -/
def copy (s : System) (child P : Nat) (openFiles : Nat → Option OpenFile) : System :=
  match s.table.parent child with
  | none => s
  | some parent =>
      { s.enter P .handling with
        table := (KernelTable.copyParent child openFiles s.table).state
        forkDone := fun c ↦ if c = child then none else s.forkDone c
        ledger := s.ledger.retarget (takeOver child parent) }

/-- One action, which leaves the system alone where the thread is not in the phase for it. -/
def step (s : System) : Action → System
  | .debugEvent p evt =>
      if p ∈ s.table.listed ∧ s.phase p = .waiting then s.turn p evt else s
  | .resume p => if s.phase p = .handling then s.enter p .waiting else s
  | .exitThread p exitCode =>
      if s.phase p = .handling then
        { s.enter p .left with table := s.table.event (.exitProcess p exitCode) }
      else s
  | .releaseChildren p =>
      if s.phase p = .left then { s with table := s.table.event (.releaseChildren p) } else s
  | .sendSignal P p sig =>
      if (s.phase P = .handling ∨ s.phase P = .left) ∧ p ∈ s.table.listed then
        s.send P p sig.val
      else s
  | .startFork P runs => if s.phase P = .handling then s.fork P runs else s
  | .forkCopy child openFiles =>
      match s.forkDone child with
      | none => s
      | some P => if s.phase child = .handling then s.copy child P openFiles else s
  | .initSignalHandling p =>
      if s.phase p = .handling then
        { s with
          table := s.table.update p Process.initSignalHandling
          ledger := s.ledger.retarget (lose p) }
      else s
  | .reap P p =>
      if s.phase P = .handling ∧ (s.table.object p).stillRunning = false then
        { s with table := (KernelTable.deleteProcess p s.table).state }
      else s

/-- The system once init is registered. -/
def boot : System where
  table := KernelTable.startInit
  phase := fun _ ↦ .waiting
  forkDone := fun _ ↦ none
  ledger := Ledger.empty

/-- Every send has been answered by at most one call of `HandleSignal`. -/
def AtMostOnce (s : System) : Prop := ∀ n, s.ledger.times n ≤ 1

/-- The action is not the copy of a parent that has a signal pending. -/
def Calm (s : System) : Action → Prop
  | .forkCopy child _ =>
      ∀ parent, s.table.parent child = some parent → ∀ sig, s.table.pending (parent, sig) = false
  | _ => True

/-! ## What an action does to the flags -/

/-- What one action does to the flags and the ledger. -/
inductive Changed (s : System) (a : Action) (s' : System) : Prop where
  | kept (flags : s.table.SameFlags s'.table) (ledger : s'.ledger = s.ledger)
  | served (c : Nat × Nat)
      (flags : ∀ c', s'.table.pending c' = if c' = c then false else s.table.pending c')
      (ledger : s'.ledger = s.ledger.serve c)
  | unasked (c : Nat × Nat) (flags : s.table.SameFlags s'.table)
      (ledger : s'.ledger = s.ledger.serveUnasked c)
  | issued (c : Nat × Nat)
      (flags : ∀ c', s'.table.pending c' = if c' = c then true else s.table.pending c')
      (ledger : s'.ledger = s.ledger.issue c)
  | lost (p : Nat)
      (flags : ∀ c, s'.table.pending c = if c.1 = p then false else s.table.pending c)
      (ledger : s'.ledger = s.ledger.retarget (lose p))
  | copied (child parent : Nat) (openFiles : Nat → Option OpenFile)
      (action : a = .forkCopy child openFiles) (found : s.table.parent child = some parent)
      (flags : ∀ c, s'.table.pending c =
        if c.1 = child then s.table.pending (parent, c.2) else s.table.pending c)
      (ledger : s'.ledger = s.ledger.retarget (takeOver child parent))

theorem changed_turn (s : System) (a : Action) (p : Nat) (evt : DebugEvent) :
    Changed s a (s.turn p evt) := by
  unfold turn
  split
  · next sig _ =>
    apply Changed.served (p, sig) _ rfl
    intro c
    show (s.table.update p (clearPending sig)).pending c = _
    rw [KernelTable.pending_update]
    by_cases hp : c.1 = p
    · rw [if_pos hp]
      by_cases hsig : c.2 = sig
      · rw [if_pos (Prod.ext hp hsig)]
        exact if_pos hsig
      · rw [if_neg (fun hc ↦ hsig (congrArg Prod.snd hc)), KernelTable.pending, hp]
        exact if_neg hsig
    · rw [if_neg hp, if_neg (fun hc ↦ hp (congrArg Prod.fst hc))]
  · split
    · next exitCode =>
      exact .kept (KernelTable.sameFlags_event s.table (.exitProcess p exitCode)) rfl
    · exact .kept (fun _ ↦ rfl) rfl

theorem changed_send (s : System) (a : Action) (P p sig : Nat) :
    Changed s a (s.send P p sig) := by
  unfold send
  split
  · exact .unasked (p, sig) (fun _ ↦ rfl) rfl
  · apply Changed.issued (p, sig) _ rfl
    intro c
    show (s.table.update p (Process.setPending sig)).pending c = _
    rw [KernelTable.pending_update]
    by_cases hp : c.1 = p
    · rw [if_pos hp]
      by_cases hsig : c.2 = sig
      · rw [if_pos (Prod.ext hp hsig)]
        simp [Process.setPending, hsig]
      · rw [if_neg (fun hc ↦ hsig (congrArg Prod.snd hc)), KernelTable.pending, hp]
        simp [Process.setPending, hsig]
    · rw [if_neg hp, if_neg (fun hc ↦ hp (congrArg Prod.fst hc))]

theorem changed_fork (s : System) (a : Action) (P : Nat) (runs : Bool) :
    Changed s a (s.fork P runs) := by
  have hflags := KernelTable.pending_openFork P runs s.table
  unfold fork
  dsimp only
  split
  · exact .lost s.table.fresh hflags rfl
  · exact .lost s.table.fresh hflags rfl

theorem changed_copy (s : System) (child P : Nat) (openFiles : Nat → Option OpenFile) :
    Changed s (.forkCopy child openFiles) (s.copy child P openFiles) := by
  unfold copy
  cases hfound : s.table.parent child with
  | none => exact .kept (fun _ ↦ rfl) rfl
  | some parent =>
    apply Changed.copied child parent openFiles rfl hfound _ rfl
    intro c
    show (KernelTable.copyParent child openFiles s.table).state.pending c = _
    simp only [KernelTable.copyParent, Bind.bind, Comp.bind, Comp.get, hfound]
    show (s.table.update child _).pending c = _
    rw [KernelTable.pending_update]
    rfl

theorem changed_step (s : System) (a : Action) : Changed s a (s.step a) := by
  have hkept : Changed s a s := .kept (fun _ ↦ rfl) rfl
  cases a with
  | debugEvent p evt =>
    rw [step]
    split
    · exact changed_turn s _ p evt
    · exact hkept
  | resume p =>
    rw [step]
    split
    · exact .kept (fun _ ↦ rfl) rfl
    · exact hkept
  | exitThread p exitCode =>
    rw [step]
    split
    · exact .kept (KernelTable.sameFlags_event s.table (.exitProcess p exitCode)) rfl
    · exact hkept
  | releaseChildren p =>
    rw [step]
    split
    · exact .kept (KernelTable.sameFlags_event _ _) rfl
    · exact hkept
  | sendSignal P p sig =>
    rw [step]
    split
    · exact changed_send s _ P p sig.val
    · exact hkept
  | startFork P runs =>
    rw [step]
    split
    · exact changed_fork s _ P runs
    · exact hkept
  | forkCopy child openFiles =>
    rw [step]
    split
    · exact hkept
    · split
      · exact changed_copy s child _ openFiles
      · exact hkept
  | initSignalHandling p =>
    rw [step]
    split
    · exact .lost p (KernelTable.pending_update s.table p _) rfl
    · exact hkept
  | reap P p =>
    rw [step]
    split
    · exact .kept (KernelTable.sameFlags_deleteProcess p s.table) rfl
    · exact hkept

/-! ## The flags and the sends they stand for -/

/-- A flag is set exactly when it stands for some send. -/
def Tallied (s : System) : Prop := ∀ c, s.table.pending c = true ↔ s.ledger.held c ≠ []

theorem tallied_of_changed {s s' : System} {a : Action} (h : s.Tallied) (hc : Changed s a s') :
    s'.Tallied := by
  intro c
  cases hc with
  | kept hflags hledger =>
    rw [hflags, hledger]
    exact h c
  | served c' hflags hledger =>
    rw [hflags, hledger, Ledger.held_serve]
    split
    · simp
    · exact h c
  | unasked c' hflags hledger =>
    rw [hflags, hledger]
    exact h c
  | issued c' hflags hledger =>
    rw [hflags, hledger, Ledger.held_issue]
    split
    · simp
    · exact h c
  | lost p hflags hledger =>
    rw [hflags, hledger, Ledger.held_retarget, lose]
    split
    · simp
    · exact h c
  | copied child parent _ _ _ hflags hledger =>
    rw [hflags, hledger, Ledger.held_retarget, takeOver]
    split
    · exact h (parent, c.2)
    · exact h c

/-- Flags of one process lost multiply no send. -/
theorem lose_injective {p : Nat} {c c' d : Nat × Nat} (h : lose p c = some d)
    (h' : lose p c' = some d) : c = c' := by
  unfold lose at h h'
  split at h
  · cases h
  · split at h'
    · cases h'
    · exact (Option.some.inj h).trans (Option.some.inj h').symm

/-- Nor do those taken over, but for those of the parent. -/
theorem takeOver_injective {child parent : Nat} {c c' d : Nat × Nat}
    (h : takeOver child parent c = some d) (h' : takeOver child parent c' = some d)
    (hd : d.1 ≠ parent) : c = c' := by
  unfold takeOver at h h'
  split at h
  · exact absurd (congrArg Prod.fst (Option.some.inj h)).symm hd
  · split at h'
    · exact absurd (congrArg Prod.fst (Option.some.inj h')).symm hd
    · exact (Option.some.inj h).trans (Option.some.inj h').symm

/-- The ledger stays sound unless a fork copies a set flag. -/
theorem sound_of_changed {s s' : System} {a : Action} (h : s.Tallied) (hs : s.ledger.Sound)
    (hcalm : s.Calm a) (hc : Changed s a s') : s'.ledger.Sound := by
  cases hc with
  | kept _ hledger =>
    rw [hledger]
    exact hs
  | served c _ hledger =>
    rw [hledger]
    exact hs.serve c
  | unasked c _ hledger =>
    rw [hledger]
    exact hs.serveUnasked c
  | issued c _ hledger =>
    rw [hledger]
    exact hs.issue c
  | lost p _ hledger =>
    rw [hledger]
    apply hs.retarget
    exact fun c c' d hcd hcd' _ ↦ lose_injective hcd hcd'
  | copied child parent openFiles haction hfound _ hledger =>
    rw [hledger]
    apply hs.retarget
    intro c c' d hcd hcd' hd
    apply takeOver_injective hcd hcd'
    -- the parent stands for no send
    rintro rfl
    subst haction
    have hunset : s.table.pending d = false := hcalm d.1 hfound d.2
    have hset := (h d).mpr hd
    rw [hunset] at hset
    cases hset

/-- The flags tell which sends are outstanding, and no send is answered twice. -/
structure Accounted (s : System) : Prop where
  tallied : s.Tallied
  sound : s.ledger.Sound

theorem accounted_boot : boot.Accounted where
  tallied := by
    intro c
    have hunset : KernelTable.startInit.pending c = false := by
      unfold KernelTable.startInit KernelTable.pending KernelTable.register KernelTable.update
        KernelTable.newProcess KernelTable.new
      dsimp only
      split <;> simp
    simp [boot, hunset, Ledger.empty]
  sound := Ledger.sound_empty

theorem accounted_step (s : System) (a : Action) (h : s.Accounted) (hcalm : s.Calm a) :
    (s.step a).Accounted :=
  ⟨tallied_of_changed h.tallied (changed_step s a),
    sound_of_changed h.tallied h.sound hcalm (changed_step s a)⟩

/-- In every run in which no fork copies the flags of a parent with a signal pending, every send
is answered by at most one call of `HandleSignal` in the whole system. -/
theorem atMostOnce_of_calm (as : List Action) (h : Along step Calm boot as) :
    ∀ s ∈ trail step boot as, s.AtMostOnce := by
  intro s hs
  exact (trail_of_along accounted_step accounted_boot h s hs).sound.served_once

/-- The tallies hold in every run. -/
theorem tallied_of_mem_trail (as : List Action) : ∀ s ∈ trail step boot as, s.Tallied :=
  @trail_invariant _ _ step Tallied (fun _ ↦ True)
    (fun s a h _ ↦ tallied_of_changed h (changed_step s a)) boot accounted_boot.tallied as
    fun _ _ ↦ trivial

/-- Init (process 0) forks a child (1), which then sends it `SIGHUP`. -/
def sendAfterFork : List Action :=
  let syscall := DebugEvent.exception .accessViolation 0#32
  let setup := DebugEvent.exception .singleStep 0#32
  [.debugEvent 0 syscall, .startFork 0 true, .debugEvent 1 setup, .forkCopy 1 fun _ ↦ none,
    .resume 1, .resume 0, .debugEvent 1 syscall, .sendSignal 1 0 ⟨SIGHUP, SIGHUP_bounds⟩,
    .debugEvent 0 syscall]

theorem sendAfterFork_atMostOnce : (sendAfterFork.foldl step boot).AtMostOnce := by
  apply atMostOnce_of_calm sendAfterFork _ _ (foldl_mem_trail step boot sendAfterFork)
  refine ⟨trivial, trivial, trivial, ?_, trivial, trivial, trivial, trivial, trivial, trivial⟩
  intro parent hparent sig
  have hinit : some 0 = some parent := hparent
  cases hinit
  rfl

/-- Init (process 0) forks a child (1). While init is in its next fork, the child sends it
`SIGHUP` before the new child (2) makes its copy, and both handle the signal. -/
def forkWhilePending : List Action :=
  let syscall := DebugEvent.exception .accessViolation 0#32
  let setup := DebugEvent.exception .singleStep 0#32
  [.debugEvent 0 syscall, .startFork 0 true, .debugEvent 1 setup, .forkCopy 1 fun _ ↦ none,
    .resume 1, .resume 0, .debugEvent 0 syscall, .debugEvent 1 syscall, .startFork 0 true,
    .debugEvent 2 setup, .sendSignal 1 0 ⟨SIGHUP, SIGHUP_bounds⟩, .forkCopy 2 fun _ ↦ none,
    .resume 2, .resume 0, .debugEvent 2 syscall, .debugEvent 0 syscall]

theorem forkWhilePending_twice : ¬∀ s ∈ trail step boot forkWhilePending, s.AtMostOnce := by
  intro h
  have hlast := h _ (foldl_mem_trail step boot forkWhilePending) 0
  revert hlast
  decide +kernel

/-! ## A copied flag is handled twice -/

theorem step_resume {s : System} {p : Nat} (h : s.phase p = .handling) :
    s.step (.resume p) = s.enter p .waiting := by
  rw [step, if_pos h]

theorem step_debugEvent_of_pending {s : System} {p sig : Nat} (hp : p ∈ s.table.listed)
    (hphase : s.phase p = .waiting) (hsig : (s.table.object p).lowestPending = some sig)
    (evt : DebugEvent) :
    s.step (.debugEvent p evt) =
      { s.enter p .handling with
        table := s.table.update p (clearPending sig)
        ledger := s.ledger.serve (p, sig) } := by
  rw [step, if_pos ⟨hp, hphase⟩]
  unfold turn
  rw [hsig]

/-- Two processes that stand for one send at their lowest pending signal both handle it. -/
theorem not_atMostOnce_of_shared {s : System} {p q sig n : Nat} (hne : p ≠ q)
    (hp : p ∈ s.table.listed ∧ s.phase p = .waiting)
    (hq : q ∈ s.table.listed ∧ s.phase q = .waiting)
    (hps : (s.table.object p).lowestPending = some sig)
    (hqs : (s.table.object q).lowestPending = some sig) (hpn : n ∈ s.ledger.held (p, sig))
    (hqn : n ∈ s.ledger.held (q, sig)) (evt evt' : DebugEvent) :
    ¬((s.step (.debugEvent p evt)).step (.debugEvent q evt')).AtMostOnce := by
  have hphase : (s.enter p .handling).phase q = .waiting := (if_neg hne.symm).trans hq.2
  have hsig : ((s.table.update p (clearPending sig)).object q).lowestPending = some sig := by
    rw [KernelTable.update]
    dsimp only
    rw [if_neg hne.symm, hqs]
  rw [step_debugEvent_of_pending hp.1 hp.2 hps]
  rw [step_debugEvent_of_pending (by exact hq.1) (by exact hphase) (by exact hsig)]
  intro honce
  have htwice := Ledger.two_le_times_serve_serve (fun h ↦ hne (congrArg Prod.fst h)) hpn hqn
  exact Nat.lt_irrefl _ (lt_of_lt_of_le htwice (honce n))

/-- Past the copy, once both threads wait for a debug event again. -/
theorem foldl_copy_resume {s : System} {child P : Nat} (hchild : s.phase child = .handling)
    (hdone : s.forkDone child = some P) (hparent : s.table.parent child = some P)
    (hne : child ≠ P) (openFiles : Nat → Option OpenFile) :
    [.forkCopy child openFiles, .resume child, .resume P].foldl step s =
      { (((s.enter P .handling).enter child .waiting).enter P .waiting) with
        table := s.table.update child
          (KernelTable.forkCopyOtherProcess (s.table.object P) openFiles)
        forkDone := fun c ↦ if c = child then none else s.forkDone c
        ledger := s.ledger.retarget (takeOver child P) } := by
  have hcopy : s.step (.forkCopy child openFiles) =
      { s.enter P .handling with
        table := s.table.update child
          (KernelTable.forkCopyOtherProcess (s.table.object P) openFiles)
        forkDone := fun c ↦ if c = child then none else s.forkDone c
        ledger := s.ledger.retarget (takeOver child P) } := by
    rw [step, hdone]
    dsimp only
    rw [if_pos hchild]
    unfold copy
    rw [hparent]
    simp only [KernelTable.copyParent, Bind.bind, Comp.bind, Comp.get, hparent]
    rfl
  obtain ⟨s₁, hs₁⟩ : ∃ s₁, s.step (.forkCopy child openFiles) = s₁ := ⟨_, rfl⟩
  rw [hs₁] at hcopy
  have hchild' : s₁.phase child = .handling := by
    rw [hcopy]
    exact (if_neg hne).trans hchild
  have hP : (s₁.enter child .waiting).phase P = .handling := by
    rw [hcopy]
    exact (if_neg hne.symm).trans (if_pos rfl)
  simp only [List.foldl_cons, List.foldl_nil, hs₁]
  rw [step_resume hchild', step_resume hP, hcopy]
  rfl

/-- The condition on a fork is exact: in every run, where a child is about to copy a parent with a
signal pending, the copy and a debug event in each make both handle the same send. -/
theorem not_atMostOnce_of_not_calm {s : System} {as : List Action}
    (hs : s ∈ trail step boot as) {child P sig : Nat}
    (hchild : s.phase child = .handling) (hdone : s.forkDone child = some P)
    (hparent : s.table.parent child = some P) (hne : child ≠ P)
    (hlisted : child ∈ s.table.listed) (hP : P ∈ s.table.listed) (hsig : sig < nsig)
    (hpending : s.table.pending (P, sig) = true) (openFiles : Nat → Option OpenFile)
    (evt evt' : DebugEvent) :
    ¬([.forkCopy child openFiles, .resume child, .resume P, .debugEvent child evt,
      .debugEvent P evt'].foldl step s).AtMostOnce := by
  obtain ⟨lowest, hlowest⟩ : ∃ lowest, (s.table.object P).lowestPending = some lowest := by
    rw [← Option.isSome_iff_exists, Process.lowestPending, List.find?_isSome]
    exact ⟨sig, List.mem_range.mpr hsig, hpending⟩
  have hset : s.table.pending (P, lowest) = true := by
    have hfound := hlowest
    rw [Process.lowestPending] at hfound
    have hflag := List.find?_some hfound
    exact hflag
  have hheld := (tallied_of_mem_trail as s hs (P, lowest)).mp hset
  obtain ⟨n, hn⟩ := List.exists_mem_of_ne_nil _ hheld
  rw [show [.forkCopy child openFiles, .resume child, .resume P, .debugEvent child evt,
      .debugEvent P evt'] = [.forkCopy child openFiles, .resume child, .resume P] ++
        [Action.debugEvent child evt, .debugEvent P evt'] from rfl, List.foldl_append,
    foldl_copy_resume hchild hdone hparent hne openFiles]
  have hobject : (s.table.update child
      (KernelTable.forkCopyOtherProcess (s.table.object P) openFiles)).object P =
        s.table.object P := if_neg hne.symm
  apply not_atMostOnce_of_shared hne
  · exact ⟨hlisted, (if_neg hne).trans (if_pos rfl)⟩
  · exact ⟨hP, if_pos rfl⟩
  · show ((s.table.update child _).object child).lowestPending = some lowest
    rw [← hlowest, KernelTable.update]
    dsimp only
    rw [if_pos rfl]
    rfl
  · show ((s.table.update child _).object P).lowestPending = some lowest
    rw [hobject, hlowest]
  · apply Ledger.mem_held_retarget.mpr
    exact ⟨(P, lowest), if_pos rfl, hn⟩
  · apply Ledger.mem_held_retarget.mpr
    exact ⟨(P, lowest), if_neg hne.symm, hn⟩

end System

end Keow.Signal
