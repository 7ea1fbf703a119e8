import Keow.Signal.Calls
import Mathlib.Data.Finset.Card

/-!
# Blocked signals

A signal raised while its mask bit is set is owed until it is acted on. `DebuggerLoop`
(`Process.cpp:356–375`) clears the pending flag of the lowest pending signal before
`HandleSignal` looks at the mask (`Process.cpp:1573–1578`), and a signal raised on `P` by its own
exception has no pending flag at all. The runs in which neither happens to a blocked signal keep
every owed signal pending, and act on it once its turn has come.
-/

namespace Keow.Signal

open Keow.Base Keow.Kernel

/-! ## Owed signals -/

/-- The signal that a line of the trace records as acted on: by its handler, by its default
action or by ignoring it. -/
def actedOn : Trace → Option Nat
  | .dispatched sig _ _ => some sig
  | .defaulted sig => some sig
  | .ignored sig => some sig
  | _ => none

/-- The signal that a line of the trace records as raised while blocked. -/
def raisedBlocked : Trace → Option Nat
  | .raised sig true => some sig
  | _ => none

/-- `sig` was raised while blocked and has not been acted on since. -/
def owed (sig : Nat) : List Trace → Bool
  | [] => false
  | t :: ts => actedOn t != some sig && (raisedBlocked t == some sig || owed sig ts)

/-- Every owed signal is pending. -/
def Kept (w : World) : Prop :=
  ∀ sig, sig ≠ SIGKILL → sig ≠ SIGSTOP → owed sig w.trace = true →
    w.cur.pendingSignals sig = true

/-- `HandleSignal` does not discard the signal. -/
def CanActOn (p : Process) (sig : Nat) : Prop :=
  sig = SIGKILL ∨ sig = SIGSTOP ∨ p.blocks sig = false

theorem owed_append {sig : Nat} {new ts : List Trace} (h : owed sig (new ++ ts) = true) :
    (∃ t ∈ new, raisedBlocked t = some sig) ∨ owed sig ts = true := by
  induction new with
  | nil => exact .inr h
  | cons t new ih =>
    simp only [List.cons_append, owed, Bool.and_eq_true, Bool.or_eq_true, beq_iff_eq] at h
    rcases h.2 with ht | ht
    · exact .inl ⟨t, by simp, ht⟩
    · rcases ih ht with ⟨t', hmem, ht'⟩ | hold
      · exact .inl ⟨t', by simp [hmem], ht'⟩
      · exact .inr hold

theorem raised_of_raisedBlocked {t : Trace} {sig : Nat} (h : raisedBlocked t = some sig) :
    t = .raised sig true := by
  unfold raisedBlocked at h
  split at h
  · obtain rfl := Option.some.inj h
    rfl
  · exact absurd h (by simp)

/-- Where nothing is handled or forgotten, owed signals stay pending. -/
theorem kept_of_quiet {w w' : World} (h : Quiet w w') (hk : Kept w) : Kept w' := by
  intro sig hkill hstop howed
  obtain ⟨new, ht, -, hraised⟩ := h.lines
  rw [ht] at howed
  rcases owed_append howed with ⟨t, hmem, hblocked⟩ | hold
  · obtain rfl := raised_of_raisedBlocked hblocked
    exact hraised sig true hmem
  · exact h.pending sig (hk sig hkill hstop hold)

/-- Every owed signal but one is pending. -/
def KeptBut (sig : Nat) (w : World) : Prop :=
  ∀ s, s ≠ sig → s ≠ SIGKILL → s ≠ SIGSTOP → owed s w.trace = true →
    w.cur.pendingSignals s = true

/-- A signal that is acted on is no longer owed. -/
theorem kept_of_actedOn {sig : Nat} {t : Trace} {w w' : World} (hk : KeptBut sig w)
    (ht : actedOn t = some sig) (hpending : w'.cur.pendingSignals = w.cur.pendingSignals)
    (htrace : w'.trace = t :: w.trace) : Kept w' := by
  intro s hkill hstop howed
  rw [htrace] at howed
  simp only [owed, Bool.and_eq_true, Bool.or_eq_true, beq_iff_eq, bne_iff_ne, ht] at howed
  have hs : s ≠ sig := fun hs ↦ howed.1 (by rw [hs])
  rw [hpending]
  apply hk s hs hkill hstop
  rcases howed.2 with hraised | hold
  · obtain rfl := raised_of_raisedBlocked hraised
    exact absurd ht (by simp [actedOn])
  · exact hold

theorem kept_of_acted {sig : Nat} {w w' : World} (h : Acted sig w w') (hk : KeptBut sig w)
    (hact : owed sig w.trace = true → CanActOn w.cur sig) : Kept w' := by
  cases h with
  | masked hkill hstop hblocked hw =>
    subst hw
    intro s hkill' hstop' howed
    have hold : owed s w.trace = true := by simpa [World.withTrace, owed, actedOn, raisedBlocked]
      using howed
    by_cases hs : s = sig
    · subst hs
      rcases hact hold with h | h | h
      · exact absurd h hkill
      · exact absurd h hstop
      · exact absurd hblocked (by simp [h])
    · exact hk s hs hkill' hstop' hold
  | caught hc hw =>
    subst hw
    exact kept_of_actedOn hk rfl rfl rfl
  | settled hc t ht hrec =>
    refine kept_of_quiet (quiet_of_received hrec) ?_
    cases ht with
    | defaulted => exact kept_of_actedOn hk rfl rfl rfl
    | ignored => exact kept_of_actedOn hk rfl rfl rfl

/-- A signal that `P` raises on itself is not lost if it can be acted on. -/
theorem kept_of_raised {sig : Nat} {thread : Context} {w w' : World}
    (h : RaisedAndActed sig thread w w') (hk : Kept w) (hact : CanActOn w.cur sig) : Kept w' := by
  obtain ⟨w₁, w₂, hbefore, hsame, -, hacted, hafter⟩ := h.steps
  have hk₁ := kept_of_quiet hbefore hk
  refine kept_of_quiet hafter (kept_of_acted hacted ?_ ?_)
  · intro s hs hkill hstop howed
    apply hk₁ s hkill hstop
    have hsplit : owed s ([.raised sig (w₁.cur.blocks sig)] ++ w₁.trace) = true := howed
    rcases owed_append hsplit with ⟨t, hmem, ht⟩ | hold
    · rw [List.mem_singleton] at hmem
      subst hmem
      obtain ⟨hs', -⟩ := Trace.raised.inj (raised_of_raisedBlocked ht)
      exact absurd hs'.symm hs
    · exact hold
  · intro _
    unfold CanActOn at hact ⊢
    rw [← hsame.blocks] at hact
    exact hact

/-! ## One turn -/

theorem received_arrival {w w₁ : World} {evt : DebugEvent} (h : arrival w = some (evt, w₁)) :
    Received w w₁ := by
  unfold arrival at h
  split at h
  · next evt' w' hn =>
    obtain ⟨rfl, rfl⟩ := Prod.mk.inj (Option.some.inj h)
    exact Comp.of_post_ok (within_nextEvent w.inputs w) hn
  · exact absurd h (by simp)

/-- A turn that returns has waited for an event. -/
theorem arrival_of_turn {env : Environment} {w w' : World} {b : Bool}
    (h : debuggerTurn env w = .ok b w') : ∃ evt w₁, arrival w = some (evt, w₁) := by
  unfold arrival
  cases hn : nextEvent w.inputs w with
  | ok evt w₁ => exact ⟨evt, w₁, rfl⟩
  | exit w₁ => simp [debuggerTurn, Bind.bind, Comp.bind, Comp.get, hn] at h
  | wait w₁ => simp [debuggerTurn, Bind.bind, Comp.bind, Comp.get, hn] at h
  | fault w₁ => simp [debuggerTurn, Bind.bind, Comp.bind, Comp.get, hn] at h

/-- The world in which the loop hands the signal to `HandleSignal`: its flag is cleared. -/
def takeSignal (sig : Nat) (w : World) : World :=
  setCurrentSignal sig { w with cur := { w.cur with
    pendingSignals := fun s ↦ if s = sig then false else w.cur.pendingSignals s } }

/-- A turn that a pending signal takes. -/
theorem turn_of_pending {env : Environment} {w w₁ w' : World} {evt : DebugEvent} {sig : Nat}
    {b : Bool} (harr : arrival w = some (evt, w₁)) (hsig : w₁.cur.lowestPending = some sig)
    (huntraced : w.cur.ptrace.ownerPid = 0#32) (h : debuggerTurn env w = .ok b w') :
    ∃ w₂ w₃, Acted sig (takeSignal sig w₁) w₂ ∧ w₃ = setCurrentSignal 0 w₂ ∧ Received w₃ w' := by
  rw [debuggerTurn_of_arrival harr, hsig] at h
  have huntraced₁ : w₁.cur.ptrace.ownerPid = 0#32 :=
    (received_arrival harr).ownerPid.trans huntraced
  have hpost : Comp.Post (do
      modifyCur (fun p ↦ { p with
        pendingSignals := fun s ↦ if s = sig then false else p.pendingSignals s })
      handleCurrentSignal sig
      resumeKeowProcess true
      return false : K Bool) w₁
      (fun _ w' ↦ ∃ w₂ w₃, Acted sig (takeSignal sig w₁) w₂ ∧ w₃ = setCurrentSignal 0 w₂ ∧
        Received w₃ w') (fun _ ↦ True) := by
    simp only [Comp.post_bind, post_modifyCur, Comp.post_pure]
    refine Comp.post_mono (handleCurrentSignal_post sig (by exact huntraced₁)) ?_
      (fun _ _ ↦ trivial)
    rintro _ w₃ ⟨w₂, hacted, hw₃⟩
    exact Comp.post_mono (within_resumeKeowProcess true w₃)
      (fun _ w' hrec ↦ ⟨w₂, w₃, hacted, hw₃, hrec⟩) (fun _ _ ↦ trivial)
  exact Comp.of_post_ok hpost h

/-- A turn that its event takes: what `HandleException` does, if the event is an exception, and
a resumption. -/
theorem turn_of_event {env : Environment} {w w₁ w' : World} {evt : DebugEvent}
    (harr : arrival w = some (evt, w₁)) (hnone : w₁.cur.lowestPending = none)
    (huntraced : w.cur.ptrace.ownerPid = 0#32) (hsetup : w.cur.inWin32Setup = false)
    (h : debuggerTurn env w = .ok false w') :
    Quiet w₁ w' ∨ ∃ code address ctx' w₂, evt = .exception code address ∧
      Handled (raisedSignal code address w₁) (resetPoint env code address w₁) w₁ ctx' w₂ ∧
      Quiet w₂ w' := by
  rw [debuggerTurn_of_arrival harr, hnone] at h
  have hrec := received_arrival harr
  have huntraced₁ : w₁.cur.ptrace.ownerPid = 0#32 := hrec.ownerPid.trans huntraced
  have hsetup₁ : w₁.cur.inWin32Setup = false := hrec.inWin32Setup.trans hsetup
  have hresume : ∀ w, Comp.Post (do
      resumeKeowProcess false
      return false : K Bool) w (fun _ w' ↦ Quiet w w') (fun _ ↦ True) := by
    intro w
    simp only [Comp.post_bind, Comp.post_pure]
    exact Comp.post_mono (within_resumeKeowProcess false w) (fun _ _ hr ↦ quiet_of_received hr)
      (fun _ _ ↦ trivial)
  have hquiet : ∀ {w₁ w' : World}, (do
      resumeKeowProcess false
      return false : K Bool) w₁ = .ok false w' → Quiet w₁ w' :=
    fun {w₁ _} hok ↦ Comp.of_post_ok (hresume w₁) hok
  cases evt with
  | exception code address =>
    right
    have hpost : Comp.Post (handleDebugEvent env (.exception code address)) w₁
        (fun _ w' ↦ ∃ ctx' w₂, Handled (raisedSignal code address w₁)
          (resetPoint env code address w₁) w₁ ctx' w₂ ∧ Quiet w₂ w') (fun _ ↦ True) := by
      simp only [handleDebugEvent, Comp.post_bind, Comp.post_get, hsetup₁, Bool.false_eq_true,
        if_false, Comp.post_pure]
      refine Comp.post_mono (handleException_post env code address huntraced₁) ?_
        (fun _ _ ↦ trivial)
      rintro _ w₂ ⟨ctx', w₃, hhandled, hw₂⟩
      have henter : Quiet w₁ (enterException w₁) := quiet_of_same rfl rfl rfl
      have hstart : Handled (raisedSignal code address w₁) (resetPoint env code address w₁) w₁ ctx'
          w₂ :=
        handled_of_quiet henter ⟨rfl, rfl⟩ hhandled
          (by rw [hw₂]; exact quiet_of_same rfl rfl rfl)
      exact Comp.post_mono (within_resumeKeowProcess true w₂)
        (fun _ w' hr ↦ ⟨ctx', w₂, hstart, quiet_of_received hr⟩) (fun _ _ ↦ trivial)
    obtain ⟨ctx', w₂, hhandled, hq⟩ := Comp.of_post_ok hpost h
    exact ⟨code, address, ctx', w₂, rfl, hhandled, hq⟩
  | exitProcess exitCode => exact absurd h (by simp [handleDebugEvent, Bind.bind, Comp.bind,
      Comp.modify, Pure.pure, Comp.pure])
  | createProcess => exact .inl (hquiet h)
  | createThread => exact .inl (hquiet h)
  | exitThread => exact .inl (hquiet h)
  | loadDll => exact .inl (hquiet h)
  | unloadDll => exact .inl (hquiet h)
  | outputDebugString => exact .inl (hquiet h)
  | other => exact .inl (hquiet h)

/-- No blocked signal comes up in the next turn: the pending signal that takes it can be acted
on if it is owed, the event raises none that is blocked, and no owed signal is forgotten by an
`execve`. -/
structure NoBlockedDue (env : Environment) (w : World) : Prop where
  pending : ∀ evt w₁ sig, arrival w = some (evt, w₁) → w₁.cur.lowestPending = some sig →
    owed sig w₁.trace = true → CanActOn w₁.cur sig
  raised : ∀ code address w₁ r, arrival w = some (.exception code address, w₁) →
    w₁.cur.lowestPending = none → raisedSignal code address w₁ = some r → CanActOn w₁.cur r.sig
  reset : ∀ code address w₁ w₂, arrival w = some (.exception code address, w₁) →
    w₁.cur.lowestPending = none → resetPoint env code address w₁ = some w₂ →
    ∀ sig, sig ≠ SIGKILL → sig ≠ SIGSTOP → owed sig w₂.trace = false

/-- Such a turn keeps every owed signal pending. -/
theorem kept_of_turn {env : Environment} {w w' : World} (hk : Kept w)
    (huntraced : w.cur.ptrace.ownerPid = 0#32) (hsetup : w.cur.inWin32Setup = false)
    (hdue : NoBlockedDue env w) (h : debuggerTurn env w = .ok false w') : Kept w' := by
  obtain ⟨evt, w₁, harr⟩ := arrival_of_turn h
  have hk₁ : Kept w₁ := kept_of_quiet (quiet_of_received (received_arrival harr)) hk
  cases hsig : w₁.cur.lowestPending with
  | some sig =>
    obtain ⟨w₂, w₃, hacted, rfl, hrec⟩ := turn_of_pending harr hsig huntraced h
    have hk₂ : Kept w₂ := by
      refine kept_of_acted hacted ?_ (hdue.pending evt w₁ sig harr hsig)
      intro s hs hkill hstop howed
      have hp := hk₁ s hkill hstop howed
      simpa [takeSignal, setCurrentSignal, hs] using hp
    exact kept_of_quiet (quiet_of_received hrec) hk₂
  | none =>
    rcases turn_of_event harr hsig huntraced hsetup h with hq | ⟨code, address, ctx', w₂, rfl,
      hhandled, hq⟩
    · exact kept_of_quiet hq hk₁
    · refine kept_of_quiet hq ?_
      cases hhandled with
      | quiet hr hq => exact kept_of_quiet hq hk₁
      | raised r hr hraised =>
        exact kept_of_raised hraised hk₁ (hdue.raised code address w₁ r harr hsig hr)
      | forgotten hr w₃ hreset hb ha =>
        refine kept_of_quiet ha ?_
        intro sig hkill hstop howed
        have hnone := hdue.reset code address w₁ w₃ harr hsig hreset sig hkill hstop
        exact absurd howed (by simp [forgetSignals, owed, actedOn, raisedBlocked, hnone])

theorem setup_of_acted {sig : Nat} {w w' : World} (h : Acted sig w w') :
    w'.cur.inWin32Setup = w.cur.inWin32Setup := by
  cases h with
  | masked hkill hstop hblocked h => rw [h]; rfl
  | caught hc h => rw [h]; rfl
  | settled hc t ht h => exact h.inWin32Setup

theorem setup_of_handled {r : Option Raised} {reset : Option World} {w w' : World}
    {ctx' : Context} (h : Handled r reset w ctx' w') :
    w'.cur.inWin32Setup = w.cur.inWin32Setup := by
  cases h with
  | quiet hr h => exact h.inWin32Setup
  | raised r₁ hr h =>
    obtain ⟨w₁, w₂, hbefore, -, -, hacted, hafter⟩ := h.steps
    exact hafter.inWin32Setup.trans ((setup_of_acted hacted).trans hbefore.inWin32Setup)
  | forgotten hr w₁ hreset hb ha => exact ha.inWin32Setup.trans hb.inWin32Setup

/-- Once over, the setup of a process does not come back. -/
theorem setup_of_turn {env : Environment} {w w' : World}
    (huntraced : w.cur.ptrace.ownerPid = 0#32) (hsetup : w.cur.inWin32Setup = false)
    (h : debuggerTurn env w = .ok false w') : w'.cur.inWin32Setup = false := by
  obtain ⟨evt, w₁, harr⟩ := arrival_of_turn h
  have hsetup₁ : w₁.cur.inWin32Setup = false := (received_arrival harr).inWin32Setup.trans hsetup
  cases hsig : w₁.cur.lowestPending with
  | some sig =>
    obtain ⟨w₂, w₃, hacted, rfl, hrec⟩ := turn_of_pending harr hsig huntraced h
    exact hrec.inWin32Setup.trans ((setup_of_acted hacted).trans hsetup₁)
  | none =>
    rcases turn_of_event harr hsig huntraced hsetup h with hq | ⟨code, address, ctx', w₂, rfl,
      hhandled, hq⟩
    · exact hq.inWin32Setup.trans hsetup₁
    · exact hq.inWin32Setup.trans ((setup_of_handled hhandled).trans hsetup₁)

/-! ## Whole runs -/

theorem turns_succ {env : Environment} {n : Nat} {w₀ w : World}
    (h : turns env (n + 1) w₀ = some w) :
    ∃ w₁, turns env n w₀ = some w₁ ∧ debuggerTurn env w₁ = .ok false w := by
  induction n generalizing w₀ with
  | zero =>
    refine ⟨w₀, rfl, ?_⟩
    simp only [turns] at h
    split at h
    · next w' hturn => rw [← Option.some.inj h]; exact hturn
    · exact absurd h (by simp)
  | succ n ih =>
    rw [turns] at h
    split at h
    · next w' hturn =>
      obtain ⟨w₁, hrun, hlast⟩ := ih h
      refine ⟨w₁, ?_, hlast⟩
      rw [turns, hturn]
      exact hrun
    · exact absurd h (by simp)

/-- What holds at the start and is kept by every turn of the run holds throughout. -/
theorem turns_invariant {env : Environment} {w₀ : World} (Inv : World → Prop) (h₀ : Inv w₀)
    (hstep : ∀ n w w', turns env n w₀ = some w → Inv w → debuggerTurn env w = .ok false w' →
      Inv w') : ∀ n w, turns env n w₀ = some w → Inv w := by
  intro n
  induction n with
  | zero =>
    intro w h
    exact Option.some.inj h ▸ h₀
  | succ n ih =>
    intro w h
    obtain ⟨w₁, hrun, hturn⟩ := turns_succ h
    exact hstep n w₁ w hrun (ih w₁ hrun) hturn

/-- The number of pending signals that come before `sig`. -/
def ahead (sig : Nat) (p : Process) : Nat :=
  ((Finset.range sig).filter (fun s ↦ p.pendingSignals s = true)).card

/-- `sig` was acted on between two worlds of a run. -/
def ActedOnSince (sig : Nat) (w w' : World) : Prop :=
  ∃ new, w'.trace = new ++ w.trace ∧ ∃ t ∈ new, actedOn t = some sig

/-- No signal that comes before `sig` was raised between two worlds of a run. -/
def NoneRaisedBelow (sig : Nat) (w w' : World) : Prop :=
  ∀ new, w'.trace = new ++ w.trace → ∀ s blocked, .raised s blocked ∈ new → sig ≤ s

/-- However the run goes on, `sig` is acted on once it is not blocked: within one turn more than
there are signals ahead of it, if no further ones get ahead of it. -/
def ActedOnOnceUnblocked (env : Environment) (sig : Nat) (w : World) : Prop :=
  ∀ m w', turns env m w = some w' → ahead sig w.cur < m →
    (∀ k v evt v₁, k < m → turns env k w = some v → arrival v = some (evt, v₁) →
      v₁.cur.blocks sig = false) →
    (∀ k v, k ≤ m → turns env k w = some v → NoneRaisedBelow sig w v) →
    ∃ k v, k ≤ m ∧ turns env k w = some v ∧ ActedOnSince sig w v

/-! ### The queue of pending signals -/

/-- The lines `new` were added, and the pending signals are those from before and those that
these lines raise. -/
def Grew (new : List Trace) (w w' : World) : Prop :=
  w'.trace = new ++ w.trace ∧ ∀ s, w'.cur.pendingSignals s = true ↔
    (∃ blocked, .raised s blocked ∈ new) ∨ w.cur.pendingSignals s = true

theorem grew_of_received {w w' : World} (h : Received w w') : ∃ new, Grew new w w' := by
  obtain ⟨sends, ht, hp⟩ := h.sends
  refine ⟨_, ht, fun s ↦ ?_⟩
  rw [hp, Bool.or_eq_true, List.contains_iff_mem]
  refine or_congr_left ⟨fun hmem ↦ ⟨_, List.mem_map_of_mem hmem⟩, ?_⟩
  rintro ⟨blocked, hmem⟩
  obtain ⟨s', hmem', heq⟩ := List.mem_map.mp hmem
  obtain ⟨rfl, -⟩ := Trace.raised.inj heq
  exact hmem'

/-- Handling a signal adds a line that says how, and then what is received. -/
theorem grew_of_acted {sig : Nat} {w w' : World} (h : Acted sig w w') :
    ∃ t new, (CanActOn w.cur sig → actedOn t = some sig) ∧ (∀ s blocked, t ≠ .raised s blocked) ∧
      Grew new (w.withTrace t) w' := by
  cases h with
  | masked hkill hstop hblocked hw =>
    subst hw
    refine ⟨.masked sig, [], fun hact ↦ ?_, by simp, rfl, by simp⟩
    rcases hact with h | h | h
    · exact absurd h hkill
    · exact absurd h hstop
    · exact absurd hblocked (by simp [h])
  | caught hc hw =>
    subst hw
    exact ⟨.dispatched sig _ _, [], fun _ ↦ rfl, by simp, rfl, by simp [enterHandler,
      World.withTrace]⟩
  | settled hc t ht hrec =>
    obtain ⟨new, hnew⟩ := grew_of_received hrec
    refine ⟨t, new, fun _ ↦ ?_, ?_, hnew⟩
    · cases ht <;> rfl
    · cases ht <;> simp

/-- A turn that a pending signal takes removes it from the queue. -/
structure TookSignal (sig : Nat) (w w₁ w' : World) : Prop where
  lines : ∃ new, w'.trace = new ++ w.trace ∧
    (CanActOn w₁.cur sig → ∃ t ∈ new, actedOn t = some sig) ∧
    (∀ s, w'.cur.pendingSignals s = true →
      (∃ blocked, .raised s blocked ∈ new) ∨ s ≠ sig ∧ w.cur.pendingSignals s = true) ∧
    ((∃ blocked, .raised sig blocked ∈ new) ∨ w.cur.pendingSignals sig = true)
  others : ∀ s, s ≠ sig → w.cur.pendingSignals s = true → w'.cur.pendingSignals s = true

theorem lowestPending_spec {p : Process} {sig : Nat} (h : p.lowestPending = some sig) :
    p.pendingSignals sig = true ∧ sig < nsig ∧ ∀ s < sig, p.pendingSignals s = false := by
  obtain ⟨hp, i, hi, heq, hmin⟩ := List.find?_eq_some_iff_getElem.mp h
  simp only [List.getElem_range] at heq hmin
  subst heq
  exact ⟨hp, by simpa using hi, fun s hs ↦ by simpa using hmin s hs⟩

theorem tookSignal_of_turn {env : Environment} {w w₁ w' : World} {evt : DebugEvent} {sig : Nat}
    {b : Bool} (harr : arrival w = some (evt, w₁)) (hsig : w₁.cur.lowestPending = some sig)
    (huntraced : w.cur.ptrace.ownerPid = 0#32) (h : debuggerTurn env w = .ok b w') :
    TookSignal sig w w₁ w' := by
  obtain ⟨w₂, w₃, hacted, rfl, hrec⟩ := turn_of_pending harr hsig huntraced h
  obtain ⟨new₁, ht₁, hp₁⟩ := grew_of_received (received_arrival harr)
  obtain ⟨t, new₂, hact, hnot, ht₂, hp₂⟩ := grew_of_acted hacted
  obtain ⟨new₃, ht₃, hp₃⟩ := grew_of_received hrec
  have htook : ∀ s, ((takeSignal sig w₁).withTrace t).cur.pendingSignals s = true ↔
      s ≠ sig ∧ w₁.cur.pendingSignals s = true := by
    intro s
    by_cases hs : s = sig <;> simp [takeSignal, setCurrentSignal, World.withTrace, hs]
  have htrace : w'.trace = (new₃ ++ new₂ ++ t :: new₁) ++ w.trace := by
    rw [ht₃]
    change new₃ ++ w₂.trace = _
    rw [ht₂]
    change new₃ ++ (new₂ ++ t :: w₁.trace) = _
    rw [ht₁]
    simp
  -- the pending signals of `w'` in terms of those of `w`
  have hpending : ∀ s, w'.cur.pendingSignals s = true ↔
      (∃ blocked, .raised s blocked ∈ new₃) ∨ (∃ blocked, .raised s blocked ∈ new₂) ∨
        s ≠ sig ∧ ((∃ blocked, .raised s blocked ∈ new₁) ∨ w.cur.pendingSignals s = true) := by
    intro s
    rw [hp₃, ← hp₁, ← htook, ← hp₂]
    rfl
  refine ⟨⟨_, htrace, fun hcan ↦ ⟨t, by simp, hact hcan⟩, fun s hs ↦ ?_, ?_⟩, fun s hs hp ↦ ?_⟩
  · rcases (hpending s).mp hs with ⟨b, hb⟩ | ⟨b, hb⟩ | ⟨hne, ⟨b, hb⟩ | hp⟩
    · exact .inl ⟨b, by simp [hb]⟩
    · exact .inl ⟨b, by simp [hb]⟩
    · exact .inl ⟨b, by simp [hb]⟩
    · exact .inr ⟨hne, hp⟩
  · rcases (hp₁ sig).mp (lowestPending_spec hsig).1 with ⟨b, hb⟩ | hp
    · exact .inl ⟨b, by simp [hb]⟩
    · exact .inr hp
  · exact (hpending s).mpr (.inr (.inr ⟨hs, .inr hp⟩))

/-- Each turn that another signal takes brings `sig` closer to its own. -/
theorem ahead_of_tookSignal {sig s : Nat} {w w₁ w' : World} (h : TookSignal s w w₁ w')
    (hlt : s < sig) (hbelow : NoneRaisedBelow sig w w') : ahead sig w'.cur < ahead sig w.cur := by
  obtain ⟨new, htrace, -, hpending, htaken⟩ := h.lines
  have hnone : ∀ i < sig, ¬∃ blocked, .raised i blocked ∈ new := by
    rintro i hi ⟨blocked, hmem⟩
    exact absurd (hbelow new htrace i blocked hmem) (by omega)
  apply Finset.card_lt_card
  rw [Finset.ssubset_iff_of_subset]
  · refine ⟨s, ?_, ?_⟩
    · simp only [Finset.mem_filter, Finset.mem_range]
      exact ⟨hlt, htaken.resolve_left (hnone s hlt)⟩
    · simp only [Finset.mem_filter, Finset.mem_range, not_and]
      intro _ hp
      rcases hpending s hp with hraised | ⟨hne, -⟩
      · exact hnone s hlt hraised
      · exact hne rfl
  · intro i hi
    simp only [Finset.mem_filter, Finset.mem_range] at hi ⊢
    exact ⟨hi.1, ((hpending i hi.2).resolve_left (hnone i hi.1)).2⟩

/-- A pending signal is acted on within one turn more than there are signals ahead of it. -/
theorem actedOnOnceUnblocked {env : Environment} {sig : Nat} {w : World} (hlt : sig < nsig)
    (hpending : w.cur.pendingSignals sig = true)
    (huntraced : ∀ k v, turns env k w = some v → v.cur.ptrace.ownerPid = 0#32) :
    ActedOnOnceUnblocked env sig w := by
  intro m
  induction m generalizing w with
  | zero => exact fun w' _ hm ↦ absurd hm (by omega)
  | succ m ih =>
    intro w' hrun hm hunblocked hbelow
    rw [turns] at hrun
    split at hrun
    · next v hturn =>
      obtain ⟨evt, v₁, harr⟩ := arrival_of_turn hturn
      have hone : turns env 1 w = some v := by simp [turns, hturn]
      have hnext : ∀ k x, turns env k v = some x → turns env (k + 1) w = some x := by
        intro k x hx
        rw [turns, hturn]
        exact hx
      -- the turn goes to the lowest pending signal, which is `sig` or one ahead of it
      have hp₁ : v₁.cur.pendingSignals sig = true :=
        (quiet_of_received (received_arrival harr)).pending sig hpending
      obtain ⟨s, hs⟩ : ∃ s, v₁.cur.lowestPending = some s := by
        cases hnone : v₁.cur.lowestPending with
        | some s => exact ⟨s, rfl⟩
        | none => exact absurd ((lowestPending_eq_none_iff _).mp hnone sig hlt) (by simp [hp₁])
      have htook := tookSignal_of_turn harr hs (huntraced 0 w rfl) hturn
      obtain ⟨new, htrace, hact, -, -⟩ := htook.lines
      by_cases hsig : s = sig
      · subst hsig
        have hcan : CanActOn v₁.cur s := .inr (.inr (hunblocked 0 w evt v₁ (by omega) rfl harr))
        exact ⟨1, v, by omega, hone, new, htrace, hact hcan⟩
      · have hless : s < sig := by
          by_contra hge
          have hfirst := (lowestPending_spec hs).2.2 sig (by omega)
          exact absurd hp₁ (by simp [hfirst])
        have hahead := ahead_of_tookSignal htook hless (hbelow 1 v (by omega) hone)
        obtain ⟨k, x, hk, hx, new', htrace', hacted⟩ := ih
          (htook.others sig (fun h ↦ hsig h.symm) hpending)
          (fun k x hx ↦ huntraced (k + 1) x (hnext k x hx)) w' hrun (by omega)
          (fun k x evt x₁ hk hx hxarr ↦
            hunblocked (k + 1) x evt x₁ (by omega) (hnext k x hx) hxarr)
          (fun k x hk hx new' htrace' s' blocked hmem ↦
            hbelow (k + 1) x (by omega) (hnext k x hx) (new' ++ new)
              (by rw [htrace', htrace, List.append_assoc]) s' blocked (by simp [hmem]))
        obtain ⟨t, hmem, ht⟩ := hacted
        exact ⟨k + 1, x, by omega, hnext k x hx, new' ++ new,
          by rw [htrace', htrace, List.append_assoc], t, by simp [hmem], ht⟩
    · exact absurd hrun (by simp)

theorem turns_add {env : Environment} {n k : Nat} {w₀ w : World} (h : turns env n w₀ = some w) :
    turns env (n + k) w₀ = turns env k w := by
  induction n generalizing w₀ with
  | zero =>
    rw [Nat.zero_add]
    exact Option.some.inj h ▸ rfl
  | succ n ih =>
    rw [turns] at h
    split at h
    · next w' hturn =>
      rw [Nat.add_right_comm, turns, hturn]
      exact ih h
    · exact absurd h (by simp)

/-- Blocked signals are deferred: the owed ones are pending, and each is acted on once it is no
longer blocked. -/
def Deferred (env : Environment) (w : World) : Prop :=
  Kept w ∧ ∀ sig < nsig, sig ≠ SIGKILL → sig ≠ SIGSTOP → owed sig w.trace = true →
    ActedOnOnceUnblocked env sig w

/-- In every run of an untraced process in which no blocked signal comes up, blocked signals are
deferred in every state reached, whatever is sent, masked and handled meanwhile. -/
theorem run_deferred (env : Environment) (w₀ : World) (hstart : w₀.trace = [])
    (hsetup : w₀.cur.inWin32Setup = false)
    (huntraced : ∀ n w, turns env n w₀ = some w → w.cur.ptrace.ownerPid = 0#32)
    (hdue : ∀ n w, turns env n w₀ = some w → NoBlockedDue env w) :
    ∀ n w, turns env n w₀ = some w → Deferred env w := by
  have hinv : ∀ n w, turns env n w₀ = some w → Kept w ∧ w.cur.inWin32Setup = false := by
    have hk₀ : Kept w₀ := by
      intro sig _ _ howed
      rw [hstart] at howed
      exact absurd howed (by simp [owed])
    apply turns_invariant (fun w ↦ Kept w ∧ w.cur.inWin32Setup = false) ⟨hk₀, hsetup⟩
    rintro n w w' hrun ⟨hk, hs⟩ hturn
    exact ⟨kept_of_turn hk (huntraced n w hrun) hs (hdue n w hrun) hturn,
      setup_of_turn (huntraced n w hrun) hs hturn⟩
  intro n w hrun
  have hk := (hinv n w hrun).1
  refine ⟨hk, fun sig hlt hkill hstop howed ↦ ?_⟩
  refine actedOnOnceUnblocked hlt (hk sig hkill hstop howed) (fun k v hv ↦ ?_)
  exact huntraced (n + k) v (by rw [turns_add hrun]; exact hv)

/-- A process that blocks `SIGUSR1` and ignores `SIGHUP`, with the given inputs ahead. -/
def blockingWorld (inputs : List Input) : World :=
  let w := loneWorld inputs
  { w with cur := { w.cur with
    signalMask := BitVec.twoPow 64 (SIGUSR1 - 1)
    signalAction := fun s ↦ if s = SIGHUP then { saHandler := SIG_IGN } else {} } }

/-- Both signals are sent, and then a debug event comes. -/
def bothSent : World :=
  blockingWorld [.send ⟨SIGUSR1, by decide⟩, .send ⟨SIGHUP, SIGHUP_bounds⟩,
    .event .createThread Context.zero (fun _ ↦ 0)]

/-- The event goes to `SIGHUP`, and `SIGUSR1` is owed and pending after it. -/
theorem run_deferred_behind :
    (∀ n w, turns idleEnvironment n bothSent = some w → Deferred idleEnvironment w) ∧
      ∃ w, turns idleEnvironment 1 bothSent = some w ∧ owed SIGUSR1 w.trace = true := by
  have hturns : ∀ n w, turns idleEnvironment n bothSent = some w → w = bothSent ∨
      (w.cur.ptrace.ownerPid = 0#32 ∧ w.inputs = []) := by
    intro n w h
    match n with
    | 0 => exact .inl (Option.some.inj h).symm
    | 1 => exact .inr (Option.some.inj h ▸ ⟨rfl, rfl⟩)
    | n + 2 => exact absurd (show none = some w from h) (by simp)
  have hnone : ∀ w : World, w.inputs = [] → arrival w = none := by
    intro w h
    simp only [arrival, h, nextEvent, Comp.wait]
  refine ⟨run_deferred idleEnvironment bothSent rfl rfl ?_ ?_, _, rfl, by decide⟩
  · intro n w h
    rcases hturns n w h with rfl | ⟨howner, -⟩
    · rfl
    · exact howner
  · intro n w h
    rcases hturns n w h with rfl | ⟨-, hin⟩
    · refine ⟨?_, ?_, ?_⟩
      · intro evt w₁ sig harr hsig howed
        obtain ⟨-, rfl⟩ := Prod.mk.inj (Option.some.inj harr)
        have hlow : SIGHUP = sig := Option.some.inj (Eq.trans (by decide) hsig)
        subst hlow
        exact absurd howed (by decide)
      · intro code address w₁ r harr
        obtain ⟨hevt, -⟩ := Prod.mk.inj (Option.some.inj harr)
        exact absurd hevt (by simp)
      · intro code address w₁ w₂ harr
        obtain ⟨hevt, -⟩ := Prod.mk.inj (Option.some.inj harr)
        exact absurd hevt (by simp)
    · exact ⟨fun _ _ _ ha ↦ absurd ha (by simp [hnone w hin]),
        fun _ _ _ _ ha ↦ absurd ha (by simp [hnone w hin]),
        fun _ _ _ _ ha ↦ absurd ha (by simp [hnone w hin])⟩

/-- A blocked `SIGUSR1` is sent, and the next debug event of whatever kind discards it. -/
theorem blocked_signal_discarded :
    ¬∀ n w, turns idleEnvironment n (blockingWorld [.send ⟨SIGUSR1, by decide⟩,
        .event .createThread Context.zero (fun _ ↦ 0)]) = some w → Deferred idleEnvironment w := by
  intro hall
  have hkept := (hall 1 _ rfl).1
  exact absurd (hkept SIGUSR1 (by decide) (by decide) (by decide)) (by decide)

end Keow.Signal
