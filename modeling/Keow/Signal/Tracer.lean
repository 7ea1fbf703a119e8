import Keow.Signal.Exception

/-!
# The tracer's choice

What a traced process does with the signal it has stopped for, `Process.cpp:1518–1540`, once
its tracer lets it go on with `PTRACE_CONT` or `PTRACE_SYSCALL`, `sys_sys.cpp:358–383`. The
tracer's data replaces the signal, but a 0 is not stored, so it does not cancel it.
-/

namespace Keow.Signal

open Keow.Base Keow.Kernel

/-! ## What is acted on -/

/-- The signal that a line of the trace tells was acted on. -/
def handledSignal : Trace → Option Nat
  | .masked sig | .dispatched sig _ _ | .defaulted sig | .ignored sig => some sig
  | _ => none

/-- Between two worlds these signals were acted on, the last one first. -/
def Acts (sigs : List Nat) (w w' : World) : Prop :=
  ∃ new, w'.trace = new ++ w.trace ∧ new.filterMap handledSignal = sigs

theorem acts_of_trace_eq {w w' : World} (h : w'.trace = w.trace) : Acts [] w w' :=
  ⟨[], h, rfl⟩

theorem acts_refl (w : World) : Acts [] w w := acts_of_trace_eq rfl

theorem acts_trans {sigs sigs' : List Nat} {a b c : World} (h : Acts sigs a b)
    (h' : Acts sigs' b c) : Acts (sigs' ++ sigs) a c := by
  obtain ⟨new, ht, hs⟩ := h
  obtain ⟨new', ht', hs'⟩ := h'
  exact ⟨new' ++ new, by rw [ht', ht, List.append_assoc], by rw [List.filterMap_append, hs', hs]⟩

/-- Which signals they are is settled by the two traces. -/
theorem acts_unique {sigs sigs' : List Nat} {w w' : World} (h : Acts sigs w w')
    (h' : Acts sigs' w w') : sigs = sigs' := by
  obtain ⟨new, ht, hs⟩ := h
  obtain ⟨new', ht', hs'⟩ := h'
  rw [← hs, ← hs', List.append_cancel_right (ht.symm.trans ht')]

theorem acts_log {t : Trace} {sig : Nat} (h : handledSignal t = some sig) (w : World) :
    Acts [sig] w (w.withTrace t) :=
  ⟨[t], rfl, by simp [h]⟩

theorem acts_absorb (w : World) (i : Input) (rest : List Input) :
    Acts [] w { w.absorb i with inputs := rest } := by
  cases i with
  | send sig => exact ⟨[_], rfl, rfl⟩
  | resume request data => exact acts_refl w
  | event evt ctx mem => exact acts_refl w

/-- No signal is acted on. -/
abbrev Idle (w w' : World) : Prop := Acts [] w w'

theorem idle_trans (a b c : World) (h : Idle a b) (h' : Idle b c) : Idle a c := acts_trans h h'

section Idle

variable {α β : Type}

theorem idle_modify {f : World → World} (h : ∀ w, (f w).trace = w.trace) :
    Comp.SafeAlong Idle (Comp.modify f) :=
  Comp.safeAlong_modify fun w ↦ acts_of_trace_eq (h w)

theorem idle_bind {x : K α} {f : α → K β} (hx : Comp.SafeAlong Idle x)
    (hf : ∀ a, Comp.SafeAlong Idle (f a)) : Comp.SafeAlong Idle (x >>= f) :=
  Comp.safeAlong_bind idle_trans hx hf

theorem idle_pure (a : α) : Comp.SafeAlong Idle (pure a : K α) := Comp.safeAlong_pure acts_refl a

theorem idle_get : Comp.SafeAlong Idle (Comp.get : K World) := Comp.safeAlong_get acts_refl

theorem idle_injectLoop (inputs : List Input) : Comp.SafeAlong Idle (injectLoop inputs) := by
  induction inputs with
  | nil => exact Comp.safeAlong_wait acts_refl
  | cons i rest ih =>
    refine idle_bind (Comp.safeAlong_modify fun w ↦ acts_absorb w i rest) fun _ ↦ ?_
    split
    · exact idle_pure _
    · exact idle_bind (idle_modify fun _ ↦ rfl) fun _ ↦ ih
    · refine idle_bind (Comp.safeAlong_modify fun _ ↦ ⟨[_], rfl, rfl⟩) fun _ ↦ ?_
      exact Comp.safeAlong_exit acts_refl
    · exact ih

theorem idle_injectFunctionCall (func : DWORD) (stackData : List UInt8) :
    Comp.SafeAlong Idle (injectFunctionCall func stackData) := by
  refine idle_bind idle_get fun w ↦ ?_
  refine idle_bind (idle_modify fun _ ↦ rfl) fun _ ↦ ?_
  refine idle_bind (idle_modify fun _ ↦ rfl) fun _ ↦ ?_
  refine idle_bind (idle_modify fun _ ↦ rfl) fun _ ↦ ?_
  refine idle_bind idle_get fun w ↦ ?_
  refine idle_bind (idle_injectLoop _) fun _ ↦ ?_
  refine idle_bind idle_get fun w ↦ ?_
  exact Comp.safeAlong_ite (idle_bind (idle_modify fun _ ↦ rfl) fun _ ↦ idle_pure _) (idle_pure _)

theorem idle_killBy (sig : Nat) : Comp.SafeAlong Idle (killBy sig) := by
  refine idle_bind (idle_modify fun _ ↦ rfl) fun _ ↦ ?_
  refine idle_bind idle_get fun w ↦ ?_
  exact idle_bind (idle_injectFunctionCall _ _) fun _ ↦ idle_pure _

theorem idle_runDefaultAction (sig : Nat) : Comp.SafeAlong Idle (runDefaultAction sig) := by
  refine idle_bind idle_get fun w ↦ ?_
  cases defaultAction (w.cur.ptrace.ownerPid != 0#32) sig with
  | ignore => exact idle_pure _
  | resume => exact idle_modify fun _ ↦ rfl
  | stop => exact idle_modify fun _ ↦ rfl
  | terminate => exact idle_killBy sig
  | coreDump => exact idle_bind (idle_modify fun _ ↦ rfl) fun _ ↦ idle_killBy sig

end Idle

/-- A signal in range is acted on once, and nothing else is. -/
theorem actOnSignal_acts {sig : Nat} (h1 : 1 ≤ sig) (h2 : sig < nsig) (w : World) :
    Comp.Safe (actOnSignal sig) w (fun _ w' ↦ Acts [sig] w w') (Acts [sig] w) := by
  have hlog : ∀ {t : Trace} {x : K Unit}, handledSignal t = some sig → Comp.SafeAlong Idle x →
      Comp.Safe (log t >>= fun _ ↦ x) w (fun _ w' ↦ Acts [sig] w w') (Acts [sig] w) := by
    intro t x ht hx
    rw [Comp.safe_bind, log, Comp.safe_modify]
    exact Comp.safe_mono (hx (w.withTrace t)) (fun _ _ h ↦ acts_trans (acts_log ht w) h)
      (fun _ h ↦ acts_trans (acts_log ht w) h)
  unfold actOnSignal
  split
  · exact hlog rfl (idle_killBy sig)
  · split
    · exact hlog rfl (idle_modify fun _ ↦ rfl)
    · rw [if_neg (by omega), Comp.safe_bind, Comp.safe_get]
      split
      · exact acts_log rfl w
      · split
        · exact hlog rfl (idle_runDefaultAction sig)
        · split
          · exact acts_log rfl w
          · exact Comp.safe_of_eq_ok (dispatchToHandler_eq sig w) ⟨[_], rfl, rfl⟩

theorem actOnSignal_fault {sig : Nat} (hkill : sig ≠ SIGKILL) (hstop : sig ≠ SIGSTOP)
    (h : sig = 0 ∨ nsig ≤ sig) (w : World) : actOnSignal sig w = .fault w := by
  rw [actOnSignal, if_neg hkill, if_neg hstop, if_pos h]
  rfl

/-! ## The stop -/

/-- What `PTRACE_SYSCALL` and `PTRACE_CONT` store in the traced process. -/
def resumedBy (request data : DWORD) (p : Process) : Process :=
  { p with ptrace :=
    { p.ptrace with
      request := request
      newSignal :=
        if data ≠ 0#32 ∧ data ≠ BitVec.ofNat 32 SIGSTOP then data else p.ptrace.newSignal } }

/-- The two requests, as the tracer makes them. -/
theorem sysPtrace_resume (env : Environment) {ctx : Context} {w : World} {slot : Slot}
    (hfound : w.findProcess ctx.ecx = some slot)
    (hrequest : ctx.ebx = PTRACE_SYSCALL ∨ ctx.ebx = PTRACE_CONT) :
    sysPtrace env ctx w = .ok (ctx.withEax 0#32) (w.modifySlot (resumedBy
      (if ctx.ebx = PTRACE_SYSCALL then PTRACE_SYSCALL else 0#32) ctx.esi) slot) := by
  have htraceme : ctx.ebx ≠ PTRACE_TRACEME := by
    rcases hrequest with h | h
    · rw [h]; decide
    · rw [h]; decide
  rw [sysPtrace, Comp.get_bind, hfound]
  dsimp only
  rw [if_neg htraceme, if_pos hrequest]
  rfl

/-- What the traced process finds stored. -/
theorem cur_absorb_resume (request data : DWORD) (w : World) :
    (w.absorb (.resume request data)).cur = resumedBy request data w.cur := rfl

/-- The world in which the process stops for a signal: the tracer has its `SIGCHLD`. -/
def stoppedFor (sig : Nat) (slot : Slot) (w : World) : World :=
  let w₁ := { w with
    cur := { w.cur with ptrace := { w.cur.ptrace with newSignal := BitVec.ofNat 32 sig } } }
  (w₁.modifyOther (Process.setPending SIGCHLD) slot).withTrace (.sent w.cur.ptrace.ownerPid SIGCHLD)

/-- The world in which it goes on, after the signals that have come meanwhile. -/
def goesOn (sends : List Signal) (request data : DWORD) (rest : List Input) (w : World) : World :=
  { (sends.foldl (fun w sig ↦ w.absorb (.send sig)) w).absorb (.resume request data) with
    inputs := rest }

/-- What is ahead does not matter to them. -/
theorem goesOn_inputs (sends : List Signal) (request data : DWORD) (rest inputs : List Input)
    (w : World) :
    goesOn sends request data rest { w with inputs := inputs } =
      goesOn sends request data rest w := by
  induction sends generalizing w with
  | nil => rfl
  | cons sig sends ih => exact ih (w.absorb (.send sig))

theorem ptraceStop_eq (sends : List Signal) (request data : DWORD) (rest : List Input)
    (w : World) :
    ptraceStop (sends.map .send ++ .resume request data :: rest) w =
      .ok () (goesOn sends request data rest w) := by
  induction sends generalizing w with
  | nil => rfl
  | cons sig sends ih =>
    refine (Comp.bind_of_ok rfl _).trans ((ih _).trans ?_)
    rw [goesOn_inputs]
    rfl

theorem ptrace_goesOn (sends : List Signal) (request data : DWORD) (rest : List Input)
    (w : World) : (goesOn sends request data rest w).cur.ptrace.newSignal =
      if data ≠ 0#32 ∧ data ≠ BitVec.ofNat 32 SIGSTOP then data else w.cur.ptrace.newSignal := by
  induction sends generalizing w with
  | nil => rfl
  | cons sig sends ih => exact ih (w.absorb (.send sig))

theorem notifyTracer_eq {w : World} {slot : Slot}
    (hfound : w.findProcess w.cur.ptrace.ownerPid = some slot) (hother : slot ≠ .cur) :
    notifyTracer w = .ok () ((w.modifyOther (Process.setPending SIGCHLD) slot).withTrace
      (.sent w.cur.ptrace.ownerPid SIGCHLD)) := by
  rw [notifyTracer, Comp.get_bind, hfound]
  cases slot with
  | cur => exact absurd rfl hother
  | before i => rfl
  | after i => rfl

theorem inputs_stoppedFor (sig : Nat) (slot : Slot) (w : World) :
    (stoppedFor sig slot w).inputs = w.inputs := by
  cases slot <;> rfl

theorem newSignal_stoppedFor (sig : Nat) {slot : Slot} (hother : slot ≠ .cur) (w : World) :
    (stoppedFor sig slot w).cur.ptrace.newSignal = BitVec.ofNat 32 sig := by
  cases slot with
  | cur => exact absurd rfl hother
  | before i => rfl
  | after i => rfl

/-- A traced process, stopped for a signal and let go on, as its tracer finds it. -/
structure Resumed (w : World) (sends : List Signal) (request data : DWORD) (rest : List Input)
    (slot : Slot) : Prop where
  traced : w.cur.ptrace.ownerPid ≠ 0#32
  found : w.findProcess w.cur.ptrace.ownerPid = some slot
  other : slot ≠ .cur
  inputs : w.inputs = sends.map .send ++ .resume request data :: rest

section Resumed

variable {w : World} {sig : Signal} {sends : List Signal} {request data : DWORD}
  {rest : List Input} {slot : Slot}

/-- What `HandleSignal` does from then on. -/
theorem handleSignal_eq (sig : Signal) (h : Resumed w sends request data rest slot)
    (hstop : data ≠ BitVec.ofNat 32 SIGSTOP) :
    handleSignal sig.val w = actOnSignal (if data = 0#32 then sig.val else data.toNat)
      (goesOn sends request data rest (stoppedFor sig.val slot w)) := by
  have hsig : (BitVec.ofNat 32 sig.val).toNat = sig.val := by
    have hlt : sig.val < 64 := sig.property.2
    rw [BitVec.toNat_ofNat]
    omega
  have hnotify := notifyTracer_eq (w := { w with cur := { w.cur with ptrace :=
    { w.cur.ptrace with newSignal := BitVec.ofNat 32 sig.val } } }) h.found h.other
  have hwait : ptraceStop (stoppedFor sig.val slot w).inputs (stoppedFor sig.val slot w) =
      .ok () (goesOn sends request data rest (stoppedFor sig.val slot w)) := by
    rw [inputs_stoppedFor, h.inputs]
    exact ptraceStop_eq sends request data rest _
  have hstored : (goesOn sends request data rest
      (stoppedFor sig.val slot w)).cur.ptrace.newSignal.toNat =
        if data = 0#32 then sig.val else data.toNat := by
    rw [ptrace_goesOn, newSignal_stoppedFor _ h.other]
    split
    · next hd => rw [if_neg hd.1]
    · next hd =>
      have hzero : data = 0#32 := by
        by_contra hne
        exact hd ⟨hne, hstop⟩
      rw [if_pos hzero, hsig]
  have hkept : ¬((if data = 0#32 then sig.val else data.toNat) ≠ sig.val ∧
      (if data = 0#32 then sig.val else data.toNat) = 0) := by
    split
    · exact fun hne ↦ hne.1 rfl
    · next hd => exact fun hne ↦ hd (BitVec.eq_of_toNat_eq hne.2)
  rw [handleSignal, Comp.get_bind, if_pos h.traced]
  refine (Comp.bind_of_ok rfl _).trans ((Comp.bind_of_ok hnotify _).trans ?_)
  refine (Comp.get_bind _ _).trans ?_
  refine (Comp.bind_of_ok hwait _).trans ?_
  refine (Comp.get_bind _ _).trans ?_
  rw [hstored, if_neg hkept]

/-- No signal is acted on if the tracer's data is 0, and otherwise the one it names, by its own
mask, handler or default, once. -/
structure Chosen (sig data : Nat) (w w' : World) : Prop where
  cancelled : data = 0 → handleSignal sig w = .ok () w'
  replaced : data ≠ 0 → handleSignal sig w = actOnSignal data w' ∧
    (∀ s, actOnSignal data w' ≠ .fault s) ∧ Acts [data] w' (actOnSignal data w').state

/-- The tracer's choice is respected exactly when it is a signal. -/
theorem handleSignal_chosen_iff (h : Resumed w sends request data rest slot)
    (hstop : data ≠ BitVec.ofNat 32 SIGSTOP) :
    Chosen sig.val data.toNat w (goesOn sends request data rest (stoppedFor sig.val slot w)) ↔
      1 ≤ data.toNat ∧ data.toNat < nsig := by
  have hrun := handleSignal_eq sig h hstop
  generalize goesOn sends request data rest (stoppedFor sig.val slot w) = w' at hrun ⊢
  by_cases hdata : data = 0#32
  · rw [if_pos hdata] at hrun
    refine iff_of_false (fun hc ↦ ?_) (by rw [hdata]; decide)
    have hok := hc.cancelled (by rw [hdata]; rfl)
    have hacts := actOnSignal_acts sig.property.1 sig.property.2 w'
    have hself := Comp.safe_of_ok hacts (hrun.symm.trans hok)
    cases acts_unique hself (acts_refl w')
  · have hpos : data.toNat ≠ 0 := fun h0 ↦ hdata (BitVec.eq_of_toNat_eq h0)
    rw [if_neg hdata] at hrun
    constructor
    · intro hc
      refine ⟨Nat.one_le_iff_ne_zero.mpr hpos, ?_⟩
      by_contra hout
      have hkill : data.toNat ≠ SIGKILL := by
        intro h9
        exact hout (h9 ▸ by decide)
      have hstop' : data.toNat ≠ SIGSTOP := by
        intro h19
        exact hout (h19 ▸ by decide)
      exact (hc.replaced hpos).2.1 _
        (actOnSignal_fault hkill hstop' (.inr (Nat.le_of_not_lt hout)) w')
    · rintro ⟨h1, h2⟩
      have hacts := actOnSignal_acts h1 h2 w'
      exact ⟨fun h0 ↦ absurd h0 hpos, fun _ ↦ ⟨hrun, Comp.ne_fault_of_safe hacts,
        Comp.state_of_safe (Acts [data.toNat] w') hacts (fun _ _ h ↦ h) fun _ h ↦ h⟩⟩

end Resumed

/-- Process 2, traced by init, with these requests of its tracer ahead. -/
def tracedWorld (inputs : List Input) : World :=
  let w := loneWorld inputs
  { w with
    before := [{ pid := 1#32, parentPid := 0#32 }]
    cur := { w.cur with ptrace := { ownerPid := 1#32 } } }

theorem resumed_tracedWorld (data : DWORD) :
    Resumed (tracedWorld [.resume 0#32 data]) [] 0#32 data [] (.before 0) :=
  ⟨by show (1#32 : DWORD) ≠ 0#32; decide, rfl, Slot.noConfusion, rfl⟩

/-- `SIGTERM` replaced by `SIGUSR1`. -/
theorem handleSignal_chosen_usr1 :
    Chosen SIGTERM SIGUSR1 (tracedWorld [.resume 0#32 10#32])
      (goesOn [] 0#32 10#32 []
        (stoppedFor SIGTERM (.before 0) (tracedWorld [.resume 0#32 10#32]))) :=
  (@handleSignal_chosen_iff _ ⟨SIGTERM, by decide⟩ _ _ _ _ _ (resumed_tracedWorld 10#32)
    (by decide)).mpr (by decide)

/-- `PTRACE_CONT` with data 0 leaves the process to its `SIGTERM`. -/
theorem not_chosen_cancelled :
    ¬Chosen SIGTERM 0 (tracedWorld [.resume 0#32 0#32])
      (goesOn [] 0#32 0#32 []
        (stoppedFor SIGTERM (.before 0) (tracedWorld [.resume 0#32 0#32]))) := by
  intro hc
  have hrun := handleSignal_eq ⟨SIGTERM, by decide⟩ (resumed_tracedWorld 0#32) (by decide)
  rw [if_pos rfl] at hrun
  have hacts := @actOnSignal_acts SIGTERM (by decide) (by decide)
    (goesOn [] 0#32 0#32 [] (stoppedFor SIGTERM (.before 0) (tracedWorld [.resume 0#32 0#32])))
  have hself := Comp.safe_of_ok hacts (hrun.symm.trans (hc.cancelled rfl))
  cases acts_unique hself (acts_refl _)

end Keow.Signal
