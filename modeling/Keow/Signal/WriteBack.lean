import Keow.Signal.Calls

/-!
# The context in force after an exception

`HandleException` works on its own copy of the thread context and writes it back at the end
(`Process.cpp:640–642,767`), after `HandleSignal` may have pointed the thread at a handler.
Here the handlers entered meanwhile are compared with the context in force afterwards.
-/

namespace Keow.Signal

open Keow.Base Keow.Kernel

/-- The handlers entered, newest first: signal, handler address and frame address. -/
def dispatches (t : List Trace) : List (Nat × DWORD × DWORD) :=
  t.filterMap (fun
    | .dispatched sig handler esp => some (sig, handler, esp)
    | _ => none)

/-- Every handler entered between the two worlds is where the thread now stands, with its
frame on top of the stack. -/
def DeliveriesInForce (w w' : World) : Prop :=
  ∀ ds, dispatches w'.trace = ds ++ dispatches w.trace →
    ∀ d ∈ ds, w'.threadCtx.eip = d.2.1 ∧ w'.threadCtx.esp = d.2.2

/-! ## Handlers entered -/

theorem dispatches_passive {new : List Trace} (h : ∀ t ∈ new, passive t = true) :
    dispatches new = [] := by
  rw [dispatches, List.filterMap_eq_nil_iff]
  intro t ht
  have hp := h t ht
  cases t with
  | dispatched sig handler esp => exact absurd hp (by simp [passive])
  | _ => rfl

theorem dispatches_of_quiet {w w' : World} (h : Quiet w w') :
    dispatches w'.trace = dispatches w.trace := by
  obtain ⟨new, ht, hpassive, -⟩ := h.lines
  rw [ht, dispatches, List.filterMap_append]
  change dispatches new ++ dispatches w.trace = dispatches w.trace
  rw [dispatches_passive hpassive, List.nil_append]

/-- The handler of a caught signal is entered once, and no other. -/
theorem dispatches_of_raised {sig : Nat} {thread : Context} {w w' : World}
    (h : RaisedAndActed sig thread w w') :
    (w.cur.Catches sig → dispatches w'.trace =
      [(sig, (w.cur.signalAction sig).saHandler, thread.esp - BitVec.ofNat 32 frameSize)] ++
        dispatches w.trace) ∧
    (¬w.cur.Catches sig → dispatches w'.trace = dispatches w.trace) := by
  obtain ⟨w₁, w₂, hbefore, hsame, hthread, hacted, hafter⟩ := h.steps
  have hcatch : (raiseOn sig w₁).cur.Catches sig ↔ w.cur.Catches sig := hsame.catches sig
  have hstart : dispatches (raiseOn sig w₁).trace = dispatches w.trace := by
    have hq := dispatches_of_quiet hbefore
    exact hq
  rw [dispatches_of_quiet hafter]
  cases hacted with
  | masked hkill hstop hblocked hw =>
    subst hw
    refine ⟨fun hc ↦ ?_, fun _ ↦ hstart⟩
    exact absurd (hcatch.mpr hc).2.2.2.1 (by simp [hblocked])
  | caught hc hw =>
    subst hw
    refine ⟨fun _ ↦ ?_, fun hn ↦ absurd (hcatch.mp hc) hn⟩
    change (sig, _, _) :: dispatches (raiseOn sig w₁).trace = _
    rw [hstart, ← hsame.signalAction, ← hthread]
    rfl
  | settled hc t ht hrec =>
    refine ⟨fun hc' ↦ absurd (hcatch.mpr hc') hc, fun _ ↦ ?_⟩
    rw [dispatches_of_quiet (quiet_of_received hrec)]
    cases ht with
    | defaulted => exact hstart
    | ignored => exact hstart

/-! ## The registers held meanwhile -/

theorem writeAttempt_contextFlags (ctx : Context) (w : World) :
    Comp.Post (writeAttempt ctx) w (fun r _ ↦ r.1.contextFlags = ctx.contextFlags)
      (fun _ ↦ True) := by
  simp only [writeAttempt, Comp.post_bind]
  refine Comp.post_of_forall (fun f w₁ ↦ ?_) (fun _ ↦ trivial)
  cases f with
  | none => rfl
  | some ioh =>
    simp only [Comp.post_bind]
    refine Comp.post_of_forall (fun r w₂ ↦ ?_) (fun _ ↦ trivial)
    split
    · rfl
    · simp only [Comp.post_bind, Comp.post_pure]
      exact Comp.post_of_forall (fun _ _ ↦ rfl) (fun _ ↦ trivial)

theorem writevAttempt_contextFlags (ctx : Context) (w : World) :
    Comp.Post (writevAttempt ctx) w (fun r _ ↦ r.1.contextFlags = ctx.contextFlags)
      (fun _ ↦ True) := by
  have hloop : ∀ (ioh : IOHandler) (n : Nat) (pV total : DWORD) (w : World),
      Comp.Post (writevLoop ioh ctx n pV total) w (fun r _ ↦ r.1.contextFlags = ctx.contextFlags)
        (fun _ ↦ True) := by
    intro ioh n
    induction n with
    | zero => exact fun _ _ _ ↦ rfl
    | succ n ih =>
      intro pV total w
      simp only [writevLoop, Comp.post_bind]
      refine Comp.post_of_forall (fun base w₁ ↦ ?_) (fun _ ↦ trivial)
      refine Comp.post_of_forall (fun len w₂ ↦ ?_) (fun _ ↦ trivial)
      refine Comp.post_of_forall (fun r w₃ ↦ ?_) (fun _ ↦ trivial)
      split
      · exact ih _ _ _
      · simp only [Comp.post_bind, Comp.post_pure]
        exact Comp.post_of_forall (fun _ _ ↦ rfl) (fun _ ↦ trivial)
  simp only [writevAttempt, Comp.post_bind]
  refine Comp.post_of_forall (fun f w₁ ↦ ?_) (fun _ ↦ trivial)
  cases f with
  | none => rfl
  | some ioh => exact hloop ioh _ _ _ _

theorem raisedBySyscall_contextFlags {ctx : Context} {w : World} {r : Raised}
    (h : raisedBySyscall ctx w = some r) : r.user.contextFlags = ctx.contextFlags := by
  have hpipe : ∀ attempt : K (Context × Bool), ∀ w₁,
      Comp.Post attempt w₁ (fun r _ ↦ r.1.contextFlags = ctx.contextFlags) (fun _ ↦ True) →
      raisedByPipe (attempt w₁) = some r → r.user.contextFlags = ctx.contextFlags := by
    intro attempt w₁ hpost hr
    unfold raisedByPipe at hr
    split at hr
    · next ctx' w₂ ha =>
      obtain rfl := Option.some.inj hr
      exact Comp.of_post_ok hpost ha
    · exact absurd hr (by simp)
  unfold raisedBySyscall raisedByHandler at h
  split at h
  · exact hpipe _ _ (writeAttempt_contextFlags ctx _) h
  · exact hpipe _ _ (writevAttempt_contextFlags ctx _) h
  · split at h
    · obtain rfl := Option.some.inj h
      rfl
    · exact absurd h (by simp)
  · split at h
    · obtain rfl := Option.some.inj h
      rfl
    · exact absurd h (by simp)
  · exact absurd h (by simp)

/-- The context of a system call has the flags and the stack pointer of the thread. -/
theorem systemCall_context {code : ExceptionCode} {address : DWORD} {w : World} {ctx : Context}
    (h : systemCall code address w = some ctx) :
    ctx.contextFlags = Context.CONTEXT_ALL ∧ ctx.esp = w.threadCtx.esp := by
  unfold systemCall at h
  dsimp only at h
  split at h
  · split at h
    · obtain rfl := Option.some.inj h
      exact ⟨rfl, rfl⟩
    · split at h
      · obtain rfl := Option.some.inj h
        exact ⟨rfl, rfl⟩
      · exact absurd h (by simp)
  · split at h
    · obtain rfl := Option.some.inj h
      exact ⟨rfl, rfl⟩
    · exact absurd h (by simp)
  · exact absurd h (by simp)

theorem raisedSignal_contextFlags {code : ExceptionCode} {address : DWORD} {w : World}
    {r : Raised} (h : raisedSignal code address w = some r) :
    r.user.contextFlags = Context.CONTEXT_ALL := by
  unfold raisedSignal at h
  split at h
  · next ctx hctx => exact (raisedBySyscall_contextFlags h).trans (systemCall_context hctx).1
  · obtain ⟨sig, -, rfl⟩ := Option.map_eq_some_iff.mp h
    rfl

theorem raisedBySyscall_esp {ctx : Context} {w : World} {r : Raised}
    (hctx : ctx.esp = w.threadCtx.esp) (h : raisedBySyscall ctx w = some r)
    (hsig : r.sig ≠ SIGPIPE) : r.user.esp = r.thread.esp := by
  have hpipe : ∀ x : Result World (Context × Bool), raisedByPipe x ≠ some r := by
    intro x hx
    unfold raisedByPipe at hx
    split at hx
    · obtain rfl := Option.some.inj hx
      exact hsig rfl
    · exact absurd hx (by simp)
  unfold raisedBySyscall raisedByHandler at h
  split at h
  · exact absurd h (hpipe _)
  · exact absurd h (hpipe _)
  · split at h
    · obtain rfl := Option.some.inj h
      exact hctx
    · exact absurd h (by simp)
  · split at h
    · obtain rfl := Option.some.inj h
      exact hctx
    · exact absurd h (by simp)
  · exact absurd h (by simp)

/-- Only `SIGPIPE` is raised with an injected call left unfinished. -/
theorem raisedSignal_esp {code : ExceptionCode} {address : DWORD} {w : World} {r : Raised}
    (h : raisedSignal code address w = some r) (hsig : r.sig ≠ SIGPIPE) :
    r.user.esp = r.thread.esp := by
  unfold raisedSignal at h
  split at h
  · next ctx hctx =>
    exact raisedBySyscall_esp (w := enterException w) (systemCall_context hctx).2 h hsig
  · obtain ⟨sig, -, rfl⟩ := Option.map_eq_some_iff.mp h
    rfl

/-! ## The context in force -/

theorem esp_ne_frame (esp : DWORD) : esp ≠ esp - BitVec.ofNat 32 frameSize := by
  intro h
  have hn := congrArg BitVec.toNat h
  have hsize : (BitVec.ofNat 32 frameSize).toNat = 888 := by decide
  rw [BitVec.toNat_sub, hsize] at hn
  omega

/-- When `HandleException` returns, a handler entered meanwhile is in force exactly if the
context it held for the user thread already had the handler's `Eip` and the frame's `Esp`: the
write-back decides, not the delivery. That takes an injected call left unfinished, so every
handler entered for another signal than `SIGPIPE` is lost. -/
theorem handleException_inForce_iff (env : Environment) (code : ExceptionCode) (address : DWORD)
    (w w' : World) (huntraced : w.cur.ptrace.ownerPid = 0#32)
    (hret : handleException env code address w = .ok () w') :
    DeliveriesInForce w w' ↔
      ∀ r, raisedSignal code address w = some r → w.cur.Catches r.sig →
        r.sig = SIGPIPE ∧ r.user.eip = (w.cur.signalAction r.sig).saHandler ∧
          r.user.esp = r.thread.esp - BitVec.ofNat 32 frameSize := by
  obtain ⟨ctx', w₁, hhandled, rfl⟩ :=
    Comp.of_post_ok (handleException_post env code address huntraced) hret
  -- the handlers entered are at most one, the one of a caught signal
  have hcaught : ∀ r, raisedSignal code address w = some r → w.cur.Catches r.sig →
      dispatches w₁.trace =
        [(r.sig, (w.cur.signalAction r.sig).saHandler, r.thread.esp - BitVec.ofNat 32 frameSize)] ++
          dispatches w.trace ∧
      (ctx'.merge w₁.threadCtx).eip = r.user.eip ∧ (ctx'.merge w₁.threadCtx).esp = r.user.esp := by
    intro r hr hc
    cases hhandled with
    | quiet hnone h => exact absurd (hr.symm.trans hnone) (by simp)
    | forgotten hnone w₂ hreset hb ha => exact absurd (hr.symm.trans hnone) (by simp)
    | raised r₁ hr₁ h heip hesp hflags =>
      obtain rfl := Option.some.inj (hr.symm.trans hr₁)
      rw [Context.merge_of_all (hflags.trans (raisedSignal_contextFlags hr))]
      exact ⟨(dispatches_of_raised h).1 hc, heip, hesp⟩
  have huncaught : (¬∃ r, raisedSignal code address w = some r ∧ w.cur.Catches r.sig) →
      dispatches w₁.trace = [] ++ dispatches w.trace := by
    intro hno
    cases hhandled with
    | quiet hnone h =>
      have hq := dispatches_of_quiet h
      exact hq
    | forgotten hnone w₂ hreset hb ha =>
      have hq := dispatches_of_quiet hb
      exact (dispatches_of_quiet ha).trans hq
    | raised r₁ hr₁ h heip hesp hflags =>
      exact (dispatches_of_raised h).2 (fun hc ↦ hno ⟨r₁, hr₁, hc⟩)
  constructor
  · intro hforce r hr hc
    obtain ⟨hdisp, heip, hesp⟩ := hcaught r hr hc
    have hin := hforce _ hdisp _ (List.mem_singleton_self _)
    have hframe : r.user.esp = r.thread.esp - BitVec.ofNat 32 frameSize := hesp.symm.trans hin.2
    refine ⟨?_, heip.symm.trans hin.1, hframe⟩
    by_contra hsig
    rw [raisedSignal_esp hr hsig] at hframe
    exact esp_ne_frame _ hframe
  · intro hcond ds hds d hmem
    by_cases hex : ∃ r, raisedSignal code address w = some r ∧ w.cur.Catches r.sig
    · obtain ⟨r, hr, hc⟩ := hex
      obtain ⟨hdisp, heip, hesp⟩ := hcaught r hr hc
      have heq := List.append_cancel_right (hds.symm.trans hdisp)
      rw [heq, List.mem_singleton] at hmem
      subst hmem
      obtain ⟨-, h1, h2⟩ := hcond r hr hc
      exact ⟨heip.trans h1, hesp.trans h2⟩
    · rw [List.append_cancel_right (hds.symm.trans (huncaught hex))] at hmem
      exact absurd hmem (by simp)

/-- A process that catches `sig` at `0x1000`, with its stack at `0x2000`. -/
def catchingWorld (sig : Nat) : World :=
  let w := loneWorld []
  { w with
    cur := { w.cur with signalAction := fun s ↦ if s = sig then { saHandler := 0x1000#32 } else {} }
    threadCtx := { Context.zero with esp := 0x2000#32, eip := 0x3000#32 } }

/-- The same process with `SIGFPE` blocked. -/
def maskingWorld : World :=
  let w := catchingWorld SIGFPE
  { w with cur := { w.cur with signalMask := BitVec.twoPow 64 (SIGFPE - 1) } }

/-- A division by zero raises the signal in a process that blocks it: no handler is entered, and
none is lost. -/
theorem handleException_inForce_iff_masked :
    ∃ w', handleException idleEnvironment .intDivideByZero 0x3000#32 maskingWorld = .ok () w' ∧
      w'.trace = [.masked SIGFPE, .raised SIGFPE true] ∧ DeliveriesInForce maskingWorld w' := by
  have hret : ∃ w', handleException idleEnvironment .intDivideByZero 0x3000#32 maskingWorld =
      .ok () w' ∧ w'.trace = [.masked SIGFPE, .raised SIGFPE true] := ⟨_, rfl, rfl⟩
  obtain ⟨w', hret, htrace⟩ := hret
  refine ⟨w', hret, htrace, (handleException_inForce_iff _ _ _ _ _ rfl hret).mpr ?_⟩
  intro r hr hc
  have hsig : r.sig = SIGFPE := by
    obtain rfl := Option.some.inj hr
    rfl
  rw [hsig] at hc
  exact absurd hc.2.2.2.1 (by decide)

/-- The handler of a division by zero is entered, and then the thread is put back. -/
theorem division_handler_lost :
    ∃ w', handleException idleEnvironment .intDivideByZero 0x3000#32 (catchingWorld SIGFPE) =
        .ok () w' ∧ (catchingWorld SIGFPE).cur.ptrace.ownerPid = 0#32 ∧
      (catchingWorld SIGFPE).cur.Catches SIGFPE ∧
      ¬DeliveriesInForce (catchingWorld SIGFPE) w' := by
  refine ⟨_, rfl, rfl, ⟨by decide, by decide, by decide, by decide, by decide, by decide⟩, ?_⟩
  intro hforce
  have hin := hforce [(SIGFPE, 0x1000#32, 0x1c88#32)] rfl _ (List.mem_singleton_self _)
  exact absurd hin.1 (by decide)

end Keow.Signal
