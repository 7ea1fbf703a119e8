import Keow.Signal.Loop

/-!
# What an exception does to the signals of `P`

Which signal an exception raises on `P` is computed here from the exception, the registers, the
instruction and the inputs ahead. `Handled` then says everything that `HandleException` can do
to the signals of an untraced process: receive some, handle the one it raises, or forget all of
them in `execve`.
-/

namespace Keow.Signal

open Keow.Base Keow.Kernel

/-! ## The signal raised -/

/-- A signal raised on `P`: the context that `HandleException` holds for the user thread and
the registers the thread has at that moment. They differ only while an injected call is
left unfinished. -/
structure Raised where
  sig : Nat
  user : Context
  thread : Context

/-- `SIGPIPE` after an attempt to write. -/
def raisedByPipe : Result World (Context × Bool) → Option Raised
  | .ok (ctx, true) w => some ⟨SIGPIPE, ctx, w.threadCtx⟩
  | _ => none

/-- `kill` reaches its caller. -/
def killsSelf (ctx : Context) (w : World) : Bool :=
  decide (ctx.ecx.toNat < nsig) && ctx.ecx.toNat != 0 &&
    (if 0 < ctx.ebx.toInt then w.findProcess ctx.ebx == some .cur
    else killSelects w.cur ctx.ebx w.cur)

/-- `PTRACE_KILL` reaches its caller. -/
def ptraceKillsSelf (ctx : Context) (w : World) : Bool :=
  ctx.ebx == PTRACE_KILL && w.findProcess ctx.ecx == some .cur

/-- The world in which a system call starts, `SysCalls.cpp:413–414`. -/
def enterSyscall (ctx : Context) (w : World) : World :=
  { w with cur := { w.cur with ptrace := { w.cur.ptrace with ctx := ctx, ctxValid := true } } }

/-- The signal the handler of call `n` raises on its caller. -/
def raisedByHandler (n : Nat) (ctx : Context) (w : World) : Option Raised :=
  match n with
  | 4 => raisedByPipe (writeAttempt ctx w)
  | 146 => raisedByPipe (writevAttempt ctx w)
  | 26 => if ptraceKillsSelf ctx w then some ⟨SIGKILL, ctx, w.threadCtx⟩ else none
  | 37 => if killsSelf ctx w then some ⟨ctx.ecx.toNat, ctx, w.threadCtx⟩ else none
  | _ => none

/-- The signal a system call raises on its caller. -/
def raisedBySyscall (ctx : Context) (w : World) : Option Raised :=
  raisedByHandler ctx.eax.toNat ctx (enterSyscall ctx w)

/-- The context `HandleException` works on. -/
def exceptionContext (w : World) : Context :=
  { w.threadCtx with contextFlags := Context.CONTEXT_ALL }

/-- The world once `HandleException` has taken its copy. -/
def enterException (w : World) : World := { w with segGs := w.threadCtx.segGs }

/-- The context of the system call that an exception stands for, if it stands for one. -/
def systemCall (code : ExceptionCode) (address : DWORD) (w : World) : Option Context :=
  let ctx := exceptionContext w
  match code with
  | .intOverflow =>
      if w.instruction (ctx.eip - 2#32) = INT4 then some ctx
      else if w.instruction (ctx.eip - 1#32) = INT4 then some (ctx.withEip (ctx.eip + 1#32))
      else none
  | .accessViolation =>
      if w.instruction address = INT80 ∨ w.instruction address = INT4 then
        some (ctx.withEip (ctx.eip + 2#32))
      else none
  | _ => none

/-- The signal of an exception that is no system call. -/
def faultSignal (code : ExceptionCode) (address : DWORD) (w : World) : Option Nat :=
  match code with
  | .intOverflow => some SIGFPE
  | .accessViolation => if w.instruction address = MOV_GS_EAX then none else some SIGSEGV
  | code => code.faultSignal

/-- The signal an exception raises on `P`. -/
def raisedSignal (code : ExceptionCode) (address : DWORD) (w : World) : Option Raised :=
  match systemCall code address w with
  | some ctx => raisedBySyscall ctx (enterException w)
  | none => (faultSignal code address w).map (fun sig ↦ ⟨sig, exceptionContext w, w.threadCtx⟩)

/-- The world in which call `n` forgets all signals, if it gets there. -/
def resetByHandler (env : Environment) (n : Nat) (ctx : Context) (w : World) : Option World :=
  match n with
  | 11 =>
      match untilReset env ctx w with
      | .ok none w' => some w'
      | _ => none
  | _ => none

/-- The world in which an exception makes `P` forget all signals. -/
def resetPoint (env : Environment) (code : ExceptionCode) (address : DWORD) (w : World) :
    Option World :=
  match systemCall code address w with
  | some ctx => resetByHandler env ctx.eax.toNat ctx (enterSyscall ctx (enterException w))
  | none => none

/-! ## Nothing is handled -/

/-- A line of the trace that records no handling: a signal received or left at a process. -/
def passive : Trace → Bool
  | .raised _ _ => true
  | .sent _ _ => true
  | _ => false

/-- Between two worlds `P` may have received signals, and no more: none was handled and none
forgotten. Its mask and its actions are free. -/
structure Quiet (w w' : World) : Prop where
  inWin32Setup : w'.cur.inWin32Setup = w.cur.inWin32Setup
  pending : ∀ sig, w.cur.pendingSignals sig = true → w'.cur.pendingSignals sig = true
  lines : ∃ new : List Trace, w'.trace = new ++ w.trace ∧ (∀ t ∈ new, passive t = true) ∧
    ∀ sig blocked, .raised sig blocked ∈ new → w'.cur.pendingSignals sig = true

theorem quiet_refl (w : World) : Quiet w w := ⟨rfl, fun _ ↦ id, [], rfl, by simp, by simp⟩

theorem quiet_trans {a b c : World} (h : Quiet a b) (h' : Quiet b c) : Quiet a c := by
  obtain ⟨new, ht, hpassive, hraised⟩ := h.lines
  obtain ⟨new', ht', hpassive', hraised'⟩ := h'.lines
  refine ⟨h'.inWin32Setup.trans h.inWin32Setup, fun sig hp ↦ h'.pending sig (h.pending sig hp),
    new' ++ new, ?_, ?_, ?_⟩
  · rw [ht', ht, List.append_assoc]
  · intro t hmem
    rcases List.mem_append.mp hmem with hmem | hmem
    · exact hpassive' t hmem
    · exact hpassive t hmem
  · intro sig blocked hmem
    rcases List.mem_append.mp hmem with hmem | hmem
    · exact hraised' sig blocked hmem
    · exact h'.pending sig (hraised sig blocked hmem)

/-- Nothing that concerns signals changed. -/
theorem quiet_of_same {w w' : World} (hsetup : w'.cur.inWin32Setup = w.cur.inWin32Setup)
    (hpending : w'.cur.pendingSignals = w.cur.pendingSignals) (htrace : w'.trace = w.trace) :
    Quiet w w' :=
  ⟨hsetup, fun _ hp ↦ by rw [hpending]; exact hp, [], htrace, by simp, by simp⟩

theorem quiet_of_received {w w' : World} (h : Received w w') : Quiet w w' := by
  obtain ⟨sends, ht, hp⟩ := h.sends
  refine ⟨h.inWin32Setup, fun sig hpend ↦ by rw [hp, hpend, Bool.or_true], _, ht, ?_, ?_⟩
  · intro t hmem
    obtain ⟨sig, -, rfl⟩ := List.mem_map.mp hmem
    rfl
  · intro sig blocked hmem
    obtain ⟨sig', hmem', heq⟩ := List.mem_map.mp hmem
    obtain ⟨rfl, -⟩ := Trace.raised.inj heq
    rw [hp]
    simp [hmem']

/-- Handling no signal, and not becoming traced. -/
def silent : Comp.Effect World where
  ok w w' := Quiet w w' ∧ (w.cur.ptrace.ownerPid = 0#32 → w'.cur.ptrace.ownerPid = 0#32) ∧
    leaving.ok w w'
  exit := leaving.exit
  refl w := ⟨quiet_refl w, id, leaving.refl w⟩
  trans h h' := ⟨quiet_trans h.1 h'.1, fun h0 ↦ h'.2.1 (h.2.1 h0), leaving.trans h.2.2 h'.2.2⟩
  trans_exit h h' := leaving.trans_exit h.2.2 h'

theorem silent_of_received {α : Type} {x : K α} (h : Comp.Within receiving x) :
    Comp.Within silent x := by
  refine Comp.within_mono h (fun h ↦ ⟨quiet_of_received h, fun h0 ↦ h.ownerPid.trans h0, h.pid,
    h.parentPid⟩) ?_
  rintro a b ⟨exitCode, w₁, h₁, rfl⟩
  exact ⟨exitCode, w₁, ⟨h₁.pid, h₁.parentPid⟩, rfl⟩

theorem leaving_of_silent {α : Type} {x : K α} (h : Comp.Within silent x) :
    Comp.Within leaving x :=
  Comp.within_mono h (fun h ↦ h.2.2) (fun h ↦ h)

/-! ## One signal handled at once -/

/-- The world in which `HandleSignal` starts on a signal that `P` raises on itself. -/
def raiseOn (sig : Nat) (w : World) : World :=
  setCurrentSignal sig (w.withTrace (.raised sig (w.cur.blocks sig)))

/-- The signals of `P` are the same as far as handling them goes. -/
structure SameActions (w w' : World) : Prop where
  signalMask : w'.cur.signalMask = w.cur.signalMask
  signalAction : w'.cur.signalAction = w.cur.signalAction

theorem sameActions_of_received {w w' : World} (h : Received w w') : SameActions w w' :=
  ⟨h.signalMask, h.signalAction⟩

theorem SameActions.blocks {w w' : World} (h : SameActions w w') (sig : Nat) :
    w'.cur.blocks sig = w.cur.blocks sig := by
  rw [Process.blocks, h.signalMask]
  rfl

theorem SameActions.catches {w w' : World} (h : SameActions w w') (sig : Nat) :
    w'.cur.Catches sig ↔ w.cur.Catches sig := by
  simp only [Process.Catches, h.blocks, h.signalAction]

/-- `sig` was raised in a world with `P`'s actions as in `w` and the given registers of the
thread, and handled at once. -/
structure RaisedAndActed (sig : Nat) (thread : Context) (w w' : World) : Prop where
  steps : ∃ w₁ w₂, Quiet w w₁ ∧ SameActions w w₁ ∧ w₁.threadCtx = thread ∧
    Acted sig (raiseOn sig w₁) w₂ ∧ Quiet w₂ w'

theorem acted_ownerPid {sig : Nat} {w w' : World} (h : Acted sig w w') :
    w'.cur.ptrace.ownerPid = w.cur.ptrace.ownerPid := by
  cases h with
  | masked hkill hstop hblocked h => rw [h]; rfl
  | caught hc h => rw [h]; rfl
  | settled hc t ht h => exact h.ownerPid

theorem sendSignal_cur_post (sig : Nat) {w : World} (h : w.cur.ptrace.ownerPid = 0#32) :
    Comp.Post (sendSignal .cur sig) w
      (fun _ w' ↦ RaisedAndActed sig w.threadCtx w w' ∧ w'.cur.ptrace.ownerPid = 0#32)
      (fun _ ↦ True) := by
  simp only [sendSignal, Comp.post_bind, Comp.post_get, post_log]
  refine Comp.post_mono (handleCurrentSignal_post sig (by exact h)) ?_ (fun _ _ ↦ trivial)
  rintro _ w' ⟨w₂, hacted, rfl⟩
  refine ⟨⟨w, w₂, quiet_refl w, ⟨rfl, rfl⟩, rfl, hacted, quiet_of_same rfl rfl rfl⟩, ?_⟩
  exact (acted_ownerPid hacted).trans h

/-- What else happened before and after does not matter, as long as it is quiet. -/
theorem raisedAndActed_of_quiet {sig : Nat} {thread : Context} {w w₁ w₂ w' : World}
    (hbefore : Quiet w w₁) (hsame : SameActions w w₁)
    (h : RaisedAndActed sig thread w₁ w₂) (hafter : Quiet w₂ w') :
    RaisedAndActed sig thread w w' := by
  obtain ⟨v, v', hq, hs, hthread, hacted, hq'⟩ := h.steps
  exact ⟨v, v', quiet_trans hbefore hq,
    ⟨hs.signalMask.trans hsame.signalMask, hs.signalAction.trans hsame.signalAction⟩, hthread,
    hacted, quiet_trans hq' hafter⟩

/-- The world after `InitSignalHandling`. -/
def forgetSignals (w : World) : World :=
  { w with
    cur := w.cur.initSignalHandling
    trace := .signalsReset :: w.trace }

@[simp] theorem post_initSignalHandling (w : World) (Q : Unit → World → Prop)
    (X : World → Prop) : Comp.Post initSignalHandling w Q X ↔ Q () (forgetSignals w) := Iff.rfl

/-- Everything a system call or an exception can do to the signals of an untraced process, and
what the context it is left with has to do with the signal it raised. -/
inductive Handled (r : Option Raised) (reset : Option World) (w : World) (ctx' : Context)
    (w' : World) : Prop
  | quiet (hr : r = none) (h : Quiet w w')
  | raised (r₁ : Raised) (hr : r = some r₁) (h : RaisedAndActed r₁.sig r₁.thread w w')
      (heip : ctx'.eip = r₁.user.eip) (hesp : ctx'.esp = r₁.user.esp)
      (hflags : ctx'.contextFlags = r₁.user.contextFlags)
  | forgotten (hr : r = none) (w₁ : World) (hreset : reset = some w₁) (hbefore : Quiet w w₁)
      (hafter : Quiet (forgetSignals w₁) w')

theorem handled_of_quiet {r : Option Raised} {reset : Option World} {w₁ w w' w₂ : World}
    {ctx' : Context} (hbefore : Quiet w w₁) (hsame : SameActions w w₁)
    (h : Handled r reset w₁ ctx' w₂) (hafter : Quiet w₂ w') : Handled r reset w ctx' w' := by
  cases h with
  | quiet hr h => exact .quiet hr (quiet_trans hbefore (quiet_trans h hafter))
  | raised r₁ hr h heip hesp hflags =>
    exact .raised r₁ hr (raisedAndActed_of_quiet hbefore hsame h hafter) heip hesp hflags
  | forgotten hr w₃ hreset hb ha =>
    exact .forgotten hr w₃ hreset (quiet_trans hbefore hb) (quiet_trans ha hafter)

/-! ## System calls -/

/-- Still no tracer that follows system calls. -/
def NotFollowed (w : World) : Prop :=
  ¬(w.cur.ptrace.ownerPid ≠ 0#32 ∧ w.cur.ptrace.request = PTRACE_SYSCALL)

theorem notFollowed_of_untraced {w : World} (h : w.cur.ptrace.ownerPid = 0#32) : NotFollowed w :=
  fun hn ↦ hn.1 h

/-- What is shown of every system call of an untraced process. -/
def CallHandled (r : Option Raised) (reset : Option World) (x : K Context) (w : World) : Prop :=
  Comp.Post x w (fun ctx' w' ↦ Handled r reset w ctx' w' ∧ NotFollowed w') (fun _ ↦ True)

theorem callHandled_of_silent {x : K Context} (hx : Comp.Within silent x) {w : World}
    (h : w.cur.ptrace.ownerPid = 0#32) : CallHandled none none x w :=
  Comp.post_mono (hx w) (fun _ _ hs ↦ ⟨.quiet rfl hs.1, notFollowed_of_untraced (hs.2.1 h)⟩)
    (fun _ _ ↦ trivial)

/-- `write` and `writev`, whatever they do before the signal. -/
theorem callHandled_raisePipe {attempt : K (Context × Bool)}
    (hrecv : Comp.Within receiving attempt) {w : World} (h : w.cur.ptrace.ownerPid = 0#32) :
    CallHandled (raisedByPipe (attempt w)) none (attempt >>= raisePipe) w := by
  rw [CallHandled, Comp.post_bind]
  have hw := hrecv w
  unfold Comp.Post at hw ⊢
  cases ha : attempt w with
  | exit w₁ => trivial
  | wait w₁ => trivial
  | fault w₁ => trivial
  | ok r w₁ =>
    obtain ⟨ctx, broken⟩ := r
    rw [ha] at hw
    have hrec : Received w w₁ := hw
    have h₁ : w₁.cur.ptrace.ownerPid = 0#32 := hrec.ownerPid.trans h
    change Comp.Post (raisePipe (ctx, broken)) w₁ _ _
    cases broken with
    | false => exact ⟨.quiet rfl (quiet_of_received hrec), notFollowed_of_untraced h₁⟩
    | true =>
      simp only [raisePipe, if_true, Comp.post_bind]
      refine Comp.post_mono (sendSignal_cur_post SIGPIPE h₁) ?_ (fun _ _ ↦ trivial)
      rintro _ w' ⟨hacted, howner⟩
      refine ⟨.raised ⟨SIGPIPE, ctx, w₁.threadCtx⟩ rfl ?_ rfl rfl rfl,
        notFollowed_of_untraced howner⟩
      exact raisedAndActed_of_quiet (quiet_of_received hrec) (sameActions_of_received hrec) hacted
        (quiet_refl w')

/-! ### `kill` -/

/-- Sending to other processes: `P` and its thread stay as they are. -/
def elsewhere : Comp.Effect World where
  ok w w' := w'.cur = w.cur ∧ w'.threadCtx = w.threadCtx ∧ Quiet w w'
  exit _ _ := True
  refl w := ⟨rfl, rfl, quiet_refl w⟩
  trans h h' := ⟨h'.1.trans h.1, h'.2.1.trans h.2.1, quiet_trans h.2.2 h'.2.2⟩
  trans_exit _ _ := trivial

theorem modifyOther_cur (f : Process → Process) (w : World) (slot : Slot) :
    (w.modifyOther f slot).cur = w.cur ∧ (w.modifyOther f slot).threadCtx = w.threadCtx ∧
      (w.modifyOther f slot).trace = w.trace := by
  cases slot <;> exact ⟨rfl, rfl, rfl⟩

theorem quiet_sent (pid : DWORD) (sig : Nat) (w : World) :
    Quiet w (w.withTrace (.sent pid sig)) := by
  refine ⟨rfl, fun _ ↦ id, [.sent pid sig], rfl, ?_, ?_⟩
  · intro t ht
    obtain rfl := List.mem_singleton.mp ht
    rfl
  · intro s blocked hmem
    exact absurd (List.mem_singleton.mp hmem) (by simp)

theorem within_sendSignal_other {slot : Slot} (hslot : slot ≠ .cur) (sig : Nat) :
    Comp.Within elsewhere (sendSignal slot sig) := by
  refine Comp.within_bind Comp.within_get (fun w ↦ ?_)
  have hmod : Comp.Within elsewhere
      (Comp.modify (fun w ↦ w.modifyOther (Process.setPending sig) slot)) := by
    refine Comp.within_modify (fun w ↦ ?_)
    obtain ⟨h1, h2, h3⟩ := modifyOther_cur (Process.setPending sig) w slot
    exact ⟨h1, h2, quiet_of_same (by rw [h1]) (by rw [h1]) h3⟩
  have hlog : ∀ pid, Comp.Within elsewhere (log (.sent pid sig)) :=
    fun pid ↦ Comp.within_modify (fun w ↦ ⟨rfl, rfl, quiet_sent pid sig w⟩)
  cases slot with
  | cur => exact absurd rfl hslot
  | before i =>
    refine Comp.within_bind hmod (fun _ ↦ ?_)
    cases w.at (.before i) with
    | none => exact Comp.within_pure _
    | some p => exact hlog p.pid
  | after i =>
    refine Comp.within_bind hmod (fun _ ↦ ?_)
    cases w.at (.after i) with
    | none => exact Comp.within_pure _
    | some p => exact hlog p.pid

theorem within_sendToSlots_others (select : Process → Bool) (sig : Nat) {slots : List Slot}
    (h : .cur ∉ slots) : Comp.Within elsewhere (sendToSlots select sig slots) := by
  induction slots with
  | nil => exact Comp.within_pure _
  | cons slot rest ih =>
    simp only [List.mem_cons, not_or] at h
    refine Comp.within_bind (Comp.within_bind Comp.within_get (fun w ↦ ?_)) (fun _ ↦ ih h.2)
    cases w.at slot with
    | none => exact Comp.within_pure _
    | some p =>
      exact Comp.within_ite (within_sendSignal_other (Ne.symm h.1) sig) (Comp.within_pure _)

theorem post_sendToSlots_append (select : Process → Bool) (sig : Nat) (a b : List Slot)
    (w : World) (Q : Unit → World → Prop) (X : World → Prop) :
    Comp.Post (sendToSlots select sig (a ++ b)) w Q X ↔
      Comp.Post (sendToSlots select sig a) w
        (fun _ w' ↦ Comp.Post (sendToSlots select sig b) w' Q X) X := by
  induction a generalizing w with
  | nil => exact Iff.rfl
  | cons slot a ih =>
    simp only [List.cons_append, sendToSlots, Comp.post_bind]
    unfold Comp.Post
    cases sendIfSelected select sig slot w with
    | ok _ w₁ => exact ih w₁
    | exit w₁ => exact Iff.rfl
    | wait w₁ => exact Iff.rfl
    | fault w₁ => exact Iff.rfl

/-- A send to several processes, with `P` among them or not. -/
structure SentTo (chosen : Prop) (sig : Nat) (w w' : World) : Prop where
  acted : chosen → RaisedAndActed sig w.threadCtx w w'
  quiet : ¬chosen → Quiet w w'
  untraced : w'.cur.ptrace.ownerPid = 0#32

/-- The caller's turn in a send to many. -/
theorem sendIfSelected_cur_post (select : Process → Bool) (sig : Nat) {w : World}
    (h : w.cur.ptrace.ownerPid = 0#32) :
    Comp.Post (sendIfSelected select sig .cur) w
      (fun _ w' ↦ SentTo (select w.cur = true ∧ sig ≠ 0) sig w w') (fun _ ↦ True) := by
  simp only [sendIfSelected, Comp.post_bind, Comp.post_get, World.at]
  split
  · next hsel =>
    refine Comp.post_mono (sendSignal_cur_post sig h) ?_ (fun _ _ ↦ trivial)
    rintro _ w' ⟨hacted, howner⟩
    exact ⟨fun _ ↦ hacted, fun hn ↦ absurd hsel hn, howner⟩
  · next hsel => exact ⟨fun hs ↦ absurd hs hsel, fun _ ↦ quiet_refl w, h⟩

/-- Sending to the whole table reaches the caller at most once, with its registers. -/
theorem sendToSlots_post (select : Process → Bool) (sig : Nat) {w : World}
    (h : w.cur.ptrace.ownerPid = 0#32) :
    Comp.Post (sendToSlots select sig w.slots) w
      (fun _ w' ↦ SentTo (select w.cur = true ∧ sig ≠ 0) sig w w') (fun _ ↦ True) := by
  have hothers : ∀ f : Nat → Slot, (∀ i, f i ≠ .cur) → ∀ n,
      Slot.cur ∉ (List.range n).map f := by
    intro f hf n hm
    obtain ⟨i, -, hi⟩ := List.mem_map.mp hm
    exact hf i hi
  rw [World.slots, post_sendToSlots_append, post_sendToSlots_append]
  refine Comp.post_mono (within_sendToSlots_others select sig
    (hothers .before (by simp) w.before.length) w) ?_ (fun _ _ ↦ trivial)
  rintro _ w₁ ⟨hcur, hthread, hquiet⟩
  simp only [sendToSlots, Comp.post_bind, Comp.post_pure]
  refine Comp.post_mono (sendIfSelected_cur_post select sig (by rw [hcur]; exact h)) ?_
    (fun _ _ ↦ trivial)
  rintro _ w₂ hsent
  rw [hcur] at hsent
  refine Comp.post_mono (within_sendToSlots_others select sig
    (hothers .after (by simp) w.after.length) w₂) ?_ (fun _ _ ↦ trivial)
  rintro _ w₃ ⟨hcur₃, -, hquiet₃⟩
  refine ⟨fun hsel ↦ ?_, fun hsel ↦ ?_, by rw [hcur₃]; exact hsent.untraced⟩
  · have hacted := hsent.acted hsel
    rw [hthread] at hacted
    exact raisedAndActed_of_quiet hquiet ⟨by rw [hcur], by rw [hcur]⟩ hacted hquiet₃
  · exact quiet_trans hquiet (quiet_trans (hsent.quiet hsel) hquiet₃)

/-- A send to one process. -/
theorem sendSignal_post (slot : Slot) (sig : Nat) {w : World}
    (h : w.cur.ptrace.ownerPid = 0#32) :
    Comp.Post (sendSignal slot sig) w (fun _ w' ↦ SentTo (slot = .cur) sig w w')
      (fun _ ↦ True) := by
  by_cases hslot : slot = .cur
  · subst hslot
    refine Comp.post_mono (sendSignal_cur_post sig h) ?_ (fun _ _ ↦ trivial)
    rintro _ w' ⟨hacted, howner⟩
    exact ⟨fun _ ↦ hacted, fun hn ↦ absurd rfl hn, howner⟩
  · refine Comp.post_mono (within_sendSignal_other hslot sig w) ?_ (fun _ _ ↦ trivial)
    rintro _ w' ⟨hcur, -, hquiet⟩
    exact ⟨fun hs ↦ absurd hs hslot, fun _ ↦ hquiet, by rw [hcur]; exact h⟩

/-- From the send to the call that makes it. -/
theorem handled_of_sentTo {chosen : Bool} {sig : Nat} {ctx ctx' : Context} {w w' : World}
    (h : SentTo (chosen = true) sig w w') (heip : ctx'.eip = ctx.eip) (hesp : ctx'.esp = ctx.esp)
    (hflags : ctx'.contextFlags = ctx.contextFlags) :
    Handled (if chosen then some ⟨sig, ctx, w.threadCtx⟩ else none) none w ctx' w' ∧
      NotFollowed w' := by
  refine ⟨?_, notFollowed_of_untraced h.untraced⟩
  cases hc : chosen with
  | true => exact .raised _ rfl (h.acted hc) heip hesp hflags
  | false => exact .quiet rfl (h.quiet (by simp [hc]))

theorem callHandled_sysKill {ctx : Context} {w : World} (h : w.cur.ptrace.ownerPid = 0#32) :
    CallHandled (if killsSelf ctx w then some ⟨ctx.ecx.toNat, ctx, w.threadCtx⟩ else none) none
      (sysKill ctx) w := by
  have hquiet : ∀ eax, Comp.Post (Pure.pure (ctx.withEax eax) : K Context) w
      (fun ctx' w' ↦ Handled none none w ctx' w' ∧ NotFollowed w') (fun _ ↦ True) :=
    fun _ ↦ ⟨.quiet rfl (quiet_refl w), notFollowed_of_untraced h⟩
  rw [CallHandled]
  by_cases hsig : nsig ≤ ctx.ecx.toNat
  · have hself : killsSelf ctx w = false := by simp [killsSelf, Nat.not_lt.mpr hsig]
    simp only [sysKill, hsig, if_true, hself]
    exact hquiet _
  · have hlt : decide (ctx.ecx.toNat < nsig) = true := by simpa using hsig
    by_cases hpid : 0 < ctx.ebx.toInt
    · have hself : killsSelf ctx w =
          (ctx.ecx.toNat != 0 && w.findProcess ctx.ebx == some .cur) := by
        simp only [killsSelf, hlt, hpid, if_true, Bool.true_and]
      simp only [sysKill, hsig, hpid, if_true, if_false, Comp.post_bind, Comp.post_get, hself]
      cases hfind : w.findProcess ctx.ebx with
      | none => simpa using hquiet _
      | some slot =>
        by_cases hz : ctx.ecx.toNat = 0
        · simp only [hz, ne_eq, not_true_eq_false, if_false]
          simpa using hquiet _
        · have hnz : (ctx.ecx.toNat != 0) = true := by simpa using hz
          simp only [hz, ne_eq, not_false_eq_true, if_true, Comp.post_bind, Comp.post_pure, hnz,
            Bool.true_and]
          refine Comp.post_mono (sendSignal_post slot _ h) ?_ (fun _ _ ↦ trivial)
          intro _ w' hsent
          have hchosen : SentTo ((some slot == some Slot.cur) = true) ctx.ecx.toNat w w' := by
            simpa using hsent
          exact handled_of_sentTo hchosen rfl rfl rfl
    · have hself : killsSelf ctx w =
          (ctx.ecx.toNat != 0 && killSelects w.cur ctx.ebx w.cur) := by
        simp only [killsSelf, hlt, hpid, if_false, Bool.true_and]
      simp only [sysKill, hsig, hpid, if_false, Comp.post_bind, Comp.post_get, Comp.post_pure,
        hself]
      refine Comp.post_mono (sendToSlots_post _ _ h) ?_ (fun _ _ ↦ trivial)
      intro _ w' hsent
      have hchosen : SentTo ((ctx.ecx.toNat != 0 && killSelects w.cur ctx.ebx w.cur) = true)
          ctx.ecx.toNat w w' := by
        simpa [and_comm] using hsent
      exact handled_of_sentTo hchosen rfl rfl rfl

/-! ### The calls that raise nothing -/

theorem silent_writeMemory (addr : DWORD) (bytes : List UInt8) :
    Comp.Within silent (writeMemory addr bytes) :=
  silent_of_received (within_writeMemory addr bytes)

theorem silent_sysExit (ctx : Context) : Comp.Within silent (sysExit ctx) :=
  Comp.within_bind (silent_of_received (within_sysCallDllExit _)) (fun _ ↦ Comp.within_pure _)

/-- Changing the mask or the actions. -/
theorem silent_modifySignals (mask : Process → BitVec 64) (action : Process → Nat → SigAction) :
    Comp.Within silent
      (modifyCur (fun p ↦ { p with signalMask := mask p, signalAction := action p })) :=
  Comp.within_modify (fun _ ↦ ⟨quiet_of_same rfl rfl rfl, id, rfl, rfl⟩)

theorem silent_sysSigaction (ctx : Context) : Comp.Within silent (sysSigaction ctx) := by
  have hset : ∀ old : SigAction, Comp.Within silent (do
      if ctx.ecx ≠ 0#32 then
        let bytes ← readMemory ctx.ecx 16
        let field (i : Nat) : DWORD := (Codec.word 4).decode (bytes.drop (4 * i))
        modifyCur (fun p ↦ { p with signalAction := fun s ↦ if s = ctx.ebx.toNat then
          { saHandler := field 0
            saFlags := field 2
            saRestorer := field 3
            saMask := (old.saMask >>> 32).setWidth 32 ++ field 1 } else p.signalAction s })
      return ctx.withEax 0#32) := by
    intro old
    refine Comp.within_ite ?_ (Comp.within_pure _)
    refine Comp.within_bind (silent_of_received (within_readMemory _ _)) (fun _ ↦ ?_)
    exact Comp.within_bind (silent_modifySignals _ _) (fun _ ↦ Comp.within_pure _)
  refine Comp.within_ite (Comp.within_pure _) (Comp.within_ite Comp.within_fault ?_)
  refine Comp.within_bind Comp.within_get (fun w ↦ Comp.within_ite ?_ (hset _))
  exact Comp.within_bind (silent_writeMemory _ _) (fun _ ↦ hset _)

theorem silent_sysSigprocmask (ctx : Context) : Comp.Within silent (sysSigprocmask ctx) := by
  refine Comp.within_bind Comp.within_get (fun w ↦ Comp.within_ite ?_ ?_)
  · exact Comp.within_bind (silent_writeMemory _ _) (fun _ ↦ Comp.within_pure _)
  · refine Comp.within_ite ?_ (Comp.within_pure _)
    refine Comp.within_bind (silent_of_received (within_readMemory _ _)) (fun bytes ↦ ?_)
    exact Comp.within_bind (silent_modifySignals _ _) (fun _ ↦ Comp.within_pure _)

theorem silent_sysRtSigreturn (ctx : Context) : Comp.Within silent (sysRtSigreturn ctx) := by
  refine Comp.within_bind (silent_of_received (within_readMemory _ _)) (fun bytes ↦ ?_)
  exact Comp.within_bind (silent_modifySignals _ _) (fun _ ↦ Comp.within_pure _)

/-! ### `execve` and `ptrace` -/

/-- An untraced `execve` raises nothing, but forgets the signals received so far. -/
theorem callHandled_sysExecve (env : Environment) (ctx : Context) {w : World}
    (h : w.cur.ptrace.ownerPid = 0#32) :
    CallHandled none (resetByHandler env 11 ctx w) (sysExecve env ctx) w := by
  simp only [CallHandled, sysExecve, Comp.post_bind]
  have hw := within_untilReset env ctx w
  unfold Comp.Post at hw ⊢
  cases hu : untilReset env ctx w with
  | exit w₁ => trivial
  | wait w₁ => trivial
  | fault w₁ => trivial
  | ok err w₁ =>
    rw [hu] at hw
    have hrec : Received w w₁ := hw
    have h₁ : w₁.cur.ptrace.ownerPid = 0#32 := hrec.ownerPid.trans h
    cases err with
    | some err => exact ⟨.quiet rfl (quiet_of_received hrec), notFollowed_of_untraced h₁⟩
    | none =>
      have hreset : resetByHandler env 11 ctx w = some w₁ := by simp only [resetByHandler, hu]
      change Comp.Post (initSignalHandling >>= fun _ ↦ env.startImage ctx >>= fun _ ↦ _) w₁ _ _
      simp only [Comp.post_bind, post_initSignalHandling]
      refine Comp.post_mono (env.within_startImage ctx (forgetSignals w₁)) ?_ (fun _ _ ↦ trivial)
      intro _ w₂ hrec₂
      have h₂ : w₂.cur.ptrace.ownerPid = 0#32 := hrec₂.ownerPid.trans h₁
      simp only [Comp.post_get, h₂, ne_eq, not_true_eq_false, if_false, getThreadContext,
        Comp.post_bind, Comp.post_pure]
      exact ⟨.forgotten rfl w₁ hreset (quiet_of_received hrec) (quiet_of_received hrec₂),
        notFollowed_of_untraced h₂⟩

/-- Changing the requests of a traced process is quiet. -/
theorem quiet_modifySlot {f : Process → Process} (w : World) (slot : Slot)
    (hsetup : (f w.cur).inWin32Setup = w.cur.inWin32Setup)
    (hpending : (f w.cur).pendingSignals = w.cur.pendingSignals) :
    Quiet w (w.modifySlot f slot) := by
  cases slot with
  | cur => exact quiet_of_same hsetup hpending rfl
  | before i => exact quiet_of_same rfl rfl rfl
  | after i => exact quiet_of_same rfl rfl rfl

theorem callHandled_sysPtrace (env : Environment) (ctx : Context) {w : World}
    (h : w.cur.ptrace.ownerPid = 0#32) :
    CallHandled (if ptraceKillsSelf ctx w then some ⟨SIGKILL, ctx, w.threadCtx⟩ else none) none
      (sysPtrace env ctx) w := by
  simp only [CallHandled, sysPtrace, Comp.post_bind, Comp.post_get]
  cases hfind : w.findProcess ctx.ecx with
  | none => trivial
  | some slot =>
    have hself : ptraceKillsSelf ctx w = (ctx.ebx == PTRACE_KILL && some slot == some .cur) := by
      simp only [ptraceKillsSelf, hfind]
    dsimp only
    rw [hself]
    split
    · next hreq =>
      have hkill : (ctx.ebx == PTRACE_KILL) = false := by rw [hreq]; decide
      simp only [hkill, Bool.false_and, Comp.post_bind, post_modifyCur, Comp.post_pure]
      have hne : PTRACE_TRACEME ≠ PTRACE_SYSCALL := by decide
      exact ⟨.quiet rfl (quiet_of_same rfl rfl rfl), fun hn ↦ hne hn.2⟩
    · split
      · next hreq =>
        have hkill : (ctx.ebx == PTRACE_KILL) = false := by
          rcases hreq with hreq | hreq <;> rw [hreq] <;> decide
        simp only [hkill, Bool.false_and, Comp.post_bind, Comp.post_modify, Comp.post_pure]
        refine ⟨.quiet rfl (quiet_modifySlot w slot rfl rfl), notFollowed_of_untraced ?_⟩
        cases slot <;> exact h
      · split
        · next hreq =>
          have hkill : (ctx.ebx == PTRACE_KILL) = true := by rw [hreq]; decide
          simp only [hkill, Bool.true_and, Comp.post_bind, Comp.post_pure]
          refine Comp.post_mono (sendSignal_post slot SIGKILL h) ?_ (fun _ _ ↦ trivial)
          intro _ w' hsent
          have hchosen : SentTo ((some slot == some Slot.cur) = true) SIGKILL w w' := by
            simpa using hsent
          exact handled_of_sentTo hchosen rfl rfl rfl
        · next hreq =>
          have hkill : (ctx.ebx == PTRACE_KILL) = false := by simpa using hreq
          simp only [hkill, Bool.false_and]
          exact callHandled_of_silent (silent_of_received (env.within_ptracePeek ctx)) h

/-! ### All of them -/

/-- Every system call of an untraced process. -/
theorem callHandled_syscallHandler (env : Environment) (n : Nat) (ctx : Context) {w : World}
    (h : w.cur.ptrace.ownerPid = 0#32) :
    CallHandled (raisedByHandler n ctx w) (resetByHandler env n ctx w) (syscallHandler env n ctx)
      w := by
  unfold syscallHandler
  split
  · exact callHandled_of_silent (silent_sysExit ctx) h
  · exact callHandled_raisePipe (within_writeAttempt ctx) h
  · exact callHandled_sysExecve env ctx h
  · exact callHandled_sysPtrace env ctx h
  · exact callHandled_sysKill h
  · exact callHandled_of_silent (silent_sysSigaction ctx) h
  · exact callHandled_of_silent (silent_sysRtSigreturn ctx) h
  · exact callHandled_of_silent (silent_sysSigprocmask ctx) h
  · exact callHandled_raisePipe (within_writevAttempt ctx) h
  · exact callHandled_of_silent (silent_sysRtSigreturn ctx) h
  · exact callHandled_of_silent (Comp.within_pure _) h
  · exact callHandled_of_silent (Comp.within_pure _) h
  · exact callHandled_of_silent (Comp.within_pure _) h
  · exact callHandled_of_silent (Comp.within_pure _) h
  · exact callHandled_of_silent (Comp.within_pure _) h
  · exact callHandled_of_silent (Comp.within_pure _) h
  · next h1 h4 h11 h26 h37 h67 h119 h126 h146 h173 h174 h175 h176 h177 h178 h179 =>
    have hr : raisedByHandler n ctx w = none := by
      unfold raisedByHandler
      split
      · exact absurd rfl h4
      · exact absurd rfl h146
      · exact absurd rfl h26
      · exact absurd rfl h37
      · rfl
    have hreset : resetByHandler env n ctx w = none := by
      unfold resetByHandler
      split
      · exact absurd rfl h11
      · rfl
    rw [hr, hreset]
    exact callHandled_of_silent (silent_of_received (env.within_otherSyscall n ctx)) h

theorem stopForPtrace_of_notFollowed {w : World} (h : NotFollowed w) (seen : Context)
    (savedEax : DWORD) : stopForPtrace seen savedEax w = .ok () w := by
  simp only [stopForPtrace, Bind.bind, Comp.bind, Comp.get]
  rw [if_neg h]
  rfl

theorem post_stopForPtrace {w : World} (h : NotFollowed w) (seen : Context) (savedEax : DWORD)
    (Q : Unit → World → Prop) (X : World → Prop) :
    Comp.Post (stopForPtrace seen savedEax) w Q X ↔ Q () w := by
  rw [Comp.Post, stopForPtrace_of_notFollowed h]

theorem handleInt80SysCall_post (env : Environment) (ctx : Context) {w : World}
    (h : w.cur.ptrace.ownerPid = 0#32) :
    Comp.Post (handleInt80SysCall env ctx) w
      (fun ctx' w' ↦ Handled (raisedBySyscall ctx w)
        (resetByHandler env ctx.eax.toNat ctx (enterSyscall ctx w)) w ctx' w')
      (fun _ ↦ True) := by
  have henter : (enterSyscall ctx w).cur.ptrace.ownerPid = 0#32 := h
  have hquiet : Quiet w (enterSyscall ctx w) := quiet_of_same rfl rfl rfl
  simp only [handleInt80SysCall, Comp.post_bind, post_modifyCur]
  by_cases hn : ctx.eax.toNat < NR_syscalls
  · simp only [hn, if_true, Comp.post_bind]
    change Comp.Post (stopForPtrace _ _) (enterSyscall ctx w) _ _
    rw [post_stopForPtrace (notFollowed_of_untraced henter)]
    refine Comp.post_mono (callHandled_syscallHandler env ctx.eax.toNat ctx henter) ?_
      (fun _ _ ↦ trivial)
    rintro ctx' w' ⟨hhandled, hnf⟩
    rw [post_stopForPtrace hnf]
    exact handled_of_quiet hquiet ⟨rfl, rfl⟩ hhandled (quiet_of_same rfl rfl rfl)
  · have hr : raisedBySyscall ctx w = none := by
      unfold raisedBySyscall raisedByHandler
      split <;> simp_all [NR_syscalls]
    simp only [hn, if_false, unhandled, hr]
    exact .quiet rfl (quiet_trans hquiet (quiet_of_same rfl rfl rfl))

/-! ## Exceptions -/

/-- A system call, or a fault, or neither. -/
theorem handleExceptionCode_post (env : Environment) (code : ExceptionCode) (address : DWORD)
    {w : World} (h : w.cur.ptrace.ownerPid = 0#32) :
    Comp.Post (handleExceptionCode env code address (exceptionContext w)) (enterException w)
      (fun ctx' w' ↦ Handled (raisedSignal code address w) (resetPoint env code address w)
        (enterException w) ctx' w')
      (fun _ ↦ True) := by
  have hfault : ∀ sig reset, Comp.Post (do
      sendSignal .cur sig
      return exceptionContext w) (enterException w)
      (fun ctx' w' ↦ Handled (some ⟨sig, exceptionContext w, w.threadCtx⟩) reset
        (enterException w) ctx' w') (fun _ ↦ True) := by
    intro sig reset
    simp only [Comp.post_bind, Comp.post_pure]
    exact Comp.post_mono (sendSignal_cur_post sig (w := enterException w) h)
      (fun _ w' hacted ↦ .raised _ rfl hacted.1 rfl rfl rfl) (fun _ _ ↦ trivial)
  have hcall : ∀ ctx, Comp.Post (handleInt80SysCall env ctx) (enterException w)
      (fun ctx' w' ↦ Handled (raisedBySyscall ctx (enterException w))
        (resetByHandler env ctx.eax.toNat ctx (enterSyscall ctx (enterException w)))
        (enterException w) ctx' w')
      (fun _ ↦ True) :=
    fun ctx ↦ handleInt80SysCall_post env ctx (w := enterException w) h
  have hmem : ∀ addr, (enterException w).instruction addr = w.instruction addr := fun _ ↦ rfl
  cases code with
  | intOverflow =>
    simp only [handleExceptionCode, raisedSignal, resetPoint, systemCall, faultSignal,
      Comp.post_bind, Comp.post_get, hmem]
    split
    · exact hcall _
    · split
      · exact hcall _
      · exact hfault _ _
  | accessViolation =>
    simp only [handleExceptionCode, raisedSignal, resetPoint, systemCall, faultSignal,
      Comp.post_bind, Comp.post_get, hmem]
    split
    · exact hcall _
    · split
      · exact .quiet rfl (quiet_of_same rfl rfl rfl)
      · exact hfault _ _
  | singleStep => exact .quiet rfl (quiet_refl _)
  | breakpoint => trivial
  | fltDenormalOperand => exact hfault _ _
  | fltDivideByZero => exact hfault _ _
  | fltInexactResult => exact hfault _ _
  | fltInvalidOperation => exact hfault _ _
  | fltOverflow => exact hfault _ _
  | fltStackCheck => exact hfault _ _
  | fltUnderflow => exact hfault _ _
  | intDivideByZero => exact hfault _ _
  | privInstruction => exact hfault _ _
  | illegalInstruction => exact hfault _ _
  | noncontinuableException => exact hfault _ _
  | inPageError => exact hfault _ _
  | stackOverflow => exact hfault _ _
  | guardPage => exact hfault _ _
  | other => exact hfault _ _

/-- `HandleException` of an untraced process: what it does to the signals of `P`, and the
context that is in force in the end. -/
theorem handleException_post (env : Environment) (code : ExceptionCode) (address : DWORD)
    {w : World} (h : w.cur.ptrace.ownerPid = 0#32) :
    Comp.Post (handleException env code address) w
      (fun _ w' ↦ ∃ ctx' w₁, Handled (raisedSignal code address w) (resetPoint env code address w)
          (enterException w) ctx' w₁ ∧
        w' = { w₁ with threadCtx := ctx'.merge w₁.threadCtx })
      (fun _ ↦ True) := by
  simp only [handleException, getThreadContext, Comp.post_bind, Comp.post_get, Comp.post_pure,
    Comp.post_modify, setThreadContext]
  exact Comp.post_mono (handleExceptionCode_post env code address h)
    (fun ctx' w₁ hd ↦ ⟨ctx', w₁, hd, rfl⟩) (fun _ _ ↦ trivial)

end Keow.Signal
