import Keow.Signal.Deliver

/-!
# The mask while a handler runs

What entering a user handler makes of `m_SignalMask` (`Process.cpp:1789–1796`): the mask of the
action in place of the one in force, and the signal that is delivered.
-/

namespace Keow.Signal

open Keow.Base Keow.Kernel

/-! ## The mask of a handler -/

/-- The signals that a handler's mask blocks. -/
theorem getLsbD_handlerMask (a : SigAction) {sig : Nat} (h1 : 1 ≤ sig) (h2 : sig ≤ nsig) {s : Nat}
    (hs : 1 ≤ s) :
    (a.handlerMask sig).getLsbD (s - 1) = true ↔
      a.saMask.getLsbD (s - 1) = true ∨ s = sig ∧ a.saFlags &&& SA_NODEFER = 0#32 := by
  have hsig : sig - 1 < 64 := by
    have hn : nsig = 64 := rfl
    omega
  have hflags : SA_NOMASK = SA_NODEFER := rfl
  have hbit : sig - 1 = s - 1 ↔ s = sig := by omega
  simp only [SigAction.handlerMask, addSignal_sigWord a.saMask h2, ofSigWords_sigWord, hflags,
    or_self]
  split
  · next hd => simp [hsig, hbit, hd]
  · next hd => simp [hd]

/-! ## Up to the handler -/

/-- No line of the trace tells of a handler. -/
def NoHandler (new : List Trace) : Prop :=
  ∀ t ∈ new, ∀ sig handler esp, t ≠ .dispatched sig handler esp

/-- The mask and the actions are as they were, and no handler has been entered. -/
structure Undelivered (w w' : World) : Prop where
  signalMask : w'.cur.signalMask = w.cur.signalMask
  signalAction : w'.cur.signalAction = w.cur.signalAction
  trace : ∃ new, w'.trace = new ++ w.trace ∧ NoHandler new

theorem undelivered_of_eq {w w' : World} (hmask : w'.cur.signalMask = w.cur.signalMask)
    (haction : w'.cur.signalAction = w.cur.signalAction) (htrace : w'.trace = w.trace) :
    Undelivered w w' :=
  ⟨hmask, haction, [], htrace, by simp [NoHandler]⟩

theorem undelivered_trans {a b c : World} (h : Undelivered a b) (h' : Undelivered b c) :
    Undelivered a c := by
  obtain ⟨new, ht, hn⟩ := h.trace
  obtain ⟨new', ht', hn'⟩ := h'.trace
  refine ⟨h'.signalMask.trans h.signalMask, h'.signalAction.trans h.signalAction, new' ++ new,
    by rw [ht', ht, List.append_assoc], ?_⟩
  intro t hmem
  rcases List.mem_append.mp hmem with hmem | hmem
  · exact hn' t hmem
  · exact hn t hmem

theorem undelivered_of_received {w w' : World} (h : Received w w') : Undelivered w w' := by
  obtain ⟨sends, htrace, -⟩ := h.sends
  refine ⟨h.signalMask, h.signalAction, _, htrace, ?_⟩
  intro t hmem
  obtain ⟨sig, -, rfl⟩ := List.mem_map.mp hmem
  intro s hd e heq
  cases heq

/-- What a signal goes through before it is settled. -/
def undelivered : Comp.Effect World where
  ok := Undelivered
  exit _ _ := False
  refl _ := undelivered_of_eq rfl rfl rfl
  trans := undelivered_trans
  trans_exit _ h := h

theorem undelivered_ptraceStop (inputs : List Input) :
    Comp.Within undelivered (ptraceStop inputs) := by
  induction inputs with
  | nil => exact Comp.within_wait
  | cons i rest ih =>
    have habsorb : Comp.Within undelivered
        (Comp.modify fun w ↦ { w.absorb i with inputs := rest }) :=
      Comp.within_modify fun w ↦ undelivered_of_received (received_absorb w i rest)
    cases i with
    | send sig => exact Comp.within_bind habsorb fun _ ↦ ih
    | resume request data => exact habsorb
    | event evt ctx mem => exact Comp.within_wait

theorem undelivered_notifyTracer : Comp.Within undelivered notifyTracer := by
  have hother : ∀ slot, Comp.Within undelivered
      (Comp.modify fun w ↦ w.modifyOther (Process.setPending SIGCHLD) slot) :=
    fun slot ↦ Comp.within_modify fun w ↦ by
      cases slot <;> exact undelivered_of_eq rfl rfl rfl
  have hlog : ∀ pid, Comp.Within undelivered (log (.sent pid SIGCHLD)) := by
    refine fun pid ↦ Comp.within_modify fun w ↦ ⟨rfl, rfl, [_], rfl, ?_⟩
    simp [NoHandler]
  refine Comp.within_bind Comp.within_get fun w ↦ ?_
  cases w.findProcess w.cur.ptrace.ownerPid with
  | none => exact Comp.within_fault
  | some slot =>
    cases slot with
    | cur => exact Comp.within_fault
    | before i => exact Comp.within_bind (hother _) fun _ ↦ hlog _
    | after i => exact Comp.within_bind (hother _) fun _ ↦ hlog _

theorem handleSignal_post (sig : Nat) (w : World) :
    Comp.Post (handleSignal sig) w
      (fun _ w' ↦ Undelivered w w' ∨ ∃ s w₁, Undelivered w w₁ ∧ Acted s w₁ w') (fun _ ↦ True) := by
  have hact : ∀ {w₁ : World} (s : Nat), Undelivered w w₁ → Comp.Post (actOnSignal s) w₁
      (fun _ w' ↦ Undelivered w w' ∨ ∃ s w₁, Undelivered w w₁ ∧ Acted s w₁ w') (fun _ ↦ True) :=
    fun s h ↦ Comp.post_mono (actOnSignal_post s _) (fun _ _ ha ↦ .inr ⟨s, _, h, ha⟩)
      (fun _ _ ↦ trivial)
  rw [handleSignal, Comp.post_bind, Comp.post_get]
  split
  · have hnew : Comp.Within undelivered (modifyCur fun p ↦
        { p with ptrace := { p.ptrace with newSignal := BitVec.ofNat 32 sig } }) :=
      Comp.within_modify fun _ ↦ undelivered_of_eq rfl rfl rfl
    rw [Comp.post_bind]
    refine Comp.post_mono (hnew w) (fun _ w₁ h₁ ↦ ?_) (fun _ _ ↦ trivial)
    rw [Comp.post_bind]
    refine Comp.post_mono (undelivered_notifyTracer w₁) (fun _ w₂ h₂ ↦ ?_) (fun _ _ ↦ trivial)
    rw [Comp.post_bind, Comp.post_get, Comp.post_bind]
    refine Comp.post_mono (undelivered_ptraceStop _ w₂) (fun _ w₃ h₃ ↦ ?_) (fun _ _ ↦ trivial)
    have h : Undelivered w w₃ := undelivered_trans (undelivered_trans h₁ h₂) h₃
    rw [Comp.post_bind, Comp.post_get]
    dsimp only
    split
    · exact .inl h
    · exact hact _ h
  · exact hact sig (undelivered_of_eq rfl rfl rfl)

/-- If the newest line tells of a handler, it has been entered from a world that differs in
nothing that counts. -/
theorem eq_enterHandler {sig s : Nat} {w w' : World} {handler esp : DWORD} {new : List Trace}
    (h : handleSignal sig w = .ok () w')
    (htrace : w'.trace = .dispatched s handler esp :: new ++ w.trace) :
    ∃ w₁, Undelivered w w₁ ∧ w₁.cur.Catches s ∧ w' = enterHandler s w₁ := by
  rcases Comp.of_post_ok (handleSignal_post sig w) h with hund | ⟨s', w₁, hund, hacted⟩
  · obtain ⟨new', ht, hn⟩ := hund.trace
    have hnew := List.append_cancel_right (ht.symm.trans htrace)
    exact absurd rfl (hn (.dispatched s handler esp) (by simp [hnew]) s handler esp)
  · cases hacted with
    | masked hkill hstop hblocked hw =>
      rw [hw] at htrace
      cases (List.cons.inj htrace).1
    | caught hc hw =>
      have hhead := htrace
      rw [hw] at hhead
      cases (List.cons.inj hhead).1
      exact ⟨w₁, hund, hc, hw⟩
    | settled hc t ht hrec =>
      obtain ⟨sends, hsends, -⟩ := hrec.sends
      rw [hsends] at htrace
      cases sends with
      | nil =>
        cases (List.cons.inj htrace).1
        cases ht
      | cons sig' sends => cases (List.cons.inj htrace).1

/-! ## What it blocks -/

/-- The mask while the handler runs blocks what was blocked, what the action names, the signal
itself unless `SA_NODEFER` is set, and nothing else. -/
def MaskExtended (w w' : World) (sig : Nat) : Prop :=
  let action := w.cur.signalAction sig
  ∀ s, 1 ≤ s → s ≤ nsig →
    (testSignal (sigWord w'.cur.signalMask) s = true ↔
      testSignal (sigWord w.cur.signalMask) s = true ∨
        testSignal (sigWord action.saMask) s = true ∨
          s = sig ∧ action.saFlags &&& SA_NODEFER = 0#32)

/-- Entering a handler extends the mask exactly when the action blocks by itself whatever was
blocked before. -/
theorem maskExtended_iff {sig s : Nat} {w w' : World} {handler esp : DWORD} {new : List Trace}
    (h : handleSignal sig w = .ok () w')
    (htrace : w'.trace = .dispatched s handler esp :: new ++ w.trace) :
    MaskExtended w w' s ↔ ∀ t, 1 ≤ t → t ≤ nsig →
      testSignal (sigWord w.cur.signalMask) t = true →
        testSignal (sigWord (w.cur.signalAction s).saMask) t = true := by
  obtain ⟨w₁, hund, hc, rfl⟩ := eq_enterHandler h htrace
  have h1 : 1 ≤ s := by
    have hc0 := hc.2.2.1
    omega
  have h2 : s ≤ nsig := by
    have hc0 := hc.2.2.1
    omega
  have hmask : (enterHandler s w₁).cur.signalMask = (w.cur.signalAction s).handlerMask s := by
    rw [← hund.signalAction]
    rfl
  have hfree : w.cur.signalMask.getLsbD (s - 1) = false := by
    rw [← hund.signalMask, ← Process.blocks_eq]
    exact hc.2.2.2.1
  simp only [MaskExtended, testSignal_sigWord, hmask]
  constructor
  · intro hext t ht ht' hblocked
    have hmem := (hext t ht ht').mpr (.inl hblocked)
    rcases (getLsbD_handlerMask _ h1 h2 ht).mp hmem with hmem | ⟨rfl, -⟩
    · exact hmem
    · rw [hfree] at hblocked
      cases hblocked
  · intro hcov t ht ht'
    rw [getLsbD_handlerMask _ h1 h2 ht]
    constructor
    · exact .inr
    · rintro (hblocked | hmem)
      · exact .inl (hcov t ht ht' hblocked)
      · exact hmem

/-- A process that nobody traces enters the handler of a signal it catches. -/
theorem handleSignal_of_catches {sig : Nat} {w : World} (howner : w.cur.ptrace.ownerPid = 0#32)
    (hc : w.cur.Catches sig) : handleSignal sig w = .ok () (enterHandler sig w) := by
  rw [handleSignal, Comp.bind_of_ok (Comp.get_eq_ok.mpr ⟨rfl, rfl⟩), if_neg (by simp [howner])]
  exact actOnSignal_eq hc

/-- A process with `SIGHUP` blocked and a handler for `SIGUSR1`. -/
def blockedHangup (saMask : BitVec 64) : World :=
  let w := loneWorld []
  { w with cur := { w.cur with
      signalMask := 1#64
      signalAction := fun s ↦
        if s = 10 then { saHandler := 0x1000#32, saMask := saMask } else {} } }

theorem handleSignal_blockedHangup (saMask : BitVec 64) :
    handleSignal 10 (blockedHangup saMask) = .ok () (enterHandler 10 (blockedHangup saMask)) := by
  have hdfl : (0x1000#32 : DWORD) ≠ SIG_DFL := by decide
  have hign : (0x1000#32 : DWORD) ≠ SIG_IGN := by decide
  have hblocked : (blockedHangup saMask).cur.blocks 10 = false := by
    rw [Process.blocks_eq]
    show (1#64).getLsbD 9 = false
    decide
  exact handleSignal_of_catches rfl ⟨by decide, by decide, by decide, hblocked, hdfl, hign⟩

/-- With an empty `sa_mask` the handler can be interrupted by the signal that was blocked. -/
theorem not_maskExtended_blockedHangup :
    ∃ w', handleSignal 10 (blockedHangup 0#64) = .ok () w' ∧
      ¬MaskExtended (blockedHangup 0#64) w' 10 := by
  refine ⟨_, handleSignal_blockedHangup 0#64, fun hext ↦ ?_⟩
  have h1 := (hext 1 (by decide) (by decide)).mpr (.inl (by decide))
  exact absurd h1 (by decide)

/-- With `SIGHUP` in `sa_mask` it stays blocked. -/
theorem maskExtended_blockedHangup :
    ∃ w', handleSignal 10 (blockedHangup 1#64) = .ok () w' ∧
      MaskExtended (blockedHangup 1#64) w' 10 := by
  refine ⟨_, handleSignal_blockedHangup 1#64, ?_⟩
  exact (@maskExtended_iff 10 10 _ _ _ _ [] (handleSignal_blockedHangup 1#64) rfl).mpr
    fun t _ _ h ↦ h

end Keow.Signal
