import Keow.Base.Recorder
import Keow.Base.Related
import Keow.Signal.Exception

/-!
# The recipients of kill

`SysCalls::sys_kill`, `sys_sys.cpp:264–331`, with a record of the processes that it calls
`SendSignal` on, against the processes that its argument addresses. A caller that is among them
handles the signal in the middle of the loop.
-/

namespace Keow.Signal.Kill

open Keow.Base Keow.Kernel

/-! ## Who gets it -/

/-- A computation of the kernel thread with the places that were sent to, the last one first. -/
abbrev SR := Comp (World × List Slot)

/-- `Process::SendSignal`. -/
def sendSignalR (slot : Slot) (sig : Nat) : SR Unit := do
  Comp.record [slot]
  Comp.silent (sendSignal slot sig)

/-- `sendIfSelected`. -/
def sendIfSelectedR (select : Process → Bool) (sig : Nat) (slot : Slot) : SR Unit := do
  let w ← Comp.silent Comp.get
  match w.at slot with
  | some p => if select p ∧ sig ≠ 0 then sendSignalR slot sig
  | none => return ()

/-- `sendToSlots`. -/
def sendToSlotsR (select : Process → Bool) (sig : Nat) : List Slot → SR Unit
  | [] => return ()
  | slot :: rest => do
      sendIfSelectedR select sig slot
      sendToSlotsR select sig rest

/-- `SysCalls::sys_kill` with a record of the sends. -/
def sysKillR (ctx : Context) : SR Context := do
  let pid := ctx.ebx
  let sig := ctx.ecx.toNat
  if nsig ≤ sig then return ctx.withEax (-EINVAL)
  else if 0 < pid.toInt then
    let w ← Comp.silent Comp.get
    match w.findProcess pid with
    | none => return ctx.withEax (-ESRCH)
    | some slot =>
        if sig ≠ 0 then sendSignalR slot sig
        return ctx.withEax 0#32
  else
    let w ← Comp.silent Comp.get
    sendToSlotsR (killSelects w.cur pid) sig w.slots
    return ctx.withEax 0#32

theorem erases_sendSignal (slot : Slot) (sig : Nat) :
    Comp.Erases (sendSignalR slot sig) (sendSignal slot sig) :=
  Comp.erases_record (Comp.erases_silent _)

theorem erases_sendIfSelected (select : Process → Bool) (sig : Nat) (slot : Slot) :
    Comp.Erases (sendIfSelectedR select sig slot) (sendIfSelected select sig slot) := by
  refine Comp.erases_bind (Comp.erases_silent _) fun w ↦ ?_
  cases w.at slot with
  | none => exact Comp.erases_pure _
  | some p => exact Comp.erases_ite (erases_sendSignal slot sig) (Comp.erases_pure _)

theorem erases_sendToSlots (select : Process → Bool) (sig : Nat) (slots : List Slot) :
    Comp.Erases (sendToSlotsR select sig slots) (sendToSlots select sig slots) := by
  induction slots with
  | nil => exact Comp.erases_pure _
  | cons slot rest ih => exact Comp.erases_bind (erases_sendIfSelected select sig slot) fun _ ↦ ih

/-- Without the record it is `sys_kill`. -/
theorem erases_sysKill (ctx : Context) : Comp.Erases (sysKillR ctx) (sysKill ctx) := by
  refine Comp.erases_ite (Comp.erases_pure _) (Comp.erases_ite ?_ ?_)
  · refine Comp.erases_bind (Comp.erases_silent _) fun w ↦ ?_
    cases w.findProcess ctx.ebx with
    | none => exact Comp.erases_pure _
    | some slot =>
      exact Comp.erases_ite (Comp.erases_bind (erases_sendSignal slot _) fun _ ↦
        Comp.erases_pure _) (Comp.erases_pure _)
  · refine Comp.erases_bind (Comp.erases_silent _) fun w ↦ ?_
    exact Comp.erases_bind (erases_sendToSlots _ _ _) fun _ ↦ Comp.erases_pure _

/-! ## The table stands -/

/-- What `kill` looks at in a process. -/
def address (p : Process) : DWORD × DWORD := (p.pid, p.processGroupPID)

/-- The table, as far as `kill` looks at it. -/
def standing (w : World) : List (DWORD × DWORD) × (DWORD × DWORD) × List (DWORD × DWORD) :=
  (w.before.map address, address w.cur, w.after.map address)

/-- Two worlds in the same standing that differ in nothing but the other processes and the
trace. -/
def Twins (st : List (DWORD × DWORD) × (DWORD × DWORD) × List (DWORD × DWORD))
    (w w' : World) : Prop :=
  standing w = st ∧ standing w' = st ∧
    ∃ before after trace, w' = { w with before := before, after := after, trace := trace }

theorem twins_refl (w : World) : Twins (standing w) w w :=
  ⟨rfl, rfl, w.before, w.after, w.trace, rfl⟩

theorem address_at {w w' : World} (h : standing w' = standing w) (slot : Slot) :
    (w'.at slot).map address = (w.at slot).map address := by
  simp only [standing, Prod.mk.injEq] at h
  cases slot with
  | before i => rw [World.at, World.at, ← List.getElem?_map, ← List.getElem?_map, h.1]
  | cur => exact congrArg some h.2.1
  | after i => rw [World.at, World.at, ← List.getElem?_map, ← List.getElem?_map, h.2.2]

theorem findProcess_standing {w w' : World} (h : standing w' = standing w) (pid : DWORD) :
    w'.findProcess pid = w.findProcess pid := by
  have hfind : ∀ l : List Process, l.findIdx? (fun p ↦ p.pid == pid) =
      (l.map address).findIdx? (fun a ↦ a.1 == pid) := by
    intro l
    rw [List.findIdx?_map]
    rfl
  simp only [standing, Prod.mk.injEq] at h
  have hcur : w'.cur.pid = w.cur.pid := congrArg Prod.fst h.2.1
  rw [World.findProcess, World.findProcess, hfind, hfind, hfind, hfind, h.1, h.2.2, hcur]

/-- Marking a signal pending leaves the table standing. -/
theorem standing_modifyOther (sig : Nat) (w : World) (slot : Slot) :
    standing (w.modifyOther (Process.setPending sig) slot) = standing w := by
  have hmap : ∀ (l : List Process) (i : Nat),
      (l.modify i (Process.setPending sig)).map address = l.map address := by
    intro l i
    apply List.ext_getElem?
    intro j
    rw [List.getElem?_map, List.getElem?_map, List.getElem?_modify]
    cases l[j]? with
    | none => rfl
    | some p =>
      by_cases hij : i = j
      · simp only [hij, if_true]
        rfl
      · simp only [if_neg hij]
        rfl
  cases slot with
  | before i => simp only [standing, World.modifyOther, hmap]
  | cur => rfl
  | after i => simp only [standing, World.modifyOther, hmap]

/-! ## The caller's own signal -/

section Twins

variable {st : List (DWORD × DWORD) × (DWORD × DWORD) × List (DWORD × DWORD)}

theorem twins_modify {f : World → World} (hstand : ∀ w, standing (f w) = standing w)
    (hcomm : ∀ w b a l, ∃ b' a' l', f { w with before := b, after := a, trace := l } =
      { f w with before := b', after := a', trace := l' }) :
    Comp.Alike (Twins st) (Comp.modify f) (Comp.modify f) := by
  apply Comp.alike_modify
  rintro w w' ⟨hw, hw', before, after, trace, rfl⟩
  exact ⟨(hstand w).trans hw, (hstand _).trans hw', hcomm w before after trace⟩

/-- A change of the process itself, its thread or its memory. -/
theorem twins_own {f : World → World} (hstand : ∀ w, standing (f w) = standing w)
    (hcomm : ∀ w b a l, ∃ l', f { w with before := b, after := a, trace := l } =
      { f w with before := b, after := a, trace := l' }) :
    Comp.Alike (Twins st) (Comp.modify f) (Comp.modify f) := by
  apply twins_modify hstand
  intro w b a l
  obtain ⟨l', h⟩ := hcomm w b a l
  exact ⟨b, a, l', h⟩

theorem twins_log (t : Trace) : Comp.Alike (Twins st) (log t) (log t) :=
  twins_own (fun _ ↦ rfl) fun _ _ _ l ↦ ⟨t :: l, rfl⟩

theorem twins_modifyCur {f : Process → Process} (h : ∀ p, address (f p) = address p) :
    Comp.Alike (Twins st) (modifyCur f) (modifyCur f) := by
  apply twins_own
  · intro w
    rw [standing, h]
    rfl
  · exact fun _ _ _ l ↦ ⟨l, rfl⟩

theorem twins_get_bind {β : Type} {f : World → K β}
    (h : ∀ w b a l, Comp.Alike (Twins st) (f w)
      (f { w with before := b, after := a, trace := l })) :
    Comp.Alike (Twins st) (Comp.get >>= f) (Comp.get >>= f) := by
  apply Comp.alike_get_bind
  rintro w w' ⟨-, -, before, after, trace, rfl⟩
  exact h w before after trace

theorem twins_setThreadContext (ctx : Context) :
    Comp.Alike (Twins st) (setThreadContext ctx) (setThreadContext ctx) :=
  twins_own (fun _ ↦ rfl) fun _ _ _ l ↦ ⟨l, rfl⟩

theorem twins_writeMemory (addr : DWORD) (bytes : List UInt8) :
    Comp.Alike (Twins st) (writeMemory addr bytes) (writeMemory addr bytes) :=
  twins_own (fun _ ↦ rfl) fun _ _ _ l ↦ ⟨l, rfl⟩

theorem twins_absorb (i : Input) (rest : List Input) :
    Comp.Alike (Twins st) (Comp.modify fun w ↦ { w.absorb i with inputs := rest })
      (Comp.modify fun w ↦ { w.absorb i with inputs := rest }) := by
  cases i with
  | send sig => exact twins_own (fun _ ↦ rfl) fun _ _ _ l ↦ ⟨_ :: l, rfl⟩
  | resume request data => exact twins_own (fun _ ↦ rfl) fun _ _ _ l ↦ ⟨l, rfl⟩
  | event evt ctx mem => exact twins_own (fun _ ↦ rfl) fun _ _ _ l ↦ ⟨l, rfl⟩

theorem twins_injectLoop (inputs : List Input) :
    Comp.Alike (Twins st) (injectLoop inputs) (injectLoop inputs) := by
  induction inputs with
  | nil => exact Comp.alike_wait
  | cons i rest ih =>
    refine Comp.alike_bind (twins_absorb i rest) fun _ ↦ ?_
    split
    · exact Comp.alike_pure _
    · exact Comp.alike_bind (twins_own (fun _ ↦ rfl) fun _ _ _ l ↦ ⟨l, rfl⟩) fun _ ↦ ih
    · exact Comp.alike_bind (twins_own (fun _ ↦ rfl) fun _ _ _ l ↦ ⟨_ :: l, rfl⟩)
        fun _ ↦ Comp.alike_exit
    · exact ih

theorem twins_injectFunctionCall (func : DWORD) (stackData : List UInt8) :
    Comp.Alike (Twins st) (injectFunctionCall func stackData)
      (injectFunctionCall func stackData) := by
  refine twins_get_bind fun w _ _ _ ↦ ?_
  refine Comp.alike_bind (twins_setThreadContext _) fun _ ↦ ?_
  refine Comp.alike_bind (twins_writeMemory _ _) fun _ ↦ ?_
  refine Comp.alike_bind (twins_writeMemory _ _) fun _ ↦ ?_
  refine twins_get_bind fun w₁ _ _ _ ↦ ?_
  refine Comp.alike_bind (twins_injectLoop _) fun _ ↦ ?_
  refine twins_get_bind fun w₂ _ _ _ ↦ ?_
  exact Comp.alike_ite Iff.rfl
    (Comp.alike_bind (twins_setThreadContext _) fun _ ↦ Comp.alike_pure _) (Comp.alike_pure _)

theorem twins_killBy (sig : Nat) : Comp.Alike (Twins st) (killBy sig) (killBy sig) := by
  refine Comp.alike_bind (twins_modifyCur fun _ ↦ rfl) fun _ ↦ ?_
  refine twins_get_bind fun w _ _ _ ↦ ?_
  exact Comp.alike_bind (twins_injectFunctionCall _ _) fun _ ↦ Comp.alike_pure _

theorem twins_suspendThreads : Comp.Alike (Twins st) suspendThreads suspendThreads :=
  twins_own (fun _ ↦ rfl) fun _ _ _ l ↦ ⟨l, rfl⟩

theorem twins_runDefaultAction (sig : Nat) :
    Comp.Alike (Twins st) (runDefaultAction sig) (runDefaultAction sig) := by
  refine twins_get_bind fun w _ _ _ ↦ ?_
  dsimp only
  cases defaultAction (w.cur.ptrace.ownerPid != 0#32) sig with
  | ignore => exact Comp.alike_pure _
  | resume => exact twins_own (fun _ ↦ rfl) fun _ _ _ l ↦ ⟨l, rfl⟩
  | stop => exact twins_suspendThreads
  | terminate => exact twins_killBy sig
  | coreDump =>
    exact Comp.alike_bind (twins_modifyCur fun _ ↦ rfl) fun _ ↦ twins_killBy sig

theorem twins_dispatchToHandler (sig : Nat) :
    Comp.Alike (Twins st) (dispatchToHandler sig) (dispatchToHandler sig) := by
  have heq : dispatchToHandler sig = Comp.modify (enterHandler sig) := by
    funext w
    exact dispatchToHandler_eq sig w
  rw [heq]
  exact twins_own (fun _ ↦ rfl) fun _ _ _ l ↦ ⟨_ :: l, rfl⟩

theorem twins_actOnSignal (sig : Nat) :
    Comp.Alike (Twins st) (actOnSignal sig) (actOnSignal sig) := by
  have hlog : ∀ {t : Trace} {x : K Unit}, Comp.Alike (Twins st) x x →
      Comp.Alike (Twins st) (log t >>= fun _ ↦ x) (log t >>= fun _ ↦ x) :=
    fun hx ↦ Comp.alike_bind (twins_log _) fun _ ↦ hx
  refine Comp.alike_ite Iff.rfl (hlog (twins_killBy sig)) ?_
  refine Comp.alike_ite Iff.rfl (hlog twins_suspendThreads) ?_
  refine Comp.alike_ite Iff.rfl Comp.alike_fault ?_
  refine twins_get_bind fun w _ _ _ ↦ ?_
  refine Comp.alike_ite Iff.rfl (twins_log _) ?_
  refine Comp.alike_ite Iff.rfl (hlog (twins_runDefaultAction sig)) ?_
  exact Comp.alike_ite Iff.rfl (twins_log _) (twins_dispatchToHandler sig)

theorem twins_ptraceStop (inputs : List Input) :
    Comp.Alike (Twins st) (ptraceStop inputs) (ptraceStop inputs) := by
  induction inputs with
  | nil => exact Comp.alike_wait
  | cons i rest ih =>
    cases i with
    | send sig => exact Comp.alike_bind (twins_absorb (.send sig) rest) fun _ ↦ ih
    | resume request data => exact twins_absorb (.resume request data) rest
    | event evt ctx mem => exact Comp.alike_wait

/-- The tracer is the same process for both. -/
theorem twins_notifyTracer : Comp.Alike (Twins st) notifyTracer notifyTracer := by
  have hmark : ∀ slot, Comp.Alike (Twins st)
      (Comp.modify fun w ↦ w.modifyOther (Process.setPending SIGCHLD) slot)
      (Comp.modify fun w ↦ w.modifyOther (Process.setPending SIGCHLD) slot) := by
    intro slot
    apply twins_modify (fun w ↦ standing_modifyOther SIGCHLD w slot)
    intro w b a l
    cases slot <;> exact ⟨_, _, l, rfl⟩
  apply Comp.alike_get_bind
  intro w w' h
  have hfind := findProcess_standing (h.2.1.trans h.1.symm) w.cur.ptrace.ownerPid
  obtain ⟨-, -, before, after, trace, rfl⟩ := h
  dsimp only at hfind ⊢
  rw [hfind]
  cases w.findProcess w.cur.ptrace.ownerPid with
  | none => exact Comp.alike_fault
  | some slot =>
    cases slot with
    | cur => exact Comp.alike_fault
    | before i => exact Comp.alike_bind (hmark _) fun _ ↦ twins_log _
    | after i => exact Comp.alike_bind (hmark _) fun _ ↦ twins_log _

theorem twins_handleSignal (sig : Nat) :
    Comp.Alike (Twins st) (handleSignal sig) (handleSignal sig) := by
  refine twins_get_bind fun w _ _ _ ↦ ?_
  refine Comp.alike_ite Iff.rfl ?_ (twins_actOnSignal sig)
  refine Comp.alike_bind (twins_modifyCur fun _ ↦ rfl) fun _ ↦ ?_
  refine Comp.alike_bind twins_notifyTracer fun _ ↦ ?_
  refine twins_get_bind fun w₁ _ _ _ ↦ ?_
  refine Comp.alike_bind (twins_ptraceStop _) fun _ ↦ ?_
  refine twins_get_bind fun w₂ _ _ _ ↦ ?_
  exact Comp.alike_ite Iff.rfl (Comp.alike_pure _) (twins_actOnSignal _)

/-- What a process does with its own signal does not depend on what the others have pending. -/
theorem twins_sendSignal (sig : Nat) :
    Comp.Alike (Twins st) (sendSignal .cur sig) (sendSignal .cur sig) := by
  refine twins_get_bind fun w _ _ _ ↦ ?_
  refine Comp.alike_bind (twins_log _) fun _ ↦ ?_
  refine Comp.alike_bind (twins_modifyCur fun _ ↦ rfl) fun _ ↦ ?_
  exact Comp.alike_bind (twins_handleSignal sig) fun _ ↦ twins_modifyCur fun _ ↦ rfl

end Twins

/-! ## The loop -/

theorem twins_trans {st : List (DWORD × DWORD) × (DWORD × DWORD) × List (DWORD × DWORD)}
    {a b c : World} (h : Twins st a b) (h' : Twins st b c) : Twins st a c := by
  obtain ⟨ha, -, _, _, _, rfl⟩ := h
  obtain ⟨-, hc, before, after, trace, rfl⟩ := h'
  exact ⟨ha, hc, before, after, trace, rfl⟩

/-- Sending to another process always returns. -/
theorem sendSignal_other {slot : Slot} (hslot : slot ≠ .cur) (sig : Nat) (w : World) :
    ∃ w', sendSignal slot sig w = .ok () w' ∧ Twins (standing w) w w' := by
  have hmark : Twins (standing w) w (w.modifyOther (Process.setPending sig) slot) := by
    refine ⟨rfl, standing_modifyOther sig w slot, ?_⟩
    cases slot <;> exact ⟨_, _, w.trace, rfl⟩
  have hsend : sendSignal slot sig w =
      (match w.at slot with
        | some p => log (.sent p.pid sig)
        | none => return ()) (w.modifyOther (Process.setPending sig) slot) := by
    cases slot with
    | cur => exact absurd rfl hslot
    | before i => rfl
    | after i => rfl
  rw [hsend]
  cases w.at slot with
  | none => exact ⟨_, rfl, hmark⟩
  | some p =>
    refine ⟨_, rfl, twins_trans hmark ⟨hmark.2.1, hmark.2.1, _, _, _, rfl⟩⟩

/-- The process at a place is selected. -/
def chosen (select : Process → Bool) (w : World) (slot : Slot) : Bool := (w.at slot).any select

section Loop

variable {select : Process → Bool} {sig : Nat}

theorem chosen_iff {w : World} {slot : Slot} :
    chosen select w slot = true ↔ ∃ p, w.at slot = some p ∧ select p = true := by
  unfold chosen
  cases w.at slot with
  | none => simp
  | some p => simp

theorem chosen_standing (hselect : ∀ p q, address p = address q → select p = select q)
    {w w' : World} (h : standing w' = standing w) (slot : Slot) :
    chosen select w' slot = chosen select w slot := by
  have haddress := address_at h slot
  unfold chosen
  cases hp : w.at slot with
  | none =>
    rw [hp, Option.map_none, Option.map_eq_none_iff] at haddress
    rw [haddress]
  | some p =>
    rw [hp, Option.map_some, Option.map_eq_some_iff] at haddress
    obtain ⟨q, hq, heq⟩ := haddress
    rw [hq]
    exact hselect q p heq

theorem sendIfSelectedR_skip {slot : Slot} {w : World} (h : chosen select w slot = false ∨ sig = 0)
    (log : List Slot) : sendIfSelectedR select sig slot (w, log) = .ok () (w, log) := by
  rw [sendIfSelectedR,
    Comp.silent_get_bind]
  unfold chosen at h
  cases hp : w.at slot with
  | none => rfl
  | some p =>
    rw [hp] at h
    have hskip : ¬(select p = true ∧ sig ≠ 0) := by
      rintro ⟨hselect, hsig⟩
      rcases h with h | h
      · exact Bool.false_ne_true (h.symm.trans hselect)
      · exact hsig h
    dsimp only
    rw [if_neg hskip]
    rfl

theorem sendIfSelectedR_send {slot : Slot} {w : World} (h : chosen select w slot = true)
    (hsig : sig ≠ 0) (log : List Slot) : sendIfSelectedR select sig slot (w, log) =
      (Comp.silent (sendSignal slot sig) : SR Unit) (w, slot :: log) := by
  rw [sendIfSelectedR,
    Comp.silent_get_bind]
  unfold chosen at h
  cases hp : w.at slot with
  | none =>
    rw [hp] at h
    cases h
  | some p =>
    rw [hp] at h
    have hboth : select p = true ∧ sig ≠ 0 := ⟨h, hsig⟩
    dsimp only
    rw [if_pos hboth]
    rfl

/-- Signal 0 goes to nobody. -/
theorem sendToSlotsR_zero (slots : List Slot) (w : World) (log : List Slot) :
    sendToSlotsR select 0 slots (w, log) = .ok () (w, log) := by
  induction slots with
  | nil => rfl
  | cons slot rest ih => exact (Comp.bind_of_ok (sendIfSelectedR_skip (.inr rfl) log) _).trans ih

/-- Processes other than the caller get it one after the other. -/
theorem sendToSlotsR_others (hselect : ∀ p q, address p = address q → select p = select q)
    (hsig : sig ≠ 0) (slots : List Slot) {w : World}
    (hcur : .cur ∈ slots → chosen select w .cur = false) (log : List Slot) :
    ∃ w', sendToSlotsR select sig slots (w, log) =
      .ok () (w', (slots.filter (chosen select w)).reverse ++ log) ∧
        Twins (standing w) w w' := by
  induction slots generalizing w log with
  | nil => exact ⟨w, rfl, twins_refl w⟩
  | cons slot rest ih =>
    rw [sendToSlotsR]
    cases hchosen : chosen select w slot with
    | false =>
      obtain ⟨w', hrest, htwins⟩ := ih (fun h ↦ hcur (.tail _ h)) log
      rw [Comp.bind_of_ok (sendIfSelectedR_skip (.inl hchosen) log),
        List.filter_cons_of_neg (by rw [hchosen]; exact Bool.false_ne_true)]
      exact ⟨w', hrest, htwins⟩
    | true =>
      have hslot : slot ≠ .cur := by
        rintro rfl
        exact Bool.false_ne_true ((hcur (.head _)).symm.trans hchosen)
      obtain ⟨w₁, hsend, htwins⟩ := sendSignal_other hslot sig w
      have hsame : chosen select w₁ = chosen select w :=
        funext (chosen_standing hselect htwins.2.1)
      obtain ⟨w', hrest, htwins'⟩ := ih (w := w₁)
        (by rw [hsame]; exact fun h ↦ hcur (.tail _ h)) (slot :: log)
      rw [hsame] at hrest
      rw [Comp.bind_of_ok ((sendIfSelectedR_send hchosen hsig log).trans
        (Comp.silent_of_ok hsend _)), List.filter_cons_of_pos hchosen, List.reverse_cons,
        List.append_assoc]
      rw [htwins.2.1] at htwins'
      exact ⟨w', hrest, twins_trans htwins htwins'⟩

theorem sendToSlotsR_append {slots rest : List Slot} {s s' : World × List Slot}
    (h : sendToSlotsR select sig slots s = .ok () s') :
    sendToSlotsR select sig (slots ++ rest) s = sendToSlotsR select sig rest s' := by
  induction slots generalizing s with
  | nil =>
    obtain ⟨-, rfl⟩ := Comp.pure_eq_ok.mp h
    rfl
  | cons slot slots ih =>
    obtain ⟨_, s₁, hfirst, hrest⟩ := Comp.bind_eq_ok.mp h
    exact (Comp.bind_of_ok hfirst _).trans (ih hrest)

/-- The places before the caller's in the table. -/
def earlier (w : World) : List Slot := (List.range w.before.length).map .before

/-- The places after it. -/
def later (w : World) : List Slot := (List.range w.after.length).map .after

theorem slots_eq (w : World) : w.slots = earlier w ++ .cur :: later w := by
  rw [World.slots, List.append_assoc]
  rfl

theorem cur_notMem_earlier (w : World) : .cur ∉ earlier w := by simp [earlier]

theorem cur_notMem_later (w : World) : .cur ∉ later w := by simp [later]

theorem after_notMem_earlier (w : World) (i : Nat) : .after i ∉ earlier w := by simp [earlier]

/-- The loop up to the caller itself. -/
theorem sendToSlotsR_cur (hselect : ∀ p q, address p = address q → select p = select q)
    (hsig : sig ≠ 0) {w : World} (hcur : chosen select w .cur = true) :
    ∃ w', Twins (standing w) w w' ∧ sendToSlotsR select sig w.slots (w, []) =
      (do
        Comp.silent (sendSignal .cur sig)
        sendToSlotsR select sig (later w) : SR Unit)
        (w', .cur :: ((earlier w).filter (chosen select w)).reverse) := by
  obtain ⟨w', hrun, htwins⟩ := sendToSlotsR_others hselect hsig (earlier w)
    (fun h ↦ absurd h (cur_notMem_earlier w)) []
  rw [List.append_nil] at hrun
  have hcur' : chosen select w' .cur = true :=
    (chosen_standing hselect htwins.2.1 .cur).trans hcur
  refine ⟨w', htwins, ?_⟩
  rw [slots_eq, sendToSlotsR_append hrun, sendToSlotsR]
  simp only [Bind.bind, Comp.bind, sendIfSelectedR_send hcur' hsig]

/-- Unless it is stopped on the way, the loop sends to all that are selected. -/
theorem sendToSlotsR_all (hselect : ∀ p q, address p = address q → select p = select q)
    (hsig : sig ≠ 0) {w : World}
    (h : chosen select w .cur = true → (sendSignal .cur sig w).returned = true) :
    ∃ w', sendToSlotsR select sig w.slots (w, []) =
      .ok () (w', (w.slots.filter (chosen select w)).reverse) := by
  cases hcur : chosen select w .cur with
  | false =>
    obtain ⟨w', hrun, -⟩ := sendToSlotsR_others hselect hsig w.slots (fun _ ↦ hcur) []
    rw [List.append_nil] at hrun
    exact ⟨w', hrun⟩
  | true =>
    obtain ⟨w₁, htwins, hrun⟩ := sendToSlotsR_cur hselect hsig hcur
    have halike := twins_sendSignal sig w w₁ htwins
    have hreturned := h hcur
    cases hown : sendSignal .cur sig w with
    | exit s => rw [hown] at hreturned; cases hreturned
    | wait s => rw [hown] at hreturned; cases hreturned
    | fault s => rw [hown] at hreturned; cases hreturned
    | ok u s =>
      rw [hown] at halike
      cases hown' : sendSignal .cur sig w₁ with
      | exit s' => rw [hown'] at halike; cases halike
      | wait s' => rw [hown'] at halike; cases halike
      | fault s' => rw [hown'] at halike; cases halike
      | ok u' s' =>
        rw [hown'] at halike
        cases halike with
        | ok _ hs =>
          have hsame : chosen select s' = chosen select w :=
            funext (chosen_standing hselect hs.2.1)
          obtain ⟨w', hrest, -⟩ := sendToSlotsR_others hselect hsig (later w) (w := s')
            (fun hmem ↦ absurd hmem (cur_notMem_later w))
            (.cur :: ((earlier w).filter (chosen select w)).reverse)
          refine ⟨w', ?_⟩
          rw [hrun, Comp.bind_of_ok (Comp.silent_of_ok hown' _), hrest, hsame, slots_eq,
            List.filter_append, List.filter_cons_of_pos hcur, List.reverse_append,
            List.reverse_cons, List.append_assoc]
          rfl

/-- A caller that does not come back from its own signal sends to nobody after itself. -/
theorem sendToSlotsR_stopped (hselect : ∀ p q, address p = address q → select p = select q)
    (hsig : sig ≠ 0) {w : World} (hcur : chosen select w .cur = true)
    (hstop : (sendSignal .cur sig w).returned = false) :
    (sendToSlotsR select sig w.slots (w, [])).returned = false ∧
      (sendToSlotsR select sig w.slots (w, [])).state.2 =
        .cur :: ((earlier w).filter (chosen select w)).reverse := by
  obtain ⟨w₁, htwins, hrun⟩ := sendToSlotsR_cur hselect hsig hcur
  have hreturned := (twins_sendSignal sig w w₁ htwins).returned
  rw [hrun]
  simp only [Bind.bind, Comp.bind, Comp.silent]
  cases hown : sendSignal .cur sig w₁ with
  | ok u s =>
    rw [hown, hstop] at hreturned
    cases hreturned
  | exit s => exact ⟨rfl, rfl⟩
  | wait s => exact ⟨rfl, rfl⟩
  | fault s => exact ⟨rfl, rfl⟩

end Loop

/-! ## Exactly the recipients -/

/-- The processes that an argument other than a single pid addresses: all, the caller's group or
the group it names, and never init. -/
def addressed (self : Process) (pid : DWORD) (p : Process) : Bool :=
  p.pid != 1#32 && (pid == -1#32 ||
    p.processGroupPID == (if pid = 0#32 then self.processGroupPID else -pid))

/-- The places of the processes that `kill` is to reach. -/
def recipients (w : World) (pid : DWORD) : List Slot :=
  if 0 < pid.toInt then (w.findProcess pid).toList
  else w.slots.filter (chosen (addressed w.cur pid) w)

/-- `kill` sends to its recipients and to nobody else, to nobody if the signal is 0, and tells
whether there were any, unless the caller does not come back from its own signal. -/
structure Reaches (ctx : Context) (w : World) : Prop where
  sent : ctx.ecx ≠ 0#32 →
    ∀ slot, slot ∈ (sysKillR ctx (w, [])).state.2 ↔ slot ∈ recipients w ctx.ebx
  unsent : ctx.ecx = 0#32 → (sysKillR ctx (w, [])).state.2 = []
  result : (ctx.ecx ≠ 0#32 → .cur ∈ recipients w ctx.ebx →
      (sendSignal .cur ctx.ecx.toNat w).returned = true) →
    ∃ s, sysKillR ctx (w, []) =
      .ok (ctx.withEax (if recipients w ctx.ebx = [] then -ESRCH else 0#32)) s

/-- There is a recipient, a caller that means its group leads it, and if the caller is among the
recipients then it is the last one or comes back from its own signal. -/
structure ManyFit (ctx : Context) (w : World) : Prop where
  nonempty : recipients w ctx.ebx ≠ []
  group : ctx.ecx ≠ 0#32 → ctx.ebx = 0#32 → w.cur.processGroupPID = w.cur.pid
  last : ctx.ecx ≠ 0#32 → .cur ∈ recipients w ctx.ebx →
    (∀ i, .after i ∉ recipients w ctx.ebx) ∨
      (sendSignal .cur ctx.ecx.toNat w).returned = true

theorem killSelects_address (self : Process) (pid : DWORD) (p q : Process)
    (h : address p = address q) : killSelects self pid p = killSelects self pid q := by
  obtain ⟨hpid, hgroup⟩ := Prod.mk.inj h
  rw [killSelects, killSelects, hpid, hgroup]

/-- The code goes by the caller's pid where its group is meant. -/
theorem killSelects_eq {self : Process} {pid : DWORD}
    (h : pid = 0#32 → self.processGroupPID = self.pid) :
    killSelects self pid = addressed self pid := by
  funext p
  rw [killSelects, addressed]
  by_cases hall : pid = -1#32
  · rw [if_pos hall, hall]
    simp only [beq_self_eq_true, Bool.true_or, Bool.and_true]
  · rw [if_neg hall, beq_eq_false_iff_ne.mpr hall, Bool.false_or]
    by_cases hzero : pid = 0#32
    · rw [if_pos hzero, if_pos hzero, h hzero]
    · rw [if_neg hzero, if_neg hzero]

theorem killSelects_zero (self p : Process) (h : killSelects self 0#32 p = true) :
    p.processGroupPID = self.pid := by
  have hne : ¬(0#32 : DWORD) = -1#32 := by decide
  rw [killSelects, if_neg hne, if_pos rfl, Bool.and_eq_true, beq_iff_eq] at h
  exact h.2

theorem addressed_zero (self p : Process) (h : addressed self 0#32 p = true) :
    p.processGroupPID = self.processGroupPID := by
  have hne : ((0#32 : DWORD) == -1#32) = false := by decide
  rw [addressed, hne, Bool.false_or, if_pos rfl, Bool.and_eq_true, beq_iff_eq] at h
  exact h.2

theorem sendSignalR_return {α : Type} (slot : Slot) (sig : Nat) (w : World) (b : α) :
    ((do
      sendSignalR slot sig
      return b : SR α) (w, [])).state.2 = [slot] ∧
    ((sendSignal slot sig w).returned = true → ∃ s, (do
      sendSignalR slot sig
      return b : SR α) (w, []) = .ok b s) := by
  simp only [Bind.bind, Comp.bind, sendSignalR, Comp.record, Comp.modify, Comp.silent]
  cases sendSignal slot sig w with
  | ok u s => exact ⟨rfl, fun _ ↦ ⟨_, rfl⟩⟩
  | exit s => exact ⟨rfl, fun h ↦ absurd h Bool.false_ne_true⟩
  | wait s => exact ⟨rfl, fun h ↦ absurd h Bool.false_ne_true⟩
  | fault s => exact ⟨rfl, fun h ↦ absurd h Bool.false_ne_true⟩

section Reaches

variable {ctx : Context} {w : World}

theorem toNat_ne_zero {n : DWORD} (h : n ≠ 0#32) : n.toNat ≠ 0 :=
  fun heq ↦ h (BitVec.eq_of_toNat_eq heq)

/-- A single pid. -/
theorem reaches_single (hsig : ctx.ecx.toNat < nsig) (h : 0 < ctx.ebx.toInt) : Reaches ctx w := by
  have hrecipients : recipients w ctx.ebx = (w.findProcess ctx.ebx).toList := if_pos h
  have hrun : sysKillR ctx (w, []) =
      (match w.findProcess ctx.ebx with
        | none => return ctx.withEax (-ESRCH)
        | some slot => do
            if ctx.ecx.toNat ≠ 0 then sendSignalR slot ctx.ecx.toNat
            return ctx.withEax 0#32 : SR Context) (w, []) := by
    rw [sysKillR]
    dsimp only
    rw [if_neg (Nat.not_le.mpr hsig), if_pos h,
      Comp.silent_get_bind]
  cases hfound : w.findProcess ctx.ebx with
  | none =>
    rw [hfound] at hrecipients hrun
    rw [Option.toList_none] at hrecipients
    refine ⟨fun _ slot ↦ ?_, fun _ ↦ ?_, fun _ ↦ ?_⟩
    · rw [hrun, hrecipients]
      exact Iff.rfl
    · rw [hrun]
      rfl
    · rw [hrecipients, if_pos rfl]
      exact ⟨_, hrun⟩
  | some slot =>
    rw [hfound] at hrecipients hrun
    rw [Option.toList_some] at hrecipients
    dsimp only at hrun
    by_cases hzero : ctx.ecx = 0#32
    · have hnat : ¬ctx.ecx.toNat ≠ 0 := by rw [hzero]; decide
      rw [if_neg hnat] at hrun
      refine ⟨fun hne ↦ absurd hzero hne, fun _ ↦ ?_, fun _ ↦ ?_⟩
      · rw [hrun]
        rfl
      · rw [hrecipients, if_neg (List.cons_ne_nil _ _)]
        exact ⟨_, hrun⟩
    · rw [if_pos (toNat_ne_zero hzero)] at hrun
      obtain ⟨hsent, hok⟩ := sendSignalR_return slot ctx.ecx.toNat w (ctx.withEax 0#32)
      refine ⟨fun _ other ↦ ?_, fun heq ↦ absurd heq hzero, fun hown ↦ ?_⟩
      · rw [hrun, hsent, hrecipients]
      · rw [hrecipients] at hown ⊢
        have hreturned : (sendSignal slot ctx.ecx.toNat w).returned = true := by
          by_cases hslot : slot = .cur
          · rw [hslot] at hown ⊢
            exact hown hzero (List.mem_singleton.mpr rfl)
          · obtain ⟨w', hother, -⟩ := sendSignal_other hslot ctx.ecx.toNat w
            rw [hother]
            rfl
        obtain ⟨s, hs⟩ := hok hreturned
        rw [if_neg (List.cons_ne_nil _ _)]
        exact ⟨s, hrun.trans hs⟩

/-- The other forms of the argument. -/
theorem sysKillR_many (hsig : ctx.ecx.toNat < nsig) (h : ¬0 < ctx.ebx.toInt) :
    sysKillR ctx (w, []) = (do
      sendToSlotsR (killSelects w.cur ctx.ebx) ctx.ecx.toNat w.slots
      return ctx.withEax 0#32 : SR Context) (w, []) := by
  rw [sysKillR]
  dsimp only
  rw [if_neg (Nat.not_le.mpr hsig), if_neg h,
    Comp.silent_get_bind]

/-- They always end with 0, so there has to be a recipient. -/
theorem recipients_ne_nil (hsig : ctx.ecx.toNat < nsig) (h : ¬0 < ctx.ebx.toInt)
    (hreaches : Reaches ctx w) : recipients w ctx.ebx ≠ [] := by
  intro hnil
  obtain ⟨s, hok⟩ := hreaches.result fun _ hcur ↦ by
    rw [hnil] at hcur
    cases hcur
  rw [sysKillR_many hsig h, if_pos hnil] at hok
  obtain ⟨_, s₁, -, hpure⟩ := Comp.bind_eq_ok.mp hok
  have heax : 0#32 = -ESRCH := congrArg Context.eax (Comp.pure_eq_ok.mp hpure).1
  exact absurd heax (by decide)

theorem reaches_zero_iff (hzero : ctx.ecx = 0#32) (h : ¬0 < ctx.ebx.toInt) :
    Reaches ctx w ↔ recipients w ctx.ebx ≠ [] := by
  have hsig : ctx.ecx.toNat < nsig := by rw [hzero]; decide
  have hrun : sysKillR ctx (w, []) = .ok (ctx.withEax 0#32) (w, []) := by
    rw [sysKillR_many hsig h, hzero]
    exact Comp.bind_of_ok (sendToSlotsR_zero w.slots w []) _
  constructor
  · exact recipients_ne_nil hsig h
  · intro hne
    refine ⟨fun hsend ↦ absurd hzero hsend, fun _ ↦ ?_, fun _ ↦ ?_⟩
    · rw [hrun]
      rfl
    · rw [if_neg hne]
      exact ⟨_, hrun⟩

theorem state_sysKillR (hsig : ctx.ecx.toNat < nsig) (h : ¬0 < ctx.ebx.toInt) :
    (sysKillR ctx (w, [])).state =
      (sendToSlotsR (killSelects w.cur ctx.ebx) ctx.ecx.toNat w.slots (w, [])).state := by
  rw [sysKillR_many hsig h]
  simp only [Bind.bind, Comp.bind]
  cases sendToSlotsR (killSelects w.cur ctx.ebx) ctx.ecx.toNat w.slots (w, []) <;> rfl

/-- Everything that is sent to is selected by the code. -/
theorem chosen_of_sent (hsig : ctx.ecx.toNat < nsig) (hzero : ctx.ecx ≠ 0#32)
    (h : ¬0 < ctx.ebx.toInt) {slot : Slot} (hsent : slot ∈ (sysKillR ctx (w, [])).state.2) :
    chosen (killSelects w.cur ctx.ebx) w slot = true := by
  have hselect := killSelects_address w.cur ctx.ebx
  rw [state_sysKillR hsig h] at hsent
  by_cases hown : chosen (killSelects w.cur ctx.ebx) w .cur = true →
      (sendSignal .cur ctx.ecx.toNat w).returned = true
  · obtain ⟨w', hrun⟩ := sendToSlotsR_all hselect (toNat_ne_zero hzero) hown
    rw [hrun] at hsent
    exact (List.mem_filter.mp (List.mem_reverse.mp hsent)).2
  · obtain ⟨hcur, hstop⟩ := Classical.not_imp.mp hown
    obtain ⟨-, hlog⟩ := sendToSlotsR_stopped hselect (toNat_ne_zero hzero) hcur
      (Bool.not_eq_true _ ▸ hstop)
    rw [hlog] at hsent
    rcases List.mem_cons.mp hsent with rfl | hearlier
    · exact hcur
    · exact (List.mem_filter.mp (List.mem_reverse.mp hearlier)).2

/-- Where the code selects the recipients, it reaches them if the caller comes last or back. -/
theorem reaches_many_iff (hsig : ctx.ecx.toNat < nsig) (hzero : ctx.ecx ≠ 0#32)
    (h : ¬0 < ctx.ebx.toInt) (hne : recipients w ctx.ebx ≠ [])
    (hselects : killSelects w.cur ctx.ebx = addressed w.cur ctx.ebx) :
    Reaches ctx w ↔ (.cur ∈ recipients w ctx.ebx → (∀ i, .after i ∉ recipients w ctx.ebx) ∨
      (sendSignal .cur ctx.ecx.toNat w).returned = true) := by
  have hselect := killSelects_address w.cur ctx.ebx
  have hrecipients : recipients w ctx.ebx =
      w.slots.filter (chosen (killSelects w.cur ctx.ebx) w) := by
    rw [hselects]
    exact if_neg h
  have hcur : .cur ∈ recipients w ctx.ebx ↔
      chosen (killSelects w.cur ctx.ebx) w .cur = true := by
    rw [hrecipients, List.mem_filter, slots_eq]
    exact and_iff_right (List.mem_append_right _ (.head _))
  by_cases hown : chosen (killSelects w.cur ctx.ebx) w .cur = true →
      (sendSignal .cur ctx.ecx.toNat w).returned = true
  · obtain ⟨w', hrun⟩ := sendToSlotsR_all hselect (toNat_ne_zero hzero) hown
    refine iff_of_true ⟨fun _ slot ↦ ?_, fun heq ↦ absurd heq hzero, fun _ ↦ ?_⟩ ?_
    · rw [state_sysKillR hsig h, hrun, hrecipients]
      exact List.mem_reverse
    · rw [sysKillR_many hsig h, Comp.bind_of_ok hrun, if_neg hne]
      exact ⟨_, rfl⟩
    · exact fun hmem ↦ .inr (hown (hcur.mp hmem))
  · obtain ⟨hchosen, hstop⟩ := Classical.not_imp.mp hown
    rw [Bool.not_eq_true] at hstop
    obtain ⟨-, hlog⟩ := sendToSlotsR_stopped hselect (toNat_ne_zero hzero) hchosen hstop
    rw [slots_eq, List.filter_append, List.filter_cons_of_pos hchosen] at hrecipients
    constructor
    · refine fun hreaches _ ↦ .inl fun i hi ↦ ?_
      have hsent := (hreaches.sent hzero (.after i)).mpr hi
      rw [state_sysKillR hsig h, hlog, List.mem_cons, List.mem_reverse, List.mem_filter] at hsent
      rcases hsent with heq | ⟨hearlier, -⟩
      · cases heq
      · exact after_notMem_earlier w i hearlier
    · intro hlast
      rcases hlast (hcur.mpr hchosen) with hnone | hreturned
      · have hlater : (later w).filter (chosen (killSelects w.cur ctx.ebx) w) = [] := by
          apply List.eq_nil_iff_forall_not_mem.mpr
          intro slot hslot
          obtain ⟨i, -, rfl⟩ := List.mem_map.mp (List.mem_filter.mp hslot).1
          apply hnone i
          rw [hrecipients]
          exact List.mem_append_right _ (.tail _ hslot)
        refine ⟨fun _ slot ↦ ?_, fun heq ↦ absurd heq hzero, fun hown ↦ ?_⟩
        · rw [state_sysKillR hsig h, hlog, hrecipients, hlater, List.mem_cons, List.mem_reverse,
            List.mem_append, List.mem_singleton]
          exact or_comm
        · exact absurd ((hown hzero (hcur.mpr hchosen)).symm.trans hstop) (by decide)
      · exact absurd (hreturned.symm.trans hstop) (by decide)

end Reaches

/-- `kill` reaches exactly its recipients if and only if the argument is a pid or they fit. -/
theorem sysKill_reaches_iff {ctx : Context} (hsig : ctx.ecx.toNat < nsig) (w : World) :
    Reaches ctx w ↔ 0 < ctx.ebx.toInt ∨ ManyFit ctx w := by
  by_cases hsingle : 0 < ctx.ebx.toInt
  · exact iff_of_true (reaches_single hsig hsingle) (.inl hsingle)
  · rw [or_iff_right hsingle]
    by_cases hzero : ctx.ecx = 0#32
    · rw [reaches_zero_iff hzero hsingle]
      exact ⟨fun hne ↦ ⟨hne, fun h ↦ absurd hzero h, fun h ↦ absurd hzero h⟩, ManyFit.nonempty⟩
    · constructor
      · intro hreaches
        have hne := recipients_ne_nil hsig hsingle hreaches
        have hgroup : ctx.ebx = 0#32 → w.cur.processGroupPID = w.cur.pid := by
          intro hpid
          obtain ⟨slot, hslot⟩ := List.exists_mem_of_ne_nil _ hne
          have hsent := chosen_of_sent hsig hzero hsingle ((hreaches.sent hzero slot).mpr hslot)
          have haddressed : chosen (addressed w.cur ctx.ebx) w slot = true := by
            rw [recipients, if_neg hsingle] at hslot
            exact (List.mem_filter.mp hslot).2
          obtain ⟨p, hp, hselects⟩ := chosen_iff.mp hsent
          obtain ⟨q, hq, haddresses⟩ := chosen_iff.mp haddressed
          cases hp.symm.trans hq
          rw [hpid] at hselects haddresses
          exact (addressed_zero _ _ haddresses).symm.trans (killSelects_zero _ _ hselects)
        exact ⟨hne, fun _ ↦ hgroup, fun _ ↦
          (reaches_many_iff hsig hzero hsingle hne (killSelects_eq hgroup)).mp hreaches⟩
      · intro hfit
        exact (reaches_many_iff hsig hzero hsingle hfit.nonempty
          (killSelects_eq (hfit.group hzero))).mpr (hfit.last hzero)

/-- The arguments of a call. -/
def killCall (pid : DWORD) (sig : Nat) : Context :=
  { Context.zero with ebx := pid, ecx := BitVec.ofNat 32 sig }

/-- Process 2 leads its group and ignores every signal. Processes 3 and 4 are in the group, init
and process 5 are not. -/
def groupWorld : World :=
  let w := loneWorld []
  { w with
    before := [{ pid := 1#32, parentPid := 0#32, processGroupPID := 1#32 },
      { pid := 3#32, parentPid := 2#32, processGroupPID := 2#32 }]
    cur := { w.cur with
      processGroupPID := 2#32
      signalAction := fun _ ↦ { saHandler := SIG_IGN } }
    after := [{ pid := 4#32, parentPid := 2#32, processGroupPID := 2#32 },
      { pid := 5#32, parentPid := 1#32, processGroupPID := 5#32 }] }

/-- It sends `SIGTERM` to its group, of which it is neither the first nor the last. -/
theorem sysKill_reaches_group :
    Reaches (killCall 0#32 SIGTERM) groupWorld ∧
      recipients groupWorld 0#32 = [.before 1, .cur, .after 0] := by
  have hrecipients : recipients groupWorld 0#32 = [.before 1, .cur, .after 0] := rfl
  refine ⟨(sysKill_reaches_iff (by decide) groupWorld).mpr (.inr ⟨?_, fun _ _ ↦ rfl, ?_⟩),
    hrecipients⟩
  · exact ne_of_eq_of_ne hrecipients (List.cons_ne_nil _ _)
  · exact fun _ _ ↦ .inr rfl

/-- A lone process means its group and does not lead it, or names a group that nobody is in. -/
theorem not_reaches_group :
    ¬Reaches (killCall 0#32 SIGTERM) (loneWorld []) ∧
    ¬Reaches (killCall (-5#32) SIGTERM) (loneWorld []) := by
  constructor
  · intro h
    have hsent := (h.sent (by decide) .cur).mpr (by decide)
    exact absurd hsent (by decide)
  · intro h
    obtain ⟨s, hok⟩ := h.result fun _ hcur ↦ absurd hcur (by decide)
    have heax : 0#32 = -ESRCH := congrArg Context.eax (Result.ok.inj hok).1
    exact absurd heax (by decide)

end Keow.Signal.Kill
