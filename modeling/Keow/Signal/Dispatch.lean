import Keow.Base.Recorder
import Keow.Signal.Loop

/-!
# Dispatch of system calls

`SysCalls::HandleInt80SysCall` and `SysCalls::Unhandled` (`SysCalls.cpp:402–487`) once more, with a
record of the indices into `syscall_handlers` and `syscall_names` and of every stop for the tracer.
The number is compared with the size of the tables as unsigned in the one and as an `int` in the
other.
-/

namespace Keow.Signal

open Keow.Base Keow.Kernel

/-! ## Handlers -/

/-- The slots of `syscall_handlers` that are filled with a handler of its own; the others hold
`Unhandled`, or one that only calls it (`SysCalls.cpp:43–397,497–737`). -/
def ownHandlers : List Nat :=
  [1, 2, 3, 4, 5, 6, 7, 9, 10, 11, 12, 13, 15, 16, 19, 20, 21, 22, 24, 26, 30, 33, 37, 38, 39, 40,
    41, 42, 45, 47, 49, 50, 54, 55, 57, 60, 63, 64, 65, 67, 70, 71, 76, 78, 82, 83, 85, 88, 90,
    91, 94, 95, 102, 106, 107, 108, 114, 116, 119, 122, 123, 125, 126, 132, 133, 140, 142, 146,
    162, 173, 174, 175, 176, 177, 178, 179, 182, 183, 191, 195, 196, 197, 198, 199, 200, 201, 202,
    203, 204, 207, 212, 220, 243, 244, 265]

/-- `__NR_clock_gettime`. -/
def NR_clock_gettime : Nat := 265

/-- The clocks from `CLOCK_REALTIME` to `CLOCK_MONOTONIC_COARSE`, for which `sys_clock_gettime` has
a case, `sys_time.cpp:66–125`. -/
def knownClocks : List DWORD := [0#32, 1#32, 2#32, 3#32, 4#32, 5#32, 6#32]

/-- The handler in slot `n` falls into `Unhandled`. -/
def FallsThrough (n : Nat) (ctx : Context) : Prop :=
  n ∉ ownHandlers ∨ n = NR_clock_gettime ∧ ctx.ebx ∉ knownClocks

instance (n : Nat) (ctx : Context) : Decidable (FallsThrough n ctx) :=
  inferInstanceAs (Decidable (_ ∨ _))

/-- A kernel in which these handlers do what `Unhandled` does. -/
def Environment.withUnhandled (env : Environment) : Environment :=
  { env with
    otherSyscall := fun n ctx ↦
      if FallsThrough n ctx then unhandled ctx else env.otherSyscall n ctx
    within_otherSyscall := fun n ctx ↦
      Comp.within_ite (Comp.within_pure _) (env.within_otherSyscall n ctx) }

/-! ## The record -/

/-- What is recorded: an index into `syscall_names`; an index into `syscall_handlers` with the call
of what lies there; the end of the call, and whether the tracer follows system calls by then; and
a stop for the tracer, with the saved number it finds. -/
inductive Dispatched where
  | name (i : Nat)
  | handler (i : Nat)
  | returned (follows : Bool)
  | stopped (savedEax : DWORD)
deriving DecidableEq

/-- The index is below `NR_syscalls`. -/
def Dispatched.Inside : Dispatched → Prop
  | .name i => i < NR_syscalls
  | .handler i => i < NR_syscalls
  | .returned _ => True
  | .stopped _ => True

/-- A stop, or the call of a handler. -/
def Dispatched.isStep : Dispatched → Bool
  | .handler _ => true
  | .stopped _ => true
  | _ => false

/-- A computation of the kernel thread with its record. -/
abbrev KD := Comp (World × List Dispatched)

/-- There is a tracer, and it follows system calls. -/
def Follows (w : World) : Prop :=
  w.cur.ptrace.ownerPid ≠ 0#32 ∧ w.cur.ptrace.request = PTRACE_SYSCALL

instance : DecidablePred Follows := fun _ ↦ inferInstanceAs (Decidable (_ ∧ _))

/-- `handleSignal`. -/
def handleSignalD (sig : Nat) : KD Unit := do
  let w ← Comp.silent Comp.get
  if w.cur.ptrace.ownerPid ≠ 0#32 then
    Comp.silent (modifyCur (fun p ↦ { p with
      ptrace := { p.ptrace with newSignal := BitVec.ofNat 32 sig } }))
    Comp.silent notifyTracer
    let w ← Comp.silent Comp.get
    Comp.record [.stopped w.cur.ptrace.savedEax]
    Comp.silent (ptraceStop w.inputs)
    let w ← Comp.silent Comp.get
    let newSignal := w.cur.ptrace.newSignal.toNat
    if newSignal ≠ sig ∧ newSignal = 0 then return ()
    else Comp.silent (actOnSignal newSignal)
  else Comp.silent (actOnSignal sig)

/-- `sendSignal` on `P` itself. -/
def sendSignalD (sig : Nat) : KD Unit := do
  let w ← Comp.silent Comp.get
  Comp.silent (log (.raised sig (w.cur.blocks sig)))
  Comp.silent (modifyCur (fun p ↦ { p with currentSignal := sig }))
  handleSignalD sig
  Comp.silent (modifyCur (fun p ↦ { p with currentSignal := 0 }))

/-- `stopForPtrace`. -/
def stopForPtraceD (seen : Context) (savedEax : DWORD) : KD Unit := do
  let w ← Comp.silent Comp.get
  if Follows w then
    Comp.silent (modifyCur (fun p ↦ { p with
      ptrace := { p.ptrace with ctx := seen, savedEax := savedEax } }))
    sendSignalD SIGTRAP

/-- What the trace of `Unhandled` looks up: the name of a number that is small as an `int`. -/
def unhandledName (ctx : Context) : List Dispatched :=
  if ctx.eax.toInt < NR_syscalls then [.name ctx.eax.toNat] else []

/-- `SysCalls::Unhandled`. -/
def unhandledD (ctx : Context) : KD Context := do
  Comp.record (unhandledName ctx)
  Comp.silent (unhandled ctx)

/-- `syscall_handlers[n](ctx)`. -/
def syscallHandlerD (env : Environment) (n : Nat) (ctx : Context) : KD Context := do
  Comp.record [.handler n]
  if FallsThrough n ctx then unhandledD ctx else Comp.silent (syscallHandler env n ctx)

/-- `handleInt80SysCall`. -/
def handleInt80SysCallD (env : Environment) (ctx : Context) : KD Context := do
  Comp.silent (modifyCur (fun p ↦ { p with
    ptrace := { p.ptrace with ctx := ctx, ctxValid := true } }))
  let ctx' ←
    if ctx.eax.toNat < NR_syscalls then do
      Comp.record [.name ctx.eax.toNat]
      stopForPtraceD (ctx.withEax (-ENOSYS)) ctx.eax
      let ctx' ← syscallHandlerD env ctx.eax.toNat ctx
      let w ← Comp.silent Comp.get
      Comp.record [.returned (decide (Follows w))]
      stopForPtraceD ctx' ctx.eax
      Pure.pure ctx'
    else unhandledD ctx
  Comp.silent (modifyCur (fun p ↦ { p with ptrace := { p.ptrace with ctxValid := false } }))
  return ctx'

/-! ## Without the record -/

theorem erases_handleSignalD (sig : Nat) : Comp.Erases (handleSignalD sig) (handleSignal sig) := by
  refine Comp.erases_bind (Comp.erases_silent _) fun w ↦
    Comp.erases_ite ?_ (Comp.erases_silent _)
  refine Comp.erases_bind (Comp.erases_silent _) fun _ ↦ ?_
  refine Comp.erases_bind (Comp.erases_silent _) fun _ ↦ ?_
  refine Comp.erases_bind (Comp.erases_silent _) fun w ↦ ?_
  refine Comp.erases_record (Comp.erases_bind (Comp.erases_silent _) fun _ ↦ ?_)
  refine Comp.erases_bind (Comp.erases_silent _) fun w ↦ ?_
  exact Comp.erases_ite (Comp.erases_pure _) (Comp.erases_silent _)

theorem erases_sendSignalD (sig : Nat) :
    Comp.Erases (sendSignalD sig) (sendSignal .cur sig) := by
  refine Comp.erases_bind (Comp.erases_silent _) fun w ↦ ?_
  refine Comp.erases_bind (Comp.erases_silent _) fun _ ↦ ?_
  refine Comp.erases_bind (Comp.erases_silent _) fun _ ↦ ?_
  exact Comp.erases_bind (erases_handleSignalD sig) fun _ ↦ Comp.erases_silent _

theorem erases_stopForPtraceD (seen : Context) (savedEax : DWORD) :
    Comp.Erases (stopForPtraceD seen savedEax) (stopForPtrace seen savedEax) :=
  Comp.erases_bind (Comp.erases_silent _) fun _ ↦
    Comp.erases_ite (Comp.erases_bind (Comp.erases_silent _) fun _ ↦ erases_sendSignalD SIGTRAP)
      (Comp.erases_pure _)

theorem erases_unhandledD (ctx : Context) : Comp.Erases (unhandledD ctx) (unhandled ctx) :=
  Comp.erases_record (Comp.erases_silent _)

theorem not_fallsThrough {n : Nat} (ctx : Context) (hown : n ∈ ownHandlers)
    (hne : n ≠ NR_clock_gettime) : ¬FallsThrough n ctx := by
  rintro (hfalls | ⟨heq, -⟩)
  · exact hfalls hown
  · exact hne heq

theorem syscallHandler_withUnhandled (env : Environment) (n : Nat) (ctx : Context) :
    syscallHandler env.withUnhandled n ctx =
      if FallsThrough n ctx then unhandled ctx else syscallHandler env n ctx := by
  unfold syscallHandler
  split
  case h_17 => rfl
  all_goals exact (if_neg (not_fallsThrough ctx (by decide) (by decide))).symm

theorem erases_syscallHandlerD (env : Environment) (n : Nat) (ctx : Context) :
    Comp.Erases (syscallHandlerD env n ctx) (syscallHandler env.withUnhandled n ctx) := by
  rw [syscallHandler_withUnhandled]
  exact Comp.erases_record (Comp.erases_ite (erases_unhandledD ctx) (Comp.erases_silent _))

/-- Without its record the dispatch is that of a kernel whose empty slots are `Unhandled`. -/
theorem erases_handleInt80SysCallD (env : Environment) (ctx : Context) :
    Comp.Erases (handleInt80SysCallD env ctx) (handleInt80SysCall env.withUnhandled ctx) := by
  refine Comp.erases_bind (Comp.erases_silent _) fun _ ↦ Comp.erases_ite ?_ ?_
  · refine Comp.erases_record (Comp.erases_bind (erases_stopForPtraceD _ _) fun _ ↦ ?_)
    refine Comp.erases_bind (erases_syscallHandlerD env _ ctx) fun ctx' ↦ ?_
    refine Comp.erases_get fun w ↦ Comp.erases_record ?_
    refine Comp.erases_bind (erases_stopForPtraceD _ _) fun _ ↦ ?_
    refine Comp.erases_bind (Comp.erases_pure ctx') fun ctx' ↦ ?_
    exact Comp.erases_bind (Comp.erases_silent _) fun _ ↦ Comp.erases_pure _
  · refine Comp.erases_bind (erases_unhandledD ctx) fun ctx' ↦ ?_
    exact Comp.erases_bind (Comp.erases_silent _) fun _ ↦ Comp.erases_pure _

/-! ## What is recorded -/

/-- Everything recorded so far is inside its table. -/
def AllInside (items : List Dispatched) : Prop := ∀ e ∈ items, e.Inside

section Inside

variable {α : Type} {x : KD α}

/-- The computation only ever records what is inside its table. -/
def KeepsInside (x : KD α) : Prop := Comp.Leads (fun p ↦ AllInside p.2) x fun p ↦ AllInside p.2

theorem keepsInside_silent (x : K α) : KeepsInside (Comp.silent x) := Comp.leads_silent x

theorem keepsInside_record {items : List Dispatched} (h : AllInside items) :
    KeepsInside (Comp.record items) :=
  Comp.leads_record fun _ hrest ↦ List.forall_mem_append.mpr ⟨h, hrest⟩

theorem keepsInside_note (e : Dispatched) (h : e.Inside) : KeepsInside (Comp.record [e]) :=
  keepsInside_record (List.forall_mem_singleton.mpr h)

theorem keepsInside_pure (a : α) : KeepsInside (Pure.pure a : KD α) := Comp.leads_pure a

theorem keepsInside_ite {c : Prop} [Decidable c] {y : KD α} (hx : KeepsInside x)
    (hy : KeepsInside y) : KeepsInside (if c then x else y) := Comp.leads_ite hx hy

theorem keepsInside_bind {β : Type} {f : α → KD β} (hx : KeepsInside x)
    (hf : ∀ a, KeepsInside (f a)) : KeepsInside (x >>= f) := Comp.leads_bind hx hf fun _ ↦ id

end Inside

theorem keepsInside_handleSignalD (sig : Nat) : KeepsInside (handleSignalD sig) := by
  apply keepsInside_bind (keepsInside_silent _)
  intro w
  apply keepsInside_ite _ (keepsInside_silent _)
  apply keepsInside_bind (keepsInside_silent _)
  intro _
  apply keepsInside_bind (keepsInside_silent _)
  intro _
  apply keepsInside_bind (keepsInside_silent _)
  intro w
  apply keepsInside_bind (keepsInside_note (.stopped _) trivial)
  intro _
  apply keepsInside_bind (keepsInside_silent _)
  intro _
  apply keepsInside_bind (keepsInside_silent _)
  intro w
  exact keepsInside_ite (keepsInside_pure _) (keepsInside_silent _)

theorem keepsInside_stopForPtraceD (seen : Context) (savedEax : DWORD) :
    KeepsInside (stopForPtraceD seen savedEax) := by
  apply keepsInside_bind (keepsInside_silent _)
  intro w
  apply keepsInside_ite _ (keepsInside_pure _)
  apply keepsInside_bind (keepsInside_silent _)
  intro _
  apply keepsInside_bind (keepsInside_silent _)
  intro w
  apply keepsInside_bind (keepsInside_silent _)
  intro _
  apply keepsInside_bind (keepsInside_silent _)
  intro _
  exact keepsInside_bind (keepsInside_handleSignalD SIGTRAP) fun _ ↦ keepsInside_silent _

/-- A number that is not negative as an `int` has a name if it is small as an `int`. -/
theorem keepsInside_unhandledD {ctx : Context} (h : ctx.eax.toNat < 2 ^ 31) :
    KeepsInside (unhandledD ctx) := by
  have heax : ctx.eax.toInt = ctx.eax.toNat := BitVec.toInt_eq_toNat_of_lt (by omega)
  have hname : AllInside (unhandledName ctx) := by
    unfold unhandledName
    split
    · next hsmall =>
      have hinside : (Dispatched.name ctx.eax.toNat).Inside := by
        show ctx.eax.toNat < NR_syscalls
        omega
      exact List.forall_mem_singleton.mpr hinside
    · exact List.forall_mem_nil _
  exact keepsInside_bind (keepsInside_record hname) fun _ ↦ keepsInside_silent _

theorem keepsInside_syscallHandlerD (env : Environment) {ctx : Context}
    (h : ctx.eax.toNat < NR_syscalls) :
    KeepsInside (syscallHandlerD env ctx.eax.toNat ctx) := by
  apply keepsInside_bind (keepsInside_note (.handler _) h)
  intro _
  apply keepsInside_ite _ (keepsInside_silent _)
  apply keepsInside_unhandledD
  exact Nat.lt_trans h (by decide)

theorem keepsInside_handleInt80SysCallD (env : Environment) {ctx : Context}
    (h : ctx.eax.toNat < 2 ^ 31) : KeepsInside (handleInt80SysCallD env ctx) := by
  have hend : ∀ ctx' : Context, KeepsInside (do
      Comp.silent (modifyCur (fun p ↦ { p with ptrace := { p.ptrace with ctxValid := false } }))
      return ctx') := by
    intro ctx'
    exact keepsInside_bind (keepsInside_silent _) fun _ ↦ keepsInside_pure _
  apply keepsInside_bind (keepsInside_silent _)
  intro _
  by_cases hlt : ctx.eax.toNat < NR_syscalls
  · rw [if_pos hlt]
    apply keepsInside_bind (keepsInside_note (.name _) hlt)
    intro _
    apply keepsInside_bind (keepsInside_stopForPtraceD _ _)
    intro _
    apply keepsInside_bind (keepsInside_syscallHandlerD env hlt)
    intro ctx'
    apply keepsInside_bind (keepsInside_silent _)
    intro w
    apply keepsInside_bind (keepsInside_note (.returned _) trivial)
    intro _
    apply keepsInside_bind (keepsInside_stopForPtraceD _ _)
    intro _
    exact keepsInside_bind (keepsInside_pure ctx') hend
  · rw [if_neg hlt]
    exact keepsInside_bind (keepsInside_unhandledD h) hend

/-! ## Stops -/

/-- Telling the tracer changes another process. -/
theorem post_notifyTracer (w : World) :
    Comp.Post notifyTracer w (fun _ w' ↦ w'.cur = w.cur) (fun _ ↦ True) := by
  simp only [notifyTracer, Comp.post_bind, Comp.post_get]
  cases w.findProcess w.cur.ptrace.ownerPid with
  | none => trivial
  | some slot => cases slot <;> trivial

/-- A traced process stops once in `HandleSignal`. -/
theorem post_handleSignalD (sig : Nat) {w : World} (h : w.cur.ptrace.ownerPid ≠ 0#32)
    (items : List Dispatched) :
    Comp.Post (handleSignalD sig) (w, items)
      (fun _ p ↦ p.2 = .stopped w.cur.ptrace.savedEax :: items) (fun _ ↦ True) := by
  simp only [handleSignalD, Comp.post_bind, Comp.post_silent, Comp.post_get, ne_eq, h,
    not_false_eq_true, if_true, post_modifyCur, Comp.post_record, List.singleton_append]
  apply Comp.post_mono (post_notifyTracer _) _ fun _ _ ↦ trivial
  intro _ w₁ hcur
  -- what follows records nothing
  apply Comp.post_of_forall _ fun _ ↦ trivial
  intro _ w₂
  rw [hcur]
  split
  · rfl
  · rw [Comp.post_silent]
    exact Comp.post_of_forall (fun _ _ ↦ rfl) fun _ ↦ trivial

/-- The stop before or after a call is made if the tracer follows system calls, with the number
that was saved for it. -/
theorem post_stopForPtraceD (seen : Context) (savedEax : DWORD) (w : World)
    (items : List Dispatched) :
    Comp.Post (stopForPtraceD seen savedEax) (w, items)
      (fun _ p ↦ p.2 = if Follows w then .stopped savedEax :: items else items)
      (fun _ ↦ True) := by
  simp only [stopForPtraceD, Comp.post_bind, Comp.post_silent, Comp.post_get]
  by_cases hfollows : Follows w
  · simp only [if_pos hfollows, sendSignalD, Comp.post_bind, Comp.post_silent, Comp.post_get,
      post_modifyCur, post_log]
    apply Comp.post_mono (post_handleSignalD SIGTRAP _ items) (fun _ _ hp ↦ hp) fun _ _ ↦ trivial
    exact hfollows.1
  · rw [if_neg hfollows, if_neg hfollows]
    rfl

/-- A handler may look up the name of its number. -/
theorem post_syscallHandlerD (env : Environment) (n : Nat) (ctx : Context) (w : World)
    (items : List Dispatched) :
    Comp.Post (syscallHandlerD env n ctx) (w, items)
      (fun _ p ↦ ∃ names, (∀ e ∈ names, e.isStep = false ∧ e ≠ .returned true) ∧
        p.2 = names ++ .handler n :: items) (fun _ ↦ True) := by
  have hsilent : ∀ (x : K Context) (names : List Dispatched),
      (∀ e ∈ names, e.isStep = false ∧ e ≠ .returned true) →
      Comp.Post (Comp.silent x) (w, names ++ .handler n :: items)
        (fun _ p ↦ ∃ names, (∀ e ∈ names, e.isStep = false ∧ e ≠ .returned true) ∧
          p.2 = names ++ .handler n :: items) (fun _ ↦ True) := by
    intro x names hnames
    rw [Comp.post_silent]
    exact Comp.post_of_forall (fun _ _ ↦ ⟨names, hnames, rfl⟩) fun _ ↦ trivial
  simp only [syscallHandlerD, Comp.post_bind, Comp.post_record, List.singleton_append]
  split
  · apply hsilent (unhandled ctx)
    unfold unhandledName
    split
    · exact List.forall_mem_singleton.mpr ⟨rfl, Dispatched.noConfusion⟩
    · exact List.forall_mem_nil _
  · exact hsilent _ [] (List.forall_mem_nil _)

/-! ## Every number -/

/-- The world after a call that only took the snapshot for a tracer, and gave it back. -/
def snapshot (ctx : Context) (w : World) : World :=
  { w with cur := { w.cur with ptrace := { w.cur.ptrace with ctx := ctx, ctxValid := false } } }

/-- The dispatch of a number uses its tables below their size; a number outside them gives
`-ENOSYS`, and no more than the snapshot for a tracer changes; and when a call returns that a
tracer follows at both ends, it has been stopped for once before and once after the handler, with
the number saved. The newest record comes first. -/
structure SafeDispatch (env : Environment) (ctx : Context) (w : World) : Prop where
  inside : AllInside (handleInt80SysCallD env ctx (w, [])).state.2
  outside : NR_syscalls ≤ ctx.eax.toNat → ∃ items,
    handleInt80SysCallD env ctx (w, []) = .ok (ctx.withEax (-ENOSYS)) (snapshot ctx w, items)
  stops : Follows w → ∀ ctx' w' items,
    handleInt80SysCallD env ctx (w, []) = .ok ctx' (w', items) → .returned true ∈ items →
    items.filter Dispatched.isStep =
      [.stopped ctx.eax, .handler ctx.eax.toNat, .stopped ctx.eax]

theorem handleInt80SysCallD_outside (env : Environment) {ctx : Context} (w : World)
    (h : NR_syscalls ≤ ctx.eax.toNat) :
    handleInt80SysCallD env ctx (w, []) = .ok (ctx.withEax (-ENOSYS))
      (snapshot ctx w, unhandledName ctx ++ []) := by
  unfold handleInt80SysCallD
  rw [if_neg (Nat.not_lt.mpr h)]
  rfl

theorem filter_isStep_names {names : List Dispatched}
    (h : ∀ e ∈ names, e.isStep = false ∧ e ≠ .returned true) :
    names.filter Dispatched.isStep = [] ∧ .returned true ∉ names := by
  constructor
  · apply List.filter_eq_nil_iff.mpr
    intro e he
    rw [(h e he).1]
    exact Bool.false_ne_true
  · exact fun hmem ↦ (h _ hmem).2 rfl

/-- A call that a tracer follows at both ends stops before and after the handler. -/
theorem post_handleInt80SysCallD (env : Environment) {ctx : Context} {w : World}
    (hlt : ctx.eax.toNat < NR_syscalls) (hfollows : Follows w) :
    Comp.Post (handleInt80SysCallD env ctx) (w, [])
      (fun _ p ↦ .returned true ∈ p.2 → p.2.filter Dispatched.isStep =
        [.stopped ctx.eax, .handler ctx.eax.toNat, .stopped ctx.eax]) (fun _ ↦ True) := by
  simp only [handleInt80SysCallD, if_pos hlt, Comp.post_bind, Comp.post_silent, post_modifyCur,
    Comp.post_record, Comp.post_get, Comp.post_pure, List.singleton_append]
  apply Comp.post_mono (post_stopForPtraceD _ _ _ _) _ fun _ _ ↦ trivial
  rintro _ ⟨w₁, items₁⟩ hentry
  obtain rfl : items₁ = [.stopped ctx.eax, .name ctx.eax.toNat] := hentry.trans (if_pos hfollows)
  apply Comp.post_mono (post_syscallHandlerD env _ ctx w₁ _) _ fun _ _ ↦ trivial
  rintro ctx' ⟨w₂, items₂⟩ ⟨names, hnames, hitems⟩
  obtain rfl : items₂ = names ++ .handler ctx.eax.toNat ::
    [.stopped ctx.eax, .name ctx.eax.toNat] := hitems
  apply Comp.post_mono (post_stopForPtraceD _ _ _ _) _ fun _ _ ↦ trivial
  rintro _ ⟨w₃, items₃⟩ hexit hmem
  obtain ⟨hfilter, hnot⟩ := filter_isStep_names hnames
  by_cases hagain : Follows w₂
  · have hlast : items₃ = .stopped ctx.eax :: .returned (decide (Follows w₂)) :: (names ++
        .handler ctx.eax.toNat :: [.stopped ctx.eax, .name ctx.eax.toNat]) :=
      hexit.trans (if_pos hagain)
    show items₃.filter Dispatched.isStep = _
    rw [hlast, List.filter_cons_of_pos rfl, List.filter_cons_of_neg Bool.false_ne_true,
      List.filter_append, hfilter]
    rfl
  · have hlast : items₃ = .returned (decide (Follows w₂)) :: (names ++
        .handler ctx.eax.toNat :: [.stopped ctx.eax, .name ctx.eax.toNat]) :=
      hexit.trans (if_neg hagain)
    have hmem : .returned true ∈ items₃ := hmem
    rw [hlast, decide_eq_false hagain] at hmem
    simp [hnot] at hmem

/-- A number that is negative as an `int` is small, so its name is looked up. -/
theorem not_allInside (env : Environment) {ctx : Context} (w : World)
    (h : 2 ^ 31 ≤ ctx.eax.toNat) :
    ¬AllInside (handleInt80SysCallD env ctx (w, [])).state.2 := by
  intro hinside
  have hout : NR_syscalls ≤ ctx.eax.toNat := Nat.le_trans (by decide) h
  have hsmall : ctx.eax.toInt < NR_syscalls := by
    rw [BitVec.toInt_eq_toNat_cond, if_neg (by omega)]
    have hlt := ctx.eax.isLt
    unfold NR_syscalls
    omega
  rw [handleInt80SysCallD_outside env w hout, unhandledName, if_pos hsmall] at hinside
  exact absurd (hinside (.name ctx.eax.toNat) (List.mem_cons_self ..)) (Nat.not_lt.mpr hout)

/-- Dispatch is safe for the numbers that are not negative as an `int`. -/
theorem safeDispatch_iff (env : Environment) (ctx : Context) (w : World) :
    SafeDispatch env ctx w ↔ ctx.eax.toNat < 2 ^ 31 := by
  constructor
  · intro h
    by_contra hge
    exact not_allInside env w (Nat.not_lt.mp hge) h.inside
  · intro hlt
    constructor
    · exact keepsInside_handleInt80SysCallD env hlt (w, []) (List.forall_mem_nil _)
    · exact fun hout ↦ ⟨_, handleInt80SysCallD_outside env w hout⟩
    · intro hfollows ctx' w' items hrun hmem
      by_cases hin : ctx.eax.toNat < NR_syscalls
      · exact Comp.of_post_ok (post_handleInt80SysCallD env hin hfollows) hrun hmem
      · rw [handleInt80SysCallD_outside env w (Nat.not_lt.mp hin)] at hrun
        obtain ⟨-, hpair⟩ := Result.ok.inj hrun
        obtain ⟨-, rfl⟩ := Prod.mk.inj hpair
        rw [List.append_nil, unhandledName] at hmem
        split at hmem
        · exact absurd (List.mem_singleton.mp hmem) Dispatched.noConfusion
        · exact absurd hmem List.not_mem_nil

/-- `int 80h` with -1 in Eax reads a name in front of the table. -/
theorem not_safeDispatch_negative :
    ¬SafeDispatch idleEnvironment { Context.zero with eax := -1#32 } (loneWorld []) :=
  fun h ↦ not_allInside _ _ (by decide) h.inside

end Keow.Signal
