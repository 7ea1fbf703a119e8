import Keow.Base.Recorder
import Keow.Signal.Termination

/-!
# What ptrace touches

`SysCalls::sys_ptrace`, `sys_sys.cpp:340–481`, with the requests that look into the tracee, and
a record of the processes and threads that it uses and of the words that it reads from the
`linux::user` structure it fills in.
-/

namespace Keow.Signal.Ptrace

open Keow.Base Keow.Kernel

/-! ## The user structure -/

/-- `sizeof(linux::user)`, `linux_types.h:502–527`: the registers, and 216 bytes after them. -/
def sizeofUser : Nat := 284

/-- A `long` of `user_regs_struct`. -/
def long (value : DWORD) : List UInt8 := (Codec.word 4).encode value

/-- A segment register, an `unsigned short`, with the padding after it. -/
def segment (value : DWORD) : List UInt8 := natBytes 2 value.toNat ++ natBytes 2 0

/-- `usr.regs`, `sys_sys.cpp:416–440`. -/
def userRegs (ctx : Context) (savedEax : DWORD) : List UInt8 :=
  long ctx.ebx ++ long ctx.ecx ++ long ctx.edx ++ long ctx.esi ++ long ctx.edi ++ long ctx.ebp ++
  long ctx.eax ++ segment ctx.segDs ++ segment ctx.segEs ++ segment ctx.segFs ++
  segment ctx.segGs ++ long savedEax ++ long ctx.eip ++ segment ctx.segCs ++ long ctx.eFlags ++
  long ctx.esp ++ segment ctx.segSs

/-- `usr`, zero apart from the registers. -/
def user (ctx : Context) (savedEax : DWORD) : List UInt8 :=
  userRegs ctx savedEax ++ List.replicate 216 0

theorem length_user (ctx : Context) (savedEax : DWORD) :
    (user ctx savedEax).length = sizeofUser := by
  simp only [user, userRegs, long, segment, List.length_append, Codec.length_encode,
    length_natBytes, List.length_replicate]
  rfl

/-! ## The call -/

/-- What `sys_ptrace` sees of tracees beyond the kernel's own state. -/
structure Tracees where
  /-- The contexts of the threads in the `m_ThreadList` of a process. -/
  threads : World → Slot → List Context
  /-- `Process::ReadMemory` of a word, if it works. -/
  readMemory : World → Slot → DWORD → Option DWORD

/-- What `sys_ptrace` uses. -/
inductive Item where
  /-- The process that `FindProcess` gave. -/
  | process (found : Option Slot)
  /-- The first thread of its list. -/
  | thread (first : Option Context)
  /-- The word at an offset into `usr`. -/
  | userWord (offset : Nat)

/-- It is there to be used. -/
def Item.Present : Item → Prop
  | .process found => found.isSome
  | .thread first => first.isSome
  | .userWord offset => offset + 4 ≤ sizeofUser

instance : DecidablePred Item.Present := fun i ↦ by
  cases i <;> simp only [Item.Present] <;> infer_instance

/-- The context that `PTRACE_PEEKUSR` looks at, `sys_sys.cpp:392–411`. -/
def tracedContext (p : Process) (thread : Context) : Context :=
  if p.ptrace.ctxValid then p.ptrace.ctx else thread

/-- `PTRACE_PEEKUSR` past its check, `sys_sys.cpp:413–452`. -/
def readUser (p : Process) (thread ctx : Context) : K Context := do
  let usr := user (tracedContext p thread) p.ptrace.savedEax
  if sizeofUser < ctx.edx.toNat + 4 then Comp.fault -- past the end of `usr`
  else
    writeMemory ctx.esi ((usr.drop ctx.edx.toNat).take 4)
    return ctx.withEax 0#32

/-- `PTRACE_PEEKTEXT` and `PTRACE_PEEKDATA`, `sys_sys.cpp:457–470`. -/
def peekData (tr : Tracees) (slot : Slot) (ctx : Context) : K Context := do
  let w ← Comp.get
  match tr.readMemory w slot ctx.edx with
  | none => return ctx.withEax (-EFAULT)
  | some word =>
      writeMemory ctx.esi (long word)
      return ctx.withEax word

/-- The requests that read, and those that are not known, for a tracee with this thread. -/
def peekRequest (tr : Tracees) (slot : Slot) (thread ctx : Context) : K Context := do
  let w ← Comp.get
  if ctx.ebx = PTRACE_PEEKUSR then
    if sizeofUser - 3 < ctx.edx.toNat then return ctx.withEax (-EFAULT)
    else
      match w.at slot with
      | none => Comp.fault
      | some p => readUser p thread ctx
  else if ctx.ebx = PTRACE_PEEKTEXT ∨ ctx.ebx = PTRACE_PEEKDATA then peekData tr slot ctx
  else return ctx.withEax (-ENOSYS)

/-- A computation of the kernel thread with its record. -/
abbrev PR := Comp (World × List Item)

/-- `peekRequest`. -/
def peekRequestR (tr : Tracees) (slot : Slot) (thread ctx : Context) : PR Context := do
  let w ← Comp.silent Comp.get
  if ctx.ebx = PTRACE_PEEKUSR then
    if sizeofUser - 3 < ctx.edx.toNat then return ctx.withEax (-EFAULT)
    else
      match w.at slot with
      | none => Comp.fault
      | some p =>
          Comp.record [.userWord ctx.edx.toNat]
          Comp.silent (readUser p thread ctx)
  else if ctx.ebx = PTRACE_PEEKTEXT ∨ ctx.ebx = PTRACE_PEEKDATA then
    Comp.silent (peekData tr slot ctx)
  else return ctx.withEax (-ENOSYS)

/-- The processes that `SendSignal` looks up: the tracer, if `P` itself is traced and gets the
signal. -/
def lookedUp (w : World) (slot : Slot) : List Item :=
  if slot = .cur ∧ w.cur.ptrace.ownerPid ≠ 0#32 then
    [.process (w.findProcess w.cur.ptrace.ownerPid)]
  else []

theorem notifyTracer_fault {w : World} (hmissing : w.findProcess w.cur.ptrace.ownerPid = none) :
    notifyTracer w = .fault w := by
  rw [notifyTracer, Comp.get_bind, hmissing]
  rfl

theorem handleSignal_fault (sig : Nat) {w : World} (htraced : w.cur.ptrace.ownerPid ≠ 0#32)
    (hmissing : w.findProcess w.cur.ptrace.ownerPid = none) :
    ∃ s, handleSignal sig w = .fault s := by
  rw [handleSignal, Comp.get_bind, if_pos htraced]
  exact ⟨_, Comp.bind_of_fault (notifyTracer_fault (w := { w with cur := { w.cur with
    ptrace := { w.cur.ptrace with newSignal := BitVec.ofNat 32 sig } } }) hmissing) _⟩

/-- `P` uses the tracer that it finds, also if it finds none. -/
theorem sendSignal_fault (sig : Nat) {w : World} (htraced : w.cur.ptrace.ownerPid ≠ 0#32)
    (hmissing : w.findProcess w.cur.ptrace.ownerPid = none) :
    ∃ s, sendSignal .cur sig w = .fault s := by
  obtain ⟨s, hfault⟩ := handleSignal_fault sig
    (w := setCurrentSignal sig (w.withTrace (.raised sig (w.cur.blocks sig)))) htraced hmissing
  exact ⟨s, Comp.bind_of_fault hfault _⟩

/-- The switch over the request. -/
def requestR (tr : Tracees) (slot : Slot) (thread ctx : Context) : PR Context := do
  let request := ctx.ebx
  let data := ctx.esi
  if request = PTRACE_TRACEME then
    Comp.silent (modifyCur (fun p ↦ { p with
      ptrace := { p.ptrace with ownerPid := p.parentPid, request := PTRACE_TRACEME } }))
    return ctx.withEax 0#32
  else if request = PTRACE_SYSCALL ∨ request = PTRACE_CONT then
    Comp.silent (Comp.modify (fun w ↦ w.modifySlot (fun p ↦ { p with ptrace :=
      { p.ptrace with
        request := if request = PTRACE_SYSCALL then PTRACE_SYSCALL else 0#32
        newSignal := if data ≠ 0#32 ∧ data ≠ BitVec.ofNat 32 SIGSTOP then data
          else p.ptrace.newSignal } }) slot))
    return ctx.withEax 0#32
  else if request = PTRACE_KILL then
    let w ← Comp.silent Comp.get
    Comp.record (lookedUp w slot)
    Comp.silent (sendSignal slot SIGKILL)
    return ctx.withEax 0#32
  else peekRequestR tr slot thread ctx

/-- `SysCalls::sys_ptrace` with a record of what it uses. The tracee and its first thread are
fetched before the request is looked at. -/
def sysPtraceR (tr : Tracees) (ctx : Context) : PR Context := do
  let w ← Comp.silent Comp.get
  Comp.record [.process (w.findProcess ctx.ecx)]
  match w.findProcess ctx.ecx with
  | none => Comp.fault
  | some slot =>
      Comp.record [.thread (tr.threads w slot).head?]
      match (tr.threads w slot).head? with
      | none => Comp.fault
      | some thread => requestR tr slot thread ctx

/-! ## Without the record -/

/-- What `sys_ptrace` does for the requests that read. -/
def ptracePeek (tr : Tracees) (ctx : Context) : K Context := do
  let w ← Comp.get
  match w.findProcess ctx.ecx with
  | none => Comp.fault
  | some slot =>
      match (tr.threads w slot).head? with
      | none => Comp.fault
      | some thread => peekRequest tr slot thread ctx

theorem within_readUser (p : Process) (thread ctx : Context) :
    Comp.Within receiving (readUser p thread ctx) :=
  Comp.within_ite Comp.within_fault
    (Comp.within_bind (within_writeMemory _ _) fun _ ↦ Comp.within_pure _)

theorem within_peekData (tr : Tracees) (slot : Slot) (ctx : Context) :
    Comp.Within receiving (peekData tr slot ctx) := by
  refine Comp.within_bind Comp.within_get fun w ↦ ?_
  cases tr.readMemory w slot ctx.edx with
  | none => exact Comp.within_pure _
  | some word => exact Comp.within_bind (within_writeMemory _ _) fun _ ↦ Comp.within_pure _

theorem within_peekRequest (tr : Tracees) (slot : Slot) (thread ctx : Context) :
    Comp.Within receiving (peekRequest tr slot thread ctx) := by
  refine Comp.within_bind Comp.within_get fun w ↦ ?_
  refine Comp.within_ite (Comp.within_ite (Comp.within_pure _) ?_)
    (Comp.within_ite (within_peekData tr slot ctx) (Comp.within_pure _))
  cases w.at slot with
  | none => exact Comp.within_fault
  | some p => exact within_readUser p thread ctx

theorem within_ptracePeek (tr : Tracees) (ctx : Context) :
    Comp.Within receiving (ptracePeek tr ctx) := by
  refine Comp.within_bind Comp.within_get fun w ↦ ?_
  cases w.findProcess ctx.ecx with
  | none => exact Comp.within_fault
  | some slot =>
    dsimp only
    cases (tr.threads w slot).head? with
    | none => exact Comp.within_fault
    | some thread => exact within_peekRequest tr slot thread ctx

/-- The kernel whose `ptrace` looks into these tracees. -/
def withPeek (env : Environment) (tr : Tracees) : Environment :=
  { env with
    ptracePeek := ptracePeek tr
    within_ptracePeek := within_ptracePeek tr }

theorem erases_peekRequest (tr : Tracees) (slot : Slot) (thread ctx : Context) :
    Comp.Erases (peekRequestR tr slot thread ctx) (peekRequest tr slot thread ctx) := by
  refine Comp.erases_bind (Comp.erases_silent _) fun w ↦ ?_
  refine Comp.erases_ite (Comp.erases_ite (Comp.erases_pure _) ?_)
    (Comp.erases_ite (Comp.erases_silent _) (Comp.erases_pure _))
  cases w.at slot with
  | none => exact Comp.erases_fault
  | some p => exact Comp.erases_record (Comp.erases_silent _)

section Found

variable {tr : Tracees} {ctx thread : Context} {w : World} {slot : Slot}

theorem ptracePeek_eq (hfound : w.findProcess ctx.ecx = some slot)
    (hthread : (tr.threads w slot).head? = some thread) :
    ptracePeek tr ctx w = peekRequest tr slot thread ctx w := by
  rw [ptracePeek, Comp.get_bind, hfound]
  dsimp only
  rw [hthread]

/-- A tracee that is not found is used nevertheless. -/
theorem sysPtraceR_missing (hfound : w.findProcess ctx.ecx = none) (log : List Item) :
    sysPtraceR tr ctx (w, log) = .fault (w, .process none :: log) := by
  rw [sysPtraceR, Comp.silent_get_bind,
    hfound]
  rfl

/-- So is a thread, if the tracee has none. -/
theorem sysPtraceR_threadless (hfound : w.findProcess ctx.ecx = some slot)
    (hthread : (tr.threads w slot).head? = none) (log : List Item) :
    sysPtraceR tr ctx (w, log) = .fault (w, .thread none :: .process (some slot) :: log) := by
  rw [sysPtraceR, Comp.silent_get_bind,
    hfound]
  dsimp only
  rw [hthread]
  rfl

theorem sysPtraceR_found (hfound : w.findProcess ctx.ecx = some slot)
    (hthread : (tr.threads w slot).head? = some thread) (log : List Item) :
    sysPtraceR tr ctx (w, log) =
      requestR tr slot thread ctx (w, .thread (some thread) :: .process (some slot) :: log) := by
  rw [sysPtraceR, Comp.silent_get_bind,
    hfound]
  dsimp only
  rw [hthread]
  rfl

/-- Without its record the call is `sys_ptrace`, where the tracees have threads. -/
theorem forget_sysPtraceR (env : Environment)
    (h : ∀ slot, w.findProcess ctx.ecx = some slot → tr.threads w slot ≠ []) (log : List Item) :
    (sysPtraceR tr ctx (w, log)).forget = sysPtrace (withPeek env tr) ctx w := by
  rw [sysPtrace, Comp.get_bind]
  cases hfound : w.findProcess ctx.ecx with
  | none =>
    rw [sysPtraceR_missing hfound]
    rfl
  | some slot =>
    obtain ⟨thread, rest, hthreads⟩ := List.exists_cons_of_ne_nil (h slot hfound)
    have hthread : (tr.threads w slot).head? = some thread := by rw [hthreads]; rfl
    rw [sysPtraceR_found hfound hthread, requestR]
    dsimp only
    split
    · exact Comp.erases_bind (Comp.erases_silent _) (fun _ ↦ Comp.erases_pure _) w _
    · split
      · exact Comp.erases_bind (Comp.erases_silent _) (fun _ ↦ Comp.erases_pure _) w _
      · split
        · exact Comp.erases_bind (Comp.erases_silent _) (fun _ ↦ Comp.erases_pure _) w _
        · exact (erases_peekRequest tr slot thread ctx w _).trans
            (ptracePeek_eq hfound hthread).symm

/-! ## What has to be there -/

theorem userWord_present_iff {addr : DWORD} (h : ¬sizeofUser - 3 < addr.toNat) :
    (Item.userWord addr.toNat).Present ↔ addr ≠ 281#32 := by
  have hle : addr.toNat ≤ 281 := Nat.not_lt.mp h
  constructor
  · rintro hinside rfl
    exact absurd hinside (by decide)
  · intro hne
    have : addr.toNat ≠ 281 := fun heq ↦ hne (BitVec.eq_of_toNat_eq heq)
    change addr.toNat + 4 ≤ 284
    omega

/-- The check of `PTRACE_PEEKUSR` lets one offset through that is too far. -/
theorem recorded_peekRequest {p : Process} (hp : w.at slot = some p) :
    Comp.Recorded Item.Present (peekRequestR tr slot thread ctx) w
      (ctx.ebx = PTRACE_PEEKUSR → ctx.edx ≠ 281#32) := by
  refine Comp.recorded_silent_bind (show Comp.get w = .ok w w from rfl) ?_
  split
  · next husr =>
    split
    · next hfar =>
      refine Comp.recorded_congr (Comp.recorded_pure _) (iff_of_true trivial ?_)
      rintro - heq
      rw [heq] at hfar
      exact absurd hfar (by decide)
    · next hnear =>
      rw [hp]
      refine Comp.recorded_congr (Comp.recorded_record (Comp.recorded_silent _)) ?_
      rw [and_true, List.forall_mem_singleton, userWord_present_iff hnear]
      exact ⟨fun hne _ ↦ hne, fun h ↦ h husr⟩
  · next husr =>
    split
    · exact Comp.recorded_congr (Comp.recorded_silent _)
        (iff_of_true trivial fun h ↦ absurd h husr)
    · exact Comp.recorded_congr (Comp.recorded_pure _)
        (iff_of_true trivial fun h ↦ absurd h husr)

/-- What a request needs of a tracee that is there. -/
def RequestFits (w : World) (slot : Slot) (ctx : Context) : Prop :=
  (ctx.ebx = PTRACE_PEEKUSR → ctx.edx ≠ 281#32) ∧
  (ctx.ebx = PTRACE_KILL → ∀ i ∈ lookedUp w slot, i.Present)

/-- The requests that neither kill nor read. -/
theorem requestFits_of_ne (h : ctx.ebx ≠ PTRACE_PEEKUSR) (h' : ctx.ebx ≠ PTRACE_KILL) :
    RequestFits w slot ctx :=
  ⟨fun heq ↦ absurd heq h, fun heq ↦ absurd heq h'⟩

theorem recorded_request {p : Process} (hp : w.at slot = some p) :
    Comp.Recorded Item.Present (requestR tr slot thread ctx) w (RequestFits w slot ctx) := by
  unfold requestR
  dsimp only
  split
  · next h =>
    refine Comp.recorded_congr (Comp.recorded_silent_pure _ _) (iff_of_true trivial ?_)
    exact requestFits_of_ne (by rw [h]; decide) (by rw [h]; decide)
  · split
    · next h =>
      refine Comp.recorded_congr (Comp.recorded_silent_pure _ _) (iff_of_true trivial ?_)
      rcases h with h | h
      · exact requestFits_of_ne (by rw [h]; decide) (by rw [h]; decide)
      · exact requestFits_of_ne (by rw [h]; decide) (by rw [h]; decide)
    · split
      · next h =>
        refine Comp.recorded_congr (Comp.recorded_silent_bind
          (show Comp.get w = .ok w w from rfl)
          (Comp.recorded_record (Comp.recorded_silent_pure _ _))) ?_
        rw [and_true, RequestFits, h]
        constructor
        · exact fun hlooked ↦ ⟨fun hne ↦ absurd hne (by decide), fun _ ↦ hlooked⟩
        · exact fun hfits ↦ hfits.2 rfl
      · next h =>
        refine Comp.recorded_congr (recorded_peekRequest hp) ?_
        constructor
        · exact fun hpeek ↦ ⟨hpeek, fun heq ↦ absurd heq h⟩
        · exact fun hfits ↦ hfits.1

/-- The tracee is found and has a thread, and the request fits it. -/
def PtraceFits (tr : Tracees) (ctx : Context) (w : World) : Prop :=
  ∃ slot, w.findProcess ctx.ecx = some slot ∧ tr.threads w slot ≠ [] ∧ RequestFits w slot ctx

/-- All that `sys_ptrace` uses is there exactly if the call fits. -/
theorem recorded_sysPtrace (tr : Tracees) (ctx : Context) (w : World) :
    Comp.Recorded Item.Present (sysPtraceR tr ctx) w (PtraceFits tr ctx w) := by
  intro log
  cases hfound : w.findProcess ctx.ecx with
  | none =>
    rw [sysPtraceR_missing hfound]
    refine iff_of_false (fun h ↦ ?_) (fun h ↦ ?_)
    · cases h _ List.mem_cons_self
    · obtain ⟨slot, hslot, -⟩ := h.2
      cases hfound.symm.trans hslot
  | some slot =>
    have hfits : PtraceFits tr ctx w ↔ tr.threads w slot ≠ [] ∧ RequestFits w slot ctx := by
      simp only [PtraceFits, hfound, Option.some.injEq, exists_eq_left']
    rw [hfits]
    cases hthreads : tr.threads w slot with
    | nil =>
      rw [sysPtraceR_threadless hfound (by rw [hthreads]; rfl)]
      refine iff_of_false (fun h ↦ ?_) (fun h ↦ h.2.1 rfl)
      cases h _ List.mem_cons_self
    | cons thread rest =>
      obtain ⟨p, hp, -⟩ := findProcess_spec hfound
      rw [sysPtraceR_found hfound (by rw [hthreads]; rfl), recorded_request hp]
      simp only [List.forall_mem_cons, Item.Present, Option.isSome_some, true_and, ne_eq,
        List.cons_ne_nil, not_false_eq_true]

/-! ## Safety -/

/-- The world with the word at the offset stored where the caller wants it. -/
def storeUserWord (p : Process) (thread ctx : Context) (w : World) : World :=
  let usr := user (tracedContext p thread) p.ptrace.savedEax
  { w with mem := Mem.write w.mem ctx.esi ((usr.drop ctx.edx.toNat).take 4) }

/-- `PTRACE_PEEKUSR` stores a word that lies in the structure, or it fails and changes nothing. -/
inductive PeeksUser (tr : Tracees) (ctx : Context) (w : World) : Prop
  | read (slot : Slot) (p : Process) (thread : Context) (log : List Item)
      (hp : w.at slot = some p) (hpid : p.pid = ctx.ecx)
      (hthread : (tr.threads w slot).head? = some thread)
      (hinside : ctx.edx.toNat + 4 ≤ sizeofUser)
      (hrun : sysPtraceR tr ctx (w, []) =
        .ok (ctx.withEax 0#32) (storeUserWord p thread ctx w, log))
  | failed (err : DWORD) (log : List Item) (herr : err.toInt < 0)
      (hrun : sysPtraceR tr ctx (w, []) = .ok (ctx.withEax err) (w, log))

/-- A call of `ptrace` uses what is there only, works for `PTRACE_TRACEME`, refuses any other
request for a process that is missing, and peeks inside the user structure. -/
structure PtraceSafe (tr : Tracees) (ctx : Context) (w : World) : Prop where
  present : ∀ i ∈ (sysPtraceR tr ctx (w, [])).state.2, i.Present
  traceme : ctx.ebx = PTRACE_TRACEME →
    ∃ w' log, sysPtraceR tr ctx (w, []) = .ok (ctx.withEax 0#32) (w', log) ∧
      w'.cur.ptrace.ownerPid = w.cur.parentPid ∧ w'.cur.ptrace.request = PTRACE_TRACEME
  missing : ctx.ebx ≠ PTRACE_TRACEME → w.findProcess ctx.ecx = none →
    ∃ log, sysPtraceR tr ctx (w, []) = .ok (ctx.withEax (-ESRCH)) (w, log)
  peekusr : ctx.ebx = PTRACE_PEEKUSR → PeeksUser tr ctx w

theorem requestR_traceme (h : ctx.ebx = PTRACE_TRACEME) (log : List Item) :
    requestR tr slot thread ctx (w, log) = .ok (ctx.withEax 0#32)
      ({ w with cur := { w.cur with ptrace := { w.cur.ptrace with
          ownerPid := w.cur.parentPid, request := PTRACE_TRACEME } } }, log) := by
  rw [requestR]
  dsimp only
  rw [if_pos h]
  rfl

theorem requestR_peekusr (h : ctx.ebx = PTRACE_PEEKUSR) (log : List Item) :
    requestR tr slot thread ctx (w, log) = peekRequestR tr slot thread ctx (w, log) := by
  rw [requestR]
  dsimp only
  rw [if_neg (by rw [h]; decide), if_neg (by rw [h]; decide), if_neg (by rw [h]; decide)]

theorem peeksUser_of_ne (hfound : w.findProcess ctx.ecx = some slot)
    (hthread : (tr.threads w slot).head? = some thread) (h : ctx.ebx = PTRACE_PEEKUSR)
    (hne : ctx.edx ≠ 281#32) : PeeksUser tr ctx w := by
  obtain ⟨p, hp, hpid⟩ := findProcess_spec hfound
  have hrun := (sysPtraceR_found hfound hthread []).trans (requestR_peekusr h _)
  rw [peekRequestR, Comp.silent_get_bind,
    if_pos h] at hrun
  split at hrun
  · exact .failed (-EFAULT) _ (by decide) hrun
  · next hnear =>
    have hinside : ctx.edx.toNat + 4 ≤ sizeofUser := (userWord_present_iff hnear).mpr hne
    rw [hp] at hrun
    have hread : readUser p thread ctx w =
        .ok (ctx.withEax 0#32) (storeUserWord p thread ctx w) := by
      rw [readUser, if_neg (Nat.not_lt.mpr hinside)]
      rfl
    exact .read slot p thread _ hp hpid hthread hinside
      (hrun.trans (Comp.silent_of_ok hread _))

end Found

/-- `ptrace` is safe exactly where it fits. -/
theorem sysPtrace_safe_iff (tr : Tracees) (ctx : Context) (w : World) :
    PtraceSafe tr ctx w ↔ PtraceFits tr ctx w := by
  have hpresent : (∀ i ∈ (sysPtraceR tr ctx (w, [])).state.2, i.Present) ↔ PtraceFits tr ctx w :=
    (recorded_sysPtrace tr ctx w []).trans (and_iff_right fun i hi ↦ absurd hi List.not_mem_nil)
  constructor
  · exact fun h ↦ hpresent.mp h.present
  · intro hfits
    obtain ⟨slot, hfound, hthreads, hrequest⟩ := id hfits
    obtain ⟨thread, rest, hcons⟩ := List.exists_cons_of_ne_nil hthreads
    have hthread : (tr.threads w slot).head? = some thread := by rw [hcons]; rfl
    refine ⟨hpresent.mpr hfits, fun h ↦ ?_, fun _ hmissing ↦ ?_, fun h ↦ ?_⟩
    · exact ⟨_, _, (sysPtraceR_found hfound hthread []).trans (requestR_traceme h _), rfl, rfl⟩
    · cases hfound.symm.trans hmissing
    · exact peeksUser_of_ne hfound hthread h (hrequest.1 h)

/-- Each process has one thread, and no memory can be read. -/
def quietTracees : Tracees where
  threads _ _ := [Context.zero]
  readMemory _ _ _ := none

/-- The arguments of a call. -/
def ptraceCall (request pid addr : DWORD) : Context :=
  { Context.zero with ebx := request, ecx := pid, edx := addr }

/-- A request to be traced that names no process, and a word of the last process's structure
that goes one byte too far. -/
theorem not_ptraceSafe :
    ¬PtraceSafe quietTracees (ptraceCall PTRACE_TRACEME 99#32 0#32) (loneWorld []) ∧
    ¬PtraceSafe quietTracees (ptraceCall PTRACE_PEEKUSR 2#32 281#32) (loneWorld []) := by
  constructor
  · intro h
    obtain ⟨w', log, hok, -⟩ := h.traceme rfl
    cases (sysPtraceR_missing (by decide) []).symm.trans hok
  · intro h
    have hword : Item.userWord 281 ∈ (sysPtraceR quietTracees
        (ptraceCall PTRACE_PEEKUSR 2#32 281#32) (loneWorld [], [])).state.2 :=
      List.mem_cons_self
    exact absurd (h.present _ hword) (by decide)

end Keow.Signal.Ptrace
