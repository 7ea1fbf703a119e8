import Keow.Base.Recorder
import Keow.Files.Sharing

/-!
# Calls that look for a free slot

`FindFreeFD` searches the whole table from 0, `Process.cpp:2116–2125`. `F_DUPFD` takes the
slot it finds if it is not above the argument, and `pipe` takes two without looking whether
there are any.
-/

namespace Keow.Files

open Keow.Base Keow.Kernel

variable {ρ : Type} (env : Environment ρ)

/-! ## `F_DUPFD` -/

section Dupfd

open Table

/-- The lowest free descriptor from `arg` on. -/
def lowestFrom {α : Type} (openFiles : Nat → Option α) (arg : Nat) : Option Nat :=
  (List.range MAX_OPEN_FILES).find? fun fd ↦ arg ≤ fd ∧ openFiles fd = none

/-- A call has put a copy of `h` at `fd` and changed nothing else. -/
def Copied (t : Table) (P fd : Nat) (h : Handler) (inheritable : Bool) (eax : DWORD)
    (t' : Table) : Prop :=
  eax = BitVec.ofNat 32 fd ∧
    Moves t t' (fun p i ↦ p = P ∧ i = fd)
      (put t.handlerAt P fd (some { h.copy with inheritable := inheritable }))

/-- What Linux promises of `F_DUPFD` on a descriptor with handler `h`: a copy at the lowest free
descriptor from `arg` on, which an `execve` passes on. -/
structure DupfdFrom (t : Table) (P : Nat) (arg : DWORD) (h : Handler) (eax : DWORD)
    (t' : Table) : Prop where
  refused : arg.toInt < 0 ∨ (MAX_OPEN_FILES : Int) ≤ arg.toInt → eax = -EINVAL ∧ t' = t
  full : 0 ≤ arg.toInt → arg.toInt < (MAX_OPEN_FILES : Int) →
    lowestFrom (t.openFiles P) arg.toNat = none → eax = -EMFILE ∧ t' = t
  copied : 0 ≤ arg.toInt → arg.toInt < (MAX_OPEN_FILES : Int) →
    ∀ fd, lowestFrom (t.openFiles P) arg.toNat = some fd → Copied t P fd h true eax t'

/-- What the comment at `sys_io.cpp:499` announces, `use any fd<=arg`: a copy at the lowest
free descriptor, if that is not above `arg`. The sign of the error and the copy's close-on-exec
flag are left open. -/
structure DupfdUpTo (t : Table) (P : Nat) (arg : DWORD) (h : Handler) (eax : DWORD)
    (t' : Table) : Prop where
  full : lowestFree (t.openFiles P) = none → eax = -EMFILE ∧ t' = t
  above : ∀ fd, lowestFree (t.openFiles P) = some fd → arg.toInt < fd →
    (eax = EINVAL ∨ eax = -EINVAL) ∧ t' = t
  copied : ∀ fd, lowestFree (t.openFiles P) = some fd → (fd : Int) ≤ arg.toInt →
    ∃ inheritable, Copied t P fd h inheritable eax t'

variable {t : Table} {P : Nat} {W : Table → Prop}

theorem onTable_sysFcntl_dupfd (hs : t.Sound) (hP : P < t.processes) {fd : DWORD}
    (hfd : ValidFd fd) {h : Handler} (hopen : t.handlerAt P fd.toNat = some h) (arg : DWORD) :
    OnTable (sysFcntl env P fd F_DUPFD arg) t (DupfdUpTo t P arg h) W := by
  obtain ⟨a, ha, hobject⟩ := slot_of_handlerAt hopen
  apply onTable_withHandler P hfd
  · intro hclosed
    exact absurd (ha.symm.trans hclosed) (Option.some_ne_none a)
  · intro a' ha'
    obtain rfl : a = a' := Option.some.inj (ha.symm.trans ha')
    apply onTable_bind
    apply onTable_deref hobject
    rw [if_neg (by decide), if_neg (by decide), if_neg (by decide), if_neg (by decide),
      if_pos rfl]
    apply onTable_bind
    apply onTable_findFreeFD
    cases hfree : lowestFree (t.openFiles P) with
    | none =>
      apply onTable_pure
      exact ⟨fun _ ↦ ⟨rfl, rfl⟩, fun _ hsome ↦ (nomatch hfree.symm.trans hsome),
        fun _ hsome ↦ (nomatch hfree.symm.trans hsome)⟩
    | some fdnew =>
      have hlowest : ∀ i, lowestFree (t.openFiles P) = some i → i = fdnew :=
        fun i hi ↦ Option.some.inj (hi.symm.trans hfree)
      have hfull : lowestFree (t.openFiles P) ≠ none := hfree ▸ Option.some_ne_none fdnew
      dsimp only
      by_cases habove : arg.toInt < fdnew
      · rw [if_pos habove]
        apply onTable_pure
        refine ⟨fun hnone ↦ absurd hnone hfull, fun _ _ _ ↦ ⟨.inl rfl, rfl⟩, ?_⟩
        intro i hi hle
        obtain rfl := hlowest i hi
        exact absurd hle (Int.not_le.mpr habove)
      · rw [if_neg habove]
        apply onTable_dupfd_lowest env hs hP hfd hfree hopen
        intro t' hmoves
        refine ⟨fun hnone ↦ absurd hnone hfull, ?_, ?_⟩
        · intro i hi hlt
          obtain rfl := hlowest i hi
          exact absurd hlt habove
        · intro i hi _
          obtain rfl := hlowest i hi
          exact ⟨false, rfl, hmoves⟩

/-- `F_DUPFD` on an open descriptor, whatever the argument. -/
theorem sysFcntl_dupfd {w : FileWorld ρ} (hs : w.table.Sound) (hP : P < w.table.processes)
    {fd : DWORD} (hfd : ValidFd fd) {h : Handler} (hopen : w.table.handlerAt P fd.toNat = some h)
    (arg : DWORD) :
    ∃ eax w', sysFcntl env P fd F_DUPFD arg w = .ok eax w' ∧
      DupfdUpTo w.table P arg h eax w'.table :=
  exists_ok_of_onTable (onTable_sysFcntl_dupfd env hs hP hfd hopen arg) rfl

/-- A copy of the first console, no higher than 10. -/
theorem sysFcntl_dupfd_console :
    ∃ eax w', sysFcntl (Environment.idle Unit) 0 0#32 F_DUPFD 10#32
        { table := startTable, rest := ⟨⟩ } = .ok eax w' ∧
      DupfdUpTo startTable 0 10#32 { kind := .ntConsole } eax w'.table :=
  sysFcntl_dupfd (Environment.idle Unit) (w := { table := startTable, rest := ⟨⟩ })
    sound_startTable Nat.one_pos (by simp [ValidFd, MAX_OPEN_FILES]) rfl 10#32

/-- The first process asks for a copy from 10 on and gets descriptor 3. -/
theorem not_dupfdFrom_console :
    ¬∃ eax w', sysFcntl (Environment.idle Unit) 0 0#32 F_DUPFD 10#32
        { table := startTable, rest := ⟨⟩ } = .ok eax w' ∧
      DupfdFrom startTable 0 10#32 { kind := .ntConsole } eax w'.table := by
  rintro ⟨eax, w', hrun, hfrom⟩
  have hzero : ValidFd 0#32 := by simp [ValidFd, MAX_OPEN_FILES]
  obtain ⟨eax', w'', hrun', hup⟩ := exists_ok_of_onTable (onTable_sysFcntl_dupfd
    (Environment.idle Unit) sound_startTable Nat.one_pos hzero rfl 10#32)
    (w := { table := startTable, rest := ⟨⟩ }) rfl
  obtain ⟨rfl, rfl⟩ := Result.ok.inj (hrun.symm.trans hrun')
  obtain ⟨-, heax, -⟩ := hup.copied 3 lowestFree_startTable (by decide)
  cases hfd : lowestFrom (startTable.openFiles 0) (10#32).toNat with
  | none =>
    have hemfile := (hfrom.full (by decide) (by decide) hfd).1
    exact absurd (heax.symm.trans hemfile) (by decide)
  | some fd =>
    have hcopy := (hfrom.copied (by decide) (by decide) fd hfd).1
    have hge := List.find?_some hfd
    have hlt := List.mem_range.mp (List.mem_of_find?_eq_some hfd)
    simp only [decide_eq_true_eq] at hge
    have hge : 10 ≤ fd := hge.1
    have hlt : fd < 1024 := hlt
    have hnat := congrArg BitVec.toNat (heax.symm.trans hcopy)
    rw [BitVec.toNat_ofNat, BitVec.toNat_ofNat] at hnat
    omega

end Dupfd

/-! ## `pipe` -/

section Pipe

open Table

/-- The two ends of a pipe. -/
inductive PipeEnd where
  | read
  | write
deriving DecidableEq

/-- What becomes of the ends: `CreatePipe` opens them, and an `IOHPipe` takes one over,
`IOHPipe.cpp:32–36`. -/
inductive PipeItem where
  | opened (e : PipeEnd)
  | taken (a : Nat) (e : PipeEnd)
deriving DecidableEq

/-- Computations that record it. -/
abbrev FR (ρ : Type) := Comp (FileWorld ρ × List PipeItem)

/-- `new IOHPipe` with the handle of an end. -/
def newPipeR (P : Nat) (e : PipeEnd) : FR ρ Nat := do
  let a ← Comp.silent (newHandler env P .pipe)
  Comp.record [.taken a e]
  return a

/-- The two numbers that are returned, as the user's array holds them. -/
def pipeArray (fd0 fd1 : Int) : List UInt8 :=
  (Codec.word 4).encode (BitVec.ofInt 32 fd0) ++ (Codec.word 4).encode (BitVec.ofInt 32 fd1)

/-- `fds[k] = P->FindFreeFD()` and `P->m_OpenFiles[fds[k]] = new IOHPipe`, before the rest of
the call. -/
def putEndR (P : Nat) (e : PipeEnd) (f : Option Nat → FR ρ DWORD) : FR ρ DWORD := do
  let fd ← Comp.silent (findFreeFD P)
  let ioh ← newPipeR env P e
  Comp.silent (setSlot P (fd.elim (-1 : Int) Int.ofNat) (some ioh))
  f fd

/-- `sys_pipe` once both ends are open, `sys_io.cpp:928–938`. -/
def putEndsR (P : Nat) (address : DWORD) : FR ρ DWORD :=
  putEndR env P .read fun fd0 ↦ putEndR env P .write fun fd1 ↦ do
    Comp.silent (modifyRest (env.writeMemory P address
      (pipeArray (fd0.elim (-1 : Int) Int.ofNat) (fd1.elim (-1 : Int) Int.ofNat))))
    return 0#32

/-- `SysCalls::sys_pipe` with a record of the ends. -/
def sysPipeR (P : Nat) (address : DWORD) : FR ρ DWORD := do
  if ← Comp.silent (outside (env.createPipe P)) then
    Comp.record [.opened .write, .opened .read]
    putEndsR env P address
  else Comp.silent (kernelError env)

theorem erases_newPipe (P : Nat) (e : PipeEnd) :
    Comp.Erases (newPipeR env P e) (newHandler env P .pipe) :=
  Comp.erases_bind (Comp.erases_silent _) fun _ ↦ Comp.erases_record (Comp.erases_pure _)

/-- Without the record it is `sys_pipe`. -/
theorem erases_sysPipe (P : Nat) (address : DWORD) :
    Comp.Erases (sysPipeR env P address) (sysPipe env P address) := by
  refine Comp.erases_bind (Comp.erases_silent _) fun made ↦ ?_
  refine Comp.erases_ite (Comp.erases_record ?_) (Comp.erases_silent _)
  refine Comp.erases_bind (Comp.erases_silent _) fun fd0 ↦ ?_
  refine Comp.erases_bind (erases_newPipe env P .read) fun ioh0 ↦ ?_
  refine Comp.erases_bind (Comp.erases_silent _) fun _ ↦ ?_
  refine Comp.erases_bind (Comp.erases_silent _) fun fd1 ↦ ?_
  refine Comp.erases_bind (erases_newPipe env P .write) fun ioh1 ↦ ?_
  refine Comp.erases_bind (Comp.erases_silent _) fun _ ↦ ?_
  exact Comp.erases_bind (Comp.erases_silent _) fun _ ↦ Comp.erases_pure _

/-! ### What the parts of `pipe` do -/

variable {env} {P : Nat}

theorem newPipeR_eq (e : PipeEnd) (w : FileWorld ρ) (log : List PipeItem) :
    newPipeR env P e (w, log) = .ok w.table.fresh
      ({ w with
          table := w.table.alloc { kind := .pipe }
          rest := env.construct P w.table.fresh .pipe w.rest },
        .taken w.table.fresh e :: log) := rfl

variable (env)

/-- With a free slot the end is put there. -/
theorem putEnd_eq {fd : Nat} {w : FileWorld ρ} (hfree : lowestFree (w.table.openFiles P) = some fd)
    (e : PipeEnd) (f : Option Nat → FR ρ DWORD) (log : List PipeItem) :
    ∃ indexed, putEndR env P e f (w, log) = f (some fd)
      ({ table := w.table.install P fd { kind := .pipe }
         rest := env.construct P w.table.fresh .pipe w.rest
         indexed := indexed }, .taken w.table.fresh e :: log) := by
  obtain ⟨new, -, hfind⟩ := findFreeFD_eq P w
  rw [hfree] at hfind
  refine ⟨(fd : Int) :: (new ++ w.indexed), ?_⟩
  rw [putEndR, Comp.bind_of_ok (Comp.silent_of_ok hfind log), Comp.bind_of_ok (newPipeR_eq e _ log)]
  exact Comp.bind_of_ok (Comp.silent_of_ok (setSlot_eq P (lowestFree_eq_some.mp hfree).1 _ _) _) _

/-- Without one it goes to index -1. -/
theorem putEnd_fault {w : FileWorld ρ} (hfree : lowestFree (w.table.openFiles P) = none)
    (e : PipeEnd) (f : Option Nat → FR ρ DWORD) (log : List PipeItem) :
    ∃ s, putEndR env P e f (w, log) = .fault s := by
  obtain ⟨new, -, hfind⟩ := findFreeFD_eq P w
  rw [hfree] at hfind
  rw [putEndR, Comp.bind_of_ok (Comp.silent_of_ok hfind log), Comp.bind_of_ok (newPipeR_eq e _ log)]
  exact ⟨_, rfl⟩

theorem sysPipeR_eq (address : DWORD) (w : FileWorld ρ) (log : List PipeItem) :
    sysPipeR env P address (w, log) =
      let r := (env.createPipe P w.rest).2
      if (env.createPipe P w.rest).1 = true then
        putEndsR env P address ({ w with rest := r }, .opened .write :: .opened .read :: log)
      else .ok (-win32ErrToUnixError (env.lastError r)) ({ w with rest := r }, log) := by
  have hcreate : (outside (env.createPipe P) : F ρ Bool) w =
      .ok (env.createPipe P w.rest).1 { w with rest := (env.createPipe P w.rest).2 } := rfl
  rw [sysPipeR, Comp.bind_of_ok (Comp.silent_of_ok hcreate log)]
  dsimp only
  split
  · exact Comp.bind_of_ok rfl _
  · rfl

/-! ### Both ends or none -/

/-- Both ends are in the two lowest slots, in objects of their own, and nothing else is
changed. -/
structure Piped (t t' : Table) (P : Nat) (fds : Nat × Nat) (a0 a1 : Nat) : Prop where
  lowest : lowestTwo (t.openFiles P) = some fds
  distinct : fds.1 ≠ fds.2
  slots : ∀ p i, t'.openFiles p i = if p = P ∧ i = fds.1 then some a0
    else if p = P ∧ i = fds.2 then some a1 else t.openFiles p i
  fresh : t.fresh ≤ a0 ∧ a0 < a1
  objects : ∀ b, t'.object b = if b = a0 ∨ b = a1 then some { kind := .pipe } else t.object b

/-- A call of `pipe` returns 0 with both ends in the table and their numbers in the user's array,
or an error with the table as it was and no end open. -/
def AllOrNothing (env : Environment ρ) (P : Nat) (address : DWORD) (w : FileWorld ρ) : Prop :=
  (∃ w' log fds a0 a1, sysPipeR env P address (w, []) = .ok 0#32 (w', log) ∧
    Piped w.table w'.table P fds a0 a1 ∧ .taken a0 .read ∈ log ∧ .taken a1 .write ∈ log ∧
    env.readMemory P address 8 w'.rest = pipeArray fds.1 fds.2) ∨
  ∃ eax w' log, sysPipeR env P address (w, []) = .ok eax (w', log) ∧ eax.toInt < 0 ∧
    w'.table = w.table ∧ (∀ e, .opened e ∉ log) ∧
    (lowestTwo (w.table.openFiles P) = none → eax = -EMFILE)

/-- The rest of the world when both ends have been put away. -/
def restPiped (env : Environment ρ) (P : Nat) (w : FileWorld ρ) : ρ :=
  env.construct P (w.table.fresh + 1) .pipe
    (env.construct P w.table.fresh .pipe (env.createPipe P w.rest).2)

/-- `CreatePipe` fails with an error, which is `EMFILE` if there are no two free slots; or there
are, and the user's array can be written. -/
def PipeFits (env : Environment ρ) (P : Nat) (address : DWORD) (w : FileWorld ρ) : Prop :=
  if (env.createPipe P w.rest).1 = true then
    ∃ fds, lowestTwo (w.table.openFiles P) = some fds ∧
      env.readMemory P address 8 (env.writeMemory P address (pipeArray fds.1 fds.2)
        (restPiped env P w)) = pipeArray fds.1 fds.2
  else
    let err := env.lastError (env.createPipe P w.rest).2
    err ≠ 0#32 ∧ (lowestTwo (w.table.openFiles P) = none → win32ErrToUnixError err = EMFILE)

theorem openFiles_install_self (t : Table) (fd : Nat) :
    (t.install P fd { kind := .pipe }).openFiles P =
      fun i ↦ if i = fd then some t.fresh else t.openFiles P i := by
  funext i
  rw [openFiles_install]
  simp only [true_and]

/-- What is left of `pipe` with the first end put away. -/
def secondEndR (env : Environment ρ) (P : Nat) (address : DWORD) (fd0 : Option Nat) : FR ρ DWORD :=
  putEndR env P .write fun fd1 ↦ do
    Comp.silent (modifyRest (env.writeMemory P address
      (pipeArray (fd0.elim (-1 : Int) Int.ofNat) (fd1.elim (-1 : Int) Int.ofNat))))
    return 0#32

/-- Two free slots take the two ends. -/
theorem putEndsR_eq (address : DWORD) {w : FileWorld ρ} {fds : Nat × Nat}
    (htwo : lowestTwo (w.table.openFiles P) = some fds) (log : List PipeItem) :
    ∃ indexed, putEndsR env P address (w, log) = .ok 0#32
      ({ table := (w.table.install P fds.1 { kind := .pipe }).install P fds.2 { kind := .pipe }
         rest := env.writeMemory P address (pipeArray fds.1 fds.2)
          (env.construct P (w.table.fresh + 1) .pipe (env.construct P w.table.fresh .pipe w.rest))
         indexed := indexed },
        .taken (w.table.fresh + 1) .write :: .taken w.table.fresh .read :: log) := by
  obtain ⟨_, hfirst⟩ := putEnd_eq env (lowestFree_of_lowestTwo htwo) .read
    (secondEndR env P address) log
  obtain ⟨indexed, hsecond⟩ := putEnd_eq env
    (w := { table := w.table.install P fds.1 { kind := .pipe }, rest := _, indexed := _ })
    (by rw [openFiles_install_self]; exact lowestFree_of_taken htwo w.table.fresh) .write _ _
  exact ⟨indexed, hfirst.trans hsecond⟩

/-- Fewer than two run `pipe` out of the table. -/
theorem putEndsR_fault (address : DWORD) {w : FileWorld ρ}
    (htwo : lowestTwo (w.table.openFiles P) = none) (log : List PipeItem) :
    ∃ s, putEndsR env P address (w, log) = .fault s := by
  cases hfree : lowestFree (w.table.openFiles P) with
  | none => exact putEnd_fault env hfree .read _ log
  | some fd =>
    obtain ⟨_, hfirst⟩ := putEnd_eq env hfree .read (secondEndR env P address) log
    obtain ⟨s, hsecond⟩ := putEnd_fault env
      (w := { table := w.table.install P fd { kind := .pipe }, rest := _, indexed := _ })
      (by rw [openFiles_install_self]; exact lowestFree_of_lowestTwo_none htwo hfree _) .write _ _
    exact ⟨s, hfirst.trans hsecond⟩

theorem piped_install {t : Table} {fds : Nat × Nat} (htwo : lowestTwo (t.openFiles P) = some fds) :
    Piped t ((t.install P fds.1 { kind := .pipe }).install P fds.2 { kind := .pipe }) P fds
      t.fresh (t.fresh + 1) := by
  have hne := ne_of_lowestTwo htwo
  refine ⟨htwo, hne.symm, ?_, ⟨Nat.le_refl _, Nat.lt_succ_self _⟩, ?_⟩
  · intro p i
    rw [openFiles_install, openFiles_install]
    by_cases h1 : p = P ∧ i = fds.1
    · rw [if_neg fun h2 ↦ hne (h2.2.symm.trans h1.2), if_pos h1, if_pos h1]
    · rw [if_neg h1, if_neg h1]
      rfl
  · intro b
    rw [object_install, object_install, show (t.install P fds.1 { kind := .pipe }).fresh =
      t.fresh + 1 from rfl]
    by_cases h1 : b = t.fresh + 1
    · rw [if_pos h1, if_pos (.inr h1)]
    · simp only [h1, or_false, if_false]

/-- `pipe` is all or nothing exactly where it fits. -/
theorem sysPipe_allOrNothing_iff (env : Environment ρ) (P : Nat) (address : DWORD)
    (w : FileWorld ρ) : AllOrNothing env P address w ↔ PipeFits env P address w := by
  have hrun := sysPipeR_eq env (P := P) address w []
  dsimp only at hrun
  by_cases hmade : (env.createPipe P w.rest).1 = true
  · rw [if_pos hmade] at hrun
    rw [PipeFits, if_pos hmade]
    cases htwo : lowestTwo (w.table.openFiles P) with
    | none =>
      obtain ⟨s, hfault⟩ := putEndsR_fault env address
        (w := { w with rest := (env.createPipe P w.rest).2 }) htwo [.opened .write, .opened .read]
      rw [hfault] at hrun
      refine iff_of_false ?_ (by simp)
      rintro (⟨w', log, fds, a0, a1, hok, -⟩ | ⟨eax, w', log, hok, -⟩)
      · cases hrun.symm.trans hok
      · cases hrun.symm.trans hok
    | some fds =>
      obtain ⟨indexed, hok⟩ := putEndsR_eq env address
        (w := { w with rest := (env.createPipe P w.rest).2 }) htwo [.opened .write, .opened .read]
      rw [hok] at hrun
      simp only [Option.some.injEq, exists_eq_left']
      constructor
      · rintro (⟨w', log, fds', a0, a1, hok', hpiped, -, -, hread⟩ | ⟨eax, w', log, hok', hneg, -⟩)
        · obtain ⟨-, hstate⟩ := Result.ok.inj (hrun.symm.trans hok')
          obtain rfl : fds = fds' := Option.some.inj (htwo.symm.trans hpiped.lowest)
          rw [← (Prod.mk.inj hstate).1] at hread
          exact hread
        · obtain ⟨rfl, -⟩ := Result.ok.inj (hrun.symm.trans hok')
          exact absurd hneg (by decide)
      · intro hread
        exact .inl ⟨_, _, fds, _, _, hrun, piped_install htwo, by simp, by simp, hread⟩
  · rw [if_neg hmade] at hrun
    rw [PipeFits, if_neg hmade]
    constructor
    · rintro (⟨w', log, fds, a0, a1, hok, hpiped, hread, -⟩
        | ⟨eax, w', log, hok, hneg, -, -, hfull⟩)
      · obtain ⟨-, hstate⟩ := Result.ok.inj (hrun.symm.trans hok)
        rw [← (Prod.mk.inj hstate).2] at hread
        cases hread
      · obtain ⟨rfl, -⟩ := Result.ok.inj (hrun.symm.trans hok)
        exact ⟨(neg_win32ErrToUnixError_neg _).mp hneg, fun htwo ↦ BitVec.neg_inj.mp (hfull htwo)⟩
    · rintro ⟨herr, hfull⟩
      exact .inr ⟨_, _, _, hrun, (neg_win32ErrToUnixError_neg _).mpr herr, rfl, by simp,
        fun htwo ↦ BitVec.neg_inj.mpr (hfull htwo)⟩

/-- A process with descriptors 0 to 1022 in use. -/
def crowdedTable : Table where
  processes := 1
  openFiles p fd := if p = 0 ∧ fd < 1023 then some fd else none
  object a := if a < 1023 then some { kind := .null } else none
  fresh := 1023

theorem lowestTwo_crowdedTable : lowestTwo (crowdedTable.openFiles 0) = none := by
  cases htwo : lowestTwo (crowdedTable.openFiles 0) with
  | none => rfl
  | some fds =>
    have hlast : ∀ fd ∈ (List.range MAX_OPEN_FILES).filter
        fun fd ↦ crowdedTable.openFiles 0 fd = none, fd = 1023 := by
      intro fd hfd
      rw [List.mem_filter, decide_eq_true_eq] at hfd
      have hlt : fd < 1024 := List.mem_range.mp hfd.1
      have hfree : (if 0 = 0 ∧ fd < 1023 then some fd else none) = none := hfd.2
      by_contra hne
      rw [if_pos ⟨rfl, by omega⟩] at hfree
      cases hfree
    obtain ⟨rest, hfilter⟩ := filter_of_lowestTwo htwo
    rw [hfilter] at hlast
    exact absurd ((hlast fds.2 (by simp)).trans (hlast fds.1 (by simp)).symm)
      (ne_of_lowestTwo htwo)

/-- With a single free slot the second end is written to index -1. -/
theorem not_allOrNothing_crowded :
    ¬AllOrNothing (Environment.idle Unit) 0 0x1000#32 { table := crowdedTable, rest := ⟨⟩ } := by
  obtain ⟨s, hfault⟩ := putEndsR_fault (Environment.idle Unit) 0x1000#32
    (w := { table := crowdedTable, rest := ⟨⟩ }) lowestTwo_crowdedTable
    [.opened .write, .opened .read]
  have hrun := sysPipeR_eq (Environment.idle Unit) (P := 0) 0x1000#32
    { table := crowdedTable, rest := ⟨⟩ } []
  have hmade : ((Environment.idle Unit).createPipe 0 ⟨⟩).1 = true := rfl
  dsimp only at hrun
  rw [if_pos hmade] at hrun
  rw [hfault] at hrun
  rintro (⟨w', log, fds, a0, a1, hok, -⟩ | ⟨eax, w', log, hok, -⟩)
  · cases hrun.symm.trans hok
  · cases hrun.symm.trans hok

end Pipe

end Keow.Files
