import Keow.Base.Run
import Keow.Files.Worlds

/-!
# Descriptors by value

Descriptor tables without pointers: a descriptor has a handler of its own or is closed. Every
call moves the real tables as it moves these; so no object is ever shared between slots or used
after it was deleted, whatever the order of the calls.
-/

namespace Keow.Files

open Keow.Base Keow.Kernel

variable {ρ : Type}

/-- A call of a process that makes, changes or gives back descriptors. -/
inductive Call where
  | openFile (path : PathHandler) (access : DWORD)
  | close (fd : DWORD)
  | dup (fd : DWORD)
  | dup2 (fdold fdnew : DWORD)
  | fcntl (fd cmd arg : DWORD)
  | pipe (address : DWORD)
  | fork
  | execve

namespace Call

/-- The handler of a call. What `fork` and `execve` return is not about descriptors. -/
def run (env : Environment ρ) (P : Nat) : Call → F ρ DWORD
  | .openFile path access => sysOpen env P path access
  | .close fd => sysClose env P fd
  | .dup fd => sysDup env P fd
  | .dup2 fdold fdnew => sysDup2 env P fdold fdnew
  | .fcntl fd cmd arg => sysFcntl env P fd cmd arg
  | .pipe address => sysPipe env P address
  | .fork => do
      Files.fork env P
      return 0#32
  | .execve => do
      freeResourcesBeforeExec env P
      return 0#32

/-- The values passed as descriptors. -/
def descriptors : Call → List DWORD
  | .close fd | .dup fd | .fcntl fd _ _ => [fd]
  | .dup2 fdold fdnew => [fdold, fdnew]
  | _ => []

end Call

/-- The two lowest free descriptors of a table. -/
def lowestTwo {α : Type} (openFiles : Nat → Option α) : Option (Nat × Nat) :=
  match (List.range MAX_OPEN_FILES).filter fun fd ↦ openFiles fd = none with
  | fd0 :: fd1 :: _ => some (fd0, fd1)
  | _ => none

/-- The slots are there that the call is to have: two for a `pipe`. -/
def Call.hasSlots (t : Table) (P : Nat) : Call → Bool
  | .pipe _ => (lowestTwo (t.openFiles P)).isSome
  | _ => true

/-- A call of a process that exists, on descriptors of the table, and with two free slots if it
is a `pipe`. -/
def Allowed (t : Table) (P : Nat) (c : Call) : Prop :=
  P < t.processes ∧ (∀ fd ∈ c.descriptors, ValidFd fd) ∧ c.hasSlots t P

instance (t : Table) (P : Nat) (c : Call) : Decidable (Allowed t P c) :=
  inferInstanceAs (Decidable (_ ∧ _ ∧ _))

/-- The slots that a call names: those of the descriptors it is given to change or returns, all of
a new process, and those that an `execve` does not pass on. -/
def Call.Names (t : Table) (P : Nat) (p i : Nat) : Call → Prop
  | .openFile _ _ | .dup _ => p = P ∧ lowestFree (t.openFiles P) = some i
  | .close fd | .dup2 _ fd => p = P ∧ i = fd.toNat
  | .fcntl fd cmd _ => p = P ∧ (i = fd.toNat ∨ cmd = F_DUPFD ∧ lowestFree (t.openFiles P) = some i)
  | .pipe _ => p = P ∧ ∃ fds, lowestTwo (t.openFiles P) = some fds ∧ (i = fds.1 ∨ i = fds.2)
  | .fork => p = t.processes
  | .execve => p = P ∧ ∃ h, t.handlerAt P i = some h ∧ h.inheritable = false

/-- A call that ends the kernel thread: it opens `/proc/<pid>/fd/<n>` of a descriptor that is not in
use. -/
def Call.EndsThread (t : Table) : Call → Prop
  | .openFile path _ => path.EndsThread t
  | _ => False

/-! ## The calls on descriptors by value -/

/-- What `Duplicate` makes of a handler. -/
def Handler.copy (h : Handler) : Handler := { kind := h.kind }

section Value

open Table

variable (D : Nat → Nat → Option Handler) (P : Nat) (eax : DWORD)
  (D' : Nat → Nat → Option Handler)

def CloseValue (fd : DWORD) : Prop :=
  (D P fd.toNat = none ∧ eax = -EBADF ∧ D' = D) ∨
  (D P fd.toNat ≠ none ∧ eax = 0#32 ∧ D' = put D P fd.toNat none)

/-- `dup2`: a copy replaces what is at the new descriptor. -/
def Dup2Value (fdold fdnew : DWORD) : Prop :=
  ((D P fdold.toNat = none ∨ fdnew = fdold) ∧ eax = -EBADF ∧ D' = D) ∨
  ∃ h, D P fdold.toNat = some h ∧ fdnew ≠ fdold ∧ eax = fdnew ∧
    D' = put D P fdnew.toNat (some h.copy)

/-- `dup`: a copy at the lowest free descriptor. -/
def DupValue (fd : DWORD) : Prop :=
  (lowestFree (D P) = none ∧ eax = -EMFILE ∧ D' = D) ∨
  (lowestFree (D P) ≠ none ∧ D P fd.toNat = none ∧ eax = -EBADF ∧ D' = D) ∨
  ∃ fdnew h, lowestFree (D P) = some fdnew ∧ D P fd.toNat = some h ∧
    eax = BitVec.ofNat 32 fdnew ∧ D' = put D P fdnew (some h.copy)

/-- `fcntl` on a descriptor with this handler. -/
def FcntlOpenValue (fd cmd arg : DWORD) (h : Handler) : Prop :=
  if cmd = F_GETFD then eax = (if h.inheritable then 0#32 else 1#32) ∧ D' = D
  else if cmd = F_SETFD then
    eax = 0#32 ∧ D' = put D P fd.toNat (some { h with inheritable := arg = 0#32 })
  else if cmd = F_GETFL then eax = h.flags ∧ D' = D
  else if cmd = F_SETFL then eax = 0#32 ∧ D' = put D P fd.toNat (some { h with flags := arg })
  else if cmd = F_DUPFD then
    (lowestFree (D P) = none ∧ eax = -EMFILE ∧ D' = D) ∨
    ∃ fdnew, lowestFree (D P) = some fdnew ∧
      ((arg.toInt < fdnew ∧ eax = EINVAL ∧ D' = D) ∨
        ((fdnew : Int) ≤ arg.toInt ∧ eax = BitVec.ofNat 32 fdnew ∧
          D' = put D P fdnew (some { h.copy with inheritable := false })))
  else eax = -ENOSYS ∧ D' = D

def FcntlValue (fd cmd arg : DWORD) : Prop :=
  (D P fd.toNat = none ∧ eax = -EBADF ∧ D' = D) ∨
  ∃ h, D P fd.toNat = some h ∧ FcntlOpenValue D P eax D' fd cmd arg h

/-- `fork`: a copy for each open descriptor. -/
def forkValue (child : Nat) : Nat → Nat → Option Handler :=
  fun p i ↦ if p = child then (D P i).map Handler.copy else D p i

/-- `execve`: what is inheritable stays. -/
def execValue : Nat → Nat → Option Handler :=
  fun p i ↦ if p = P then (D P i).filter (·.inheritable) else D p i

end Value

section Value

open Table

variable (env : Environment ρ) (t : Table) (r : ρ) (P : Nat) (eax : DWORD)
  (D' : Nat → Nat → Option Handler)

/-- `open`: without a free slot, without anything at the path, or where `Open` fails, an error; else
a new handler at the lowest free descriptor. -/
def OpenValue (path : PathHandler) (access : DWORD) : Prop :=
  (lowestFree (t.handlerAt P) = none ∧ eax = -EMFILE ∧ D' = t.handlerAt) ∨
  ∃ fd, lowestFree (t.handlerAt P) = some fd ∧
    ((path.origin t = none ∧ eax = - ENXIO ∧ D' = t.handlerAt) ∨
      ∃ o, path.origin t = some o ∧
        (((openResult env P t r o access).1 = false ∧
            eax = -win32ErrToUnixError (env.lastError (openResult env P t r o access).2) ∧
            D' = t.handlerAt) ∨
          ((openResult env P t r o access).1 = true ∧ eax = BitVec.ofNat 32 fd ∧
            D' = put t.handlerAt P fd (some { kind := o.kind }))))

/-- `pipe`: where `CreatePipe` fails, its error; else the two ends at the two lowest free
descriptors. -/
def PipeValue : Prop :=
  ((env.createPipe P r).1 = false ∧
    eax = -win32ErrToUnixError (env.lastError (env.createPipe P r).2) ∧ D' = t.handlerAt) ∨
  ((env.createPipe P r).1 = true ∧ ∃ fds, lowestTwo (t.handlerAt P) = some fds ∧ eax = 0#32 ∧
    D' = put (put t.handlerAt P fds.1 (some { kind := .pipe })) P fds.2 (some { kind := .pipe }))

/-- The result of a call in a world, and the descriptors behind it. -/
def Call.Value : Call → Prop
  | .openFile path access => OpenValue env t r P eax D' path access
  | .close fd => CloseValue t.handlerAt P eax D' fd
  | .dup fd => DupValue t.handlerAt P eax D' fd
  | .dup2 fdold fdnew => Dup2Value t.handlerAt P eax D' fdold fdnew
  | .fcntl fd cmd arg => FcntlValue t.handlerAt P eax D' fd cmd arg
  | .pipe _ => PipeValue env t r P eax D'
  | .fork => D' = forkValue t.handlerAt P t.processes
  | .execve => D' = execValue t.handlerAt P

end Value

/-- A call keeps the invariant, changes the slots it names only, and moves the descriptors as it
moves their values. -/
def Outcome (env : Environment ρ) (t : Table) (r : ρ) (P : Nat) (c : Call) (eax : DWORD)
    (t' : Table) : Prop :=
  ∃ D, c.Value env t r P eax D ∧ Table.Moves t t' (fun p i ↦ c.Names t P p i) D

/-! ## The two lowest free descriptors -/

theorem filter_of_lowestTwo {α : Type} {openFiles : Nat → Option α} {fds : Nat × Nat}
    (h : lowestTwo openFiles = some fds) :
    ∃ rest, ((List.range MAX_OPEN_FILES).filter fun fd ↦ openFiles fd = none) =
      fds.1 :: fds.2 :: rest := by
  unfold lowestTwo at h
  split at h
  · next fd0 fd1 rest heq =>
    rw [← Option.some.inj h]
    exact ⟨rest, heq⟩
  · cases h

theorem lowestFree_of_lowestTwo {α : Type} {openFiles : Nat → Option α} {fds : Nat × Nat}
    (h : lowestTwo openFiles = some fds) : lowestFree openFiles = some fds.1 := by
  obtain ⟨rest, hfilter⟩ := filter_of_lowestTwo h
  rw [lowestFree, ← List.head?_filter, hfilter]
  rfl

theorem lt_of_lowestTwo {α : Type} {openFiles : Nat → Option α} {fds : Nat × Nat}
    (h : lowestTwo openFiles = some fds) : fds.2 < MAX_OPEN_FILES := by
  obtain ⟨rest, hfilter⟩ := filter_of_lowestTwo h
  have hmem : fds.2 ∈ (List.range MAX_OPEN_FILES).filter fun fd ↦ openFiles fd = none := by
    rw [hfilter]
    exact List.mem_cons_of_mem _ List.mem_cons_self
  exact List.mem_range.mp (List.mem_filter.mp hmem).1

theorem ne_of_lowestTwo {α : Type} {openFiles : Nat → Option α} {fds : Nat × Nat}
    (h : lowestTwo openFiles = some fds) : fds.2 ≠ fds.1 := by
  obtain ⟨rest, hfilter⟩ := filter_of_lowestTwo h
  have hnodup : (fds.1 :: fds.2 :: rest).Nodup := by
    rw [← hfilter]
    exact List.nodup_range.filter _
  exact fun heq ↦ (List.nodup_cons.mp hnodup).1 (heq ▸ List.mem_cons_self)

/-- The free descriptors once one is taken. -/
theorem lowestFree_taken {α : Type} (openFiles : Nat → Option α) (fd : Nat) (a : α) :
    lowestFree (fun i ↦ if i = fd then some a else openFiles i) =
      (((List.range MAX_OPEN_FILES).filter fun i ↦ openFiles i = none).filter
        fun i ↦ i ≠ fd).head? := by
  have hboth : (fun i ↦ decide ((if i = fd then some a else openFiles i) = none)) =
      fun i ↦ decide (i ≠ fd) && decide (openFiles i = none) := by
    funext i
    split
    · next hi => simp [hi]
    · next hi => simp [hi]
  rw [lowestFree, ← List.head?_filter, hboth, List.filter_filter]

/-- With the lowest one taken, the other one is the lowest. -/
theorem lowestFree_of_taken {α : Type} {openFiles : Nat → Option α} {fds : Nat × Nat}
    (h : lowestTwo openFiles = some fds) (a : α) :
    lowestFree (fun i ↦ if i = fds.1 then some a else openFiles i) = some fds.2 := by
  obtain ⟨rest, hfilter⟩ := filter_of_lowestTwo h
  have hne := ne_of_lowestTwo h
  rw [lowestFree_taken, hfilter, List.filter_cons_of_neg (by simp),
    List.filter_cons_of_pos (by simpa using hne)]
  rfl

/-- With one taken of fewer than two there is none. -/
theorem lowestFree_of_lowestTwo_none {α : Type} {openFiles : Nat → Option α} {fd : Nat}
    (h : lowestTwo openFiles = none) (hfd : lowestFree openFiles = some fd) (a : α) :
    lowestFree (fun i ↦ if i = fd then some a else openFiles i) = none := by
  rw [lowestFree, ← List.head?_filter] at hfd
  rw [lowestFree_taken]
  unfold lowestTwo at h
  cases hfilter : (List.range MAX_OPEN_FILES).filter fun i ↦ openFiles i = none with
  | nil => rfl
  | cons fd0 rest =>
    rw [hfilter] at h hfd
    obtain rfl : fd0 = fd := Option.some.inj hfd
    cases rest with
    | nil => simp
    | cons fd1 rest => cases h

theorem lowestTwo_handlerAt {t : Table} (hs : t.Sound) (P : Nat) :
    lowestTwo (t.handlerAt P) = lowestTwo (t.openFiles P) := by
  have hsame : (fun fd ↦ decide (t.handlerAt P fd = none)) =
      fun fd ↦ decide (t.openFiles P fd = none) := by
    funext fd
    exact decide_eq_decide.mpr (Table.handlerAt_eq_none hs)
  unfold lowestTwo
  rw [hsame]

/-! ## One call -/

section Outcome

open Table

variable (env : Environment ρ) {P : Nat} {t : Table} {r : ρ} {W : Table → Prop}

theorem handlerAt_of_openFiles (hs : t.Sound) {fd a : Nat} (ha : t.openFiles P fd = some a) :
    ∃ h, t.object a = some h ∧ t.handlerAt P fd = some h := by
  obtain ⟨h, hh⟩ := Option.ne_none_iff_exists'.mp (hs.live ha)
  exact ⟨h, hh, handlerAt_of_slot ha hh⟩

/-- A call that changes nothing. -/
theorem outcome_same (hs : t.Sound) {c : Call} {eax : DWORD}
    (hvalue : c.Value env t r P eax t.handlerAt) : Outcome env t r P c eax t :=
  ⟨t.handlerAt, hvalue, moves_refl hs _⟩

theorem outcome_sysOpen (hs : t.Sound) (hP : P < t.processes) (path : PathHandler)
    (access : DWORD) :
    OnWorld (sysOpen env P path access) t r
      (fun eax t' _ ↦ Outcome env t r P (.openFile path access) eax t')
      (fun t' _ ↦ t' = t ∧ (Call.openFile path access).EndsThread t) := by
  have hvalueFree := lowestFree_handlerAt hs P
  apply onWorld_open env P hs
  · intro hfull
    apply outcome_same env hs
    exact .inl ⟨hvalueFree.trans hfull, rfl, rfl⟩
  · intro fd hfree horigin
    apply outcome_same env hs
    exact .inr ⟨fd, hvalueFree.trans hfree, .inl ⟨horigin, rfl, rfl⟩⟩
  · exact fun hends ↦ ⟨rfl, hends⟩
  · intro fd o hfree horigin hok
    have hfd := (lowestFree_eq_some.mp hfree).1
    have hlive : (t.install P fd { kind := o.kind }).object t.fresh ≠ none := by
      rw [object_install, if_pos rfl]
      exact Option.some_ne_none _
    apply onWorld_moreFlags hlive (J := fun _ ↦ True) (fun _ _ _ _ ↦ trivial) (fun _ _ ↦ trivial)
      trivial
    intro _ _
    refine ⟨_, .inr ⟨fd, hvalueFree.trans hfree, .inr ⟨o, horigin, .inr ⟨hok, rfl, rfl⟩⟩⟩, ?_⟩
    apply moves_mono (moves_install hs hP hfd _)
    rintro p i ⟨rfl, rfl⟩
    exact ⟨rfl, hfree⟩
  · intro fd o hfree horigin hfail
    exact ⟨_, .inr ⟨fd, hvalueFree.trans hfree, .inr ⟨o, horigin, .inl ⟨hfail, rfl, rfl⟩⟩⟩,
      moves_discard hs _ _⟩

theorem onTable_sysClose (hs : t.Sound) {fd : DWORD} (hfd : ValidFd fd) :
    OnTable (sysClose env P fd) t (Outcome env t r P (.close fd)) W := by
  apply onTable_withHandler P hfd
  · intro hclosed
    apply outcome_same env hs
    exact .inl ⟨(handlerAt_eq_none hs).mpr hclosed, rfl, rfl⟩
  · intro a ha
    apply onTable_bind
    apply onTable_deleteHandler env P (hs.live ha)
    rw [toInt_of_validFd hfd]
    apply onTable_bind
    apply onTable_setSlot hfd
    apply onTable_pure
    refine ⟨put t.handlerAt P fd.toNat none, .inr ⟨?_, rfl, rfl⟩, moves_release hs ha⟩
    rw [ne_eq, handlerAt_eq_none hs, ha]
    exact Option.some_ne_none a

/-- What is at the new descriptor of a `dup2` goes. -/
theorem onTable_closeExisting (hs : t.Sound) {fd : Nat}
    (hfd : fd < MAX_OPEN_FILES) {Q : Unit → Table → Prop}
    (h : ∀ t', Moves t t' (fun p i ↦ p = P ∧ i = fd) (put t.handlerAt P fd none) →
      t'.processes = t.processes → Q ⟨⟩ t') :
    OnTable (closeExisting env P fd) t Q W := by
  apply onTable_bind
  apply onTable_slot hfd
  cases ha : t.openFiles P fd with
  | none =>
    apply onTable_pure
    apply h t _ rfl
    rw [put_eq_self ((handlerAt_eq_none hs).mpr ha)]
    exact moves_refl hs _
  | some a =>
    apply onTable_bind
    apply onTable_closeHandler env P (hs.live ha)
    apply onTable_bind
    apply onTable_deleteHandler env P (hs.live ha)
    apply onTable_setSlot hfd
    exact h _ (moves_release hs ha) rfl

/-- Behind the checks of `dup2`, for any two slots. -/
theorem onTable_replace {α : Type} (hs : t.Sound) (hP : P < t.processes)
    {fdold fdnew a : Nat} {h : Handler} (ha : t.openFiles P fdold = some a)
    (hh : t.object a = some h) (hfd : fdnew < MAX_OPEN_FILES) (hne : fdnew ≠ fdold) {x : F ρ α}
    {Q : α → Table → Prop}
    (hx : ∀ t', Moves t t' (fun p i ↦ p = P ∧ i = fdnew)
      (put t.handlerAt P fdnew (some h.copy)) → OnTable x t' Q W) :
    OnTable (do
      closeExisting env P fdnew
      let iohNew ← duplicate env P a
      setSlot P fdnew (some iohNew)
      x) t Q W := by
  apply onTable_bind
  apply onTable_closeExisting env hs hfd
  intro t' hmoves hprocesses
  have hother : ¬(P = P ∧ fdold = fdnew) := fun hold ↦ hne hold.2.symm
  have hkeeps := hmoves.keeps P fdold hother
  apply onTable_bind
  apply onTable_duplicate env P ((hkeeps.2 a ha).trans hh)
  apply onTable_bind
  apply onTable_setSlot hfd
  apply hx
  have hP' : P < t'.processes := hprocesses ▸ hP
  have hinstall := moves_trans hmoves (moves_install hmoves.sound hP' hfd h.copy)
  rwa [hmoves.handlerAt, put_put] at hinstall

theorem onTable_sysDup2 (hs : t.Sound) (hP : P < t.processes) {fdold fdnew : DWORD}
    (hold : ValidFd fdold) (hnew : ValidFd fdnew) :
    OnTable (sysDup2 env P fdold fdnew) t (Outcome env t r P (.dup2 fdold fdnew)) W := by
  apply onTable_withHandler P hold
  · intro hclosed
    apply outcome_same env hs
    exact .inl ⟨.inl ((handlerAt_eq_none hs).mpr hclosed), rfl, rfl⟩
  · intro a ha
    obtain ⟨h, hh, hvalue⟩ := handlerAt_of_openFiles hs ha
    split
    · next hrefused =>
      have hsame : fdnew = fdold := by
        rcases hrefused with hlow | hhigh | hsame
        · exact absurd hnew (refused_iff.mp (.inl hlow)).1
        · exact absurd hnew (refused_iff.mp (.inr hhigh)).1
        · exact hsame
      apply onTable_pure
      apply outcome_same env hs
      exact .inl ⟨.inr hsame, rfl, rfl⟩
    · next hpass =>
      have hne : fdnew ≠ fdold := fun hsame ↦ hpass (.inr (.inr hsame))
      have hneNat : fdnew.toNat ≠ fdold.toNat := fun heq ↦ hne (BitVec.eq_of_toNat_eq heq)
      rw [toInt_of_validFd hnew]
      apply onTable_replace env hs hP ha hh hnew hneNat
      intro t' hmoves
      apply onTable_pure
      exact ⟨_, .inr ⟨h, hvalue, hne, rfl, rfl⟩, hmoves⟩

/-- A `dup2` to the lowest free descriptor, as `dup` and `F_DUPFD` make it. -/
theorem onTable_dup2_lowest {Q : DWORD → Table → Prop} (hs : t.Sound) (hP : P < t.processes)
    {fd : DWORD} (hfd : ValidFd fd) {fdnew : Nat} (hfree : lowestFree (t.openFiles P) = some fdnew)
    (hclosed : ∀ t', t.handlerAt P fd.toNat = none →
      Moves t t' (fun p i ↦ p = P ∧ i = fdnew) t.handlerAt → Q (-EBADF) t')
    (hopen : ∀ h t', t.handlerAt P fd.toNat = some h →
      Moves t t' (fun p i ↦ p = P ∧ i = fdnew) (put t.handlerAt P fdnew (some h.copy)) →
      Q (BitVec.ofNat 32 fdnew) t') :
    OnTable (sysDup2 env P fd (BitVec.ofNat 32 fdnew)) t Q W := by
  obtain ⟨hlt, hnone, -⟩ := lowestFree_eq_some.mp hfree
  have hnat : (BitVec.ofNat 32 fdnew).toNat = fdnew := by
    have hlt : fdnew < 1024 := hlt
    rw [BitVec.toNat_ofNat]
    omega
  apply onTable_of_rest
  intro r
  apply onTable_mono (onTable_sysDup2 env hs hP hfd (validFd_ofNat hlt) (r := r)) ?_ fun _ h ↦ h
  rintro eax t' ⟨D, hvalue, hmoves⟩
  have hN : ∀ p i, (Call.dup2 fd (BitVec.ofNat 32 fdnew)).Names t P p i → p = P ∧ i = fdnew :=
    fun p i hp ↦ ⟨hp.1, hp.2.trans hnat⟩
  rcases hvalue with ⟨hrefused, rfl, rfl⟩ | ⟨h, hh, -, rfl, rfl⟩
  · apply hclosed t' _ (moves_mono hmoves hN)
    rcases hrefused with hold | hsame
    · exact hold
    · rw [← hsame, hnat]
      exact (handlerAt_eq_none hs).mpr hnone
  · rw [hnat] at hmoves
    exact hopen h t' hh (moves_mono hmoves hN)

/-- `F_DUPFD` on an open descriptor, from where the new one is known to be free. -/
theorem onTable_dupfd_lowest {Q : DWORD → Table → Prop} (hs : t.Sound) (hP : P < t.processes)
    {fd : DWORD} (hfd : ValidFd fd) {fdnew : Nat} (hfree : lowestFree (t.openFiles P) = some fdnew)
    {h : Handler} (hopen : t.handlerAt P fd.toNat = some h)
    (hcopied : ∀ t', Moves t t' (fun p i ↦ p = P ∧ i = fdnew)
        (put t.handlerAt P fdnew (some { h.copy with inheritable := false })) →
      Q (BitVec.ofNat 32 fdnew) t') :
    OnTable (do
      let eax ← sysDup2 env P fd (BitVec.ofNat 32 fdnew)
      match ← slot P fdnew with
      | none => Comp.exit
      | some iohNew =>
          let hNew ← deref iohNew
          modifyTable fun t ↦ t.setObject iohNew (some { hNew with inheritable := false })
          return eax) t Q W := by
  apply onTable_bind
  apply onTable_dup2_lowest env hs hP hfd hfree
  · intro t' hclosed
    exact absurd (hopen.symm.trans hclosed) (Option.some_ne_none h)
  · intro h' t' hh' hmoves
    obtain rfl : h = h' := Option.some.inj (hopen.symm.trans hh')
    have hnew : t'.handlerAt P fdnew = some h.copy := by
      rw [hmoves.handlerAt]
      exact if_pos ⟨rfl, rfl⟩
    obtain ⟨b, hb, hobject⟩ := slot_of_handlerAt hnew
    apply onTable_bind
    apply onTable_slot (lowestFree_eq_some.mp hfree).1
    rw [hb]
    apply onTable_bind
    apply onTable_deref hobject
    apply onTable_bind
    apply onTable_modifyTable
    apply onTable_pure
    exact hcopied _ (moves_put_setObject hmoves hb _)

theorem onTable_sysDup (hs : t.Sound) (hP : P < t.processes) {fd : DWORD} (hfd : ValidFd fd) :
    OnTable (sysDup env P fd) t (Outcome env t r P (.dup fd)) W := by
  unfold sysDup
  apply onTable_bind
  apply onTable_findFreeFD
  cases hfree : lowestFree (t.openFiles P) with
  | none =>
    apply onTable_pure
    apply outcome_same env hs
    exact .inl ⟨(lowestFree_handlerAt hs P).trans hfree, rfl, rfl⟩
  | some fdnew =>
    have hvalueFree : lowestFree (t.handlerAt P) = some fdnew :=
      (lowestFree_handlerAt hs P).trans hfree
    have hnames : ∀ p i, p = P ∧ i = fdnew → (Call.dup fd).Names t P p i := by
      rintro p i ⟨rfl, rfl⟩
      exact ⟨rfl, hfree⟩
    apply onTable_dup2_lowest env hs hP hfd hfree
    · intro t' hclosed hmoves
      refine ⟨_, .inr (.inl ⟨?_, hclosed, rfl, rfl⟩), moves_mono hmoves hnames⟩
      exact hvalueFree ▸ Option.some_ne_none _
    · intro h t' hh hmoves
      exact ⟨_, .inr (.inr ⟨fdnew, h, hvalueFree, hh, rfl, rfl⟩), moves_mono hmoves hnames⟩

theorem onTable_sysFcntl (hs : t.Sound) (hP : P < t.processes) {fd : DWORD} (hfd : ValidFd fd)
    (cmd arg : DWORD) :
    OnTable (sysFcntl env P fd cmd arg) t (Outcome env t r P (.fcntl fd cmd arg)) W := by
  apply onTable_withHandler P hfd
  · intro hclosed
    apply outcome_same env hs
    exact .inl ⟨(handlerAt_eq_none hs).mpr hclosed, rfl, rfl⟩
  · intro a ha
    obtain ⟨h, hh, hvalue⟩ := handlerAt_of_openFiles hs ha
    -- what is left to show of each command
    have hcase : ∀ eax D t', FcntlOpenValue t.handlerAt P eax D fd cmd arg h →
        Moves t t' (fun p i ↦ (Call.fcntl fd cmd arg).Names t P p i) D →
        Outcome env t r P (.fcntl fd cmd arg) eax t' :=
      fun eax D t' hopen hmoves ↦ ⟨D, .inr ⟨h, hvalue, hopen⟩, hmoves⟩
    have hset : ∀ h', Moves t (t.setObject a (some h'))
        (fun p i ↦ (Call.fcntl fd cmd arg).Names t P p i) (put t.handlerAt P fd.toNat (some h')) :=
      fun h' ↦ moves_mono (moves_setObject hs ha h') fun p i hp ↦ ⟨hp.1, .inl hp.2⟩
    unfold FcntlOpenValue at hcase
    apply onTable_bind
    apply onTable_deref hh
    by_cases hgetfd : cmd = F_GETFD
    · rw [if_pos hgetfd]
      simp only [if_pos hgetfd] at hcase
      apply onTable_pure
      exact hcase _ _ t ⟨rfl, rfl⟩ (moves_refl hs _)
    by_cases hsetfd : cmd = F_SETFD
    · rw [if_neg hgetfd, if_pos hsetfd]
      simp only [if_neg hgetfd, if_pos hsetfd] at hcase
      apply onTable_bind
      apply onTable_modifyTable
      apply onTable_pure
      exact hcase _ _ _ ⟨rfl, rfl⟩ (hset _)
    by_cases hgetfl : cmd = F_GETFL
    · rw [if_neg hgetfd, if_neg hsetfd, if_pos hgetfl]
      simp only [if_neg hgetfd, if_neg hsetfd, if_pos hgetfl] at hcase
      apply onTable_pure
      exact hcase _ _ t ⟨rfl, rfl⟩ (moves_refl hs _)
    by_cases hsetfl : cmd = F_SETFL
    · rw [if_neg hgetfd, if_neg hsetfd, if_neg hgetfl, if_pos hsetfl]
      simp only [if_neg hgetfd, if_neg hsetfd, if_neg hgetfl, if_pos hsetfl] at hcase
      apply onTable_bind
      apply onTable_modifyTable
      apply onTable_pure
      exact hcase _ _ _ ⟨rfl, rfl⟩ (hset _)
    rw [if_neg hgetfd, if_neg hsetfd, if_neg hgetfl, if_neg hsetfl]
    simp only [if_neg hgetfd, if_neg hsetfd, if_neg hgetfl, if_neg hsetfl] at hcase
    by_cases hdupfd : cmd = F_DUPFD
    · rw [if_pos hdupfd]
      simp only [if_pos hdupfd] at hcase
      apply onTable_bind
      apply onTable_findFreeFD
      cases hfree : lowestFree (t.openFiles P) with
      | none =>
        apply onTable_pure
        exact hcase _ _ t (.inl ⟨(lowestFree_handlerAt hs P).trans hfree, rfl, rfl⟩)
          (moves_refl hs _)
      | some fdnew =>
        have hvalueFree := (lowestFree_handlerAt hs P).trans hfree
        dsimp only
        split
        · next harg =>
          apply onTable_pure
          exact hcase _ _ t (.inr ⟨fdnew, hvalueFree, .inl ⟨harg, rfl, rfl⟩⟩) (moves_refl hs _)
        · next harg =>
          apply onTable_dupfd_lowest env hs hP hfd hfree hvalue
          intro t' hmoves
          apply hcase _ _ _
            (.inr ⟨fdnew, hvalueFree, .inr ⟨Int.not_lt.mp harg, rfl, rfl⟩⟩)
          apply moves_mono hmoves
          rintro p i ⟨rfl, rfl⟩
          exact ⟨rfl, .inr ⟨hdupfd, hfree⟩⟩
    · rw [if_neg hdupfd]
      simp only [if_neg hdupfd] at hcase
      apply onTable_pure
      exact hcase _ _ t ⟨rfl, rfl⟩ (moves_refl hs _)

/-- `sys_pipe` with two free slots, in the two cases that end it. -/
theorem onWorld_pipe {fds : Nat × Nat} (hfree : lowestTwo (t.openFiles P) = some fds)
    (address : DWORD) {Q : DWORD → Table → ρ → Prop} {W : Table → ρ → Prop}
    (hmade : (env.createPipe P r).1 = true →
      Q 0#32 ((t.install P fds.1 { kind := .pipe }).install P fds.2 { kind := .pipe })
        (env.writeMemory P address
          ((Codec.word 4).encode (BitVec.ofInt 32 fds.1) ++
            (Codec.word 4).encode (BitVec.ofInt 32 fds.2))
          (env.construct P (t.fresh + 1) .pipe
            (env.construct P t.fresh .pipe (env.createPipe P r).2))))
    (hfailed : (env.createPipe P r).1 = false →
      Q (-win32ErrToUnixError (env.lastError (env.createPipe P r).2)) t (env.createPipe P r).2) :
    OnWorld (sysPipe env P address) t r Q W := by
  have hfirst := lowestFree_of_lowestTwo hfree
  have hsecond : lowestFree ((t.install P fds.1 { kind := .pipe }).openFiles P) = some fds.2 := by
    have hrow : (t.install P fds.1 { kind := .pipe }).openFiles P =
        fun i ↦ if i = fds.1 then some t.fresh else t.openFiles P i := by
      funext i
      rw [openFiles_install]
      simp only [true_and]
    rw [hrow]
    exact lowestFree_of_taken hfree t.fresh
  have hlt₁ := (lowestFree_eq_some.mp hfirst).1
  have hlt₂ := (lowestFree_eq_some.mp hsecond).1
  unfold sysPipe
  apply onWorld_bind
  apply onWorld_outside
  cases hcreated : (env.createPipe P r).1 with
  | true =>
    simp only [if_true]
    apply onWorld_bind
    apply onWorld_findFreeFD
    rw [hfirst]
    apply onWorld_bind
    apply onWorld_newHandler
    apply onWorld_bind
    apply onWorld_setSlot hlt₁
    apply onWorld_bind
    apply onWorld_findFreeFD
    rw [show ((t.alloc { kind := .pipe }).setSlot P fds.1 (some t.fresh)) =
      t.install P fds.1 { kind := .pipe } from rfl, hsecond]
    apply onWorld_bind
    apply onWorld_newHandler
    apply onWorld_bind
    apply onWorld_setSlot hlt₂
    apply onWorld_bind
    apply onWorld_modifyRest
    exact onWorld_pure (hmade hcreated)
  | false =>
    simp only [Bool.false_eq_true, if_false]
    apply onWorld_kernelError
    exact hfailed hcreated

theorem outcome_sysPipe (hs : t.Sound) (hP : P < t.processes) {fds : Nat × Nat}
    (hfree : lowestTwo (t.openFiles P) = some fds) (address : DWORD) {W : Table → ρ → Prop} :
    OnWorld (sysPipe env P address) t r
      (fun eax t' _ ↦ Outcome env t r P (.pipe address) eax t') W := by
  have hlt₁ := (lowestFree_eq_some.mp (lowestFree_of_lowestTwo hfree)).1
  have hlt₂ := lt_of_lowestTwo hfree
  apply onWorld_pipe env hfree
  · intro hmade
    have hmoves₁ := moves_install hs hP hlt₁ { kind := .pipe }
    have hmoves₂ := moves_install hmoves₁.sound hP hlt₂ { kind := .pipe }
    rw [hmoves₁.handlerAt] at hmoves₂
    refine ⟨_, .inr ⟨hmade, fds, (lowestTwo_handlerAt hs P).trans hfree, rfl, rfl⟩, ?_⟩
    apply moves_trans (moves_mono hmoves₁ _) (moves_mono hmoves₂ _)
    · rintro p i ⟨rfl, rfl⟩
      exact ⟨rfl, fds, hfree, .inl rfl⟩
    · rintro p i ⟨rfl, rfl⟩
      exact ⟨rfl, fds, hfree, .inr rfl⟩
  · intro hfailed
    apply outcome_same env hs
    exact .inl ⟨hfailed, rfl, rfl⟩

/-! ### Loops over a table -/

/-- The clones made so far of some slots. -/
def cloned (D : Nat → Nat → Option Handler) (P child : Nat) (fds : List Nat) :
    Nat → Nat → Option Handler :=
  fun p i ↦ if p = child ∧ i ∈ fds ∧ D P i ≠ none then (D P i).map Handler.copy else D p i

theorem cloned_cons_none {D : Nat → Nat → Option Handler} {child fd : Nat} (h : D P fd = none)
    (fds : List Nat) : cloned D P child (fd :: fds) = cloned D P child fds := by
  funext p i
  unfold cloned
  by_cases hi : i = fd
  · subst hi
    rw [if_neg (fun hc ↦ hc.2.2 h), if_neg (fun hc ↦ hc.2.2 h)]
  · simp only [List.mem_cons, hi, false_or]

theorem cloned_cons_some {D : Nat → Nat → Option Handler} {child fd : Nat} {h : Handler}
    (hne : P ≠ child) (hh : D P fd = some h) (fds : List Nat) :
    cloned D P child (fd :: fds) = cloned (put D child fd (some h.copy)) P child fds := by
  have hparent : ∀ i, put D child fd (some h.copy) P i = D P i := fun i ↦ if_neg (hne ·.1)
  funext p i
  unfold cloned
  rw [hparent]
  by_cases hfds : p = child ∧ i ∈ fds ∧ D P i ≠ none
  · rw [if_pos hfds, if_pos ⟨hfds.1, List.mem_cons_of_mem fd hfds.2.1, hfds.2.2⟩]
  · rw [if_neg hfds]
    unfold put
    by_cases hslot : p = child ∧ i = fd
    · obtain ⟨rfl, rfl⟩ := hslot
      rw [if_pos ⟨rfl, List.mem_cons_self, hh ▸ Option.some_ne_none h⟩, if_pos ⟨rfl, rfl⟩, hh,
        Option.map_some]
    · rw [if_neg hslot, if_neg]
      rintro ⟨hp, hi, hsome⟩
      rcases List.mem_cons.mp hi with hi | hi
      · exact hslot ⟨hp, hi⟩
      · exact hfds ⟨hp, hi, hsome⟩

theorem onTable_forkFiles {child : Nat} (hs : t.Sound) (hchild : child < t.processes)
    (hne : P ≠ child) {fds : List Nat} (hfds : ∀ fd ∈ fds, fd < MAX_OPEN_FILES)
    {Q : Unit → Table → Prop}
    (h : ∀ t', Moves t t' (fun p _ ↦ p = child) (cloned t.handlerAt P child fds) → Q ⟨⟩ t') :
    OnTable (forkFiles env P child fds) t Q W := by
  induction fds generalizing t with
  | nil =>
    apply onTable_pure
    apply h
    have hsame : cloned t.handlerAt P child [] = t.handlerAt := by
      funext p i
      exact if_neg (fun hc ↦ List.not_mem_nil hc.2.1)
    rw [hsame]
    exact moves_refl hs _
  | cons fd fds ih =>
    have hfd := hfds fd List.mem_cons_self
    have hrest : ∀ i ∈ fds, i < MAX_OPEN_FILES := fun i hi ↦ hfds i (List.mem_cons_of_mem fd hi)
    apply onTable_bind
    apply onTable_bind
    apply onTable_slot hfd
    cases ha : t.openFiles P fd with
    | none =>
      apply onTable_pure
      apply ih hs hchild hrest
      intro t' hmoves
      apply h
      rwa [cloned_cons_none ((handlerAt_eq_none hs).mpr ha)]
    | some a =>
      obtain ⟨hd, hhd, hvalue⟩ := handlerAt_of_openFiles hs ha
      apply onTable_bind
      apply onTable_duplicate env child hhd
      apply onTable_setSlot hfd
      have hinstall := moves_install hs hchild hfd hd.copy
      apply ih hinstall.sound hchild hrest
      intro t' hmoves
      apply h
      rw [hinstall.handlerAt, ← cloned_cons_some hne hvalue] at hmoves
      exact moves_trans (moves_mono hinstall fun p i hp ↦ hp.1) hmoves

theorem onTable_fork (hs : t.Sound) (hP : P < t.processes) :
    OnTable (Call.fork.run env P) t (Outcome env t r P .fork) W := by
  have hsplit := moves_processes hs fun p _ ↦ p = t.processes
  apply onTable_bind
  apply onTable_get
  rintro w rfl
  apply onTable_bind
  apply onTable_modifyTable
  apply onTable_forkFiles env hsplit.sound (Nat.lt_succ_self _) (Nat.ne_of_lt hP)
    (fun fd hfd ↦ List.mem_range.mp hfd)
  intro t' hmoves
  apply onTable_pure
  refine ⟨_, rfl, ?_⟩
  have hvalue : cloned w.table.handlerAt P w.table.processes (List.range MAX_OPEN_FILES) =
      forkValue w.table.handlerAt P w.table.processes := by
    funext p i
    unfold cloned forkValue
    by_cases hp : p = w.table.processes
    · rw [if_pos hp]
      cases hD : w.table.handlerAt P i with
      | none =>
        rw [if_neg (fun hc ↦ hc.2.2 rfl), Option.map_none, handlerAt_eq_none hs]
        by_contra hopen
        obtain ⟨a, ha⟩ := Option.ne_none_iff_exists'.mp hopen
        exact absurd (hs.within ha).1 (by omega)
      | some h =>
        obtain ⟨a, ha, -⟩ := slot_of_handlerAt hD
        have hi := List.mem_range.mpr (hs.within ha).2
        rw [if_pos ⟨hp, hi, Option.some_ne_none h⟩]
    · rw [if_neg (fun hc ↦ hp hc.1), if_neg hp]
  rw [hsplit.handlerAt, hvalue] at hmoves
  exact moves_trans hsplit hmoves

/-- What is left of some slots of `P` by `execve`. -/
def kept (D : Nat → Nat → Option Handler) (P : Nat) (fds : List Nat) :
    Nat → Nat → Option Handler :=
  fun p i ↦ if p = P ∧ i ∈ fds then (D p i).filter (·.inheritable) else D p i

theorem kept_cons (D : Nat → Nat → Option Handler) (fd : Nat) (fds : List Nat) :
    kept D P (fd :: fds) = kept (put D P fd ((D P fd).filter (·.inheritable))) P fds := by
  funext p i
  unfold kept put
  by_cases hslot : p = P ∧ i = fd
  · obtain ⟨rfl, rfl⟩ := hslot
    rw [if_pos ⟨rfl, List.mem_cons_self⟩]
    split
    · rw [if_pos ⟨rfl, rfl⟩, Option.filter_filter]
      simp only [Bool.and_self]
    · rw [if_pos ⟨rfl, rfl⟩]
  · rw [if_neg hslot]
    congr 1
    simp only [List.mem_cons, eq_iff_iff]
    constructor
    · rintro ⟨hp, hi | hi⟩
      · exact absurd ⟨hp, hi⟩ hslot
      · exact ⟨hp, hi⟩
    · exact fun h ↦ ⟨h.1, .inr h.2⟩

theorem onTable_releaseFile (hs : t.Sound) {fd : Nat} (hfd : fd < MAX_OPEN_FILES)
    {Q : Unit → Table → Prop}
    (h : ∀ t', Moves t t' (fun p i ↦ Call.execve.Names t P p i)
      (put t.handlerAt P fd ((t.handlerAt P fd).filter (·.inheritable))) → Q ⟨⟩ t') :
    OnTable (releaseFile env P fd) t Q W := by
  apply onTable_bind
  apply onTable_slot hfd
  cases ha : t.openFiles P fd with
  | none =>
    apply onTable_pure
    apply h
    rw [put_eq_self (by rw [(handlerAt_eq_none hs).mpr ha]; rfl)]
    exact moves_refl hs _
  | some a =>
    obtain ⟨hd, hhd, hvalue⟩ := handlerAt_of_openFiles hs ha
    apply onTable_bind
    apply onTable_deref hhd
    by_cases hinherit : hd.inheritable = true
    · rw [if_neg (not_not.mpr hinherit)]
      apply onTable_pure
      apply h
      rw [put_eq_self (by rw [hvalue, Option.filter_some, if_pos hinherit])]
      exact moves_refl hs _
    · rw [if_pos hinherit]
      apply onTable_bind
      apply onTable_closeHandler env P (hs.live ha)
      apply onTable_bind
      apply onTable_deleteHandler env P (hs.live ha)
      apply onTable_setSlot hfd
      apply h
      rw [hvalue, Option.filter_some, if_neg hinherit]
      apply moves_mono (moves_release hs ha)
      rintro p i ⟨rfl, rfl⟩
      exact ⟨rfl, hd, hvalue, Bool.not_eq_true _ ▸ hinherit⟩

theorem onTable_releaseFiles (hs : t.Sound) {fds : List Nat}
    (hfds : ∀ fd ∈ fds, fd < MAX_OPEN_FILES) {Q : Unit → Table → Prop}
    (h : ∀ t', Moves t t' (fun p i ↦ Call.execve.Names t P p i) (kept t.handlerAt P fds) →
      Q ⟨⟩ t') :
    OnTable (releaseFiles env P fds) t Q W := by
  induction fds generalizing t with
  | nil =>
    apply onTable_pure
    apply h
    have hsame : kept t.handlerAt P [] = t.handlerAt := by
      funext p i
      exact if_neg (fun hc ↦ List.not_mem_nil hc.2)
    rw [hsame]
    exact moves_refl hs _
  | cons fd fds ih =>
    apply onTable_bind
    apply onTable_releaseFile env hs (hfds fd List.mem_cons_self)
    intro t₁ hmoves₁
    apply ih hmoves₁.sound fun i hi ↦ hfds i (List.mem_cons_of_mem fd hi)
    intro t₂ hmoves₂
    apply h
    rw [hmoves₁.handlerAt, ← kept_cons] at hmoves₂
    apply moves_trans hmoves₁ (moves_mono hmoves₂ _)
    -- what is not inheritable now was not before
    rintro p i ⟨rfl, hd, hvalue, hinherit⟩
    refine ⟨rfl, hd, ?_, hinherit⟩
    rw [hmoves₁.handlerAt] at hvalue
    unfold put at hvalue
    split at hvalue
    · next hslot =>
      rw [hslot.2]
      exact (Option.filter_eq_some_iff.mp hvalue).1
    · exact hvalue

theorem onTable_execve (hs : t.Sound) :
    OnTable (Call.execve.run env P) t (Outcome env t r P .execve) W := by
  simp only [Call.run, freeResourcesBeforeExec]
  apply onTable_bind
  apply onTable_releaseFiles env hs fun fd hfd ↦ List.mem_range.mp hfd
  intro t' hmoves
  apply onTable_pure
  have hvalue : kept t.handlerAt P (List.range MAX_OPEN_FILES) = execValue t.handlerAt P := by
    funext p i
    unfold kept execValue
    by_cases hp : p = P
    · rw [if_pos hp]
      split
      · rw [hp]
      · next hrange =>
        subst hp
        cases hD : t.handlerAt p i with
        | none => rfl
        | some h =>
          obtain ⟨a, ha, -⟩ := slot_of_handlerAt hD
          exact absurd ⟨rfl, List.mem_range.mpr (hs.within ha).2⟩ hrange
    · rw [if_neg hp, if_neg (fun hc ↦ hp hc.1)]
  exact ⟨_, rfl, hvalue ▸ hmoves⟩

/-- Every call on a table with the invariant, to its end. -/
theorem outcome_call (hs : t.Sound) {c : Call} (hc : Allowed t P c) :
    OnWorld (c.run env P) t r (fun eax t' _ ↦ Outcome env t r P c eax t')
      (fun t' _ ↦ t' = t ∧ c.EndsThread t) := by
  obtain ⟨hP, hfds, hslots⟩ := hc
  cases c with
  | openFile path access => exact outcome_sysOpen env hs hP path access
  | close fd => exact onWorld_of_onTable (onTable_sysClose env hs (hfds fd List.mem_cons_self))
  | dup fd => exact onWorld_of_onTable (onTable_sysDup env hs hP (hfds fd List.mem_cons_self))
  | dup2 fdold fdnew =>
    have hnew : fdnew ∈ (Call.dup2 fdold fdnew).descriptors :=
      List.mem_cons_of_mem _ List.mem_cons_self
    exact onWorld_of_onTable
      (onTable_sysDup2 env hs hP (hfds fdold List.mem_cons_self) (hfds fdnew hnew))
  | fcntl fd cmd arg =>
    exact onWorld_of_onTable (onTable_sysFcntl env hs hP (hfds fd List.mem_cons_self) cmd arg)
  | pipe address =>
    simp only [Call.hasSlots] at hslots
    obtain ⟨fds, hfree⟩ := Option.isSome_iff_exists.mp hslots
    exact outcome_sysPipe env hs hP hfree address
  | fork => exact onWorld_of_onTable (onTable_fork env hs hP)
  | execve => exact onWorld_of_onTable (onTable_execve env hs)

end Outcome

/-! ## Runs -/

section Runs

open Table

variable (env : Environment ρ)

/-- The world after a call of a process. Calls that are not allowed are not made. -/
def after (w : FileWorld ρ) (call : Nat × Call) : FileWorld ρ :=
  if Allowed w.table call.1 call.2 then (call.2.run env call.1 w).state else w

theorem safe_call {w : FileWorld ρ} (hs : w.table.Sound) {P : Nat} {c : Call}
    (hc : Allowed w.table P c) :
    Comp.Safe (c.run env P) w (fun eax w' ↦ Outcome env w.table w.rest P c eax w'.table)
      (fun w' ↦ w'.table = w.table ∧ c.EndsThread w.table) :=
  (outcome_call env hs hc).safe w rfl rfl

theorem sound_after {w : FileWorld ρ} (hs : w.table.Sound) (call : Nat × Call) :
    (after env w call).table.Sound := by
  unfold after
  split
  · next hc =>
    refine Comp.state_of_safe (fun w' ↦ w'.table.Sound) (safe_call env hs hc) ?_ ?_
    · rintro eax w' ⟨D, -, hmoves⟩
      exact hmoves.sound
    · rintro w' ⟨hw', -⟩
      exact hw' ▸ hs
  · exact hs

/-- The table of the first process, `Process.cpp:606–608`: three consoles. -/
def startTable : Table where
  processes := 1
  openFiles p fd := if p = 0 ∧ fd < 3 then some fd else none
  object a := if a < 3 then some { kind := .ntConsole } else none
  fresh := 3

theorem sound_startTable : startTable.Sound := by
  have hslot : ∀ {p fd a}, startTable.openFiles p fd = some a → p = 0 ∧ fd < 3 ∧ fd = a := by
    intro p fd a ha
    have ha : (if p = 0 ∧ fd < 3 then some fd else none) = some a := ha
    split at ha
    · next h => exact ⟨h.1, h.2, Option.some.inj ha⟩
    · cases ha
  constructor
  · intro p q i j a hp hq
    obtain ⟨rfl, -, rfl⟩ := hslot hp
    obtain ⟨rfl, -, rfl⟩ := hslot hq
    exact ⟨rfl, rfl⟩
  · intro p i a hp
    obtain ⟨rfl, hi, rfl⟩ := hslot hp
    show (if i < 3 then some _ else none) ≠ none
    rw [if_pos hi]
    exact Option.some_ne_none _
  · intro a ha
    have ha : 3 ≤ a := ha
    exact if_neg (by omega)
  · intro p i a hp
    obtain ⟨rfl, hi, rfl⟩ := hslot hp
    exact ⟨Nat.one_pos, Nat.lt_of_lt_of_le hi (by decide)⟩

theorem lowestFree_startTable : lowestFree (startTable.openFiles 0) = some 3 := by
  rw [lowestFree_eq_some]
  refine ⟨by decide, rfl, ?_⟩
  intro i hi
  have hslot : startTable.openFiles 0 i = some i := if_pos ⟨rfl, hi⟩
  rw [hslot]
  exact Option.some_ne_none i

/-- A failed `Open` sets the last error: only an `IOHFile` fails to open, `IOHFile.cpp:73–99`, and
`CreateFile` has failed then. -/
def OpenSetsError (env : Environment ρ) : Prop :=
  ∀ P a access share disposition flags r,
    (env.openHandler P a access share disposition flags r).1 = false →
      env.lastError (env.openHandler P a access share disposition flags r).2 ≠ 0#32

/-- What `open` and `dup` return: the lowest slot that was free, now in use; or an error, with
every slot as it was. -/
def LowestOrError (t : Table) (P : Nat) (eax : DWORD) (t' : Table) : Prop :=
  (∃ fd, lowestFree (t.openFiles P) = some fd ∧ eax = BitVec.ofNat 32 fd ∧
    t'.openFiles P fd ≠ none) ∨
  (eax.toInt < 0 ∧ t'.openFiles = t.openFiles)

/-- One call of a process, from a world on. -/
structure Orderly (w : FileWorld ρ) (P : Nat) (c : Call) : Prop where
  /-- Nothing is used that was deleted, and no table is left. -/
  defined : ∀ w', c.run env P w ≠ .fault w'
  returns : ¬c.EndsThread w.table → ∃ eax w', c.run env P w = .ok eax w'
  /-- The result, and the handlers that all descriptors then have. -/
  value : ∀ eax w', c.run env P w = .ok eax w' →
    c.Value env w.table w.rest P eax w'.table.handlerAt
  /-- The slots that the call does not name. -/
  others : ∀ p i, ¬c.Names w.table P p i → Keeps w.table (c.run env P w).state.table p i
  lowest : (∃ path access, c = .openFile path access) ∨ (∃ fd, c = .dup fd) →
    ∀ eax w', c.run env P w = .ok eax w' → LowestOrError w.table P eax w'.table
  /-- What `execve` leaves open, and what is there. -/
  exec : c = .execve → ∀ i a, ((c.run env P w).state.table.openFiles P i = some a ↔
      w.table.openFiles P i = some a ∧ ∃ h, w.table.object a = some h ∧ h.inheritable = true) ∧
    ((c.run env P w).state.table.openFiles P i = some a →
      (c.run env P w).state.table.object a = w.table.object a)

theorem openFiles_ne_none {t' : Table} {N : Nat → Nat → Prop} {D : Nat → Nat → Option Handler}
    {t : Table} {P fd : Nat} {h : Handler} (hmoves : Moves t t' N (put D P fd (some h))) :
    t'.openFiles P fd ≠ none := by
  rw [ne_eq, ← handlerAt_eq_none hmoves.sound, hmoves.handlerAt, put, if_pos ⟨rfl, rfl⟩]
  exact Option.some_ne_none h

theorem lowestOrError_open {env : Environment ρ} (hsets : OpenSetsError env) {t t' : Table} {r : ρ}
    (hs : t.Sound) {P : Nat} {path : PathHandler} {access eax : DWORD}
    (h : Outcome env t r P (.openFile path access) eax t') : LowestOrError t P eax t' := by
  obtain ⟨D, hvalue, hmoves⟩ := h
  have hfailed : eax.toInt < 0 → D = t.handlerAt → LowestOrError t P eax t' := by
    rintro hneg rfl
    refine .inr ⟨hneg, openFiles_of_moves hs hmoves fun p i hp ↦ ?_⟩
    rw [hp.1]
    exact (lowestFree_eq_some.mp hp.2).2.1
  rcases hvalue with ⟨-, rfl, hsame⟩ |
    ⟨fd, hfree, ⟨-, rfl, hsame⟩ | ⟨o, -, ⟨hfail, rfl, hsame⟩ | ⟨-, rfl, rfl⟩⟩⟩
  · exact hfailed (by decide) hsame
  · exact hfailed (by decide) hsame
  · exact hfailed ((neg_win32ErrToUnixError_neg _).mpr (hsets _ _ _ _ _ _ _ hfail)) hsame
  · exact .inl ⟨fd, lowestFree_handlerAt hs P ▸ hfree, rfl, openFiles_ne_none hmoves⟩

theorem lowestOrError_dup {env : Environment ρ} {t t' : Table} {r : ρ} (hs : t.Sound) {P : Nat}
    {fd eax : DWORD} (h : Outcome env t r P (.dup fd) eax t') : LowestOrError t P eax t' := by
  obtain ⟨D, hvalue, hmoves⟩ := h
  have hnames : ∀ p i, (Call.dup fd).Names t P p i → t.openFiles p i = none := by
    intro p i hp
    rw [hp.1]
    exact (lowestFree_eq_some.mp hp.2).2.1
  rcases hvalue with ⟨-, rfl, rfl⟩ | ⟨-, -, rfl, rfl⟩ | ⟨fdnew, hd, hfree, -, rfl, rfl⟩
  · exact .inr ⟨by decide, openFiles_of_moves hs hmoves hnames⟩
  · exact .inr ⟨by decide, openFiles_of_moves hs hmoves hnames⟩
  · exact .inl ⟨fdnew, lowestFree_handlerAt hs P ▸ hfree, rfl, openFiles_ne_none hmoves⟩

/-- `execve` leaves what is inheritable, untouched, and nothing else. -/
theorem exec_leaves {env : Environment ρ} {t t' : Table} {r : ρ} {eax : DWORD} (hs : t.Sound)
    {P : Nat} (h : Outcome env t r P .execve eax t') (i a : Nat) :
    (t'.openFiles P i = some a ↔
      t.openFiles P i = some a ∧ ∃ h, t.object a = some h ∧ h.inheritable = true) ∧
    (t'.openFiles P i = some a → t'.object a = t.object a) := by
  obtain ⟨D, hvalue, hmoves⟩ := h
  obtain rfl : D = execValue t.handlerAt P := hvalue
  by_cases hnamed : Call.execve.Names t P P i
  · obtain ⟨-, h, hh, hinherit⟩ := hnamed
    have hclosed : t'.openFiles P i = none := by
      rw [← handlerAt_eq_none hmoves.sound, hmoves.handlerAt, execValue, if_pos rfl, hh,
        Option.filter_some, hinherit]
      rfl
    rw [hclosed]
    refine ⟨⟨fun ha ↦ (nomatch ha), ?_⟩, fun ha ↦ (nomatch ha)⟩
    rintro ⟨ha, h', hobject, htrue⟩
    rw [handlerAt_of_slot ha hobject] at hh
    rw [Option.some.inj hh, hinherit] at htrue
    cases htrue
  · have hkeeps := hmoves.keeps P i hnamed
    rw [hkeeps.1]
    refine ⟨⟨fun ha ↦ ⟨ha, ?_⟩, fun h ↦ h.1⟩, fun ha ↦ hkeeps.2 a ha⟩
    obtain ⟨h, hobject, hvalue⟩ := handlerAt_of_openFiles hs ha
    refine ⟨h, hobject, ?_⟩
    by_contra hinherit
    exact hnamed ⟨rfl, h, hvalue, Bool.not_eq_true _ ▸ hinherit⟩

theorem orderly_of_sound (hsets : OpenSetsError env) {w : FileWorld ρ} (hs : w.table.Sound)
    {P : Nat} {c : Call} (hc : Allowed w.table P c) : Orderly env w P c := by
  have hsafe := safe_call env hs hc
  constructor
  · exact Comp.ne_fault_of_safe hsafe
  · intro hnot
    obtain ⟨eax, w', hrun, -⟩ := Comp.exists_ok_of_safe
      (Comp.safe_mono hsafe (fun _ _ h ↦ h) fun w' hw' ↦ hnot hw'.2)
    exact ⟨eax, w', hrun⟩
  · intro eax w' hrun
    obtain ⟨D, hvalue, hmoves⟩ := Comp.safe_of_ok hsafe hrun
    rwa [hmoves.handlerAt]
  · intro p i hnot
    refine Comp.state_of_safe (fun w' ↦ Keeps w.table w'.table p i) hsafe ?_ ?_
    · rintro eax w' ⟨D, -, hmoves⟩
      exact hmoves.keeps p i hnot
    · rintro w' ⟨hw', -⟩
      exact hw' ▸ keeps_refl w.table p i
  · intro hcall eax w' hrun
    have houtcome := Comp.safe_of_ok hsafe hrun
    rcases hcall with ⟨path, access, rfl⟩ | ⟨fd, rfl⟩
    · exact lowestOrError_open hsets hs houtcome
    · exact lowestOrError_dup hs houtcome
  · rintro rfl i a
    obtain ⟨eax, w', hrun, houtcome⟩ :=
      exists_ok_of_onTable (onTable_execve env hs (r := w.rest)) rfl
    rw [hrun]
    exact exec_leaves hs houtcome i a

/-- In whatever order processes call, no two slots share an object, and the next call is in
order. -/
theorem trail_orderly (hsets : OpenSetsError env) (r : ρ) (calls : List (Nat × Call)) :
    ∀ w ∈ trail (after env) { table := startTable, rest := r } calls,
      (∀ p q fd fd' a, w.table.openFiles p fd = some a → w.table.openFiles q fd' = some a →
        p = q ∧ fd = fd') ∧
      ∀ P c, Allowed w.table P c → Orderly env w P c := by
  intro w hw
  have hs : w.table.Sound := @trail_invariant _ _ (after env) (fun w ↦ w.table.Sound) (fun _ ↦ True)
    (fun w call hs _ ↦ sound_after env hs call) _ sound_startTable calls (fun _ _ ↦ trivial) w hw
  exact ⟨fun p q fd fd' a ↦ hs.unshared, fun P c hc ↦ orderly_of_sound env hsets hs hc⟩

/-- The first `dup` of the first process makes descriptor 3 a console. -/
theorem trail_orderly_dup :
    ∃ w', (Call.dup 0#32).run (Environment.idle Unit) 0 { table := startTable, rest := ⟨⟩ } =
        .ok 3#32 w' ∧ w'.table.handlerAt 0 3 = some { kind := .ntConsole } := by
  have hvalid : ∀ fd ∈ (Call.dup 0#32).descriptors, ValidFd fd := by
    simp [Call.descriptors, ValidFd, MAX_OPEN_FILES]
  have hsets : OpenSetsError (Environment.idle Unit) := by
    intro P a access share disposition flags r hfail
    cases hfail
  have horderly := (trail_orderly (Environment.idle Unit) hsets ⟨⟩ [(0, .dup 0#32)] _
    (mem_trail_self _ _ _)).2 0 (.dup 0#32) ⟨Nat.one_pos, hvalid, rfl⟩
  obtain ⟨eax, w', hrun⟩ := horderly.returns id
  have hvalue : DupValue startTable.handlerAt 0 eax w'.table.handlerAt 0#32 :=
    horderly.value eax w' hrun
  have hthree : lowestFree (startTable.handlerAt 0) = some 3 :=
    (lowestFree_handlerAt sound_startTable 0).trans lowestFree_startTable
  rcases hvalue with ⟨hfull, -⟩ | ⟨-, hclosed, -⟩ | ⟨fdnew, h, hfree, hopen, rfl, hput⟩
  · cases hthree.symm.trans hfull
  · cases hclosed
  · obtain rfl : 3 = fdnew := Option.some.inj (hthree.symm.trans hfree)
    refine ⟨w', hrun, ?_⟩
    obtain rfl : { kind := .ntConsole } = h := Option.some.inj hopen
    rw [hput]
    rfl

end Runs

end Keow.Files
