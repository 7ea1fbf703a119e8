import Keow.Files.Calls

/-!
# Descriptor bounds

Which indices the calls on descriptors use, for every register value. The check at the start of
each lets `MAX_OPEN_FILES` itself through, one past the end of `m_OpenFiles`, where the table of
LDT entries begins; that and two errors reported first are all that goes wrong.
-/

namespace Keow.Files

open Keow.Base Keow.Kernel

variable {ρ : Type}

/-! ## Single changes -/

section Always

variable {α : Type} {R : FileWorld ρ → FileWorld ρ → Prop}

/-- Following a pointer changes nothing. -/
theorem always_deref (hR : ∀ w, R w w) (a : Nat) : Comp.Always R (deref a : F ρ Handler) := by
  intro w
  simp only [deref, Bind.bind, Comp.bind, Comp.get]
  cases w.table.object a with
  | none => exact hR w
  | some _ => exact hR w

theorem always_outside {f : ρ → α × ρ} (h : ∀ w, R w { w with rest := (f w.rest).2 }) :
    Comp.Always R (outside f) := h

theorem always_method (hR : ∀ w, R w w) {f : ρ → α × ρ}
    (h : ∀ w, R w { w with rest := (f w.rest).2 }) (a : Nat) : Comp.Always R (method a f) := by
  intro w
  simp only [method, deref, Bind.bind, Comp.bind, Comp.get]
  cases w.table.object a with
  | none => exact hR w
  | some _ => exact h w

end Always

/-! ## Staying in range -/

/-- The tables have been accessed at indices of theirs only, since `w`. -/
def InRange (w w' : FileWorld ρ) : Prop :=
  ∃ new, w'.indexed = new ++ w.indexed ∧ ∀ i ∈ new, 0 ≤ i ∧ i < (MAX_OPEN_FILES : Int)

theorem inRange_refl (w : FileWorld ρ) : InRange w w := ⟨[], rfl, by simp⟩

theorem inRange_trans {w₁ w₂ w₃ : FileWorld ρ} (h : InRange w₁ w₂) (h' : InRange w₂ w₃) :
    InRange w₁ w₃ := by
  obtain ⟨new, hnew, hrange⟩ := h
  obtain ⟨new', hnew', hrange'⟩ := h'
  refine ⟨new' ++ new, by rw [hnew', hnew, List.append_assoc], ?_⟩
  intro i hi
  rcases List.mem_append.mp hi with hi | hi
  · exact hrange' i hi
  · exact hrange i hi

/-- The computation stays in range. -/
abbrev Bounded {α : Type} (x : F ρ α) : Prop := Comp.Always InRange x

section Bounded

variable {α β : Type}

theorem bounded_pure (a : α) : Bounded (pure a : F ρ α) := Comp.always_pure inRange_refl a

theorem bounded_get : Bounded (Comp.get : F ρ (FileWorld ρ)) := Comp.always_get inRange_refl

theorem bounded_exit : Bounded (Comp.exit : F ρ α) := Comp.always_exit inRange_refl

theorem bounded_fault : Bounded (Comp.fault : F ρ α) := Comp.always_fault inRange_refl

theorem bounded_bind {x : F ρ α} {f : α → F ρ β} (hx : Bounded x) (hf : ∀ a, Bounded (f a)) :
    Bounded (x >>= f) := by
  have htrans : ∀ a b c : FileWorld ρ, InRange a b → InRange b c → InRange a c :=
    fun _ _ _ ↦ inRange_trans
  exact Comp.always_bind htrans hx hf

theorem bounded_ite {c : Prop} [Decidable c] {x y : F ρ α} (hx : Bounded x) (hy : Bounded y) :
    Bounded (if c then x else y) := Comp.always_ite hx hy

theorem bounded_modifyTable (f : Table → Table) : Bounded (modifyTable f : F ρ Unit) :=
  Comp.always_modify fun w ↦ inRange_refl w

theorem bounded_modifyRest (f : ρ → ρ) : Bounded (modifyRest f) :=
  Comp.always_modify fun w ↦ inRange_refl w

theorem bounded_outside (f : ρ → α × ρ) : Bounded (outside f) :=
  always_outside fun w ↦ inRange_refl w

theorem bounded_deref (a : Nat) : Bounded (deref a : F ρ Handler) := always_deref inRange_refl a

theorem bounded_method (a : Nat) (f : ρ → α × ρ) : Bounded (method a f) :=
  always_method inRange_refl (fun w ↦ inRange_refl w) a

theorem bounded_newHandler (env : Environment ρ) (P : Nat) (kind : HandlerKind) :
    Bounded (newHandler env P kind) :=
  bounded_bind bounded_get fun _ ↦ bounded_bind (bounded_modifyTable _) fun _ ↦
    bounded_bind (bounded_modifyRest _) fun _ ↦ bounded_pure _

theorem bounded_duplicate (env : Environment ρ) (P a : Nat) : Bounded (duplicate env P a) :=
  bounded_bind (bounded_deref a) fun h ↦ bounded_bind (bounded_newHandler env P h.kind) fun _ ↦
    bounded_bind (bounded_modifyRest _) fun _ ↦ bounded_pure _

theorem bounded_closeHandler (env : Environment ρ) (P a : Nat) : Bounded (closeHandler env P a) :=
  bounded_bind (bounded_deref a) fun _ ↦ bounded_modifyRest _

theorem bounded_deleteHandler (env : Environment ρ) (P a : Nat) :
    Bounded (deleteHandler env P a) :=
  bounded_bind (bounded_closeHandler env P a) fun _ ↦ bounded_modifyTable _

theorem bounded_index {fd : Int} (h : 0 ≤ fd ∧ fd < (MAX_OPEN_FILES : Int)) :
    Bounded (index fd : F ρ Unit) := by
  apply bounded_bind
  · apply Comp.always_modify
    intro w
    exact ⟨[fd], rfl, by simpa using h⟩
  · intro _
    exact bounded_ite bounded_fault (bounded_pure _)

theorem bounded_slot (P : Nat) {fd : Int} (h : 0 ≤ fd ∧ fd < (MAX_OPEN_FILES : Int)) :
    Bounded (slot P fd : F ρ (Option Nat)) :=
  bounded_bind (bounded_index h) fun _ ↦ bounded_bind bounded_get fun _ ↦ bounded_pure _

theorem bounded_setSlot (P : Nat) {fd : Int} (h : 0 ≤ fd ∧ fd < (MAX_OPEN_FILES : Int))
    (a : Option Nat) : Bounded (setSlot P fd a : F ρ Unit) :=
  bounded_bind (bounded_index h) fun _ ↦ bounded_modifyTable _

end Bounded

/-! ## The checks -/

/-- A register value that is a descriptor. -/
def ValidFd (fd : DWORD) : Prop := fd.toNat < MAX_OPEN_FILES

instance (fd : DWORD) : Decidable (ValidFd fd) := inferInstanceAs (Decidable (_ < _))

theorem toInt_of_validFd {fd : DWORD} (h : ValidFd fd) : fd.toInt = fd.toNat := by
  apply BitVec.toInt_eq_toNat_of_lt
  have h : fd.toNat < 1024 := h
  omega

theorem inRange_of_validFd {fd : DWORD} (h : ValidFd fd) :
    0 ≤ fd.toInt ∧ fd.toInt < (MAX_OPEN_FILES : Int) := by
  rw [toInt_of_validFd h]
  exact ⟨Int.natCast_nonneg _, Int.ofNat_lt.mpr h⟩

/-- What the check refuses: the invalid values, but for the first one past the table. -/
theorem refused_iff {fd : DWORD} :
    (fd.toInt < 0 ∨ (MAX_OPEN_FILES : Int) < fd.toInt) ↔ ¬ValidFd fd ∧ fd ≠ 1024#32 := by
  have hcases := BitVec.toInt_eq_toNat_cond fd
  have hlt := fd.isLt
  have hne : fd = 1024#32 ↔ fd.toNat = 1024 := by
    rw [← BitVec.toNat_inj]
    rfl
  rw [ValidFd, ne_eq, hne, show MAX_OPEN_FILES = 1024 from rfl]
  split at hcases <;> omega

theorem withHandler_of_refused {P : Nat} {fd : DWORD} {call : Nat → F ρ DWORD}
    (h : ¬ValidFd fd) (h1024 : fd ≠ 1024#32) : withHandler P fd call = pure (-EBADF) := by
  rw [withHandler, if_pos (refused_iff.mpr ⟨h, h1024⟩)]

theorem withHandler_1024 (P : Nat) (call : Nat → F ρ DWORD) (w : FileWorld ρ) :
    withHandler P 1024#32 call w = .fault { w with indexed := 1024 :: w.indexed } := rfl

theorem slot_eq (P : Nat) {fd : Nat} (h : fd < MAX_OPEN_FILES) (w : FileWorld ρ) :
    (slot P fd : F ρ (Option Nat)) w =
      .ok (w.table.openFiles P fd) { w with indexed := (fd : Int) :: w.indexed } := by
  have hin : ¬((fd : Int) < 0 ∨ (MAX_OPEN_FILES : Int) ≤ fd) := by omega
  unfold slot index
  simp only [Bind.bind, Comp.bind, Comp.modify, Comp.get, if_neg hin, Pure.pure, Comp.pure,
    Int.toNat_natCast]

/-- Behind the check, a descriptor in use. -/
theorem withHandler_of_open {P : Nat} {fd : DWORD} (call : Nat → F ρ DWORD) {w : FileWorld ρ}
    {ioh : Nat} (h : ValidFd fd) (hopen : w.table.openFiles P fd.toNat = some ioh) :
    withHandler P fd call w = call ioh { w with indexed := (fd.toNat : Int) :: w.indexed } := by
  rw [withHandler, if_neg (fun hr ↦ (refused_iff.mp hr).1 h), toInt_of_validFd h,
    Comp.bind_of_ok (slot_eq P h w), hopen]

/-- Every other value but 1024 is refused, with at most one access. -/
theorem withHandler_of_closed {P : Nat} {fd : DWORD} (call : Nat → F ρ DWORD) {w : FileWorld ρ}
    (h1024 : fd ≠ 1024#32) (h : ¬(ValidFd fd ∧ w.table.openFiles P fd.toNat ≠ none)) :
    ∃ new, (∀ i ∈ new, 0 ≤ i ∧ i < (MAX_OPEN_FILES : Int)) ∧
      withHandler P fd call w = .ok (-EBADF) { w with indexed := new ++ w.indexed } := by
  by_cases hvalid : ValidFd fd
  · have hslot : w.table.openFiles P fd.toNat = none := by
      by_contra hopen
      exact h ⟨hvalid, hopen⟩
    refine ⟨[(fd.toNat : Int)], ?_, ?_⟩
    · intro i hi
      rw [List.mem_singleton.mp hi, ← toInt_of_validFd hvalid]
      exact inRange_of_validFd hvalid
    · rw [withHandler, if_neg (fun hr ↦ (refused_iff.mp hr).1 hvalid), toInt_of_validFd hvalid,
        Comp.bind_of_ok (slot_eq P hvalid w), hslot]
      rfl
  · exact ⟨[], by simp, by rw [withHandler_of_refused hvalid h1024]; rfl⟩

theorem bounded_withHandler (P : Nat) {fd : DWORD} (h1024 : fd ≠ 1024#32)
    {call : Nat → F ρ DWORD} (hcall : ∀ ioh, Bounded (call ioh)) :
    Bounded (withHandler P fd call) := by
  by_cases h : ValidFd fd
  · rw [withHandler, if_neg (fun hr ↦ (refused_iff.mp hr).1 h)]
    apply bounded_bind (bounded_slot P (inRange_of_validFd h))
    intro ioh
    cases ioh with
    | none => exact bounded_pure _
    | some ioh => exact hcall ioh
  · rw [withHandler_of_refused h h1024]
    exact bounded_pure _

/-! ## The free descriptor -/

/-- The lowest free descriptor of a table. -/
def lowestFree {α : Type} (openFiles : Nat → Option α) : Option Nat :=
  (List.range MAX_OPEN_FILES).find? fun fd ↦ openFiles fd = none

theorem lowestFree_eq_some {α : Type} {openFiles : Nat → Option α} {fd : Nat} :
    lowestFree openFiles = some fd ↔
      fd < MAX_OPEN_FILES ∧ openFiles fd = none ∧ ∀ i < fd, openFiles i ≠ none := by
  rw [lowestFree, List.find?_range_eq_some]
  simp only [decide_eq_true_eq, List.mem_range, Bool.not_eq_true', decide_eq_false_iff_not]
  exact ⟨fun h ↦ ⟨h.2.1, h.1, h.2.2⟩, fun h ↦ ⟨h.2.1, h.1, h.2.2⟩⟩

theorem findFreeFDIn_eq (P : Nat) {fds : List Nat} (hfds : ∀ fd ∈ fds, fd < MAX_OPEN_FILES)
    (w : FileWorld ρ) :
    ∃ new, (∀ i ∈ new, 0 ≤ i ∧ i < (MAX_OPEN_FILES : Int)) ∧
      (findFreeFDIn P fds : F ρ (Option Nat)) w =
        .ok (fds.find? fun fd ↦ w.table.openFiles P fd = none)
          { w with indexed := new ++ w.indexed } := by
  induction fds generalizing w with
  | nil => exact ⟨[], by simp, rfl⟩
  | cons fd fds ih =>
    have hfd : fd < MAX_OPEN_FILES := hfds fd List.mem_cons_self
    have hrange : (0 : Int) ≤ fd ∧ (fd : Int) < (MAX_OPEN_FILES : Int) := by omega
    rw [findFreeFDIn, Comp.bind_of_ok (slot_eq P hfd w)]
    cases hslot : w.table.openFiles P fd with
    | none =>
      refine ⟨[(fd : Int)], by simpa using hrange, ?_⟩
      rw [List.find?_cons_of_pos (by simp [hslot])]
      rfl
    | some a =>
      obtain ⟨new, hnew, heq⟩ := ih (fun i hi ↦ hfds i (List.mem_cons_of_mem _ hi))
        { w with indexed := (fd : Int) :: w.indexed }
      refine ⟨new ++ [(fd : Int)], ?_, ?_⟩
      · intro i hi
        rcases List.mem_append.mp hi with hi | hi
        · exact hnew i hi
        · exact (List.mem_singleton.mp hi) ▸ hrange
      · rw [List.find?_cons_of_neg (by simp [hslot])]
        dsimp only
        rw [heq, List.append_assoc]
        rfl

/-- `FindFreeFD` finds it, within the table. -/
theorem findFreeFD_eq (P : Nat) (w : FileWorld ρ) :
    ∃ new, (∀ i ∈ new, 0 ≤ i ∧ i < (MAX_OPEN_FILES : Int)) ∧
      (findFreeFD P : F ρ (Option Nat)) w =
        .ok (lowestFree (w.table.openFiles P)) { w with indexed := new ++ w.indexed } :=
  findFreeFDIn_eq P (fun _ hfd ↦ List.mem_range.mp hfd) w

theorem bounded_findFreeFD {α : Type} (P : Nat) {f : Option Nat → F ρ α}
    (hnone : Bounded (f none)) (hsome : ∀ fd < MAX_OPEN_FILES, Bounded (f (some fd))) :
    Bounded (findFreeFD P >>= f) := by
  intro w
  obtain ⟨new, hnew, heq⟩ := findFreeFD_eq P w
  rw [Comp.bind_of_ok heq]
  have hscan : InRange w { w with indexed := new ++ w.indexed } := ⟨new, rfl, hnew⟩
  cases hfree : lowestFree (w.table.openFiles P) with
  | none => exact inRange_trans hscan (hnone _)
  | some fd => exact inRange_trans hscan (hsome fd (lowestFree_eq_some.mp hfree).1 _)

theorem validFd_ofNat {fd : Nat} (h : fd < MAX_OPEN_FILES) : ValidFd (BitVec.ofNat 32 fd) := by
  have h : fd < 1024 := h
  show (BitVec.ofNat 32 fd).toNat < 1024
  rw [BitVec.toNat_ofNat]
  omega

theorem ne_1024_of_validFd {fd : DWORD} (h : ValidFd fd) : fd ≠ 1024#32 := by
  rintro rfl
  exact absurd h (by decide)

/-! ## The calls -/

section Calls

variable (env : Environment ρ) (P : Nat)

theorem bounded_dllError : Bounded (dllError env P) :=
  bounded_bind (bounded_outside _) fun _ ↦ bounded_pure _

theorem bounded_kernelError : Bounded (kernelError env) :=
  bounded_bind bounded_get fun _ ↦ bounded_pure _

theorem bounded_writeError : Bounded (writeError env P) := by
  apply bounded_bind (bounded_outside _)
  intro err
  apply bounded_bind (bounded_dllError env P)
  intro eax
  split
  · exact bounded_bind (bounded_modifyRest _) fun _ ↦ bounded_pure _
  · exact bounded_pure _

theorem bounded_sysWrite {fd : DWORD} (h : fd ≠ 1024#32) (address size : DWORD) :
    Bounded (sysWrite env P fd address size) := by
  apply bounded_withHandler P h
  intro ioh
  apply bounded_bind (bounded_method ioh _)
  rintro ⟨done, written⟩
  exact bounded_ite (bounded_pure _) (bounded_writeError env P)

theorem bounded_writevLoop (ioh n : Nat) (pV total : DWORD) :
    Bounded (writevLoop env P ioh n pV total) := by
  induction n generalizing pV total with
  | zero => exact bounded_pure _
  | succ n ih =>
    apply bounded_bind bounded_get
    intro w
    apply bounded_bind (bounded_method ioh _)
    rintro ⟨done, written⟩
    exact bounded_ite (ih _ _) (bounded_writeError env P)

theorem bounded_sysRead {fd : DWORD} (h : fd ≠ 1024#32) (address size : DWORD) :
    Bounded (sysRead env P fd address size) := by
  apply bounded_withHandler P h
  intro ioh
  apply bounded_bind (bounded_method ioh _)
  rintro ⟨done, read⟩
  exact bounded_ite (bounded_pure _) (bounded_dllError env P)

theorem bounded_sysClose {fd : DWORD} (h : fd ≠ 1024#32) : Bounded (sysClose env P fd) := by
  by_cases hvalid : ValidFd fd
  · apply bounded_withHandler P h
    intro ioh
    apply bounded_bind (bounded_deleteHandler env P ioh)
    intro _
    exact bounded_bind (bounded_setSlot P (inRange_of_validFd hvalid) none) fun _ ↦ bounded_pure _
  · rw [sysClose, withHandler_of_refused hvalid h]
    exact bounded_pure _

theorem bounded_sysFchdir {fd : DWORD} (h : fd ≠ 1024#32) : Bounded (sysFchdir env P fd) := by
  apply bounded_withHandler P h
  intro ioh
  apply bounded_bind (bounded_deref ioh)
  intro hd
  apply bounded_ite (bounded_pure _)
  apply bounded_bind bounded_get
  intro w
  split
  · exact bounded_kernelError env
  · exact bounded_ite (bounded_pure _) (bounded_bind (bounded_modifyRest _) fun _ ↦ bounded_pure _)

theorem bounded_closeExisting {fd : Int} (h : 0 ≤ fd ∧ fd < (MAX_OPEN_FILES : Int)) :
    Bounded (closeExisting env P fd) := by
  apply bounded_bind (bounded_slot P h)
  intro a
  cases a with
  | none => exact bounded_pure _
  | some ioh =>
    exact bounded_bind (bounded_closeHandler env P ioh) fun _ ↦
      bounded_bind (bounded_deleteHandler env P ioh) fun _ ↦ bounded_setSlot P h none

theorem bounded_sysDup2 {fdold fdnew : DWORD} (hold : fdold ≠ 1024#32) (hnew : fdnew ≠ 1024#32) :
    Bounded (sysDup2 env P fdold fdnew) := by
  apply bounded_withHandler P hold
  intro ioh
  split
  · exact bounded_pure _
  · next hrefused =>
    have hvalid : ValidFd fdnew := by
      by_contra hvalid
      rcases refused_iff.mpr ⟨hvalid, hnew⟩ with h | h
      · exact hrefused (.inl h)
      · exact hrefused (.inr (.inl h))
    have hrange := inRange_of_validFd hvalid
    apply bounded_bind (bounded_closeExisting env P hrange)
    intro _
    apply bounded_bind (bounded_duplicate env P ioh)
    intro iohNew
    exact bounded_bind (bounded_setSlot P hrange _) fun _ ↦ bounded_pure _

theorem bounded_sysDup {fd : DWORD} (h : fd ≠ 1024#32) : Bounded (sysDup env P fd) := by
  refine bounded_findFreeFD P (bounded_pure _) ?_
  intro fdnew hfdnew
  exact bounded_sysDup2 env P h (ne_1024_of_validFd (validFd_ofNat hfdnew))

theorem bounded_sysFcntl {fd : DWORD} (h : fd ≠ 1024#32) (cmd arg : DWORD) :
    Bounded (sysFcntl env P fd cmd arg) := by
  apply bounded_withHandler P h
  intro ioh
  apply bounded_bind (bounded_deref ioh)
  intro hd
  apply bounded_ite (bounded_pure _)
  apply bounded_ite (bounded_bind (bounded_modifyTable _) fun _ ↦ bounded_pure _)
  apply bounded_ite (bounded_pure _)
  apply bounded_ite (bounded_bind (bounded_modifyTable _) fun _ ↦ bounded_pure _)
  refine bounded_ite (bounded_findFreeFD P (bounded_pure _) fun fdnew hfdnew ↦ ?_) (bounded_pure _)
  apply bounded_ite (bounded_pure _)
  apply bounded_bind (bounded_sysDup2 env P h (ne_1024_of_validFd (validFd_ofNat hfdnew)))
  intro eax
  apply bounded_bind (bounded_slot P (by omega))
  intro a
  cases a with
  | none => exact bounded_exit
  | some iohNew =>
    exact bounded_bind (bounded_deref iohNew) fun _ ↦
      bounded_bind (bounded_modifyTable _) fun _ ↦ bounded_pure _

theorem bounded_sysGetdents64 {fd : DWORD} (h : fd ≠ 1024#32) (address maxbytes : DWORD) :
    Bounded (sysGetdents64 env P fd address maxbytes) := by
  apply bounded_withHandler P h
  intro ioh
  apply bounded_bind (bounded_method ioh _)
  intro filled
  cases filled with
  | none => exact bounded_kernelError env
  | some bytes =>
    dsimp only
    split
    · exact bounded_bind (bounded_modifyRest _) fun _ ↦ bounded_pure _
    · exact bounded_pure _

/-- `fstat` and `fstat64` differ in the bytes they fill in only. -/
theorem bounded_stat {fd : DWORD} (h : fd ≠ 1024#32) (address : DWORD)
    (stat : Nat → ρ → Option (List UInt8) × ρ) :
    Bounded (withHandler P fd fun ioh ↦ do
      match ← method ioh (stat ioh) with
      | none => kernelError env
      | some buf =>
          modifyRest (env.writeMemory P address buf)
          return 0#32) := by
  apply bounded_withHandler P h
  intro ioh
  apply bounded_bind (bounded_method ioh _)
  intro filled
  cases filled with
  | none => exact bounded_kernelError env
  | some bytes => exact bounded_bind (bounded_modifyRest _) fun _ ↦ bounded_pure _

theorem bounded_sysLlseek {fd : DWORD} (h : fd ≠ 1024#32)
    (offsetHigh offsetLow result whence : DWORD) :
    Bounded (sysLlseek env P fd offsetHigh offsetLow result whence) := by
  apply bounded_withHandler P h
  intro ioh
  cases seekMethod whence with
  | none => exact bounded_pure _
  | some m =>
    apply bounded_bind (bounded_method ioh _)
    intro pos
    exact bounded_bind (bounded_modifyRest _) fun _ ↦ bounded_dllError env P

theorem bounded_sysLseek {fd : DWORD} (h : fd ≠ 1024#32) (offset whence : DWORD) :
    Bounded (sysLseek env P fd offset whence) := by
  apply bounded_withHandler P h
  intro ioh
  cases seekMethod whence with
  | none => exact bounded_pure _
  | some m =>
    apply bounded_bind (bounded_method ioh _)
    intro pos
    exact bounded_bind (bounded_dllError env P) fun _ ↦ bounded_pure _

theorem bounded_mmapFile {fd : DWORD} (h : fd ≠ 1024#32) :
    Bounded (mmapFile P fd : F ρ (DWORD ⊕ Option Nat)) := by
  have hne : fd.toNat ≠ 1024 := fun he ↦ h (BitVec.eq_of_toNat_eq he)
  unfold mmapFile
  apply bounded_ite (bounded_pure _)
  split
  · exact bounded_pure _
  · next hle =>
    have hle : ¬1024 < fd.toNat := hle
    have hrange : (0 : Int) ≤ fd.toNat ∧ (fd.toNat : Int) < (MAX_OPEN_FILES : Int) := by
      rw [show MAX_OPEN_FILES = 1024 from rfl]
      omega
    apply bounded_bind (bounded_slot P hrange)
    intro a
    cases a with
    | none => exact bounded_pure _
    | some ioh =>
      apply bounded_bind (bounded_deref ioh)
      intro hd
      exact bounded_ite (bounded_pure _) (bounded_pure _)

end Calls

/-- A call on descriptors, with the registers its handler reads. -/
inductive DescriptorCall where
  | read (fd address size : DWORD)
  | write (fd address size : DWORD)
  | writev (fd pV count : DWORD)
  | close (fd : DWORD)
  | ioctl (fd request data : DWORD)
  | fchdir (fd : DWORD)
  | fcntl (fd cmd arg : DWORD)
  | dup (fd : DWORD)
  | dup2 (fdold fdnew : DWORD)
  | getdents64 (fd address maxbytes : DWORD)
  | fstat (fd address : DWORD)
  | fstat64 (fd address : DWORD)
  | lseek (fd offset whence : DWORD)
  | llseek (fd offsetHigh offsetLow result whence : DWORD)
  | mmap (pArgs : DWORD)

namespace DescriptorCall

variable (env : Environment ρ) (P : Nat)

/-- The handler of a call. -/
def run : DescriptorCall → F ρ DWORD
  | .read fd address size => sysRead env P fd address size
  | .write fd address size => sysWrite env P fd address size
  | .writev fd pV count => sysWritev env P fd pV count
  | .close fd => sysClose env P fd
  | .ioctl fd request data => sysIoctl env P fd request data
  | .fchdir fd => sysFchdir env P fd
  | .fcntl fd cmd arg => sysFcntl env P fd cmd arg
  | .dup fd => sysDup env P fd
  | .dup2 fdold fdnew => sysDup2 env P fdold fdnew
  | .getdents64 fd address maxbytes => sysGetdents64 env P fd address maxbytes
  | .fstat fd address => sysFstat env P fd address
  | .fstat64 fd address => sysFstat64 env P fd address
  | .lseek fd offset whence => sysLseek env P fd offset whence
  | .llseek fd offsetHigh offsetLow result whence =>
      sysLlseek env P fd offsetHigh offsetLow result whence
  | .mmap pArgs => sysMmap env P pArgs

/-- The values passed as descriptors. A mapping that is anonymous or of -1 has none. -/
def descriptors (w : FileWorld ρ) : DescriptorCall → List DWORD
  | .read fd _ _ | .write fd _ _ | .writev fd _ _ | .close fd | .ioctl fd _ _ | .fchdir fd
  | .fcntl fd _ _ | .dup fd | .getdents64 fd _ _ | .fstat fd _ | .fstat64 fd _ | .lseek fd _ _
  | .llseek fd _ _ _ _ => [fd]
  | .dup2 fdold fdnew => [fdold, fdnew]
  | .mmap pArgs =>
      let fd := mmapFd (env.readMemory P pArgs 24 w.rest)
      if fd = -1#32 then [] else [fd]

/-- The call indexes the tables in range, and with an invalid descriptor it is `EBADF` and
changes nothing. -/
structure Checked (c : DescriptorCall) (w : FileWorld ρ) : Prop where
  inRange : InRange w (c.run env P w).state
  refused : ∀ fd ∈ c.descriptors env P w, ¬ValidFd fd →
    ∃ w', c.run env P w = .ok (-EBADF) w' ∧ w'.table = w.table ∧ w'.rest = w.rest

/-- No descriptor is 1024, unless `dup2` stops at the first one; and the invalid descriptor of
a `dup` is not hidden by a full table, nor that of an `mmap` by an address out of line. -/
def Guarded (w : FileWorld ρ) : DescriptorCall → Prop
  | .dup fd => fd ≠ 1024#32 ∧ (ValidFd fd ∨ lowestFree (w.table.openFiles P) ≠ none)
  | .dup2 fdold fdnew => fdold ≠ 1024#32 ∧
      (fdnew = 1024#32 → ¬(ValidFd fdold ∧ w.table.openFiles P fdold.toNat ≠ none))
  | .mmap pArgs =>
      let args := env.readMemory P pArgs 24 w.rest
      mmapFd args = -1#32 ∨ mmapFd args ≠ 1024#32 ∧
        (ValidFd (mmapFd args) ∨ mmapAddr args &&& ~~~0xFFF#32 = mmapAddr args)
  | c => ∀ fd ∈ c.descriptors env P w, fd ≠ 1024#32

/-- Past an index of 1024 no run is in range. -/
theorem not_inRange {w w' : FileWorld ρ} (h : InRange w w') :
    ¬InRange w { w' with indexed := 1024 :: w'.indexed } := by
  obtain ⟨new, hnew, -⟩ := h
  rintro ⟨new', hnew', hrange⟩
  have heq : new' = 1024 :: new := by
    apply List.append_cancel_right
    show new' ++ w.indexed = 1024 :: new ++ w.indexed
    rw [← hnew', hnew]
    rfl
  have h1024 := (hrange 1024 (by rw [heq]; exact List.mem_cons_self)).2
  exact absurd h1024 (by decide)

/-- In range, and refused where the descriptors are invalid. -/
def CheckedAt (x : F ρ DWORD) (fds : List DWORD) (w : FileWorld ρ) : Prop :=
  InRange w (x w).state ∧ ∀ fd ∈ fds, ¬ValidFd fd →
    ∃ w', x w = .ok (-EBADF) w' ∧ w'.table = w.table ∧ w'.rest = w.rest

theorem checked_iff (c : DescriptorCall) (w : FileWorld ρ) :
    Checked env P c w ↔ CheckedAt (c.run env P) (c.descriptors env P w) w :=
  ⟨fun h ↦ ⟨h.inRange, h.refused⟩, fun h ↦ ⟨h.1, h.2⟩⟩

/-- A call that starts with the common check and stays in range behind it. -/
theorem checkedAt_withHandler {fd : DWORD} {call : Nat → F ρ DWORD}
    (hbounded : fd ≠ 1024#32 → Bounded (withHandler P fd call)) (w : FileWorld ρ) :
    CheckedAt (withHandler P fd call) [fd] w ↔ ∀ f ∈ [fd], f ≠ 1024#32 := by
  rw [List.forall_mem_singleton]
  constructor
  · rintro ⟨hin, -⟩ rfl
    rw [withHandler_1024] at hin
    exact not_inRange (inRange_refl w) hin
  · intro h1024
    refine ⟨hbounded h1024 w, fun f hf hinvalid ↦ ?_⟩
    rw [List.mem_singleton.mp hf] at hinvalid
    rw [withHandler_of_refused hinvalid h1024]
    exact ⟨w, rfl, rfl, rfl⟩

theorem checkedAt_sysDup (fd : DWORD) (w : FileWorld ρ) :
    CheckedAt (sysDup env P fd) [fd] w ↔
      fd ≠ 1024#32 ∧ (ValidFd fd ∨ lowestFree (w.table.openFiles P) ≠ none) := by
  obtain ⟨new, hnew, hscan⟩ := findFreeFD_eq P w
  have hin : InRange w { w with indexed := new ++ w.indexed } := ⟨new, rfl, hnew⟩
  cases hfree : lowestFree (w.table.openFiles P) with
  | none =>
    have hrun : sysDup env P fd w = .ok (-EMFILE) { w with indexed := new ++ w.indexed } := by
      rw [sysDup, Comp.bind_of_ok hscan, hfree]
      rfl
    have hother : ¬ValidFd fd → ¬CheckedAt (sysDup env P fd) [fd] w := by
      rintro hinvalid ⟨-, hrefused⟩
      obtain ⟨w', hw', -⟩ := hrefused fd List.mem_cons_self hinvalid
      rw [hrun] at hw'
      exact absurd (Result.ok.inj hw').1 (by decide)
    constructor
    · intro h
      have hvalid : ValidFd fd := by
        by_contra hinvalid
        exact hother hinvalid h
      exact ⟨ne_1024_of_validFd hvalid, .inl hvalid⟩
    · rintro ⟨h1024, hvalid | hnone⟩
      · exact ⟨bounded_sysDup env P h1024 w, fun f hf hinvalid ↦
          absurd ((List.mem_singleton.mp hf) ▸ hvalid) hinvalid⟩
      · exact absurd rfl hnone
  | some fdnew =>
    have hrun : sysDup env P fd w =
        sysDup2 env P fd (BitVec.ofNat 32 fdnew) { w with indexed := new ++ w.indexed } := by
      rw [sysDup, Comp.bind_of_ok hscan, hfree]
    constructor
    · rintro ⟨hbounded, -⟩
      refine ⟨?_, .inr (by simp)⟩
      rintro rfl
      rw [hrun, sysDup2, withHandler_1024] at hbounded
      exact not_inRange hin hbounded
    · rintro ⟨h1024, -⟩
      refine ⟨bounded_sysDup env P h1024 w, fun f hf hinvalid ↦ ?_⟩
      rw [List.mem_singleton.mp hf] at hinvalid
      rw [hrun, sysDup2, withHandler_of_refused hinvalid h1024]
      exact ⟨_, rfl, rfl, rfl⟩

/-- A `dup2` over 1024 from a descriptor in use. -/
theorem sysDup2_1024 {fdold : DWORD} {w : FileWorld ρ} {ioh : Nat} (hvalid : ValidFd fdold)
    (hopen : w.table.openFiles P fdold.toNat = some ioh) :
    sysDup2 env P fdold 1024#32 w =
      .fault { w with indexed := 1024 :: (fdold.toNat : Int) :: w.indexed } := by
  have hpass : ¬((1024#32 : DWORD).toInt < 0 ∨ (MAX_OPEN_FILES : Int) < (1024#32 : DWORD).toInt ∨
      1024#32 = fdold) := by
    rintro (h | h | h)
    · exact absurd h (by decide)
    · exact absurd h (by decide)
    · exact ne_1024_of_validFd hvalid h.symm
  rw [sysDup2, withHandler_of_open _ hvalid hopen, if_neg hpass]
  rfl

theorem checkedAt_sysDup2 (fdold fdnew : DWORD) (w : FileWorld ρ) :
    CheckedAt (sysDup2 env P fdold fdnew) [fdold, fdnew] w ↔ fdold ≠ 1024#32 ∧
      (fdnew = 1024#32 → ¬(ValidFd fdold ∧ w.table.openFiles P fdold.toNat ≠ none)) := by
  constructor
  · rintro ⟨hin, -⟩
    constructor
    · rintro rfl
      rw [sysDup2, withHandler_1024] at hin
      exact not_inRange (inRange_refl w) hin
    · rintro rfl ⟨hvalid, hopen⟩
      obtain ⟨ioh, hioh⟩ := Option.ne_none_iff_exists'.mp hopen
      rw [sysDup2_1024 env P hvalid hioh] at hin
      have hone : InRange w { w with indexed := (fdold.toNat : Int) :: w.indexed } := by
        refine ⟨[(fdold.toNat : Int)], rfl, ?_⟩
        simpa [toInt_of_validFd hvalid] using inRange_of_validFd hvalid
      exact not_inRange hone hin
  · rintro ⟨hold, hnew⟩
    by_cases hopen : ValidFd fdold ∧ w.table.openFiles P fdold.toNat ≠ none
    · have h1024 : fdnew ≠ 1024#32 := fun h ↦ hnew h hopen
      obtain ⟨ioh, hioh⟩ := Option.ne_none_iff_exists'.mp hopen.2
      refine ⟨bounded_sysDup2 env P hold h1024 w, fun f hf hinvalid ↦ ?_⟩
      have hf : f = fdnew := by
        rcases List.mem_cons.mp hf with rfl | hf
        · exact absurd hopen.1 hinvalid
        · exact List.mem_singleton.mp hf
      subst hf
      have hrefused : f.toInt < 0 ∨ (MAX_OPEN_FILES : Int) < f.toInt ∨ f = fdold := by
        rcases refused_iff.mpr ⟨hinvalid, h1024⟩ with h | h
        · exact .inl h
        · exact .inr (.inl h)
      rw [sysDup2, withHandler_of_open _ hopen.1 hioh, if_pos hrefused]
      exact ⟨_, rfl, rfl, rfl⟩
    · obtain ⟨new, hrange, hrun⟩ := withHandler_of_closed _ hold hopen
      rw [CheckedAt, sysDup2, hrun]
      exact ⟨⟨new, rfl, hrange⟩, fun f _ _ ↦ ⟨_, rfl, rfl, rfl⟩⟩

theorem mmapFile_of_refused {fd : DWORD} (hne : fd ≠ -1#32) (hinvalid : ¬ValidFd fd)
    (h1024 : fd ≠ 1024#32) :
    (mmapFile P fd : F ρ (DWORD ⊕ Option Nat)) = pure (.inl (-EBADF)) := by
  have hlt : MAX_OPEN_FILES < fd.toNat := by
    have hge : MAX_OPEN_FILES ≤ fd.toNat := Nat.not_lt.mp hinvalid
    have hne : fd.toNat ≠ MAX_OPEN_FILES := fun he ↦ h1024 (BitVec.eq_of_toNat_eq he)
    omega
  rw [mmapFile, if_neg hne, if_pos hlt]

/-- The rest of an `mmap` once its address is in line. -/
theorem sysMmap_eq (pArgs : DWORD) (w : FileWorld ρ) :
    sysMmap env P pArgs w =
      (if mmapAddr (env.readMemory P pArgs 24 w.rest) &&& ~~~0xFFF#32 ≠
          mmapAddr (env.readMemory P pArgs 24 w.rest) then .ok (-EINVAL) w
        else (mmapFile P (mmapFd (env.readMemory P pArgs 24 w.rest)) >>= fun
          | .inl eax => pure eax
          | .inr ioh => outside (env.mapMemory P (env.readMemory P pArgs 24 w.rest) ioh)) w) := by
  rw [sysMmap, Comp.get_bind]
  split
  · rfl
  · rfl

theorem bounded_mapFile {fd : DWORD} (h : fd ≠ 1024#32) (args : List UInt8) :
    Bounded (mmapFile P fd >>= fun
      | .inl eax => pure eax
      | .inr ioh => outside (env.mapMemory P args ioh) : F ρ DWORD) := by
  apply bounded_bind (bounded_mmapFile P h)
  intro file
  cases file with
  | inl eax => exact bounded_pure _
  | inr ioh => exact bounded_outside _

theorem checkedAt_sysMmap (pArgs : DWORD) (w : FileWorld ρ) :
    CheckedAt (sysMmap env P pArgs) (descriptors env P w (.mmap pArgs)) w ↔
      Guarded env P w (.mmap pArgs) := by
  rw [CheckedAt, sysMmap_eq]
  simp only [descriptors, Guarded]
  generalize env.readMemory P pArgs 24 w.rest = args
  split
  · next hunaligned =>
    have hin : InRange w (Result.ok (-EINVAL) w : Result (FileWorld ρ) DWORD).state :=
      inRange_refl w
    split
    · next hnone => simpa [hnone] using hin
    · next hsome =>
      rw [List.forall_mem_singleton]
      constructor
      · rintro ⟨-, hrefused⟩
        have hvalid : ValidFd (mmapFd args) := by
          by_contra hinvalid
          obtain ⟨w', hw', -⟩ := hrefused hinvalid
          exact absurd (Result.ok.inj hw').1 (by decide)
        exact .inr ⟨ne_1024_of_validFd hvalid, .inl hvalid⟩
      · rintro (hnone | ⟨-, hvalid | haligned⟩)
        · exact absurd hnone hsome
        · exact ⟨hin, fun hinvalid ↦ absurd hvalid hinvalid⟩
        · exact absurd haligned hunaligned
  · next haligned =>
    split
    · next hnone =>
      have hne : mmapFd args ≠ 1024#32 := hnone ▸ by decide
      simpa [hnone] using bounded_mapFile env P hne args w
    · next hsome =>
      rw [List.forall_mem_singleton]
      constructor
      · rintro ⟨hin, -⟩
        refine .inr ⟨fun h1024 ↦ ?_, .inr (not_not.mp haligned)⟩
        rw [h1024] at hin
        exact not_inRange (inRange_refl w) hin
      · rintro (hnone | ⟨h1024, -⟩)
        · exact absurd hnone hsome
        · refine ⟨bounded_mapFile env P h1024 args w, fun hinvalid ↦ ?_⟩
          rw [mmapFile_of_refused P hsome hinvalid h1024]
          exact ⟨w, rfl, rfl, rfl⟩

/-- The bounds hold of a call exactly where its arguments are guarded. -/
theorem checked_iff_guarded (c : DescriptorCall) (w : FileWorld ρ) :
    Checked env P c w ↔ Guarded env P w c := by
  rw [checked_iff]
  cases c with
  | read fd address size =>
    exact checkedAt_withHandler P (fun h ↦ bounded_sysRead env P h address size) w
  | write fd address size =>
    exact checkedAt_withHandler P (fun h ↦ bounded_sysWrite env P h address size) w
  | writev fd pV count =>
    apply checkedAt_withHandler
    exact fun h ↦ bounded_withHandler P h fun ioh ↦ bounded_writevLoop env P ioh _ _ _
  | close fd => exact checkedAt_withHandler P (fun h ↦ bounded_sysClose env P h) w
  | ioctl fd request data =>
    apply checkedAt_withHandler
    exact fun h ↦ bounded_withHandler P h fun ioh ↦ bounded_method ioh _
  | fchdir fd => exact checkedAt_withHandler P (fun h ↦ bounded_sysFchdir env P h) w
  | fcntl fd cmd arg =>
    exact checkedAt_withHandler P (fun h ↦ bounded_sysFcntl env P h cmd arg) w
  | dup fd => exact checkedAt_sysDup env P fd w
  | dup2 fdold fdnew => exact checkedAt_sysDup2 env P fdold fdnew w
  | getdents64 fd address maxbytes =>
    exact checkedAt_withHandler P (fun h ↦ bounded_sysGetdents64 env P h address maxbytes) w
  | fstat fd address =>
    exact checkedAt_withHandler P (fun h ↦ bounded_stat env P h address (env.stat P)) w
  | fstat64 fd address =>
    exact checkedAt_withHandler P (fun h ↦ bounded_stat env P h address (env.stat64 P)) w
  | lseek fd offset whence =>
    exact checkedAt_withHandler P (fun h ↦ bounded_sysLseek env P h offset whence) w
  | llseek fd offsetHigh offsetLow result whence =>
    apply checkedAt_withHandler
    exact fun h ↦ bounded_sysLlseek env P h offsetHigh offsetLow result whence
  | mmap pArgs => exact checkedAt_sysMmap env P pArgs w

/-- A `read` of 1024 looks one past the table. -/
theorem read_1024_not_checked :
    ¬Checked (Environment.idle Unit) 0 (.read 1024#32 0#32 4#32)
      { table := ⟨1, fun _ _ ↦ none, fun _ ↦ none, 0⟩, rest := ⟨⟩ } := by
  intro h
  obtain ⟨w', hrun, -⟩ := h.refused 1024#32 List.mem_cons_self (by decide)
  cases hrun

end DescriptorCall

end Keow.Files
