import Mathlib
import Keow.Files.Win32

/-!
# Transfers through descriptors

`sys_read`, `sys_write` and `sys_lseek` act on what the descriptor refers to, and on nothing
else: they are given the handle that the object of the descriptor holds in the process that
calls.
-/

namespace Keow.Files

open Keow.Base Keow.Kernel

/-- What a descriptor refers to: what the handle in its object is for. -/
def refersTo (w : FileWorld Win32) (P fd : Nat) : Option End :=
  (w.table.openFiles P fd).bind w.rest.holding.target

/-- `m_Flags` of what is open at a descriptor. -/
def flagsOf (w : FileWorld Win32) (P : Nat) (fd : DWORD) : DWORD :=
  (w.table.handlerAt P fd.toNat).elim 0#32 Handler.flags

/-- A descriptor of some process refers to this. -/
def Referred (w : FileWorld Win32) (e : End) : Prop := ∃ p fd, refersTo w p fd = some e

section References

variable {exited : List Nat} {C : Nat → List UInt8} {m : List End} {t : Table} {r : Win32}
  {w : FileWorld Win32} {D : Nat → Nat → Option End} {P : Nat} {fd : DWORD}

theorem refersTo_eq (h : Linked exited C m w.table w.rest D) : refersTo w = D :=
  funext fun p ↦ funext fun fd ↦ (h.refers p fd).symm

theorem linked_refersTo (h : Linked exited C m w.table w.rest D) :
    Linked exited C m w.table w.rest (refersTo w) := by
  rwa [refersTo_eq h]

/-- What is open is what a descriptor refers to. -/
theorem Linked.isOpen_iff (h : Linked exited C [] t r D) (e : End) :
    r.holding.isOpen e = true ↔ ∃ p fd, D p fd = some e := by
  rw [h.holding.isOpen_iff]
  constructor
  · rintro ⟨a, ha⟩
    obtain ⟨v, hvalue, -⟩ := Holding.target_eq_some.mp ha
    obtain ⟨p, fd, hslot⟩ := h.placed (hvalue ▸ Option.some_ne_none v)
    exact ⟨p, fd, (h.ref_of_slot hslot).trans ha⟩
  · rintro ⟨p, fd, hfd⟩
    rw [h.refers] at hfd
    obtain ⟨a, -, ha⟩ := Option.bind_eq_some_iff.mp hfd
    exact ⟨a, ha⟩

theorem Linked.made (h : Linked exited C [] w.table w.rest (refersTo w)) {e : End}
    (he : refersTo w P fd.toNat = some e) : e.Made w.rest := by
  obtain ⟨a, -, htarget⟩ := Option.bind_eq_some_iff.mp he
  exact h.known htarget

/-- Where a process ends its descriptors refer to nothing, and the others stay. -/
theorem Linked.exit (h : Linked exited C [] t r D) (hlt : P < t.processes) :
    Linked (P :: exited) C [] t (r.exit P) (fun p fd ↦ if p = P then none else D p fd) := by
  have htarget : ∀ a, (r.exit P).holding.target a =
      if r.holding.owner a = P then none else r.holding.target a :=
    Holding.target_exit r.holding P
  have hkept : ∀ {a e}, (r.exit P).holding.target a = some e → r.holding.target a = some e := by
    intro a e ha
    rw [htarget] at ha
    split at ha
    · cases ha
    · exact ha
  have hgone : {p | p ∈ P :: exited} = insert P {p | p ∈ exited} := by
    ext p
    simp only [Set.mem_ofPred_eq, List.mem_cons, Set.mem_insert_iff]
  exact {
    sound := h.sound
    holding := hgone ▸ Holding.sound_exit h.holding P
    moving := h.moving
    moving_made := h.moving_made
    exited_lt := fun p hp ↦ (List.mem_cons.mp hp).elim (fun heq ↦ heq ▸ hlt) (h.exited_lt p)
    owner := h.owner
    placed := h.placed
    kind := h.kind
    target_kind := fun ha ↦ h.target_kind (hkept ha)
    known := fun ha ↦ h.known (hkept ha)
    writer := fun _ ↦ rfl
    content := h.content
    unmade := h.unmade
    refers := by
      intro p fd
      rw [h.refers]
      cases ha : t.openFiles p fd with
      | none => exact ite_self _
      | some a => rw [Option.bind_some, Option.bind_some, htarget, h.owner ha] }

/-- The handle in an object is one of the process that calls. -/
theorem endIn_eq (h : Linked exited C [] w.table w.rest (refersTo w)) {a : Nat}
    (ha : w.table.openFiles P fd.toNat = some a) :
    w.rest.endIn P a = refersTo w P fd.toNat := by
  rw [refersTo, ha, Option.bind_some, Holding.target, h.owner ha]
  rfl

/-- A descriptor that refers to something is open on an object of that class. -/
theorem openAt_of_refersTo (h : Linked exited C [] w.table w.rest (refersTo w)) (hfd : ValidFd fd)
    {e : End} (he : refersTo w P fd.toNat = some e) :
    ∃ a hd, OpenAt w P fd a hd ∧ w.rest.kind a = e.kind ∧ flagsOf w P fd = hd.flags := by
  obtain ⟨a, ha, htarget⟩ := Option.bind_eq_some_iff.mp he
  obtain ⟨hd, hhd⟩ := Option.ne_none_iff_exists'.mp (h.sound.live ha)
  refine ⟨a, hd, ⟨hfd, ha, hhd⟩, h.target_kind htarget, ?_⟩
  rw [flagsOf, Table.handlerAt_of_slot ha hhd, Option.elim_some]

end References

/-! ## The calls -/

/-- Only errors and signals differ, and whether a thread is blocked. -/
structure Quiet (r r' : Win32) : Prop where
  pipe : r'.pipes.pipe = r.pipes.pipe
  memory : r'.pipes.memory = r.pipes.memory
  made : r'.made = r.made
  content : r'.content = r.content
  file : r'.file = r.file
  opened : r'.opened = r.opened
  holding : r'.holding = r.holding
  kind : r'.kind = r.kind
  moving : r'.moving = r.moving

theorem Quiet.refl (r : Win32) : Quiet r r := ⟨rfl, rfl, rfl, rfl, rfl, rfl, rfl, rfl, rfl⟩

theorem Quiet.trans {r r' r'' : Win32} (h : Quiet r r') (h' : Quiet r' r'') : Quiet r r'' :=
  ⟨h'.pipe.trans h.pipe, h'.memory.trans h.memory, h'.made.trans h.made,
    h'.content.trans h.content, h'.file.trans h.file, h'.opened.trans h.opened,
    h'.holding.trans h.holding, h'.kind.trans h.kind, h'.moving.trans h.moving⟩

theorem quiet_fail (r : Win32) (P : Nat) (err : DWORD) : Quiet r (r.fail P err) :=
  ⟨rfl, rfl, rfl, rfl, rfl, rfl, rfl, rfl, rfl⟩

theorem quiet_dllLastError (host : Windows) (t : Table) (P : Nat) (r : Win32) :
    Quiet r ((win32Environment host t).dllLastError P r).2 :=
  ⟨rfl, rfl, rfl, rfl, rfl, rfl, rfl, rfl, rfl⟩

/-- What is reached, holds and refers as before. -/
theorem Quiet.held {r r' : Win32} (h : Quiet r r') : Held r r' :=
  ⟨h.holding, h.kind, h.moving, h.made, h.opened, fun i ↦ by rw [h.pipe]⟩

section Calls

variable (host : Windows) {exited : List Nat} {C : Nat → List UInt8} {w : FileWorld Win32}
  {P : Nat} {fd : DWORD} (address size : DWORD)

/-- A call on a descriptor that is not open fails with nothing done. -/
theorem withHandler_closed (hfd : ValidFd fd) (ha : w.table.openFiles P fd.toNat = none)
    (call : Nat → F Win32 DWORD) :
    ∃ w', withHandler P fd call w = .ok (-EBADF) w' ∧ w'.table = w.table ∧ w'.rest = w.rest := by
  obtain ⟨new, -, hrun⟩ := withHandler_of_closed call (ne_1024_of_validFd hfd) fun hc ↦ hc.2 ha
  exact ⟨_, hrun, rfl, rfl⟩

/-- `sys_read`, after `Read`. -/
theorem sysRead_run {a : Nat} {hd : Handler} (hopen : OpenAt w P fd a hd)
    {result : (Bool × DWORD) × Win32}
    (hread : w.rest.read (w.rest.kind a) hd.flags P a address size = result) :
    ∃ w', sysRead (win32Environment host w.table) P fd address size w =
        .ok (if result.1.1 then result.1.2
          else -win32ErrToUnixError (result.2.pipes.lastError P)) w' ∧
      w'.table = w.table ∧ Quiet result.2 w'.rest := by
  have hread' : (win32Environment host w.table).read P a address size w.rest = result := by
    rw [← hread]
    show w.rest.read (w.rest.kind a) ((w.table.object a).elim 0#32 Handler.flags) P a address size =
      _
    rw [hopen.object, Option.elim_some]
  rw [sysRead, withHandler_of_open _ hopen.valid hopen.slot, method_of_openAt hopen, hread']
  obtain ⟨⟨done, read⟩, r⟩ := result
  cases done with
  | true => exact ⟨_, rfl, rfl, Quiet.refl r⟩
  | false => exact ⟨_, rfl, rfl, quiet_dllLastError host w.table P r⟩

/-- After a write that broke or failed: the error of the last call, told twice. -/
theorem writeError_run (t : Table) (P : Nat) (w : FileWorld Win32) :
    ∃ w', writeError (win32Environment host t) P w =
        .ok (-win32ErrToUnixError (w.rest.pipes.threadError P)) w' ∧
      w'.table = w.table ∧ Quiet w.rest w'.rest ∧
      (w.rest.pipes.lastError P = ERROR_NO_DATA → (P, SIGPIPE) ∈ w'.rest.signals) := by
  have herr : (outside ((win32Environment host t).dllLastError P) : F Win32 DWORD) w =
      .ok (w.rest.pipes.lastError P)
        { w with rest := { w.rest with pipes := w.rest.pipes.keepError P } } := rfl
  rw [writeError, Comp.bind_of_ok herr, Comp.bind_of_ok (dllError_eq _ P _)]
  simp only [PipeWorld.getLastError, win32Environment, PipeWorld.lastError_keepError]
  split
  · exact ⟨_, rfl, rfl, ⟨rfl, rfl, rfl, rfl, rfl, rfl, rfl, rfl, rfl⟩,
      fun _ ↦ List.mem_cons_self⟩
  · next hother =>
    exact ⟨_, rfl, rfl, ⟨rfl, rfl, rfl, rfl, rfl, rfl, rfl, rfl, rfl⟩,
      fun hnodata ↦ absurd (.inr (.inl hnodata)) hother⟩

/-- `sys_write`, after `Write`. -/
theorem sysWrite_run {a : Nat} {hd : Handler} (hopen : OpenAt w P fd a hd)
    {result : (Bool × DWORD) × Win32}
    (hwrite : w.rest.write host (w.rest.kind a) P a address size = result) :
    ∃ w', sysWrite (win32Environment host w.table) P fd address size w =
        .ok (if result.1.1 then result.1.2
          else -win32ErrToUnixError (result.2.pipes.threadError P)) w' ∧
      w'.table = w.table ∧ Quiet result.2 w'.rest ∧
      (result.1.1 = false → result.2.pipes.lastError P = ERROR_NO_DATA →
        (P, SIGPIPE) ∈ w'.rest.signals) := by
  have hwrite' : (win32Environment host w.table).write P a address size w.rest = result := hwrite
  rw [sysWrite, withHandler_of_open _ hopen.valid hopen.slot, method_of_openAt hopen, hwrite']
  obtain ⟨⟨done, written⟩, r⟩ := result
  cases done with
  | true => exact ⟨_, rfl, rfl, Quiet.refl r, fun hfalse ↦ Bool.noConfusion hfalse⟩
  | false =>
    obtain ⟨w', hrun, htable, hquiet, hsignal⟩ := writeError_run host w.table P
      { w with rest := r, indexed := (fd.toNat : Int) :: w.indexed }
    exact ⟨w', hrun, htable, hquiet, fun _ ↦ hsignal⟩

/-- `sys_read` through a reference. -/
theorem sysRead_refers (h : Linked exited C [] w.table w.rest (refersTo w)) (hfd : ValidFd fd)
    {e : End} (he : refersTo w P fd.toNat = some e) {result : (Bool × DWORD) × Win32}
    (hread : w.rest.readEnd (some e) (flagsOf w P fd) P address size = result) :
    ∃ w', sysRead (win32Environment host w.table) P fd address size w =
        .ok (if result.1.1 then result.1.2
          else -win32ErrToUnixError (result.2.pipes.lastError P)) w' ∧
      w'.table = w.table ∧ Quiet result.2 w'.rest := by
  obtain ⟨a, hd, hopen, hkind, hflags⟩ := openAt_of_refersTo h hfd he
  refine sysRead_run host address size hopen ?_
  rw [← hread, hflags, ← he, ← endIn_eq h hopen.slot, hkind]
  cases e <;> rfl

/-- Without a reference there is nothing to read, but from what is no file and no pipe. -/
theorem sysRead_none (h : Linked exited C [] w.table w.rest (refersTo w)) (hfd : ValidFd fd)
    (hnone : refersTo w P fd.toNat = none) :
    ∃ eax w', sysRead (win32Environment host w.table) P fd address size w = .ok eax w' ∧
      w'.table = w.table ∧ Quiet w.rest w'.rest := by
  cases ha : w.table.openFiles P fd.toNat with
  | none =>
    obtain ⟨w', hrun, htable, hrest⟩ := withHandler_closed hfd ha _
    exact ⟨_, w', hrun, htable, hrest ▸ Quiet.refl _⟩
  | some a =>
    obtain ⟨hd, hhd⟩ := Option.ne_none_iff_exists'.mp (h.sound.live ha)
    have hread : Quiet w.rest (w.rest.read (w.rest.kind a) hd.flags P a address size).2 := by
      unfold Win32.read
      rw [endIn_eq h ha, hnone]
      split
      · exact quiet_fail _ _ _
      · exact quiet_fail _ _ _
      · exact Quiet.refl _
    obtain ⟨w', hrun, htable, hquiet⟩ := sysRead_run host address size ⟨hfd, ha, hhd⟩ rfl
    exact ⟨_, w', hrun, htable, hread.trans hquiet⟩

/-- `sys_write` through a reference. -/
theorem sysWrite_refers (h : Linked exited C [] w.table w.rest (refersTo w)) (hfd : ValidFd fd)
    {e : End} (he : refersTo w P fd.toNat = some e) {result : (Bool × DWORD) × Win32}
    (hwrite : w.rest.writeEnd host (some e) P address size = result) :
    ∃ w', sysWrite (win32Environment host w.table) P fd address size w =
        .ok (if result.1.1 then result.1.2
          else -win32ErrToUnixError (result.2.pipes.threadError P)) w' ∧
      w'.table = w.table ∧ Quiet result.2 w'.rest ∧
      (result.1.1 = false → result.2.pipes.lastError P = ERROR_NO_DATA →
        (P, SIGPIPE) ∈ w'.rest.signals) := by
  obtain ⟨a, hd, hopen, hkind, -⟩ := openAt_of_refersTo h hfd he
  refine sysWrite_run host address size hopen ?_
  rw [← hwrite, ← he, ← endIn_eq h hopen.slot, hkind]
  cases e <;> rfl

theorem sysWrite_none (h : Linked exited C [] w.table w.rest (refersTo w)) (hfd : ValidFd fd)
    (hnone : refersTo w P fd.toNat = none) :
    ∃ eax w', sysWrite (win32Environment host w.table) P fd address size w = .ok eax w' ∧
      w'.table = w.table ∧ Quiet w.rest w'.rest := by
  cases ha : w.table.openFiles P fd.toNat with
  | none =>
    obtain ⟨w', hrun, htable, hrest⟩ := withHandler_closed hfd ha _
    exact ⟨_, w', hrun, htable, hrest ▸ Quiet.refl _⟩
  | some a =>
    obtain ⟨hd, hhd⟩ := Option.ne_none_iff_exists'.mp (h.sound.live ha)
    have hwrite : Quiet w.rest (w.rest.write host (w.rest.kind a) P a address size).2 := by
      unfold Win32.write
      rw [endIn_eq h ha, hnone]
      split
      · exact quiet_fail _ _ _
      · exact quiet_fail _ _ _
      · exact Quiet.refl _
    obtain ⟨w', hrun, htable, hquiet, -⟩ := sysWrite_run host address size ⟨hfd, ha, hhd⟩ rfl
    exact ⟨_, w', hrun, htable, hwrite.trans hquiet⟩

/-- Where `SetFilePointer` leaves the pointer of a file object, by an offset of 32 bits. -/
def Win32.lands (r : Win32) (o : Nat) (offset method : DWORD) : Nat :=
  (setFilePointer ⟨(r.content (r.file o).name).length, (r.file o).pointer⟩ offset 0#32
    method).file.pointer

/-- A seek through a reference: only files have pointers. -/
def Win32.sought (e : Option End) (whence offset : DWORD) (r : Win32) : Win32 :=
  match e, seekMethod whence with
  | some (.file o), some method => r.setPointer o (r.lands o offset method)
  | _, _ => r

theorem held_sought (r : Win32) (e : Option End) (whence offset : DWORD) :
    Held r (r.sought e whence offset) ∧
      (r.sought e whence offset).pipes.pipe = r.pipes.pipe := by
  unfold Win32.sought
  split <;> exact ⟨⟨rfl, rfl, rfl, rfl, rfl, fun _ ↦ rfl⟩, rfl⟩

/-- `sys_lseek` through a reference, or without one. -/
theorem sysLseek_refers (h : Linked exited C [] w.table w.rest (refersTo w)) (hfd : ValidFd fd)
    (offset whence : DWORD) :
    ∃ eax w', sysLseek (win32Environment host w.table) P fd offset whence w = .ok eax w' ∧
      w'.table = w.table ∧
      Quiet (w.rest.sought (refersTo w P fd.toNat) whence offset) w'.rest := by
  cases ha : w.table.openFiles P fd.toNat with
  | none =>
    obtain ⟨w', hrun, htable, hrest⟩ := withHandler_closed hfd ha _
    have hnone : refersTo w P fd.toNat = none := by rw [refersTo, ha, Option.bind_none]
    exact ⟨_, w', hrun, htable, by rw [hrest, hnone]; exact Quiet.refl _⟩
  | some a =>
    obtain ⟨hd, hhd⟩ := Option.ne_none_iff_exists'.mp (h.sound.live ha)
    have hopen : OpenAt w P fd a hd := ⟨hfd, ha, hhd⟩
    rw [sysLseek, withHandler_of_open _ hopen.valid hopen.slot]
    cases hmethod : seekMethod whence with
    | none =>
      refine ⟨_, _, rfl, rfl, ?_⟩
      unfold Win32.sought
      split
      · next hsome => cases hmethod.symm.trans hsome
      · exact Quiet.refl _
    | some method =>
      have hseek : Quiet (w.rest.sought (refersTo w P fd.toNat) whence offset)
          (w.rest.seek (w.rest.kind a) P a (0#32 ++ offset) method).2 := by
        have hlow : (0#32 ++ offset).setWidth 32 = offset := BitVec.setWidth_append_eq_right
        have hhigh : (0#32 ++ offset).extractLsb' 32 32 = 0#32 :=
          BitVec.extractLsb'_append_eq_left
        unfold Win32.seek Win32.sought
        rw [endIn_eq h ha, hmethod]
        cases he : refersTo w P fd.toNat with
        | none =>
          dsimp only
          split
          · next heq => cases heq
          · exact quiet_fail _ _ _
          · exact Quiet.refl _
        | some e =>
          have hkind : w.rest.kind a = e.kind := by
            rw [refersTo, ha, Option.bind_some] at he
            exact h.target_kind he
          rw [hkind]
          cases e with
          | read i => exact Quiet.refl _
          | write i => exact Quiet.refl _
          | file o =>
            show Quiet _ (w.rest.seekFile P o (0#32 ++ offset) method).2
            rw [Win32.seekFile, hlow, hhigh]
            exact quiet_fail _ _ _
      have htold := quiet_dllLastError host w.table P
        (w.rest.seek (w.rest.kind a) P a (0#32 ++ offset) method).2
      dsimp only
      rw [method_of_openAt hopen, Comp.bind_of_ok (dllError_eq _ P _)]
      exact ⟨_, _, rfl, rfl, hseek.trans htold⟩

end Calls

end Keow.Files
