import Keow.Files.Pipes

/-!
# One pointer for all copies of a descriptor

Descriptors that are copies of each other, by `dup`, by `fork` or over an `execve`, share the
pointer of the file object that they refer to. Whatever processes do through them, and in
whatever order, is what one process could have done with the file and one pointer of its own:
nothing is written over, and nothing is read twice, but after a seek.
-/

namespace Keow.Files

open Keow.Base Keow.Kernel

/-! ## A file and one pointer -/

theorem overwrite_eq (content block : List UInt8) (pos : Nat) :
    overwrite content pos block =
      (content.take pos ++ List.replicate (pos - content.length) 0) ++ block ++
        content.drop (pos + block.length) := rfl

/-- Two blocks one after the other. -/
theorem overwrite_append (content block more : List UInt8) (pos : Nat) :
    overwrite (overwrite content pos block) (pos + block.length) more =
      overwrite content pos (block ++ more) := by
  have hpre : (content.take pos ++ List.replicate (pos - content.length) 0).length = pos := by
    rw [List.length_append, List.length_take, List.length_replicate]
    omega
  have hlength := length_overwrite content pos block
  have hgap : pos + block.length - (overwrite content pos block).length = 0 := by omega
  rw [overwrite_eq (overwrite content pos block), hgap, List.replicate_zero, List.append_nil]
  rw [overwrite_eq, overwrite_eq]
  generalize content.take pos ++ List.replicate (pos - content.length) 0 = pre at hpre
  have hfront : pos + block.length = (pre ++ block).length := by
    rw [List.length_append, hpre]
  rw [hfront, List.take_left, List.drop_append, List.drop_eq_nil_of_le (Nat.le_add_right _ _),
    List.nil_append, List.drop_drop, Nat.add_sub_cancel_left, ← hfront, List.length_append,
    Nat.add_assoc, List.append_assoc pre]

/-- A file as those see it who have one pointer into it. -/
structure Cursor where
  content : List UInt8
  pointer : Nat
  readable : Bool
  writable : Bool

/-- What is done through a pointer: so many bytes asked for and these got, these written, or the
pointer moved. -/
inductive Access where
  | got (size : Nat) (bytes : List UInt8)
  | put (bytes : List UInt8)
  | sought (offset method : DWORD)
deriving DecidableEq

/-- All that is written, in order. -/
def written (accesses : List Access) : List UInt8 :=
  accesses.flatMap fun
    | .put bytes => bytes
    | _ => []

/-- All that is read, in order. -/
def gotten (accesses : List Access) : List UInt8 :=
  accesses.flatMap fun
    | .got _ bytes => bytes
    | _ => []

namespace Cursor

/-- What there is to read. -/
def front (c : Cursor) (size : Nat) : List UInt8 :=
  if c.readable then (c.content.drop c.pointer).take size else []

/-- The content after a write. -/
def write (c : Cursor) (bytes : List UInt8) : List UInt8 :=
  if bytes = [] then c.content else overwrite c.content c.pointer bytes

/-- One who has the file alone could have got these bytes, or could have written these. -/
def Accepts (c : Cursor) : Access → Prop
  | .got size bytes => bytes = c.front size
  | .put bytes => bytes ≠ [] → c.writable = true
  | .sought _ _ => True

def next (c : Cursor) : Access → Cursor
  | .got _ bytes => { c with pointer := c.pointer + bytes.length }
  | .put bytes => { c with content := c.write bytes, pointer := c.pointer + bytes.length }
  | .sought offset method =>
      { c with
        pointer :=
          (setFilePointer ⟨c.content.length, c.pointer⟩ offset 0#32 method).file.pointer }

theorem write_append (c : Cursor) (bytes more : List UInt8) :
    (c.next (.put bytes)).write more = c.write (bytes ++ more) := by
  by_cases hbytes : bytes = []
  · subst hbytes
    rfl
  · have hboth : bytes ++ more ≠ [] := fun h ↦ hbytes (List.append_eq_nil_iff.mp h).1
    simp only [next, write, if_neg hbytes, if_neg hboth]
    split
    · next hmore => rw [hmore, List.append_nil]
    · exact overwrite_append c.content bytes more c.pointer

/-- Writes only: all that is written is there, in order. -/
theorem foldl_put (c : Cursor) {accesses : List Access}
    (h : ∀ a ∈ accesses, ∃ bytes, a = .put bytes) :
    (accesses.foldl next c).content = c.write (written accesses) := by
  induction accesses generalizing c with
  | nil => rfl
  | cons a accesses ih =>
    obtain ⟨⟨bytes, rfl⟩, hmore⟩ := List.forall_mem_cons.mp h
    rw [List.foldl_cons, ih _ hmore, write_append]
    rfl

/-- Reads only: all that is got is what was there, in order. -/
theorem foldl_got (c : Cursor) {accesses : List Access} (hc : c.readable = true)
    (haccepts : Along next Accepts c accesses)
    (h : ∀ a ∈ accesses, ∃ size bytes, a = .got size bytes) :
    gotten accesses = (c.content.drop c.pointer).take (gotten accesses).length := by
  induction accesses generalizing c with
  | nil => rfl
  | cons a accesses ih =>
    obtain ⟨⟨size, bytes, rfl⟩, hmore⟩ := List.forall_mem_cons.mp h
    obtain ⟨hbytes, haccepts⟩ := haccepts
    have hrest := ih (c.next (.got size bytes)) hc haccepts hmore
    have hbytes : bytes = (c.content.drop c.pointer).take size := hbytes.trans (if_pos hc)
    have htake : (c.content.drop c.pointer).take bytes.length = bytes := by
      rw [hbytes, List.length_take, ← List.take_eq_take_min]
    have hdrop : (c.content.drop c.pointer).drop bytes.length =
        c.content.drop (c.pointer + bytes.length) := List.drop_drop
    show bytes ++ gotten accesses =
      (c.content.drop c.pointer).take (bytes ++ gotten accesses).length
    rw [List.length_append, List.take_add, htake, hdrop]
    exact congrArg _ hrest

end Cursor

/-- A file, seen through one of its file objects. -/
def Win32.view (r : Win32) (o : Nat) : Cursor where
  content := r.content (r.file o).name
  pointer := (r.file o).pointer
  readable := (r.file o).readable
  writable := (r.file o).writable

/-- No other file object is one of the same file. -/
def Sole (r : Win32) (o : Nat) : Prop :=
  ∀ o' < r.opened, o' ≠ o → (r.file o').name ≠ (r.file o).name

instance (r : Win32) (o : Nat) : Decidable (Sole r o) :=
  inferInstanceAs (Decidable (∀ o' < r.opened, _ → _))

/-! ## What a call does to the file objects -/

/-- The file objects that there were have not been used, and only those files have been written
that there are new file objects of. -/
structure Unmoved (r₀ r : Win32) : Prop where
  opened : r₀.opened ≤ r.opened
  file : ∀ o < r₀.opened, r.file o = r₀.file o
  content : ∀ name, (∀ o, r₀.opened ≤ o → o < r.opened → (r.file o).name ≠ name) →
    r.content name = r₀.content name

section Unmoved

variable {r₀ r r' : Win32} {o : Nat}

theorem Unmoved.of_eq (h : Unmoved r₀ r) (hopened : r'.opened = r.opened)
    (hfile : r'.file = r.file) (hcontent : r'.content = r.content) : Unmoved r₀ r' := by
  constructor
  · exact hopened ▸ h.opened
  · exact hfile ▸ h.file
  · rw [hopened, hfile, hcontent]
    exact h.content

theorem Unmoved.view (h : Unmoved r₀ r) (ho : o < r₀.opened) (hsole : Sole r o) :
    r.view o = r₀.view o := by
  have hcontent : r.content (r₀.file o).name = r₀.content (r₀.file o).name := by
    apply h.content
    intro o' hle hlt
    rw [← h.file o ho]
    exact hsole o' hlt fun heq ↦ Nat.lt_irrefl _ (heq ▸ Nat.lt_of_lt_of_le ho hle)
  simp only [Win32.view, h.file o ho, hcontent]

/-- A new file object. -/
theorem unmoved_createFile (h : Unmoved r₀ r) (name : Nat) (access : DWORD) :
    Unmoved r₀ (r.createFile name access) where
  opened := Nat.le_succ_of_le h.opened
  file := fun o ho ↦
    (if_neg (Nat.ne_of_lt (Nat.lt_of_lt_of_le ho h.opened))).trans (h.file o ho)
  content := fun name' hname ↦ by
    apply h.content
    intro o hle hlt
    have hnew := hname o hle (Nat.lt_succ_of_lt hlt)
    rwa [show ((r.createFile name access).file o) = r.file o from if_neg (Nat.ne_of_lt hlt)] at hnew

theorem file_setPointer (r : Win32) (o pointer b : Nat) (hb : b ≠ o) :
    (r.setPointer o pointer).file b = r.file b := if_neg hb

theorem name_setPointer (r : Win32) (o pointer b : Nat) :
    ((r.setPointer o pointer).file b).name = (r.file b).name := by
  show (if b = o then _ else _ : Description).name = _
  split
  · next hb => rw [hb]
  · rfl

/-- The pointer of a new file object moves. -/
theorem unmoved_setPointer (h : Unmoved r₀ r) (ho : r₀.opened ≤ o) (pointer : Nat) :
    Unmoved r₀ (r.setPointer o pointer) where
  opened := h.opened
  file := fun b hb ↦
    (file_setPointer r o pointer b (Nat.ne_of_lt (Nat.lt_of_lt_of_le hb ho))).trans (h.file b hb)
  content := fun name hname ↦ h.content name fun b hle hlt ↦
    name_setPointer r o pointer b ▸ hname b hle hlt

/-- The file of a new file object is cut off. -/
theorem unmoved_endFile (h : Unmoved r₀ r) (ho : r₀.opened ≤ o) (hlt : o < r.opened) (P : Nat) :
    Unmoved r₀ (r.endFile P o) := by
  unfold Win32.endFile
  dsimp only
  split
  · refine ⟨h.opened, h.file, fun name hname ↦ ?_⟩
    exact (if_neg (hname o ho hlt).symm).trans (h.content name hname)
  · exact h.of_eq rfl rfl rfl

variable {host : Windows} {exited : List Nat} {C : Nat → List UInt8}

/-- What `Open` has made of a reference is a new file object, or no file object. -/
theorem le_of_reopens {e : Option End} (h : Reopens r e (some (.file o))) : r.opened ≤ o := by
  cases e with
  | none =>
    rcases h with hnone | hsome
    · cases hnone
    · exact Nat.le_of_eq (End.file.inj (Option.some.inj hsome)).symm
  | some e =>
    cases e with
    | file o' => exact Nat.le_of_eq (End.file.inj (Option.some.inj h)).symm
    | read i => cases h
    | write i => cases h

/-- No method but `Read`, `Write`, `Seek` and `Truncate` uses a file object. -/
theorem frame_unmoved (t₀ : Table) (r₀ : Win32) :
    Frame (win32Environment host t₀) Reopens (Linked exited C []) (Unmoved r₀) := by
  have hconstruct : ∀ {r P a kind}, Unmoved r₀ r →
      Unmoved r₀ (Win32.construct host P a kind r) := by
    intro r P a kind h
    unfold Win32.construct
    split <;> exact h.of_eq rfl rfl rfl
  have hcopy : ∀ P {r a b}, Unmoved r₀ r → Unmoved r₀ (Win32.copy host P a b r) := by
    intro P r a b h
    unfold Win32.copy
    split
    · exact h
    · exact h.of_eq rfl rfl rfl
  have hopen : ∀ {r kind P a access share disposition}, Unmoved r₀ r →
      Unmoved r₀ (r.openHandler host kind P a access share disposition).2 := by
    intro r kind P a access share disposition h
    unfold Win32.openHandler
    split
    · unfold Win32.openFile
      dsimp only
      have hclosed : Unmoved r₀ (r.close P a) := h.of_eq rfl rfl rfl
      split
      · exact hclosed
      · exact (unmoved_createFile hclosed _ access).of_eq rfl rfl rfl
    · exact h
    · exact h
  have hpipe : ∀ {r}, Unmoved r₀ r → Unmoved r₀ (Win32.createPipe host r).2 := by
    intro r h
    unfold Win32.createPipe
    split
    · exact h.of_eq rfl rfl rfl
    · exact h
  exact {
    construct := hconstruct
    copy := fun {_ P _ _} h ↦ hcopy P h
    close := fun h ↦ h.of_eq rfl rfl rfl
    openHandler := hopen
    createPipe := hpipe
    writeMemory := fun h ↦ h.of_eq rfl rfl rfl
    seek := by
      intro t r D P fd a offset method r₁ e h₁ he hlinked ha h
      show Unmoved r₀ (r.seek (r.kind a) P a offset method).2
      unfold Win32.seek
      split
      · next o _ ho =>
        have hD : D P fd = some (.file o) := by
          rw [hlinked.ref_of_slot ha, Holding.target, hlinked.owner ha]
          exact ho
        have hnew := Nat.le_trans h₁.opened (le_of_reopens (hD ▸ he))
        exact (unmoved_setPointer h hnew _).of_eq rfl rfl rfl
      · exact h.of_eq rfl rfl rfl
      · exact h
    truncate := by
      intro t r D P fd a r₁ e h₁ he hlinked ha h
      show Unmoved r₀ (r.truncate (r.kind a) P a)
      unfold Win32.truncate
      split
      · next o _ ho =>
        have htarget : r.holding.target a = some (.file o) := by
          rw [Holding.target, hlinked.owner ha]
          exact ho
        have hD : D P fd = some (.file o) := (hlinked.ref_of_slot ha).trans htarget
        have hnew := Nat.le_trans h₁.opened (le_of_reopens (hD ▸ he))
        exact unmoved_endFile h hnew (hlinked.known htarget) P
      · exact h.of_eq rfl rfl rfl
      · exact h }

end Unmoved

/-! ## What is done through a file object -/

variable (host : Windows)

namespace IORun

/-- What a call does through a file object. -/
def access (o : Nat) (s : IORun) (call : Nat × IOCall) : List Access :=
  let P := call.1
  let env := win32Environment host s.world.table
  if s.Enabled P call.2 then
    match call.2 with
    | .read fd address size =>
        if refersTo s.world P fd.toNat = some (.file o) then
          match sysRead env P fd address size s.world with
          | .ok eax w => [.got size.toNat (moved eax (w.rest.pipes.memory P) address)]
          | _ => []
        else []
    | .write fd address size =>
        if refersTo s.world P fd.toNat = some (.file o) then
          match sysWrite env P fd address size s.world with
          | .ok eax _ => [.put (moved eax (s.world.rest.pipes.memory P) address)]
          | _ => []
        else []
    | .lseek fd offset whence =>
        if refersTo s.world P fd.toNat = some (.file o) then
          ((seekMethod whence).map (.sought offset)).toList
        else []
    | _ => []
  else []

/-- What a run does through it. -/
def accesses (o : Nat) : IORun → List (Nat × IOCall) → List Access
  | _, [] => []
  | s, call :: calls => s.access host o call ++ accesses o (s.step host call) calls

end IORun

variable {host}

section Step

variable {exited : List Nat} {C : Nat → List UInt8} {w : FileWorld Win32} {P o : Nat}
  {fd address size : DWORD}

theorem Quiet.view {r r' : Win32} (h : Quiet r r') (o : Nat) : r'.view o = r.view o := by
  simp only [Win32.view, h.content, h.file]

theorem view_setPointer_other (r : Win32) {o o' : Nat} (h : o' ≠ o) (pointer : Nat) :
    (r.setPointer o' pointer).view o = r.view o := by
  simp only [Win32.view, file_setPointer r o' pointer o h.symm]
  rfl

theorem view_setPointer (r : Win32) (o pointer : Nat) :
    (r.setPointer o pointer).view o = { r.view o with pointer := pointer } := by
  have hfile : (r.setPointer o pointer).file o = { r.file o with pointer := pointer } :=
    if_pos rfl
  simp only [Win32.view, hfile]
  rfl

/-- `Read` through a file object. -/
theorem readFile_view (r : Win32) (P o : Nat) (address size : DWORD) (hsize : size.toNat < 2 ^ 31) :
    let result := r.readFile P o address size
    let eax := if result.1.1 then result.1.2
      else -win32ErrToUnixError (result.2.pipes.lastError P)
    let bytes := moved eax (result.2.pipes.memory P) address
    (r.view o).Accepts (.got size.toNat bytes) ∧
      result.2.view o = (r.view o).next (.got size.toNat bytes) := by
  have hlength : (r.front o size).length ≤ size.toNat := by
    unfold Win32.front
    split
    · exact List.length_take_le _ _
    · exact Nat.zero_le _
  dsimp only
  unfold Win32.readFile
  dsimp only
  split
  · next hreadable =>
    have hn : (BitVec.ofNat 32 (r.front o size).length).toNat = (r.front o size).length := by
      rw [BitVec.toNat_ofNat, Nat.mod_eq_of_lt (by omega)]
    have hmemory : ((((r.store P address (r.front o size)).setPointer o
        ((r.file o).pointer + (r.front o size).length)).fail P 0#32).pipes.memory P) =
          (r.pipes.memory P).write address (r.front o size) := if_pos rfl
    rw [if_pos rfl]
    dsimp only
    rw [moved_of_lt _ _ (by omega), hn, hmemory, Mem.read_write _ _ _ (by omega)]
    refine ⟨(if_pos hreadable).trans (if_pos hreadable).symm, ?_⟩
    rw [(quiet_fail _ _ _).view, view_setPointer]
    rfl
  · next hclosed =>
    rw [if_neg Bool.false_ne_true, moved_of_le _ _ (neg_win32ErrToUnixError_le _)]
    refine ⟨?_, (quiet_fail _ _ _).view o⟩
    show [] = if (r.file o).readable = true then _ else _
    rw [if_neg hclosed]

/-- `Write` through a file object. -/
theorem writeFile_view (host : Windows) (r : Win32) (P o : Nat) (address size : DWORD)
    (hsize : size.toNat < 2 ^ 31) :
    let result := r.writeFile host P o address size
    let eax := if result.1.1 then result.1.2
      else -win32ErrToUnixError (result.2.pipes.threadError P)
    let bytes := moved eax (r.pipes.memory P) address
    (r.view o).Accepts (.put bytes) ∧ result.2.view o = (r.view o).next (.put bytes) := by
  dsimp only
  unfold Win32.writeFile
  dsimp only
  split
  · next hnothing =>
    rw [if_neg Bool.false_ne_true, moved_of_le _ _ (neg_win32ErrToUnixError_le _)]
    exact ⟨fun hne ↦ absurd rfl hne, (quiet_fail _ _ _).view o⟩
  · next hsome =>
    have hwritable : (r.file o).writable = true := by
      by_contra hclosed
      exact hsome (if_neg hclosed)
    have htaken : r.taken host P o address size =
        ((r.pipes.memory P).read address size.toNat).take (host.room r) := if_pos hwritable
    have hlength : (r.taken host P o address size).length ≤ size.toNat := by
      rw [htaken]
      exact (List.length_take_le' _ _).trans (Nat.le_of_eq (Mem.length_read _ _ _))
    have hn : (BitVec.ofNat 32 (r.taken host P o address size).length).toNat =
        (r.taken host P o address size).length := by
      rw [BitVec.toNat_ofNat, Nat.mod_eq_of_lt (by omega)]
    have hprefix : (r.pipes.memory P).read address (r.taken host P o address size).length =
        r.taken host P o address size := by
      have hlen : (r.taken host P o address size).length = min (host.room r) size.toNat := by
        rw [htaken, List.length_take, Mem.length_read]
      rw [hlen, htaken, Mem.read, Mem.read, ← List.map_take, List.take_range]
    rw [if_pos rfl]
    dsimp only
    rw [moved_of_lt _ _ (by omega), hn, hprefix]
    refine ⟨fun _ ↦ hwritable, ?_⟩
    rw [(quiet_fail _ _ _).view, view_setPointer]
    simp only [Win32.view, Cursor.next, Cursor.write, if_neg hsome, if_true]

/-- Reading through another file object. -/
theorem readFile_view_other (r : Win32) {o o' : Nat} (h : o' ≠ o) (P : Nat)
    (address size : DWORD) : (r.readFile P o' address size).2.view o = r.view o := by
  unfold Win32.readFile
  dsimp only
  split
  · rw [(quiet_fail _ _ _).view, view_setPointer_other _ h]
    rfl
  · exact (quiet_fail _ _ _).view o

/-- Writing through a file object of another file. -/
theorem writeFile_view_other (r : Win32) {o o' : Nat} (h : o' ≠ o)
    (hname : (r.file o').name ≠ (r.file o).name) (P : Nat) (address size : DWORD) :
    (r.writeFile host P o' address size).2.view o = r.view o := by
  unfold Win32.writeFile
  dsimp only
  split
  · exact (quiet_fail _ _ _).view o
  · rw [(quiet_fail _ _ _).view, view_setPointer_other _ h]
    simp only [Win32.view, if_neg hname.symm]

/-- A read of any kind that is not through the file object. -/
theorem readEnd_view_other (r : Win32) {e : End} (h : e ≠ .file o) (flags : DWORD) :
    (r.readEnd (some e) flags P address size).2.view o = r.view o := by
  cases e with
  | read i => rfl
  | write i => exact (quiet_fail _ _ _).view o
  | file o' => exact readFile_view_other r (fun heq ↦ h (congrArg _ heq)) P address size

theorem writeEnd_view_other (r : Win32) {e : End} (h : e ≠ .file o) (he : e.Made r)
    (hsole : Sole r o) : (r.writeEnd host (some e) P address size).2.view o = r.view o := by
  cases e with
  | read i => exact (quiet_fail _ _ _).view o
  | write i =>
    show (r.writePipe P i address size).2.view o = r.view o
    unfold Win32.writePipe
    dsimp only
    split
    · split
      · rfl
      · rfl
    · exact (quiet_fail _ _ _).view o
  | file o' =>
    have hne : o' ≠ o := fun heq ↦ h (congrArg _ heq)
    exact writeFile_view_other r hne (hsole o' he hne) P address size

theorem opened_readEnd (r : Win32) (e : End) (flags : DWORD) :
    (r.readEnd (some e) flags P address size).2.opened = r.opened := by
  cases e with
  | read i => rfl
  | write i => rfl
  | file o =>
    show (r.readFile P o address size).2.opened = r.opened
    unfold Win32.readFile
    dsimp only
    split <;> rfl

theorem opened_writeEnd (r : Win32) (e : End) :
    (r.writeEnd host (some e) P address size).2.opened = r.opened := by
  cases e with
  | read i => rfl
  | write i =>
    show (r.writePipe P i address size).2.opened = r.opened
    unfold Win32.writePipe
    dsimp only
    split
    · split <;> rfl
    · rfl
  | file o =>
    show (r.writeFile host P o address size).2.opened = r.opened
    unfold Win32.writeFile
    dsimp only
    split <;> rfl

theorem sought_view (r : Win32) (o : Nat) (offset whence : DWORD) :
    (r.sought (some (.file o)) whence offset).view o =
      (((seekMethod whence).map (Access.sought offset)).toList).foldl Cursor.next (r.view o) := by
  unfold Win32.sought
  cases seekMethod whence with
  | none => rfl
  | some method => exact view_setPointer r o _

theorem sought_view_other (r : Win32) {e : Option End} (h : e ≠ some (.file o))
    (offset whence : DWORD) : (r.sought e whence offset).view o = r.view o := by
  unfold Win32.sought
  split
  · next o' _ _ _ => exact view_setPointer_other r (fun heq ↦ h (congrArg (some ∘ End.file) heq)) _
  · rfl

end Step

section Run

variable {s : IORun} {P o : Nat}

/-- A call on descriptors leaves every file object alone that there was. -/
theorem unmoved_call {c : Call} (h : s.Invariant) (henabled : s.Enabled P (.call c)) :
    Unmoved s.world.rest
      (c.run (win32Environment host s.world.table) P s.world).state.rest := by
  obtain ⟨C, hlinked, -⟩ := h
  obtain ⟨-, hlive, hallowed, -⟩ := henabled
  have htracks := (tracks_win32 host s.world.table s.exited C).frame
    (frame_unmoved s.world.table s.world.rest)
  have hcall := (onWorld_call htracks ⟨hlinked, Nat.le_refl _, fun _ _ ↦ rfl, fun _ _ ↦ rfl⟩ hlive
    hallowed.1 hallowed.2).safe s.world rfl rfl
  apply Comp.state_of_safe (fun w ↦ Unmoved s.world.rest w.rest) hcall
  · exact fun eax w' ⟨_, _, hD'⟩ ↦ hD'.2
  · exact fun w' hw' ↦ hw'.2

/-- File objects are not taken back. -/
theorem opened_le_step (h : s.Invariant) (call : Nat × IOCall) :
    s.world.rest.opened ≤ (s.step host call).world.rest.opened := by
  obtain ⟨P, c⟩ := call
  by_cases henabled : s.Enabled P c
  · obtain ⟨C, hlinked, -⟩ := id h
    obtain ⟨-, -, hvalid, -⟩ := id henabled
    cases c with
    | call c =>
      simp only [IORun.step, if_pos henabled]
      exact (unmoved_call h henabled).opened
    | read fd address size =>
      cases he : refersTo s.world P fd.toNat with
      | none =>
        obtain ⟨eax, w, hrun, -, hquiet⟩ := sysRead_none host address size hlinked hvalid.1 he
        simp only [IORun.step, if_pos henabled, hrun]
        exact Nat.le_of_eq hquiet.opened.symm
      | some e =>
        obtain ⟨w, hrun, -, hquiet⟩ := sysRead_refers host address size hlinked hvalid.1 he rfl
        simp only [IORun.step, if_pos henabled, hrun]
        exact Nat.le_of_eq (hquiet.opened.trans (opened_readEnd _ _ _)).symm
    | write fd address size =>
      cases he : refersTo s.world P fd.toNat with
      | none =>
        obtain ⟨eax, w, hrun, -, hquiet⟩ := sysWrite_none host address size hlinked hvalid.1 he
        simp only [IORun.step, if_pos henabled, hrun]
        exact Nat.le_of_eq hquiet.opened.symm
      | some e =>
        obtain ⟨w, hrun, -, hquiet, -⟩ := sysWrite_refers host address size hlinked hvalid.1 he rfl
        simp only [IORun.step, if_pos henabled, hrun]
        exact Nat.le_of_eq (hquiet.opened.trans (opened_writeEnd _ _)).symm
    | lseek fd offset whence =>
      obtain ⟨eax, w, hrun, -, hquiet⟩ := sysLseek_refers host (P := P) hlinked hvalid offset whence
      simp only [IORun.step, if_pos henabled, hrun]
      exact Nat.le_of_eq (hquiet.opened.trans (held_sought _ _ _ _).1.opened).symm
    | exit =>
      simp only [IORun.step, if_pos henabled]
      exact Nat.le_refl _
  · simp only [IORun.step, if_neg henabled]
    exact Nat.le_refl _

theorem along_singleton {c : Cursor} {a : Access} (h : c.Accepts a) :
    Along Cursor.next Cursor.Accepts c [a] := ⟨h, trivial⟩

/-- What a call does through a file object is what one who has the file alone could do. -/
theorem access_step (h : s.Invariant) (ho : o < s.world.rest.opened) (call : Nat × IOCall)
    (hsole : Sole s.world.rest o) (hsole' : Sole (s.step host call).world.rest o) :
    Along Cursor.next Cursor.Accepts (s.world.rest.view o) (s.access host o call) ∧
      (s.step host call).world.rest.view o =
        (s.access host o call).foldl Cursor.next (s.world.rest.view o) := by
  obtain ⟨P, c⟩ := call
  by_cases henabled : s.Enabled P c
  · obtain ⟨C, hlinked, -⟩ := id h
    obtain ⟨-, -, hvalid, -⟩ := id henabled
    cases c with
    | call c =>
      simp only [IORun.step, IORun.access, if_pos henabled] at hsole' ⊢
      exact ⟨trivial, (unmoved_call h henabled).view ho hsole'⟩
    | read fd address size =>
      obtain ⟨hfd, hsize⟩ := hvalid
      have hlt := (toNat_of_toInt_pos hsize).2
      cases he : refersTo s.world P fd.toNat with
      | none =>
        obtain ⟨eax, w, hrun, -, hquiet⟩ := sysRead_none host address size hlinked hfd he
        simp only [IORun.step, IORun.access, if_pos henabled, hrun, he, reduceCtorEq, if_false]
        exact ⟨trivial, hquiet.view o⟩
      | some e =>
        obtain ⟨w, hrun, -, hquiet⟩ := sysRead_refers host address size hlinked hfd he rfl
        simp only [IORun.step, IORun.access, if_pos henabled, hrun, he, Option.some.injEq]
        by_cases heq : e = .file o
        · subst heq
          obtain ⟨haccepts, hview⟩ := readFile_view s.world.rest P o address size hlt
          rw [if_pos rfl, hquiet.memory]
          exact ⟨along_singleton haccepts, (hquiet.view o).trans hview⟩
        · rw [if_neg heq]
          exact ⟨trivial, (hquiet.view o).trans (readEnd_view_other _ heq _)⟩
    | write fd address size =>
      obtain ⟨hfd, hsize⟩ := hvalid
      have hlt := (toNat_of_toInt_pos hsize).2
      cases he : refersTo s.world P fd.toNat with
      | none =>
        obtain ⟨eax, w, hrun, -, hquiet⟩ := sysWrite_none host address size hlinked hfd he
        simp only [IORun.step, IORun.access, if_pos henabled, hrun, he, reduceCtorEq, if_false]
        exact ⟨trivial, hquiet.view o⟩
      | some e =>
        obtain ⟨w, hrun, -, hquiet, -⟩ := sysWrite_refers host address size hlinked hfd he rfl
        simp only [IORun.step, IORun.access, if_pos henabled, hrun, he, Option.some.injEq]
        by_cases heq : e = .file o
        · subst heq
          obtain ⟨haccepts, hview⟩ := writeFile_view host s.world.rest P o address size hlt
          rw [if_pos rfl]
          exact ⟨along_singleton haccepts, (hquiet.view o).trans hview⟩
        · rw [if_neg heq]
          exact ⟨trivial, (hquiet.view o).trans (writeEnd_view_other _ heq (hlinked.made he) hsole)⟩
    | lseek fd offset whence =>
      obtain ⟨eax, w, hrun, -, hquiet⟩ := sysLseek_refers host (P := P) hlinked hvalid
        offset whence
      simp only [IORun.step, IORun.access, if_pos henabled, hrun]
      by_cases heq : refersTo s.world P fd.toNat = some (.file o)
      · rw [if_pos heq]
        refine ⟨?_, (hquiet.view o).trans (heq ▸ sought_view s.world.rest o offset whence)⟩
        cases seekMethod whence with
        | none => trivial
        | some method => exact along_singleton (a := .sought offset method) trivial
      · rw [if_neg heq]
        exact ⟨trivial, (hquiet.view o).trans (sought_view_other _ heq offset whence)⟩
    | exit =>
      simp only [IORun.step, IORun.access, if_pos henabled]
      exact ⟨trivial, rfl⟩
  · simp only [IORun.step, IORun.access, if_neg henabled]
    exact ⟨trivial, rfl⟩

theorem accesses_run (h : s.Invariant) (ho : o < s.world.rest.opened) {calls : List (Nat × IOCall)}
    (hsole : ∀ t ∈ trail (IORun.step host) s calls, Sole t.world.rest o) :
    Along Cursor.next Cursor.Accepts (s.world.rest.view o) (s.accesses host o calls) ∧
      (calls.foldl (IORun.step host) s).world.rest.view o =
        (s.accesses host o calls).foldl Cursor.next (s.world.rest.view o) := by
  induction calls generalizing s with
  | nil => exact ⟨trivial, rfl⟩
  | cons call calls ih =>
    have hmore : ∀ t ∈ trail (IORun.step host) (s.step host call) calls, Sole t.world.rest o :=
      fun t ht ↦ hsole t (List.mem_cons_of_mem _ ht)
    obtain ⟨hone, hview⟩ := access_step h ho call (hsole s (mem_trail_self _ _ _))
      (hmore _ (mem_trail_self _ _ _))
    obtain ⟨hrest, hfinal⟩ := ih (IORun.invariant_step h call)
      (Nat.lt_of_lt_of_le ho (opened_le_step h call)) hmore
    rw [hview] at hrest hfinal
    refine ⟨(along_append _ _ _).mpr ⟨hone, hrest⟩, ?_⟩
    rw [IORun.accesses, List.foldl_append]
    exact hfinal

end Run

/-- Through the only file object of a file, whoever has it in any run of any processes, there is
one sequence of accesses, as of one process that has the file alone: from whenever on, all that is
written goes one after another, and all that is read comes one after another. -/
theorem trail_shared (host : Windows) (p : PipeWorld) (content : Nat → List UInt8)
    (calls : List (Nat × IOCall)) {s : IORun}
    (hs : s ∈ trail (IORun.step host) (startPipes p content) calls) {o : Nat}
    (ho : o < s.world.rest.opened) (more : List (Nat × IOCall))
    (hsole : ∀ t ∈ trail (IORun.step host) s more, Sole t.world.rest o) :
    let before := s.world.rest.view o
    let seen := s.accesses host o more
    let after := (more.foldl (IORun.step host) s).world.rest.view o
    Along Cursor.next Cursor.Accepts before seen ∧ after = seen.foldl Cursor.next before ∧
      ((∀ a ∈ seen, ∃ bytes, a = .put bytes) → after.content = before.write (written seen)) ∧
      (before.readable = true → (∀ a ∈ seen, ∃ size bytes, a = .got size bytes) →
        gotten seen = (before.content.drop before.pointer).take (gotten seen).length) := by
  obtain ⟨halong, hafter⟩ := accesses_run (trail_invariant_io host p content calls s hs) ho hsole
  refine ⟨halong, hafter, fun hputs ↦ ?_, fun hreadable hgots ↦ ?_⟩
  · rw [hafter]
    exact Cursor.foldl_put _ hputs
  · exact Cursor.foldl_got _ hreadable halong hgots

/-- A process opens a file and forks, and then both processes write. -/
theorem trail_shared_fork :
    let s := List.foldl (IORun.step .increasing) (startPipes noPipes fun _ ↦ [])
      [(0, .call (.openFile (.made .file) 0x002#32)), (0, .call .fork)]
    let more := [(0, .write 3#32 100#32 2#32), (1, .write 3#32 100#32 3#32)]
    let seen := s.accesses .increasing 0 more
    let after := (more.foldl (IORun.step .increasing) s).world.rest.view 0
    seen = [.put [7, 7], .put [7, 7, 7]] ∧
      after.content = (s.world.rest.view 0).write (written seen) := by
  obtain ⟨-, -, hwrites, -⟩ := trail_shared .increasing noPipes (fun _ ↦ [])
    [(0, .call (.openFile (.made .file) 0x002#32)), (0, .call .fork)] (foldl_mem_trail _ _ _)
    (o := 0) (by decide +kernel) [(0, .write 3#32 100#32 2#32), (1, .write 3#32 100#32 3#32)]
    (by decide +kernel)
  have hseen : IORun.accesses .increasing 0
      (List.foldl (IORun.step .increasing) (startPipes noPipes fun _ ↦ [])
        [(0, .call (.openFile (.made .file) 0x002#32)), (0, .call .fork)])
      [(0, .write 3#32 100#32 2#32), (1, .write 3#32 100#32 3#32)] =
        [.put [7, 7], .put [7, 7, 7]] := by decide +kernel
  refine ⟨hseen, hwrites ?_⟩
  rw [hseen]
  simp

end Keow.Files
