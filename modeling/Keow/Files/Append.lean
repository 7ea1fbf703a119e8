import Keow.Files.Sharing

/-!
# Appends to one file

One regular file that descriptors of any processes are opened on with `O_APPEND`. `sys_open`
moves the file pointer of the new handle to the end, once; `sys_write` writes at the pointer it
finds. So nothing is lost exactly in the runs that find every pointer still at the end.
-/

namespace Keow.Files

open Keow.Base Keow.Kernel

/-! ## Writing over a list -/

/-- A block written at a position, with zeros in a gap. -/
def overwrite (content : List UInt8) (pos : Nat) (block : List UInt8) : List UInt8 :=
  content.take pos ++ List.replicate (pos - content.length) 0 ++ block ++
    content.drop (pos + block.length)

theorem overwrite_end (content block : List UInt8) :
    overwrite content content.length block = content ++ block := by
  have hdrop : content.drop (content.length + block.length) = [] :=
    List.drop_eq_nil_of_le (Nat.le_add_right _ _)
  rw [overwrite, List.take_length, Nat.sub_self, List.replicate_zero, List.append_nil, hdrop,
    List.append_nil]

theorem length_overwrite (content : List UInt8) (pos : Nat) (block : List UInt8) :
    (overwrite content pos block).length = max content.length (pos + block.length) := by
  simp only [overwrite, List.length_append, List.length_take, List.length_replicate,
    List.length_drop]
  omega

/-- A block written anywhere but at the end is not an addition. -/
theorem overwrite_eq_append_iff (content : List UInt8) {pos : Nat} {block : List UInt8}
    (hblock : block ≠ []) :
    overwrite content pos block = content ++ block ↔ pos = content.length := by
  constructor
  · intro h
    have hlength := congrArg List.length h
    have hpos := List.length_pos_iff.mpr hblock
    rw [length_overwrite, List.length_append] at hlength
    omega
  · rintro rfl
    exact overwrite_end content block

/-! ## The file -/

/-- What a handle of the file refers to: a file pointer, and whether it may be written. -/
structure FileObject where
  pointer : Nat
  writable : Bool

/-- The file, the file object of each `IOHFile` on it, the user memory of the processes, and the
last error. -/
structure Disk where
  content : List UInt8
  handle : Nat → Option Nat
  fileObject : Nat → FileObject
  memory : Nat → DWORD → UInt8
  error : DWORD

namespace Disk

def setHandle (d : Disk) (a : Nat) (o : Option Nat) : Disk :=
  { d with handle := fun b ↦ if b = a then o else d.handle b }

def setFileObject (d : Disk) (o : Nat) (x : FileObject) : Disk :=
  { d with fileObject := fun b ↦ if b = o then x else d.fileObject b }

def setPointer (d : Disk) (o pointer : Nat) : Disk :=
  d.setFileObject o { d.fileObject o with pointer := pointer }

end Disk

/-- What the system does that is not told by the file: which opens it admits, and how many bytes
it has room for. -/
structure Host where
  admits : Disk → (access share disposition : DWORD) → Bool
  room : Disk → Nat

variable (host : Host)

/-- The bytes that `WriteFile` takes from a buffer. -/
def block (d : Disk) (P o : Nat) (address size : DWORD) : List UInt8 :=
  if (d.fileObject o).writable then
    ((List.range size.toNat).map fun i ↦ d.memory P (address + BitVec.ofNat 32 i)).take
      (host.room d)
  else []

/-- `WriteFile`: the block goes to the file pointer, which moves behind it. -/
def writeFile (P o : Nat) (address size : DWORD) (d : Disk) : (Bool × DWORD) × Disk :=
  let b := block host d P o address size
  ((!b.isEmpty, BitVec.ofNat 32 b.length),
    if b.isEmpty then d
    else
      { d with content := overwrite d.content (d.fileObject o).pointer b }.setPointer o
        ((d.fileObject o).pointer + b.length))

/-- `SetFilePointer` by a low and a high half, which the caller has in one. -/
def seekFile (o : Nat) (offset : BitVec 64) (method : DWORD) (d : Disk) : BitVec 64 × Disk :=
  let origin : Int :=
    if method = FILE_BEGIN then 0
    else if method = FILE_CURRENT then (d.fileObject o).pointer
    else d.content.length
  let pos := (origin + offset.toInt).toNat
  (BitVec.ofNat 64 pos, d.setPointer o pos)

/-- The methods of an `IOHFile` on the file, `IOHFile.cpp:48–110` and `:190–210` and `:333–337`.
Objects that are not on it, and methods that no `open` or `write` calls, do as they may. -/
def diskEnvironment (base : Environment Disk) : Environment Disk :=
  { base with
    construct := fun _ _ _ ↦ id
    copy := fun _ a b d ↦ d.setHandle b (d.handle a)
    openHandler := fun _ a access share disposition _ d ↦
      if host.admits d access share disposition then
        (true, (d.setFileObject a
          { pointer := 0, writable := access &&& GENERIC_WRITE ≠ 0#32 }).setHandle a (some a))
      else (false, d)
    close := fun _ a d ↦ d.setHandle a none
    write := fun P a address size d ↦
      match d.handle a with
      | none => ((true, size), d)
      | some o => writeFile host P o address size d
    seek := fun _ a offset method d ↦
      match d.handle a with
      | none => (0#64, d)
      | some o => seekFile o offset method d
    truncate := fun _ a d ↦
      match d.handle a with
      | none => d
      | some o => { d with content := d.content.take (d.fileObject o).pointer }
    lastError := Disk.error
    dllLastError := fun _ d ↦ (d.error, d)
    sendSignal := fun _ _ ↦ id }

/-- A call on the file: `open` with these access flags, or a `write`. -/
inductive AppendCall where
  | openAppend (access : DWORD)
  | write (fd address size : DWORD)

variable (base : Environment Disk)

namespace AppendCall

def run (P : Nat) : AppendCall → F Disk DWORD
  | .openAppend access => sysOpen (diskEnvironment host base) P (.made .file) access
  | .write fd address size => sysWrite (diskEnvironment host base) P fd address size

/-- A call of a process that exists, on a descriptor of the table or with `O_APPEND` and without
`O_TRUNC`. -/
def Allowed (t : Table) (P : Nat) : AppendCall → Prop
  | .openAppend access => P < t.processes ∧ access &&& O_APPEND ≠ 0#32 ∧ access &&& O_TRUNC = 0#32
  | .write fd _ _ => P < t.processes ∧ ValidFd fd

instance (t : Table) (P : Nat) : (c : AppendCall) → Decidable (c.Allowed t P)
  | .openAppend _ => inferInstanceAs (Decidable (_ ∧ _ ∧ _))
  | .write _ _ _ => inferInstanceAs (Decidable (_ ∧ _))

/-- The file object that a call writes through. -/
def target (w : FileWorld Disk) (P : Nat) : AppendCall → Option Nat
  | .openAppend _ => none
  | .write fd _ _ => (w.table.openFiles P fd.toNat).bind w.rest.handle

/-- The bytes that a call gives to the file. -/
def written (w : FileWorld Disk) (P : Nat) : AppendCall → List UInt8
  | .openAppend _ => []
  | .write fd address size =>
      ((AppendCall.write fd address size).target w P).elim [] fun o ↦
        block host w.rest P o address size

end AppendCall

/-- A world, with what should be in the file. -/
structure AppendWorld where
  world : FileWorld Disk
  expected : List UInt8

/-- A call, and the bytes that it should append. Calls that are not allowed are not made. -/
def appendAfter (s : AppendWorld) (call : Nat × AppendCall) : AppendWorld :=
  if call.2.Allowed s.world.table call.1 then
    { world := (call.2.run host base call.1 s.world).state
      expected := s.expected ++ call.2.written host s.world call.1 }
  else s

/-- A call that writes finds the file pointer at the end of the file. -/
def AtEnd (s : AppendWorld) (call : Nat × AppendCall) : Prop :=
  call.2.Allowed s.world.table call.1 → ∀ o, call.2.target s.world call.1 = some o →
    call.2.written host s.world call.1 ≠ [] →
      (s.world.rest.fileObject o).pointer = s.world.rest.content.length

/-! ## What the calls do to the file -/

/-- The file has the same bytes. -/
def KeepsContent (w w' : FileWorld Disk) : Prop := w'.rest.content = w.rest.content

section KeepsContent

variable {α β : Type}

theorem keepsContent_refl (w : FileWorld Disk) : KeepsContent w w := rfl

theorem keepsContent_pure (a : α) : Comp.Always KeepsContent (pure a : F Disk α) :=
  Comp.always_pure keepsContent_refl a

theorem keepsContent_get : Comp.Always KeepsContent (Comp.get : F Disk (FileWorld Disk)) :=
  Comp.always_get fun _ ↦ rfl

theorem keepsContent_bind {x : F Disk α} {f : α → F Disk β} (hx : Comp.Always KeepsContent x)
    (hf : ∀ a, Comp.Always KeepsContent (f a)) : Comp.Always KeepsContent (x >>= f) := by
  have htrans : ∀ a b c : FileWorld Disk, KeepsContent a b → KeepsContent b c →
      KeepsContent a c := fun _ _ _ h h' ↦ Eq.trans h' h
  exact Comp.always_bind htrans hx hf

theorem keepsContent_ite {c : Prop} [Decidable c] {x y : F Disk α}
    (hx : Comp.Always KeepsContent x) (hy : Comp.Always KeepsContent y) :
    Comp.Always KeepsContent (if c then x else y) := Comp.always_ite hx hy

theorem keepsContent_modifyTable (f : Table → Table) :
    Comp.Always KeepsContent (modifyTable f : F Disk Unit) := Comp.always_modify fun _ ↦ rfl

theorem keepsContent_modifyRest {f : Disk → Disk} (h : ∀ d, (f d).content = d.content) :
    Comp.Always KeepsContent (modifyRest f) := Comp.always_modify fun w ↦ h w.rest

theorem keepsContent_outside {f : Disk → α × Disk} (h : ∀ d, (f d).2.content = d.content) :
    Comp.Always KeepsContent (outside f) := always_outside fun w ↦ h w.rest

theorem keepsContent_deref (a : Nat) : Comp.Always KeepsContent (deref a : F Disk Handler) :=
  always_deref keepsContent_refl a

theorem keepsContent_method {a : Nat} {f : Disk → α × Disk}
    (h : ∀ d, (f d).2.content = d.content) : Comp.Always KeepsContent (method a f) :=
  always_method keepsContent_refl (fun w ↦ h w.rest) a

theorem keepsContent_index (fd : Int) : Comp.Always KeepsContent (index fd : F Disk Unit) :=
  keepsContent_bind (Comp.always_modify fun _ ↦ rfl) fun _ ↦
    keepsContent_ite (Comp.always_fault fun _ ↦ rfl) (keepsContent_pure _)

theorem keepsContent_setSlot (P : Nat) (fd : Int) (a : Option Nat) :
    Comp.Always KeepsContent (setSlot P fd a : F Disk Unit) :=
  keepsContent_bind (keepsContent_index fd) fun _ ↦ keepsContent_modifyTable _

theorem keepsContent_findFreeFDIn (P : Nat) (fds : List Nat) :
    Comp.Always KeepsContent (findFreeFDIn P fds : F Disk (Option Nat)) := by
  induction fds with
  | nil => exact keepsContent_pure none
  | cons fd fds ih =>
    apply keepsContent_bind
    · exact keepsContent_bind (keepsContent_index fd) fun _ ↦
        keepsContent_bind keepsContent_get fun _ ↦ keepsContent_pure _
    · intro a
      cases a with
      | none => exact keepsContent_pure (some fd)
      | some _ => exact ih

end KeepsContent

theorem keepsContent_moreFlags (P ioh : Nat) {access : DWORD}
    (htrunc : access &&& O_TRUNC = 0#32) :
    Comp.Always KeepsContent (moreFlags (diskEnvironment host base) P ioh access) := by
  have hseek : ∀ a offset method d,
      ((diskEnvironment host base).seek P a offset method d).2.content = d.content := by
    intro a offset method d
    simp only [diskEnvironment]
    cases d.handle a with
    | none => rfl
    | some o => rfl
  have happend : Comp.Always KeepsContent (do
      if access &&& O_APPEND ≠ 0#32 then
        let _ ← method ioh ((diskEnvironment host base).seek P ioh 0#64 FILE_END)) := by
    apply keepsContent_ite
    · exact keepsContent_bind (keepsContent_method (hseek _ _ _)) fun _ ↦ keepsContent_pure _
    · exact keepsContent_pure _
  unfold moreFlags
  rw [if_neg (not_not.mpr htrunc)]
  exact happend

/-- Opening for append changes no byte. -/
theorem keepsContent_sysOpen (P : Nat) {access : DWORD} (htrunc : access &&& O_TRUNC = 0#32) :
    Comp.Always KeepsContent
      (sysOpen (diskEnvironment host base) P (.made .file) access) := by
  have hopen : ∀ a share disposition flags access d,
      ((diskEnvironment host base).openHandler P a access share disposition flags d).2.content =
        d.content := by
    intro a share disposition flags access d
    simp only [diskEnvironment]
    split <;> rfl
  unfold sysOpen
  apply keepsContent_bind (keepsContent_findFreeFDIn P _)
  intro fd
  cases fd with
  | none => exact keepsContent_pure _
  | some fd =>
    apply keepsContent_bind
    · apply keepsContent_bind
      · exact keepsContent_bind keepsContent_get fun _ ↦
          keepsContent_bind (keepsContent_modifyTable _) fun _ ↦
            keepsContent_bind (keepsContent_modifyRest fun _ ↦ rfl) fun _ ↦ keepsContent_pure _
      · exact fun _ ↦ keepsContent_pure _
    · intro ioh
      cases ioh with
      | none => exact keepsContent_pure _
      | some ioh =>
        apply keepsContent_bind (keepsContent_method (hopen _ _ _ _ _))
        intro ok
        apply keepsContent_ite
        · apply keepsContent_bind (keepsContent_setSlot P fd _)
          intro _
          exact keepsContent_bind (keepsContent_moreFlags host base P ioh htrunc) fun _ ↦
            keepsContent_pure _
        · apply keepsContent_bind
          · exact keepsContent_bind keepsContent_get fun _ ↦ keepsContent_pure _
          · intro eax
            apply keepsContent_bind
            · apply keepsContent_bind
              · exact keepsContent_bind (keepsContent_deref ioh) fun _ ↦
                  keepsContent_modifyRest fun _ ↦ rfl
              · exact fun _ ↦ keepsContent_modifyTable _
            · exact fun _ ↦ keepsContent_pure _

/-- A failed `write` changes no byte on the way to its error. -/
theorem keepsContent_writeError (P : Nat) :
    Comp.Always KeepsContent (writeError (diskEnvironment host base) P) := by
  apply keepsContent_bind (keepsContent_outside fun _ ↦ rfl)
  intro err
  apply keepsContent_bind
  · exact keepsContent_bind (keepsContent_outside fun _ ↦ rfl) fun _ ↦ keepsContent_pure _
  · intro eax
    apply keepsContent_ite
    · exact keepsContent_bind (keepsContent_modifyRest fun _ ↦ rfl) fun _ ↦ keepsContent_pure _
    · exact keepsContent_pure _

/-- `WriteFile` appends its block exactly if that is empty or the file pointer at the end. -/
theorem writeFile_content_iff (d : Disk) (P o : Nat) (address size : DWORD) :
    (writeFile host P o address size d).2.content = d.content ++ block host d P o address size ↔
      (block host d P o address size ≠ [] → (d.fileObject o).pointer = d.content.length) := by
  simp only [writeFile]
  by_cases hempty : block host d P o address size = []
  · rw [hempty, List.append_nil]
    exact iff_of_true rfl fun hne ↦ absurd rfl hne
  · rw [if_neg (by simpa using hempty)]
    show overwrite d.content _ _ = _ ↔ _
    rw [overwrite_eq_append_iff d.content hempty]
    exact ⟨fun h _ ↦ h, fun h ↦ h hempty⟩

/-- The bytes of the file after a `write`. -/
theorem content_sysWrite {w : FileWorld Disk} (hs : w.table.Sound) (P : Nat) {fd : DWORD}
    (hfd : ValidFd fd) (address size : DWORD) :
    (sysWrite (diskEnvironment host base) P fd address size w).state.rest.content =
      ((AppendCall.write fd address size).target w P).elim w.rest.content fun o ↦
        (writeFile host P o address size w.rest).2.content := by
  simp only [AppendCall.target]
  cases ha : w.table.openFiles P fd.toNat with
  | none =>
    have hclosed : ¬(ValidFd fd ∧ w.table.openFiles P fd.toNat ≠ none) := fun h ↦ h.2 ha
    obtain ⟨new, -, hrun⟩ := withHandler_of_closed _ (ne_1024_of_validFd hfd) hclosed
    rw [sysWrite, hrun]
    rfl
  | some a =>
    obtain ⟨h, hh⟩ := Option.ne_none_iff_exists'.mp (hs.live ha)
    have hrest : Comp.Always KeepsContent (do
        let written := ((diskEnvironment host base).write P a address size w.rest).1
        if written.1 then return written.2 else writeError (diskEnvironment host base) P) :=
      keepsContent_ite (keepsContent_pure _) (keepsContent_writeError host base P)
    have hopened : ({ w with indexed := (fd.toNat : Int) :: w.indexed } :
        FileWorld Disk).table.object a = some h := hh
    rw [sysWrite, withHandler_of_open _ hfd ha, Comp.bind_of_ok (method_eq hopened _)]
    apply (hrest _).trans
    rw [Option.bind_some]
    show ((diskEnvironment host base).write P a address size w.rest).2.content = _
    simp only [diskEnvironment]
    cases w.rest.handle a with
    | none => rfl
    | some o => rfl

/-- A `write` leaves the tables as they are. -/
theorem onTable_sysWrite (env : Environment Disk) {t : Table} (hs : t.Sound) (P : Nat)
    {fd : DWORD} (hfd : ValidFd fd) (address size : DWORD) :
    OnTable (sysWrite env P fd address size) t (fun _ t' ↦ t' = t) (· = t) := by
  apply onTable_withHandler P hfd
  · exact fun _ ↦ rfl
  · intro a ha
    apply onTable_bind
    apply onTable_method (hs.live ha)
    rintro ⟨done, written⟩
    apply onTable_ite
    · exact onTable_pure rfl
    · apply onTable_bind
      apply onTable_outside
      intro err
      apply onTable_bind
      apply onTable_dllError
      intro _
      apply onTable_ite
      · apply onTable_bind
        apply onTable_modifyRest
        exact onTable_pure rfl
      · exact onTable_pure rfl

theorem sound_appendAfter {s : AppendWorld} (hs : s.world.table.Sound)
    (call : Nat × AppendCall) : (appendAfter host base s call).world.table.Sound := by
  obtain ⟨P, c⟩ := call
  unfold appendAfter
  split
  · next hc =>
    cases c with
    | openAppend access =>
      apply table_of_onWorld Table.Sound
        (outcome_sysOpen (diskEnvironment host base) hs hc.1 (.made .file) access) rfl rfl
      · rintro eax t' _ ⟨D, -, hmoves⟩
        exact hmoves.sound
      · rintro t' _ ⟨rfl, -⟩
        exact hs
    | write fd address size =>
      apply table_of_onTable Table.Sound
        (onTable_sysWrite (diskEnvironment host base) hs P hc.2 address size) rfl
      · rintro eax t' rfl
        exact hs
      · rintro t' rfl
        exact hs
  · exact hs

/-- A file with what should be in it has it after a call exactly if the call writes at the
end. -/
theorem content_appendAfter_iff {s : AppendWorld} (hs : s.world.table.Sound)
    (hcontent : s.world.rest.content = s.expected) (call : Nat × AppendCall) :
    (appendAfter host base s call).world.rest.content =
      (appendAfter host base s call).expected ↔ AtEnd host s call := by
  obtain ⟨P, c⟩ := call
  unfold appendAfter AtEnd
  by_cases hc : c.Allowed s.world.table P
  · rw [if_pos hc]
    dsimp only
    cases c with
    | openAppend access =>
      have hkeeps : Comp.Always KeepsContent ((AppendCall.openAppend access).run host base P) :=
        keepsContent_sysOpen host base P hc.2.2
      have hnil : (AppendCall.openAppend access).written host s.world P = [] := rfl
      rw [hnil, List.append_nil]
      generalize (AppendCall.openAppend access).run host base P = x at *
      exact iff_of_true ((hkeeps s.world).trans hcontent) fun _ o ho ↦ (nomatch ho)
    | write fd address size =>
      have hfile := content_sysWrite host base hs P hc.2 address size
      have hwritten : (AppendCall.write fd address size).written host s.world P =
          ((AppendCall.write fd address size).target s.world P).elim [] fun o ↦
            block host s.world.rest P o address size := rfl
      rw [hwritten]
      simp only [AppendCall.run]
      rw [hfile]
      cases (AppendCall.write fd address size).target s.world P with
      | none =>
        rw [Option.elim_none, Option.elim_none, List.append_nil]
        exact iff_of_true hcontent fun _ o ho ↦ (nomatch ho)
      | some o =>
        rw [Option.elim_some, Option.elim_some, ← hcontent, writeFile_content_iff]
        constructor
        · rintro hend - o' ho hne
          obtain rfl := Option.some.inj ho
          exact hend hne
        · exact fun hend ↦ hend hc o rfl
  · rw [if_neg hc]
    exact iff_of_true hcontent fun h ↦ absurd h hc

/-- From any file and any handles on it, what opens and writes leave in the file is the initial
content and the blocks in their order, in every world of a run, exactly if every write of the run
finds its file pointer at the end. -/
theorem trail_content_iff {s : AppendWorld} (hs : s.world.table.Sound)
    (hstart : s.world.rest.content = s.expected) (calls : List (Nat × AppendCall)) :
    (∀ s' ∈ trail (appendAfter host base) s calls, s'.world.rest.content = s'.expected) ↔
      Along (appendAfter host base) (AtEnd host) s calls :=
  @trail_iff_along _ _ (appendAfter host base) (AtEnd host)
    (fun s ↦ s.world.table.Sound ∧ s.world.rest.content = s.expected)
    (fun s ↦ s.world.rest.content = s.expected)
    (fun _ h ↦ h.2)
    (fun _ call h hend ↦ ⟨sound_appendAfter host base h.1 call,
      (content_appendAfter_iff host base h.1 h.2 call).mpr hend⟩)
    (fun _ call h hlost hsame ↦
      hlost ((content_appendAfter_iff host base h.1 h.2 call).mp hsame))
    s ⟨hs, hstart⟩ calls

/-- A host that admits every open and has room. -/
def roomyHost : Host where
  admits _ _ _ _ := true
  room _ := 4096

/-- The first process, an empty file, and a user memory of `a` followed by `b`s. -/
def startAppend : AppendWorld where
  world :=
    { table := startTable
      rest :=
        { content := []
          handle := fun _ ↦ none
          fileObject := fun _ ↦ ⟨0, false⟩
          memory := fun _ address ↦ if address = 0#32 then 0x61 else 0x62
          error := 0#32 } }
  expected := []

/-- Two descriptors opened on the file, and a byte written through each. -/
def twoAppends : List (Nat × AppendCall) :=
  [(0, .openAppend (O_WRONLY ||| O_APPEND)), (0, .openAppend (O_WRONLY ||| O_APPEND)),
    (0, .write 3#32 0#32 1#32), (0, .write 4#32 1#32 1#32)]

/-- The first of the two writes is at the end of the file, the second is not. -/
theorem trail_content_iff_twoAppends :
    Along (appendAfter roomyHost (Environment.idle Disk)) (AtEnd roomyHost) startAppend
        (twoAppends.take 3) ∧
      ¬Along (appendAfter roomyHost (Environment.idle Disk)) (AtEnd roomyHost) startAppend
        twoAppends := by
  have hiff := trail_content_iff roomyHost (Environment.idle Disk) (s := startAppend)
    sound_startTable rfl
  refine ⟨(hiff _).mp (by decide +kernel), fun hend ↦ ?_⟩
  have hlast := (hiff _).mpr hend _ (foldl_mem_trail _ startAppend twoAppends)
  exact absurd hlast (by decide +kernel)

/-- The second byte falls on the first. -/
theorem twoAppends_lost :
    ¬∀ s ∈ trail (appendAfter roomyHost (Environment.idle Disk)) startAppend twoAppends,
      s.world.rest.content = s.expected := by
  intro hall
  have hlast := hall _ (foldl_mem_trail _ startAppend twoAppends)
  exact absurd hlast (by decide +kernel)

end Keow.Files
