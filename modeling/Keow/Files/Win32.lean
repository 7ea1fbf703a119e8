import Keow.Base.Handles
import Keow.Files.Append
import Keow.Files.Exclusive
import Keow.Files.NonBlocking
import Keow.Files.Refers
import Keow.Files.Seek

/-!
# Handles of files and pipes

`IOHFile` and `IOHPipe` objects with their handles in the user processes: `Open` and `sys_pipe`
move handles there, `Duplicate` makes more, `Close` and the end of a process close them. Which
handles are open, and for what, is told by the descriptors alone.
-/

namespace Keow.Files

open Keow.Base Keow.Kernel

/-- What a handle is for: an end of a pipe, or a Win32 file object. -/
inductive End where
  | read (pipe : Nat)
  | write (pipe : Nat)
  | file (object : Nat)
deriving DecidableEq

/-- The class that holds such handles. -/
def End.kind : End → HandlerKind
  | .read _ | .write _ => .pipe
  | .file _ => .file

def ERROR_INVALID_HANDLE : DWORD := 6#32
def ERROR_DISK_FULL : DWORD := 112#32

/-- A Win32 file object: a file, the pointer into it, and what it was opened for. -/
structure Description where
  name : Nat
  pointer : Nat
  readable : Bool
  writable : Bool

/-- The pipes made so far, with user memory and errors; the files, and the file objects opened so
far; the handles of the processes and what `m_pInProcess` and `m_RemoteHandle` or `m_hRemotePipe`
are in each object; the classes of the objects; the handles that `CreatePipe` has left in the
kernel; and the signals sent. -/
structure Win32 where
  pipes : PipeWorld
  made : Nat
  content : Nat → List UInt8
  file : Nat → Description
  opened : Nat
  holding : Holding Nat Nat Nat End
  kind : Nat → HandlerKind
  moving : List End := []
  signals : List (Nat × Nat) := []

/-- What the system does that is not told by the rest: the value it gives to a new handle, which
is not in use; whether there is a pipe to be had; which file an `IOHFile` leads to, unless it is
not to be opened, and whether what else there is can be opened; and how much a disk takes. -/
structure Windows where
  value : Win32 → Nat → Nat
  free : ∀ r P, (P, value r P) ∉ r.holding.handles
  makesPipe : Win32 → Bool
  opensFile : Win32 → (access share disposition : DWORD) → Option Nat
  opensOther : Win32 → Bool
  room : Win32 → Nat
  error : Win32 → DWORD

namespace PipeWorld

/-- Win32 `WriteFile` to a pipe that is read from somewhere. -/
def append (r : PipeWorld) (pipe : Nat) (block : List UInt8)
    (h : ((r.pipe pipe).content ++ block).length < 2 ^ 32) : PipeWorld :=
  { r with
    pipe := fun i ↦
      if i = pipe then { r.pipe pipe with content := (r.pipe pipe).content ++ block, fits := h }
      else r.pipe i }

/-- The writer of each pipe is there or not. -/
def setWriters (r : PipeWorld) (writer : Nat → Bool) : PipeWorld :=
  { r with pipe := fun i ↦ { r.pipe i with writerOpen := writer i } }

/-- A pipe with nothing in it. -/
def clear (r : PipeWorld) (pipe : Nat) : PipeWorld :=
  { r with
    pipe := fun i ↦
      if i = pipe then { r.pipe pipe with content := [], fits := by decide } else r.pipe i }

end PipeWorld

namespace Win32

/-- Handles are opened or closed; a pipe whose last writing handle goes is broken. -/
def hold (r : Win32) (h : Holding Nat Nat Nat End) : Win32 :=
  { r with
    holding := h
    pipes := r.pipes.setWriters fun i ↦ h.isOpen (.write i) }

/-- Win32 `SetLastError`, kept for the kernel. -/
def fail (r : Win32) (P : Nat) (err : DWORD) : Win32 :=
  { r with pipes := (r.pipes.setThreadError P err).keepError P }

/-- The constructor of the base class, `IOHandler.cpp:34–39`. -/
def appoint (P a : Nat) (kind : HandlerKind) (r : Win32) : Win32 :=
  { r with
    holding := r.holding.appoint a P
    kind := fun b ↦ if b = a then kind else r.kind b }

/-- Win32 `DuplicateHandle` into the process of an object, which keeps the handle. -/
def grant (host : Windows) (a : Nat) (e : End) (r : Win32) : Win32 :=
  r.hold (r.holding.grant a (host.value r (r.holding.owner a)) e)

/-- The constructors. That of `IOHPipe`, `IOHPipe.cpp:33–37`, moves a handle from the kernel; in
`Duplicate` there is none to move. -/
def construct (host : Windows) (P a : Nat) (kind : HandlerKind) (r : Win32) : Win32 :=
  match kind, r.moving with
  | .pipe, e :: es => { (r.appoint P a kind).grant host a e with moving := es }
  | _, _ => r.appoint P a kind

/-- `Duplicate`, `IOHFile.cpp:48–71` and `IOHPipe.cpp:46–55`: a handle for the same, in the process
of the new object. -/
def copy (host : Windows) (_P a b : Nat) (r : Win32) : Win32 :=
  match r.holding.target a with
  | none => r
  | some e => r.grant host b e

/-- `Close`, `IOHFile.cpp:99–110` and `IOHPipe.cpp:62–69`, in the process that runs it. -/
def close (P a : Nat) (r : Win32) : Win32 := r.hold (r.holding.drop P a)

/-- Win32 `CreatePipe`. -/
def createPipe (host : Windows) (r : Win32) : Bool × Win32 :=
  if host.makesPipe r then
    (true, { r with
      pipes := r.pipes.clear r.made
      made := r.made + 1
      moving := [.read r.made, .write r.made] })
  else (false, r)

/-- Win32 `CreateFile` where it succeeds: a file object at the start of the file. -/
def createFile (name : Nat) (access : DWORD) (r : Win32) : Win32 :=
  let d : Description :=
    { name := name
      pointer := 0
      readable := access &&& GENERIC_READ ≠ 0#32
      writable := access &&& GENERIC_WRITE ≠ 0#32 }
  { r with
    file := fun o ↦ if o = r.opened then d else r.file o
    opened := r.opened + 1 }

/-- `IOHFile::Open`, `IOHFile.cpp:73–97`. -/
def openFile (host : Windows) (P a : Nat) (access share disposition : DWORD) (r : Win32) :
    Bool × Win32 :=
  let r := r.close P a
  match host.opensFile r access share disposition with
  | none => (false, r)
  | some name => (true, (r.createFile name access).grant host a (.file r.opened))

/-- `Open`, by the class of the object. -/
def openHandler (host : Windows) (kind : HandlerKind) (P a : Nat)
    (access share disposition : DWORD) (r : Win32) : Bool × Win32 :=
  match kind with
  | .file => r.openFile host P a access share disposition
  | .pipe => (true, r)
  | _ => (host.opensOther r, r)

/-- What the handle of an object is for in a process. -/
def endIn (r : Win32) (P a : Nat) : Option End :=
  (r.holding.value a).bind fun v ↦ r.holding.handles.lookup (P, v)

/-- The pointer of a file object moves. -/
def setPointer (r : Win32) (o pointer : Nat) : Win32 :=
  { r with file := fun b ↦ if b = o then { r.file o with pointer := pointer } else r.file b }

/-- User memory is written. -/
def store (r : Win32) (P : Nat) (address : DWORD) (bytes : List UInt8) : Win32 :=
  { r with
    pipes :=
      { r.pipes with
        memory := fun q ↦
          if q = P then (r.pipes.memory P).write address bytes else r.pipes.memory q } }

/-- What is read at the pointer of a file object. -/
def front (r : Win32) (o : Nat) (size : DWORD) : List UInt8 :=
  if (r.file o).readable then
    ((r.content (r.file o).name).drop (r.file o).pointer).take size.toNat
  else []

/-- `IOHFile::Read`, `IOHFile.cpp:303–320`: the end of the file is no error. -/
def readFile (P o : Nat) (address size : DWORD) (r : Win32) : (Bool × DWORD) × Win32 :=
  let bytes := r.front o size
  if (r.file o).readable then
    ((true, BitVec.ofNat 32 bytes.length),
      ((r.store P address bytes).setPointer o ((r.file o).pointer + bytes.length)).fail P 0#32)
  else ((false, 0#32), r.fail P ERROR_ACCESS_DENIED)

/-- The bytes that Win32 `WriteFile` takes from a buffer for a file. -/
def taken (host : Windows) (r : Win32) (P o : Nat) (address size : DWORD) : List UInt8 :=
  if (r.file o).writable then ((r.pipes.memory P).read address size.toNat).take (host.room r)
  else []

/-- `IOHFile::Write`, `IOHFile.cpp:323–327`. -/
def writeFile (host : Windows) (P o : Nat) (address size : DWORD) (r : Win32) :
    (Bool × DWORD) × Win32 :=
  let bytes := r.taken host P o address size
  let d := r.file o
  if bytes = [] then
    ((false, 0#32), r.fail P (if d.writable then
      if size = 0#32 then 0#32 else ERROR_DISK_FULL else ERROR_ACCESS_DENIED))
  else
    ((true, BitVec.ofNat 32 bytes.length),
      ({ r with
        content := fun name ↦
          if name = d.name then overwrite (r.content name) d.pointer bytes
          else r.content name }.setPointer o (d.pointer + bytes.length)).fail P 0#32)

/-- `Read`, by what the handle in the object is for. That of `IOHPipe` is
`IOHPipe.cpp:99–136`. -/
def readEnd (e : Option End) (flags : DWORD) (P : Nat) (address size : DWORD) (r : Win32) :
    (Bool × DWORD) × Win32 :=
  match e with
  | some (.read i) =>
      let result := r.pipes.readPipe flags P i address size
      (result.1, { r with pipes := result.2 })
  | some (.file o) => r.readFile P o address size
  | some (.write _) => ((false, 0#32), r.fail P ERROR_ACCESS_DENIED)
  | none => ((false, 0#32), r.fail P ERROR_INVALID_HANDLE)

/-- `IOHPipe::Write`, `IOHPipe.cpp:139–143`, with `SysCallDll::WriteFile`,
`SysCallDll_User.cpp:166–174`. A thread that waits for room is `blocked`. -/
def writePipe (P i : Nat) (address size : DWORD) (r : Win32) : (Bool × DWORD) × Win32 :=
  let block := (r.pipes.memory P).read address size.toNat
  if r.holding.isOpen (.read i) then
    if h : ((r.pipes.pipe i).content ++ block).length < 2 ^ 32 then
      ((size ≠ 0#32, size), { r with pipes := r.pipes.append i block h }.fail P 0#32)
    else ((false, 0#32), { r with pipes := { r.pipes with blocked := true } })
  else ((false, 0#32), r.fail P ERROR_NO_DATA)

/-- `Write`, by what the handle in the object is for. -/
def writeEnd (host : Windows) (e : Option End) (P : Nat) (address size : DWORD) (r : Win32) :
    (Bool × DWORD) × Win32 :=
  match e with
  | some (.write i) => r.writePipe P i address size
  | some (.file o) => r.writeFile host P o address size
  | some (.read _) => ((false, 0#32), r.fail P ERROR_ACCESS_DENIED)
  | none => ((false, 0#32), r.fail P ERROR_INVALID_HANDLE)

/-- Win32 `SetFilePointer` on a file object. -/
def seekFile (P o : Nat) (pos : BitVec 64) (method : DWORD) (r : Win32) : BitVec 64 × Win32 :=
  let d := r.file o
  let done := setFilePointer { length := (r.content d.name).length, pointer := d.pointer }
    (pos.setWidth 32) (pos.extractLsb' 32 32) method
  (pos.extractLsb' 32 32 ++ done.low, (r.setPointer o done.file.pointer).fail P done.error)

/-- Win32 `SetEndOfFile` on a file object. -/
def endFile (P o : Nat) (r : Win32) : Win32 :=
  let d := r.file o
  if d.writable then
    { r with
      content := fun name ↦
        if name = d.name then (overwrite (r.content name) d.pointer []).take d.pointer
        else r.content name }
  else r.fail P ERROR_ACCESS_DENIED

/-- `Read`, by the class of the object. -/
def read (kind : HandlerKind) (flags : DWORD) (P a : Nat) (address size : DWORD) (r : Win32) :
    (Bool × DWORD) × Win32 :=
  match kind with
  | .file | .pipe => r.readEnd (r.endIn P a) flags P address size
  | _ => ((true, size), r)

/-- `Write`, by the class of the object. -/
def write (host : Windows) (kind : HandlerKind) (P a : Nat) (address size : DWORD) (r : Win32) :
    (Bool × DWORD) × Win32 :=
  match kind with
  | .file | .pipe => r.writeEnd host (r.endIn P a) P address size
  | _ => ((true, size), r)

/-- `Seek`. That of `IOHFile` is `IOHFile.cpp:192–198`. -/
def seek (kind : HandlerKind) (P a : Nat) (pos : BitVec 64) (method : DWORD) (r : Win32) :
    BitVec 64 × Win32 :=
  match kind, r.endIn P a with
  | .file, some (.file o) => r.seekFile P o pos method
  | .file, _ => (pos.extractLsb' 32 32 ++ 0xFFFFFFFF#32, r.fail P ERROR_INVALID_HANDLE)
  | _, _ => (-1#64, r)

/-- `Truncate`. That of `IOHFile` is `IOHFile.cpp:200–204`. -/
def truncate (kind : HandlerKind) (P a : Nat) (r : Win32) : Win32 :=
  match kind, r.endIn P a with
  | .file, some (.file o) => r.endFile P o
  | .file, _ => r.fail P ERROR_INVALID_HANDLE
  | _, _ => r

/-- A Win32 process ends. -/
def exit (P : Nat) (r : Win32) : Win32 := r.hold (r.holding.exit P)

end Win32

/-- The methods of the objects of a table. What other classes than `IOHFile` and `IOHPipe` do is
not told here. -/
def win32Environment (host : Windows) (t : Table) : Environment Win32 :=
  { Environment.idle Win32 with
    construct := Win32.construct host
    copy := Win32.copy host
    openHandler := fun P a access share disposition _ r ↦
      r.openHandler host (r.kind a) P a access share disposition
    close := Win32.close
    read := fun P a address size r ↦
      r.read (r.kind a) ((t.object a).elim 0#32 Handler.flags) P a address size
    write := fun P a address size r ↦ r.write host (r.kind a) P a address size
    seek := fun P a pos method r ↦ r.seek (r.kind a) P a pos method
    truncate := fun P a r ↦ r.truncate (r.kind a) P a
    createPipe := fun _ ↦ Win32.createPipe host
    lastError := host.error
    dllLastError := fun P r ↦
      ((r.pipes.getLastError P).1, { r with pipes := (r.pipes.getLastError P).2 })
    readMemory := fun P address n r ↦ (r.pipes.memory P).read address n
    writeMemory := fun P address bytes r ↦ r.store P address bytes
    sendSignal := fun P signal r ↦ { r with signals := (P, signal) :: r.signals } }

/-! ## Handles and descriptors match -/

/-- There is such a pipe or file object. -/
def End.Made (r : Win32) : End → Prop
  | .read i | .write i => i < r.made
  | .file o => o < r.opened

theorem End.Made.mono {r r' : Win32} {e : End} (h : e.Made r) (hmade : r.made ≤ r'.made)
    (hopened : r.opened ≤ r'.opened) : e.Made r' := by
  cases e with
  | read i => exact Nat.lt_of_lt_of_le h hmade
  | write i => exact Nat.lt_of_lt_of_le h hmade
  | file o => exact Nat.lt_of_lt_of_le h hopened

/-- In this world the descriptors refer to `D`, and nothing else is open; the pipes hold `C`, and
the handles `m`, of pipes, are still in the kernel. -/
structure Linked (exited : List Nat) (C : Nat → List UInt8) (m : List End) (t : Table) (r : Win32)
    (D : Nat → Nat → Option End) : Prop where
  sound : t.Sound
  holding : r.holding.Sound {p | p ∈ exited}
  moving : r.moving = m
  moving_made : ∀ e ∈ m, e.kind = .pipe ∧ e.Made r
  exited_lt : ∀ p ∈ exited, p < t.processes
  owner : ∀ {p fd a}, t.openFiles p fd = some a → r.holding.owner a = p
  placed : ∀ {a}, r.holding.value a ≠ none → ∃ p fd, t.openFiles p fd = some a
  kind : ∀ {p fd a h}, t.openFiles p fd = some a → t.object a = some h → r.kind a = h.kind
  target_kind : ∀ {a e}, r.holding.target a = some e → r.kind a = e.kind
  known : ∀ {a e}, r.holding.target a = some e → e.Made r
  writer : ∀ i, (r.pipes.pipe i).writerOpen = r.holding.isOpen (.write i)
  content : ∀ i < r.made, (r.pipes.pipe i).content = C i
  unmade : ∀ i, r.made ≤ i → C i = []
  refers : ∀ p fd, D p fd = (t.openFiles p fd).bind r.holding.target

/-- What the constructors leave of a new object at `a` of process `P`, and of everything else. -/
structure Begotten (exited : List Nat) (m : List End) (r : Win32) (P a : Nat) (k : HandlerKind)
    (e : Option End) (r' : Win32) : Prop where
  holding : r'.holding.Sound {p | p ∈ exited}
  moving : r'.moving = m
  made : r'.made = r.made
  opened : r.opened ≤ r'.opened
  content : ∀ i, (r'.pipes.pipe i).content = (r.pipes.pipe i).content
  writer : ∀ i, (r'.pipes.pipe i).writerOpen = r'.holding.isOpen (.write i)
  owner : r'.holding.owner a = P
  kind : r'.kind a = k
  target : r'.holding.target a = e
  target_kind : ∀ e', e = some e' → k = e'.kind
  known : ∀ e', e = some e' → e'.Made r'
  owner_ne : ∀ b ≠ a, r'.holding.owner b = r.holding.owner b
  value_ne : ∀ b ≠ a, r'.holding.value b = r.holding.value b
  kind_ne : ∀ b ≠ a, r'.kind b = r.kind b
  target_ne : ∀ b ≠ a, r'.holding.target b = r.holding.target b

section Linked

open Table

variable {host : Windows} {exited : List Nat} {C : Nat → List UInt8} {m : List End} {t : Table}
  {r r' : Win32} {D : Nat → Nat → Option End} {P fd : Nat} {kind : HandlerKind} {e : Option End}

theorem Linked.value_fresh (h : Linked exited C m t r D) : r.holding.value t.fresh = none := by
  by_contra hvalue
  obtain ⟨p, fd, ha⟩ := h.placed hvalue
  exact Nat.lt_irrefl _ (h.sound.lt_fresh ha)

theorem Linked.ref_of_slot (h : Linked exited C m t r D) {p fd a : Nat}
    (ha : t.openFiles p fd = some a) : D p fd = r.holding.target a := by
  rw [h.refers, ha, Option.bind_some]

theorem begotten_appoint (h : Linked exited C m t r D) (P : Nat) (kind : HandlerKind) :
    Begotten exited m r P t.fresh kind none (r.appoint P t.fresh kind) where
  holding := Holding.sound_appoint h.holding h.value_fresh P
  moving := h.moving
  made := rfl
  opened := Nat.le_refl _
  content := fun _ ↦ rfl
  writer := h.writer
  owner := if_pos rfl
  kind := if_pos rfl
  target := Holding.target_of_value_none (if_pos rfl)
  target_kind := fun _ he ↦ nomatch he
  known := fun _ he ↦ nomatch he
  owner_ne := fun _ hb ↦ if_neg hb
  value_ne := fun _ hb ↦ if_neg hb
  kind_ne := fun _ hb ↦ if_neg hb
  target_ne := fun b _ ↦ Holding.target_appoint h.value_fresh P b

variable (host) in
/-- The object gets a handle. -/
theorem begotten_grant {a : Nat} {k : HandlerKind} (hb : Begotten exited m r P a k none r')
    (hvalue : r'.holding.value a = none) (hP : P ∉ exited) {e : End} (hk : k = e.kind)
    (he : e.Made r') : Begotten exited m r P a k (some e) (r'.grant host a e) := by
  have hlive : r'.holding.owner a ∉ {p | p ∈ exited} := by
    rw [hb.owner]
    exact hP
  have hfree := host.free r' (r'.holding.owner a)
  have htarget := Holding.target_grant hb.holding hlive hfree e
  exact {
    holding := Holding.sound_grant hb.holding hvalue hlive hfree e
    moving := hb.moving
    made := hb.made
    opened := hb.opened
    content := hb.content
    writer := fun _ ↦ rfl
    owner := hb.owner
    kind := hb.kind
    target := (htarget a).trans (if_pos rfl)
    target_kind := fun _ he' ↦ Option.some.inj he' ▸ hk
    known := fun _ he' ↦ Option.some.inj he' ▸ he
    owner_ne := hb.owner_ne
    value_ne := fun b hne ↦ (if_neg hne).trans (hb.value_ne b hne)
    kind_ne := hb.kind_ne
    target_ne := fun b hne ↦ ((htarget b).trans (if_neg hne)).trans (hb.target_ne b hne) }

/-- The object loses its handle. -/
theorem begotten_close {a : Nat} {k : HandlerKind} (hb : Begotten exited m r P a k e r') :
    Begotten exited m r P a k none (r'.close P a) := by
  have htarget := Holding.target_drop hb.holding hb.owner
  have hvalue := Holding.value_drop r'.holding P a
  exact {
    holding := Holding.sound_drop hb.holding hb.owner
    moving := hb.moving
    made := hb.made
    opened := hb.opened
    content := hb.content
    writer := fun _ ↦ rfl
    owner := by
      show (r'.holding.drop P a).owner a = P
      rw [Holding.owner_drop, hb.owner]
    kind := hb.kind
    target := (htarget a).trans (if_pos rfl)
    target_kind := fun _ he ↦ nomatch he
    known := fun _ he ↦ nomatch he
    owner_ne := by
      intro b hne
      show (r'.holding.drop P a).owner b = r.holding.owner b
      rw [Holding.owner_drop, hb.owner_ne b hne]
    value_ne := fun b hne ↦ ((hvalue b).trans (if_neg hne)).trans (hb.value_ne b hne)
    kind_ne := hb.kind_ne
    target_ne := fun b hne ↦ ((htarget b).trans (if_neg hne)).trans (hb.target_ne b hne) }

theorem construct_settled (host : Windows) (P a : Nat) {kind : HandlerKind} {r : Win32}
    (h : kind ≠ .pipe ∨ r.moving = []) : Win32.construct host P a kind r = r.appoint P a kind := by
  unfold Win32.construct
  split
  · next e es hmoving =>
    rcases h with hne | hnil
    · exact absurd rfl hne
    · cases hmoving.symm.trans hnil
  · rfl

variable (host) in
/-- A new object refers to what its origin does. -/
theorem begotten_born (h : Linked exited C [] t r D) (hP : P ∉ exited) {o : Origin}
    (ho : o.Refers t D e) (t₀ : Table) :
    Begotten exited [] r P t.fresh o.kind e (born (win32Environment host t₀) P t.fresh r o) := by
  cases ho with
  | @made kind hkind =>
    have happoint := begotten_appoint h P kind
    rw [show born (win32Environment host t₀) P t.fresh r (.made _) =
      Win32.construct host P t.fresh _ r from rfl, construct_settled host P t.fresh (.inl hkind)]
    exact happoint
  | @copied q i a hd hslot hobject =>
    have hne : a ≠ t.fresh := fun heq ↦ Nat.lt_irrefl _ (heq ▸ h.sound.lt_fresh hslot)
    have happoint := begotten_appoint h P hd.kind
    rw [show born (win32Environment host t₀) P t.fresh r (.copied a hd.kind) =
      Win32.copy host P a t.fresh (Win32.construct host P t.fresh hd.kind r) from rfl,
      construct_settled host P t.fresh (.inr h.moving), Win32.copy, happoint.target_ne a hne,
      h.ref_of_slot hslot]
    cases htarget : r.holding.target a with
    | none => exact happoint
    | some e =>
      have hkind : hd.kind = e.kind := (h.kind hslot hobject).symm.trans (h.target_kind htarget)
      exact begotten_grant host happoint (if_pos rfl) hP hkind (h.known htarget)

/-- What `Open` makes of the reference of a new object: an `IOHFile` gets a file object of its
own, and an `IOHPipe` stays what it is. -/
def Reopens (r : Win32) (e e' : Option End) : Prop :=
  match e with
  | none => e' = none ∨ e' = some (.file r.opened)
  | some (.file _) => e' = some (.file r.opened)
  | some (.read _) | some (.write _) => e' = e

/-- A new object goes into a slot. -/
theorem Begotten.linked {m' : List End} (h : Linked exited C m t r D)
    (hb : Begotten exited m' r P t.fresh kind e r') (hm : ∀ e ∈ m', e.kind = .pipe ∧ e.Made r)
    (hlt : P < t.processes) (hfd : fd < MAX_OPEN_FILES) (hslot : t.openFiles P fd = none) :
    Linked exited C m' (t.install P fd { kind := kind }) r' (redirect D P fd e) where
  sound := sound_install h.sound hlt hfd _
  holding := hb.holding
  moving := hb.moving
  moving_made := fun e he ↦
    ⟨(hm e he).1, (hm e he).2.mono (Nat.le_of_eq hb.made.symm) hb.opened⟩
  exited_lt := h.exited_lt
  owner := by
    intro p i a ha
    rw [openFiles_install] at ha
    split at ha
    · next heq => rw [← Option.some.inj ha, hb.owner, heq.1]
    · rw [hb.owner_ne a (Nat.ne_of_lt (h.sound.lt_fresh ha)), h.owner ha]
  placed := by
    intro a ha
    by_cases hne : a = t.fresh
    · exact ⟨P, fd, hne ▸ if_pos ⟨rfl, rfl⟩⟩
    · rw [hb.value_ne a hne] at ha
      obtain ⟨p, i, hpi⟩ := h.placed ha
      refine ⟨p, i, (if_neg ?_).trans hpi⟩
      rintro ⟨rfl, rfl⟩
      cases hslot.symm.trans hpi
  kind := by
    intro p i a hd ha hobject
    rw [openFiles_install] at ha
    rw [object_install] at hobject
    split at hobject
    · next hne => rw [hne, hb.kind, ← Option.some.inj hobject]
    · next hne =>
      split at ha
      · exact absurd (Option.some.inj ha).symm hne
      · rw [hb.kind_ne a hne]
        exact h.kind ha hobject
  target_kind := by
    intro a e' ha
    by_cases hne : a = t.fresh
    · rw [hne, hb.kind]
      rw [hne, hb.target] at ha
      exact hb.target_kind e' ha
    · rw [hb.target_ne a hne] at ha
      rw [hb.kind_ne a hne]
      exact h.target_kind ha
  known := by
    intro a e' ha
    by_cases hne : a = t.fresh
    · rw [hne, hb.target] at ha
      exact hb.known e' ha
    · rw [hb.target_ne a hne] at ha
      exact (h.known ha).mono (Nat.le_of_eq hb.made.symm) hb.opened
  writer := hb.writer
  content := fun i hi ↦ (hb.content i).trans (h.content i (hb.made ▸ hi))
  unmade := fun i hi ↦ h.unmade i (hb.made ▸ hi)
  refers := by
    intro p i
    rw [openFiles_install]
    unfold redirect
    split
    · rw [Option.bind_some, hb.target]
    · rw [h.refers]
      cases ha : t.openFiles p i with
      | none => rfl
      | some a =>
        rw [Option.bind_some, Option.bind_some,
          hb.target_ne a (Nat.ne_of_lt (h.sound.lt_fresh ha))]

/-- What pipes and files hold may change, but not who holds them. -/
structure Held (r r' : Win32) : Prop where
  holding : r'.holding = r.holding
  kind : r'.kind = r.kind
  moving : r'.moving = r.moving
  made : r'.made = r.made
  opened : r'.opened = r.opened
  writer : ∀ i, (r'.pipes.pipe i).writerOpen = (r.pipes.pipe i).writerOpen

theorem Held.trans {r r' r'' : Win32} (h : Held r r') (h' : Held r' r'') : Held r r'' :=
  ⟨h'.holding.trans h.holding, h'.kind.trans h.kind, h'.moving.trans h.moving,
    h'.made.trans h.made, h'.opened.trans h.opened, fun i ↦ (h'.writer i).trans (h.writer i)⟩

theorem Linked.held (h : Linked exited C m t r D) (hr : Held r r') {C' : Nat → List UInt8}
    (hcontent : ∀ i < r.made, (r'.pipes.pipe i).content = C' i)
    (hunmade : ∀ i, r.made ≤ i → C' i = []) : Linked exited C' m t r' D := by
  obtain ⟨hholding, hkind, hmoving, hmade, hopened, hwriter⟩ := hr
  have hmono : ∀ {e : End}, e.Made r → e.Made r' :=
    fun he ↦ he.mono (Nat.le_of_eq hmade.symm) (Nat.le_of_eq hopened.symm)
  constructor
  · exact h.sound
  · exact hholding ▸ h.holding
  · exact hmoving.trans h.moving
  · exact fun e he ↦ ⟨(h.moving_made e he).1, hmono (h.moving_made e he).2⟩
  · exact h.exited_lt
  · exact hholding ▸ h.owner
  · exact hholding ▸ h.placed
  · exact hkind ▸ h.kind
  · exact hholding ▸ hkind ▸ h.target_kind
  · exact fun ha ↦ hmono (h.known (hholding ▸ ha))
  · exact fun i ↦ (hwriter i).trans (hholding ▸ h.writer i)
  · exact hmade ▸ hcontent
  · exact hmade ▸ hunmade
  · exact hholding ▸ h.refers

/-- A descriptor is closed: its object keeps no handle, whether it stays or is deleted. -/
theorem Linked.close (h : Linked exited C m t r D) {a : Nat} (ha : t.openFiles P fd = some a)
    {t' : Table} (hs : t'.Sound) (hprocesses : t'.processes = t.processes)
    (hslots : ∀ p i, ¬(p = P ∧ i = fd) → t'.openFiles p i = t.openFiles p i)
    (hslot : t'.openFiles P fd = some a ∨ t'.openFiles P fd = none)
    (hobject : ∀ b h, t'.object b = some h → t.object b = some h) :
    Linked exited C m t' (r.close P a) (redirect D P fd none) where
  sound := hs
  holding := Holding.sound_drop h.holding (h.owner ha)
  moving := h.moving
  moving_made := h.moving_made
  exited_lt := hprocesses ▸ h.exited_lt
  owner := by
    intro p i b hb
    rw [show (r.close P a).holding = r.holding.drop P a from rfl, Holding.owner_drop]
    by_cases hpi : p = P ∧ i = fd
    · obtain ⟨rfl, rfl⟩ := hpi
      rcases hslot with hkept | hnone
      · rw [hkept] at hb
        exact Option.some.inj hb ▸ h.owner ha
      · cases hb.symm.trans hnone
    · rw [hslots p i hpi] at hb
      exact h.owner hb
  placed := by
    intro b hb
    rw [show (r.close P a).holding = r.holding.drop P a from rfl, Holding.value_drop] at hb
    split at hb
    · exact absurd rfl hb
    · next hne =>
      obtain ⟨p, i, hpi⟩ := h.placed hb
      refine ⟨p, i, (hslots p i ?_).trans hpi⟩
      rintro ⟨rfl, rfl⟩
      exact hne (Option.some.inj (hpi.symm.trans ha))
  kind := by
    intro p i b hd hb hhd
    show r.kind b = hd.kind
    by_cases hpi : p = P ∧ i = fd
    · obtain ⟨rfl, rfl⟩ := hpi
      rcases hslot with hkept | hnone
      · exact h.kind (ha.trans (hkept.symm.trans hb)) (hobject b hd hhd)
      · cases hb.symm.trans hnone
    · rw [hslots p i hpi] at hb
      exact h.kind hb (hobject b hd hhd)
  target_kind := by
    intro b e hb
    rw [show (r.close P a).holding = r.holding.drop P a from rfl,
      Holding.target_drop h.holding (h.owner ha)] at hb
    split at hb
    · cases hb
    · exact h.target_kind hb
  known := by
    intro b e hb
    rw [show (r.close P a).holding = r.holding.drop P a from rfl,
      Holding.target_drop h.holding (h.owner ha)] at hb
    split at hb
    · cases hb
    · exact h.known hb
  writer := fun _ ↦ rfl
  content := h.content
  unmade := h.unmade
  refers := by
    intro p i
    have htarget := Holding.target_drop h.holding (h.owner ha)
    unfold redirect
    split
    · next hpi =>
      rw [hpi.1, hpi.2]
      rcases hslot with hkept | hnone
      · rw [hkept, Option.bind_some]
        exact ((htarget a).trans (if_pos rfl)).symm
      · rw [hnone, Option.bind_none]
    · next hpi =>
      rw [hslots p i hpi, h.refers]
      cases hb : t.openFiles p i with
      | none => rfl
      | some b =>
        have hne : b ≠ a := by
          rintro rfl
          exact hpi (h.sound.unshared hb ha)
        rw [Option.bind_some, Option.bind_some]
        exact ((htarget b).trans (if_neg hne)).symm

/-- A new object is deleted before it is in a slot. -/
theorem Begotten.discard (h : Linked exited C m t r D)
    (hb : Begotten exited m r P t.fresh kind e r') (h₀ : Handler) :
    Linked exited C m (t.discard h₀) (r'.close P t.fresh) D := by
  have hclosed := begotten_close hb
  have hne : ∀ {p i a}, t.openFiles p i = some a → a ≠ t.fresh :=
    fun ha ↦ Nat.ne_of_lt (h.sound.lt_fresh ha)
  have hvalue : (r'.close P t.fresh).holding.value t.fresh = none := by
    show (r'.holding.drop P t.fresh).value t.fresh = none
    rw [Holding.value_drop, if_pos rfl]
  have hmono : ∀ {e : End}, e.Made r → e.Made (r'.close P t.fresh) :=
    fun he ↦ he.mono (Nat.le_of_eq hclosed.made.symm) hclosed.opened
  have htarget : ∀ {a e'}, (r'.close P t.fresh).holding.target a = some e' →
      a ≠ t.fresh ∧ r.holding.target a = some e' := by
    intro a e' ha
    have hane : a ≠ t.fresh := by
      rintro rfl
      cases hclosed.target.symm.trans ha
    exact ⟨hane, (hclosed.target_ne a hane).symm.trans ha⟩
  exact {
    sound := sound_discard h.sound h₀
    holding := hclosed.holding
    moving := hclosed.moving
    moving_made := fun e he ↦ ⟨(h.moving_made e he).1, hmono (h.moving_made e he).2⟩
    exited_lt := h.exited_lt
    owner := fun ha ↦ (hclosed.owner_ne _ (hne ha)).trans (h.owner ha)
    placed := by
      intro a ha
      have hane : a ≠ t.fresh := fun heq ↦ ha (heq ▸ hvalue)
      exact h.placed (hclosed.value_ne a hane ▸ ha)
    kind := by
      intro p i a hd ha hobject
      have hkeeps := (keeps_discard h.sound h₀ p i).2 a ha
      rw [hclosed.kind_ne a (hne ha)]
      exact h.kind ha (hkeeps.symm.trans hobject)
    target_kind := by
      intro a e' ha
      obtain ⟨hane, ha⟩ := htarget ha
      rw [hclosed.kind_ne a hane]
      exact h.target_kind ha
    known := fun ha ↦ hmono (h.known (htarget ha).2)
    writer := hclosed.writer
    content := fun i hi ↦ (hclosed.content i).trans (h.content i (hclosed.made ▸ hi))
    unmade := fun i hi ↦ h.unmade i (hclosed.made ▸ hi)
    refers := by
      intro p i
      rw [h.refers, show (t.discard h₀).openFiles = t.openFiles from rfl]
      cases ha : t.openFiles p i with
      | none => rfl
      | some a => rw [Option.bind_some, Option.bind_some, hclosed.target_ne a (hne ha)] }

/-- The two handles of a new pipe are on their way. -/
theorem linked_createPipe (h : Linked exited C [] t r D) :
    Linked exited C [.read r.made, .write r.made] t
      { r with
        pipes := r.pipes.clear r.made
        made := r.made + 1
        moving := [.read r.made, .write r.made] } D where
  sound := h.sound
  holding := h.holding
  moving := rfl
  moving_made := by
    intro e he
    simp only [List.mem_cons, List.not_mem_nil, or_false] at he
    rcases he with rfl | rfl
    · exact ⟨rfl, Nat.lt_succ_self _⟩
    · exact ⟨rfl, Nat.lt_succ_self _⟩
  exited_lt := h.exited_lt
  owner := h.owner
  placed := h.placed
  kind := h.kind
  target_kind := h.target_kind
  known := fun ha ↦ (h.known ha).mono (Nat.le_succ _) (Nat.le_refl _)
  writer := by
    intro i
    rw [← h.writer i]
    show (if i = r.made then _ else _ : PipeObject).writerOpen = _
    split
    · next hi => rw [hi]
    · rfl
  content := by
    intro i hi
    show (if i = r.made then _ else _ : PipeObject).content = _
    split
    · next heq => exact (h.unmade i (Nat.le_of_eq heq.symm)).symm
    · next hne => exact h.content i (Nat.lt_of_le_of_ne (Nat.le_of_lt_succ hi) hne)
  unmade := fun i hi ↦ h.unmade i (Nat.le_of_succ_le hi)
  refers := h.refers

/-- A handle on its way arrives in a slot. -/
theorem linked_moved {e : End} {es : List End} (h : Linked exited C (e :: es) t r D)
    (hP : P ∉ exited) (hlt : P < t.processes) (hfd : fd < MAX_OPEN_FILES)
    (hslot : t.openFiles P fd = none) :
    Linked exited C es (t.install P fd { kind := .pipe })
      (Win32.construct host P t.fresh .pipe r) (redirect D P fd (some e)) := by
  obtain ⟨hkind, hmade⟩ := h.moving_made e List.mem_cons_self
  have hgrant := begotten_grant host (begotten_appoint h P .pipe) (if_pos rfl) hP
    hkind.symm hmade
  have hrun : Win32.construct host P t.fresh .pipe r =
      { (r.appoint P t.fresh .pipe).grant host t.fresh e with moving := es } := by
    simp only [Win32.construct, h.moving]
  have hmoved : Begotten exited es r P t.fresh .pipe (some e)
      (Win32.construct host P t.fresh .pipe r) := by
    rw [hrun]
    exact { hgrant with moving := rfl }
  exact hmoved.linked h (fun e he ↦ h.moving_made e (List.mem_cons_of_mem _ he)) hlt hfd hslot

theorem opened_born (host : Windows) (t₀ : Table) (P b : Nat) (r : Win32) (o : Origin) :
    (born (win32Environment host t₀) P b r o).opened = r.opened := by
  have hconstruct : ∀ kind, (Win32.construct host P b kind r).opened = r.opened := by
    intro kind
    unfold Win32.construct
    split <;> rfl
  cases o with
  | made kind => exact hconstruct kind
  | copied a kind =>
    show (Win32.copy host P a b (Win32.construct host P b kind r)).opened = _
    unfold Win32.copy
    split <;> exact hconstruct kind

/-- `Open` of a new `IOHFile` that has not or has a handle. -/
theorem begotten_openFile {a : Nat} {access share disposition : DWORD}
    (hb : Begotten exited m r P a .file e r') (hP : P ∉ exited)
    (hok : (r'.openFile host P a access share disposition).1 = true) :
    Begotten exited m r P a .file (some (.file r'.opened))
      (r'.openFile host P a access share disposition).2 := by
  unfold Win32.openFile at hok ⊢
  dsimp only at hok ⊢
  split at hok
  · cases hok
  · next name _ =>
    have hclosed := begotten_close hb
    have hvalue : (r'.close P a).holding.value a = none := by
      show (r'.holding.drop P a).value a = none
      rw [Holding.value_drop, if_pos rfl]
    have hmore : Begotten exited m r P a .file none ((r'.close P a).createFile name access) :=
      { hclosed with
        opened := Nat.le_succ_of_le hclosed.opened
        known := fun _ he ↦ nomatch he }
    have hmade : (End.file r'.opened).Made ((r'.close P a).createFile name access) :=
      Nat.lt_succ_self _
    exact begotten_grant host hmore hvalue hP rfl hmade

theorem openFile_refused {a : Nat} {access share disposition : DWORD}
    (hfail : (r.openFile host P a access share disposition).1 = false) :
    (r.openFile host P a access share disposition).2 = r.close P a := by
  unfold Win32.openFile at hfail ⊢
  dsimp only at hfail ⊢
  split at hfail
  · rfl
  · cases hfail

theorem held_seek (kind : HandlerKind) (P a : Nat) (pos : BitVec 64) (method : DWORD)
    (r : Win32) : Held r (r.seek kind P a pos method).2 ∧
      (r.seek kind P a pos method).2.pipes.pipe = r.pipes.pipe := by
  unfold Win32.seek
  split <;> exact ⟨⟨rfl, rfl, rfl, rfl, rfl, fun _ ↦ rfl⟩, rfl⟩

theorem held_truncate (kind : HandlerKind) (P a : Nat) (r : Win32) :
    Held r (r.truncate kind P a) ∧ (r.truncate kind P a).pipes.pipe = r.pipes.pipe := by
  unfold Win32.truncate
  split
  · unfold Win32.endFile
    dsimp only
    split <;> exact ⟨⟨rfl, rfl, rfl, rfl, rfl, fun _ ↦ rfl⟩, rfl⟩
  · exact ⟨⟨rfl, rfl, rfl, rfl, rfl, fun _ ↦ rfl⟩, rfl⟩
  · exact ⟨⟨rfl, rfl, rfl, rfl, rfl, fun _ ↦ rfl⟩, rfl⟩

theorem openHandler_kind (t₀ : Table) {a : Nat} {k : HandlerKind} (hkind : r.kind a = k)
    (P : Nat) (access share disposition flags : DWORD) :
    (win32Environment host t₀).openHandler P a access share disposition flags r =
      r.openHandler host k P a access share disposition := hkind ▸ rfl

/-- The methods of pipes, and those of the other classes, keep the references. -/
theorem tracks_win32 (host : Windows) (t₀ : Table) (exited : List Nat) (C : Nat → List UInt8) :
    Tracks (win32Environment host t₀) (fun p ↦ p ∉ exited)
      (fun r ↦ (some (.read r.made), some (.write r.made))) Reopens (Linked exited C []) where
  sound := fun h ↦ h.sound
  closed := fun h hslot ↦ by rw [h.refers, hslot, Option.bind_none]
  newborn := fun h hgone ↦ Nat.lt_irrefl _ (h.exited_lt _ hgone)
  process := fun h ↦
    { h with
      sound := sound_processes h.sound (Nat.le_succ _)
      exited_lt := fun p hp ↦ Nat.lt_succ_of_lt (h.exited_lt p hp) }
  setObject := fun {t r D P fd a hd hd'} h ha hobject hkind ↦
    { h with
      sound := sound_setObject h.sound ha hd'
      kind := by
        intro p i b hb hslot hb'
        rw [object_setObject] at hb'
        split at hb'
        · next heq =>
          rw [← Option.some.inj hb', hkind]
          exact h.kind hslot (heq ▸ hobject)
        · exact h.kind hslot hb' }
  writeMemory := fun {t r D P address bytes} h ↦ by
    have hheld : Held r (r.store P address bytes) := ⟨rfl, rfl, rfl, rfl, rfl, fun _ ↦ rfl⟩
    exact h.held hheld h.content h.unmade
  copied := fun {t r D P fd q i a hd} h hP hlt hfd hslot ha hobject ↦
    (begotten_born host h hP (.copied ha hobject) t₀).linked h
      (fun _ he ↦ absurd he List.not_mem_nil) hlt hfd hslot
  shut := fun {t r D P fd a} h _ ha ↦
    h.close ha h.sound rfl (fun _ _ _ ↦ rfl) (.inl ha) fun _ _ hb ↦ hb
  released := fun {t r D P fd a} h _ ha ↦ by
    refine h.close ha (sound_release h.sound ha) rfl (fun p i hpi ↦ if_neg hpi)
      (.inr (if_pos ⟨rfl, rfl⟩)) fun b hd hb ↦ ?_
    rw [object_release] at hb
    split at hb
    · cases hb
    · exact hb
  opened := fun {t r D P fd o e access share disposition} h hP hlt hfd hslot ho hok ↦ by
    have hborn := begotten_born host h hP ho t₀
    have hinstall : ∀ {e' r'}, Begotten exited [] r P t.fresh o.kind e' r' →
        Linked exited C [] (t.install P fd { kind := o.kind }) r' (redirect D P fd e') :=
      fun hb ↦ hb.linked h (fun _ he ↦ absurd he List.not_mem_nil) hlt hfd hslot
    rw [openHandler_kind t₀ hborn.kind] at hok ⊢
    cases hkind : o.kind with
    | pipe =>
      simp only [hkind] at hinstall hborn
      refine ⟨e, ?_, hinstall hborn⟩
      cases e with
      | none => exact .inl rfl
      | some e =>
        cases e with
        | read i => rfl
        | write i => rfl
        | file o => cases hborn.target_kind _ rfl
    | file =>
      simp only [hkind] at hok hinstall hborn
      have hopened := begotten_openFile hborn hP hok
      rw [opened_born] at hopened
      refine ⟨_, ?_, hinstall hopened⟩
      cases e with
      | none => exact .inr rfl
      | some e =>
        cases e with
        | read i => cases hborn.target_kind _ rfl
        | write i => cases hborn.target_kind _ rfl
        | file o => rfl
    | ntConsole | null | random | staticData =>
      simp only [hkind] at hinstall hborn
      refine ⟨e, ?_, hinstall hborn⟩
      cases e with
      | none => exact .inl rfl
      | some e => cases e <;> cases hborn.target_kind _ rfl
  refused := fun {t r D P o e access share disposition} h hP ho hfail ↦ by
    have hborn := begotten_born host h hP ho t₀
    rw [openHandler_kind t₀ hborn.kind] at hfail ⊢
    cases hkind : o.kind with
    | file =>
      simp only [hkind] at hfail hborn ⊢
      rw [Win32.openHandler, openFile_refused hfail]
      exact (begotten_close hborn).discard h _
    | pipe | ntConsole | null | random | staticData =>
      simp only [hkind] at hborn ⊢
      exact hborn.discard h _
  seek := fun {t r D P fd a offset method t₁ r₁ D₁ e} _ _ h _ ↦ by
    obtain ⟨hheld, hpipe⟩ := held_seek (r.kind a) P a offset method r
    exact h.held hheld (fun i hi ↦ (congrArg PipeObject.content (congrFun hpipe i)).trans
      (h.content i hi)) h.unmade
  truncate := fun {t r D P fd a t₁ r₁ D₁ e} _ _ h _ ↦ by
    obtain ⟨hheld, hpipe⟩ := held_truncate (r.kind a) P a r
    exact h.held hheld (fun i hi ↦ (congrArg PipeObject.content (congrFun hpipe i)).trans
      (h.content i hi)) h.unmade
  piped := fun {t r D P fds} h hP hlt hmade hfree ↦ by
    have hfirst := lowestFree_of_lowestTwo hfree
    obtain ⟨hlt₁, hslot₁, -⟩ := lowestFree_eq_some.mp hfirst
    have hsecond : lowestFree ((t.install P fds.1 { kind := .pipe }).openFiles P) =
        some fds.2 := by
      have hrow : (t.install P fds.1 { kind := .pipe }).openFiles P =
          fun i ↦ if i = fds.1 then some t.fresh else t.openFiles P i := by
        funext i
        rw [openFiles_install]
        simp only [true_and]
      rw [hrow]
      exact lowestFree_of_taken hfree t.fresh
    obtain ⟨hlt₂, hslot₂, -⟩ := lowestFree_eq_some.mp hsecond
    have hcreated : ((win32Environment host t₀).createPipe P r).2 =
        { r with
          pipes := r.pipes.clear r.made
          made := r.made + 1
          moving := [.read r.made, .write r.made] } := by
      have hmade : (Win32.createPipe host r).1 = true := hmade
      show (Win32.createPipe host r).2 = _
      unfold Win32.createPipe at hmade ⊢
      split at hmade
      · next hmakes => rw [if_pos hmakes]
      · cases hmade
    rw [hcreated]
    exact linked_moved (linked_moved (linked_createPipe h) hP hlt hlt₁ hslot₁) hP hlt hlt₂ hslot₂
  unpiped := fun {t r D P} h hmade ↦ by
    have hmade : (Win32.createPipe host r).1 = false := hmade
    show Linked exited C [] t (Win32.createPipe host r).2 D
    unfold Win32.createPipe at hmade ⊢
    split at hmade
    · cases hmade
    · next hmakes =>
      rw [if_neg hmakes]
      exact h

end Linked

end Keow.Files
