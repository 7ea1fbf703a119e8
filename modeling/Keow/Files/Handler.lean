import Keow.Base.Comp
import Keow.Kernel.Linux

/-!
# Open files

The `IOHandler` objects of all processes, the `m_OpenFiles` tables that point to them, and what
the kernel does with them: index a table, call a method, `new`, `Duplicate` and `delete`. A
pointer to a deleted object and an index outside a table are undefined behaviour; a null pointer
ends the kernel thread. What the methods do to files, consoles and user memory is left to an
`Environment`; it cannot reach the tables or the objects' base class.
-/

namespace Keow.Files

open Keow.Base Keow.Kernel

def MAX_OPEN_FILES : Nat := 1024

/-- The classes derived from `IOHandler`. -/
inductive HandlerKind where
  | file
  | pipe
  | ntConsole
  | null
  | random
  | staticData
deriving DecidableEq

/-- The base class of an object, with the defaults of its constructor,
`IOHandler.cpp:34–39`. -/
structure Handler where
  kind : HandlerKind
  inheritable : Bool := true
  flags : DWORD := 0#32
deriving DecidableEq

/-- The processes with their tables, and the objects by address. Addresses are not reused. -/
structure Table where
  processes : Nat
  openFiles : Nat → Nat → Option Nat
  object : Nat → Option Handler
  fresh : Nat

namespace Table

/-- `m_OpenFiles[fd] = a` in process `P`. -/
def setSlot (t : Table) (P fd : Nat) (a : Option Nat) : Table :=
  { t with openFiles := fun p i ↦ if p = P ∧ i = fd then a else t.openFiles p i }

/-- Change what is stored at an address. -/
def setObject (t : Table) (a : Nat) (h : Option Handler) : Table :=
  { t with object := fun b ↦ if b = a then h else t.object b }

/-- An object constructed at the next address. -/
def alloc (t : Table) (h : Handler) : Table :=
  { t.setObject t.fresh (some h) with fresh := t.fresh + 1 }

end Table

/-- The tables, the rest of the world, and the indices at which tables have been accessed,
newest first. -/
structure FileWorld (ρ : Type) where
  table : Table
  rest : ρ
  indexed : List Int := []

/-- What the virtual methods of the object at an address, called on the kernel thread of a
process, do to the rest of the world, and the services a call needs besides. The bytes that
`Stat64` and `GetDirEnts64` fill in are `none` where they fail. -/
structure Environment (ρ : Type) where
  construct : Nat → Nat → HandlerKind → ρ → ρ
  copy : Nat → Nat → Nat → ρ → ρ
  openHandler : Nat → Nat → (access share disposition flags : DWORD) → ρ → Bool × ρ
  close : Nat → Nat → ρ → ρ
  read : Nat → Nat → (address size : DWORD) → ρ → (Bool × DWORD) × ρ
  write : Nat → Nat → (address size : DWORD) → ρ → (Bool × DWORD) × ρ
  ioctl : Nat → Nat → (request data : DWORD) → ρ → DWORD × ρ
  seek : Nat → Nat → BitVec 64 → (method : DWORD) → ρ → BitVec 64 × ρ
  truncate : Nat → Nat → ρ → ρ
  stat : Nat → Nat → ρ → Option (List UInt8) × ρ
  stat64 : Nat → Nat → ρ → Option (List UInt8) × ρ
  getDirEnts64 : Nat → Nat → Int → ρ → Option (List UInt8) × ρ
  /-- The attributes of the path of an `IOHFile`. -/
  fileAttributes : Nat → ρ → Option DWORD
  /-- `m_UnixPwd` is set to the path of an `IOHFile`. -/
  setPwd : Nat → Nat → ρ → ρ
  createPipe : Nat → ρ → Bool × ρ
  /-- `GetLastError` of the kernel, and of the user process through an injected call. -/
  lastError : ρ → DWORD
  dllLastError : Nat → ρ → DWORD × ρ
  readMemory : Nat → DWORD → Nat → ρ → List UInt8
  writeMemory : Nat → DWORD → List UInt8 → ρ → ρ
  sendSignal : Nat → Nat → ρ → ρ
  /-- The part of `sys_mmap` behind the choice of a file: it reaches no table. -/
  mapMemory : Nat → List UInt8 → Option Nat → ρ → DWORD × ρ

/-- Methods that succeed and leave no trace. -/
def Environment.idle (ρ : Type) : Environment ρ where
  construct _ _ _ r := r
  copy _ _ _ r := r
  openHandler _ _ _ _ _ _ r := (true, r)
  close _ _ r := r
  read _ _ _ size r := ((true, size), r)
  write _ _ _ size r := ((true, size), r)
  ioctl _ _ _ _ r := (0#32, r)
  seek _ _ _ _ r := (0#64, r)
  truncate _ _ r := r
  stat _ _ r := (none, r)
  stat64 _ _ r := (none, r)
  getDirEnts64 _ _ _ r := (none, r)
  fileAttributes _ _ := none
  setPwd _ _ r := r
  createPipe _ r := (true, r)
  lastError _ := 0#32
  dllLastError _ r := (0#32, r)
  readMemory _ _ _ _ := []
  writeMemory _ _ _ r := r
  sendSignal _ _ r := r
  mapMemory _ _ _ r := (0#32, r)

/-- Computations of a kernel thread on open files. -/
abbrev F (ρ : Type) := Comp (FileWorld ρ)

variable {ρ : Type}

/-- Change the tables. -/
def modifyTable (f : Table → Table) : F ρ Unit :=
  Comp.modify fun w ↦ { w with table := f w.table }

/-- Change the rest of the world. -/
def modifyRest (f : ρ → ρ) : F ρ Unit :=
  Comp.modify fun w ↦ { w with rest := f w.rest }

/-- A method or a service that changes the rest of the world and returns something. -/
def outside {α : Type} (f : ρ → α × ρ) : F ρ α := do
  let w ← Comp.get
  modifyRest fun r ↦ (f r).2
  return (f w.rest).1

/-- Record an index into a table, and stop if it is outside. -/
def index (fd : Int) : F ρ Unit := do
  Comp.modify fun w ↦ { w with indexed := fd :: w.indexed }
  if fd < 0 ∨ (MAX_OPEN_FILES : Int) ≤ fd then Comp.fault

/-- `P->m_OpenFiles[fd]`. -/
def slot (P : Nat) (fd : Int) : F ρ (Option Nat) := do
  index fd
  return (← Comp.get).table.openFiles P fd.toNat

/-- `P->m_OpenFiles[fd] = a`. -/
def setSlot (P : Nat) (fd : Int) (a : Option Nat) : F ρ Unit := do
  index fd
  modifyTable fun t ↦ t.setSlot P fd.toNat a

/-- A pointer to an object is followed. -/
def deref (a : Nat) : F ρ Handler := do
  match (← Comp.get).table.object a with
  | none => Comp.fault
  | some h => return h

/-- `new`, on the kernel thread of `P`. -/
def newHandler (env : Environment ρ) (P : Nat) (kind : HandlerKind) : F ρ Nat := do
  let a := (← Comp.get).table.fresh
  modifyTable fun t ↦ t.alloc { kind := kind }
  modifyRest (env.construct P a kind)
  return a

/-- `Duplicate`: each class constructs a new object and copies what it keeps itself. The base
class is left as the constructor made it, `IOHFile.cpp:48–71`, `IOHPipe.cpp:46–55`,
`IOHNtConsole.cpp:49–53`, `IOHNull.cpp:66–70`, `IOHRandom.cpp:55–59`,
`IOHStaticData.cpp:75–86`. -/
def duplicate (env : Environment ρ) (P : Nat) (a : Nat) : F ρ Nat := do
  let h ← deref a
  let b ← newHandler env P h.kind
  modifyRest (env.copy P a b)
  return b

/-- `Close`. -/
def closeHandler (env : Environment ρ) (P : Nat) (a : Nat) : F ρ Unit := do
  let _ ← deref a
  modifyRest (env.close P a)

/-- `delete`: the destructors close. -/
def deleteHandler (env : Environment ρ) (P : Nat) (a : Nat) : F ρ Unit := do
  closeHandler env P a
  modifyTable fun t ↦ t.setObject a none

/-- A method of a live object. -/
def method {α : Type} (a : Nat) (f : ρ → α × ρ) : F ρ α := do
  let _ ← deref a
  outside f

/-- `Process::FindFreeFD` over the indices that are left, `Process.cpp:2116–2125`. -/
def findFreeFDIn (P : Nat) : List Nat → F ρ (Option Nat)
  | [] => return none
  | fd :: fds => do
      match ← slot P fd with
      | none => return some fd
      | some _ => findFreeFDIn P fds

/-- `Process::FindFreeFD`. -/
def findFreeFD (P : Nat) : F ρ (Option Nat) := findFreeFDIn P (List.range MAX_OPEN_FILES)

/-- The check that every call on a descriptor starts with, `sys_io.cpp:46–58`: a descriptor out
of range or not in use is `EBADF`. The bound lets one index past the end of the table through. -/
def withHandler (P : Nat) (fd : DWORD) (call : Nat → F ρ DWORD) : F ρ DWORD := do
  if fd.toInt < 0 ∨ (MAX_OPEN_FILES : Int) < fd.toInt then return -EBADF
  else
    match ← slot P fd.toInt with
    | none => return -EBADF
    | some ioh => call ioh

end Keow.Files
