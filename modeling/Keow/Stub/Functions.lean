import Keow.Kernel.Context

/-!
# The functions of the stub

`SysCallDll` in the user process, `SysCallDll_User.cpp`, and the calls of it that the kernel
makes, `SysCallDll_Kernel.cpp`. The Win32 functions behind it are parameters. A function returns
by a break with its result in `Eax`, and keeps the error of its thread in `g_LastError`.
-/

namespace Keow.Stub

open Keow.Base Keow.Kernel

/-! ## Win32 -/

/-- The process as Win32 functions see it. -/
structure Win32State (ω : Type) where
  os : ω
  mem : UserMem
  /-- `::GetLastError()`. -/
  threadError : DWORD

/-- A call of a Win32 function. -/
abbrev Api (ω α : Type) := Win32State ω → α × Win32State ω

/-- The Win32 functions that the stub calls. -/
structure Win32 (ω : Type) where
  virtualAlloc : (lpAddress dwSize flAllocationType flProtect : DWORD) → Api ω DWORD
  virtualFree : (lpAddress dwSize dwFreeType : DWORD) → Api ω DWORD
  closeHandle : (h : DWORD) → Api ω DWORD
  /-- Without a high half to move by, the pointer to it is `NULL`. -/
  setFilePointer : (h posLo : DWORD) → (posHi : Option DWORD) → (moveMethod : DWORD) → Api ω DWORD
  setEndOfFile : (h : DWORD) → Api ω DWORD
  zeroMemory : (p len : DWORD) → Api ω DWORD
  createFileMapping : (hFile prot sizeHi sizeLo : DWORD) → Api ω DWORD
  mapViewOfFileEx : (hMap prot offsetHi offsetLo len baseAddr : DWORD) → Api ω DWORD
  unmapViewOfFile : (baseAddr : DWORD) → Api ω DWORD
  /-- Whether it worked, and how much was written. -/
  writeFile : (h buf len : DWORD) → Api ω (Bool × DWORD)
  readFile : (h buf len : DWORD) → Api ω (Bool × DWORD)
  peekNamedPipe : (h : DWORD) → Api ω (Bool × DWORD)

/-- The user process, as far as its functions are concerned. -/
structure Machine (ω : Type) where
  win32 : Win32State ω
  /-- `g_LastError`. -/
  lastError : DWORD

/-- A function of the stub: it returns, or the process exits. -/
abbrev Body (ω : Type) := StateT (Machine ω) (Except DWORD)

section Functions

variable {ω : Type} (api : Win32 ω)

def win32 {α : Type} (f : Api ω α) : Body ω α := do
  let m ← get
  set { m with win32 := (f m.win32).2 }
  return (f m.win32).1

def setLastError (err : DWORD) : Body ω Unit :=
  modify fun m ↦ { m with win32 := { m.win32 with threadError := err } }

/-- The macro `RET`, `SysCallDll_User.cpp:40`. -/
def ret (val : DWORD) : Body ω DWORD := do
  modify fun m ↦ { m with lastError := m.win32.threadError }
  return val

def virtualAlloc (lpAddress dwSize flAllocationType flProtect : DWORD) : Body ω DWORD := do
  ret (← win32 (api.virtualAlloc lpAddress dwSize flAllocationType flProtect))

def virtualFree (lpAddress dwSize dwFreeType : DWORD) : Body ω DWORD := do
  ret (← win32 (api.virtualFree lpAddress dwSize dwFreeType))

def getLastError : Body ω DWORD := do
  ret (← get).lastError

def closeHandle (h : DWORD) : Body ω DWORD := do
  ret (← win32 (api.closeHandle h))

def setFilePointer (h posLo posHi moveMethod : DWORD) : Body ω DWORD := do
  setLastError 0
  ret (← win32 (api.setFilePointer h posLo (some posHi) moveMethod))

def FILE_CURRENT : DWORD := 1

def getFilePointer (h : DWORD) : Body ω DWORD := do
  setLastError 0
  ret (← win32 (api.setFilePointer h 0 none FILE_CURRENT))

def setEndOfFile (h : DWORD) : Body ω DWORD := do
  ret (← win32 (api.setEndOfFile h))

def zeroMem (p len : DWORD) : Body ω DWORD := do
  ret (← win32 (api.zeroMemory p len))

def createFileMapping (hFile prot sizeHi sizeLo : DWORD) : Body ω DWORD := do
  ret (← win32 (api.createFileMapping hFile prot sizeHi sizeLo))

def mapViewOfFileEx (hMap prot offsetHi offsetLo len baseAddr : DWORD) : Body ω DWORD := do
  ret (← win32 (api.mapViewOfFileEx hMap prot offsetHi offsetLo len baseAddr))

def unmapViewOfFile (baseAddr : DWORD) : Body ω DWORD := do
  ret (← win32 (api.unmapViewOfFile baseAddr))

/-- `ExitProcess` does not return. -/
def exit (exitcode : DWORD) : Body ω DWORD := throw exitcode

def writeFile (h buf len : DWORD) : Body ω DWORD := do
  setLastError 0
  let (ok, dw) ← win32 (api.writeFile h buf len)
  ret (if ok then dw else 0)

def readFile (h buf len : DWORD) : Body ω DWORD := do
  setLastError 0
  let (ok, dw) ← win32 (api.readFile h buf len)
  ret (if ok then dw else 0)

def peekAvailablePipe (h : DWORD) : Body ω DWORD := do
  let (ok, dwAvail) ← win32 (api.peekNamedPipe h)
  ret (if ok then dwAvail else 0)

end Functions

/-! ## Calls -/

/-- A member of `SysCallDll::RemoteAddrInfo`. -/
inductive Function where
  | virtualAlloc
  | virtualFree
  | getLastError
  | closeHandle
  | setFilePointer
  | getFilePointer
  | setEndOfFile
  | zeroMem
  | exit
  | createFileMapping
  | mapViewOfFileEx
  | unmapViewOfFile
  | writeFile
  | readFile
  | peekAvailablePipe
deriving DecidableEq

/-- A call that the kernel makes. -/
inductive Call where
  | virtualAlloc (lpAddress dwSize flAllocationType flProtect : DWORD)
  | virtualFree (lpAddress dwSize dwFreeType : DWORD)
  | getLastError
  | closeHandle (h : DWORD)
  | setFilePointer (h posLo posHi moveMethod : DWORD)
  | getFilePointer (h : DWORD)
  | setEndOfFile (h : DWORD)
  | zeroMem (p len : DWORD)
  | exit (exitcode : DWORD)
  | createFileMapping (hFile prot sizeHi sizeLo : DWORD)
  | mapViewOfFileEx (hMap prot offsetHi offsetLo len baseAddr : DWORD)
  | unmapViewOfFile (baseAddr : DWORD)
  | writeFile (h buf len : DWORD)
  | readFile (h buf len : DWORD)
  | peekAvailablePipe (h : DWORD)

namespace Call

/-- The address that the kernel injects, `SysCallDll_Kernel.cpp:34–197`. -/
def function : Call → Function
  | virtualAlloc .. => .virtualAlloc
  | virtualFree .. => .virtualFree
  | getLastError => .getLastError
  | closeHandle .. => .closeHandle
  | setFilePointer .. => .setFilePointer
  | getFilePointer .. => .getFilePointer
  | setEndOfFile .. => .setEndOfFile
  | zeroMem .. => .zeroMem
  | exit .. => .exit
  | createFileMapping .. => .createFileMapping
  | mapViewOfFileEx .. => .mapViewOfFileEx
  | unmapViewOfFile .. => .unmapViewOfFile
  | writeFile .. => .writeFile
  | readFile .. => .readFile
  | peekAvailablePipe .. => .peekAvailablePipe

/-- The array `stack` that the kernel injects with it. -/
def stack : Call → List DWORD
  | virtualAlloc lpAddress dwSize flAllocationType flProtect =>
      [lpAddress, dwSize, flAllocationType, flProtect]
  | virtualFree lpAddress dwSize dwFreeType => [lpAddress, dwSize, dwFreeType]
  | getLastError => []
  | closeHandle h => [h]
  | setFilePointer h posLo posHi moveMethod => [h, posLo, posHi, moveMethod]
  | getFilePointer h => [h]
  | setEndOfFile h => [h]
  | zeroMem p len => [p, len]
  | exit exitcode => [exitcode]
  | createFileMapping hFile prot sizeHi sizeLo => [hFile, prot, sizeHi, sizeLo]
  | mapViewOfFileEx hMap prot offsetHi offsetLo len baseAddr =>
      [hMap, prot, offsetHi, offsetLo, len, baseAddr]
  | unmapViewOfFile baseAddr => [baseAddr]
  | writeFile h buf len => [h, buf, len]
  | readFile h buf len => [h, buf, len]
  | peekAvailablePipe h => [h]

/-- The call as it would be inside the user process. -/
def direct {ω : Type} (api : Win32 ω) : Call → Body ω DWORD
  | virtualAlloc lpAddress dwSize flAllocationType flProtect =>
      Stub.virtualAlloc api lpAddress dwSize flAllocationType flProtect
  | virtualFree lpAddress dwSize dwFreeType => Stub.virtualFree api lpAddress dwSize dwFreeType
  | getLastError => Stub.getLastError
  | closeHandle h => Stub.closeHandle api h
  | setFilePointer h posLo posHi moveMethod => Stub.setFilePointer api h posLo posHi moveMethod
  | getFilePointer h => Stub.getFilePointer api h
  | setEndOfFile h => Stub.setEndOfFile api h
  | zeroMem p len => Stub.zeroMem api p len
  | exit exitcode => Stub.exit exitcode
  | createFileMapping hFile prot sizeHi sizeLo =>
      Stub.createFileMapping api hFile prot sizeHi sizeLo
  | mapViewOfFileEx hMap prot offsetHi offsetLo len baseAddr =>
      Stub.mapViewOfFileEx api hMap prot offsetHi offsetLo len baseAddr
  | unmapViewOfFile baseAddr => Stub.unmapViewOfFile api baseAddr
  | writeFile h buf len => Stub.writeFile api h buf len
  | readFile h buf len => Stub.readFile api h buf len
  | peekAvailablePipe h => Stub.peekAvailablePipe api h

theorem length_stack_le (c : Call) : c.stack.length ≤ 6 := by
  cases c <;> simp [stack]

end Call

/-- A function that is entered takes its arguments from the stack: the first one lies right behind
the return address. -/
def Function.enter {ω : Type} (api : Win32 ω) (arg : Nat → DWORD) : Function → Body ω DWORD
  | virtualAlloc => Stub.virtualAlloc api (arg 0) (arg 1) (arg 2) (arg 3)
  | virtualFree => Stub.virtualFree api (arg 0) (arg 1) (arg 2)
  | getLastError => Stub.getLastError
  | closeHandle => Stub.closeHandle api (arg 0)
  | setFilePointer => Stub.setFilePointer api (arg 0) (arg 1) (arg 2) (arg 3)
  | getFilePointer => Stub.getFilePointer api (arg 0)
  | setEndOfFile => Stub.setEndOfFile api (arg 0)
  | zeroMem => Stub.zeroMem api (arg 0) (arg 1)
  | exit => Stub.exit (arg 0)
  | createFileMapping => Stub.createFileMapping api (arg 0) (arg 1) (arg 2) (arg 3)
  | mapViewOfFileEx =>
      Stub.mapViewOfFileEx api (arg 0) (arg 1) (arg 2) (arg 3) (arg 4) (arg 5)
  | unmapViewOfFile => Stub.unmapViewOfFile api (arg 0)
  | writeFile => Stub.writeFile api (arg 0) (arg 1) (arg 2)
  | readFile => Stub.readFile api (arg 0) (arg 1) (arg 2)
  | peekAvailablePipe => Stub.peekAvailablePipe api (arg 0)

/-- With the array of a call on the stack, the function does what the call asks for. -/
theorem enter_function {ω : Type} (api : Win32 ω) {c : Call} {arg : Nat → DWORD}
    (h : ∀ i v, c.stack[i]? = some v → arg i = v) : c.function.enter api arg = c.direct api := by
  cases c with
  | getLastError => rfl
  | closeHandle a | getFilePointer a | setEndOfFile a | exit a | unmapViewOfFile a
  | peekAvailablePipe a =>
    simp only [Call.function, Function.enter, Call.direct, h 0 a rfl]
  | zeroMem a b =>
    simp only [Call.function, Function.enter, Call.direct, h 0 a rfl, h 1 b rfl]
  | virtualFree a b c | writeFile a b c | readFile a b c =>
    simp only [Call.function, Function.enter, Call.direct, h 0 a rfl, h 1 b rfl, h 2 c rfl]
  | virtualAlloc a b c d | setFilePointer a b c d | createFileMapping a b c d =>
    simp only [Call.function, Function.enter, Call.direct, h 0 a rfl, h 1 b rfl, h 2 c rfl,
      h 3 d rfl]
  | mapViewOfFileEx a b c d e f =>
    simp only [Call.function, Function.enter, Call.direct, h 0 a rfl, h 1 b rfl, h 2 c rfl,
      h 3 d rfl, h 4 e rfl, h 5 f rfl]

/-- A call that returns has kept the error. -/
theorem lastError_of_direct {ω : Type} {api : Win32 ω} {c : Call} {m m' : Machine ω} {val : DWORD}
    (h : c.direct api m = .ok (val, m')) : m'.lastError = m'.win32.threadError := by
  have hret : ∀ (v : DWORD) (m : Machine ω), ret v m = .ok (val, m') →
      m'.lastError = m'.win32.threadError := by
    intro v m h
    cases h
    rfl
  cases c <;> first | exact hret _ _ h | cases h

end Keow.Stub
