import Keow.Base.Codec
import Keow.Kernel.Linux

/-!
# The ioctl channel of a console

`DevConsole::ioctl` (`DevConsole.cpp:289–377`) in the kernel, `ProcessIoctlRequest`
(`KeowConsole.cpp:75–149`) in the console process, and the two anonymous pipes between them
(`DevConsole.cpp:100–102`). A pipe is a byte stream: `WriteFile` appends all its bytes, and
`ReadFile` blocks on an empty pipe and then takes what there is, up to the size asked for. Beside
the pipes go logs of what was issued, decoded, replied and received.
-/

namespace Keow.Console

open Keow.Base Keow.Kernel

def TCGETS : DWORD := 0x5401#32
def TCSETS : DWORD := 0x5402#32
def TCSETSW : DWORD := 0x5403#32
def TCSETSF : DWORD := 0x5404#32
def TCXONC : DWORD := 0x540A#32
def TIOCGPGRP : DWORD := 0x540F#32
def TIOCSPGRP : DWORD := 0x5410#32
def TIOCGWINSZ : DWORD := 0x5413#32
def TIOCSWINSZ : DWORD := 0x5414#32

/-- `linux::winsize`. -/
structure WinSize where
  wsRow : BitVec 16
  wsCol : BitVec 16
  wsXpixel : BitVec 16
  wsYpixel : BitVec 16
deriving DecidableEq

/-- Its eight bytes. -/
def WinSize.codec : Codec WinSize :=
  ((Codec.word 2).pair ((Codec.word 2).pair ((Codec.word 2).pair (Codec.word 2)))).imap
    (fun f ↦ ⟨f.1, f.2.1, f.2.2.1, f.2.2.2⟩)
    (fun w ↦ (w.wsRow, w.wsCol, w.wsXpixel, w.wsYpixel)) (fun _ ↦ rfl)

/-- A `DWORD` in the pipe. -/
def dword : Codec DWORD := Codec.word 4

/-- A request as it is forwarded: its code, and the window size that follows it, if any. -/
structure Request where
  code : DWORD
  payload : Option WinSize
deriving DecidableEq

/-- The bytes that follow the code. -/
def Request.tail (r : Request) : List UInt8 := (r.payload.map WinSize.codec.encode).getD []

/-- All bytes of a request. -/
def Request.bytes (r : Request) : List UInt8 := dword.encode r.code ++ r.tail

/-- `ReadFile` into a variable that holds the bytes `stale`: what the variable holds then. -/
def readInto (size : Nat) (stale pipe : List UInt8) : List UInt8 :=
  pipe.take size ++ stale.drop (pipe.take size).length

/-- Where the caller in the critical section stands. -/
inductive Stage where
  /-- At the `switch`. -/
  | begun (request data : DWORD)
  /-- Before the second `WriteFile` of `TIOCSWINSZ`. -/
  | payload (size : WinSize)
  /-- In the `ReadFile` of `TIOCGWINSZ`, for the request issued with this number. -/
  | reply (n : Nat)
  /-- At `LeaveCriticalSection`, with `dwRet`. -/
  | done (ret : DWORD)

/-- Where the console process stands: in its main loop, before the `WriteFile` that answers
`TIOCGWINSZ`, or before the second `ReadFile` of `TIOCSWINSZ`. -/
inductive ConsolePhase where
  | idle
  | replying
  | payload
deriving DecidableEq

/-- The kernel thread of a process inside `m_csIoctl`. -/
structure Inside where
  caller : Nat
  stage : Stage

/-- A window size read by a caller: the caller, the number of its request, and what it read. -/
structure Received where
  caller : Nat
  number : Nat
  size : WinSize

/-- The channel of one console. At most one kernel thread is `inside` the critical section. The
requests are numbered in the order of their issue. -/
structure Channel where
  inside : Option Inside
  toConsole : List UInt8
  toKernel : List UInt8
  console : ConsolePhase
  /-- The requests forwarded, with their callers. -/
  issued : List (Nat × Request)
  /-- The requests that `ProcessIoctlRequest` has decoded in full. -/
  decoded : List Request
  /-- The window sizes it has sent back, with the number of the request it was handling. -/
  replies : List (Nat × WinSize)
  received : List Received

namespace Channel

/-- The console has been created. -/
def start : Channel where
  inside := none
  toConsole := []
  toKernel := []
  console := .idle
  issued := []
  decoded := []
  replies := []
  received := []

/-- The caller moves on. -/
def goTo (c : Channel) (p : Nat) (stage : Stage) : Channel := { c with inside := some ⟨p, stage⟩ }

/-- The `WriteFile` of a request code. -/
def forward (c : Channel) (p : Nat) (r : Request) (stage : Stage) : Channel :=
  { c.goTo p stage with
    toConsole := c.toConsole ++ dword.encode r.code
    issued := c.issued ++ [(p, r)] }

/-- The `switch` of `DevConsole::ioctl`, up to its first `WriteFile`, `DevConsole.cpp:298–373`.
`size` is the window size that a `TIOCSWINSZ` finds at `data` in the memory of the caller. -/
def ioctl (c : Channel) (p : Nat) (request data : DWORD) (size : WinSize) : Channel :=
  if request = TCGETS then c.goTo p (.done 0#32)
  else if request = TCSETSW ∨ request = TCSETSF ∨ request = TCSETS then
    c.forward p ⟨request, none⟩ (.done 0#32)
  else if request = TIOCGPGRP ∨ request = TIOCSPGRP then
    c.goTo p (.done (if data = 0#32 then -EFAULT else 0#32))
  else if request = TIOCGWINSZ then c.forward p ⟨request, none⟩ (.reply c.issued.length)
  else if request = TIOCSWINSZ then c.forward p ⟨request, some size⟩ (.payload size)
  else if request = TCXONC then c.goTo p (.done 0#32)
  else c.goTo p (.done (-ENOSYS))

/-- The first `ReadFile` of `ProcessIoctlRequest` and its `switch`, `KeowConsole.cpp:80–116`. -/
def readRequest (c : Channel) (stale : List UInt8) : Channel :=
  let requestType := dword.decode (readInto dword.size stale c.toConsole)
  let c := { c with toConsole := c.toConsole.drop dword.size }
  if requestType = TIOCGWINSZ then
    { c with console := .replying, decoded := c.decoded ++ [⟨requestType, none⟩] }
  else if requestType = TIOCSWINSZ then { c with console := .payload }
  else { c with decoded := c.decoded ++ [⟨requestType, none⟩] }

/-- The second `ReadFile` of `TIOCSWINSZ`, `KeowConsole.cpp:120`. What follows it touches the
screen only. -/
def readPayload (c : Channel) (stale : List UInt8) : Channel :=
  let size := WinSize.codec.decode (readInto WinSize.codec.size stale c.toConsole)
  { c with
    toConsole := c.toConsole.drop WinSize.codec.size
    console := .idle
    decoded := c.decoded ++ [⟨TIOCSWINSZ, some size⟩] }

/-- The `WriteFile` that answers `TIOCGWINSZ`, `KeowConsole.cpp:107–113`, for a screen of this
width with its window at these lines. -/
def writeReply (c : Channel) (width top bottom : BitVec 16) : Channel :=
  let size : WinSize := ⟨bottom - top + 1#16, width, 0#16, 0#16⟩
  { c with
    toKernel := c.toKernel ++ WinSize.codec.encode size
    console := .idle
    replies := c.replies ++ [(c.decoded.length - 1, size)] }

/-- The `ReadFile` of `TIOCGWINSZ`, `DevConsole.cpp:348`. -/
def readReply (c : Channel) (p n : Nat) (stale : List UInt8) : Channel :=
  let size := WinSize.codec.decode (readInto WinSize.codec.size stale c.toKernel)
  { c.goTo p (.done 0#32) with
    toKernel := c.toKernel.drop WinSize.codec.size
    received := c.received ++ [⟨p, n, size⟩] }

/-- What happens next on one side of the channel. -/
inductive Action where
  /-- `EnterCriticalSection` by the thread of `p`. -/
  | enter (p : Nat) (request data : DWORD)
  /-- The thread inside goes on to its next pipe operation, or leaves. `stale` is what the
  variable it reads into holds, `size` what the memory of the process holds. -/
  | kernel (size : WinSize) (stale : List UInt8)
  /-- The console process does its next pipe operation. -/
  | console (width top bottom : BitVec 16) (stale : List UInt8)

/-- The thread inside the critical section goes on. It blocks on an empty pipe. -/
def kernelStep (c : Channel) (size : WinSize) (stale : List UInt8) : Channel :=
  match c.inside with
  | none => c
  | some ⟨p, .begun request data⟩ => c.ioctl p request data size
  | some ⟨p, .payload size⟩ =>
      { c.goTo p (.done 0#32) with toConsole := c.toConsole ++ WinSize.codec.encode size }
  | some ⟨p, .reply n⟩ => if c.toKernel = [] then c else c.readReply p n stale
  | some ⟨_, .done _⟩ => { c with inside := none }

/-- The console process goes on. Its main loop calls `ProcessIoctlRequest` once there is
something in the pipe, `KeowConsole.cpp:244–254`, and the second `ReadFile` blocks until then. -/
def consoleStep (c : Channel) (width top bottom : BitVec 16) (stale : List UInt8) : Channel :=
  match c.console with
  | .idle => if c.toConsole = [] then c else c.readRequest stale
  | .replying => c.writeReply width top bottom
  | .payload => if c.toConsole = [] then c else c.readPayload stale

/-- One action. `EnterCriticalSection` blocks while another thread is inside. -/
def step (c : Channel) : Action → Channel
  | .enter p request data =>
      match c.inside with
      | none => c.goTo p (.begun request data)
      | some _ => c
  | .kernel size stale => c.kernelStep size stale
  | .console width top bottom stale => c.consoleStep width top bottom stale

end Channel

end Keow.Console
