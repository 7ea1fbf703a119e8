import Keow.Base.Memory
import Keow.Files.FreeSlots

/-!
# Reads that do not block

`sys_read` on a pipe or a console. With `O_NONBLOCK` the handler first asks how much there is,
and where that is not enough it leaves it to `GetLastError` to say why: a value that the question
itself only sets where it fails.
-/

namespace Keow.Files

open Keow.Base Keow.Kernel

/-- A Win32 pipe: what has been written and not been read, and whether more can come. -/
structure PipeObject where
  content : List UInt8
  fits : content.length < 2 ^ 32
  writerOpen : Bool

/-- The pipes by handle, the handles that `IOHPipe` and `IOHNtConsole` objects read from, the
user memory of the processes, what Win32 `GetLastError` is in each, and the `g_LastError` of the
user-mode library. A thread that waits in `ReadFile` is `blocked`. -/
structure PipeWorld where
  pipe : Nat → PipeObject
  hRemotePipe : Nat → Nat
  hRemoteConsoleRead : Nat → Nat
  memory : Nat → Mem 32
  threadError : Nat → DWORD
  lastError : Nat → DWORD
  blocked : Bool := false

namespace PipeWorld

/-- Win32 `SetLastError`. -/
def setThreadError (r : PipeWorld) (P : Nat) (err : DWORD) : PipeWorld :=
  { r with threadError := fun q ↦ if q = P then err else r.threadError q }

/-- The macro `RET` that every injected call ends with, `SysCallDll_User.cpp:40`. -/
def keepError (r : PipeWorld) (P : Nat) : PipeWorld :=
  { r with lastError := fun q ↦ if q = P then r.threadError P else r.lastError q }

/-- The first bytes of a pipe move to a buffer. -/
def transfer (r : PipeWorld) (P pipe : Nat) (address : DWORD) (n : Nat) : PipeWorld :=
  let p := r.pipe pipe
  { r with
    pipe := fun i ↦
      if i = pipe then
        { p with
          content := p.content.drop n
          fits := Nat.lt_of_le_of_lt (List.length_drop ▸ Nat.sub_le _ n) p.fits }
      else r.pipe i
    memory := fun q ↦
      if q = P then (r.memory P).write address (p.content.take n) else r.memory q }

/-- `SysCallDll::GetLastError`. -/
def getLastError (r : PipeWorld) (P : Nat) : DWORD × PipeWorld := (r.lastError P, r.keepError P)

/-- `SysCallDll::PeekAvailablePipe`, `SysCallDll_User.cpp:186–195`. `PeekNamedPipe` fails where
nothing is left and nothing can come. -/
def peekAvailablePipe (r : PipeWorld) (P pipe : Nat) : DWORD × PipeWorld :=
  let p := r.pipe pipe
  if p.content = [] ∧ p.writerOpen = false then
    (0#32, (r.setThreadError P ERROR_BROKEN_PIPE).keepError P)
  else (BitVec.ofNat 32 p.content.length, r.keepError P)

/-- `SysCallDll::ReadFile`, `SysCallDll_User.cpp:176–184`. -/
def readFile (r : PipeWorld) (P pipe : Nat) (address size : DWORD) : DWORD × PipeWorld :=
  let r := r.setThreadError P 0#32
  let p := r.pipe pipe
  if p.content = [] then
    if p.writerOpen then (0#32, { r with blocked := true })
    else (0#32, (r.setThreadError P ERROR_BROKEN_PIPE).keepError P)
  else
    let n := min p.content.length size.toNat
    (BitVec.ofNat 32 n, (r.transfer P pipe address n).keepError P)

/-- The second half of `Read`: the result and `*pRead`. -/
def readBlocking (r : PipeWorld) (P pipe : Nat) (address size : DWORD) :
    (Bool × DWORD) × PipeWorld :=
  let (read, r) := r.readFile P pipe address size
  if read = 0#32 then
    let (err, r) := r.getLastError P
    ((err = ERROR_BROKEN_PIPE, 0#32), r)
  else ((true, read), r)

/-- `Read`, `IOHPipe.cpp:99–136` and `IOHNtConsole.cpp:99–136`, with `m_Flags` and the handle. -/
def readPipe (r : PipeWorld) (flags : DWORD) (P pipe : Nat) (address size : DWORD) :
    (Bool × DWORD) × PipeWorld :=
  if flags &&& O_NONBLOCK ≠ 0#32 then
    let (bytes, r) := r.peekAvailablePipe P pipe
    if bytes < size then
      if bytes = 0#32 then
        let (err, r) := r.getLastError P
        ((err = ERROR_BROKEN_PIPE, 0#32), r)
      else ((false, 0#32), r)
    else r.readBlocking P pipe address size
  else r.readBlocking P pipe address size

/-- `IOHPipe::Read`. -/
def iohPipeRead (r : PipeWorld) (flags : DWORD) (P a : Nat) (address size : DWORD) :
    (Bool × DWORD) × PipeWorld := r.readPipe flags P (r.hRemotePipe a) address size

/-- `IOHNtConsole::Read`. -/
def iohNtConsoleRead (r : PipeWorld) (flags : DWORD) (P a : Nat) (address size : DWORD) :
    (Bool × DWORD) × PipeWorld := r.readPipe flags P (r.hRemoteConsoleRead a) address size

/-- The handle that an object reads from. -/
def readHandle (r : PipeWorld) (a : Nat) : HandlerKind → Option Nat
  | .pipe => some (r.hRemotePipe a)
  | .ntConsole => some (r.hRemoteConsoleRead a)
  | _ => none

end PipeWorld

variable (base : Environment PipeWorld)

/-- `Read` of pipes and consoles, which are among the objects of a table. -/
def pipeEnvironment (t : Table) : Environment PipeWorld :=
  { base with
    read := fun P a address size r ↦
      match t.object a with
      | some { kind := .pipe, flags := flags, .. } => r.iohPipeRead flags P a address size
      | some { kind := .ntConsole, flags := flags, .. } =>
          r.iohNtConsoleRead flags P a address size
      | _ => base.read P a address size r
    dllLastError := fun P r ↦ r.getLastError P }

/-- What a read that does not block is to do with a pipe: the front of the stream where there is
something, 0 at its end, and an error in between. -/
structure Delivers (P pipe : Nat) (address size eax : DWORD) (r r' : PipeWorld) : Prop where
  notBlocked : r'.blocked = r.blocked
  count : (r.pipe pipe).content ≠ [] →
    eax.toNat = min (r.pipe pipe).content.length size.toNat
  bytes : (r.pipe pipe).content ≠ [] →
    (r'.memory P).read address eax.toNat = (r.pipe pipe).content.take eax.toNat
  rest : (r.pipe pipe).content ≠ [] →
    (r'.pipe pipe).content = (r.pipe pipe).content.drop eax.toNat
  atEnd : (r.pipe pipe).content = [] → (r.pipe pipe).writerOpen = false → eax = 0#32
  notYet : (r.pipe pipe).content = [] → (r.pipe pipe).writerOpen = true → eax.toInt < 0

/-- All that was asked for is there; or nothing is, and nothing can come or an error is left over
that is not the one of a broken pipe. -/
def Prompt (P pipe : Nat) (size : DWORD) (r : PipeWorld) : Prop :=
  size.toNat ≤ (r.pipe pipe).content.length ∨
    (r.pipe pipe).content = [] ∧ ((r.pipe pipe).writerOpen = false ∨
      r.threadError P ≠ 0#32 ∧ r.threadError P ≠ ERROR_BROKEN_PIPE)

/-! ## `Read`, case by case -/

section Read

variable {r : PipeWorld} {P pipe : Nat} {flags size : DWORD}

namespace PipeWorld

theorem peekAvailablePipe_of_not (h : ¬((r.pipe pipe).content = [] ∧
    (r.pipe pipe).writerOpen = false)) :
    r.peekAvailablePipe P pipe =
      (BitVec.ofNat 32 (r.pipe pipe).content.length, r.keepError P) := by
  rw [peekAvailablePipe, if_neg h]

theorem toNat_length_content (p : PipeObject) :
    (BitVec.ofNat 32 p.content.length).toNat = p.content.length := by
  rw [BitVec.toNat_ofNat, Nat.mod_eq_of_lt p.fits]

theorem lastError_keepError (r : PipeWorld) (P : Nat) :
    (r.keepError P).lastError P = r.threadError P := if_pos rfl

theorem threadError_setThreadError (r : PipeWorld) (P : Nat) (err : DWORD) :
    (r.setThreadError P err).threadError P = err := if_pos rfl

/-- What is asked for is there. -/
theorem readPipe_of_le (address : DWORD) (hflags : flags &&& O_NONBLOCK ≠ 0#32)
    (hsize : size ≠ 0#32) (hle : size.toNat ≤ (r.pipe pipe).content.length) :
    r.readPipe flags P pipe address size = ((true, size),
      (((r.keepError P).setThreadError P 0#32).transfer P pipe address size.toNat).keepError
        P) := by
  have hpos : 0 < size.toNat := Nat.pos_of_ne_zero fun h ↦ hsize (BitVec.eq_of_toNat_eq h)
  have hne : (r.pipe pipe).content ≠ [] := List.ne_nil_of_length_pos (by omega)
  have henough : ¬BitVec.ofNat 32 (r.pipe pipe).content.length < size := by
    rw [BitVec.lt_def, toNat_length_content]
    omega
  have hread : (r.keepError P).readFile P pipe address size = (size,
      (((r.keepError P).setThreadError P 0#32).transfer P pipe address size.toNat).keepError
        P) := by
    have hmin : min (r.pipe pipe).content.length size.toNat = size.toNat := Nat.min_eq_right hle
    rw [readFile]
    show (if (r.pipe pipe).content = [] then _ else
      (BitVec.ofNat 32 (min (r.pipe pipe).content.length size.toNat), _)) = _
    rw [if_neg hne, hmin, BitVec.ofNat_toNat, BitVec.setWidth_eq]
    exact congrArg (fun n ↦ (size, (PipeWorld.transfer _ P pipe address n).keepError P)) hmin
  rw [readPipe, if_pos hflags, peekAvailablePipe_of_not fun h ↦ hne h.1]
  dsimp only
  rw [if_neg henough, readBlocking, hread]
  dsimp only
  rw [if_neg hsize]

/-- Less is there than is asked for, but something. -/
theorem readPipe_of_partial (address : DWORD) (hflags : flags &&& O_NONBLOCK ≠ 0#32)
    (hne : (r.pipe pipe).content ≠ []) (hlt : (r.pipe pipe).content.length < size.toNat) :
    r.readPipe flags P pipe address size = ((false, 0#32), r.keepError P) := by
  have hshort : BitVec.ofNat 32 (r.pipe pipe).content.length < size := by
    rw [BitVec.lt_def, toNat_length_content]
    exact hlt
  have hzero : BitVec.ofNat 32 (r.pipe pipe).content.length ≠ 0#32 := by
    intro h
    have hnat := congrArg BitVec.toNat h
    rw [toNat_length_content] at hnat
    exact hne (List.eq_nil_of_length_eq_zero hnat)
  rw [readPipe, if_pos hflags, peekAvailablePipe_of_not fun h ↦ hne h.1]
  dsimp only
  rw [if_pos hshort, if_neg hzero]

/-- Nothing is there. What `Peek` finds decides, or what was left over. -/
theorem readPipe_of_empty (address : DWORD) (hflags : flags &&& O_NONBLOCK ≠ 0#32)
    (hsize : size ≠ 0#32) {rPeek : PipeWorld}
    (hpeek : r.peekAvailablePipe P pipe = (0#32, rPeek)) :
    r.readPipe flags P pipe address size =
      ((decide (rPeek.lastError P = ERROR_BROKEN_PIPE), 0#32), rPeek.keepError P) := by
  have hshort : 0#32 < size := by
    rw [BitVec.lt_def]
    exact Nat.pos_of_ne_zero fun h ↦ hsize (BitVec.eq_of_toNat_eq h)
  rw [readPipe, if_pos hflags, hpeek]
  dsimp only
  rw [if_pos hshort, if_pos rfl]
  rfl

theorem peekAvailablePipe_atEnd (hempty : (r.pipe pipe).content = [])
    (hclosed : (r.pipe pipe).writerOpen = false) :
    r.peekAvailablePipe P pipe = (0#32, (r.setThreadError P ERROR_BROKEN_PIPE).keepError P) := by
  rw [peekAvailablePipe, if_pos ⟨hempty, hclosed⟩]

theorem peekAvailablePipe_notYet (hempty : (r.pipe pipe).content = [])
    (hopen : (r.pipe pipe).writerOpen = true) :
    r.peekAvailablePipe P pipe = (0#32, r.keepError P) := by
  rw [peekAvailablePipe_of_not fun h ↦ (by rw [hopen] at h; exact Bool.noConfusion h.2), hempty]
  rfl

end PipeWorld

end Read

/-! ## `sys_read` -/

section SysRead

variable {w : FileWorld PipeWorld} {P a pipe : Nat} {fd address size : DWORD} {h : Handler}

/-- `sys_read` of something open, after `Read`. -/
theorem sysRead_eq (env : Environment PipeWorld) (hopen : OpenAt w P fd a h)
    (address size : DWORD) {done : Bool} {read : DWORD} {r : PipeWorld}
    (hread : env.read P a address size w.rest = ((done, read), r)) :
    sysRead env P fd address size w =
      if done then .ok read { w with rest := r, indexed := (fd.toNat : Int) :: w.indexed }
      else .ok (-win32ErrToUnixError (env.dllLastError P r).1)
        { w with rest := (env.dllLastError P r).2, indexed := (fd.toNat : Int) :: w.indexed } := by
  rw [sysRead, withHandler_of_open _ hopen.valid hopen.slot, method_of_openAt hopen, hread]
  cases done with
  | true => rfl
  | false => rfl

/-- The objects of both classes read alike. -/
theorem read_of_readHandle (hopen : OpenAt w P fd a h)
    (hpipe : w.rest.readHandle a h.kind = some pipe) (address size : DWORD) :
    (pipeEnvironment base w.table).read P a address size w.rest =
      w.rest.readPipe h.flags P pipe address size := by
  obtain ⟨kind, inheritable, flags⟩ := h
  simp only [pipeEnvironment, hopen.object]
  cases kind with
  | pipe =>
    rw [← Option.some.inj hpipe]
    rfl
  | ntConsole =>
    rw [← Option.some.inj hpipe]
    rfl
  | file => cases hpipe
  | null => cases hpipe
  | random => cases hpipe
  | staticData => cases hpipe

/-- The call returns, and has delivered. -/
def ReadsRight (w : FileWorld PipeWorld) (P pipe : Nat) (fd address size : DWORD) : Prop :=
  ∃ eax w', sysRead (pipeEnvironment base w.table) P fd address size w = .ok eax w' ∧
    Delivers P pipe address size eax w.rest w'.rest

theorem readsRight_iff_of_read (hopen : OpenAt w P fd a h)
    (hpipe : w.rest.readHandle a h.kind = some pipe) {done : Bool} {read : DWORD} {r : PipeWorld}
    (hread : w.rest.readPipe h.flags P pipe address size = ((done, read), r)) :
    ReadsRight base w P pipe fd address size ↔
      if done then Delivers P pipe address size read w.rest r
      else Delivers P pipe address size (-win32ErrToUnixError (r.lastError P)) w.rest
        (r.keepError P) := by
  have hrun := sysRead_eq (pipeEnvironment base w.table) hopen address size
    ((read_of_readHandle base hopen hpipe address size).trans hread)
  cases done with
  | true => exact Comp.exists_ok_iff hrun
  | false => exact Comp.exists_ok_iff hrun

/-- As many bytes as are asked for. -/
theorem delivers_transfer {r : PipeWorld} (hpos : 0 < size.toNat)
    (hle : size.toNat ≤ (r.pipe pipe).content.length) :
    Delivers P pipe address size size r
      ((((r.keepError P).setThreadError P 0#32).transfer P pipe address size.toNat).keepError
        P) := by
  have hne : (r.pipe pipe).content ≠ [] := List.ne_nil_of_length_pos (by omega)
  have htaken : ((r.pipe pipe).content.take size.toNat).length = size.toNat := by
    rw [List.length_take, Nat.min_eq_left hle]
  refine ⟨rfl, fun _ ↦ (Nat.min_eq_right hle).symm, fun _ ↦ ?_, fun _ ↦ ?_,
    fun hempty ↦ absurd hempty hne, fun hempty ↦ absurd hempty hne⟩
  · have hmemory : ((((r.keepError P).setThreadError P 0#32).transfer P pipe address
        size.toNat).keepError P).memory P =
          (r.memory P).write address ((r.pipe pipe).content.take size.toNat) := if_pos rfl
    have hread := Mem.read_write (r.memory P) address ((r.pipe pipe).content.take size.toNat)
      (by have := size.isLt; omega)
    rwa [htaken, ← hmemory] at hread
  · show (if pipe = pipe then _ else _ : PipeObject).content = _
    rw [if_pos rfl]
    rfl

/-- Nothing, from an empty pipe. -/
theorem delivers_nothing {eax : DWORD} {r r' : PipeWorld} (hempty : (r.pipe pipe).content = [])
    (hblocked : r'.blocked = r.blocked) (hend : (r.pipe pipe).writerOpen = false → eax = 0#32)
    (hyet : (r.pipe pipe).writerOpen = true → eax.toInt < 0) :
    Delivers P pipe address size eax r r' :=
  ⟨hblocked, fun hne ↦ absurd hempty hne, fun hne ↦ absurd hempty hne,
    fun hne ↦ absurd hempty hne, fun _ ↦ hend, fun _ ↦ hyet⟩

theorem readsRight_of_le (hopen : OpenAt w P fd a h)
    (hpipe : w.rest.readHandle a h.kind = some pipe) (hflags : h.flags &&& O_NONBLOCK ≠ 0#32)
    (address : DWORD) (hsize : size ≠ 0#32) (hle : size.toNat ≤ (w.rest.pipe pipe).content.length) :
    ReadsRight base w P pipe fd address size := by
  have hpos : 0 < size.toNat := Nat.pos_of_ne_zero fun h ↦ hsize (BitVec.eq_of_toNat_eq h)
  rw [readsRight_iff_of_read base hopen hpipe (PipeWorld.readPipe_of_le address hflags hsize hle),
    if_pos rfl]
  exact delivers_transfer hpos hle

/-- Some bytes, but fewer than asked for: they stay in the pipe. -/
theorem not_readsRight_of_fewer (hopen : OpenAt w P fd a h)
    (hpipe : w.rest.readHandle a h.kind = some pipe) (hflags : h.flags &&& O_NONBLOCK ≠ 0#32)
    (address : DWORD) (hsome : (w.rest.pipe pipe).content ≠ [])
    (hlt : (w.rest.pipe pipe).content.length < size.toNat) :
    ¬ReadsRight base w P pipe fd address size := by
  have hread := PipeWorld.readPipe_of_partial (P := P) address hflags hsome hlt
  rw [readsRight_iff_of_read base hopen hpipe hread, if_neg Bool.false_ne_true]
  intro h
  -- the bytes would have to be gone from the pipe
  have hrest := congrArg List.length (h.rest hsome)
  rw [List.length_drop, h.count hsome] at hrest
  have hpos := List.length_pos_of_ne_nil hsome
  have hkept : (((w.rest.keepError P).keepError P).pipe pipe).content.length =
    (w.rest.pipe pipe).content.length := rfl
  omega

theorem readsRight_of_atEnd (hopen : OpenAt w P fd a h)
    (hpipe : w.rest.readHandle a h.kind = some pipe) (hflags : h.flags &&& O_NONBLOCK ≠ 0#32)
    (address : DWORD) (hsize : size ≠ 0#32) (hempty : (w.rest.pipe pipe).content = [])
    (hclosed : (w.rest.pipe pipe).writerOpen = false) :
    ReadsRight base w P pipe fd address size := by
  rw [readsRight_iff_of_read base hopen hpipe
    (PipeWorld.readPipe_of_empty address hflags hsize
      (PipeWorld.peekAvailablePipe_atEnd hempty hclosed)), PipeWorld.lastError_keepError,
    PipeWorld.threadError_setThreadError, if_pos (decide_eq_true rfl)]
  exact delivers_nothing hempty rfl (fun _ ↦ rfl) fun hwriter ↦ nomatch hclosed.symm.trans hwriter

/-- Nothing yet: the error that was left over is reported. -/
theorem readsRight_iff_of_notYet (hopen : OpenAt w P fd a h)
    (hpipe : w.rest.readHandle a h.kind = some pipe) (hflags : h.flags &&& O_NONBLOCK ≠ 0#32)
    (address : DWORD) (hsize : size ≠ 0#32) (hempty : (w.rest.pipe pipe).content = [])
    (hwriter : (w.rest.pipe pipe).writerOpen = true) :
    ReadsRight base w P pipe fd address size ↔
      w.rest.threadError P ≠ 0#32 ∧ w.rest.threadError P ≠ ERROR_BROKEN_PIPE := by
  have hread := PipeWorld.readPipe_of_empty address hflags hsize
    (PipeWorld.peekAvailablePipe_notYet (P := P) hempty hwriter)
  rw [PipeWorld.lastError_keepError] at hread
  rw [readsRight_iff_of_read base hopen hpipe hread, PipeWorld.lastError_keepError]
  by_cases hbroken : w.rest.threadError P = ERROR_BROKEN_PIPE
  · rw [if_pos (decide_eq_true hbroken)]
    refine iff_of_false (fun h ↦ ?_) fun h ↦ h.2 hbroken
    exact absurd (h.notYet hempty hwriter) (by decide)
  · rw [if_neg (fun h ↦ hbroken (of_decide_eq_true h))]
    constructor
    · exact fun h ↦ ⟨(neg_win32ErrToUnixError_neg _).mp (h.notYet hempty hwriter), hbroken⟩
    · rintro ⟨hother, -⟩
      exact delivers_nothing hempty rfl (fun hclosed ↦ nomatch hwriter.symm.trans hclosed)
        fun _ ↦ (neg_win32ErrToUnixError_neg _).mpr hother

/-- A read with `O_NONBLOCK` delivers exactly if it can be prompt. -/
theorem readsRight_iff (hopen : OpenAt w P fd a h)
    (hpipe : w.rest.readHandle a h.kind = some pipe) (hflags : h.flags &&& O_NONBLOCK ≠ 0#32)
    (address : DWORD) (hsize : size ≠ 0#32) :
    ReadsRight base w P pipe fd address size ↔ Prompt P pipe size w.rest := by
  by_cases hle : size.toNat ≤ (w.rest.pipe pipe).content.length
  · exact iff_of_true (readsRight_of_le base hopen hpipe hflags address hsize hle) (.inl hle)
  · rw [Prompt, or_iff_right hle]
    by_cases hempty : (w.rest.pipe pipe).content = []
    · rw [and_iff_right hempty]
      cases hwriter : (w.rest.pipe pipe).writerOpen with
      | false =>
        exact iff_of_true (readsRight_of_atEnd base hopen hpipe hflags address hsize hempty hwriter)
          (.inl rfl)
      | true =>
        rw [or_iff_right Bool.noConfusion]
        exact readsRight_iff_of_notYet base hopen hpipe hflags address hsize hempty hwriter
    · exact iff_of_false
        (not_readsRight_of_fewer base hopen hpipe hflags address hempty (Nat.not_le.mp hle))
        fun h ↦ hempty h.1

/-- The first process with its consoles, of which the first does not block; ten bytes wait. -/
def tenBytes : FileWorld PipeWorld where
  table := startTable.setObject 0 (some { kind := .ntConsole, flags := O_NONBLOCK })
  rest :=
    { pipe := fun _ ↦
        { content := List.replicate 10 0x61, fits := by decide, writerOpen := true }
      hRemotePipe := id
      hRemoteConsoleRead := id
      memory := fun _ _ ↦ 0
      threadError := fun _ ↦ 0#32
      lastError := fun _ ↦ 0#32 }

theorem openAt_tenBytes :
    OpenAt tenBytes 0 0#32 0 { kind := .ntConsole, flags := O_NONBLOCK } where
  valid := by decide
  slot := rfl
  object := rfl

/-- Four of the ten bytes are delivered. -/
theorem readsRight_iff_tenBytes :
    ReadsRight (Environment.idle PipeWorld) tenBytes 0 0 0#32 0x1000#32 4#32 :=
  (readsRight_iff (Environment.idle PipeWorld) openAt_tenBytes rfl (by decide) 0x1000#32
    (by decide)).mpr (.inl (by decide))

/-- Of 10 bytes that wait, none are given to a read of 16: what it returns is 0. -/
theorem not_readsRight_tenBytes :
    ¬ReadsRight (Environment.idle PipeWorld) tenBytes 0 0 0#32 0x1000#32 16#32 := by
  have hread : tenBytes.rest.readPipe O_NONBLOCK 0 0 0x1000#32 16#32 =
      ((false, 0#32), tenBytes.rest.keepError 0) :=
    PipeWorld.readPipe_of_partial 0x1000#32 (by decide) (by decide) (by decide)
  have hpipe : tenBytes.rest.readHandle 0 .ntConsole = some 0 := rfl
  rw [readsRight_iff_of_read (Environment.idle PipeWorld) openAt_tenBytes hpipe hread,
    if_neg Bool.false_ne_true]
  intro h
  exact absurd (h.count (by decide)) (by decide)

end SysRead

end Keow.Files
