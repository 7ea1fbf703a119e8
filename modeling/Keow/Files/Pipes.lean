import Keow.Files.Transfers

/-!
# Pipes between processes

Runs of any processes that make pipes, copy and close descriptors, fork, exec, exit, read and
write. Every byte that is read was written, once and in order; a read tells the end of the stream,
and a write breaks, exactly when no descriptor refers to the other end any more.
-/

namespace Keow.Files

open Keow.Base Keow.Kernel

namespace PipeWorld

/-! ## `Read` and `Write` of one pipe -/

/-- The first `n` bytes of a pipe have moved to a buffer, and nothing else has. -/
structure Took (P pipe : Nat) (address : DWORD) (n : Nat) (r r' : PipeWorld) : Prop where
  content : (r'.pipe pipe).content = (r.pipe pipe).content.drop n
  memory : r'.memory P = (r.memory P).write address ((r.pipe pipe).content.take n)
  others : ∀ i ≠ pipe, (r'.pipe i).content = (r.pipe i).content
  writer : ∀ i, (r'.pipe i).writerOpen = (r.pipe i).writerOpen

section Took

variable {r r' : PipeWorld} {P pipe : Nat} {flags address size : DWORD}

theorem took_nothing (hpipe : r'.pipe = r.pipe) (hmemory : r'.memory = r.memory) :
    Took P pipe address 0 r r' := by
  refine ⟨by rw [hpipe, List.drop_zero], ?_, fun i _ ↦ by rw [hpipe], fun i ↦ by rw [hpipe]⟩
  rw [hmemory, List.take_zero, Mem.write_nil]

theorem Took.of_eq {n : Nat} (h : Took P pipe address n r r') {r₀ : PipeWorld}
    (hpipe : r.pipe = r₀.pipe) (hmemory : r.memory = r₀.memory) :
    Took P pipe address n r₀ r' := by
  obtain ⟨hcontent, hmem, hothers, hwriter⟩ := h
  rw [hpipe] at hcontent hmem hothers hwriter
  rw [hmemory] at hmem
  exact ⟨hcontent, hmem, hothers, hwriter⟩

theorem took_transfer (r : PipeWorld) (P pipe : Nat) (address : DWORD) (n : Nat) :
    Took P pipe address n r (r.transfer P pipe address n) := by
  refine ⟨?_, if_pos rfl, fun i hi ↦ ?_, fun i ↦ ?_⟩
  · show (if pipe = pipe then _ else _ : PipeObject).content = _
    rw [if_pos rfl]
  · show (if i = pipe then _ else _ : PipeObject).content = _
    rw [if_neg hi]
  · show (if i = pipe then _ else _ : PipeObject).writerOpen = _
    split
    · next hi => rw [hi]
    · rfl

/-- What `Read` makes of a pipe: its result, and as many bytes taken as it tells. -/
structure ReadResult (P pipe : Nat) (address size : DWORD) (r : PipeWorld)
    (result : (Bool × DWORD) × PipeWorld) : Prop where
  took : Took P pipe address result.1.2.toNat r result.2
  there : result.1.2.toNat ≤ (r.pipe pipe).content.length
  le : result.1.2.toNat ≤ size.toNat
  failed : result.1.1 = false → result.1.2 = 0#32

theorem readResult_nothing {done : Bool} (hpipe : r'.pipe = r.pipe)
    (hmemory : r'.memory = r.memory) :
    ReadResult P pipe address size r ((done, 0#32), r') :=
  ⟨took_nothing hpipe hmemory, Nat.zero_le _, Nat.zero_le _, fun _ ↦ rfl⟩

/-- Behind `Peek`, from an empty pipe: the end of the stream, or the thread waits. -/
theorem readBlocking_empty (P : Nat) (address size : DWORD)
    (hempty : (r.pipe pipe).content = []) :
    ∃ done r', r.readBlocking P pipe address size = ((done, 0#32), r') ∧ r'.pipe = r.pipe ∧
      r'.memory = r.memory ∧ ((r.pipe pipe).writerOpen = false → done = true) := by
  have hempty' : ((r.setThreadError P 0#32).pipe pipe).content = [] := hempty
  by_cases hwriter : (r.pipe pipe).writerOpen = true
  · have hwriter' : ((r.setThreadError P 0#32).pipe pipe).writerOpen = true := hwriter
    simp only [readBlocking, readFile, if_pos hempty', if_pos hwriter', getLastError, if_true]
    exact ⟨_, _, rfl, rfl, rfl, fun hclosed ↦ Bool.noConfusion (hwriter.symm.trans hclosed)⟩
  · have hwriter' : ¬((r.setThreadError P 0#32).pipe pipe).writerOpen = true := hwriter
    simp only [readBlocking, readFile, if_pos hempty', if_neg hwriter', getLastError, if_true]
    exact ⟨_, _, rfl, rfl, rfl,
      fun _ ↦ decide_eq_true (lastError_keepError _ P ▸ threadError_setThreadError _ P _)⟩

/-- The number of bytes that a read from a pipe that is not empty takes. -/
theorem toNat_min_length (r : PipeWorld) (pipe : Nat) (size : DWORD) :
    (BitVec.ofNat 32 (min (r.pipe pipe).content.length size.toNat)).toNat =
      min (r.pipe pipe).content.length size.toNat := by
  rw [BitVec.toNat_ofNat,
    Nat.mod_eq_of_lt (Nat.lt_of_le_of_lt (Nat.min_le_left _ _) (r.pipe pipe).fits)]

theorem readBlocking_some (hsize : 0 < size.toNat) (hne : (r.pipe pipe).content ≠ []) :
    r.readBlocking P pipe address size =
      ((true, BitVec.ofNat 32 (min (r.pipe pipe).content.length size.toNat)),
        ((r.setThreadError P 0#32).transfer P pipe address
          (min (r.pipe pipe).content.length size.toNat)).keepError P) := by
  have hne' : ¬((r.setThreadError P 0#32).pipe pipe).content = [] := hne
  have hzero : BitVec.ofNat 32 (min (r.pipe pipe).content.length size.toNat) ≠ 0#32 := by
    intro hzero
    have hnat := congrArg BitVec.toNat hzero
    have hpos := List.length_pos_of_ne_nil hne
    rw [toNat_min_length, BitVec.toNat_ofNat] at hnat
    omega
  simp only [readBlocking, readFile, if_neg hne']
  exact if_neg hzero

theorem readResult_blocking (r : PipeWorld) (P pipe : Nat) (address : DWORD)
    (hsize : 0 < size.toNat) :
    ReadResult P pipe address size r (r.readBlocking P pipe address size) := by
  by_cases hempty : (r.pipe pipe).content = []
  · obtain ⟨done, r', hread, hpipe, hmemory, -⟩ := readBlocking_empty P address size
      hempty
    rw [hread]
    exact readResult_nothing hpipe hmemory
  · rw [readBlocking_some hsize hempty]
    have htook := took_transfer (r.setThreadError P 0#32) P pipe address
      (min (r.pipe pipe).content.length size.toNat)
    refine ⟨?_, ?_, ?_, fun hfalse ↦ nomatch hfalse⟩ <;> simp only [toNat_min_length]
    · exact ⟨htook.content, htook.memory, htook.others, htook.writer⟩
    · exact Nat.min_le_left _ _
    · exact Nat.min_le_right _ _

/-- With or without `O_NONBLOCK`, what is read is taken from the front. -/
theorem readResult_readPipe (r : PipeWorld) (flags : DWORD) (P pipe : Nat) (address : DWORD)
    (hsize : 0 < size.toNat) :
    ReadResult P pipe address size r (r.readPipe flags P pipe address size) := by
  unfold readPipe
  split
  · have hpeek : (r.peekAvailablePipe P pipe).2.pipe = r.pipe ∧
        (r.peekAvailablePipe P pipe).2.memory = r.memory := by
      unfold peekAvailablePipe
      dsimp only
      split <;> exact ⟨rfl, rfl⟩
    dsimp only
    split
    · split
      · exact readResult_nothing hpeek.1 hpeek.2
      · exact readResult_nothing hpeek.1 hpeek.2
    · have hread := readResult_blocking (r.peekAvailablePipe P pipe).2 P pipe
        address hsize
      exact ⟨hread.took.of_eq hpeek.1 hpeek.2, hpeek.1 ▸ hread.there, hread.le, hread.failed⟩
  · exact readResult_blocking r P pipe address hsize

end Took

end PipeWorld

/-! ## Runs -/

/-- A call of a process, or its end. -/
inductive IOCall where
  | call (c : Call)
  | read (fd address size : DWORD)
  | write (fd address size : DWORD)
  | lseek (fd offset whence : DWORD)
  | exit

/-- The thread would wait: for bytes where there are none yet, or for room. -/
def IOCall.Waits (w : FileWorld Win32) (P : Nat) : IOCall → Prop
  | .read fd _ _ => ∃ i < w.rest.made, refersTo w P fd.toNat = some (.read i) ∧
      flagsOf w P fd &&& O_NONBLOCK = 0#32 ∧ (w.rest.pipes.pipe i).content = [] ∧
      (w.rest.pipes.pipe i).writerOpen = true
  | .write fd _ size => ∃ i < w.rest.made, refersTo w P fd.toNat = some (.write i) ∧
      w.rest.holding.isOpen (.read i) = true ∧
      2 ^ 32 ≤ (w.rest.pipes.pipe i).content.length + size.toNat
  | _ => False

instance (w : FileWorld Win32) (P : Nat) : (c : IOCall) → Decidable (c.Waits w P)
  | .read _ _ _ => inferInstanceAs (Decidable (∃ i < _, _ ∧ _))
  | .write _ _ _ => inferInstanceAs (Decidable (∃ i < _, _ ∧ _))
  | .call _ | .lseek _ _ _ | .exit => isFalse id

/-- A call on descriptors of the table, with a length that is positive as an `int`. -/
def IOCall.Valid (t : Table) (P : Nat) : IOCall → Prop
  | .call c => Files.Allowed t P c ∧ c.Plain
  | .read fd _ size | .write fd _ size => ValidFd fd ∧ 0 < size.toInt
  | .lseek fd _ _ => ValidFd fd
  | .exit => True

instance (t : Table) (P : Nat) : (c : IOCall) → Decidable (c.Valid t P)
  | .call c =>
      decidable_of_iff ((P < t.processes ∧ (c.descriptors.all fun fd ↦ ValidFd fd) = true ∧
        c.hasSlots t P = true) ∧ c.Plain) (by simp [IOCall.Valid, Files.Allowed])
  | .read _ _ _ | .write _ _ _ => inferInstanceAs (Decidable (_ ∧ _))
  | .lseek fd _ _ => inferInstanceAs (Decidable (ValidFd fd))
  | .exit => isTrue trivial

/-- A world with the processes that have ended in it, and what has been written to each pipe and
read from it. -/
structure IORun where
  world : FileWorld Win32
  exited : List Nat := []
  sent : Nat → List UInt8 := fun _ ↦ []
  received : Nat → List UInt8 := fun _ ↦ []

/-- What a call that returned a positive number has moved: what is then in its buffer. -/
def moved (eax : DWORD) (memory : Mem 32) (address : DWORD) : List UInt8 :=
  if 0 < eax.toInt then memory.read address eax.toNat else []

namespace IORun

/-- A process that is there makes a call, and does not have to wait. -/
def Enabled (s : IORun) (P : Nat) (c : IOCall) : Prop :=
  P < s.world.table.processes ∧ P ∉ s.exited ∧ c.Valid s.world.table P ∧ ¬c.Waits s.world P

instance (s : IORun) (P : Nat) (c : IOCall) : Decidable (s.Enabled P c) :=
  inferInstanceAs (Decidable (_ ∧ _))

/-- A block goes to the stream of the pipe that a descriptor refers to. -/
def extend (stream : Nat → List UInt8) (e : Option End) (side : Nat → End)
    (block : List UInt8) : Nat → List UInt8 :=
  fun i ↦ if e = some (side i) then stream i ++ block else stream i

variable (host : Windows)

/-- One call. What a reader got is what it then has in its memory, and what a writer gave is what
it had there. -/
def step (s : IORun) (call : Nat × IOCall) : IORun :=
  let P := call.1
  let env := win32Environment host s.world.table
  if s.Enabled P call.2 then
    match call.2 with
    | .call c => { s with world := (c.run env P s.world).state }
    | .read fd address size =>
        match sysRead env P fd address size s.world with
        | .ok eax w =>
            { s with
              world := w
              received := extend s.received (refersTo s.world P fd.toNat) .read
                (moved eax (w.rest.pipes.memory P) address) }
        | r => { s with world := r.state }
    | .write fd address size =>
        match sysWrite env P fd address size s.world with
        | .ok eax w =>
            { s with
              world := w
              sent := extend s.sent (refersTo s.world P fd.toNat) .write
                (moved eax (s.world.rest.pipes.memory P) address) }
        | r => { s with world := r.state }
    | .lseek fd offset whence =>
        { s with world := (sysLseek env P fd offset whence s.world).state }
    | .exit =>
        { s with
          world := { s.world with rest := s.world.rest.exit P }
          exited := P :: s.exited }
  else s

/-- The handles are those of the descriptors, and what was written and not read is in the
pipes. -/
def Invariant (s : IORun) : Prop :=
  ∃ C, Linked s.exited C [] s.world.table s.world.rest (refersTo s.world) ∧
    ∀ i, s.received i ++ C i = s.sent i

end IORun

/-- The first process, whose consoles are no pipes, with any files and any memory. -/
def startPipes (p : PipeWorld) (content : Nat → List UInt8) : IORun where
  world :=
    { table := startTable
      rest :=
        { pipes := p.setWriters fun _ ↦ false
          made := 0
          content := content
          file := fun _ ↦ { name := 0, pointer := 0, readable := false, writable := false }
          opened := 0
          holding := ⟨∅, fun _ ↦ 0, fun _ ↦ none⟩
          kind := fun _ ↦ .ntConsole } }

/-! ## One call -/

theorem toNat_of_toInt_pos {x : DWORD} (h : 0 < x.toInt) : 0 < x.toNat ∧ x.toNat < 2 ^ 31 := by
  have hx := x.toInt_eq_toNat_cond
  split at hx
  · omega
  · omega

theorem moved_of_le (memory : Mem 32) (address : DWORD) {eax : DWORD} (h : eax.toInt ≤ 0) :
    moved eax memory address = [] := if_neg (Int.not_lt.mpr h)

/-- A number of bytes that is no more than was asked for is positive as an `int`, or 0. -/
theorem moved_of_lt (memory : Mem 32) (address : DWORD) {n : DWORD} (h : n.toNat < 2 ^ 31) :
    moved n memory address = memory.read address n.toNat := by
  unfold moved
  split
  · rfl
  · next hn =>
    have hzero : n.toNat = 0 := by
      rw [BitVec.toInt_eq_toNat_of_lt (by omega)] at hn
      omega
    rw [hzero]
    rfl

theorem IORun.extend_of_other {stream : Nat → List UInt8} {e : Option End} {side : Nat → End}
    (h : ∀ j, e ≠ some (side j)) (block : List UInt8) : extend stream e side block = stream :=
  funext fun j ↦ if_neg (h j)

section Step

variable (host : Windows) {exited : List Nat} {C C' : Nat → List UInt8} {w w' : FileWorld Win32}
  {P i : Nat} {fd : DWORD} (address : DWORD) {size : DWORD}

/-- The tables and handles are the same; what the pipes hold may have changed. -/
theorem Linked.moves (h : Linked exited C [] w.table w.rest (refersTo w))
    (htable : w'.table = w.table) (hheld : Held w.rest w'.rest)
    (hcontent : ∀ j < w.rest.made, (w'.rest.pipes.pipe j).content = C' j)
    (hunmade : ∀ j, w.rest.made ≤ j → C' j = []) :
    Linked exited C' [] w'.table w'.rest (refersTo w') := by
  rw [htable]
  exact htable ▸ linked_refersTo (htable.symm ▸ h.held hheld hcontent hunmade)

/-- What was in the pipe is what the reader gets, and then what is left. -/
theorem sysRead_pipe (h : Linked exited C [] w.table w.rest (refersTo w)) (hfd : ValidFd fd)
    (hsize : 0 < size.toInt) (he : refersTo w P fd.toNat = some (.read i)) :
    ∃ eax w', sysRead (win32Environment host w.table) P fd address size w = .ok eax w' ∧
      w'.table = w.table ∧ Held w.rest w'.rest ∧
      (w.rest.pipes.pipe i).content =
        moved eax (w'.rest.pipes.memory P) address ++ (w'.rest.pipes.pipe i).content ∧
      ∀ j ≠ i, (w'.rest.pipes.pipe j).content = (w.rest.pipes.pipe j).content := by
  obtain ⟨hpos, hlt⟩ := toNat_of_toInt_pos hsize
  have hresult := PipeWorld.readResult_readPipe w.rest.pipes (flagsOf w P fd) P i
    address hpos
  generalize hpiped : w.rest.pipes.readPipe (flagsOf w P fd) P i address size = result
    at hresult
  have hread : w.rest.readEnd (some (.read i)) (flagsOf w P fd) P address size =
      (result.1, { w.rest with pipes := result.2 }) := hpiped ▸ rfl
  obtain ⟨w', hrun, htable, hquiet⟩ := sysRead_refers host address size h hfd he hread
  obtain ⟨⟨done, n⟩, r⟩ := result
  obtain ⟨htook, hthere, hle, hfailed⟩ := hresult
  dsimp only at hrun hquiet htook hthere hle hfailed
  have hpipe : w'.rest.pipes.pipe = r.pipe := hquiet.pipe
  have hmemory : w'.rest.pipes.memory = r.memory := hquiet.memory
  refine ⟨_, w', hrun, htable, ?_, ?_, fun j hne ↦ ?_⟩
  · exact ⟨hquiet.holding, hquiet.kind, hquiet.moving, hquiet.made, hquiet.opened,
      fun j ↦ by rw [hpipe, htook.writer]⟩
  · rw [hpipe, htook.content]
    cases done with
    | true =>
      have hlength := List.length_take_of_le hthere
      have hread := Mem.read_write (w.rest.pipes.memory P) address
        ((w.rest.pipes.pipe i).content.take n.toNat) (by omega)
      rw [hlength] at hread
      rw [if_pos rfl, moved_of_lt _ _ (by omega), hmemory, htook.memory, hread,
        List.take_append_drop]
    | false =>
      rw [if_neg Bool.false_ne_true, moved_of_le _ _ (neg_win32ErrToUnixError_le _), hfailed rfl]
      rfl
  · rw [hpipe, htook.others j hne]

/-- A read from anything else takes nothing from a pipe. -/
theorem sysRead_other (h : Linked exited C [] w.table w.rest (refersTo w)) (hfd : ValidFd fd)
    (hother : ∀ i, refersTo w P fd.toNat ≠ some (.read i)) :
    ∃ eax w', sysRead (win32Environment host w.table) P fd address size w = .ok eax w' ∧
      w'.table = w.table ∧ Held w.rest w'.rest ∧
      w'.rest.pipes.pipe = w.rest.pipes.pipe := by
  cases he : refersTo w P fd.toNat with
  | none =>
    obtain ⟨eax, w', hrun, htable, hquiet⟩ := sysRead_none host address size h hfd he
    exact ⟨eax, w', hrun, htable, hquiet.held, hquiet.pipe⟩
  | some e =>
    obtain ⟨w', hrun, htable, hquiet⟩ := sysRead_refers host address size h hfd he rfl
    have hread : Held w.rest (w.rest.readEnd (some e) (flagsOf w P fd) P address size).2 ∧
        (w.rest.readEnd (some e) (flagsOf w P fd) P address size).2.pipes.pipe =
          w.rest.pipes.pipe := by
      cases e with
      | read i => exact absurd he (hother i)
      | write i => exact ⟨(quiet_fail _ _ _).held, rfl⟩
      | file o =>
        show Held _ (w.rest.readFile P o address size).2 ∧
          (w.rest.readFile P o address size).2.pipes.pipe = _
        unfold Win32.readFile
        dsimp only
        split
        · exact ⟨⟨rfl, rfl, rfl, rfl, rfl, fun _ ↦ rfl⟩, rfl⟩
        · exact ⟨(quiet_fail _ _ _).held, rfl⟩
    exact ⟨_, w', hrun, htable, hread.1.trans hquiet.held, hquiet.pipe.trans hread.2⟩

/-- A write to a pipe that is read from: the whole block goes to the end. -/
theorem sysWrite_pipe (h : Linked exited C [] w.table w.rest (refersTo w)) (hfd : ValidFd fd)
    (hsize : 0 < size.toInt) (he : refersTo w P fd.toNat = some (.write i))
    (hopen : w.rest.holding.isOpen (.read i) = true)
    (hroom : (w.rest.pipes.pipe i).content.length + size.toNat < 2 ^ 32) :
    ∃ w', sysWrite (win32Environment host w.table) P fd address size w = .ok size w' ∧
      w'.table = w.table ∧ Held w.rest w'.rest ∧
      (w'.rest.pipes.pipe i).content = (w.rest.pipes.pipe i).content ++
        (w.rest.pipes.memory P).read address size.toNat ∧
      ∀ j ≠ i, (w'.rest.pipes.pipe j).content = (w.rest.pipes.pipe j).content := by
  have hne : size ≠ 0#32 := by
    rintro rfl
    exact absurd hsize (by decide)
  have hfits : ((w.rest.pipes.pipe i).content ++
      (w.rest.pipes.memory P).read address size.toNat).length < 2 ^ 32 := by
    rw [List.length_append, Mem.length_read]
    exact hroom
  have hwrite : w.rest.writeEnd host (some (.write i)) P address size = ((true, size),
      { w.rest with pipes := w.rest.pipes.append i _ hfits }.fail P 0#32) := by
    simp only [Win32.writeEnd, Win32.writePipe, if_pos hopen, dif_pos hfits, decide_eq_true hne]
  obtain ⟨w', hrun, htable, hquiet, -⟩ := sysWrite_refers host address size h hfd he hwrite
  have hpipe : w'.rest.pipes.pipe = (w.rest.pipes.append i _ hfits).pipe := hquiet.pipe
  refine ⟨w', hrun, htable, ?_, ?_, fun j hj ↦ ?_⟩
  · refine ⟨hquiet.holding, hquiet.kind, hquiet.moving, hquiet.made, hquiet.opened, fun j ↦ ?_⟩
    rw [hpipe]
    show (if j = i then _ else _ : PipeObject).writerOpen = _
    split
    · next heq => rw [heq]
    · rfl
  · rw [hpipe]
    show (if i = i then _ else _ : PipeObject).content = _
    rw [if_pos rfl]
  · rw [hpipe]
    show (if j = i then _ else _ : PipeObject).content = _
    rw [if_neg hj]

/-- A write to a pipe that nobody reads from breaks. -/
theorem sysWrite_broken (h : Linked exited C [] w.table w.rest (refersTo w)) (hfd : ValidFd fd)
    (he : refersTo w P fd.toNat = some (.write i))
    (hclosed : w.rest.holding.isOpen (.read i) = false) :
    ∃ w', sysWrite (win32Environment host w.table) P fd address size w = .ok (-Kernel.EIO) w' ∧
      w'.table = w.table ∧ Held w.rest w'.rest ∧ w'.rest.pipes.pipe = w.rest.pipes.pipe ∧
      (P, SIGPIPE) ∈ w'.rest.signals := by
  have hwrite : w.rest.writeEnd host (some (.write i)) P address size =
      ((false, 0#32), w.rest.fail P ERROR_NO_DATA) := by
    simp only [Win32.writeEnd, Win32.writePipe, hclosed, Bool.false_eq_true, if_false]
  obtain ⟨w', hrun, htable, hquiet, hsignal⟩ := sysWrite_refers host address size h hfd he hwrite
  have herr : (w.rest.fail P ERROR_NO_DATA).pipes.threadError P = ERROR_NO_DATA := if_pos rfl
  have hlast : (w.rest.fail P ERROR_NO_DATA).pipes.lastError P = ERROR_NO_DATA :=
    (if_pos rfl).trans herr
  rw [herr] at hrun
  exact ⟨w', hrun, htable, (quiet_fail _ _ _).held.trans hquiet.held,
    hquiet.pipe, hsignal rfl hlast⟩

/-- A write to anything else puts nothing into a pipe. -/
theorem sysWrite_other (h : Linked exited C [] w.table w.rest (refersTo w)) (hfd : ValidFd fd)
    (hother : ∀ i, refersTo w P fd.toNat ≠ some (.write i)) :
    ∃ eax w', sysWrite (win32Environment host w.table) P fd address size w = .ok eax w' ∧
      w'.table = w.table ∧ Held w.rest w'.rest ∧
      w'.rest.pipes.pipe = w.rest.pipes.pipe := by
  cases he : refersTo w P fd.toNat with
  | none =>
    obtain ⟨eax, w', hrun, htable, hquiet⟩ := sysWrite_none host address size h hfd he
    exact ⟨eax, w', hrun, htable, hquiet.held, hquiet.pipe⟩
  | some e =>
    obtain ⟨w', hrun, htable, hquiet, -⟩ := sysWrite_refers host address size h hfd he rfl
    have hwrite : Held w.rest (w.rest.writeEnd host (some e) P address size).2 ∧
        (w.rest.writeEnd host (some e) P address size).2.pipes.pipe = w.rest.pipes.pipe := by
      cases e with
      | write i => exact absurd he (hother i)
      | read i => exact ⟨(quiet_fail _ _ _).held, rfl⟩
      | file o =>
        show Held _ (w.rest.writeFile host P o address size).2 ∧
          (w.rest.writeFile host P o address size).2.pipes.pipe = _
        unfold Win32.writeFile
        dsimp only
        split
        · exact ⟨(quiet_fail _ _ _).held, rfl⟩
        · exact ⟨⟨rfl, rfl, rfl, rfl, rfl, fun _ ↦ rfl⟩, rfl⟩
    exact ⟨_, w', hrun, htable, hwrite.1.trans hquiet.held, hquiet.pipe.trans hwrite.2⟩

end Step

/-! ## What the steps keep -/

namespace IORun

variable {host : Windows} {s : IORun} {P : Nat}

theorem invariant_call {c : Call} (h : s.Invariant) (hlive : P ∉ s.exited)
    (hc : Files.Allowed s.world.table P c) (hplain : c.Plain) :
    IORun.Invariant
      { s with world := (c.run (win32Environment host s.world.table) P s.world).state } := by
  obtain ⟨C, hlinked, hstream⟩ := h
  have hcall := (onWorld_call (tracks_win32 host s.world.table s.exited C) hlinked hlive hc
    hplain).safe s.world rfl rfl
  refine ⟨C, ?_, hstream⟩
  apply Comp.state_of_safe (fun w ↦ Linked s.exited C [] w.table w.rest (refersTo w)) hcall
  · rintro eax w' ⟨D', -, hD'⟩
    exact linked_refersTo hD'
  · exact fun w' hw' ↦ linked_refersTo hw'

/-- A transfer that has changed one pipe `i`, if any, and the streams to match. -/
theorem invariant_moves {w : FileWorld Win32} {C : Nat → List UInt8}
    (h : Linked s.exited C [] s.world.table s.world.rest (refersTo s.world))
    (htable : w.table = s.world.table) (hheld : Held s.world.rest w.rest)
    {sent received : Nat → List UInt8}
    (hstream : ∀ j < s.world.rest.made,
      received j ++ (w.rest.pipes.pipe j).content = sent j)
    (hunmade : ∀ j, s.world.rest.made ≤ j → received j ++ C j = sent j) :
    IORun.Invariant { s with world := w, sent := sent, received := received } := by
  refine ⟨fun j ↦ if j < s.world.rest.made then (w.rest.pipes.pipe j).content else C j,
    h.moves htable hheld (fun j hj ↦ (if_pos hj).symm) (fun j hj ↦ ?_), fun j ↦ ?_⟩
  · rw [if_neg (Nat.not_lt.mpr hj), h.unmade j hj]
  · dsimp only
    split
    · next hj => exact hstream j hj
    · next hj => exact hunmade j (Nat.not_lt.mp hj)

theorem invariant_read (host : Windows) {fd : DWORD} (address : DWORD) {size : DWORD}
    (h : s.Invariant) (hfd : ValidFd fd)
    (hsize : 0 < size.toInt) :
    ∃ eax w, sysRead (win32Environment host s.world.table) P fd address size s.world = .ok eax w ∧
      IORun.Invariant { s with
        world := w
        received := extend s.received (refersTo s.world P fd.toNat) .read
          (moved eax (w.rest.pipes.memory P) address) } := by
  obtain ⟨C, hlinked, hstream⟩ := h
  by_cases href : ∃ i, refersTo s.world P fd.toNat = some (.read i)
  · obtain ⟨i, href⟩ := href
    obtain ⟨eax, w, hrun, htable, hheld, hcontent, hothers⟩ :=
      sysRead_pipe host address hlinked hfd hsize href
    have hmade : i < s.world.rest.made := hlinked.made href
    have hext : ∀ j ≠ i, extend s.received (refersTo s.world P fd.toNat) .read
        (moved eax (w.rest.pipes.memory P) address) j = s.received j := by
      intro j hj
      exact if_neg fun heq ↦ hj (End.read.inj (Option.some.inj (href.symm.trans heq))).symm
    refine ⟨eax, w, hrun, invariant_moves hlinked htable hheld (fun j hj ↦ ?_) fun j hj ↦ ?_⟩
    · rw [← hstream j, ← hlinked.content j hj]
      by_cases heq : j = i
      · subst heq
        rw [extend, if_pos href, hcontent, List.append_assoc]
      · rw [hext j heq, hothers j heq]
    · have hne : j ≠ i := by
        rintro rfl
        exact Nat.not_lt.mpr hj hmade
      rw [hext j hne, hstream j]
  · have hother : ∀ i, refersTo s.world P fd.toNat ≠ some (.read i) := fun i hi ↦ href ⟨i, hi⟩
    obtain ⟨eax, w, hrun, htable, hheld, hpipe⟩ := sysRead_other host address hlinked hfd hother
    refine ⟨eax, w, hrun, ?_⟩
    rw [extend_of_other hother]
    exact invariant_moves hlinked htable hheld
      (fun j hj ↦ by rw [hpipe, hlinked.content j hj, hstream j]) fun j _ ↦ hstream j

theorem invariant_write (host : Windows) {fd : DWORD} (address : DWORD) {size : DWORD}
    (h : s.Invariant) (hfd : ValidFd fd)
    (hsize : 0 < size.toInt) (hroom : ¬(IOCall.write fd address size).Waits s.world P) :
    ∃ eax w, sysWrite (win32Environment host s.world.table) P fd address size s.world = .ok eax w ∧
      IORun.Invariant { s with
        world := w
        sent := extend s.sent (refersTo s.world P fd.toNat) .write
          (moved eax (s.world.rest.pipes.memory P) address) } := by
  obtain ⟨C, hlinked, hstream⟩ := h
  by_cases href : ∃ i, refersTo s.world P fd.toNat = some (.write i)
  · obtain ⟨i, href⟩ := href
    have hmade : i < s.world.rest.made := hlinked.made href
    have hext : ∀ (block : List UInt8), ∀ j ≠ i,
        extend s.sent (refersTo s.world P fd.toNat) .write block j = s.sent j := by
      intro block j hj
      exact if_neg fun heq ↦ hj (End.write.inj (Option.some.inj (href.symm.trans heq))).symm
    by_cases hopen : s.world.rest.holding.isOpen (.read i) = true
    · have hfits : (s.world.rest.pipes.pipe i).content.length + size.toNat < 2 ^ 32 :=
        Nat.lt_of_not_le fun hle ↦ hroom ⟨i, hmade, href, hopen, hle⟩
      obtain ⟨w, hrun, htable, hheld, hcontent, hothers⟩ :=
        sysWrite_pipe host address hlinked hfd hsize href hopen hfits
      refine ⟨size, w, hrun, invariant_moves hlinked htable hheld (fun j hj ↦ ?_) fun j hj ↦ ?_⟩
      · by_cases heq : j = i
        · subst heq
          rw [extend, if_pos href, hcontent, ← List.append_assoc, hlinked.content j hj, hstream j,
            moved_of_lt _ _ (toNat_of_toInt_pos hsize).2]
        · rw [hext _ j heq, hothers j heq, hlinked.content j hj, hstream j]
      · have hne : j ≠ i := by
          rintro rfl
          exact Nat.not_lt.mpr hj hmade
        rw [hext _ j hne, hstream j]
    · obtain ⟨w, hrun, htable, hheld, hpipe, -⟩ := sysWrite_broken host address hlinked hfd href
        (Bool.eq_false_of_not_eq_true hopen)
      have hnothing : extend s.sent (refersTo s.world P fd.toNat) .write
          (moved (-Kernel.EIO) (s.world.rest.pipes.memory P) address) = s.sent := by
        funext j
        rw [moved_of_le _ _ (by decide), extend, List.append_nil, ite_self]
      refine ⟨_, w, hrun, ?_⟩
      rw [hnothing]
      exact invariant_moves hlinked htable hheld
        (fun j hj ↦ by rw [hpipe, hlinked.content j hj, hstream j]) fun j _ ↦ hstream j
  · have hother : ∀ i, refersTo s.world P fd.toNat ≠ some (.write i) := fun i hi ↦ href ⟨i, hi⟩
    obtain ⟨eax, w, hrun, htable, hheld, hpipe⟩ := sysWrite_other host address hlinked hfd hother
    refine ⟨eax, w, hrun, ?_⟩
    rw [extend_of_other hother]
    exact invariant_moves hlinked htable hheld
      (fun j hj ↦ by rw [hpipe, hlinked.content j hj, hstream j]) fun j _ ↦ hstream j

theorem invariant_lseek {fd : DWORD} (h : s.Invariant) (hfd : ValidFd fd)
    (offset whence : DWORD) :
    IORun.Invariant { s with
      world := (sysLseek (win32Environment host s.world.table) P fd offset whence
        s.world).state } := by
  obtain ⟨C, hlinked, hstream⟩ := h
  obtain ⟨eax, w, hrun, htable, hseek⟩ := sysLseek_refers host (P := P) hlinked hfd
    offset whence
  have hsought := held_sought s.world.rest (refersTo s.world P fd.toNat) whence offset
  have hpipe := hseek.pipe.trans hsought.2
  rw [hrun]
  exact invariant_moves hlinked htable (hsought.1.trans hseek.held)
    (fun j hj ↦ by rw [hpipe, hlinked.content j hj, hstream j]) fun j _ ↦ hstream j

theorem invariant_step (h : s.Invariant) (call : Nat × IOCall) : (s.step host call).Invariant := by
  obtain ⟨P, c⟩ := call
  by_cases henabled : s.Enabled P c
  · obtain ⟨hlt, hlive, hvalid, hwaits⟩ := id henabled
    cases c with
    | call c =>
      rw [step, if_pos henabled]
      exact invariant_call h hlive hvalid.1 hvalid.2
    | read fd address size =>
      obtain ⟨eax, w, hrun, hinv⟩ := invariant_read host (P := P) address h hvalid.1 hvalid.2
      simp only [step, if_pos henabled, hrun]
      exact hinv
    | write fd address size =>
      obtain ⟨eax, w, hrun, hinv⟩ := invariant_write host (P := P) address h hvalid.1 hvalid.2
        hwaits
      simp only [step, if_pos henabled, hrun]
      exact hinv
    | lseek fd offset whence =>
      rw [step, if_pos henabled]
      exact invariant_lseek h hvalid offset whence
    | exit =>
      obtain ⟨C, hlinked, hstream⟩ := h
      rw [step, if_pos henabled]
      exact ⟨C, linked_refersTo (w := { s.world with rest := s.world.rest.exit P })
        (hlinked.exit hlt), hstream⟩
  · rw [step, if_neg henabled]
    exact h

end IORun

theorem invariant_startPipes (p : PipeWorld) (content : Nat → List UInt8) :
    (startPipes p content).Invariant := by
  refine ⟨fun _ ↦ [], ?_, fun _ ↦ rfl⟩
  have hslot : ∀ {P fd a}, startTable.openFiles P fd = some a → 0 = P := by
    intro P fd a ha
    have ha : (if P = 0 ∧ fd < 3 then some fd else none) = some a := ha
    split at ha
    · next hin => exact hin.1.symm
    · cases ha
  exact {
    sound := sound_startTable
    holding := Holding.sound_empty _ _
    moving := rfl
    moving_made := fun _ he ↦ absurd he List.not_mem_nil
    exited_lt := fun _ hp ↦ absurd hp List.not_mem_nil
    owner := hslot
    placed := fun hne ↦ absurd rfl hne
    kind := fun {P fd a h} _ hobject ↦ by
      have hobject : (if a < 3 then some _ else none) = some h := hobject
      split at hobject
      · cases hobject
        rfl
      · cases hobject
    target_kind := fun ha ↦ nomatch ha
    known := fun ha ↦ nomatch ha
    writer := fun _ ↦ rfl
    content := fun _ hi ↦ absurd hi (Nat.not_lt_zero _)
    unmade := fun _ _ ↦ rfl
    refers := fun _ _ ↦ rfl }

theorem trail_invariant_io (host : Windows) (p : PipeWorld) (content : Nat → List UInt8)
    (calls : List (Nat × IOCall)) :
    ∀ s ∈ trail (IORun.step host) (startPipes p content) calls, s.Invariant := by
  refine trail_invariant (fun _ call h (_ : True) ↦ IORun.invariant_step h call) ?_
    fun _ _ ↦ trivial
  exact invariant_startPipes p content

/-! ## What a run shows -/

/-- A read without `O_NONBLOCK` waits where the pipe is empty and may still be written to. Else it
gets what there is, up to what it asks for, and so nothing at the end of the stream. -/
def ReadsFront (host : Windows) (w : FileWorld Win32) (P i : Nat) (fd address size : DWORD) :
    Prop :=
  let content := (w.rest.pipes.pipe i).content
  let front := content.take size.toNat
  ((IOCall.read fd address size).Waits w P ↔ content = [] ∧ Referred w (.write i)) ∧
  (¬(IOCall.read fd address size).Waits w P →
    ∃ w', sysRead (win32Environment host w.table) P fd address size w =
        .ok (BitVec.ofNat 32 front.length) w' ∧
      (w'.rest.pipes.memory P).read address front.length = front)

/-- A write puts all of its block in, or breaks where nobody can read it any more. -/
def WritesBlock (host : Windows) (w : FileWorld Win32) (P i : Nat) (fd address size : DWORD) :
    Prop :=
  (Referred w (.read i) → ∃ w', sysWrite (win32Environment host w.table) P fd address size w =
    .ok size w') ∧
  (¬Referred w (.read i) → ∃ w', sysWrite (win32Environment host w.table) P fd address size w =
    .ok (-Kernel.EIO) w' ∧ (P, SIGPIPE) ∈ w'.rest.signals)

/-- The pipes of a run carry what is written, to whom the descriptors say. -/
structure IORun.Serves (host : Windows) (s : IORun) : Prop where
  stream : ∀ i < s.world.rest.made,
    s.received i ++ (s.world.rest.pipes.pipe i).content = s.sent i
  redirects : ∀ P c, s.Enabled P (.call c) →
    Comp.Safe (c.run (win32Environment host s.world.table) P) s.world
      (fun eax w' ↦ c.Redirects (win32Environment host s.world.table)
        (fun r ↦ (some (.read r.made), some (.write r.made))) Reopens s.world.table
        s.world.rest P (refersTo s.world) eax (refersTo w'))
      (fun w' ↦ refersTo w' = refersTo s.world)
  exits : ∀ P, s.Enabled P .exit → refersTo (s.step host (P, .exit)).world =
    fun p fd ↦ if p = P then none else refersTo s.world p fd
  reads : ∀ P fd address size i, (IOCall.read fd address size).Valid s.world.table P →
    refersTo s.world P fd.toNat = some (.read i) → flagsOf s.world P fd &&& O_NONBLOCK = 0#32 →
    ReadsFront host s.world P i fd address size
  writes : ∀ P fd address size i, (IOCall.write fd address size).Valid s.world.table P →
    refersTo s.world P fd.toNat = some (.write i) →
    ¬(IOCall.write fd address size).Waits s.world P →
    WritesBlock host s.world P i fd address size

section Serves

variable {host : Windows} {exited : List Nat} {C : Nat → List UInt8} {w : FileWorld Win32}
  {P i : Nat} {fd address size : DWORD}

theorem waits_read_iff (address size : DWORD)
    (h : Linked exited C [] w.table w.rest (refersTo w))
    (he : refersTo w P fd.toNat = some (.read i))
    (hflags : flagsOf w P fd &&& O_NONBLOCK = 0#32) :
    (IOCall.read fd address size).Waits w P ↔
      (w.rest.pipes.pipe i).content = [] ∧ Referred w (.write i) := by
  rw [Referred, ← h.isOpen_iff, ← h.writer]
  constructor
  · rintro ⟨j, -, hj, -, hempty, hwriter⟩
    cases he.symm.trans hj
    exact ⟨hempty, hwriter⟩
  · rintro ⟨hempty, hwriter⟩
    exact ⟨i, h.made he, he, hflags, hempty, hwriter⟩

theorem readsFront (h : Linked exited C [] w.table w.rest (refersTo w)) (hfd : ValidFd fd)
    (hsize : 0 < size.toInt) (he : refersTo w P fd.toNat = some (.read i))
    (hflags : flagsOf w P fd &&& O_NONBLOCK = 0#32) :
    ReadsFront host w P i fd address size := by
  have hwaits := waits_read_iff address size h he hflags
  refine ⟨hwaits, fun hgo ↦ ?_⟩
  have hblocking : w.rest.readEnd (some (.read i)) (flagsOf w P fd) P address size =
      ((w.rest.pipes.readBlocking P i address size).1,
        { w.rest with pipes := (w.rest.pipes.readBlocking P i address size).2 }) := by
    rw [Win32.readEnd, PipeWorld.readPipe, if_neg (not_not_intro hflags)]
  have hpos := (toNat_of_toInt_pos hsize).1
  by_cases hempty : (w.rest.pipes.pipe i).content = []
  · -- nobody refers to the other end, or the thread would wait
    have hclosed : (w.rest.pipes.pipe i).writerOpen = false := by
      refine Bool.eq_false_of_not_eq_true fun hopen ↦ hgo (hwaits.mpr ⟨hempty, ?_⟩)
      rwa [h.writer, h.isOpen_iff] at hopen
    obtain ⟨done, r', hread, -, -, hdone⟩ := PipeWorld.readBlocking_empty P address size
      hempty
    rw [hread] at hblocking
    obtain ⟨w', hrun, -⟩ := sysRead_refers host address size h hfd he hblocking
    refine ⟨w', hrun.trans ?_, ?_⟩
    · rw [hdone hclosed, if_pos rfl, hempty, List.take_nil]
      rfl
    · rw [hempty, List.take_nil]
      rfl
  · rw [PipeWorld.readBlocking_some hpos hempty, Nat.min_comm, ← List.length_take] at hblocking
    obtain ⟨w', hrun, -, hquiet⟩ := sysRead_refers host address size h hfd he hblocking
    refine ⟨w', hrun, ?_⟩
    have htake : (w.rest.pipes.pipe i).content.take
        ((w.rest.pipes.pipe i).content.take size.toNat).length =
          (w.rest.pipes.pipe i).content.take size.toNat := by
      rw [List.length_take, ← List.take_eq_take_min]
    have hmem : w'.rest.pipes.memory P = (w.rest.pipes.memory P).write address
        ((w.rest.pipes.pipe i).content.take size.toNat) := by
      rw [hquiet.memory]
      exact (if_pos rfl).trans (congrArg _ htake)
    rw [hmem]
    apply Mem.read_write
    rw [List.length_take]
    exact Nat.le_trans (Nat.min_le_left _ _) (Nat.le_of_lt size.isLt)

theorem writesBlock (h : Linked exited C [] w.table w.rest (refersTo w)) (hfd : ValidFd fd)
    (hsize : 0 < size.toInt) (he : refersTo w P fd.toNat = some (.write i))
    (hgo : ¬(IOCall.write fd address size).Waits w P) :
    WritesBlock host w P i fd address size := by
  constructor
  · intro hreferred
    have hopen := (h.isOpen_iff _).mpr hreferred
    have hroom : (w.rest.pipes.pipe i).content.length + size.toNat < 2 ^ 32 :=
      Nat.lt_of_not_le fun hle ↦ hgo ⟨i, h.made he, he, hopen, hle⟩
    obtain ⟨w', hrun, -⟩ := sysWrite_pipe host address h hfd hsize he hopen
      hroom
    exact ⟨w', hrun⟩
  · intro hreferred
    have hclosed : w.rest.holding.isOpen (.read i) = false :=
      Bool.eq_false_of_not_eq_true fun hopen ↦ hreferred ((h.isOpen_iff _).mp hopen)
    obtain ⟨w', hrun, -, -, -, hsignal⟩ := sysWrite_broken host address h hfd he hclosed
    exact ⟨w', hrun, hsignal⟩

theorem IORun.Invariant.serves {s : IORun} (h : s.Invariant) : s.Serves host := by
  obtain ⟨C, hlinked, hstream⟩ := h
  constructor
  · intro i hi
    rw [hlinked.content i hi]
    exact hstream i
  · rintro P c ⟨-, hlive, hallowed, -⟩
    have hcall := (onWorld_call (tracks_win32 host s.world.table s.exited C) hlinked hlive
      hallowed.1 hallowed.2).safe s.world rfl rfl
    refine Comp.safe_mono hcall ?_ fun w' hw' ↦ refersTo_eq hw'
    rintro eax w' ⟨D', hredirects, hD'⟩
    rw [refersTo_eq hD']
    exact hredirects
  · intro P henabled
    rw [step, if_pos henabled]
    exact refersTo_eq (w := { s.world with rest := s.world.rest.exit P })
      (hlinked.exit henabled.1)
  · intro P fd address size i hvalid he hflags
    exact readsFront hlinked hvalid.1 hvalid.2 he hflags
  · intro P fd address size i hvalid he hgo
    exact writesBlock hlinked hvalid.1 hvalid.2 he hgo

/-- Of any run of any processes. -/
theorem trail_serves (host : Windows) (p : PipeWorld) (content : Nat → List UInt8)
    (calls : List (Nat × IOCall)) :
    ∀ s ∈ trail (IORun.step host) (startPipes p content) calls, s.Serves host :=
  fun s hs ↦ (trail_invariant_io host p content calls s hs).serves

/-- New handles are past all that are in use, and every path leads to one file. -/
def Windows.increasing : Windows where
  value r _ := (r.holding.handles.keys.map Prod.snd).foldr max 0 + 1
  free r P := by
    intro hused
    have hmem := List.mem_map_of_mem (f := Prod.snd) (AList.mem_keys.mp hused)
    exact Nat.not_succ_le_self _ (List.le_max_of_le' 0 hmem (Nat.le_refl _))
  makesPipe _ := true
  opensFile _ _ _ _ := some 0
  opensOther _ := true
  room _ := 2 ^ 32
  error _ := 0#32

theorem nil_fits : ([] : List UInt8).length < 2 ^ 32 := by decide

/-- No pipe yet, and all memory the same. -/
def noPipes : PipeWorld where
  pipe _ := ⟨[], nil_fits, false⟩
  hRemotePipe _ := 0
  hRemoteConsoleRead _ := 0
  memory _ _ := 7
  threadError _ := 0#32
  lastError _ := 0#32

/-- A child writes and ends, and its parent reads until then. -/
theorem trail_serves_child :
    let s := List.foldl (IORun.step .increasing) (startPipes noPipes fun _ ↦ [])
      [(0, .call (.pipe 0#32)), (0, .call .fork), (0, .call (.close 4#32)),
        (1, .write 4#32 100#32 2#32), (0, .read 3#32 200#32 5#32), (1, .exit)]
    s.Serves .increasing ∧ s.received 0 = [7, 7] ∧ refersTo s.world 0 3 = some (.read 0) ∧
      s.Enabled 0 (.read 3#32 200#32 5#32) := by
  refine ⟨trail_serves .increasing noPipes (fun _ ↦ []) _ _ (foldl_mem_trail _ _ _), ?_⟩
  decide +kernel

end Serves

end Keow.Files
