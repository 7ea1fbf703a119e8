import Keow.Memory.StringList

/-!
# The stack of a new image

`Process::StartNewImageRunning` with the memories it works on, `Process.cpp:1270–1443`: the
strings go from the kernel into two blocks of the process, wherever Windows has room, and the
stack gets the two tables of pointers and the auxiliary vector.
-/

namespace Keow.Memory

open Keow.Base Keow.Kernel
open Keow.Paths (Str)
open Keow.Exec (Task auxVector initialFrame)

/-- The two processes that a new image is about. -/
inductive Side where
  /-- `GetCurrentProcess()` -/
  | kernel
  /-- `m_hProcess` -/
  | user
deriving DecidableEq

/-- What starting an image relies on, and where the variable lies that is being written. -/
structure LaunchHost extends StringHost where
  written : DWORD

/-- A process that is about to start an image: its lists of strings, in the memory of the kernel
at first, and for the rest the process itself. -/
structure Launch where
  memories : Memories Side
  arguments : DWORD
  environment : DWORD
  argCnt : DWORD := 0#32
  envCnt : DWORD := 0#32
  task : Task

/-- A computation on the memories. -/
def onMemories {α : Type} (x : Comp (Memories Side) α) : Comp Launch α :=
  Comp.zoom Launch.memories (fun m l ↦ { l with memories := m }) x

/-- `VirtualFree` with `MEM_DECOMMIT` in the kernel. Nothing looks at the result. -/
def Memories.virtualFree (host : Host) (addr size : DWORD) (m : Memories Side) : Memories Side :=
  match host.windows.decommit (m.process .kernel).space addr size with
  | none => m
  | some s => { m with
      process := Function.update m.process .kernel { m.process .kernel with space := s } }

/-- Write values one behind the other. -/
def Memories.writeValues (c : Copier) (loc : DWORD) :
    DWORD → List (List UInt8) → Memories Side → Memories Side
  | _, [], m => m
  | addr, v :: vs, m =>
      writeValues c loc (addr + BitVec.ofNat 32 v.length) vs (m.writeValue c loc .user addr v)

/-- `Elf32_auxv_t`. -/
def auxBytes (a : Nat × DWORD) : List UInt8 := natBytes 4 a.1 ++ natBytes 4 a.2.toNat

/-- `stack_needed`, with the reserve for the auxiliary vector and the end marker. -/
def stackNeeded (argCnt envCnt : DWORD) : DWORD :=
  4#32 * (envCnt + 1#32 + argCnt + 1#32) + 160#32 + 4#32

/-- The writes to the stack from the new `Esp` on, `Process.cpp:1376–1426`. -/
def Launch.writeFrame (host : LaunchHost) (l : Launch) (esp : DWORD) : Memories Side :=
  let argvLen := (l.argCnt + 1#32) * 4#32
  let envLen := (l.envCnt + 1#32) * 4#32
  let m := l.memories.writeValue host.copier host.written .user esp (natBytes 4 l.argCnt.toNat)
  let m := m.transferMemory host.copier host.buf .user l.arguments .user (esp + 4#32)
    argvLen.toInt 0
  let m := m.transferMemory host.copier host.buf .user l.environment .user (esp + 4#32 + argvLen)
    envLen.toInt 0
  m.writeValues host.copier host.written (esp + 4#32 + argvLen + envLen)
    ((auxVector l.task).map auxBytes ++ [natBytes 4 0])

/-- The context that the thread is given, `Process.cpp:1366–1373,1429–1443`. -/
def Launch.startContext (l : Launch) (esp : DWORD) : Context :=
  { l.task.world.threadCtx with
    contextFlags := Context.CONTEXT_FULL
    eax := 0#32, ebx := 0#32, ecx := 0#32, edx := 0#32, esi := 0#32, edi := 0#32, ebp := 0#32
    esp := esp
    eip := l.task.elfLoadData.interpreterStart }

/-- The thread stands at the start of the image. -/
def Launch.entered (host : LaunchHost) (l : Launch) : Launch :=
  let esp := l.task.world.threadCtx.esp - stackNeeded l.argCnt l.envCnt
  { l with
    memories := l.writeFrame host esp
    task := { l.task with world := { l.task.world with
      threadCtx := (l.startContext esp).merge l.task.world.threadCtx } } }

/-- The strings are in the process, and the copies of the kernel are freed. -/
def Launch.moved (host : LaunchHost) (args env : StringList) (l : Launch) : Launch :=
  { l with
    memories := (l.memories.virtualFree host.toHost l.arguments args.memSize).virtualFree
      host.toHost l.environment env.memSize
    arguments := args.addr
    environment := env.addr
    argCnt := args.count
    envCnt := env.count }

/-- An image without interpreter starts by itself, `Process.cpp:1338–1343`. -/
def Launch.withStart (l : Launch) : Launch :=
  { l with task := { l.task with elfLoadData := l.task.elfLoadData.withStart } }

/-- `Process::StartNewImageRunning`. -/
def startNewImageRunning (host : LaunchHost) (turns : Nat) : Comp Launch Unit := do
  Comp.modify Launch.withStart
  let l ← Comp.get
  let env ← onMemories (copyStringListBetweenProcesses host.toStringHost .kernel l.environment
    .user (some .user) turns)
  let args ← onMemories (copyStringListBetweenProcesses host.toStringHost .kernel l.arguments
    .user (some .user) turns)
  Comp.modify (Launch.moved host args env)
  Comp.modify (Launch.entered host)

/-! ## The frame -/

/-- The bytes behind the two tables. -/
def auxTail (t : Task) : List UInt8 := ((auxVector t).map auxBytes ++ [natBytes 4 0]).flatten

theorem length_auxTail (t : Task) : (auxTail t).length = 76 := by
  simp [auxTail, auxVector, auxBytes]

/-- The bytes that are written from the new `Esp` on. -/
def frameBytes (t : Task) (mem : UserMem) (pArgs pEnv : DWORD) (argc envc : Nat) : List UInt8 :=
  natBytes 4 (BitVec.ofNat 32 argc).toNat ++ mem.read pArgs (4 * (argc + 1)) ++
    mem.read pEnv (4 * (envc + 1)) ++ auxTail t

theorem length_frameBytes (t : Task) (mem : UserMem) (pArgs pEnv : DWORD) (argc envc : Nat) :
    (frameBytes t mem pArgs pEnv argc envc).length = 4 * (argc + envc + 2) + 80 := by
  simp only [frameBytes, List.length_append, length_natBytes, Mem.length_read, length_auxTail]
  omega

/-- They are the frame of the task, when the task has these strings and this memory. -/
theorem frameBytes_eq_initialFrame (t : Task) (pArgs pEnv : DWORD)
    (hargc : t.arguments.length < 2 ^ 32) :
    frameBytes t t.world.mem pArgs pEnv t.arguments.length t.environment.length =
      initialFrame t pArgs pEnv := by
  have haux : auxTail t =
      (auxVector t).flatMap (fun a ↦ natBytes 4 a.1 ++ natBytes 4 a.2.toNat) ++ natBytes 4 0 := by
    rw [auxTail, List.flatten_append, List.flatten_singleton, ← List.flatMap_def]
    rfl
  rw [frameBytes, initialFrame, haux, BitVec.toNat_ofNat, Nat.mod_eq_of_lt hargc,
    List.append_assoc _ _ (natBytes 4 0)]

section Frame

variable {m m' m'' : Memories Side} {a : DWORD} {bs cs : List UInt8}

/-- Two stores one behind the other. -/
theorem Memories.Stored.append
    (h : m.Stored .user ((m.process .user).mem.write a bs) m')
    (h' : m'.Stored .user ((m'.process .user).mem.write (a + BitVec.ofNat 32 bs.length) cs) m'')
    (hlen : bs.length + cs.length ≤ 2 ^ 32) :
    m.Stored .user ((m.process .user).mem.write a (bs ++ cs)) m'' := by
  rw [h.self, Remote.mem_setMem, Mem.write_append _ _ _ _ hlen] at h'
  exact h.trans h'

theorem stored_writeValues (c : Copier) (loc : DWORD) {vs : List (List UInt8)}
    (hwrite : Accessible .write (m.process .user).space a vs.flatten.length) :
    m.Stored .user ((m.process .user).mem.write a vs.flatten) (m.writeValues c loc a vs) := by
  induction vs generalizing m a with
  | nil => exact ⟨by simp [Memories.writeValues], rfl⟩
  | cons v vs ih =>
    rw [List.flatten_cons, List.length_append] at hwrite
    have hle := hwrite.add_le
    unfold userPages at hle
    have hvalue := @Memories.stored_writeValue Side _ m .user c loc a v
      (hwrite.left (by omega))
    have hrest := @ih (m.writeValue c loc .user a v) (a + BitVec.ofNat 32 v.length) (by
      rw [hvalue.space]
      refine hwrite.right ?_
      rw [BitVec.toNat_ofNat]
      have := Nat.mod_le v.length (2 ^ 32)
      omega)
    exact hvalue.append hrest (by omega)

/-- Copying a table of pointers behind what has been written. -/
theorem Memories.Stored.transfer (c : Copier) (buf : DWORD) {p : DWORD} {n : Nat}
    (h : m.Stored .user ((m.process .user).mem.write a bs) m')
    (hread : Accessible .read (m.process .user).space p (4 * (n + 1)))
    (hwrite : Accessible .write (m.process .user).space a (bs.length + 4 * (n + 1)))
    (hapart : p.toNat + 4 * (n + 1) ≤ a.toNat ∨
      a.toNat + (bs.length + 4 * (n + 1)) ≤ p.toNat) :
    m.Stored .user ((m.process .user).mem.write a
        (bs ++ (m.process .user).mem.read p (4 * (n + 1))))
      (m'.transferMemory c buf .user p .user (a + BitVec.ofNat 32 bs.length)
        ((BitVec.ofNat 32 n + 1#32) * 4#32).toInt 0) := by
  have hle := hwrite.add_le (by omega)
  have hle' := hread.add_le (by omega)
  unfold userPages at hle hle'
  have hlen : ((BitVec.ofNat 32 n + 1#32) * 4#32).toInt = (4 * (n + 1) : Nat) := by
    rw [← BitVec.ofNat_add, ← BitVec.ofNat_mul, Nat.mul_comm, BitVec.toInt_eq_toNat_of_lt] <;>
      rw [BitVec.toNat_ofNat, Nat.mod_eq_of_lt] <;> omega
  have hbs : (BitVec.ofNat 32 bs.length).toNat = bs.length := by
    rw [BitVec.toNat_ofNat, Nat.mod_eq_of_lt (by omega)]
  have haddr : (a + BitVec.ofNat 32 bs.length).toNat = a.toNat + bs.length :=
    Mem.toNat_add_ofNat (by omega)
  have hcopy := @Memories.stored_transferMemory Side _ m' .user .user c buf p
    (a + BitVec.ofNat 32 bs.length) (4 * (n + 1)) (by rwa [h.space])
    (by rw [h.space]; exact hwrite.right (by omega)) (fun _ ↦ by omega) 0
  rw [← hlen] at hcopy
  simp only [BitVec.add_zero, Nat.sub_zero] at hcopy
  have hsource : (m'.process .user).mem.read p (4 * (n + 1)) =
      (m.process .user).mem.read p (4 * (n + 1)) := by
    rw [h.self, Remote.mem_setMem]
    refine (Mem.read_of_agreeOn (Mem.agreeOn_write _ ?_ ?_) (by omega)).symm
    · omega
    · omega
  rw [hsource] at hcopy
  exact h.append hcopy (by rw [Mem.length_read]; omega)

/-- The writes to the stack are one block. -/
theorem stored_writeFrame (host : LaunchHost) {l : Launch} {esp : DWORD} {argc envc : Nat}
    (hargc : l.argCnt = BitVec.ofNat 32 argc) (henvc : l.envCnt = BitVec.ofNat 32 envc)
    (hframe : Accessible .write (l.memories.process .user).space esp (4 * (argc + envc + 2) + 80))
    (hargs : Accessible .read (l.memories.process .user).space l.arguments (4 * (argc + 1)))
    (henv : Accessible .read (l.memories.process .user).space l.environment (4 * (envc + 1)))
    (hargsApart : l.arguments.toNat + 4 * (argc + 1) ≤ esp.toNat ∨
      esp.toNat + (4 * (argc + envc + 2) + 80) ≤ l.arguments.toNat)
    (henvApart : l.environment.toNat + 4 * (envc + 1) ≤ esp.toNat ∨
      esp.toNat + (4 * (argc + envc + 2) + 80) ≤ l.environment.toNat) :
    l.memories.Stored .user ((l.memories.process .user).mem.write esp
        (frameBytes l.task (l.memories.process .user).mem l.arguments l.environment argc envc))
      (l.writeFrame host esp) := by
  have hle := hframe.add_le (by omega)
  have hle' := hargs.add_le (by omega)
  have hle'' := henv.add_le (by omega)
  unfold userPages at hle hle' hle''
  have hargcLen : (l.argCnt + 1#32) * 4#32 = BitVec.ofNat 32 (4 * (argc + 1)) := by
    rw [hargc, Nat.mul_comm, BitVec.ofNat_mul, BitVec.ofNat_add]
  have henvcLen : (l.envCnt + 1#32) * 4#32 = BitVec.ofNat 32 (4 * (envc + 1)) := by
    rw [henvc, Nat.mul_comm, BitVec.ofNat_mul, BitVec.ofNat_add]
  have hcount := @Memories.stored_writeValue Side _ l.memories .user host.copier host.written esp
    (natBytes 4 (BitVec.ofNat 32 argc).toNat) (hframe.left (by rw [length_natBytes]; omega))
  have hargv := hcount.transfer host.copier host.buf hargs
    (hframe.left (by rw [length_natBytes]; omega)) (by rw [length_natBytes]; omega)
  have henvp := hargv.transfer host.copier host.buf henv
    (hframe.left (by simp only [List.length_append, length_natBytes, Mem.length_read]; omega))
    (by simp only [List.length_append, length_natBytes, Mem.length_read]; omega)
  have hbefore : (natBytes 4 (BitVec.ofNat 32 argc).toNat ++
      (l.memories.process .user).mem.read l.arguments (4 * (argc + 1)) ++
      (l.memories.process .user).mem.read l.environment (4 * (envc + 1))).length =
        4 + 4 * (argc + 1) + 4 * (envc + 1) := by
    simp only [List.length_append, length_natBytes, Mem.length_read]
  have hlast : ((auxVector l.task).map auxBytes ++ [natBytes 4 0]).flatten.length = 76 :=
    length_auxTail l.task
  have hall := henvp.append (@stored_writeValues _ _ host.copier host.written
    ((auxVector l.task).map auxBytes ++ [natBytes 4 0]) (by
      rw [henvp.space, hbefore, hlast]
      refine hframe.right ?_
      rw [BitVec.toNat_ofNat, Nat.mod_eq_of_lt (by omega)]
      omega)) (by rw [hbefore, hlast]; omega)
  -- the addresses that the cursor takes
  have haddr₁ : esp + BitVec.ofNat 32 (natBytes 4 (BitVec.ofNat 32 argc).toNat).length =
      esp + 4#32 := by
    rw [length_natBytes]
  have haddr₂ : esp + BitVec.ofNat 32 (natBytes 4 (BitVec.ofNat 32 argc).toNat ++
      (l.memories.process .user).mem.read l.arguments (4 * (argc + 1))).length =
        esp + 4#32 + (l.argCnt + 1#32) * 4#32 := by
    rw [hargcLen, List.length_append, length_natBytes, Mem.length_read, BitVec.ofNat_add,
      BitVec.add_assoc]
  have haddr₃ : esp + BitVec.ofNat 32 (4 + 4 * (argc + 1) + 4 * (envc + 1)) =
      esp + 4#32 + (l.argCnt + 1#32) * 4#32 + (l.envCnt + 1#32) * 4#32 := by
    rw [hargcLen, henvcLen, BitVec.ofNat_add, BitVec.ofNat_add, BitVec.add_assoc, BitVec.add_assoc,
      BitVec.add_assoc]
  rw [hbefore, haddr₁, haddr₂, haddr₃, ← hargc, ← henvc] at hall
  rw [frameBytes, ← hargc]
  exact hall

end Frame

/-! ## What the frame says -/

/-- The pairs of an auxiliary vector, up to `AT_NULL`. -/
def IsAuxVector (mem : UserMem) : DWORD → List (Nat × DWORD) → Prop
  | a, [] => mem.word a = 0#32
  | a, (type, val) :: rest =>
      type ≠ 0 ∧ mem.word a = BitVec.ofNat 32 type ∧ mem.word (a + 4#32) = val ∧
        IsAuxVector mem (a + 8#32) rest

/-- The auxiliary vector of an image. -/
def auxPairs (t : Task) : List (Nat × DWORD) :=
  [(13, t.gid), (11, t.uid), (9, t.elfLoadData.startAddr), (7, t.elfLoadData.interpreterBase),
    (5, t.elfLoadData.phdrPhnum), (4, t.elfLoadData.phdrPhent), (3, t.elfLoadData.phdrAddr),
    (6, 0x1000#32)]

theorem auxTail_eq (t : Task) : auxTail t =
    (auxPairs t).flatMap auxBytes ++ (natBytes 4 0 ++ (natBytes 4 0 ++ natBytes 4 0)) := by
  simp [auxTail, auxVector, auxPairs, auxBytes]

/-- From `esp` upward: the number of arguments, the arguments, the environment and the auxiliary
vector. -/
structure Decodes (mem : UserMem) (esp : DWORD) (args env : List Str) (aux : List (Nat × DWORD)) :
    Prop where
  argc : mem.word esp = BitVec.ofNat 32 args.length
  argv : mem.IsStringArray (esp + 4#32) args
  envp : mem.IsStringArray (esp + 4#32 + BitVec.ofNat 32 (4 * (args.length + 1))) env
  auxv : IsAuxVector mem (esp + 4#32 + BitVec.ofNat 32 (4 * (args.length + 1)) +
    BitVec.ofNat 32 (4 * (env.length + 1))) aux

theorem isAuxVector_of_read {mem : UserMem} {a : DWORD} {aux : List (Nat × DWORD)}
    {rest : List UInt8} (haux : ∀ p ∈ aux, p.1 ≠ 0)
    (h : mem.read a (aux.flatMap auxBytes ++ (natBytes 4 0 ++ rest)).length =
      aux.flatMap auxBytes ++ (natBytes 4 0 ++ rest)) : IsAuxVector mem a aux := by
  induction aux generalizing a with
  | nil =>
    rw [List.flatMap_nil, List.nil_append] at h
    obtain ⟨hnull, -⟩ := Mem.read_eq_append List.length_append h
    exact Mem.word_of_read hnull
  | cons p aux ih =>
    obtain ⟨type, val⟩ := p
    rw [List.flatMap_cons, auxBytes, List.append_assoc, List.append_assoc] at h
    obtain ⟨htype, h⟩ := Mem.read_eq_append List.length_append h
    obtain ⟨hval, h⟩ := Mem.read_eq_append List.length_append h
    rw [length_natBytes] at htype hval h
    rw [length_natBytes, BitVec.add_assoc] at h
    obtain ⟨hne, haux⟩ := List.forall_mem_cons.mp haux
    refine ⟨hne, Mem.word_of_read htype, ?_, ih haux h⟩
    rw [Mem.word_of_read hval, BitVec.ofNat_toNat, BitVec.setWidth_eq]

/-- A frame that has been written over two arrays says what they do. -/
theorem decodes_frame {t : Task} {mem : UserMem} {esp pArgs pEnv : DWORD} {args env : List Str}
    (hargs : mem.IsStringArray pArgs args) (henv : mem.IsStringArray pEnv env)
    (hfits : esp.toNat + (4 * (args.length + env.length + 2) + 80) ≤ 2 ^ 32)
    (hapart : ∀ r ∈ mem.arrayRanges pArgs args ++ mem.arrayRanges pEnv env,
      r.1.toNat + r.2 ≤ 2 ^ 32 ∧ (r.1.toNat + r.2 ≤ esp.toNat ∨
        esp.toNat + (4 * (args.length + env.length + 2) + 80) ≤ r.1.toNat)) :
    Decodes (mem.write esp (frameBytes t mem pArgs pEnv args.length env.length)) esp args env
      (auxPairs t) := by
  have hlen := length_frameBytes t mem pArgs pEnv args.length env.length
  have hread := Mem.read_write mem esp (frameBytes t mem pArgs pEnv args.length env.length)
    (by omega)
  have hagree : ∀ r ∈ mem.arrayRanges pArgs args ++ mem.arrayRanges pEnv env,
      Mem.AgreeOn mem (mem.write esp (frameBytes t mem pArgs pEnv args.length env.length)) r.1 r.2 ∧
        r.1.toNat + r.2 ≤ 2 ^ 32 := by
    intro r hr
    obtain ⟨hle, hout⟩ := hapart r hr
    exact ⟨Mem.agreeOn_write mem (by omega) (by omega), hle⟩
  generalize mem.write esp (frameBytes t mem pArgs pEnv args.length env.length) = mem'
    at hread hagree
  simp only [frameBytes, List.append_assoc] at hread
  obtain ⟨hargc, hread⟩ := Mem.read_eq_append List.length_append hread
  obtain ⟨hargv, hread⟩ := Mem.read_eq_append List.length_append hread
  obtain ⟨henvp, hread⟩ := Mem.read_eq_append List.length_append hread
  rw [length_natBytes] at hargc
  rw [length_natBytes, Mem.length_read] at hargv henvp hread
  rw [Mem.length_read] at henvp hread
  constructor
  · rw [Mem.word_of_read hargc, BitVec.ofNat_toNat, BitVec.setWidth_eq]
  · exact hargs.relocate hargv fun r hr ↦ hagree r (List.mem_append_left _ hr)
  · exact henv.relocate henvp fun r hr ↦ hagree r (List.mem_append_right _ hr)
  · rw [auxTail_eq] at hread
    refine isAuxVector_of_read ?_ hread
    simp [auxPairs]

/-! ## The launch -/

/-- A launch with these lists, for which Windows gives the two blocks, and whose frame fits on
the stack. -/
structure Launchable (host : LaunchHost) (l : Launch) (args env : List Str) (pArgs pEnv : DWORD)
    (s s' : Space) : Prop where
  environment : IsStringList (l.memories.process .kernel).mem l.environment env
  readEnvironment : ∀ r ∈ listRanges (l.memories.process .kernel).mem l.environment env,
    Accessible .read (l.memories.process .kernel).space r.1 r.2
  arguments : IsStringList (l.memories.process .kernel).mem l.arguments args
  readArguments : ∀ r ∈ listRanges (l.memories.process .kernel).mem l.arguments args,
    Accessible .read (l.memories.process .kernel).space r.1 r.2
  envBlock : Granted host.toHost (l.memories.process .user).space (blockSize env) pEnv s
  argBlock : Granted host.toHost s (blockSize args) pArgs s'
  fits : l.task.keowUserStackBase.toNat + (4 * (args.length + env.length + 2) + 164) ≤
    l.task.world.threadCtx.esp.toNat
  stack : Accessible .write (l.memories.process .user).space l.task.keowUserStackBase
    (l.task.world.threadCtx.esp.toNat - l.task.keowUserStackBase.toNat)

/-- The address is in the block. -/
def InBlock (p : DWORD) (ss : List Str) (x : DWORD) : Prop :=
  p.toNat ≤ x.toNat ∧ x.toNat < p.toNat + blockSize ss

section Launch

variable {host : LaunchHost} {l : Launch} {args env : List Str} {pArgs pEnv : DWORD}
  {s s' : Space} {turns : Nat}

/-- Two allocations zero what is fresh after both. -/
theorem zeroFresh_trans {s₀ s s' : Space} (h₁ : s₀.Grows s) (h₂ : s.Grows s') (mem : UserMem) :
    zeroFresh s s' (zeroFresh s₀ s mem) = zeroFresh s₀ s' mem := by
  funext x
  have hmono := @Space.committed_of_grows _ _ x.toNat h₁
  have hmono' := @Space.committed_of_grows _ _ x.toNat h₂
  unfold zeroFresh
  by_cases hs : s.Committed x.toNat
  · simp [hs, hmono' hs]
  · have hs₀ : ¬s₀.Committed x.toNat := fun h ↦ hs (hmono h)
    simp [hs, hs₀]

theorem user_virtualFree (h : Host) (addr size : DWORD) (m : Memories Side) :
    (m.virtualFree h addr size).process .user = m.process .user := by
  unfold Memories.virtualFree
  split
  · rfl
  · rfl

theorem toNat_stackNeeded (hfits : 4 * (args.length + env.length + 2) + 164 < 2 ^ 32) :
    (stackNeeded (BitVec.ofNat 32 args.length) (BitVec.ofNat 32 env.length)).toNat =
      4 * (args.length + env.length + 2) + 164 := by
  have hsum : stackNeeded (BitVec.ofNat 32 args.length) (BitVec.ofNat 32 env.length) =
      BitVec.ofNat 32 (4 * (env.length + 1 + args.length + 1) + 160 + 4) := by
    simp only [stackNeeded, BitVec.ofNat_add, BitVec.ofNat_mul]
  rw [hsum, BitVec.toNat_ofNat, Nat.mod_eq_of_lt (by omega)]
  omega

/-- The two copies, one after the other. -/
theorem exists_copies (h : Launchable host l args env pArgs pEnv s s')
    (hturns : blockSize args ≤ turns ∧ blockSize env ≤ turns) :
    ∃ m₁ m₂, Copied l.memories .user s pEnv env m₁ ∧ Copied m₁ .user s' pArgs args m₂ ∧
      copyStringListBetweenProcesses host.toStringHost .kernel l.environment .user (some .user)
          turns l.memories =
        .ok ⟨pEnv, BitVec.ofNat 32 env.length, BitVec.ofNat 32 (blockSize env)⟩ m₁ ∧
      copyStringListBetweenProcesses host.toStringHost .kernel l.arguments .user (some .user)
          turns m₁ =
        .ok ⟨pArgs, BitVec.ofNat 32 args.length, BitVec.ofNat 32 (blockSize args)⟩ m₂ := by
  obtain ⟨m₁, hrun₁, hcopied₁⟩ := copied_copyStringList host.toStringHost (some .user)
    h.environment h.readEnvironment h.envBlock.call h.envBlock.ok h.envBlock.write hturns.2
  have hkernel := hcopied₁.other .kernel (by decide)
  have hspace := hcopied₁.space
  obtain ⟨m₂, hrun₂, hcopied₂⟩ := @copied_copyStringList Side _ m₁ .kernel .user pArgs s' args
    host.toStringHost l.arguments (some .user) (by rw [hkernel]; exact h.arguments)
    (by rw [hkernel]; exact h.readArguments) (by rw [hspace]; exact h.argBlock.call)
    h.argBlock.ok h.argBlock.write turns hturns.1
  exact ⟨m₁, m₂, hcopied₁, hcopied₂, hrun₁, hrun₂⟩

/-- The environment stays in its block when the arguments are copied. -/
theorem environment_kept {m m₁ m₂ : Memories Side} (h₁ : Copied m .user s pEnv env m₁)
    (h₂ : Copied m₁ .user s' pArgs args m₂)
    (hread : Accessible .read s pEnv (blockSize env))
    (hblock : Granted host.toHost s (blockSize args) pArgs s') :
    (m₂.process .user).mem.IsStringArray pEnv env ∧
      ∀ r ∈ (m₂.process .user).mem.arrayRanges pEnv env,
        pEnv.toNat ≤ r.1.toNat ∧ r.1.toNat + r.2 ≤ pEnv.toNat + blockSize env := by
  have hpos := blockSize_pos env
  have hle := hread.add_le hpos
  unfold userPages at hle
  have hapart := hblock.apart hread hpos
  have hspace := h₁.space
  have hranges : ∀ r ∈ (m₁.process .user).mem.arrayRanges pEnv env,
      Mem.AgreeOn (m₁.process .user).mem (m₂.process .user).mem r.1 r.2 ∧
        r.1.toNat + r.2 ≤ 2 ^ 32 := by
    intro r hr
    obtain ⟨hlow, hhigh⟩ := h₁.inside r hr
    refine ⟨fun x hx hlt ↦ ?_, by omega⟩
    rw [h₂.outside x (by omega), zeroFresh_of_committed]
    rw [hspace]
    exact hread.committed (by omega) (by omega)
  refine ⟨h₁.array.of_agreeOn hranges, fun r hr ↦ ?_⟩
  rw [Mem.arrayRanges_of_agreeOn hranges] at hr
  exact h₁.inside r hr

/-- The new frame lies on the stack, in reach of the old `Esp`. -/
theorem accessible_frame (h : Launchable host l args env pArgs pEnv s s') :
    let esp := l.task.world.threadCtx.esp
    let esp' := esp - stackNeeded (BitVec.ofNat 32 args.length) (BitVec.ofNat 32 env.length)
    esp'.toNat + (4 * (args.length + env.length + 2) + 164) = esp.toNat ∧
      Accessible .write (l.memories.process .user).space esp'
        (4 * (args.length + env.length + 2) + 80) := by
  dsimp only
  have hfits := h.fits
  have hesp := l.task.world.threadCtx.esp.isLt
  have hneeded := @toNat_stackNeeded args env (by omega)
  have hsub : (l.task.world.threadCtx.esp -
      stackNeeded (BitVec.ofNat 32 args.length) (BitVec.ofNat 32 env.length)).toNat =
        l.task.world.threadCtx.esp.toNat - (4 * (args.length + env.length + 2) + 164) := by
    rw [BitVec.toNat_sub_of_le (by rw [BitVec.le_def]; omega), hneeded]
  exact ⟨by omega, h.stack.sub (by omega) (by omega)⟩

/-- After the two copies nothing stops. -/
theorem startNewImageRunning_eq_ok {m₁ m₂ : Memories Side} {pairs pairs' : StringList}
    (henv : copyStringListBetweenProcesses host.toStringHost .kernel l.environment .user
      (some .user) turns l.memories = .ok pairs m₁)
    (hargs : copyStringListBetweenProcesses host.toStringHost .kernel l.arguments .user
      (some .user) turns m₁ = .ok pairs' m₂) :
    startNewImageRunning host turns l = .ok () (Launch.entered host
      (Launch.moved host pairs' pairs { l.withStart with memories := m₂ })) := by
  let put (m : Memories Side) (l : Launch) : Launch := { l with memories := m }
  have hfirst := Comp.zoom_of_ok Launch.memories put (s := l.withStart) henv
  have hsecond := Comp.zoom_of_ok Launch.memories put (s := put m₁ l.withStart) hargs
  have hstart : Comp.modify Launch.withStart l = .ok ⟨⟩ l.withStart := rfl
  unfold startNewImageRunning
  rw [Comp.bind_of_ok hstart, Comp.bind_of_ok (Comp.get_eq_ok.mpr ⟨rfl, rfl⟩)]
  refine (Comp.bind_of_ok hfirst _).trans ?_
  exact (Comp.bind_of_ok hsecond _).trans rfl

/-- The thread gets its new `Esp`. -/
theorem esp_entered (l : Launch) :
    (l.entered host).task.world.threadCtx.esp =
      l.task.world.threadCtx.esp - stackNeeded l.argCnt l.envCnt := by
  have hcontrol : Context.CONTEXT_FULL.getLsbD 0 = true := by decide
  simp only [Launch.entered, Launch.startContext, Context.merge, hcontrol, if_true]

/-- A launch whose blocks are granted: the stack decodes to the arguments, and nothing from the
old `Esp` upward is written but the two blocks. -/
theorem startNewImageRunning_decodes (h : Launchable host l args env pArgs pEnv s s')
    (hturns : blockSize args ≤ turns ∧ blockSize env ≤ turns) :
    ∃ l', startNewImageRunning host turns l = .ok () l' ∧
      l'.task.elfLoadData = l.task.elfLoadData.withStart ∧
      Decodes (l'.memories.process .user).mem l'.task.world.threadCtx.esp args env
        (auxPairs l'.task) ∧
      ∀ x : DWORD, l.task.world.threadCtx.esp.toNat ≤ x.toNat → ¬InBlock pArgs args x →
        ¬InBlock pEnv env x → (l'.memories.process .user).mem x =
          zeroFresh (l.memories.process .user).space s' (l.memories.process .user).mem x := by
  obtain ⟨m₁, m₂, hcopied₁, hcopied₂, hrun₁, hrun₂⟩ := exists_copies h hturns
  obtain ⟨henv, henvIn⟩ := environment_kept hcopied₁ hcopied₂ h.envBlock.read h.argBlock
  obtain ⟨hesp, hframe⟩ := accessible_frame h
  have hspace₁ := hcopied₁.space
  have hspace₂ := hcopied₂.space
  -- the frame is outside of the two blocks
  have hframe₁ := hframe.allocated h.envBlock.call
  have hframe₂ := hframe₁.allocated h.argBlock.call
  have henvApart := h.envBlock.apart hframe (by omega)
  have hargsApart := h.argBlock.apart hframe₁ (by omega)
  have henvSize : 4 * (env.length + 1) ≤ blockSize env := by
    unfold blockSize
    omega
  have hargsSize : 4 * (args.length + 1) ≤ blockSize args := by
    unfold blockSize
    omega
  have hargsLe := h.argBlock.write.add_le (blockSize_pos args)
  have henvLe := h.envBlock.write.add_le (blockSize_pos env)
  unfold userPages at hargsLe henvLe
  refine ⟨_, startNewImageRunning_eq_ok hrun₁ hrun₂, rfl, ?_⟩
  -- the launch between the copies and the frame
  generalize hl₃ : Launch.moved host ⟨pArgs, BitVec.ofNat 32 args.length,
    BitVec.ofNat 32 (blockSize args)⟩ ⟨pEnv, BitVec.ofNat 32 env.length,
    BitVec.ofNat 32 (blockSize env)⟩ { l.withStart with memories := m₂ } = l₃
  have huser : l₃.memories.process .user = m₂.process .user := by
    rw [← hl₃, Launch.moved, user_virtualFree, user_virtualFree]
  have harguments : l₃.arguments = pArgs := by rw [← hl₃, Launch.moved]
  have henvironment : l₃.environment = pEnv := by rw [← hl₃, Launch.moved]
  have hargc : l₃.argCnt = BitVec.ofNat 32 args.length := by rw [← hl₃, Launch.moved]
  have henvc : l₃.envCnt = BitVec.ofNat 32 env.length := by rw [← hl₃, Launch.moved]
  have hold : l₃.task.world.threadCtx.esp = l.task.world.threadCtx.esp := by
    rw [← hl₃, Launch.moved, Launch.withStart]
  have hnew := @esp_entered host l₃
  have hmemories : (l₃.entered host).memories =
      l₃.writeFrame host ((l₃.entered host).task.world.threadCtx.esp) := by
    rw [hnew]
    rfl
  rw [hargc, henvc, hold] at hnew
  have haux : auxPairs (l₃.entered host).task = auxPairs l₃.task := rfl
  rw [← hnew] at hesp hframe hframe₁ hframe₂ henvApart hargsApart
  rw [hmemories, haux]
  generalize (l₃.entered host).task.world.threadCtx.esp = esp' at *
  have hstored := @stored_writeFrame host l₃ esp' args.length env.length hargc henvc
    (by rwa [huser, hspace₂])
    (by rw [huser, hspace₂, harguments]; exact h.argBlock.read.left hargsSize)
    (by
      rw [huser, hspace₂, henvironment]
      exact (h.envBlock.read.allocated h.argBlock.call).left henvSize)
    (by rw [harguments]; omega) (by rw [henvironment]; omega)
  rw [hstored.self, Remote.mem_setMem, huser, harguments, henvironment]
  constructor
  · refine decodes_frame hcopied₂.array henv (by omega) fun r hr ↦ ?_
    rcases List.mem_append.mp hr with hr | hr
    · have hin := hcopied₂.inside r hr
      omega
    · have hin := henvIn r hr
      omega
  · intro x hx hargsOut henvOut
    unfold InBlock at hargsOut henvOut
    rw [Mem.write_above _ _ _ _ (by rw [length_frameBytes]; omega), hcopied₂.outside x (by omega),
      hspace₁, ← zeroFresh_trans (grows_allocate h.envBlock.call) (grows_allocate h.argBlock.call)]
    unfold zeroFresh
    rw [hcopied₁.outside x (by omega)]
    rfl

end Launch

/-! ## A launch of `sh` -/

/-- The last granule where a block fits. -/
def lastFit (s : Space) (size : Nat) : Option Nat :=
  ((List.range' 0 (userPages / granulePages)).map (userPages / granulePages - ·)).find? fun g ↦
    Windows.Fits s size g

theorem fits_of_lastFit {s : Space} {size g : Nat} (h : lastFit s size = some g) :
    Windows.Fits s size g := by
  unfold lastFit at h
  have hg := List.find?_some h
  exact of_decide_eq_true hg

/-- Windows when it is set to allocate from the top of the address space down. -/
def topDown : Windows :=
  { Windows.generous with
    place := fun s size ↦ (lastFit s size).elim 0 (· * 65536)
    place_aligned := by
      intro s size
      cases lastFit s size with
      | none => rfl
      | some g => exact Nat.mul_mod_left g 65536
    place_free := by
      intro s size h
      cases hf : lastFit s size with
      | none => exact absurd (by rw [hf]; rfl) h
      | some g => exact (fits_of_lastFit hf).2.2
    place_le := by
      intro s size h
      cases hf : lastFit s size with
      | none => exact absurd (by rw [hf]; rfl) h
      | some g => exact ⟨(fits_of_lastFit hf).1, (fits_of_lastFit hf).2.1⟩ }

/-- A host where all goes well, on this Windows. -/
def launchHost (w : Windows) : LaunchHost :=
  ⟨{ easyHost with windows := w }, 0x0012F3A8#32⟩

/-- A new process with its stack below `0x70000000`, for which the kernel holds `{"sh", NULL}` and
no environment. -/
def shLaunch : Launch where
  memories :=
    { process := fun
        | .kernel => ⟨imageSpace, shArray⟩
        | .user => ⟨imageSpace, fun _ ↦ 0⟩
      memoryAllocations := fun _ ↦ []
      kernel := fun _ ↦ 0 }
  arguments := 0x08048000#32
  environment := 0#32
  task :=
    { world := { loneWorld [] with threadCtx := { Context.zero with esp := 0x6FFFFE00#32 } }
      keowUserStackBase := 0x6FF00000#32
      keowUserStackTop := 0x70000000#32 }

theorem exists_launchable_topDown : ∃ pArgs pEnv s s',
    Launchable (launchHost topDown) shLaunch [[0x73, 0x68]] [] pArgs pEnv s s' := by
  have hgrants : grants (launchHost topDown).toHost 4
      (grants (launchHost topDown).toHost 11 fun _ ↦ true) imageSpace = true := by
    decide +kernel
  obtain ⟨pEnv, s, henv, hrest⟩ := exists_granted hgrants
  obtain ⟨pArgs, s', hargs, -⟩ := exists_granted hrest
  refine ⟨pArgs, pEnv, s, s', ?_⟩
  constructor
  · rfl
  · exact fun r hr ↦ absurd hr List.not_mem_nil
  · exact isStringList_shArray
  · exact readable_shArray
  · exact henv
  · exact hargs
  · decide
  · decide +kernel

/-- The same process, started as `ls -la /tmp` with two variables. -/
def lsLaunch : Launch :=
  { shLaunch with
    memories := { shLaunch.memories with
      process := fun
        | .kernel => ⟨imageSpace, lsArrays⟩
        | .user => ⟨imageSpace, fun _ ↦ 0⟩ }
    environment := 0x08048020#32 }

theorem exists_launchable_ls : ∃ pArgs pEnv s s',
    Launchable (launchHost Windows.generous) lsLaunch lsArgs lsEnv pArgs pEnv s s' := by
  have hgrants : grants (launchHost Windows.generous).toHost 26
      (grants (launchHost Windows.generous).toHost 28 fun _ ↦ true) imageSpace = true := by
    decide +kernel
  obtain ⟨pEnv, s, henv, hrest⟩ := exists_granted hgrants
  obtain ⟨pArgs, s', hargs, -⟩ := exists_granted hrest
  refine ⟨pArgs, pEnv, s, s', ?_⟩
  constructor
  · exact isStringList_lsEnv
  · decide +kernel
  · exact isStringList_lsArgs
  · exact readable_lsArgs
  · exact henv
  · exact hargs
  · decide
  · decide +kernel

/-- It finds its arguments and its environment. -/
theorem startNewImageRunning_decodes_ls :
    ∃ l', startNewImageRunning (launchHost Windows.generous) 28 lsLaunch = .ok () l' ∧
      Decodes (l'.memories.process .user).mem l'.task.world.threadCtx.esp lsArgs lsEnv
        (auxPairs l'.task) := by
  obtain ⟨pArgs, pEnv, s, s', hlaunchable⟩ := exists_launchable_ls
  obtain ⟨l', hrun, -, hdecodes, -⟩ :=
    @startNewImageRunning_decodes _ _ _ _ _ _ _ _ 28 hlaunchable (by decide)
  exact ⟨l', hrun, hdecodes⟩

/-- Where Windows allocates from the top, the strings are written above the old `Esp`. -/
theorem strings_above_esp_topDown :
    (∃ pArgs pEnv s s',
      Launchable (launchHost topDown) shLaunch [[0x73, 0x68]] [] pArgs pEnv s s') ∧
    ∃ l', startNewImageRunning (launchHost topDown) 11 shLaunch = .ok () l' ∧
      ∃ x : DWORD, shLaunch.task.world.threadCtx.esp.toNat ≤ x.toNat ∧
        (l'.memories.process .user).mem x ≠ zeroFresh (shLaunch.memories.process .user).space
          (l'.memories.process .user).space (shLaunch.memories.process .user).mem x := by
  refine ⟨exists_launchable_topDown, ?_⟩
  have hbyte : (startNewImageRunning (launchHost topDown) 11 shLaunch).returned = true ∧
      ((startNewImageRunning (launchHost topDown) 11 shLaunch).state.memories.process .user).mem
        0x7FFD0000#32 = 8 := by decide +kernel
  cases hrun : startNewImageRunning (launchHost topDown) 11 shLaunch with
  | ok u l' =>
    rw [hrun] at hbyte
    refine ⟨l', rfl, 0x7FFD0000#32, by decide, ?_⟩
    -- a fresh page and the old memory both hold zeros
    rw [show (l'.memories.process .user).mem 0x7FFD0000#32 = 8 from hbyte.2]
    simp [zeroFresh, shLaunch]
  | exit l' => rw [hrun] at hbyte; cases hbyte.1
  | wait l' => rw [hrun] at hbyte; cases hbyte.1
  | fault l' => rw [hrun] at hbyte; cases hbyte.1

end Keow.Memory
