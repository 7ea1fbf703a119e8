import Keow.Exec.Layout
import Keow.Signal.Exception

/-!
# Replacing the image of a process

`SysCalls::sys_execve` (`sys_process.cpp:213–268`) with `Process::CanLoadImage`,
`Process::LoadImage` (`Process.cpp:862–1014`), `Process::FreeResourcesBeforeExec`
(`Process.cpp:2127–2181`) and `Process::StartNewImageRunning` (`Process.cpp:1270–1452`). The
call decides by `CanLoadImage`, which looks at the first bytes of a file, and finds out in
`LoadElfImage`, after the old image is gone, whether the file can be loaded.
-/

namespace Keow.Exec

open Keow.Base Keow.Kernel Keow.Paths

/-- A computation on the world of the kernel thread. -/
def lift {α : Type} (x : K α) : X α := fun t ↦
  match x t.world with
  | .ok a w => .ok a { t with world := w }
  | .exit w => .exit { t with world := w }
  | .wait w => .wait { t with world := w }
  | .fault w => .fault { t with world := w }

/-! ## Scripts -/

/-- `isspace` in the C locale. -/
def isspace (c : UInt8) : Bool := c == 0x20 || (0x09 ≤ c && c ≤ 0x0D)

/-- Where the loops of `ParseCommandLine` stand: before an argument with nothing or only blanks
seen of it, or inside one. -/
inductive ParseState where
  | start
  | blanks
  | argument (a : Str) (inQuote : Bool)

/-- `ParseCommandLine`, `Utils.cpp:81–123`, on the characters up to the terminator. Blanks
where an argument could start make an empty one if the line ends behind them. -/
def parseCommandLine : ParseState → Str → List Str
  | .start, [] => []
  | .blanks, [] => [[]]
  | .argument a _, [] => [a]
  | .argument a inQuote, c :: cs =>
      if !inQuote && isspace c then a :: parseCommandLine .start cs
      else if c = 0x22 then parseCommandLine (.argument a (!inQuote)) cs
      else parseCommandLine (.argument (a ++ [c]) inQuote) cs
  | .start, c :: cs | .blanks, c :: cs =>
      if isspace c then parseCommandLine .blanks cs
      else if c = 0x22 then parseCommandLine (.argument [] true) cs
      else parseCommandLine (.argument [c] false) cs

/-- The first 1024 bytes of a file, padded with zeros. -/
def headerBuffer (bytes : List UInt8) : List UInt8 :=
  bytes.take 1024 ++ List.replicate (1024 - bytes.length) 0

/-- The buffer starts with `ELFMAG0` to `ELFMAG3`. -/
def isElf (buf : List UInt8) : Bool := buf.take 4 == [0x7F, 0x45, 0x4C, 0x46]

/-- The buffer starts with `#!`. -/
def isScript (buf : List UInt8) : Bool := buf.take 2 == [0x23, 0x21]

/-- The words of the first line of a script, `Process.cpp:985–1001`. A buffer with neither a
newline nor a terminator is searched past its end. -/
def scriptWords (buf : List UInt8) : Option (List Str) :=
  if buf.any (fun c ↦ c == 0 || c == 0x0A) then
    let line := buf.takeWhile (fun c ↦ c != 0 && c != 0x0A)
    some (parseCommandLine .start ((line.drop 2).dropWhile (· == 0x20)))
  else none

/-! ## Finding and loading the image -/

/-- `Process::CanLoadImage`: the error it leaves if it refuses. An empty line dereferences the
end of the argument list, and a script that leads back to itself is followed for ever. -/
def canLoadImage (host : Host) : Nat → Str → X (Option DWORD)
  | 0, _ => Comp.wait
  | fuel + 1, path =>
      match host.createFile path with
      | .error err => return some err
      | .ok bytes =>
          if isElf (headerBuffer bytes) then return none
          else if isScript (headerBuffer bytes) then
            match scriptWords (headerBuffer bytes) with
            | some (word :: _) => canLoadImage host fuel word
            | _ => Comp.fault
          else return some ERROR_BAD_FORMAT

/-- `Process::LoadImage`. The words of a script go in front of the arguments after its
interpreter has been loaded. -/
def loadImage (host : Host) : Nat → Str → Bool → X DWORD
  | 0, _, _ => Comp.wait
  | fuel + 1, path, library =>
      match host.createFile path with
      | .error err => return err
      | .ok bytes =>
          if isElf (headerBuffer bytes) then do
            Comp.modify (fun t ↦ { t with loadData2 := none })
            loadElfImage host fuel ⟨bytes, (bytes.take 1024).length⟩
              (Elf32Hdr.ofBytes (headerBuffer bytes)) library
          else if isScript (headerBuffer bytes) then
            match scriptWords (headerBuffer bytes) with
            | some (word :: words) => do
                let rc ← loadImage host fuel word false
                Comp.modify (fun t ↦ { t with arguments := word :: words ++ t.arguments })
                return rc
            | _ => Comp.fault
          else return ERROR_BAD_FORMAT

/-! ## Giving up the old image -/

/-- The loop of `FreeResourcesBeforeExec` over the allocations, `Process.cpp:2153–2174`, from
the `i`-th on. After an erasure it starts again at the beginning and then steps over the first
entry. -/
def releaseAllocations (host : Host) (stackBase : DWORD) (allocs : List MemoryAlloc) (i : Nat)
    (mem : UserMem) : List MemoryAlloc × UserMem :=
  if h : i < allocs.length then
    if (allocs.get ⟨i, h⟩).addr = stackBase then
      releaseAllocations host stackBase allocs (i + 1) mem
    else
      releaseAllocations host stackBase (allocs.eraseIdx i) 1
        (host.virtualFree mem (allocs.get ⟨i, h⟩).addr (allocs.get ⟨i, h⟩).len)
  else (allocs, mem)
termination_by (allocs.length, allocs.length - i)
decreasing_by
  · apply Prod.Lex.right
    omega
  · apply Prod.Lex.left
    rw [List.length_eraseIdx_of_lt h]
    omega

/-- `MAX_OPEN_FILES`. -/
def maxOpenFiles : Nat := 1024

/-- Close what `execve` does not keep, `Process.cpp:2141–2151`. -/
def closeFiles (p : Process) : Process :=
  { p with openFiles := fun fd ↦
      if fd < maxOpenFiles then (p.openFiles fd).filter OpenFile.inheritable
      else p.openFiles fd }

/-- The process without its files and memory. -/
def Task.released (host : Host) (t : Task) : Task :=
  let rest := releaseAllocations host t.keowUserStackBase t.memoryAllocations 0 t.world.mem
  { t with
    world := { t.world with cur := closeFiles t.world.cur, mem := rest.2 }
    memoryAllocations := rest.1 }

/-- `Process::FreeResourcesBeforeExec`. A shared mapping runs into a `DebugBreak`. -/
def freeResourcesBeforeExec (host : Host) : X Unit := do
  let t ← Comp.get
  if t.mmapList ≠ [] then Comp.fault
  else
    Comp.modify (Task.released host)
    lift Signal.initSignalHandling
    Comp.modify (fun t ↦ { t with elfLoadData := {} })

/-! ## Starting the new image -/

/-- The loop of `MemoryHelper::CopyStringListBetweenProcesses` that writes the strings and the
pointers to them, `MemoryHelper.cpp:386–414`. -/
def copyStrings (mem : UserMem) (pToArray pToData : DWORD) : List Str → UserMem
  | [] => mem.write pToArray (natBytes 4 0)
  | s :: ss =>
      copyStrings ((mem.write pToArray (natBytes 4 pToData.toNat)).write pToData (s ++ [0]))
        (pToArray + 4#32) (pToData + BitVec.ofNat 32 (s.length + 1)) ss

/-- `MemoryHelper::CopyStringListBetweenProcesses` from the kernel to the process: the address
of the array. The record is made whether or not the allocation worked. -/
def copyStringList (host : Host) (strings : List Str) : X DWORD := do
  let t ← Comp.get
  let total := (strings.map (fun s ↦ s.length + 1)).sum + 4 * (strings.length + 1)
  let pTo := host.allocateMem t.memoryAllocations 0#32 (BitVec.ofNat 32 total)
  Comp.modify (fun t ↦ { Task.setMem (fun mem ↦ copyStrings mem pTo
      (pTo + BitVec.ofNat 32 (4 * (strings.length + 1))) strings) t with
    memoryAllocations :=
      t.memoryAllocations ++ [⟨pTo, BitVec.ofNat 32 total, PAGE_READWRITE⟩] })
  return pTo

/-- The auxiliary vector, `Process.cpp:1411–1421`. -/
def auxVector (t : Task) : List (Nat × DWORD) :=
  [(13, t.gid), (11, t.uid), (9, t.elfLoadData.startAddr), (7, t.elfLoadData.interpreterBase),
    (5, t.elfLoadData.phdrPhnum), (4, t.elfLoadData.phdrPhent), (3, t.elfLoadData.phdrAddr),
    (6, 0x1000#32), (0, 0#32)]

/-- The initial stack: the argument count, the two pointer arrays cloned from the process, the
auxiliary vector and the end marker. -/
def initialFrame (t : Task) (pArgs pEnv : DWORD) : List UInt8 :=
  natBytes 4 t.arguments.length ++
  t.world.mem.read pArgs (4 * (t.arguments.length + 1)) ++
  t.world.mem.read pEnv (4 * (t.environment.length + 1)) ++
  (auxVector t).flatMap (fun a ↦ natBytes 4 a.1 ++ natBytes 4 a.2.toNat) ++
  natBytes 4 0

/-- An image without interpreter starts by itself, `Process.cpp:1338–1343`. -/
def ElfLoadData.withStart (d : ElfLoadData) : ElfLoadData :=
  if d.interpreterStart = 0#32 then
    { d with interpreterBase := d.programBase, interpreterStart := d.startAddr }
  else d

/-- The context of the new image, `Process.cpp:1366–1376,1434–1446`. -/
def startContext (t : Task) : Context :=
  let stackNeeded := 4 * (t.environment.length + 1 + t.arguments.length + 1) + 160 + 4
  { t.world.threadCtx with
    contextFlags := Context.CONTEXT_FULL
    eax := 0#32, ebx := 0#32, ecx := 0#32, edx := 0#32, esi := 0#32, edi := 0#32, ebp := 0#32
    esp := t.world.threadCtx.esp - BitVec.ofNat 32 stackNeeded
    eip := t.elfLoadData.interpreterStart }

/-- The thread stands at the start of the new image, on its initial stack. -/
def Task.started (pArgs pEnv : DWORD) (t : Task) : Task :=
  { t with world := { t.world with
      mem := t.world.mem.write (startContext t).esp (initialFrame t pArgs pEnv)
      threadCtx := (startContext t).merge t.world.threadCtx } }

/-- `Process::StartNewImageRunning`. -/
def startNewImageRunning (host : Host) : X Unit := do
  Comp.modify (fun t ↦ { t with elfLoadData := t.elfLoadData.withStart })
  let t ← Comp.get
  let pEnv ← copyStringList host t.environment
  let pArgs ← copyStringList host t.arguments
  Comp.modify (Task.started pArgs pEnv)

/-! ## The call -/

/-- The new arguments and environment, and the name of the image. -/
def Task.named (filename : Str) (argv envp : List Str) (t : Task) : Task :=
  { t with arguments := argv, environment := envp, processFileImage := filename }

/-- `sys_execve` up to the stop for a tracer: the error that refuses the image, or what
`LoadImage` returned. The call that would reset the stack pointer is given the `ThreadInfo`
instead of the thread handle in it, and sets nothing. -/
def replaceImage (host : Host) (fuel : Nat) (filename : Str) (argv envp : List Str) :
    X (Except DWORD DWORD) := do
  match ← canLoadImage host fuel filename with
  | some err => return .error err
  | none => do
      freeResourcesBeforeExec host
      Comp.modify (Task.named filename argv envp)
      let rc ← loadImage host fuel filename false
      startNewImageRunning host
      return .ok rc

/-- The stop of a traced process, with the context of a successful call. -/
def stopForTracer (ctx : Context) : X Unit := do
  let t ← Comp.get
  if t.world.cur.ptrace.ownerPid ≠ 0#32 then
    lift (modifyCur (fun p ↦ { p with ptrace := { p.ptrace with
      ctx := { ctx with eax := 0#32, esp := t.keowUserStackTop - 0x200#32 }
      savedEax := 11#32
      ctxValid := true } }))
    lift (Signal.sendSignal .cur SIGTRAP)
  else return ()

/-- `SysCalls::sys_execve`, on the kernel's copies of its three arguments. -/
def sysExecve (host : Host) (fuel : Nat) (filename : Str) (argv envp : List Str) (ctx : Context) :
    X Context := do
  match ← replaceImage host fuel filename argv envp with
  | .error err => return ctx.withEax (-win32ErrToUnixError err)
  | .ok _ => do
      stopForTracer ctx
      lift getThreadContext

/-! ## What a path stands for -/

/-- What `CanLoadImage` and `LoadImage` tell apart at a path. -/
inductive Finds (host : Host) (path : Str) : Prop
  | missing {err : DWORD} (hfile : host.createFile path = .error err)
  | elf {bytes : List UInt8} (hfile : host.createFile path = .ok bytes)
      (helf : isElf (headerBuffer bytes) = true)
  | script {bytes : List UInt8} {word : Str} {words : List Str}
      (hfile : host.createFile path = .ok bytes) (helf : isElf (headerBuffer bytes) = false)
      (hscript : isScript (headerBuffer bytes) = true)
      (hwords : scriptWords (headerBuffer bytes) = some (word :: words))
  | blank {bytes : List UInt8} (hfile : host.createFile path = .ok bytes)
      (helf : isElf (headerBuffer bytes) = false)
      (hscript : isScript (headerBuffer bytes) = true)
      (hwords : scriptWords (headerBuffer bytes) = none ∨
        scriptWords (headerBuffer bytes) = some [])
  | format {bytes : List UInt8} (hfile : host.createFile path = .ok bytes)
      (helf : isElf (headerBuffer bytes) = false)
      (hscript : isScript (headerBuffer bytes) = false)

theorem finds (host : Host) (path : Str) : Finds host path := by
  cases hfile : host.createFile path with
  | error err => exact .missing hfile
  | ok bytes =>
    cases helf : isElf (headerBuffer bytes) with
    | true => exact .elf hfile helf
    | false =>
      cases hscript : isScript (headerBuffer bytes) with
      | false => exact .format hfile helf hscript
      | true =>
        cases hwords : scriptWords (headerBuffer bytes) with
        | none => exact .blank hfile helf hscript (.inl hwords)
        | some words =>
          cases words with
          | nil => exact .blank hfile helf hscript (.inr hwords)
          | cons word words => exact .script hfile helf hscript hwords

/-- What the chain of scripts from a path ends in: an error, or a file that says it is ELF. -/
inductive Resolves (host : Host) : Str → Except DWORD (List UInt8) → Prop
  | missing {path : Str} {err : DWORD} (hfile : host.createFile path = .error err) :
      Resolves host path (.error err)
  | elf {path : Str} {bytes : List UInt8} (hfile : host.createFile path = .ok bytes)
      (helf : isElf (headerBuffer bytes) = true) : Resolves host path (.ok bytes)
  | script {path : Str} {bytes : List UInt8} {word : Str} {words : List Str}
      {res : Except DWORD (List UInt8)} (hfile : host.createFile path = .ok bytes)
      (helf : isElf (headerBuffer bytes) = false)
      (hscript : isScript (headerBuffer bytes) = true)
      (hwords : scriptWords (headerBuffer bytes) = some (word :: words))
      (hrest : Resolves host word res) : Resolves host path res
  | format {path : Str} {bytes : List UInt8} (hfile : host.createFile path = .ok bytes)
      (helf : isElf (headerBuffer bytes) = false)
      (hscript : isScript (headerBuffer bytes) = false) :
      Resolves host path (.error ERROR_BAD_FORMAT)

/-- What `CanLoadImage` says about it. -/
def verdict : Except DWORD (List UInt8) → Option DWORD
  | .error err => some err
  | .ok _ => none

theorem resolves_of_canLoadImage {host : Host} {fuel : Nat} {path : Str} {t t' : Task}
    {r : Option DWORD} (h : canLoadImage host fuel path t = .ok r t') :
    t' = t ∧ ∃ res, Resolves host path res ∧ verdict res = r := by
  induction fuel generalizing path with
  | zero => exact absurd h Comp.wait_ne_ok
  | succ fuel ih =>
    rw [canLoadImage] at h
    cases finds host path with
    | missing hfile =>
      simp only [hfile, Comp.pure_eq_ok] at h
      exact ⟨h.2.symm, _, .missing hfile, h.1⟩
    | elf hfile helf =>
      simp only [hfile, helf, if_true, Comp.pure_eq_ok] at h
      exact ⟨h.2.symm, _, .elf hfile helf, h.1⟩
    | script hfile helf hscript hwords =>
      simp only [hfile, helf, hscript, hwords, Bool.false_eq_true, if_false, if_true] at h
      obtain ⟨rfl, res, hrest, hres⟩ := ih h
      exact ⟨rfl, res, .script hfile helf hscript hwords hrest, hres⟩
    | blank hfile helf hscript hwords =>
      rcases hwords with hwords | hwords <;> simp [hfile, helf, hscript, hwords] at h
    | format hfile helf hscript =>
      simp only [hfile, helf, hscript, Bool.false_eq_true, if_false, Comp.pure_eq_ok] at h
      exact ⟨h.2.symm, _, .format hfile helf hscript, h.1⟩

theorem canLoadImage_of_resolves {host : Host} {path : Str} {res : Except DWORD (List UInt8)}
    (h : Resolves host path res) (t : Task) :
    ∃ n, ∀ fuel, n ≤ fuel → canLoadImage host fuel path t = .ok (verdict res) t := by
  induction h with
  | missing hfile =>
    refine ⟨1, fun fuel hfuel ↦ ?_⟩
    obtain ⟨fuel, rfl⟩ := Nat.exists_eq_add_of_le' hfuel
    simp [canLoadImage, hfile, verdict]
  | elf hfile helf =>
    refine ⟨1, fun fuel hfuel ↦ ?_⟩
    obtain ⟨fuel, rfl⟩ := Nat.exists_eq_add_of_le' hfuel
    simp [canLoadImage, hfile, helf, verdict]
  | script hfile helf hscript hwords _ ih =>
    obtain ⟨n, hn⟩ := ih
    refine ⟨n + 1, fun fuel hfuel ↦ ?_⟩
    obtain ⟨fuel, rfl⟩ := Nat.exists_eq_add_of_le' hfuel
    have hrest := hn (fuel + n) (by omega)
    simpa [canLoadImage, hfile, helf, hscript, hwords] using hrest
  | format hfile helf hscript =>
    refine ⟨1, fun fuel hfuel ↦ ?_⟩
    obtain ⟨fuel, rfl⟩ := Nat.exists_eq_add_of_le' hfuel
    simp [canLoadImage, hfile, helf, hscript, verdict]

/-- A path stands for one thing only. -/
theorem resolves_unique {host : Host} {path : Str} {res res' : Except DWORD (List UInt8)}
    (h : Resolves host path res) (h' : Resolves host path res') : res = res' := by
  induction h with
  | missing hfile => cases h' <;> simp_all
  | elf hfile helf => cases h' <;> simp_all
  | script hfile helf hscript hwords _ ih =>
    cases h' with
    | script hfile' helf' hscript' hwords' hrest' =>
      simp only [hfile, Except.ok.injEq] at hfile'
      subst hfile'
      simp only [hwords, Option.some.injEq, List.cons.injEq] at hwords'
      obtain ⟨rfl, rfl⟩ := hwords'
      exact ih hrest'
    | _ => simp_all
  | format hfile helf hscript => cases h' <;> simp_all

/-! ## Loading what a path stands for -/

/-- The handle `LoadImage` goes on with after it has read the first bytes. -/
def imageHandle (bytes : List UInt8) : Handle := ⟨bytes, (bytes.take 1024).length⟩

/-- The header in the buffer of `LoadImage`. -/
def imageHdr (bytes : List UInt8) : Elf32Hdr := Elf32Hdr.ofBytes (headerBuffer bytes)

/-- A load that returns 0 has loaded the ELF file behind the path, and put words in front of the
arguments. -/
theorem loadElfImage_of_loadImage {host : Host} {fuel : Nat} {path : Str} {t t' : Task}
    (h : loadImage host fuel path false t = .ok 0#32 t') :
    ∃ bytes fuel' t₁ words, Resolves host path (.ok bytes) ∧
      loadElfImage host fuel' (imageHandle bytes) (imageHdr bytes) false
        { t with loadData2 := none } = .ok 0#32 t₁ ∧
      t' = { t₁ with arguments := words ++ t₁.arguments } := by
  induction fuel generalizing path t' with
  | zero => exact absurd h Comp.wait_ne_ok
  | succ fuel ih =>
    rw [loadImage] at h
    cases finds host path with
    | missing hfile =>
      simp only [hfile, Comp.pure_eq_ok] at h
      exact absurd h.1 (host.createFile_error hfile)
    | @elf bytes hfile helf =>
      simp only [hfile, helf, if_true, Comp.bind_eq_ok, Comp.modify_eq_ok] at h
      obtain ⟨_, _, rfl, hload⟩ := h
      exact ⟨bytes, fuel, t', [], .elf hfile helf, hload, rfl⟩
    | @script bytes word words hfile helf hscript hwords =>
      simp only [hfile, helf, hscript, hwords, Bool.false_eq_true, if_false, if_true,
        Comp.bind_eq_ok, Comp.modify_eq_ok, Comp.pure_eq_ok] at h
      obtain ⟨_, t₂, hload, _, _, rfl, rfl, rfl⟩ := h
      obtain ⟨bytes', fuel', t₁, args, hres, hload', rfl⟩ := ih hload
      refine ⟨bytes', fuel', t₁, word :: words ++ args,
        .script hfile helf hscript hwords hres, hload', ?_⟩
      simp only [List.append_assoc]
    | blank hfile helf hscript hwords =>
      rcases hwords with hwords | hwords <;> simp [hfile, helf, hscript, hwords] at h
    | format hfile helf hscript =>
      simp only [hfile, helf, hscript, Bool.false_eq_true, if_false, Comp.pure_eq_ok] at h
      exact absurd h.1 (by decide)

/-- The ELF file behind a path is loaded if it can be. -/
theorem loadImage_of_loadable {host : Host} {path : Str} {bytes : List UInt8} {depth : Nat}
    {t : Task} (h : Resolves host path (.ok bytes))
    (hload : Loadable host depth
      (Task.request { t with loadData2 := none } (imageHandle bytes) (imageHdr bytes) false)) :
    ∃ n, ∀ fuel, n ≤ fuel → ∃ t', loadImage host fuel path false t = .ok 0#32 t' := by
  generalize hres : Except.ok bytes = res at h
  induction h with
  | missing => cases hres
  | format => cases hres
  | elf hfile helf =>
    cases hres
    refine ⟨depth + 1, fun fuel hfuel ↦ ?_⟩
    obtain ⟨fuel, rfl⟩ := Nat.exists_eq_add_of_le' hfuel
    obtain ⟨t', ht'⟩ := exists_eq_zero_of_loadable (loadable_mono (by omega) hload :
      Loadable host (fuel + depth) _)
    refine ⟨t', ?_⟩
    rw [← Nat.add_assoc, loadImage]
    simp only [hfile, helf, if_true, Comp.bind_eq_ok, Comp.modify_eq_ok]
    exact ⟨⟨⟩, _, rfl, ht'⟩
  | script hfile helf hscript hwords _ ih =>
    obtain ⟨n, hn⟩ := ih hres
    refine ⟨n + 1, fun fuel hfuel ↦ ?_⟩
    obtain ⟨fuel, rfl⟩ := Nat.exists_eq_add_of_le' hfuel
    obtain ⟨t', ht'⟩ := hn (fuel + n) (by omega)
    rw [← Nat.add_assoc, loadImage]
    simp only [hfile, helf, hscript, hwords, Bool.false_eq_true, if_false, if_true,
      Comp.bind_eq_ok, Comp.modify_eq_ok, Comp.pure_eq_ok]
    exact ⟨_, _, _, ht', ⟨⟩, _, rfl, rfl, rfl⟩

/-! ## Entry points -/

/-- The address is the entry point of the image or of its interpreter. -/
def EntryPoint (host : Host) (r : Request) (a : DWORD) : Prop :=
  a = r.start ∨
    ∃ name bytes, r.interpreterName host = some name ∧ name ≠ [] ∧
      host.createFile name = .ok bytes ∧ a = (r.ofInterpreter host bytes).start

/-- An image loaded into fresh load data starts at one of its entry points. -/
theorem entryPoint_of_loaded {host : Host} {fuel : Nat} {hImg : Handle} {hdr : Elf32Hdr}
    {t t' : Task} (hmember : t.loadData2 = none) (hfresh : t.elfLoadData.interpreterStart = 0#32)
    (h : loadElfImage host fuel hImg hdr false t = .ok 0#32 t') :
    EntryPoint host (t.request hImg hdr false) t'.elfLoadData.withStart.interpreterStart := by
  have hstart := (loaded_of_eq_zero h).2.start
  have hmember' : t'.loadData2.isSome = false := by
    rw [(loaded_of_eq_zero h).2.loadData2, hmember]
    rfl
  have hdata : t'.pElfLoadData = t'.elfLoadData := by
    rw [Task.pElfLoadData, Option.isSome_eq_false_iff.mp hmember' |> Option.isNone_iff_eq_none.mp]
    rfl
  rw [hdata] at hstart
  unfold ElfLoadData.withStart
  split
  · exact .inl hstart
  · next hset =>
    cases fuel with
    | zero => exact absurd h Comp.wait_ne_ok
    | succ fuel =>
      have hdone := roundsDone_afterRounds host hImg hdr false t
      obtain ⟨-, -, -, hend⟩ := (loadElfImage_eq_zero ..).mp h
      rcases hend with ⟨hname, rfl⟩ | ⟨name, bytes, t₂, hname, hne, hibcs, hfile, hload, rfl⟩
      · -- without interpreter the field has kept its zero
        have hkept := hdone.interpreterStart
        rw [hdata] at hkept
        refine absurd (hkept.trans ?_) hset
        rw [Task.pElfLoadData, hmember]
        exact hfresh
      · have hinner := (loaded_of_eq_zero hload).2.start
        rw [request_enterInterpreter hdone] at hinner
        exact .inr ⟨name, bytes, hname, hne, hfile, hinner⟩

/-! ## The parts that cannot fail -/

/-- The process once its old image is gone. -/
def Task.freed (host : Host) (t : Task) : Task :=
  { t.released host with
    world := { (t.released host).world with
      cur := (t.released host).world.cur.initSignalHandling
      trace := .signalsReset :: t.world.trace }
    elfLoadData := {} }

theorem freeResourcesBeforeExec_eq_ok (host : Host) (t t' : Task) :
    freeResourcesBeforeExec host t = .ok () t' ↔ t.mmapList = [] ∧ t' = t.freed host := by
  by_cases hmaps : t.mmapList = []
  · have hrun : freeResourcesBeforeExec host t = .ok () (t.freed host) := by
      simp only [freeResourcesBeforeExec, Comp.bind_eq_ok, Comp.get_eq_ok]
      refine ⟨_, _, ⟨rfl, rfl⟩, ?_⟩
      rw [if_neg (by simpa using hmaps)]
      rfl
    rw [hrun]
    simp [hmaps, eq_comm]
  · simp only [freeResourcesBeforeExec, Comp.bind_eq_ok, Comp.get_eq_ok, hmaps, false_and,
      iff_false]
    rintro ⟨_, _, ⟨rfl, rfl⟩, hrun⟩
    simp [hmaps] at hrun

/-- `CONTEXT_FULL` replaces the integer and control registers. -/
theorem merge_of_full {ctx : Context} (h : ctx.contextFlags = Context.CONTEXT_FULL)
    (old : Context) : (ctx.merge old).eip = ctx.eip ∧ (ctx.merge old).eax = ctx.eax := by
  have hcontrol : Context.CONTEXT_FULL.getLsbD 0 = true := by decide
  have hinteger : Context.CONTEXT_FULL.getLsbD 1 = true := by decide
  simp only [Context.merge, h, hcontrol, hinteger, if_true, and_self]

/-- The new image is started at `interpreter_start`. -/
theorem exists_startNewImageRunning (host : Host) (t : Task) :
    ∃ t', startNewImageRunning host t = .ok () t' ∧
      t'.world.threadCtx.eip = t.elfLoadData.withStart.interpreterStart ∧
      t'.world.threadCtx.eax = 0#32 := by
  obtain ⟨pArgs, pEnv, t₁, hrun, hdata⟩ : ∃ pArgs pEnv t₁,
      startNewImageRunning host t = .ok () (Task.started pArgs pEnv t₁) ∧
      t₁.elfLoadData = t.elfLoadData.withStart := ⟨_, _, _, rfl, rfl⟩
  have hmerge := @merge_of_full (startContext t₁) rfl t₁.world.threadCtx
  refine ⟨_, hrun, hmerge.1.trans ?_, hmerge.2⟩
  exact congrArg ElfLoadData.interpreterStart hdata

end Keow.Exec
