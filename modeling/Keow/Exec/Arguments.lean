import Keow.Exec.Script
import Keow.Memory.StringList

/-!
# The arguments of a script

`Process::LoadImage` (`Process.cpp:862–944`) with the kernel memory where the arguments lie until
the image starts. A script puts the words of its line in front of the arguments when its
interpreter has been loaded, so that in a chain of scripts the words of the first come first.
-/

namespace Keow.Exec

open Keow.Base Keow.Kernel Keow.Paths
open Keow.Memory (StringHost Memories Accessible Granted Remote blockSize Copied
  copyStringListBetweenProcesses copied_copyStringList)

/-- What loading scripts relies on besides. -/
structure LoadHost extends StringHost where
  image : Host
  /-- `operator new` in the kernel, after the blocks it has given so far: where a block of this
  size lies. -/
  new : List Nat → Nat → DWORD

/-- A process whose image is being loaded, with its arguments in the memory of the kernel. The
list in `task` is not used. -/
structure Loader where
  memories : Memories Unit
  heap : List Nat := []
  arguments : DWORD
  argCnt : DWORD
  task : Task

/-- A computation on the memory of the kernel. -/
def onKernel {α : Type} (x : Comp (Memories Unit) α) : Comp Loader α :=
  Comp.zoom Loader.memories (fun m l ↦ { l with memories := m }) x

/-- A computation on the process. -/
def onTask {α : Type} (x : X α) : Comp Loader α :=
  Comp.zoom Loader.task (fun t l ↦ { l with task := t }) x

/-- The strings of `arglist`, each with the address that its `c_str` returns. They are parsed
before the interpreter is loaded, and are values until their addresses are asked for. -/
def placeStrings (host : LoadHost) : List Nat → List Str → List (DWORD × Str)
  | _, [] => []
  | heap, s :: ss =>
      (host.new heap (s.length + 1), s) :: placeStrings host (heap ++ [s.length + 1]) ss

/-- The size of `pTmpAddr`. -/
def tableSize (argCnt : DWORD) (count : Nat) : Nat :=
  (4#32 * (argCnt + BitVec.ofNat 32 count + 1#32)).toNat

/-- The words and the list of pointers that are made for the copy: the pointers to the words, and
behind them the original pointers plus the null. -/
def Loader.tabulated (host : LoadHost) (words : List Str) (l : Loader) : DWORD × Loader :=
  let strings := placeStrings host l.heap words
  let heap := l.heap ++ words.map (·.length + 1)
  let size := tableSize l.argCnt words.length
  let pTmpAddr := host.new heap size
  let mem := (l.memories.process ()).mem.writeStrings strings
  (pTmpAddr, { l with
    heap := heap ++ [size]
    memories := l.memories.setMem () (mem.writeTable pTmpAddr (strings.map Prod.fst) l.arguments
      (4#32 * (l.argCnt + 1#32)).toNat) })

/-- Put words in front of the arguments, `Process.cpp:914–934`. -/
def prependWords (host : LoadHost) (turns : Nat) (words : List Str) : Comp Loader Unit := do
  let l ← Comp.get
  Comp.modify fun l ↦ (l.tabulated host words).2
  let list ← onKernel (copyStringListBetweenProcesses host.toStringHost ()
    (l.tabulated host words).1 () none turns)
  Comp.modify fun l ↦ { l with arguments := list.addr, argCnt := list.count }

/-- `Process::LoadImage`, arguments in memory. -/
def Loader.loadImage (host : LoadHost) (turns : Nat) : Nat → Str → Bool → Comp Loader DWORD
  | 0, _, _ => Comp.wait
  | fuel + 1, path, library =>
      match host.image.createFile path with
      | .error err => return err
      | .ok bytes =>
          if isElf (headerBuffer bytes) then onTask do
            Comp.modify (fun t ↦ { t with loadData2 := none })
            loadElfImage host.image fuel (imageHandle bytes) (imageHdr bytes) library
          else if isScript (headerBuffer bytes) then
            match scriptWords (headerBuffer bytes) with
            | some (word :: words) => do
                let rc ← Loader.loadImage host turns fuel word false
                prependWords host turns (word :: words)
                return rc
            | _ => Comp.fault
          else return ERROR_BAD_FORMAT

/-! ## Prepending -/

/-- The argument list in the memory of the kernel. -/
structure HoldsArguments (l : Loader) (args : List Str) : Prop where
  array : (l.memories.process ()).mem.IsStringArray l.arguments args
  count : l.argCnt.toNat = args.length

/-- It can be read there. -/
structure Readable (l : Loader) (args : List Str) : Prop extends HoldsArguments l args where
  read : ∀ r ∈ (l.memories.process ()).mem.arrayRanges l.arguments args,
    Accessible .read (l.memories.process ()).space r.1 r.2

/-- The heap gives blocks for the words and the list of pointers, apart from each other and from
the arguments, and Windows a block for the copy. -/
structure Room (host : LoadHost) (l : Loader) (words args : List Str) (p : DWORD) (s : Space) :
    Prop where
  spare : (l.memories.process ()).mem.Spare (l.tabulated host words).1
    (placeStrings host l.heap words) l.arguments args
  read : ∀ r ∈ Mem.tableBlocks (l.tabulated host words).1 (placeStrings host l.heap words)
    args.length, Accessible .read (l.memories.process ()).space r.1 r.2
  granted : Granted host.toHost (l.memories.process ()).space (blockSize (words ++ args)) p s

/-- Nothing at zero is accessible. -/
theorem ne_zero_of_accessible {rw : Memory.ReadWrite} {s : Space} {a : DWORD} {n : Nat}
    (h : Accessible rw s a n) (hn : 0 < n) : a ≠ 0#32 := by
  rintro rfl
  have hle := Space.le_of_committed (h.committed (Nat.le_refl _) (Nat.lt_add_of_pos_right hn))
  exact absurd hle (by decide)

theorem map_snd_placeStrings (host : LoadHost) (heap : List Nat) (ss : List Str) :
    (placeStrings host heap ss).map Prod.snd = ss := by
  induction ss generalizing heap with
  | nil => rfl
  | cons s ss ih => rw [placeStrings, List.map_cons, ih]

theorem length_placeStrings (host : LoadHost) (heap : List Nat) (ss : List Str) :
    (placeStrings host heap ss).length = ss.length := by
  rw [← List.length_map (f := Prod.snd), map_snd_placeStrings]

/-- What the memory of the kernel becomes. -/
theorem process_tabulated (host : LoadHost) (l : Loader) (words : List Str) :
    (l.tabulated host words).2.memories.process () =
      (l.memories.process ()).setMem (((l.memories.process ()).mem.writeStrings
        (placeStrings host l.heap words)).writeTable (l.tabulated host words).1
          ((placeStrings host l.heap words).map Prod.fst) l.arguments
          (4#32 * (l.argCnt + 1#32)).toNat) :=
  Function.update_self () _ l.memories.process

section Prepend

variable {host : LoadHost} {l : Loader} {words args : List Str} {p : DWORD} {s : Space}

/-- The list that is made for the copy says the words and the arguments. -/
theorem Readable.tabulated (h : Readable l args) (hwords : ∀ w ∈ words, 0 ∉ w)
    (hroom : Room host l words args p s) :
    let l' := (l.tabulated host words).2
    let pTmpAddr := (l.tabulated host words).1
    (l'.memories.process ()).mem.IsStringArray pTmpAddr (words ++ args) ∧
      ∀ r ∈ (l'.memories.process ()).mem.arrayRanges pTmpAddr (words ++ args),
        Accessible .read (l'.memories.process ()).space r.1 r.2 := by
  have hlen := length_placeStrings host l.heap words
  have hle := hroom.granted.write.add_le (Memory.blockSize_pos _)
  have hfits := hroom.spare.table_fits
  unfold blockSize userPages at hle
  rw [List.length_append] at hle
  have hsize : (4#32 * (l.argCnt + 1#32)).toNat = 4 * (args.length + 1) := by
    have hcount := h.count
    simp only [BitVec.toNat_mul, BitVec.toNat_add, BitVec.toNat_ofNat, hcount]
    omega
  have htable : Accessible .read (l.memories.process ()).space (l.tabulated host words).1
      (4 * ((placeStrings host l.heap words).length + args.length + 1)) :=
    hroom.read _ List.mem_cons_self
  have hstring : ∀ e ∈ placeStrings host l.heap words,
      Accessible .read (l.memories.process ()).space e.1 (e.2.length + 1) :=
    fun e he ↦ hroom.read _ (List.mem_cons_of_mem _ (List.mem_map_of_mem he))
  have hlonger := hroom.spare.isStringArray
    (P := fun r ↦ Accessible .read (l.memories.process ()).space r.1 r.2) ?_ ?_ h.array ?_ ?_ h.read
  · rw [map_snd_placeStrings] at hlonger
    dsimp only
    rw [process_tabulated, hsize]
    exact hlonger
  · intro e he
    refine hwords e.2 ?_
    rw [← map_snd_placeStrings host l.heap words]
    exact List.mem_map_of_mem he
  · intro e he
    exact ne_zero_of_accessible (hstring e he) (Nat.succ_pos _)
  · intro i hi
    have hoff : ((l.tabulated host words).1 + BitVec.ofNat 32 (4 * i)).toNat =
        (l.tabulated host words).1.toNat + 4 * i := Mem.toNat_add_ofNat (by omega)
    show Accessible .read _ ((l.tabulated host words).1 + BitVec.ofNat 32 (4 * i)) 4
    exact htable.sub (by omega) (by omega)
  · exact hstring

/-- Prepending puts the words in front and does nothing else. -/
theorem Readable.prependWords (h : Readable l args) (hwords : ∀ w ∈ words, 0 ∉ w)
    (hroom : Room host l words args p s) {turns : Nat}
    (hturns : blockSize (words ++ args) ≤ turns) :
    ∃ l', prependWords host turns words l = .ok () l' ∧ Readable l' (words ++ args) ∧
      l'.task = l.task := by
  obtain ⟨harray, hread⟩ := h.tabulated hwords hroom
  have hspace : ((l.tabulated host words).2.memories.process ()).space =
      (l.memories.process ()).space := by
    rw [process_tabulated, Memory.Remote.space_setMem]
  have hnull : (l.tabulated host words).1 ≠ 0#32 := by
    refine ne_zero_of_accessible (hroom.read _ List.mem_cons_self) ?_
    exact Nat.mul_pos (by decide) (Nat.succ_pos _)
  obtain ⟨m', hrun, hcopied⟩ := @copied_copyStringList Unit _ (l.tabulated host words).2.memories
    () () p s (words ++ args) host.toStringHost (l.tabulated host words).1 none
    (by rwa [Memory.IsStringList, if_neg hnull]) (by rwa [Memory.listRanges, if_neg hnull])
    (by rw [hspace]; exact hroom.granted.call) hroom.granted.ok hroom.granted.write turns hturns
  have hle := hroom.granted.write.add_le (Memory.blockSize_pos _)
  unfold blockSize userPages at hle
  let put (m : Memories Unit) (l : Loader) : Loader := { l with memories := m }
  have hcopy := Comp.zoom_of_ok Loader.memories put hrun
  refine ⟨{ put m' (l.tabulated host words).2 with
    arguments := p, argCnt := BitVec.ofNat 32 (words ++ args).length }, ?_, ⟨⟨?_, ?_⟩, ?_⟩, rfl⟩
  · exact (Comp.bind_of_ok hcopy _).trans rfl
  · exact hcopied.array
  · show (BitVec.ofNat 32 (words ++ args).length).toNat = _
    rw [BitVec.toNat_ofNat, Nat.mod_eq_of_lt (by omega)]
  · intro r hr
    obtain ⟨hlow, hhigh⟩ := hcopied.inside r hr
    show Accessible .read (m'.process ()).space r.1 r.2
    rw [hcopied.space]
    exact hroom.granted.read.sub hlow hhigh

end Prepend

/-! ## The words of a line -/

/-- The words are made of the characters of the line. -/
theorem mem_of_mem_parseCommandLine {st : ParseState} {cs w : Str} {c : UInt8}
    (hw : w ∈ parseCommandLine st cs) (hc : c ∈ w) :
    c ∈ cs ∨ ∃ a inQuote, st = .argument a inQuote ∧ c ∈ a := by
  fun_induction parseCommandLine st cs with grind

theorem zero_notMem_scriptWords {buf : List UInt8} {words : List Str}
    (h : scriptWords buf = some words) : ∀ w ∈ words, 0 ∉ w := by
  by_cases hterminated : Terminated buf
  · rw [scriptWords_of_terminated hterminated] at h
    intro w hw hzero
    rw [← Option.some.inj h] at hw
    rcases mem_of_mem_parseCommandLine hw hzero with hline | ⟨_, _, hst, -⟩
    · exact not_mem_interpreterLine buf ((List.dropWhile_sublist _).subset hline)
    · cases hst
  · rw [scriptWords_of_not_terminated hterminated] at h
    cases h

/-! ## Chains of scripts -/

/-- From a path, through scripts whose lines have these words, to the ELF file that is the
interpreter of the last. -/
inductive ScriptChain (host : Host) : Str → List (List Str) → List UInt8 → Prop
  | elf {path : Str} {bytes : List UInt8} (hfile : host.createFile path = .ok bytes)
      (helf : isElf (headerBuffer bytes) = true) : ScriptChain host path [] bytes
  | script {path word : Str} {bytes image : List UInt8} {words : List Str} {rest : List (List Str)}
      (hfile : host.createFile path = .ok bytes)
      (hscript : isScript (headerBuffer bytes) = true)
      (hwords : scriptWords (headerBuffer bytes) = some (word :: words))
      (hrest : ScriptChain host word rest image) :
      ScriptChain host path ((word :: words) :: rest) image

/-- There is room whenever words are put in front of the arguments. -/
def HasRoom (host : LoadHost) (turns : Nat) : List (List Str) → List Str → Loader → Prop
  | [], _, _ => True
  | words :: rest, args, l =>
      blockSize (words ++ args) ≤ turns ∧ (∃ p s, Room host l words args p s) ∧
        ∀ l', prependWords host turns words l = .ok () l' →
          HasRoom host turns rest (words ++ args) l'

/-- The words of the first script of a chain come first. -/
theorem loadImage_chain {host : LoadHost} {turns fuel : Nat} {path : Str} (library : Bool)
    {ws : List (List Str)} (more : List (List Str)) {image : List UInt8} {l : Loader}
    {args : List Str} {rc : DWORD} {t : Task} (hchain : ScriptChain host.image path ws image)
    (h : Readable l args)
    (helf : loadElfImage host.image fuel (imageHandle image) (imageHdr image)
      (ws.isEmpty && library) { l.task with loadData2 := none } = .ok rc t)
    (hroom : HasRoom host turns (ws.reverse ++ more) args { l with task := t }) :
    ∃ l', Loader.loadImage host turns (fuel + 1 + ws.length) path library l = .ok rc l' ∧
      Readable l' (ws.flatten ++ args) ∧ l'.task = t ∧
      HasRoom host turns more (ws.flatten ++ args) l' := by
  induction hchain generalizing library more with
  | elf hfile hmagic =>
    let put (t : Task) (l : Loader) : Loader := { l with task := t }
    have hload : (do
        Comp.modify (fun t ↦ { t with loadData2 := none })
        loadElfImage host.image fuel (imageHandle _) (imageHdr _) library : X DWORD) l.task =
          .ok rc t := helf
    refine ⟨put t l, ?_, ⟨⟨h.array, h.count⟩, h.read⟩, rfl, hroom⟩
    rw [List.length_nil, Nat.add_zero, Loader.loadImage]
    simp only [hfile, hmagic, if_true]
    exact Comp.zoom_of_ok Loader.task put hload
  | @script path word bytes image words rest hfile hscript hwords hrest ih =>
    rw [List.reverse_cons, List.append_assoc] at hroom
    obtain ⟨l₁, hrun, hholds, htask, hturns, ⟨p, s, hhere⟩, hlater⟩ :=
      ih false ((word :: words) :: more) (by rwa [Bool.and_false]) hroom
    obtain ⟨l', hprepend, hholds', htask'⟩ :=
      hholds.prependWords (zero_notMem_scriptWords hwords) hhere hturns
    rw [List.flatten_cons, List.append_assoc]
    refine ⟨l', ?_, hholds', htask'.trans htask, hlater l' hprepend⟩
    rw [List.length_cons, ← Nat.add_assoc, Loader.loadImage]
    simp only [hfile, isElf_of_isScript hscript, hscript, hwords, Bool.false_eq_true, if_false,
      if_true]
    rw [Comp.bind_of_ok hrun, Comp.bind_of_ok hprepend]
    rfl

/-- The words of a chain in the list of the process, as `LoadImage` is modelled without memory. -/
theorem loadImage_words {host : Host} {fuel : Nat} {path : Str} (library : Bool)
    {ws : List (List Str)} {image : List UInt8} {rc : DWORD} {t₀ t : Task}
    (hchain : ScriptChain host path ws image)
    (helf : loadElfImage host fuel (imageHandle image) (imageHdr image) (ws.isEmpty && library)
      { t₀ with loadData2 := none } = .ok rc t) :
    Exec.loadImage host (fuel + 1 + ws.length) path library t₀ =
      .ok rc { t with arguments := ws.flatten ++ t.arguments } := by
  induction hchain generalizing library with
  | elf hfile hmagic =>
    rw [List.length_nil, Nat.add_zero, Exec.loadImage]
    simp only [hfile, hmagic, if_true]
    exact helf
  | @script path word bytes image words rest hfile hscript hwords hrest ih =>
    have hrun := ih false (by rwa [Bool.and_false])
    rw [List.length_cons, ← Nat.add_assoc, loadImage_script hfile hscript, hwords]
    dsimp only
    rw [Comp.bind_of_ok hrun, List.flatten_cons]
    simp only [List.append_assoc]
    rfl

/-- The kernel memory holds the list that the model without memory ends with. -/
theorem loadImage_simulates {host : LoadHost} {turns fuel : Nat} {path : Str} (library : Bool)
    {ws : List (List Str)} {image : List UInt8} {l : Loader} {rc : DWORD} {t : Task}
    (hchain : ScriptChain host.image path ws image) (h : Readable l t.arguments)
    (helf : loadElfImage host.image fuel (imageHandle image) (imageHdr image)
      (ws.isEmpty && library) { l.task with loadData2 := none } = .ok rc t)
    (hroom : HasRoom host turns ws.reverse t.arguments { l with task := t }) :
    ∃ l' t', Loader.loadImage host turns (fuel + 1 + ws.length) path library l = .ok rc l' ∧
      Exec.loadImage host.image (fuel + 1 + ws.length) path library l.task = .ok rc t' ∧
      Readable l' t'.arguments := by
  obtain ⟨l', hrun, hholds, -⟩ := loadImage_chain library [] hchain h helf
    (by rwa [List.append_nil])
  exact ⟨l', _, hrun, loadImage_words library hchain helf, hholds⟩

/-- What the arguments of the process are is one list. -/
theorem HoldsArguments.unique {l : Loader} {args args' : List Str} (h : HoldsArguments l args)
    (h' : HoldsArguments l args') : args = args' :=
  h.array.unique h'.array

/-- After a chain of scripts is loaded, the words of the innermost come first if and only if the
two orders of the words agree. -/
theorem innermostFirst_iff {host : LoadHost} {turns fuel : Nat} {path : Str} (library : Bool)
    {ws : List (List Str)} {image : List UInt8} {l : Loader} {args : List Str} {rc : DWORD}
    {t : Task} (hchain : ScriptChain host.image path ws image) (hne : ws ≠ [])
    (h : Readable l args)
    (helf : loadElfImage host.image fuel (imageHandle image) (imageHdr image) false
      { l.task with loadData2 := none } = .ok rc t)
    (hroom : HasRoom host turns ws.reverse args { l with task := t }) :
    ∃ l', Loader.loadImage host turns (fuel + 1 + ws.length) path library l = .ok rc l' ∧
      (HoldsArguments l' (ws.reverse.flatten ++ args) ↔ ws.reverse.flatten = ws.flatten) := by
  have hlibrary : (ws.isEmpty && library) = false := by
    rw [List.isEmpty_eq_false_iff.mpr hne, Bool.false_and]
  obtain ⟨l', hrun, hholds, -⟩ :=
    loadImage_chain library [] hchain h (by rwa [hlibrary]) (by rwa [List.append_nil])
  refine ⟨l', hrun, fun hclaim ↦ ?_, fun heq ↦ ?_⟩
  · exact List.append_cancel_right (hclaim.unique hholds.toHoldsArguments)
  · rw [heq]
    exact hholds.toHoldsArguments

/-! ## Two scripts and a program -/

/-- There is room for these words, as far as the kernel can tell. -/
def hasRoom (host : LoadHost) (turns : Nat) : List (List Str) → List Str → Loader → Bool
  | [], _, _ => true
  | words :: rest, args, l =>
      let mem := (l.memories.process ()).mem
      let space := (l.memories.process ()).space
      let blocks := Mem.tableBlocks (l.tabulated host words).1 (placeStrings host l.heap words)
        args.length
      decide (blockSize (words ++ args) ≤ turns) &&
        decide (∀ r ∈ blocks, r.1.toNat + r.2 ≤ 2 ^ 32) && decide (blocks.Pairwise Mem.Apart) &&
        decide (∀ r ∈ mem.arrayRanges l.arguments args, r.1.toNat + r.2 ≤ 2 ^ 32 ∧
          ∀ b ∈ blocks, Mem.Apart r b) &&
        decide (∀ r ∈ blocks, Accessible .read space r.1 r.2) &&
        Memory.grants host.toHost (blockSize (words ++ args)) (fun _ ↦ true) space &&
        match prependWords host turns words l with
        | .ok _ l' => hasRoom host turns rest (words ++ args) l'
        | _ => true

theorem hasRoom_of_eq_true {host : LoadHost} {turns : Nat} {ws : List (List Str)}
    {args : List Str} {l : Loader} (h : hasRoom host turns ws args l = true) :
    HasRoom host turns ws args l := by
  induction ws generalizing args l with
  | nil => trivial
  | cons words rest ih =>
    simp only [hasRoom, Bool.and_eq_true, decide_eq_true_eq] at h
    obtain ⟨⟨⟨⟨⟨⟨hturns, hfits⟩, hapart⟩, hlive⟩, hread⟩, hgrants⟩, hrest⟩ := h
    obtain ⟨p, s, hgranted, -⟩ := Memory.exists_granted hgrants
    refine ⟨hturns, ⟨p, s, ⟨?_, ?_, ?_⟩, hread, hgranted⟩, fun l' hl' ↦ ?_⟩
    · rwa [Mem.tableBlocks] at hfits
    · exact hapart
    · exact hlive
    · rw [hl'] at hrest
      exact ih hrest

/-- `/a` is a script for `/b x`, which is a script for the program `/c`. -/
def chainFiles (path : Str) : Option (List UInt8) :=
  if path = ascii "/a" then some (ascii "#!/b x\n")
  else if path = ascii "/b" then some (ascii "#!/c\n")
  else if path = ascii "/c" then some (twoSegments nextPage)
  else none

/-- A heap that grows upwards. -/
def chainHost : LoadHost :=
  ⟨Memory.easyHost, freeHost chainFiles, fun heap _ ↦ 0x08049100#32 + BitVec.ofNat 32 heap.sum⟩

/-- The program when it has been loaded. -/
def loadedProgram : Task :=
  match loadElfImage chainHost.image 1 (imageHandle (twoSegments nextPage))
    (imageHdr (twoSegments nextPage)) false freshTask with
  | .ok _ t => t
  | _ => freshTask

/-- A process that is called `sh`. -/
def shLoader (t : Task) : Loader :=
  { memories := Memory.lonely Memory.shArray
    arguments := 0x08048000#32
    argCnt := 1#32
    task := t }

theorem loadElfImage_program : loadElfImage chainHost.image 1 (imageHandle (twoSegments nextPage))
    (imageHdr (twoSegments nextPage)) false freshTask = .ok 0#32 loadedProgram := by
  have hloadable : Loadable chainHost.image 1 (freshTask.request
      (imageHandle (twoSegments nextPage)) (imageHdr (twoSegments nextPage)) false) := by
    refine ⟨?_, ?_, ?_, .inl ?_⟩ <;> decide +kernel
  obtain ⟨t', hload⟩ := exists_eq_zero_of_loadable hloadable
  rw [loadedProgram, hload]

theorem readable_shLoader : Readable (shLoader freshTask) [ascii "sh"] := by
  have hlist := Memory.isStringList_shArray
  rw [Memory.IsStringList, if_neg (by decide)] at hlist
  exact ⟨⟨hlist, rfl⟩, Memory.readable_shArray⟩

theorem scriptChain_b :
    ScriptChain chainHost.image (ascii "/b") [[ascii "/c"]] (twoSegments nextPage) := by
  refine .script rfl ?_ ?_ (.elf rfl ?_) <;> decide +kernel

/-- With one script there is one order. -/
theorem innermostFirst_iff_b :
    ∃ l', Loader.loadImage chainHost 64 3 (ascii "/b") false (shLoader freshTask) =
        .ok 0#32 l' ∧ HoldsArguments l' [ascii "/c", ascii "sh"] := by
  have hroom : HasRoom chainHost 64 [[ascii "/c"]] [ascii "sh"] (shLoader loadedProgram) :=
    hasRoom_of_eq_true (by decide +kernel)
  obtain ⟨l', hrun, hiff⟩ := innermostFirst_iff false scriptChain_b (by decide)
    readable_shLoader loadElfImage_program hroom
  exact ⟨l', hrun, hiff.mpr rfl⟩

/-- With two scripts, the words of the first come before those of its interpreter. -/
theorem not_innermostFirst_a :
    ScriptChain chainHost.image (ascii "/a") [[ascii "/b", ascii "x"], [ascii "/c"]]
      (twoSegments nextPage) ∧ HoldsArguments (shLoader freshTask) [ascii "sh"] ∧
    ∃ l', Loader.loadImage chainHost 64 4 (ascii "/a") false (shLoader freshTask) =
        .ok 0#32 l' ∧
      HoldsArguments l' [ascii "/b", ascii "x", ascii "/c", ascii "sh"] ∧
      ¬HoldsArguments l' [ascii "/c", ascii "/b", ascii "x", ascii "sh"] := by
  have hchain : ScriptChain chainHost.image (ascii "/a")
      [[ascii "/b", ascii "x"], [ascii "/c"]] (twoSegments nextPage) := by
    refine .script rfl ?_ ?_ scriptChain_b <;> decide +kernel
  have hroom : HasRoom chainHost 64 [[ascii "/c"], [ascii "/b", ascii "x"]] [ascii "sh"]
      (shLoader loadedProgram) := hasRoom_of_eq_true (by decide +kernel)
  obtain ⟨l', hrun, hholds, -⟩ :=
    loadImage_chain false [] hchain readable_shLoader loadElfImage_program hroom
  have harguments := hholds.toHoldsArguments
  refine ⟨hchain, readable_shLoader.toHoldsArguments, l', hrun, harguments, fun hclaim ↦ ?_⟩
  exact absurd (hclaim.unique harguments) (by decide)

end Keow.Exec
