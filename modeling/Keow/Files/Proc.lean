import Keow.Files.Duplicate
import Keow.Files.GenericStatic
import Keow.Files.Handler
import Keow.Memory.StringList

/-!
# The proc file system

`FilesystemProc`: the patterns it registers and the routines behind them, which turn a name into a
process and follow its fields. A process that is not in the table, a null pointer and a missing
parameter are faults. Texts that only print numbers of the kernel and of Windows are given.
-/

namespace Keow.Files.Proc

open Keow.Base Keow.Kernel Keow.Memory Keow.Files.GenericStatic
open Keow.Paths (Str slash Path MountTable)

/-- An open file, as far as `Duplicate` looks at it: its class, `m_pInProcess`, and for an `IOHFile`
the search in its directory. -/
structure OpenHandler where
  kind : HandlerKind
  inProcess : Nat
  directory : Directory
  search : FindState

/-- The fields of a `Process` that the routines read. `suspendCount` is what `SuspendThread` returns
for its kernel thread, unless it fails. -/
structure ProcessObject where
  pid : DWORD
  unixPwd : Path
  processFileImage : Path
  arguments : DWORD
  environment : DWORD
  openFiles : Nat → Option OpenHandler
  suspendCount : Option Nat

/-- The kernel as the kernel thread of `P` finds it: the addresses in `m_Processes`, in order, the
objects there, and the mounts. `P` is registered as long as its thread runs, and so is the process
on whose thread an open file has been made. -/
structure ProcKernel where
  processes : List Nat
  object : Nat → ProcessObject
  P : Nat
  mounts : MountTable
  P_mem : P ∈ processes
  inProcess_mem : ∀ pp ∈ processes, ∀ fd h, (object pp).openFiles fd = some h →
    h.inProcess ∈ processes

/-- What a call finds on the kernel's stack, how Windows reads the memory of a process, and whether
the compiler hands over the result of `ReadString` without a copy. -/
structure Frame where
  copier : Copier
  str : DWORD
  buf : DWORD
  elidesCopy : Bool
  nFindCount : DWORD
  tmp : List UInt8
  length_tmp : tmp.length = sizeofDirent64

/-- The texts that are printed from numbers and from the mounts. -/
structure Texts where
  memInfo : Str
  cpuInfo : Str
  uptime : Str
  stat : Str
  mounts : Str
  processStat : Nat → Bool → Str
  processStatus : Nat → Bool → Str

/-- The handler that `CreateIOHandler` returns. -/
inductive Opened where
  | file (refreshable : Bool) (data : Str)
  | directory (entries : List StaticEntry)
  | duplicate (handler : OpenHandler)

/-- Computations on the memories of the processes, which are known by their addresses. -/
abbrev M := Comp (Memories Nat)

/-! ## Processes by name -/

def isSpace (b : UInt8) : Bool := b = 0x20 ∨ (0x09 ≤ b ∧ b ≤ 0x0D)

def isDigit (b : UInt8) : Bool := 0x30 ≤ b ∧ b ≤ 0x39

/-- The value of the digits in front, as an `int` that wraps around. -/
def digits (s : Str) : DWORD :=
  (s.takeWhile isDigit).foldl (fun n b ↦ 10#32 * n + BitVec.ofNat 32 (b.toNat - 0x30)) 0#32

/-- `atoi`. -/
def atoi (s : Str) : DWORD :=
  match s.dropWhile isSpace with
  | 0x2D :: s => -digits s
  | 0x2B :: s => digits s
  | s => digits s

/-- `"%d"`. -/
def decimal (n : Int) : Str := (toString n).toList.map Char.toUInt8

/-- `"self"`. -/
def self : Str := [0x73, 0x65, 0x6C, 0x66]

namespace ProcKernel

/-- `KernelTable::FindProcess`, `KernelTable.cpp:92–104`. -/
def findProcess (k : ProcKernel) (pid : DWORD) : Option Nat :=
  k.processes.find? fun pp ↦ (k.object pp).pid = pid

/-- `PidStrToProcess`, `FilesystemProc.cpp:68–80`. -/
def pidStrToProcess (k : ProcKernel) (pid : Str) : Option Nat :=
  if pid = self then some k.P else k.findProcess (atoi pid)

/-- A process is used. -/
def process (k : ProcKernel) (pp : Nat) : M ProcessObject :=
  if pp ∈ k.processes then return k.object pp else Comp.fault

/-! ## Listers -/

/-- An entry as both listers fill it in. -/
def entry (name : Str) : StaticEntry where
  dIno := 0
  dType := 0
  dName := name

/-- The loop of `GetPids` over the processes that are left. -/
def listPids (k : ProcKernel) : List Nat → M (List StaticEntry)
  | [] => return []
  | pp :: rest => do
      let p ← k.process pp
      let entries ← k.listPids rest
      return entry (decimal p.pid.toInt) :: entries

/-- `GetPids`, `FilesystemProc.cpp:130–151`. -/
def getPids (k : ProcKernel) : M (List StaticEntry) := do
  let entries ← k.listPids k.processes
  return entry self :: entries

/-- `GetOpenFiles`, `FilesystemProc.cpp:153–174`. -/
def getOpenFiles (k : ProcKernel) (pid : Str) : M (List StaticEntry) :=
  match k.pidStrToProcess pid with
  | none => return []
  | some pp => do
      let p ← k.process pp
      return ((List.range MAX_OPEN_FILES).filter fun i ↦ (p.openFiles i).isSome).map
        fun i ↦ entry (decimal i)

/-! ## Files -/

/-- What the routines for a process begin with. -/
def forPid (k : ProcKernel) (pid : Str) (body : Nat → M (Option Opened)) : M (Option Opened) :=
  match k.pidStrToProcess pid with
  | none => return none
  | some pp => body pp

/-- `while(str!=0)`, `FilesystemProc.cpp:320–327` and `361–368`: what is added to the data, with the
entry that is read next. A `string` without a character has no buffer before it is copied, and
`AddData` takes the length of what it is given. -/
def addStrings (frame : Frame) (pp : Nat) (turns : Nat) : Nat → DWORD → Str → M Str
  | 0, _, _ => Comp.wait
  | n + 1, strArrayEntry, data => do
      Comp.modify (·.readMemory frame.copier frame.str pp strArrayEntry 4)
      let m ← Comp.get
      let str := m.kernel.word frame.str
      if str = 0#32 then return data
      else do
        let text ← readString frame.copier frame.buf pp turns str []
        if frame.elidesCopy ∧ text = [] then Comp.fault
        else addStrings frame pp turns n (strArrayEntry + 4#32) (data ++ text ++ [0])

/-- The body that `Get_Pid_Cmdline` and `Get_Pid_Environ` share. -/
def getStrings (k : ProcKernel) (frame : Frame) (turns : Nat) (strArray : ProcessObject → DWORD)
    (pid : Str) : M (Option Opened) :=
  k.forPid pid fun pp ↦ do
    let p ← k.process pp
    let data ← addStrings frame pp turns turns (strArray p) []
    return some (.file false (data ++ [0]))

/-- `Get_Pid_Cmdline`, `FilesystemProc.cpp:305–331`. -/
def getPidCmdline (k : ProcKernel) (frame : Frame) (turns : Nat) : Str → M (Option Opened) :=
  k.getStrings frame turns ProcessObject.arguments

/-- `Get_Pid_Environ`, `FilesystemProc.cpp:346–372`. -/
def getPidEnviron (k : ProcKernel) (frame : Frame) (turns : Nat) : Str → M (Option Opened) :=
  k.getStrings frame turns ProcessObject.environment

/-- The body of the files that print the path of a process. -/
def getPath (k : ProcKernel) (refreshable : Bool) (shown : ProcessObject → Path) (pid : Str) :
    M (Option Opened) :=
  k.forPid pid fun pp ↦ do
    let p ← k.process pp
    return some (.file refreshable ((shown p).getUnixPath k.mounts))

/-- `Get_Pid_Cwd`, `FilesystemProc.cpp:333–344`. -/
def getPidCwd (k : ProcKernel) : Str → M (Option Opened) := k.getPath true ProcessObject.unixPwd

/-- `Get_Pid_Exe`, `FilesystemProc.cpp:374–385`. -/
def getPidExe (k : ProcKernel) : Str → M (Option Opened) :=
  k.getPath false ProcessObject.processFileImage

/-- `Process::IsSuspended`, `Process.cpp:2203–2224`. The thread that is suspended for the question
may be the one that asks, and then does not go on. -/
def isSuspended (k : ProcKernel) (pp : Nat) : M Bool := do
  let p ← k.process pp
  if pp = k.P then Comp.wait
  else
    match p.suspendCount with
    | none => return false
    | some cnt => return decide (0 < cnt)

/-- The body of the files that print the state of a process. -/
def getState (k : ProcKernel) (text : Nat → Bool → Str) (pid : Str) : M (Option Opened) :=
  k.forPid pid fun pp ↦ do
    let suspended ← k.isSuspended pp
    return some (.file true (text pp suspended))

/-- `Get_Pid_Stat`, `FilesystemProc.cpp:402–464`. -/
def getPidStat (k : ProcKernel) (texts : Texts) : Str → M (Option Opened) :=
  k.getState texts.processStat

/-- `Get_Pid_Status`, `FilesystemProc.cpp:496–524`. -/
def getPidStatus (k : ProcKernel) (texts : Texts) : Str → M (Option Opened) :=
  k.getState texts.processStatus

/-- `Get_Pid_Statm`, `FilesystemProc.cpp:466–494`: `"2 1 0 1 0 0 0"` and a line feed. -/
def getPidStatm (k : ProcKernel) (pid : Str) : M (Option Opened) :=
  k.forPid pid fun pp ↦ do
    let _ ← k.process pp
    return some (.file true
      [0x32, 0x20, 0x31, 0x20, 0x30, 0x20, 0x31, 0x20, 0x30, 0x20, 0x30, 0x20, 0x30, 0x0A])

/-- `Duplicate`: `IOHFile.cpp:48–71` with its loop, `IOHPipe.cpp:46–55`, and the others, which only
construct a new handler. All are made on the thread of `P`. -/
def duplicate (k : ProcKernel) (frame : Frame) (turns : Nat) (h : OpenHandler) : M Opened :=
  match h.kind with
  | .file => do
      let _ ← k.process h.inProcess
      match h.directory.duplicate h.search frame.nFindCount frame.tmp turns with
      | none => Comp.wait
      | some search => return .duplicate { h with inProcess := k.P, search := search }
  | .pipe => do
      let _ ← k.process h.inProcess
      return .duplicate { h with inProcess := k.P }
  | _ => return .duplicate { h with inProcess := k.P }

/-- `Get_Pid_Fd`, `FilesystemProc.cpp:528–538`. -/
def getPidFd (k : ProcKernel) (frame : Frame) (turns : Nat) (pid strFd : Str) :
    M (Option Opened) :=
  k.forPid pid fun pp ↦
    let fd := (atoi strFd).toInt
    if fd < 0 ∨ (MAX_OPEN_FILES : Int) ≤ fd then return none
    else do
      let p ← k.process pp
      match p.openFiles fd.toNat with
      | none => Comp.fault
      | some h => do
          let copy ← k.duplicate frame turns h
          return some copy

end ProcKernel

/-! ## What is registered -/

/-- The routines for files. -/
inductive ProcFile where
  | getMemInfo
  | getCpuInfo
  | getUptime
  | getStat
  | getMounts
  | getLoadAvg
  | getPidCmdline
  | getPidCwd
  | getPidEnviron
  | getPidExe
  | getPidFd
  | getPidMaps
  | getPidMem
  | getPidRoot
  | getPidStat
  | getPidStatm
  | getPidStatus
deriving DecidableEq

/-- The routines that list. -/
inductive ProcLister where
  | getPids
  | getOpenFiles
deriving DecidableEq

/-- The parameters of a routine behind the path. -/
def ProcFile.arity : ProcFile → Nat
  | getMemInfo | getCpuInfo | getUptime | getStat | getMounts | getLoadAvg => 0
  | getPidFd => 2
  | _ => 1

def ProcLister.arity : ProcLister → Nat
  | getPids => 0
  | getOpenFiles => 1

/-- The call of a routine. `Get_Pid_Maps`, `Get_Pid_Mem` and `Get_Pid_Root` return `NULL`,
`FilesystemProc.cpp:387–400`. -/
def ProcFile.call (k : ProcKernel) (frame : Frame) (texts : Texts) (turns : Nat) :
    ProcFile → List Str → M (Option Opened)
  | getMemInfo, [] => return some (.file true texts.memInfo)
  | getCpuInfo, [] => return some (.file true texts.cpuInfo)
  | getUptime, [] => return some (.file true texts.uptime)
  | getStat, [] => return some (.file true texts.stat)
  | getMounts, [] => return some (.file true texts.mounts)
  | getLoadAvg, [] => return some (.file true [0x31, 0x20, 0x31, 0x20, 0x31, 0x0A])
  | getPidCmdline, [pid] => k.getPidCmdline frame turns pid
  | getPidCwd, [pid] => k.getPidCwd pid
  | getPidEnviron, [pid] => k.getPidEnviron frame turns pid
  | getPidExe, [pid] => k.getPidExe pid
  | getPidFd, [pid, strFd] => k.getPidFd frame turns pid strFd
  | getPidMaps, [_] | getPidMem, [_] | getPidRoot, [_] => return none
  | getPidStat, [pid] => k.getPidStat texts pid
  | getPidStatm, [pid] => k.getPidStatm pid
  | getPidStatus, [pid] => k.getPidStatus texts pid
  | _, _ => Comp.fault

def ProcLister.call (k : ProcKernel) : ProcLister → List Str → M (List StaticEntry)
  | getPids, [] => k.getPids
  | getOpenFiles, [pid] => k.getOpenFiles pid
  | _, _ => Comp.fault

/-! The names in the patterns, `FilesystemProc.cpp:37–61`. -/

def meminfoName : Str := [0x6D, 0x65, 0x6D, 0x69, 0x6E, 0x66, 0x6F]

def cpuinfoName : Str := [0x63, 0x70, 0x75, 0x69, 0x6E, 0x66, 0x6F]

def uptimeName : Str := [0x75, 0x70, 0x74, 0x69, 0x6D, 0x65]

def statName : Str := [0x73, 0x74, 0x61, 0x74]

def mountsName : Str := [0x6D, 0x6F, 0x75, 0x6E, 0x74, 0x73]

def loadavgName : Str := [0x6C, 0x6F, 0x61, 0x64, 0x61, 0x76, 0x67]

def cmdlineName : Str := [0x63, 0x6D, 0x64, 0x6C, 0x69, 0x6E, 0x65]

def cwdName : Str := [0x63, 0x77, 0x64]

def environName : Str := [0x65, 0x6E, 0x76, 0x69, 0x72, 0x6F, 0x6E]

def exeName : Str := [0x65, 0x78, 0x65]

def fdName : Str := [0x66, 0x64]

def mapsName : Str := [0x6D, 0x61, 0x70, 0x73]

def memName : Str := [0x6D, 0x65, 0x6D]

def rootName : Str := [0x72, 0x6F, 0x6F, 0x74]

def statmName : Str := [0x73, 0x74, 0x61, 0x74, 0x6D]

def statusName : Str := [0x73, 0x74, 0x61, 0x74, 0x75, 0x73]

/-- A file right below the root. -/
def rootFile (t : MountTable) (unixPwd : Path) (name : Str) (file : ProcFile) :
    Registration ProcFile ProcLister :=
  .addFile (ofString t unixPwd (slash :: name)) 0 file

/-- A file in the directory of a process. -/
def pidFile (t : MountTable) (unixPwd : Path) (name : Str) (file : ProcFile) :
    Registration ProcFile ProcLister :=
  .addFile (ofString t unixPwd (slash :: asterisk ++ slash :: name)) 1 file

/-- The constructor, `FilesystemProc.cpp:37–61`. -/
def registrations (t : MountTable) (unixPwd : Path) : List (Registration ProcFile ProcLister) :=
  [.addLister (ofString t unixPwd [slash]) 0 .getPids,
    .addLister (ofString t unixPwd (slash :: asterisk ++ slash :: fdName ++ [slash])) 1
      .getOpenFiles,
    rootFile t unixPwd meminfoName .getMemInfo,
    rootFile t unixPwd cpuinfoName .getCpuInfo,
    rootFile t unixPwd uptimeName .getUptime,
    rootFile t unixPwd statName .getStat,
    rootFile t unixPwd mountsName .getMounts,
    rootFile t unixPwd loadavgName .getLoadAvg,
    pidFile t unixPwd cmdlineName .getPidCmdline,
    pidFile t unixPwd cwdName .getPidCwd,
    pidFile t unixPwd environName .getPidEnviron,
    pidFile t unixPwd exeName .getPidExe,
    .addFile (ofString t unixPwd (slash :: asterisk ++ slash :: fdName ++ slash :: asterisk)) 2
      .getPidFd,
    pidFile t unixPwd mapsName .getPidMaps,
    pidFile t unixPwd memName .getPidMem,
    pidFile t unixPwd rootName .getPidRoot,
    pidFile t unixPwd statName .getPidStat,
    pidFile t unixPwd statmName .getPidStatm,
    pidFile t unixPwd statusName .getPidStatus]

/-- `CreateIOHandler` of the file system with this tree, and the call that it comes to. -/
def ProcKernel.createIOHandler (k : ProcKernel) (frame : Frame) (texts : Texts)
    (root : PathMappingNode ProcFile ProcLister) (turns : Nat) (path : Path) : M (Option Opened) :=
  match GenericStatic.createIOHandler k.mounts (k.object k.P).unixPwd root path with
  | .null => return none
  | .fault => Comp.fault
  | .handled file params => file.call k frame texts turns params
  | .directory children none => return some (.directory children)
  | .directory children (some (lister, params)) => do
      let entries ← lister.call k params
      return some (.directory (children ++ entries))

section Patterns

variable (t : MountTable) (unixPwd : Path)

/-- An absolute path has the elements that its string has, wherever it is made. -/
theorem elements_ofString (s : Str) :
    (ofString t unixPwd (slash :: s)).pathStack.elements = Paths.appendPath [] (slash :: s) := rfl

/-- What decides whether registrations are well formed. -/
def shape (r : Registration ProcFile ProcLister) : Bool × Nat × List Str :=
  (r.isFile, r.wildcards, r.elements)

def shapes : List (Bool × Nat × List Str) :=
  [(false, 0, []), (false, 1, [asterisk, fdName])] ++
    [meminfoName, cpuinfoName, uptimeName, statName, mountsName, loadavgName].map
      (fun name ↦ (true, 0, [name])) ++
    [cmdlineName, cwdName, environName, exeName].map (fun name ↦ (true, 1, [asterisk, name])) ++
    [(true, 2, [asterisk, fdName, asterisk])] ++
    [mapsName, memName, rootName, statName, statmName, statusName].map
      fun name ↦ (true, 1, [asterisk, name])

theorem shape_registrations : (registrations t unixPwd).map shape = shapes := by
  simp only [registrations, rootFile, pidFile, List.map_cons, List.map_nil, shape,
    Registration.elements, Registration.isFile, Registration.wildcards, List.cons_append,
    elements_ofString]
  decide

theorem shape_mem {r : Registration ProcFile ProcLister} (hr : r ∈ registrations t unixPwd) :
    shape r ∈ shapes := by
  rw [← shape_registrations t unixPwd]
  exact List.mem_map_of_mem hr

theorem wellFormed_registrations : WellFormed (registrations t unixPwd) := by
  constructor
  · intro r hr
    have harity : ∀ s ∈ shapes, s.2.1 = s.2.2.count asterisk := by decide
    exact harity _ (shape_mem t unixPwd hr)
  · have hapart : shapes.Pairwise fun a b ↦
        (a.1 → ¬a.2.2 <+: b.2.2) ∧ (b.1 → ¬b.2.2 <+: a.2.2) := by decide
    rw [← shape_registrations t unixPwd, List.pairwise_map] at hapart
    exact hapart

end Patterns

/-! ## Strings that end -/

section Strings

variable (frame : Frame) (pp : Nat)

/-- A string whose blocks, as they are read one after the other, come to a NUL: the text behind what
has been read before, and the memories after that. -/
inductive StringEnds : DWORD → Str → Memories Nat → Str → Memories Nat → Prop where
  | here {addr : DWORD} {text : Str} {m : Memories Nat}
      (h : 0 ∈ m.blockBytes frame.copier frame.buf pp addr) :
      StringEnds addr text m
        (text ++ (m.blockBytes frame.copier frame.buf pp addr).takeWhile (· != 0))
        (m.readBlock frame.copier frame.buf pp addr)
  | next {addr : DWORD} {text s : Str} {m m' : Memories Nat}
      (h : 0 ∉ m.blockBytes frame.copier frame.buf pp addr)
      (hnext : StringEnds (addr + toNext4k addr)
        (text ++ m.blockBytes frame.copier frame.buf pp addr)
        (m.readBlock frame.copier frame.buf pp addr) s m') :
      StringEnds addr text m s m'

/-- What is in the variable `str` once the entry at an address has been read. -/
def readEntry (strArrayEntry : DWORD) (m : Memories Nat) : Memories Nat :=
  m.readMemory frame.copier frame.str pp strArrayEntry 4

/-- A list whose entries, as they are read one after the other, come to a null pointer, behind
strings that end, and that are not empty where there is no buffer for an empty one. -/
inductive ListEnds : DWORD → Memories Nat → Prop where
  | done {strArrayEntry : DWORD} {m : Memories Nat}
      (h : (readEntry frame pp strArrayEntry m).kernel.word frame.str = 0#32) :
      ListEnds strArrayEntry m
  | next {strArrayEntry : DWORD} {m m' : Memories Nat} {text : Str}
      (h : (readEntry frame pp strArrayEntry m).kernel.word frame.str ≠ 0#32)
      (hstring : StringEnds frame pp ((readEntry frame pp strArrayEntry m).kernel.word frame.str) []
        (readEntry frame pp strArrayEntry m) text m')
      (hbuffer : ¬(frame.elidesCopy ∧ text = []))
      (hnext : ListEnds (strArrayEntry + 4#32) m') :
      ListEnds strArrayEntry m

variable {frame pp}

/-- A string that ends is read in as many turns as it takes, or more. -/
theorem exists_turns_of_stringEnds {addr : DWORD} {text s : Str} {m m' : Memories Nat}
    (h : StringEnds frame pp addr text m s m') :
    ∃ n, ∀ turns, n ≤ turns →
      readString frame.copier frame.buf pp turns addr text m = .ok s m' := by
  induction h with
  | here h =>
    refine ⟨1, fun turns hle ↦ ?_⟩
    obtain ⟨turns, rfl⟩ := Nat.exists_eq_add_of_le' hle
    rw [readString_succ, if_pos h]
  | next h _ ih =>
    obtain ⟨n, hn⟩ := ih
    refine ⟨n + 1, fun turns hle ↦ ?_⟩
    obtain ⟨turns, rfl⟩ := Nat.exists_eq_add_of_le' hle
    rw [← Nat.add_assoc, readString_succ, if_neg h]
    exact hn _ (Nat.le_add_left n turns)

theorem stringEnds_of_readString {turns : Nat} {addr : DWORD} {text s : Str} {m m' : Memories Nat}
    (h : readString frame.copier frame.buf pp turns addr text m = .ok s m') :
    StringEnds frame pp addr text m s m' := by
  induction turns generalizing addr text m with
  | zero => exact absurd h Comp.wait_ne_ok
  | succ turns ih =>
    rw [readString_succ] at h
    split at h
    · next hnul =>
      cases h
      exact .here hnul
    · next hnul => exact .next hnul (ih h)

theorem addStrings_succ (turns n : Nat) (strArrayEntry : DWORD) (data : Str) (m : Memories Nat) :
    ProcKernel.addStrings frame pp turns (n + 1) strArrayEntry data m =
      if (readEntry frame pp strArrayEntry m).kernel.word frame.str = 0#32 then
        .ok data (readEntry frame pp strArrayEntry m)
      else
        (readString frame.copier frame.buf pp turns
            ((readEntry frame pp strArrayEntry m).kernel.word frame.str) [] >>= fun text ↦
          if frame.elidesCopy ∧ text = [] then Comp.fault
          else ProcKernel.addStrings frame pp turns n (strArrayEntry + 4#32) (data ++ text ++ [0]))
          (readEntry frame pp strArrayEntry m) := by
  have hentry : Comp.modify (Memories.readMemory frame.copier frame.str pp strArrayEntry 4) m =
      .ok ⟨⟩ (readEntry frame pp strArrayEntry m) := rfl
  rw [ProcKernel.addStrings, Comp.bind_of_ok hentry, Comp.get_bind]
  split
  · rfl
  · rfl

/-- A list that ends is read in as many turns as it takes, or more. -/
theorem exists_turns_of_listEnds {strArrayEntry : DWORD} {m : Memories Nat}
    (h : ListEnds frame pp strArrayEntry m) :
    ∃ k, ∀ turns n data, k ≤ turns → k ≤ n →
      ∃ data' m', ProcKernel.addStrings frame pp turns n strArrayEntry data m = .ok data' m' := by
  induction h with
  | done h =>
    refine ⟨1, fun turns n data _ hle ↦ ?_⟩
    obtain ⟨n, rfl⟩ := Nat.exists_eq_add_of_le' hle
    rw [addStrings_succ, if_pos h]
    exact ⟨_, _, rfl⟩
  | next h hstring hbuffer _ ih =>
    obtain ⟨kString, hkString⟩ := exists_turns_of_stringEnds hstring
    obtain ⟨k, hk⟩ := ih
    refine ⟨max kString k + 1, fun turns n data hturns hle ↦ ?_⟩
    obtain ⟨n, rfl⟩ := Nat.exists_eq_add_of_le' hle
    rw [← Nat.add_assoc, addStrings_succ, if_neg h,
      Comp.bind_of_ok (hkString turns (by omega)), if_neg hbuffer]
    exact hk turns _ _ (by omega) (by omega)

theorem listEnds_of_addStrings {turns n : Nat} {strArrayEntry : DWORD} {data data' : Str}
    {m m' : Memories Nat}
    (h : ProcKernel.addStrings frame pp turns n strArrayEntry data m = .ok data' m') :
    ListEnds frame pp strArrayEntry m := by
  induction n generalizing strArrayEntry data m with
  | zero => exact absurd h Comp.wait_ne_ok
  | succ n ih =>
    rw [addStrings_succ] at h
    split at h
    · next hnull => exact .done hnull
    · next hnull =>
      obtain ⟨text, m₁, hstring, hrest⟩ := Comp.bind_eq_ok.mp h
      split at hrest
      · exact absurd hrest Comp.fault_ne_ok
      · next hbuffer =>
        exact .next hnull (stringEnds_of_readString hstring) hbuffer (ih hrest)

/-- So does every array of strings that can be read, if the empty ones have a buffer. -/
theorem listEnds_of_isStringArray {m : Memories Nat} {a : DWORD} {ss : List Str}
    (harray : (m.process pp).mem.IsStringArray a ss)
    (hread : ∀ r ∈ (m.process pp).mem.arrayRanges a ss,
      Accessible .read (m.process pp).space r.1 r.2)
    (hbuffer : frame.elidesCopy → [] ∉ ss) : ListEnds frame pp a m := by
  induction ss generalizing m a with
  | nil =>
    have hword : Accessible .read (m.process pp).space a 4 := hread (a, 4) List.mem_cons_self
    exact .done ((Memories.word_readMemory frame.copier hword frame.str).trans harray)
  | cons s ss ih =>
    obtain ⟨hne, hs, hrest⟩ := harray
    simp only [Mem.arrayRanges, List.forall_mem_cons] at hread
    obtain ⟨hword, hstring, hread⟩ := hread
    have hentry := Memories.word_readMemory frame.copier hword frame.str
    obtain ⟨m₁, hrun, hsame⟩ := readString_eq frame.copier frame.buf
      (m := readEntry frame pp a m) hs hstring (Nat.lt_succ_self s.length) []
    have hprocess : m₁.process pp = m.process pp := congrFun hsame.1 pp
    rw [← hentry] at hne hrun
    refine .next hne (stringEnds_of_readString hrun) ?_ ?_
    · rintro ⟨helides, rfl⟩
      exact hbuffer helides List.mem_cons_self
    · apply ih
      · rwa [hprocess]
      · rwa [hprocess]
      · exact fun helides hmem ↦ hbuffer helides (List.mem_cons_of_mem s hmem)

end Strings

/-! ## Which calls return -/

/-- Some number of turns is enough to return. -/
def Returns {α : Type} (x : Nat → M α) (m : Memories Nat) : Prop :=
  ∃ turns a m', x turns m = .ok a m'

/-- `Duplicate` does not wait for a search to catch up. -/
def OpenHandler.Duplicates (h : OpenHandler) : Prop :=
  h.kind = .file → h.search.hFindData = none ∨ h.search.nFindCount.toInt ≤ 0

/-- What a routine needs: a list of strings that ends, another process than the one that asks, an
open file behind a number that is in range. -/
def ProcFile.Fits (k : ProcKernel) (frame : Frame) (m : Memories Nat) :
    ProcFile → List Str → Prop
  | getPidCmdline, [pid] => ∀ pp, k.pidStrToProcess pid = some pp →
      ListEnds frame pp (k.object pp).arguments m
  | getPidEnviron, [pid] => ∀ pp, k.pidStrToProcess pid = some pp →
      ListEnds frame pp (k.object pp).environment m
  | getPidStat, [pid] | getPidStatus, [pid] => k.pidStrToProcess pid ≠ some k.P
  | getPidFd, [pid, strFd] => ∀ pp, k.pidStrToProcess pid = some pp →
      0 ≤ (atoi strFd).toInt → (atoi strFd).toInt < MAX_OPEN_FILES →
        ∃ h, (k.object pp).openFiles (atoi strFd).toInt.toNat = some h ∧ h.Duplicates
  | _, _ => True

section Routines

variable {k : ProcKernel} {frame : Frame} {m : Memories Nat}

theorem mem_of_pidStrToProcess {pid : Str} {pp : Nat} (h : k.pidStrToProcess pid = some pp) :
    pp ∈ k.processes := by
  rw [ProcKernel.pidStrToProcess] at h
  split at h
  · cases h
    exact k.P_mem
  · exact List.mem_of_find?_eq_some h

theorem process_eq {pp : Nat} (h : pp ∈ k.processes) :
    k.process pp m = .ok (k.object pp) m := by
  rw [ProcKernel.process, if_pos h]
  rfl

/-- A routine for a process returns `NULL` without one, and else what its body returns. -/
theorem returns_forPid {pid : Str} {body : Nat → Nat → M (Option Opened)} :
    Returns (fun turns ↦ k.forPid pid (body turns)) m ↔
      ∀ pp, k.pidStrToProcess pid = some pp → Returns (fun turns ↦ body turns pp) m := by
  simp only [ProcKernel.forPid]
  cases k.pidStrToProcess pid with
  | none =>
    constructor
    · rintro - pp h
      cases h
    · exact fun _ ↦ ⟨0, none, m, rfl⟩
  | some pp =>
    constructor
    · rintro h pp' heq
      cases heq
      exact h
    · exact fun h ↦ h pp rfl

/-- What uses a process in the table goes on with its fields. -/
theorem returns_process {α : Type} {pp : Nat} (hpp : pp ∈ k.processes)
    {body : Nat → ProcessObject → M α} :
    Returns (fun turns ↦ k.process pp >>= body turns) m ↔
      Returns (fun turns ↦ body turns (k.object pp)) m := by
  simp only [Returns, Comp.bind_of_ok (process_eq hpp)]

/-- What only remains is to wrap a value up. -/
theorem returns_map {α β : Type} {x : Nat → M α} {f : α → β} :
    Returns (fun turns ↦ x turns >>= fun a ↦ pure (f a)) m ↔ Returns x m := by
  constructor
  · rintro ⟨turns, b, m', h⟩
    obtain ⟨a, m₁, hx, -⟩ := Comp.bind_eq_ok.mp h
    exact ⟨turns, a, m₁, hx⟩
  · rintro ⟨turns, a, m', hx⟩
    exact ⟨turns, f a, m', Comp.bind_of_ok hx _⟩

theorem returns_pure {α : Type} (a : α) : Returns (fun _ ↦ (pure a : M α)) m := ⟨0, a, m, rfl⟩

theorem returns_getStrings {strArray : ProcessObject → DWORD} {pid : Str} :
    Returns (fun turns ↦ k.getStrings frame turns strArray pid) m ↔
      ∀ pp, k.pidStrToProcess pid = some pp →
        ListEnds frame pp (strArray (k.object pp)) m := by
  simp only [ProcKernel.getStrings]
  rw [returns_forPid]
  apply forall₂_congr
  intro pp hpp
  rw [returns_process (mem_of_pidStrToProcess hpp), returns_map]
  constructor
  · rintro ⟨turns, data, m', h⟩
    exact listEnds_of_addStrings h
  · intro h
    obtain ⟨n, hn⟩ := exists_turns_of_listEnds h
    obtain ⟨data, m', hrun⟩ := hn n n [] (Nat.le_refl n) (Nat.le_refl n)
    exact ⟨n, data, m', hrun⟩

/-- The question whether a thread is suspended is answered to other threads. -/
theorem returns_isSuspended {pp : Nat} (hpp : pp ∈ k.processes) :
    Returns (fun _ ↦ k.isSuspended pp) m ↔ pp ≠ k.P := by
  simp only [ProcKernel.isSuspended]
  rw [returns_process hpp]
  split
  · next heq =>
    constructor
    · rintro ⟨turns, a, m', h⟩
      exact absurd h Comp.wait_ne_ok
    · exact fun hne ↦ absurd heq hne
  · next hne =>
    constructor
    · exact fun _ ↦ hne
    · intro _
      cases (k.object pp).suspendCount with
      | none => exact returns_pure _
      | some cnt => exact returns_pure _

theorem returns_getState {text : Nat → Bool → Str} {pid : Str} :
    Returns (fun _ ↦ k.getState text pid) m ↔ k.pidStrToProcess pid ≠ some k.P := by
  simp only [ProcKernel.getState]
  rw [returns_forPid]
  constructor
  · intro h hself
    have hreturns := h k.P hself
    rw [returns_map, returns_isSuspended k.P_mem] at hreturns
    exact hreturns rfl
  · intro hother pp hpp
    rw [returns_map, returns_isSuspended (mem_of_pidStrToProcess hpp)]
    rintro rfl
    exact hother hpp

theorem returns_getPath {refreshable : Bool} {shown : ProcessObject → Path} {pid : Str} :
    Returns (fun _ ↦ k.getPath refreshable shown pid) m := by
  simp only [ProcKernel.getPath]
  rw [returns_forPid]
  intro pp hpp
  rw [returns_process (mem_of_pidStrToProcess hpp)]
  exact returns_pure _

theorem returns_getPidStatm {pid : Str} : Returns (fun _ ↦ k.getPidStatm pid) m := by
  simp only [ProcKernel.getPidStatm]
  rw [returns_forPid]
  intro pp hpp
  rw [returns_process (mem_of_pidStrToProcess hpp)]
  exact returns_pure _

theorem returns_duplicate {h : OpenHandler} (hin : h.inProcess ∈ k.processes) :
    Returns (fun turns ↦ k.duplicate frame turns h) m ↔ h.Duplicates := by
  obtain ⟨kind, inProcess, directory, search⟩ := h
  cases kind with
  | file =>
    have hdirectory := directory.exists_duplicate_iff search frame.nFindCount frame.length_tmp
    simp only [ProcKernel.duplicate]
    rw [returns_process hin, OpenHandler.Duplicates, forall_prop_of_true rfl, ← hdirectory]
    constructor
    · rintro ⟨turns, copy, m', h⟩
      cases hrun : directory.duplicate search frame.nFindCount frame.tmp turns with
      | none =>
        simp only [hrun] at h
        exact absurd h Comp.wait_ne_ok
      | some copy => exact ⟨turns, copy, hrun⟩
    · rintro ⟨turns, copy, hrun⟩
      use turns
      simp only [hrun]
      exact ⟨_, m, rfl⟩
  | pipe =>
    simp only [ProcKernel.duplicate]
    rw [returns_process hin]
    constructor
    · rintro - hfile
      cases hfile
    · exact fun _ ↦ returns_pure _
  | ntConsole | null | random | staticData =>
    constructor
    · rintro - hfile
      cases hfile
    · exact fun _ ↦ returns_pure _

theorem returns_getPidFd {pid strFd : Str} :
    Returns (fun turns ↦ k.getPidFd frame turns pid strFd) m ↔
      ProcFile.Fits k frame m .getPidFd [pid, strFd] := by
  simp only [ProcKernel.getPidFd]
  rw [returns_forPid]
  apply forall₂_congr
  intro pp hpp
  have hmem := mem_of_pidStrToProcess hpp
  generalize (atoi strFd).toInt = fd
  by_cases hrange : fd < 0 ∨ (MAX_OPEN_FILES : Int) ≤ fd
  · simp only [if_pos hrange]
    constructor
    · intro _ hlow hhigh
      omega
    · exact fun _ ↦ returns_pure _
  · simp only [if_neg hrange]
    rw [returns_process hmem]
    have hin : 0 ≤ fd ∧ fd < MAX_OPEN_FILES := by omega
    rw [forall_prop_of_true hin.1, forall_prop_of_true hin.2]
    cases hslot : (k.object pp).openFiles fd.toNat with
    | none =>
      constructor
      · rintro ⟨turns, a, m', h⟩
        exact absurd h Comp.fault_ne_ok
      · rintro ⟨h, heq, -⟩
        cases heq
    | some h =>
      rw [returns_map, returns_duplicate (k.inProcess_mem pp hmem _ h hslot)]
      constructor
      · exact fun hcopy ↦ ⟨h, rfl, hcopy⟩
      · rintro ⟨h', heq, hcopy⟩
        cases heq
        exact hcopy

theorem listPids_eq {pps : List Nat} (h : ∀ pp ∈ pps, pp ∈ k.processes) :
    k.listPids pps m =
      .ok (pps.map fun pp ↦ ProcKernel.entry (decimal (k.object pp).pid.toInt)) m := by
  induction pps with
  | nil => rfl
  | cons pp pps ih =>
    rw [ProcKernel.listPids, Comp.bind_of_ok (process_eq (h pp List.mem_cons_self)),
      Comp.bind_of_ok (ih fun pp' hpp' ↦ h pp' (List.mem_cons_of_mem pp hpp'))]
    rfl

/-- Listers return. -/
theorem exists_call_lister {lister : ProcLister} {params : List Str}
    (harity : params.length = lister.arity) :
    ∃ entries, lister.call k params m = .ok entries m := by
  cases lister with
  | getPids =>
    obtain rfl := List.length_eq_zero_iff.mp harity
    exact ⟨_, Comp.bind_of_ok (listPids_eq fun _ h ↦ h) _⟩
  | getOpenFiles =>
    obtain ⟨pid, rfl⟩ := List.length_eq_one_iff.mp harity
    rw [ProcLister.call, ProcKernel.getOpenFiles]
    cases hpid : k.pidStrToProcess pid with
    | none => exact ⟨_, rfl⟩
    | some pp => exact ⟨_, Comp.bind_of_ok (process_eq (mem_of_pidStrToProcess hpid)) _⟩

/-- A routine for files returns exactly if it has what it needs. -/
theorem returns_call (texts : Texts) {file : ProcFile} {params : List Str}
    (harity : params.length = file.arity) :
    Returns (fun turns ↦ file.call k frame texts turns params) m ↔ file.Fits k frame m params := by
  cases file with
  | getMemInfo | getCpuInfo | getUptime | getStat | getMounts | getLoadAvg =>
    obtain rfl := List.length_eq_zero_iff.mp harity
    exact iff_of_true (returns_pure _) trivial
  | getPidMaps | getPidMem | getPidRoot =>
    obtain ⟨pid, rfl⟩ := List.length_eq_one_iff.mp harity
    exact iff_of_true (returns_pure _) trivial
  | getPidCmdline | getPidEnviron =>
    obtain ⟨pid, rfl⟩ := List.length_eq_one_iff.mp harity
    exact returns_getStrings
  | getPidCwd | getPidExe =>
    obtain ⟨pid, rfl⟩ := List.length_eq_one_iff.mp harity
    exact iff_of_true returns_getPath trivial
  | getPidStat | getPidStatus =>
    obtain ⟨pid, rfl⟩ := List.length_eq_one_iff.mp harity
    exact returns_getState
  | getPidStatm =>
    obtain ⟨pid, rfl⟩ := List.length_eq_one_iff.mp harity
    exact iff_of_true returns_getPidStatm trivial
  | getPidFd =>
    obtain ⟨pid, strFd, rfl⟩ := List.length_eq_two.mp harity
    exact returns_getPidFd

end Routines

/-! ## Opening a path -/

section Open

variable (t : MountTable) (unixPwd : Path)

/-- The routine of a registration takes as many parameters as it is registered with. -/
def HasArity : Registration ProcFile ProcLister → Prop
  | .addFile _ wildcards file => (wildcards : Nat) = file.arity
  | .addLister _ wildcards lister => (wildcards : Nat) = lister.arity

theorem hasArity_registrations : ∀ r ∈ registrations t unixPwd, HasArity r := by
  simp [registrations, rootFile, pidFile, HasArity, ProcFile.arity, ProcLister.arity]

theorem no_root_file : ∀ r ∈ registrations t unixPwd, r.isFile → r.elements ≠ [] := by
  intro r hr
  have hroot : ∀ s ∈ shapes, s.1 → s.2.2 ≠ [] := by decide
  exact hroot _ (shape_mem t unixPwd hr)

variable {k : ProcKernel} {frame : Frame} {texts : Texts} {m : Memories Nat} {path : Path}

/-- A path that comes to a file can be opened if and only if its routine has what it needs. -/
theorem returns_of_reaches {file : ProcFile} {params : List Str}
    (h : Reaches (registrations t unixPwd)
      (fsPath k.mounts (k.object k.P).unixPwd path).pathStack.elements file params) :
    Returns (fun turns ↦ k.createIOHandler frame texts
        (pathMappingRoot (registrations t unixPwd)) turns path) m ↔ file.Fits k frame m params := by
  have hformed := wellFormed_registrations t unixPwd
  have houtcome := openPath_of_reaches hformed (no_root_file t unixPwd) h
  obtain ⟨p, n, hmem, hlength⟩ := h.arity hformed.arity
  have harity : params.length = file.arity :=
    hlength.trans (hasArity_registrations t unixPwd _ hmem)
  rw [← returns_call texts harity]
  simp only [ProcKernel.createIOHandler, GenericStatic.createIOHandler, houtcome]

/-- A path that comes to no file can be opened. -/
theorem returns_of_not_reaches
    (h : ∀ file params, ¬Reaches (registrations t unixPwd)
      (fsPath k.mounts (k.object k.P).unixPwd path).pathStack.elements file params) :
    Returns (fun turns ↦ k.createIOHandler frame texts
        (pathMappingRoot (registrations t unixPwd)) turns path) m := by
  have hne : registrations t unixPwd ≠ [] := List.cons_ne_nil _ _
  rcases openPath_cases (wellFormed_registrations t unixPwd) (no_root_file t unixPwd) hne
    (fsPath k.mounts (k.object k.P).unixPwd path) with
    ⟨file, params, hreaches⟩ | hnull | ⟨children, hdirectory⟩ |
      ⟨children, lister, params, p, n, hdirectory, hmem, hlength⟩
  · exact absurd hreaches (h file params)
  · simp only [ProcKernel.createIOHandler, GenericStatic.createIOHandler, hnull]
    exact returns_pure _
  · simp only [ProcKernel.createIOHandler, GenericStatic.createIOHandler, hdirectory]
    exact returns_pure _
  · have harity : params.length = lister.arity :=
      hlength.trans (hasArity_registrations t unixPwd _ hmem)
    obtain ⟨entries, hcall⟩ := exists_call_lister (k := k) (m := m) harity
    simp only [ProcKernel.createIOHandler, GenericStatic.createIOHandler, hdirectory]
    exact ⟨0, _, m, Comp.bind_of_ok hcall _⟩

variable (k frame texts m path)

/-- A path in the file system can be opened, without a fault and without waiting for ever, if and
only if the routine of the file that it comes to has what it needs. -/
theorem returns_createIOHandler_iff :
    Returns (fun turns ↦ k.createIOHandler frame texts
        (pathMappingRoot (registrations t unixPwd)) turns path) m ↔
      ∀ file params, Reaches (registrations t unixPwd)
        (fsPath k.mounts (k.object k.P).unixPwd path).pathStack.elements file params →
          file.Fits k frame m params := by
  constructor
  · intro h file params hreaches
    exact (returns_of_reaches t unixPwd hreaches).mp h
  · intro h
    by_cases hfile : ∃ file params, Reaches (registrations t unixPwd)
      (fsPath k.mounts (k.object k.P).unixPwd path).pathStack.elements file params
    · obtain ⟨file, params, hreaches⟩ := hfile
      exact (returns_of_reaches t unixPwd hreaches).mpr (h file params hreaches)
    · push Not at hfile
      exact returns_of_not_reaches t unixPwd hfile

end Open

/-! ## A number that is in range and not in use -/

/-- Init alone, without open files, behind a mount of the file system on `/proc`. -/
def initAlone : ProcKernel where
  processes := [0]
  object _ :=
    { pid := 1#32
      unixPwd := {}
      processFileImage := {}
      arguments := 0#32
      environment := 0#32
      openFiles := fun _ ↦ none
      suspendCount := some 0 }
  P := 0
  mounts := procTable
  P_mem := List.mem_singleton_self 0
  inProcess_mem _ _ _ _ h := by cases h

theorem length_blankRecord :
    (List.replicate sizeofDirent64 (0 : UInt8)).length = sizeofDirent64 := List.length_replicate

def blankFrame : Frame where
  copier := Copier.exact
  str := 0x5000#32
  buf := 0x6000#32
  elidesCopy := false
  nFindCount := 0#32
  tmp := List.replicate sizeofDirent64 0
  length_tmp := length_blankRecord

def blankTexts : Texts where
  memInfo := []
  cpuInfo := []
  uptime := []
  stat := []
  mounts := []
  processStat _ _ := []
  processStatus _ _ := []

def blankMemories : Memories Nat where
  process _ := ⟨onePage, fun _ ↦ 0⟩
  memoryAllocations _ := []
  kernel _ := 0

/-- `/proc/self/fd/3`. -/
def thirdFile : Path :=
  ofString procTable {} (procDir ++ slash :: self ++ slash :: fdName ++ [slash, 0x33])

/-- A null pointer is followed. -/
theorem not_returns_thirdFile :
    ¬Returns (fun turns ↦ initAlone.createIOHandler blankFrame blankTexts
      (pathMappingRoot (registrations procTable {})) turns thirdFile) blankMemories := by
  have hmatch : matchPath (patterns (registrations procTable {})) [] []
      (fsPath procTable {} thirdFile).pathStack.elements =
        some ([asterisk, fdName, asterisk], [self, [0x33]]) := by decide
  have hreaches : Reaches (registrations procTable {})
      (fsPath initAlone.mounts (initAlone.object initAlone.P).unixPwd thirdFile).pathStack.elements
      .getPidFd [self, [0x33]] :=
    ⟨ofString procTable {} (slash :: asterisk ++ slash :: fdName ++ slash :: asterisk), 2,
      by simp [registrations], hmatch⟩
  rw [returns_of_reaches procTable {} hreaches]
  intro h
  obtain ⟨handler, hslot, -⟩ := h 0 rfl (by decide) (by decide)
  cases hslot

end Keow.Files.Proc
