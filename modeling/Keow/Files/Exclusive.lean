import Keow.Files.Sharing

/-!
# Exclusive creation

One path that processes open with `O_CREAT|O_EXCL`, close and unlink. `sys_open` turns `O_CREAT`
into the disposition `OPEN_ALWAYS`, which opens a file that is there, and `O_EXCL` into a share
mode of 0, which keeps others out for as long as the file is held open. So an open succeeds on a
file that exists as soon as nobody holds it open any more.
-/

namespace Keow.Files

open Keow.Base Keow.Kernel

/-! ## The path -/

def FILE_SHARE_READ : DWORD := 1#32
def FILE_SHARE_WRITE : DWORD := 2#32
def FILE_SHARE_DELETE : DWORD := 4#32
def OPEN_ALWAYS : DWORD := 4#32
def FILE_FLAG_BACKUP_SEMANTICS : DWORD := 0x02000000#32
def ERROR_FILE_NOT_FOUND : DWORD := 2#32
def ERROR_ACCESS_DENIED : DWORD := 5#32
def ERROR_SHARING_VIOLATION : DWORD := 32#32

/-- `EISDIR`. -/
def EISDIR : DWORD := 21#32

/-- What is at the path. -/
inductive PathEntry where
  | missing
  | file
  | directory
deriving DecidableEq

/-- A handle on the path: the object that owns it, and what it was opened for. -/
structure OpenHandle where
  owner : Nat
  access : DWORD
  share : DWORD

/-- The path, the handles open on it, and the last error. -/
structure Volume where
  entry : PathEntry
  handles : List OpenHandle
  error : DWORD

/-- A share mode lets an access through. -/
def permits (share access : DWORD) : Bool :=
  (access &&& GENERIC_READ = 0#32 || share &&& FILE_SHARE_READ ≠ 0#32) &&
    (access &&& GENERIC_WRITE = 0#32 || share &&& FILE_SHARE_WRITE ≠ 0#32)

namespace Volume

/-- Some open handle and the new one do not permit each other. -/
def sharingViolation (v : Volume) (access share : DWORD) : Bool :=
  v.handles.any fun h ↦ !(permits h.share access && permits share h.access)

/-- `CreateFile` on the path, as documented: its dispositions `OPEN_ALWAYS` and `OPEN_EXISTING`,
its share modes, and the flag that directories need. -/
def createFile (owner : Nat) (access share disposition flags : DWORD) (v : Volume) :
    Bool × Volume :=
  let opened := { v with handles := ⟨owner, access, share⟩ :: v.handles }
  match v.entry with
  | .missing =>
      if disposition = OPEN_ALWAYS then (true, { opened with entry := .file })
      else (false, { v with error := ERROR_FILE_NOT_FOUND })
  | .file =>
      if v.sharingViolation access share then (false, { v with error := ERROR_SHARING_VIOLATION })
      else (true, opened)
  | .directory =>
      if flags &&& FILE_FLAG_BACKUP_SEMANTICS = 0#32 then
        (false, { v with error := ERROR_ACCESS_DENIED })
      else if v.sharingViolation access share then
        (false, { v with error := ERROR_SHARING_VIOLATION })
      else (true, opened)

/-- `IOHFile::Close`, `IOHFile.cpp:98–109`, for the handle of an object, if it has one. -/
def close (owner : Nat) (v : Volume) : Volume :=
  { v with handles := v.handles.filter fun h ↦ h.owner ≠ owner }

/-- `IOHFile::Open`, `IOHFile.cpp:73–96`. -/
def openFile (owner : Nat) (access share disposition flags : DWORD) (v : Volume) :
    Bool × Volume :=
  let v := v.close owner
  let flags := if v.entry = .directory then FILE_FLAG_BACKUP_SEMANTICS else flags
  v.createFile owner access share disposition flags

/-- `DeleteFile` on a file: refused while some handle does not share its deletion. -/
def deleteFile (v : Volume) : Bool × Volume :=
  if v.handles.any fun h ↦ h.share &&& FILE_SHARE_DELETE = 0#32 then
    (false, { v with error := ERROR_SHARING_VIOLATION })
  else (true, { v with entry := .missing })

end Volume

/-- Objects as far as the path is concerned. -/
def volumeEnvironment : Environment Volume :=
  { Environment.idle Volume with
    openHandler := fun _ a access share disposition flags ↦
      Volume.openFile a access share disposition flags
    close := fun _ a ↦ Volume.close a
    lastError := Volume.error }

/-- `SysCalls::sys_unlink` of the path, `sys_io.cpp:964–1009`. -/
def sysUnlink : F Volume DWORD := do
  match (← Comp.get).rest.entry with
  | .missing => return -ENOENT
  | .directory => return -EISDIR
  | .file =>
      if ← outside Volume.deleteFile then return 0#32 else kernelError volumeEnvironment

/-- A call on the path: an `open` with `O_CREAT|O_EXCL` and whatever other flags, a `close` of any
descriptor, or an `unlink`. -/
inductive PathCall where
  | openExclusive (access : DWORD)
  | close (fd : DWORD)
  | unlink

def PathCall.run (P : Nat) : PathCall → F Volume DWORD
  | .openExclusive access =>
      sysOpen volumeEnvironment P (.made .file) (access ||| O_CREAT ||| O_EXCL)
  | .close fd => sysClose volumeEnvironment P fd
  | .unlink => sysUnlink

/-- What happened to the path: an exclusive open has succeeded, with the path there already or
not, or it has been unlinked. -/
inductive PathEvent where
  | opened (existed : Bool)
  | unlinked
deriving DecidableEq

/-- The world, and the events, newest first. -/
structure PathHistory where
  world : FileWorld Volume
  events : List PathEvent

namespace PathHistory

/-- Nobody has the path open. -/
def start (t : Table) (entry : PathEntry) : PathHistory where
  world := { table := t, rest := { entry := entry, handles := [], error := 0#32 } }
  events := []

/-- The call has returned without an error. -/
def succeeded : Result (FileWorld Volume) DWORD → Bool
  | .ok eax _ => 0 ≤ eax.toInt
  | _ => false

/-- What a call that has succeeded does to the path. -/
def event (w : FileWorld Volume) : PathCall → List PathEvent
  | .openExclusive _ => [.opened (w.rest.entry ≠ .missing)]
  | .close _ => []
  | .unlink => [.unlinked]

/-- One call of a process that exists. -/
def step (s : PathHistory) (call : Nat × PathCall) : PathHistory :=
  if call.1 < s.world.table.processes then
    let r := call.2.run call.1 s.world
    { world := r.state
      events := (if succeeded r then event s.world call.2 else []) ++ s.events }
  else s

/-- The exclusive opens that have succeeded since the path was last unlinked. -/
def sinceUnlink : List PathEvent → Nat
  | [] => 0
  | .unlinked :: _ => 0
  | .opened _ :: events => sinceUnlink events + 1

/-- Every exclusive open that has succeeded did so where there was no file, and so not more than
one between two unlinks. -/
def Exclusive (s : PathHistory) : Prop :=
  .opened true ∉ s.events ∧ sinceUnlink s.events ≤ 1

/-- An exclusive open finds no file, or one that is held open, or no free descriptor. -/
def Excluded (s : PathHistory) : Nat × PathCall → Prop
  | (P, .openExclusive _) =>
      P < s.world.table.processes → s.world.rest.entry = .missing ∨ s.world.rest.handles ≠ [] ∨
        lowestFree (s.world.table.openFiles P) = none
  | _ => True

end PathHistory

/-! ## An exclusive open of the path -/

theorem and_exclusive (access : DWORD) :
    (access ||| O_CREAT ||| O_EXCL) &&& O_CREAT ≠ 0#32 ∧
      (access ||| O_CREAT ||| O_EXCL) &&& O_EXCL ≠ 0#32 := by
  constructor
  · intro h
    have hbit := congrArg (BitVec.getLsbD · 6) h
    simp [O_CREAT, O_EXCL] at hbit
  · intro h
    have hbit := congrArg (BitVec.getLsbD · 7) h
    simp [O_CREAT, O_EXCL] at hbit

theorem win32Share_exclusive (access : DWORD) :
    win32Share (access ||| O_CREAT ||| O_EXCL) = 0#32 := if_pos (and_exclusive access).2

theorem win32Disposition_exclusive (access : DWORD) :
    win32Disposition (access ||| O_CREAT ||| O_EXCL) = OPEN_ALWAYS :=
  if_pos (and_exclusive access).1

/-- Whatever a descriptor is opened for, a share mode of 0 keeps it out. -/
theorem not_permits_win32Access (access : DWORD) : permits 0#32 (win32Access access) = false := by
  unfold win32Access
  split
  · decide
  · split <;> decide

namespace Volume

/-- Every handle belongs to an object made before `fresh`, and neither shares the path nor is let
in by a share mode of 0. -/
def Private (v : Volume) (fresh : Nat) : Prop :=
  ∀ h ∈ v.handles, h.owner < fresh ∧ h.share = 0#32 ∧ permits 0#32 h.access = false

variable {v : Volume} {fresh : Nat}

theorem private_close (hv : v.Private fresh) (a : Nat) : (v.close a).Private fresh := by
  intro h hh
  exact hv h (List.mem_filter.mp hh).1

theorem private_mono (hv : v.Private fresh) {n : Nat} (hn : fresh ≤ n) : v.Private n := by
  intro h hh
  obtain ⟨howner, hrest⟩ := hv h hh
  exact ⟨Nat.lt_of_lt_of_le howner hn, hrest⟩

/-- An object that is new has no handle. -/
theorem close_fresh (hv : v.Private fresh) : v.close fresh = v := by
  have hkept : v.handles.filter (fun h ↦ h.owner ≠ fresh) = v.handles := by
    apply List.filter_eq_self.mpr
    intro h hh
    have howner := (hv h hh).1
    simpa using Nat.ne_of_lt howner
  rw [close, hkept]

theorem sharingViolation_eq (hv : v.Private fresh) (access : DWORD) :
    v.sharingViolation access 0#32 = !v.handles.isEmpty := by
  unfold sharingViolation
  cases hhandles : v.handles with
  | nil => rfl
  | cons h hs =>
    have hout := (hv h (hhandles ▸ List.mem_cons_self)).2.2
    rw [List.any_cons, hout, Bool.and_false]
    rfl

/-- The path once a new object has it open. -/
def opened (v : Volume) (fresh : Nat) (access : DWORD) : Volume :=
  { v with
    entry := if v.entry = .missing then .file else v.entry
    handles := ⟨fresh, access, 0#32⟩ :: v.handles }

/-- What `IOHFile::Open` does with the parameters of an exclusive open: it fails only while some
handle is open. -/
theorem openFile_eq (hv : v.Private fresh) (access : DWORD) :
    v.openFile fresh access 0#32 OPEN_ALWAYS 0#32 =
      if v.entry = .missing ∨ v.handles = [] then (true, v.opened fresh access)
      else (false, { v with error := ERROR_SHARING_VIOLATION }) := by
  unfold openFile
  rw [close_fresh hv]
  unfold createFile opened
  simp only [sharingViolation_eq hv]
  cases hentry : v.entry with
  | missing => simp
  | file =>
    cases v.handles with
    | nil => simp
    | cons h hs => simp
  | directory =>
    cases v.handles with
    | nil => simp [FILE_FLAG_BACKUP_SEMANTICS]
    | cons h hs => simp [FILE_FLAG_BACKUP_SEMANTICS]

theorem private_opened (hv : v.Private fresh) (access : DWORD) :
    (v.opened fresh (win32Access access)).Private (fresh + 1) := by
  intro h hh
  rcases List.mem_cons.mp hh with rfl | hh
  · exact ⟨Nat.lt_succ_self fresh, rfl, not_permits_win32Access access⟩
  · exact private_mono hv (Nat.le_succ fresh) h hh

/-- A handle that shares nothing keeps the file from being deleted. -/
theorem deleteFile_eq (hv : v.Private fresh) :
    v.deleteFile =
      if v.handles = [] then (true, { v with entry := .missing })
      else (false, { v with error := ERROR_SHARING_VIOLATION }) := by
  unfold deleteFile
  cases hhandles : v.handles with
  | nil => rfl
  | cons h hs =>
    have hshare := (hv h (hhandles ▸ List.mem_cons_self)).2.1
    simp [hshare]

end Volume

section Run

variable {w : FileWorld Volume} (P : Nat)

/-- Seeking and truncating leave the path alone. -/
theorem moreFlags_volume {ioh : Nat} {h : Handler} (hlive : w.table.object ioh = some h)
    (access : DWORD) : moreFlags volumeEnvironment P ioh access w = .ok ⟨⟩ w := by
  have happend : (do
      if access &&& O_APPEND ≠ 0#32 then
        let _ ← method ioh (volumeEnvironment.seek P ioh 0#64 FILE_END) : F Volume PUnit) w =
      .ok ⟨⟩ w := by
    split
    · rw [Comp.bind_of_ok (method_eq hlive _)]
      rfl
    · rfl
  unfold moreFlags
  split
  · rw [Comp.bind_of_ok (method_eq hlive _)]
    show (method ioh _ >>= _) w = _
    rw [Comp.bind_of_ok (method_eq hlive _)]
    exact happend
  · exact happend

/-- An exclusive open without a free descriptor. -/
theorem run_openExclusive_full (hfree : lowestFree (w.table.openFiles P) = none)
    (access : DWORD) :
    ∃ indexed, (PathCall.openExclusive access).run P w =
      .ok (-EMFILE) { w with indexed := indexed } := by
  obtain ⟨new, -, hscan⟩ := findFreeFD_eq P w
  refine ⟨new ++ w.indexed, ?_⟩
  rw [PathCall.run, sysOpen, Comp.bind_of_ok hscan, hfree]
  rfl

/-- An exclusive open with one. -/
theorem run_openExclusive (hv : w.rest.Private w.table.fresh) {fd : Nat}
    (hfree : lowestFree (w.table.openFiles P) = some fd) (access : DWORD) :
    ∃ indexed, (PathCall.openExclusive access).run P w =
      if w.rest.entry = .missing ∨ w.rest.handles = [] then
        .ok (BitVec.ofNat 32 fd)
          { table := w.table.install P fd { kind := .file }
            rest := w.rest.opened w.table.fresh (win32Access (access ||| O_CREAT ||| O_EXCL))
            indexed := indexed }
      else
        .ok (-EPERM)
          { table := w.table.discard { kind := .file }
            rest := { w.rest with error := ERROR_SHARING_VIOLATION }
            indexed := indexed } := by
  obtain ⟨new, -, hscan⟩ := findFreeFD_eq P w
  have hfd := (lowestFree_eq_some.mp hfree).1
  let made : FileWorld Volume :=
    { w with table := w.table.alloc { kind := .file }, indexed := new ++ w.indexed }
  have hmade : (createForPath volumeEnvironment P (.made .file) : F Volume (Option Nat))
      { w with indexed := new ++ w.indexed } = .ok (some w.table.fresh) made := rfl
  have hlive : made.table.object w.table.fresh = some { kind := .file } := if_pos rfl
  have hopen := method_eq hlive (volumeEnvironment.openHandler P w.table.fresh
    (win32Access (access ||| O_CREAT ||| O_EXCL)) 0#32 OPEN_ALWAYS 0#32)
  rw [show volumeEnvironment.openHandler P w.table.fresh _ 0#32 OPEN_ALWAYS 0#32 made.rest = _ from
    Volume.openFile_eq hv _] at hopen
  rw [PathCall.run, sysOpen, Comp.bind_of_ok hscan, hfree]
  dsimp only
  rw [Comp.bind_of_ok hmade, win32Share_exclusive, win32Disposition_exclusive]
  dsimp only
  rw [Comp.bind_of_ok hopen]
  by_cases hc : w.rest.entry = .missing ∨ w.rest.handles = []
  · let opened : FileWorld Volume :=
      { table := w.table.install P fd { kind := .file }
        rest := w.rest.opened w.table.fresh (win32Access (access ||| O_CREAT ||| O_EXCL))
        indexed := (fd : Int) :: (new ++ w.indexed) }
    have hmore := moreFlags_volume (w := opened) P hlive (access ||| O_CREAT ||| O_EXCL)
    rw [if_pos hc, if_pos rfl, Comp.bind_of_ok (setSlot_eq P hfd _ _)]
    refine ⟨opened.indexed, (Comp.bind_of_ok hmore _).trans ?_⟩
    rw [if_pos hc]
    rfl
  · let failed : FileWorld Volume :=
      { made with rest := { w.rest with error := ERROR_SHARING_VIOLATION } }
    have herror : kernelError volumeEnvironment failed = .ok (-EPERM) failed := rfl
    have hclose : failed.rest.close w.table.fresh = failed.rest := Volume.close_fresh hv
    have hdelete := deleteHandler_eq (w := failed) volumeEnvironment P hlive
    rw [if_neg hc, if_neg Bool.false_ne_true, Comp.bind_of_ok herror, Comp.bind_of_ok hdelete]
    refine ⟨failed.indexed, ?_⟩
    rw [if_neg hc]
    show Result.ok (-EPERM) (FileWorld.mk _ (failed.rest.close w.table.fresh) _) = _
    rw [hclose]
    rfl

/-- A `close` deletes the object at a descriptor of the table, or does nothing. -/
theorem run_close (hs : w.table.Sound) (fd : DWORD) :
    (∃ a, w.table.openFiles P fd.toNat = some a ∧
      ((PathCall.close fd).run P w).state.table = w.table.release P fd.toNat a ∧
      ((PathCall.close fd).run P w).state.rest = w.rest.close a) ∨
    (((PathCall.close fd).run P w).state.table = w.table ∧
      ((PathCall.close fd).run P w).state.rest = w.rest) := by
  simp only [PathCall.run, sysClose]
  by_cases h : ValidFd fd ∧ w.table.openFiles P fd.toNat ≠ none
  · obtain ⟨hfd, hopen⟩ := h
    obtain ⟨a, ha⟩ := Option.ne_none_iff_exists'.mp hopen
    obtain ⟨hd, hlive⟩ := Option.ne_none_iff_exists'.mp (hs.live ha)
    let checked : FileWorld Volume := { w with indexed := (fd.toNat : Int) :: w.indexed }
    have hdelete := deleteHandler_eq (w := checked) volumeEnvironment P hlive
    left
    refine ⟨a, ha, ?_⟩
    rw [withHandler_of_open _ hfd ha, Comp.bind_of_ok hdelete, toInt_of_validFd hfd,
      Comp.bind_of_ok (setSlot_eq P hfd none _)]
    exact ⟨rfl, rfl⟩
  · right
    by_cases h1024 : fd = 1024#32
    · rw [h1024, withHandler_1024]
      exact ⟨rfl, rfl⟩
    · obtain ⟨new, -, hrun⟩ := withHandler_of_closed _ h1024 h
      rw [hrun]
      exact ⟨rfl, rfl⟩

/-- An `unlink` removes a file that nobody has open. -/
theorem run_unlink (hv : w.rest.Private w.table.fresh) :
    PathCall.unlink.run P w =
      if w.rest.entry = .missing then .ok (-ENOENT) w
      else if w.rest.entry = .directory then .ok (-EISDIR) w
      else if w.rest.handles = [] then
        .ok 0#32 { w with rest := { w.rest with entry := .missing } }
      else .ok (-EPERM) { w with rest := { w.rest with error := ERROR_SHARING_VIOLATION } } := by
  have hdelete : (outside Volume.deleteFile : F Volume Bool) w =
      .ok w.rest.deleteFile.1 { w with rest := w.rest.deleteFile.2 } := rfl
  rw [Volume.deleteFile_eq hv] at hdelete
  rw [PathCall.run, sysUnlink, Comp.get_bind]
  cases hentry : w.rest.entry with
  | missing => rfl
  | directory => rfl
  | file =>
    dsimp only
    rw [Comp.bind_of_ok hdelete]
    split
    · rfl
    · rfl

end Run

/-! ## Runs -/

namespace PathHistory

variable {s : PathHistory} {P : Nat}

/-- Exclusive so far, in a world that the path has been opened in by exclusive opens only. A path
that is missing has not been opened since it was unlinked. -/
structure Invariant (s : PathHistory) : Prop where
  sound : s.world.table.Sound
  unshared : s.world.rest.Private s.world.table.fresh
  unopened : s.world.rest.entry = .missing → sinceUnlink s.events = 0
  exclusive : s.Exclusive

theorem invariant_start {t : Table} (hs : t.Sound) (entry : PathEntry) :
    (start t entry).Invariant := by
  constructor
  · exact hs
  · intro h hh
    cases hh
  · intro _
    rfl
  · exact ⟨List.not_mem_nil, Nat.zero_le 1⟩

/-- A call of a process that exists, once its run is known. -/
theorem step_of_run (hP : P < s.world.table.processes) {call : PathCall}
    {r : Result (FileWorld Volume) DWORD} (hrun : call.run P s.world = r) :
    s.step (P, call) =
      { world := r.state
        events := (if succeeded r then event s.world call else []) ++ s.events } := by
  rw [← hrun]
  exact if_pos hP

theorem succeeded_ofNat {fd : Nat} (hfd : fd < MAX_OPEN_FILES) (w : FileWorld Volume) :
    succeeded (.ok (BitVec.ofNat 32 fd) w) = true := by
  have hvalue := toInt_of_validFd (validFd_ofNat hfd)
  simp only [succeeded, hvalue, decide_eq_true_eq]
  omega

/-- A world that is like the last one but for where the tables have been indexed, and nothing that
has happened. -/
theorem invariant_same (h : s.Invariant) {w : FileWorld Volume}
    (htable : w.table = s.world.table) (hrest : w.rest = s.world.rest) :
    Invariant { world := w, events := s.events } := by
  constructor
  · exact htable ▸ h.sound
  · show w.rest.Private w.table.fresh
    rw [htable, hrest]
    exact h.unshared
  · intro hentry
    exact h.unopened (hrest ▸ hentry)
  · exact h.exclusive

theorem invariant_openExclusive (h : s.Invariant) (hP : P < s.world.table.processes)
    {access : DWORD} (hexcluded : s.Excluded (P, .openExclusive access)) :
    (s.step (P, .openExclusive access)).Invariant := by
  cases hfree : lowestFree (s.world.table.openFiles P) with
  | none =>
    obtain ⟨indexed, hrun⟩ := run_openExclusive_full P hfree access
    rw [step_of_run hP hrun]
    exact invariant_same h rfl rfl
  | some fd =>
    have hfd := (lowestFree_eq_some.mp hfree).1
    obtain ⟨indexed, hrun⟩ := run_openExclusive P h.unshared hfree access
    have hcreates : s.world.rest.entry = .missing ∨ s.world.rest.handles ≠ [] := by
      rcases hexcluded hP with hmissing | hheld | hfull
      · exact .inl hmissing
      · exact .inr hheld
      · cases hfree.symm.trans hfull
    rw [step_of_run hP hrun]
    by_cases hmissing : s.world.rest.entry = .missing
    · rw [if_pos (.inl hmissing), succeeded_ofNat hfd]
      constructor
      · exact Table.sound_install h.sound hP hfd _
      · exact Volume.private_opened h.unshared _
      · intro hentry
        simp [Result.state, Volume.opened, hmissing] at hentry
      · simp [Exclusive, event, sinceUnlink, hmissing, h.unopened hmissing, h.exclusive.1]
    · have hheld := hcreates.resolve_left hmissing
      rw [if_neg (not_or.mpr ⟨hmissing, hheld⟩)]
      constructor
      · exact Table.sound_discard h.sound _
      · exact Volume.private_mono h.unshared (Nat.le_succ _)
      · exact h.unopened
      · exact h.exclusive

theorem invariant_close (h : s.Invariant) (hP : P < s.world.table.processes) (fd : DWORD) :
    (s.step (P, .close fd)).Invariant := by
  rw [step_of_run hP rfl, show event s.world (.close fd) = [] from rfl, ite_self, List.nil_append]
  rcases run_close P h.sound fd with ⟨a, ha, htable, hrest⟩ | ⟨htable, hrest⟩
  · constructor
    · rw [htable]
      exact Table.sound_release h.sound ha
    · rw [htable, hrest]
      exact Volume.private_close h.unshared a
    · intro hentry
      rw [hrest] at hentry
      exact h.unopened hentry
    · exact h.exclusive
  · exact invariant_same h htable hrest

theorem invariant_unlink (h : s.Invariant) (hP : P < s.world.table.processes) :
    (s.step (P, .unlink)).Invariant := by
  have hrun := run_unlink P h.unshared
  rw [step_of_run hP hrun]
  split
  · exact invariant_same h rfl rfl
  · split
    · exact invariant_same h rfl rfl
    · split
      · constructor
        · exact h.sound
        · exact h.unshared
        · intro _
          rfl
        · exact ⟨List.not_mem_cons_of_ne_of_not_mem (by decide) h.exclusive.1, Nat.zero_le 1⟩
      · exact ⟨h.sound, h.unshared, h.unopened, h.exclusive⟩

/-- A call that the condition lets through keeps the invariant. -/
theorem invariant_step (h : s.Invariant) (call : Nat × PathCall) (hexcluded : s.Excluded call) :
    (s.step call).Invariant := by
  obtain ⟨P, call⟩ := call
  by_cases hP : P < s.world.table.processes
  · cases call with
    | openExclusive access => exact invariant_openExclusive h hP hexcluded
    | close fd => exact invariant_close h hP fd
    | unlink => exact invariant_unlink h hP
  · rw [step, if_neg hP]
    exact h

/-- An exclusive open of what is there and not held open succeeds. -/
theorem not_exclusive_step (h : s.Invariant) (call : Nat × PathCall)
    (hexcluded : ¬s.Excluded call) : ¬(s.step call).Exclusive := by
  obtain ⟨P, call⟩ := call
  cases call with
  | openExclusive access =>
    simp only [Excluded, not_forall, not_or, not_not] at hexcluded
    obtain ⟨hP, hthere, hidle, hfree⟩ := hexcluded
    obtain ⟨fd, hfree⟩ := Option.ne_none_iff_exists'.mp hfree
    have hfd := (lowestFree_eq_some.mp hfree).1
    obtain ⟨indexed, hrun⟩ := run_openExclusive P h.unshared hfree access
    rw [if_pos (.inr hidle)] at hrun
    rw [step_of_run hP hrun, succeeded_ofNat hfd]
    simp [Exclusive, event, hthere]
  | close fd => exact absurd trivial hexcluded
  | unlink => exact absurd trivial hexcluded

/-- Exclusive opens create, one between two unlinks, in every state of a run, exactly if each of
them in the run finds no file, or one that is held open, or no free descriptor. -/
theorem trail_exclusive_iff {t : Table} (hs : t.Sound) (entry : PathEntry)
    (calls : List (Nat × PathCall)) :
    (∀ s ∈ trail step (start t entry) calls, s.Exclusive) ↔
      Along step Excluded (start t entry) calls :=
  @trail_iff_along _ _ step Excluded Invariant Exclusive (fun _ h ↦ h.exclusive)
    (fun _ call h ↦ invariant_step h call) (fun _ call h ↦ not_exclusive_step h call) _
    (invariant_start hs entry) calls

/-- Two processes, of which the first has its consoles open. -/
def twoProcesses : Table := { startTable with processes := 2 }

/-- The second process opens the file after it has been unlinked. -/
def createAgain : List (Nat × PathCall) :=
  [(0, .openExclusive O_WRONLY), (1, .openExclusive O_WRONLY), (0, .close 3#32), (0, .unlink),
    (1, .openExclusive O_WRONLY)]

/-- Both processes make the file, and the second one not while the first holds it. -/
theorem trail_exclusive_iff_createAgain :
    (∀ s ∈ trail step (start twoProcesses .missing) createAgain, s.Exclusive) ∧
      (createAgain.foldl step (start twoProcesses .missing)).events =
        [.opened false, .unlinked, .opened false] := by
  have hexcluded : Along step Excluded (start twoProcesses .missing) createAgain := by
    refine ⟨fun _ ↦ .inl rfl, fun _ ↦ .inr (.inl ?_), trivial, trivial, fun _ ↦ .inl ?_, trivial⟩
    · decide +kernel
    · decide +kernel
  refine ⟨(trail_exclusive_iff (Table.sound_processes sound_startTable (Nat.le_succ 1)) .missing
    createAgain).mpr hexcluded, ?_⟩
  decide +kernel

/-- The first process makes the file and closes it; then the second one opens it. -/
def createTwice : List (Nat × PathCall) :=
  [(0, .openExclusive O_WRONLY), (0, .close 3#32), (1, .openExclusive O_WRONLY)]

/-- Both opens succeed. -/
theorem createTwice_not_exclusive :
    ¬∀ s ∈ trail step (start twoProcesses .missing) createTwice, s.Exclusive := by
  intro hall
  have hlast := hall _ (foldl_mem_trail step (start twoProcesses .missing) createTwice)
  have hopened : .opened true ∈ (createTwice.foldl step (start twoProcesses .missing)).events := by
    decide +kernel
  exact hlast.1 hopened

end PathHistory

end Keow.Files
