import Keow.Base.References
import Keow.Exec.Script

/-!
# Following the names in files

`CanLoadImage`, `LoadImage` and `LoadElfImage` call themselves for the file that a script or
an image names, `Process.cpp:915,1003,1185–1228`, and nothing counts how often. What a request
leads to is computed here without running it, also when the loop over the program headers
stops early: the interpreter named so far is loaded all the same.
-/

namespace Keow.Exec

open Keow.Base Keow.Kernel Keow.Paths

/-! ## Where the loop over the program headers stops -/

/-- What the loop leaves. -/
structure LoopEnd where
  loadok : Bool
  allocations : List MemoryAlloc
  lastLibAddr : DWORD
  interpreter : List UInt8

/-- The round reads a field outside the header buffer, or more than `Interpreter` can hold. -/
def Entry.OutOfBounds (hdr : Elf32Hdr) (e : Entry) : Prop :=
  hdr.ePhentsize.toNat < e.phdr.extent ∨ e.phdr.pType = PT_INTERP ∧ maxPath < e.payload.length

instance (hdr : Elf32Hdr) (e : Entry) : Decidable (e.OutOfBounds hdr) := by
  unfold Entry.OutOfBounds
  infer_instance

/-- After an accepted round. -/
def LoopEnd.visit (base : DWORD) (library : Bool) (s : LoopEnd) (e : Entry) : LoopEnd :=
  { s with
    allocations := e.allocations base s.allocations
    lastLibAddr := e.lastLibAddr base library s.lastLibAddr
    interpreter := e.interpreter s.interpreter }

/-- After a segment that could not be placed or was not whole in the file. -/
def LoopEnd.refuse (host : Host) (base : DWORD) (s : LoopEnd) (e : Entry) : LoopEnd :=
  let size := e.phdr.alignedSize base
  { s with
    loadok := false
    allocations := recordAlloc s.allocations
      (host.allocateMem s.allocations (e.phdr.alignedMem base) size) size
      PAGE_EXECUTE_READWRITE }

/-- The loop, if it stays inside its buffers. -/
def loopEnd (host : Host) (hdr : Elf32Hdr) (base : DWORD) (library : Bool) :
    LoopEnd → List Entry → Option LoopEnd
  | s, [] => some s
  | s, e :: es =>
      if e.OutOfBounds hdr then none
      else if e.Accepted host hdr base s.allocations then
        loopEnd host hdr base library (s.visit base library e) es
      else some (s.refuse host base e)

/-- The task agrees with what is tracked of it. -/
structure LoopEnd.Of (s : LoopEnd) (t : Task) : Prop where
  allocations : t.memoryAllocations = s.allocations
  lastLibAddr : t.pElfLoadData.lastLibAddr = s.lastLibAddr
  interpreter : t.pElfLoadData.interpreter = s.interpreter

section Round

variable {host : Host} {hdr : Elf32Hdr} {base : DWORD} {library : Bool} {e : Entry}
  {s : LoopEnd} {t : Task}

theorem LoopEnd.Of.visited (h : s.Of t) :
    (s.visit base library e).Of (t.visited hdr base library e) := by
  obtain ⟨h1, h2, h3⟩ := h
  constructor
  · simp only [Task.visited, setElfLoadData_memoryAllocations, setMem_memoryAllocations, h1]
    rfl
  · rw [Task.visited, setElfLoadData_pElfLoadData, lastLibAddr_recorded]
    exact congrArg (Entry.lastLibAddr base library · e) h2
  · rw [Task.visited, setElfLoadData_pElfLoadData, interpreter_recorded]
    exact congrArg (Entry.interpreter · e) h3

theorem visitEntry_of_outOfBounds (h : e.OutOfBounds hdr) (t : Task) :
    visitEntry host hdr base library e t = .fault t := by
  unfold visitEntry
  rcases h with h | ⟨hint, h⟩
  · rw [if_pos h]
    rfl
  · have hload : e.phdr.pType ≠ PT_LOAD := by
      rw [hint]
      decide
    have hphdr : e.phdr.pType ≠ PT_PHDR := by
      rw [hint]
      decide
    rw [if_neg hload, if_neg hphdr, if_pos hint, if_pos h]
    split <;> rfl

/-- A round that is not accepted inside its buffers is a segment that is refused. -/
theorem visitEntry_of_refused (hs : s.Of t) (hbounds : ¬e.OutOfBounds hdr)
    (h : ¬e.Accepted host hdr base s.allocations) :
    ∃ t', visitEntry host hdr base library e t = .ok false t' ∧ (s.refuse host base e).Of t' := by
  simp only [Entry.OutOfBounds, not_or, not_and, Nat.not_lt] at hbounds
  obtain ⟨hext, hint⟩ := hbounds
  have hload : e.phdr.pType = PT_LOAD := by
    by_contra hload
    exact h ⟨hext, hint, fun h' ↦ absurd h' hload⟩
  have hrefused : ¬(host.allocateMem s.allocations (e.phdr.alignedMem base)
      (e.phdr.alignedSize base) = e.phdr.alignedMem base ∧
      (e.phdr.pFilesz = 0#32 ∨ e.payload.length = e.phdr.pFilesz.toNat)) :=
    fun h' ↦ h ⟨hext, hint, fun _ ↦ h'⟩
  obtain ⟨h1, h2, h3⟩ := hs
  unfold visitEntry
  rw [if_neg (by omega), if_pos hload]
  simp only [loadSegment, allocateMemAndProtect, Bind.bind, Comp.bind, Comp.get, Comp.modify,
    Pure.pure, Comp.pure, h1]
  by_cases hmem : host.allocateMem s.allocations (e.phdr.alignedMem base)
      (e.phdr.alignedSize base) = e.phdr.alignedMem base
  · have hshort : e.phdr.pFilesz ≠ 0#32 ∧ e.payload.length ≠ e.phdr.pFilesz.toNat := by
      rw [← not_or]
      exact fun h' ↦ hrefused ⟨hmem, h'⟩
    rw [if_neg (by simp [hmem]), if_pos hshort]
    exact ⟨_, rfl, by rw [setMem_memoryAllocations, LoopEnd.refuse, ← h1], h2, h3⟩
  · rw [if_pos hmem]
    exact ⟨_, rfl, by rw [LoopEnd.refuse, ← h1], h2, h3⟩

end Round

/-- The loop over the program headers does what is computed of it. -/
theorem visitEntries_loopEnd (host : Host) (hdr : Elf32Hdr) (base : DWORD) (library : Bool)
    (es : List Entry) {s : LoopEnd} {t : Task} (hs : s.Of t) (hok : s.loadok = true) :
    match loopEnd host hdr base library s es with
    | none => ∃ t', visitEntries host hdr base library es t = .fault t'
    | some s' => ∃ t', visitEntries host hdr base library es t = .ok s'.loadok t' ∧ s'.Of t' := by
  induction es generalizing s t with
  | nil => exact ⟨t, by rw [hok]; rfl, hs⟩
  | cons e es ih =>
    rw [loopEnd, visitEntries]
    by_cases hbounds : e.OutOfBounds hdr
    · rw [if_pos hbounds]
      refine ⟨t, ?_⟩
      simp only [Bind.bind, Comp.bind, visitEntry_of_outOfBounds hbounds]
    rw [if_neg hbounds]
    by_cases hacc : e.Accepted host hdr base s.allocations
    · have hround : visitEntry host hdr base library e t =
          .ok true (t.visited hdr base library e) :=
        (visitEntry_eq_true ..).mpr ⟨by rwa [hs.allocations], rfl⟩
      rw [if_pos hacc, Comp.bind_of_ok hround, if_pos rfl]
      exact ih hs.visited hok
    · obtain ⟨t', hround, ht'⟩ := @visitEntry_of_refused host hdr base library e s t hs hbounds hacc
      rw [if_neg hacc, Comp.bind_of_ok hround, if_neg Bool.false_ne_true]
      exact ⟨t', rfl, ht'⟩

/-! ## The next image -/

/-- Where the loop stops for a request. -/
def Request.loopEnd (host : Host) (r : Request) : Option LoopEnd :=
  Exec.loopEnd host r.hdr r.base r.library
    ⟨true, r.allocations, r.lastLibAddr, overwrite r.interpreter [0]⟩ (r.entries host)

/-- What the interpreter is loaded with that is named when the loop has stopped. -/
def LoopEnd.next (host : Host) (s : LoopEnd) : Option Request :=
  match Exec.interpreterName s.interpreter with
  | none => none
  | some [] => none
  | some name =>
      match host.createFile name with
      | .error _ => none
      | .ok bytes => some {
          library := true
          lastLibAddr := s.lastLibAddr
          interpreter := s.interpreter
          allocations := s.allocations
          hImg := ⟨bytes, (bytes.take sizeofHdr).length⟩
          hdr := host.hdr2 bytes }

/-- What the interpreter of a request is loaded with, if one is loaded. -/
def Request.next (host : Host) (r : Request) : Option Request :=
  if r.hdr.Valid ∧ r.hdr.ePhoff ≠ 0#32 then (r.loopEnd host).bind (LoopEnd.next host) else none

/-- A run that has come to its bound. -/
def Waiting {σ α : Type} (r : Result σ α) : Prop := ∃ s, r = .wait s

theorem not_waiting_of_ok {σ α : Type} {r : Result σ α} {a : α} {s : σ} (h : r = .ok a s) :
    ¬Waiting r := by
  rintro ⟨s', hs'⟩
  rw [h] at hs'
  cases hs'

/-- What follows and cannot wait does not change that. -/
theorem waiting_bind {σ α β : Type} {x : Comp σ α} {f : α → Comp σ β} {s : σ}
    (h : ∀ a s', ¬Waiting (f a s')) : Waiting ((x >>= f) s) ↔ Waiting (x s) := by
  simp only [Bind.bind, Comp.bind]
  cases hx : x s with
  | ok a s' => exact iff_of_false (h a s') (not_waiting_of_ok rfl)
  | exit s' => simp [Waiting]
  | wait s' => simp [Waiting]
  | fault s' => simp [Waiting]

/-- Past the checks of the header, a call is its loop and the interpreter. -/
theorem loadElfImage_of_valid {hdr : Elf32Hdr} (hvalid : hdr.Valid) (hphoff : hdr.ePhoff ≠ 0#32)
    (host : Host) (fuel : Nat) (hImg : Handle) (library : Bool) (t : Task) :
    loadElfImage host (fuel + 1) hImg hdr library t =
      (visitEntries host hdr (t.request hImg hdr library).base library
        ((t.request hImg hdr library).entries host) >>= loadInterpreter host
          (loadElfImage host fuel)) (t.setElfLoadData (ElfLoadData.begin hdr library)) := by
  rw [loadElfImage, if_neg (not_not.mpr hvalid), if_neg hphoff]
  rfl

/-- The loop of a call from its start. -/
theorem visitEntries_request (host : Host) (hImg : Handle) (hdr : Elf32Hdr) (library : Bool)
    (t : Task) :
    match (t.request hImg hdr library).loopEnd host with
    | none => ∃ t', visitEntries host hdr (t.request hImg hdr library).base library
        ((t.request hImg hdr library).entries host)
        (t.setElfLoadData (ElfLoadData.begin hdr library)) = .fault t'
    | some s' => ∃ t', visitEntries host hdr (t.request hImg hdr library).base library
        ((t.request hImg hdr library).entries host)
        (t.setElfLoadData (ElfLoadData.begin hdr library)) = .ok s'.loadok t' ∧ s'.Of t' := by
  refine visitEntries_loopEnd host hdr _ library _ ⟨?_, ?_, ?_⟩ rfl
  · exact setElfLoadData_memoryAllocations t _
  · rw [setElfLoadData_pElfLoadData]
    rfl
  · rw [setElfLoadData_pElfLoadData]
    rfl

section Next

variable {host : Host} {hImg : Handle} {hdr : Elf32Hdr} {library : Bool} {s : LoopEnd} {t : Task}

/-- What the end of `LoadElfImage` goes on with. -/
theorem loadInterpreter_next (hs : s.Of t) (load : Handle → Elf32Hdr → Bool → X DWORD)
    (loadok : Bool) :
    match s.next host with
    | none => ¬Waiting (loadInterpreter host load loadok t)
    | some r => t.enterInterpreter.request r.hImg r.hdr true = r ∧
        (Waiting (loadInterpreter host load loadok t) ↔
          Waiting (load r.hImg r.hdr true t.enterInterpreter)) := by
  rw [loadInterpreter, Comp.bind_of_ok (Comp.get_eq_ok.mpr ⟨rfl, rfl⟩), LoopEnd.next,
    hs.interpreter]
  cases hname : interpreterName s.interpreter with
  | none => simp [Comp.fault, Waiting]
  | some name =>
    cases name with
    | nil => exact not_waiting_of_ok rfl
    | cons c cs =>
      cases hfile : host.createFile (c :: cs) with
      | error err =>
        simp only [hfile]
        exact not_waiting_of_ok rfl
      | ok bytes =>
        simp only [hfile]
        constructor
        · rw [Task.request]
          have hdata : t.enterInterpreter.pElfLoadData = t.pElfLoadData := rfl
          have hallocs : t.enterInterpreter.memoryAllocations = t.memoryAllocations := rfl
          rw [hdata, hallocs, hs.lastLibAddr, hs.interpreter, hs.allocations]
        · exact waiting_bind fun _ _ ↦ not_waiting_of_ok rfl

/-- Without an interpreter to load, a call comes to an end. -/
theorem not_waiting_of_next_eq_none (h : (t.request hImg hdr library).next host = none)
    (fuel : Nat) : ¬Waiting (loadElfImage host (fuel + 1) hImg hdr library t) := by
  by_cases hvalid : hdr.Valid
  swap
  · rw [loadElfImage, if_pos hvalid]
    exact not_waiting_of_ok rfl
  by_cases hphoff : hdr.ePhoff = 0#32
  · rw [loadElfImage, if_neg (not_not.mpr hvalid), if_pos hphoff]
    exact not_waiting_of_ok rfl
  rw [loadElfImage_of_valid hvalid hphoff]
  have hloop := visitEntries_request host hImg hdr library t
  rw [Request.next, if_pos ⟨hvalid, hphoff⟩] at h
  cases hs : (t.request hImg hdr library).loopEnd host with
  | none =>
    rw [hs] at hloop
    obtain ⟨t', hrun⟩ := hloop
    simp only [Bind.bind, Comp.bind, hrun, Waiting, reduceCtorEq, exists_false, not_false_eq_true]
  | some s =>
    rw [hs] at hloop
    rw [hs, Option.bind_some] at h
    obtain ⟨t', hrun, hof⟩ := hloop
    have hend := @loadInterpreter_next host s t' hof (loadElfImage host fuel) s.loadok
    rw [h] at hend
    rw [Comp.bind_of_ok hrun]
    exact hend

/-- With an interpreter to load, a call waits exactly when that load does. -/
theorem waiting_iff_of_next_eq_some {r : Request}
    (h : (t.request hImg hdr library).next host = some r) :
    ∃ t', t'.request r.hImg r.hdr true = r ∧ ∀ fuel,
      (Waiting (loadElfImage host (fuel + 1) hImg hdr library t) ↔
        Waiting (loadElfImage host fuel r.hImg r.hdr true t')) := by
  rw [Request.next] at h
  split at h
  swap
  · cases h
  next hvalid =>
  have hloop := visitEntries_request host hImg hdr library t
  cases hs : (t.request hImg hdr library).loopEnd host with
  | none =>
    rw [hs] at h
    cases h
  | some s =>
    rw [hs] at hloop
    rw [hs, Option.bind_some] at h
    obtain ⟨t', hrun, hof⟩ := hloop
    have hend := fun fuel ↦
      @loadInterpreter_next host s t' hof (loadElfImage host fuel) s.loadok
    simp only [h] at hend
    refine ⟨t'.enterInterpreter, (hend 0).1, fun fuel ↦ ?_⟩
    rw [loadElfImage_of_valid (show hdr.Valid from hvalid.1) hvalid.2, Comp.bind_of_ok hrun]
    exact (hend fuel).2

end Next

/-! ## Following a path -/

/-- Where the lookup stands: at a path, for a library or not, or at an image. -/
inductive Place where
  | path (name : Str) (library : Bool)
  | image (r : Request)

/-- What the lookup goes on with: a script leads to its first word and a path to the ELF file
behind it, which is loaded into the process `t`, and an image to its interpreter. -/
def Place.next (host : Host) (t : Task) : Place → Option Place
  | .path name library =>
      match host.createFile name with
      | .error _ => none
      | .ok bytes =>
          if isElf (headerBuffer bytes) then
            some (.image (Task.request { t with loadData2 := none } (imageHandle bytes)
              (imageHdr bytes) library))
          else if isScript (headerBuffer bytes) then
            match scriptWords (headerBuffer bytes) with
            | some (word :: _) => some (.path word false)
            | _ => none
          else none
  | .image r => (r.next host).map .image

/-- A call of `LoadImage` or of `LoadElfImage` that the lookup makes. -/
inductive Call where
  | loadImage (path : Str) (library : Bool) (t : Task)
  | loadElfImage (hImg : Handle) (hdr : Elf32Hdr) (library : Bool) (t : Task)

/-- The call has come to its bound. -/
def Call.Stuck (host : Host) (fuel : Nat) : Call → Prop
  | .loadImage path library t => Waiting (Exec.loadImage host fuel path library t)
  | .loadElfImage hImg hdr library t => Waiting (Exec.loadElfImage host fuel hImg hdr library t)

/-- The place at which a call stands that began with the process `t`. -/
inductive Call.StandsFor (t : Task) : Call → Place → Prop
  | path (name : Str) (library : Bool) :
      StandsFor t (.loadImage name library t) (.path name library)
  | image {hImg : Handle} {hdr : Elf32Hdr} {library : Bool} {t' : Task} {r : Request}
      (h : t'.request hImg hdr library = r) :
      StandsFor t (.loadElfImage hImg hdr library t') (.image r)

section Path

variable {host : Host} {t : Task}

/-- Where nothing follows, a call comes to an end. -/
theorem not_stuck_of_next_eq_none {c : Call} {p : Place} (hc : c.StandsFor t p)
    (h : p.next host t = none) (fuel : Nat) : ¬c.Stuck host (fuel + 1) := by
  cases hc with
  | image hr =>
    rw [Place.next, Option.map_eq_none_iff, ← hr] at h
    exact not_waiting_of_next_eq_none h fuel
  | path name library =>
    rw [Place.next] at h
    change ¬Waiting (loadImage host (fuel + 1) name library t)
    rw [loadImage]
    cases finds host name with
    | missing hfile =>
      simp only [hfile]
      exact not_waiting_of_ok rfl
    | elf hfile helf => simp [hfile, helf] at h
    | script hfile helf hscript hwords => simp [hfile, helf, hscript, hwords] at h
    | blank hfile helf hscript hwords =>
      rcases hwords with hwords | hwords <;>
        simp [hfile, helf, hscript, hwords, Waiting, Comp.fault]
    | format hfile helf hscript =>
      simp only [hfile, helf, hscript, Bool.false_eq_true, if_false]
      exact not_waiting_of_ok rfl

/-- Where something follows, a call is stuck exactly when the call for that is. -/
theorem stuck_iff_of_next_eq_some {c : Call} {p q : Place} (hc : c.StandsFor t p)
    (h : p.next host t = some q) :
    ∃ c' : Call, c'.StandsFor t q ∧ ∀ fuel, (c.Stuck host (fuel + 1) ↔ c'.Stuck host fuel) := by
  cases hc with
  | image hr =>
    rw [Place.next, Option.map_eq_some_iff, ← hr] at h
    obtain ⟨r, hnext, rfl⟩ := h
    obtain ⟨t', hr', hiff⟩ := waiting_iff_of_next_eq_some hnext
    exact ⟨_, .image hr', hiff⟩
  | path name library =>
    rw [Place.next] at h
    cases finds host name with
    | missing hfile => simp [hfile] at h
    | elf hfile helf =>
      simp only [hfile, helf, if_true, Option.some.injEq] at h
      subst h
      refine ⟨_, .image rfl, fun fuel ↦ ?_⟩
      change Waiting (loadImage host (fuel + 1) name library t) ↔ _
      rw [loadImage]
      simp only [hfile, helf, if_true]
      exact Iff.rfl
    | @script _ word _ hfile helf hscript hwords =>
      simp only [hfile, helf, hscript, hwords, Bool.false_eq_true, if_false, if_true,
        Option.some.injEq] at h
      subst h
      refine ⟨_, .path word false, fun fuel ↦ ?_⟩
      change Waiting (loadImage host (fuel + 1) name library t) ↔ _
      rw [loadImage]
      simp only [hfile, helf, hscript, hwords, Bool.false_eq_true, if_false, if_true]
      exact waiting_bind fun _ _ ↦ not_waiting_of_ok rfl
    | blank hfile helf hscript hwords =>
      rcases hwords with hwords | hwords <;> simp [hfile, helf, hscript, hwords] at h
    | format hfile helf hscript => simp [hfile, helf, hscript] at h

/-- `LoadImage` is stuck at its bound exactly when the names go on for that long. -/
theorem waiting_loadImage_iff (host : Host) (fuel : Nat) (name : Str) (library : Bool) (t : Task) :
    Waiting (loadImage host fuel name library t) ↔
      chase (Place.next host t) fuel (.path name library) ≠ none := by
  refine stuck_iff (Call.StandsFor t) (Call.Stuck host) ?_ ?_ ?_ fuel (.path name library)
  · rintro (⟨name, library, t⟩ | ⟨hImg, hdr, library, t⟩)
    · exact ⟨t, rfl⟩
    · exact ⟨t, rfl⟩
  · exact fun c p hc h fuel ↦ not_stuck_of_next_eq_none hc h fuel
  · exact fun c p q hc h ↦ stuck_iff_of_next_eq_some hc h

/-- `CanLoadImage` follows the scripts only. -/
theorem waiting_of_canLoadImage {fuel : Nat} {name : Str} {library : Bool} {t t' : Task}
    (h : Waiting (canLoadImage host fuel name t')) :
    Waiting (loadImage host fuel name library t) := by
  induction fuel generalizing name library with
  | zero => exact ⟨t, rfl⟩
  | succ fuel ih =>
    rw [canLoadImage] at h
    rw [loadImage]
    cases finds host name with
    | missing hfile =>
      simp only [hfile] at h
      exact absurd h (not_waiting_of_ok rfl)
    | elf hfile helf =>
      simp only [hfile, helf, if_true] at h
      exact absurd h (not_waiting_of_ok rfl)
    | script hfile helf hscript hwords =>
      simp only [hfile, helf, hscript, hwords, Bool.false_eq_true, if_false, if_true] at h ⊢
      exact (waiting_bind fun _ _ ↦ not_waiting_of_ok rfl).mpr (ih h)
    | blank hfile helf hscript hwords =>
      rcases hwords with hwords | hwords <;>
        simp [hfile, helf, hscript, hwords, Waiting, Comp.fault] at h
    | format hfile helf hscript =>
      simp only [hfile, helf, hscript, Bool.false_eq_true, if_false] at h
      exact absurd h (not_waiting_of_ok rfl)

end Path

/-- The lookup of an image comes to an end, in the check and in the load. -/
def LookupEnds (host : Host) (name : Str) (library : Bool) (t : Task) : Prop :=
  ∃ n, ∀ fuel, n ≤ fuel → ¬Waiting (canLoadImage host fuel name t) ∧
    ¬Waiting (loadImage host fuel name library t)

/-- The lookup ends exactly when the names in the files do. -/
theorem lookupEnds_iff (host : Host) (name : Str) (library : Bool) (t : Task) :
    LookupEnds host name library t ↔ Ends (Place.next host t) (.path name library) := by
  rw [← ends_iff fun fuel ↦ waiting_loadImage_iff host fuel name library t]
  constructor
  · rintro ⟨n, hn⟩
    exact ⟨n, fun fuel hle ↦ (hn fuel hle).2⟩
  · rintro ⟨n, hn⟩
    exact ⟨n, fun fuel hle ↦ ⟨fun h ↦ hn fuel hle (waiting_of_canLoadImage h), hn fuel hle⟩⟩

/-- `#!/a` and a newline. -/
def ownScript : List UInt8 := ascii "#!/a\n"

/-- A script at `/a` that names itself. -/
theorem next_ownScript (t : Task) :
    Place.next (scriptsHost ownScript) t (.path (ascii "/a") false) =
      some (.path (ascii "/a") false) := by
  have hfile : (scriptsHost ownScript).createFile (ascii "/a") = .ok ownScript := by
    decide +kernel
  have helf : isElf (headerBuffer ownScript) = false := by decide +kernel
  have hscript : isScript (headerBuffer ownScript) = true := by decide +kernel
  have hwords : scriptWords (headerBuffer ownScript) = some [ascii "/a"] := by decide +kernel
  simp [Place.next, hfile, helf, hscript, hwords]

/-- Its lookup does not end. -/
theorem not_lookupEnds_ownScript :
    ¬LookupEnds (scriptsHost ownScript) (ascii "/a") false freshTask := by
  rintro ⟨n, hn⟩
  have hcycle : chase (Place.next (scriptsHost ownScript) freshTask) 1
      (.path (ascii "/a") false) = some (.path (ascii "/a") false) := by
    rw [chase, next_ownScript]
    rfl
  refine (hn n (Nat.le_refl n)).2 ((waiting_loadImage_iff ..).mpr fun hnone ↦ ?_)
  exact not_ends_of_cycle hcycle ⟨n, hnone⟩

end Keow.Exec
