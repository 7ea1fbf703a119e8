import Keow.Exec.Elf

/-!
# What an image asks for

`Request` is all that decides whether `LoadElfImage` succeeds and what it stores: the file, the
header, and the few numbers that earlier images and allocations have left. `Loadable` says when
it succeeds and `Request.patches` what it stores, both without running it; the run is shown to
agree with them.
-/

namespace Keow.Exec

open Keow.Base Keow.Kernel Keow.Paths

/-! ## Zero fills -/

/-- `FillMem` stores the whole range, and nothing for a length that is negative as an `int`. -/
theorem fillMem_eq (mem : UserMem) (toAddr : DWORD) (len : Int) (fill : UInt8) :
    fillMem mem toAddr len fill = mem.write toAddr (List.replicate len.toNat fill) := by
  fun_induction fillMem mem toAddr len fill with
  | case1 mem toAddr len hpos hbig ih =>
    have hsplit : len.toNat = 1024 + (len - 1024).toNat := by omega
    rw [ih, hsplit, ← Mem.write_write_replicate]
  | case2 mem toAddr len hpos hbig => rfl
  | case3 mem toAddr len hpos =>
    have hzero : len.toNat = 0 := by omega
    rw [hzero, List.replicate_zero, Mem.write_nil]

/-! ## Requests -/

/-- What `LoadElfImage` is called with, as far as its result depends on it. -/
structure Request where
  library : Bool
  lastLibAddr : DWORD
  interpreter : List UInt8
  allocations : List MemoryAlloc
  hImg : Handle
  hdr : Elf32Hdr

/-- The request a call makes. -/
def Task.request (t : Task) (hImg : Handle) (hdr : Elf32Hdr) (library : Bool) : Request :=
  ⟨library, t.pElfLoadData.lastLibAddr, t.pElfLoadData.interpreter, t.memoryAllocations, hImg, hdr⟩

namespace Request

variable (host : Host) (r : Request)

/-- Where the image goes. -/
def base : DWORD := r.hdr.baseAddr r.library r.lastLibAddr

/-- Its entry point. -/
def start : DWORD := r.hdr.eEntry + r.base

/-- Its program headers. -/
def entries : List Entry :=
  r.hdr.rounds r.hdr.ePhnum.toNat 0 r.hImg (host.uninitialised r.hdr.ePhentsize.toNat)

end Request

/-- The stores of a round: the widened segment is zeroed, then its file bytes are stored. -/
def Entry.patches (base : DWORD) (e : Entry) : List (Patch 32) :=
  if e.phdr.pType = PT_LOAD then
    [⟨e.phdr.alignedMem base, List.replicate (e.phdr.alignedSize base).toInt.toNat 0⟩,
      ⟨e.phdr.wantMem base, e.payload⟩]
  else []

/-- The allocations recorded after a round. -/
def Entry.allocations (base : DWORD) (allocs : List MemoryAlloc) (e : Entry) : List MemoryAlloc :=
  if e.phdr.pType = PT_LOAD then
    recordAlloc allocs (e.phdr.alignedMem base) (e.phdr.alignedSize base) PAGE_EXECUTE_READWRITE
  else allocs

/-- `last_lib_addr` after a round. -/
def Entry.lastLibAddr (base : DWORD) (library : Bool) (addr : DWORD) (e : Entry) : DWORD :=
  if e.phdr.pType = PT_LOAD ∧ library = true then
    maxAddr (e.phdr.alignedMem base + e.phdr.pMemsz) addr
  else addr

/-- `Interpreter` after a round. -/
def Entry.interpreter (interpreter : List UInt8) (e : Entry) : List UInt8 :=
  if e.phdr.pType = PT_INTERP then overwrite interpreter e.payload else interpreter

/-- The round stays inside its buffers, finds its segment whole in the file, and is given the
address it asks for. -/
def Entry.Accepted (host : Host) (hdr : Elf32Hdr) (base : DWORD) (allocs : List MemoryAlloc)
    (e : Entry) : Prop :=
  e.phdr.extent ≤ hdr.ePhentsize.toNat ∧
  (e.phdr.pType = PT_INTERP → e.payload.length ≤ maxPath) ∧
  (e.phdr.pType = PT_LOAD →
    host.allocateMem allocs (e.phdr.alignedMem base) (e.phdr.alignedSize base) =
      e.phdr.alignedMem base ∧
    (e.phdr.pFilesz = 0#32 ∨ e.payload.length = e.phdr.pFilesz.toNat))

instance (host : Host) (hdr : Elf32Hdr) (base : DWORD) (allocs : List MemoryAlloc) (e : Entry) :
    Decidable (e.Accepted host hdr base allocs) := by
  unfold Entry.Accepted
  infer_instance

/-- Every round is accepted, with the allocations of the rounds before it. -/
def AllAccepted (host : Host) (hdr : Elf32Hdr) (base : DWORD) :
    List MemoryAlloc → List Entry → Prop
  | _, [] => True
  | allocs, e :: es =>
      e.Accepted host hdr base allocs ∧ AllAccepted host hdr base (e.allocations base allocs) es

instance instDecidableAllAccepted (host : Host) (hdr : Elf32Hdr) (base : DWORD) :
    (allocs : List MemoryAlloc) → (es : List Entry) →
      Decidable (AllAccepted host hdr base allocs es)
  | _, [] => .isTrue trivial
  | allocs, e :: es =>
      haveI := instDecidableAllAccepted host hdr base (e.allocations base allocs) es
      inferInstanceAs (Decidable (_ ∧ _))

namespace Request

variable (host : Host) (r : Request)

/-- The stores of the image itself. -/
def ownPatches : List (Patch 32) := (r.entries host).flatMap (Entry.patches r.base)

/-- The name of the interpreter after all rounds; empty if there is none. -/
def interpreterName : Option Str :=
  Exec.interpreterName
    ((r.entries host).foldl Entry.interpreter (overwrite r.interpreter [0]))

/-- What the interpreter of the image is loaded with. -/
def ofInterpreter (bytes : List UInt8) : Request where
  library := true
  lastLibAddr := (r.entries host).foldl (Entry.lastLibAddr r.base r.library) r.lastLibAddr
  interpreter := (r.entries host).foldl Entry.interpreter (overwrite r.interpreter [0])
  allocations := (r.entries host).foldl (Entry.allocations r.base) r.allocations
  hImg := ⟨bytes, (bytes.take sizeofHdr).length⟩
  hdr := host.hdr2 bytes

end Request

/-- All the stores of an image and the interpreters behind it, at most `depth` images deep. -/
def Request.patches (host : Host) : Nat → Request → List (Patch 32)
  | 0, _ => []
  | depth + 1, r =>
      r.ownPatches host ++
        match r.interpreterName host with
        | none => []
        | some [] => []
        | some name =>
            match host.createFile name with
            | .error _ => []
            | .ok bytes => (r.ofInterpreter host bytes).patches host depth

/-- The stores of the interpreters behind an image. -/
def Request.interpreterPatches (host : Host) (depth : Nat) (r : Request) : List (Patch 32) :=
  match r.interpreterName host with
  | none => []
  | some [] => []
  | some name =>
      match host.createFile name with
      | .error _ => []
      | .ok bytes => (r.ofInterpreter host bytes).patches host depth

theorem patches_succ (host : Host) (depth : Nat) (r : Request) :
    r.patches host (depth + 1) = r.ownPatches host ++ r.interpreterPatches host depth := rfl

/-- The image and the interpreters behind it can be loaded, at most `depth` images deep: the
header is valid, every round is accepted, and the interpreter, if there is one, is no IBCS one,
exists and can be loaded. -/
def Loadable (host : Host) : Nat → Request → Prop
  | 0, _ => False
  | depth + 1, r =>
      r.hdr.Valid ∧ r.hdr.ePhoff ≠ 0#32 ∧
      AllAccepted host r.hdr r.base r.allocations (r.entries host) ∧
      (r.interpreterName host = some [] ∨
        ∃ name bytes, r.interpreterName host = some name ∧ name ≠ [] ∧
          ¬ibcsInterpreters.contains name ∧ host.createFile name = .ok bytes ∧
          Loadable host depth (r.ofInterpreter host bytes))

/-! ## Rounds -/

section Setters

variable (t : Task) (f : ElfLoadData → ElfLoadData) (g : UserMem → UserMem)

@[simp] theorem setMem_memoryAllocations :
    (t.setMem g).memoryAllocations = t.memoryAllocations := rfl
@[simp] theorem setMem_pElfLoadData : (t.setMem g).pElfLoadData = t.pElfLoadData := rfl
@[simp] theorem setMem_loadData2 : (t.setMem g).loadData2 = t.loadData2 := rfl
@[simp] theorem setMem_mem : (t.setMem g).world.mem = g t.world.mem := rfl

@[simp] theorem setElfLoadData_memoryAllocations :
    (t.setElfLoadData f).memoryAllocations = t.memoryAllocations := by
  unfold Task.setElfLoadData
  split <;> rfl

@[simp] theorem setElfLoadData_world : (t.setElfLoadData f).world = t.world := by
  unfold Task.setElfLoadData
  split <;> rfl

@[simp] theorem setElfLoadData_pElfLoadData :
    (t.setElfLoadData f).pElfLoadData = f t.pElfLoadData := by
  unfold Task.setElfLoadData Task.pElfLoadData
  split <;> simp_all

theorem setElfLoadData_elfLoadData (h : t.loadData2.isSome = true) :
    (t.setElfLoadData f).elfLoadData = t.elfLoadData := by
  unfold Task.setElfLoadData
  split
  · rfl
  · next hnone => simp [hnone] at h

theorem setElfLoadData_id : t.setElfLoadData id = t := by
  unfold Task.setElfLoadData
  split
  · next d h => rw [id, ← h]
  · rfl

@[simp] theorem setElfLoadData_loadData2 :
    (t.setElfLoadData f).loadData2 = t.loadData2.map f := by
  unfold Task.setElfLoadData
  split <;> simp_all

end Setters

/-- The load data after an accepted round. -/
def Entry.recorded (hdr : Elf32Hdr) (base : DWORD) (library : Bool) (e : Entry)
    (d : ElfLoadData) : ElfLoadData :=
  if e.phdr.pType = PT_LOAD then d.recordSegment base library e.phdr
  else if e.phdr.pType = PT_PHDR then d.recordPhdr hdr base e.phdr
  else if e.phdr.pType = PT_INTERP then d.recordInterpreter e.payload
  else d

/-- The task after an accepted round. -/
def Task.visited (hdr : Elf32Hdr) (base : DWORD) (library : Bool) (t : Task) (e : Entry) : Task :=
  (Task.setMem (fun mem ↦ mem.patch (e.patches base))
    { t with memoryAllocations := e.allocations base t.memoryAllocations }).setElfLoadData
      (e.recorded hdr base library)

section Recorded

variable (hdr : Elf32Hdr) (base : DWORD) (library : Bool) (e : Entry) (d : ElfLoadData)

theorem lastLibAddr_recorded :
    (e.recorded hdr base library d).lastLibAddr = e.lastLibAddr base library d.lastLibAddr := by
  unfold Entry.recorded Entry.lastLibAddr
  by_cases hload : e.phdr.pType = PT_LOAD
  · cases library <;> simp [hload, ElfLoadData.recordSegment]
  · simp only [hload, if_false, false_and]
    split
    · rfl
    · split <;> rfl

theorem interpreter_recorded :
    (e.recorded hdr base library d).interpreter = e.interpreter d.interpreter := by
  unfold Entry.recorded Entry.interpreter
  split
  · next h =>
    rw [if_neg (by rw [h]; decide)]
    cases library <;> rfl
  · split
    · next h =>
      rw [if_neg (by rw [h]; decide)]
      rfl
    · split <;> rfl

theorem starts_recorded :
    (e.recorded hdr base library d).startAddr = d.startAddr ∧
      (e.recorded hdr base library d).interpreterStart = d.interpreterStart := by
  unfold Entry.recorded
  split
  · cases library <;> exact ⟨rfl, rfl⟩
  · split
    · exact ⟨rfl, rfl⟩
    · split <;> exact ⟨rfl, rfl⟩

end Recorded

theorem loadSegment_eq_true (host : Host) (hdr : Elf32Hdr) (base : DWORD) (library : Bool)
    {e : Entry} (he : e.phdr.pType = PT_LOAD) (t t' : Task) :
    loadSegment host base library e t = .ok true t' ↔
      (host.allocateMem t.memoryAllocations (e.phdr.alignedMem base) (e.phdr.alignedSize base) =
        e.phdr.alignedMem base ∧
      (e.phdr.pFilesz = 0#32 ∨ e.payload.length = e.phdr.pFilesz.toNat)) ∧
      t' = t.visited hdr base library e := by
  have hpatch : ∀ mem : UserMem, Mem.patch mem (e.patches base) =
      (fillMem mem (e.phdr.alignedMem base) (e.phdr.alignedSize base).toInt 0).write
        (e.phdr.wantMem base) e.payload := by
    intro mem
    rw [Entry.patches, if_pos he, fillMem_eq]
    rfl
  have hallocs : ∀ t : Task, e.allocations base t.memoryAllocations = recordAlloc
      t.memoryAllocations (e.phdr.alignedMem base) (e.phdr.alignedSize base)
      PAGE_EXECUTE_READWRITE := fun t ↦ if_pos he
  have hrecorded : e.recorded hdr base library = ElfLoadData.recordSegment base library e.phdr :=
    funext (fun d ↦ if_pos he)
  rw [Task.visited, hallocs, hrecorded]
  simp only [hpatch, loadSegment, allocateMemAndProtect, Bind.bind, Comp.bind, Comp.get,
    Comp.modify, Pure.pure, Comp.pure]
  by_cases hmem : host.allocateMem t.memoryAllocations (e.phdr.alignedMem base)
      (e.phdr.alignedSize base) = e.phdr.alignedMem base
  · by_cases hlen : e.phdr.pFilesz ≠ 0#32 ∧ e.payload.length ≠ e.phdr.pFilesz.toNat
    · simp [hmem, hlen, Comp.bind, Comp.modify, Comp.pure]
    · have hor : e.phdr.pFilesz = 0#32 ∨ e.payload.length = e.phdr.pFilesz.toNat := by
        rwa [not_and_or, not_not, not_not] at hlen
      simp only [hmem, ne_eq, not_true_eq_false, if_false, if_neg hlen, Comp.bind, Comp.modify,
        Comp.pure, Result.ok.injEq, true_and, hor]
      exact eq_comm
  · simp [hmem, Comp.pure]

private theorem record_eq_true (f : Task → Task) (t t' : Task) :
    (do Comp.modify f; return true : X Bool) t = .ok true t' ↔ t' = f t := by
  simp only [Comp.bind_eq_ok, Comp.modify_eq_ok, Comp.pure_eq_ok, true_and]
  constructor
  · rintro ⟨_, _, h, rfl⟩
    exact h.symm
  · rintro rfl
    exact ⟨⟨⟩, _, rfl, rfl⟩

/-- What a round does: it goes on exactly when it is accepted. -/
theorem visitEntry_eq_true (host : Host) (hdr : Elf32Hdr) (base : DWORD) (library : Bool)
    (e : Entry) (t t' : Task) :
    visitEntry host hdr base library e t = .ok true t' ↔
      e.Accepted host hdr base t.memoryAllocations ∧ t' = t.visited hdr base library e := by
  unfold visitEntry Entry.Accepted
  by_cases hext : hdr.ePhentsize.toNat < e.phdr.extent
  · have hnot : ¬e.phdr.extent ≤ hdr.ePhentsize.toNat := by omega
    simp [hext, hnot]
  have hle : e.phdr.extent ≤ hdr.ePhentsize.toNat := by omega
  rw [if_neg hext]
  by_cases hload : e.phdr.pType = PT_LOAD
  · have hint : e.phdr.pType ≠ PT_INTERP := by
      rw [hload]
      decide
    rw [if_pos hload, loadSegment_eq_true host hdr base library hload]
    simp only [hle, hint, false_implies, true_and, forall_prop_of_true hload]
  have hvisited : t.visited hdr base library e =
      t.setElfLoadData (e.recorded hdr base library) := by
    rw [Task.visited, Entry.patches, Entry.allocations, if_neg hload, if_neg hload]
    rfl
  rw [if_neg hload, hvisited]
  by_cases hphdr : e.phdr.pType = PT_PHDR
  · have hint : e.phdr.pType ≠ PT_INTERP := by
      rw [hphdr]
      decide
    have hrecorded : e.recorded hdr base library = ElfLoadData.recordPhdr hdr base e.phdr :=
      funext (fun d ↦ by rw [Entry.recorded, if_neg hload, if_pos hphdr])
    rw [if_pos hphdr, record_eq_true, hrecorded]
    simp only [hle, hload, hint, false_implies, true_and]
  rw [if_neg hphdr]
  by_cases hint : e.phdr.pType = PT_INTERP
  · have hrecorded : e.recorded hdr base library = ElfLoadData.recordInterpreter e.payload :=
      funext (fun d ↦ by rw [Entry.recorded, if_neg hload, if_neg hphdr, if_pos hint])
    rw [if_pos hint]
    by_cases hlen : maxPath < e.payload.length
    · have hnot : ¬e.payload.length ≤ maxPath := by omega
      simp only [if_pos hlen, Comp.fault_ne_ok, forall_prop_of_true hint, hnot, false_and,
        and_false]
    · have hlen' : e.payload.length ≤ maxPath := by omega
      rw [if_neg hlen, record_eq_true, hrecorded]
      simp only [hle, hload, hlen', false_implies, implies_true, true_and]
  · have hrecorded : e.recorded hdr base library = id :=
      funext (fun d ↦ by rw [Entry.recorded, if_neg hload, if_neg hphdr, if_neg hint, id])
    rw [if_neg hint, Comp.pure_eq_ok, hrecorded, setElfLoadData_id]
    simp only [hle, hload, hint, false_implies, true_and]
    exact eq_comm

/-- The loop runs to its end exactly when every round is accepted. -/
theorem visitEntries_eq_true (host : Host) (hdr : Elf32Hdr) (base : DWORD) (library : Bool)
    (es : List Entry) (t t' : Task) :
    visitEntries host hdr base library es t = .ok true t' ↔
      AllAccepted host hdr base t.memoryAllocations es ∧
        t' = es.foldl (Task.visited hdr base library) t := by
  induction es generalizing t with
  | nil =>
    simp only [visitEntries, AllAccepted, List.foldl_nil, Comp.pure_eq_ok, true_and]
    exact eq_comm
  | cons e es ih =>
    have hallocs : (t.visited hdr base library e).memoryAllocations =
        e.allocations base t.memoryAllocations := by
      simp [Task.visited]
    simp only [visitEntries, AllAccepted, List.foldl_cons, Comp.bind_eq_ok]
    constructor
    · rintro ⟨go, t₁, hround, hrest⟩
      cases go with
      | false => simp at hrest
      | true =>
        obtain ⟨hacc, rfl⟩ := (visitEntry_eq_true ..).mp hround
        have hrest := (ih _).mp hrest
        rw [hallocs] at hrest
        exact ⟨⟨hacc, hrest.1⟩, hrest.2⟩
    · rintro ⟨⟨hacc, hall⟩, ht⟩
      refine ⟨true, _, (visitEntry_eq_true ..).mpr ⟨hacc, rfl⟩, ?_⟩
      rw [if_pos rfl, ih, hallocs]
      exact ⟨hall, ht⟩

/-! ## Images -/

/-- What the rounds leave behind, field by field. -/
structure RoundsDone (host : Host) (r : Request) (t t₁ : Task) : Prop where
  mem : t₁.world.mem = t.world.mem.patch (r.ownPatches host)
  allocations :
    t₁.memoryAllocations = (r.entries host).foldl (Entry.allocations r.base) r.allocations
  lastLibAddr : t₁.pElfLoadData.lastLibAddr =
    (r.entries host).foldl (Entry.lastLibAddr r.base r.library) r.lastLibAddr
  interpreter : t₁.pElfLoadData.interpreter =
    (r.entries host).foldl Entry.interpreter (overwrite r.interpreter [0])
  start : t₁.pElfLoadData.startAddr = r.start
  interpreterStart : t₁.pElfLoadData.interpreterStart = t.pElfLoadData.interpreterStart
  loadData2 : t₁.loadData2.isSome = t.loadData2.isSome
  elfLoadData : t.loadData2.isSome = true → t₁.elfLoadData = t.elfLoadData

/-- The task after all rounds of an image. -/
def Task.afterRounds (host : Host) (hImg : Handle) (hdr : Elf32Hdr) (library : Bool) (t : Task) :
    Task :=
  ((t.request hImg hdr library).entries host).foldl
    (Task.visited hdr (t.request hImg hdr library).base library)
    (t.setElfLoadData (ElfLoadData.begin hdr library))

section Fold

variable (hdr : Elf32Hdr) (base : DWORD) (library : Bool) (es : List Entry) (t : Task)

theorem mem_foldl_visited :
    (es.foldl (Task.visited hdr base library) t).world.mem =
      t.world.mem.patch (es.flatMap (Entry.patches base)) := by
  induction es generalizing t with
  | nil => rfl
  | cons e es ih =>
    rw [List.foldl_cons, ih, List.flatMap_cons, Mem.patch_append]
    simp [Task.visited]

theorem memoryAllocations_foldl_visited :
    (es.foldl (Task.visited hdr base library) t).memoryAllocations =
      es.foldl (Entry.allocations base) t.memoryAllocations := by
  apply Eq.symm
  apply List.foldl_hom Task.memoryAllocations
  intro t e
  simp [Task.visited]

theorem pElfLoadData_foldl_visited :
    (es.foldl (Task.visited hdr base library) t).pElfLoadData =
      es.foldl (fun d e ↦ e.recorded hdr base library d) t.pElfLoadData := by
  apply Eq.symm
  apply List.foldl_hom Task.pElfLoadData
  intro t e
  rw [Task.visited, setElfLoadData_pElfLoadData]
  rfl

theorem loadData2_foldl_visited :
    (es.foldl (Task.visited hdr base library) t).loadData2.isSome = t.loadData2.isSome := by
  induction es generalizing t with
  | nil => rfl
  | cons e es ih =>
    rw [List.foldl_cons, ih]
    simp [Task.visited]

theorem elfLoadData_foldl_visited (h : t.loadData2.isSome = true) :
    (es.foldl (Task.visited hdr base library) t).elfLoadData = t.elfLoadData := by
  induction es generalizing t with
  | nil => rfl
  | cons e es ih =>
    rw [List.foldl_cons, ih, Task.visited, setElfLoadData_elfLoadData]
    · rfl
    · exact h
    · simpa [Task.visited] using h

end Fold

theorem roundsDone_afterRounds (host : Host) (hImg : Handle) (hdr : Elf32Hdr) (library : Bool)
    (t : Task) :
    RoundsDone host (t.request hImg hdr library) t (t.afterRounds host hImg hdr library) := by
  have hdata := pElfLoadData_foldl_visited hdr (t.request hImg hdr library).base library
    ((t.request hImg hdr library).entries host) (t.setElfLoadData (ElfLoadData.begin hdr library))
  rw [setElfLoadData_pElfLoadData] at hdata
  have hstarts : ∀ (es : List Entry) (d : ElfLoadData) (base : DWORD),
      (es.foldl (fun d e ↦ e.recorded hdr base library d) d).startAddr = d.startAddr ∧
      (es.foldl (fun d e ↦ e.recorded hdr base library d) d).interpreterStart =
        d.interpreterStart := by
    intro es d base
    induction es generalizing d with
    | nil => exact ⟨rfl, rfl⟩
    | cons e es ih =>
      have hone := starts_recorded hdr base library e d
      rw [List.foldl_cons, (ih _).1, (ih _).2]
      exact hone
  constructor
  · rw [Task.afterRounds, mem_foldl_visited, setElfLoadData_world]
    rfl
  · rw [Task.afterRounds, memoryAllocations_foldl_visited, setElfLoadData_memoryAllocations]
    rfl
  · rw [Task.afterRounds, hdata]
    exact (List.foldl_hom ElfLoadData.lastLibAddr
      (fun d e ↦ (lastLibAddr_recorded hdr _ library e d).symm)).symm
  · rw [Task.afterRounds, hdata]
    exact (List.foldl_hom ElfLoadData.interpreter
      (fun d e ↦ (interpreter_recorded hdr _ library e d).symm)).symm
  · rw [Task.afterRounds, hdata, (hstarts _ _ _).1]
    rfl
  · rw [Task.afterRounds, hdata, (hstarts _ _ _).2]
    rfl
  · rw [Task.afterRounds, loadData2_foldl_visited, setElfLoadData_loadData2, Option.isSome_map]
  · intro h
    rw [Task.afterRounds, elfLoadData_foldl_visited, setElfLoadData_elfLoadData t _ h]
    rw [setElfLoadData_loadData2, Option.isSome_map, h]

/-- The interpreter is asked for with what the rounds leave. -/
theorem request_enterInterpreter {host : Host} {r : Request} {t t₁ : Task}
    (h : RoundsDone host r t t₁) (bytes : List UInt8) :
    t₁.enterInterpreter.request ⟨bytes, (bytes.take sizeofHdr).length⟩ (host.hdr2 bytes) true =
      r.ofInterpreter host bytes := by
  have hdata : t₁.enterInterpreter.pElfLoadData = t₁.pElfLoadData := rfl
  have hallocs : t₁.enterInterpreter.memoryAllocations = t₁.memoryAllocations := rfl
  rw [Task.request, hdata, hallocs, h.lastLibAddr, h.interpreter, h.allocations]
  rfl

theorem loadResult_eq_zero {loadok : Bool} : loadResult loadok = 0#32 ↔ loadok = true := by
  cases loadok <;> decide

theorem loadInterpreter_eq_zero (host : Host) (load : Handle → Elf32Hdr → Bool → X DWORD)
    (loadok : Bool) (t t' : Task) :
    loadInterpreter host load loadok t = .ok 0#32 t' ↔
      loadok = true ∧
      (interpreterName t.pElfLoadData.interpreter = some [] ∧ t' = t ∨
        ∃ name bytes t₂, interpreterName t.pElfLoadData.interpreter = some name ∧
          name ≠ [] ∧ ¬ibcsInterpreters.contains name ∧ host.createFile name = .ok bytes ∧
          load ⟨bytes, (bytes.take sizeofHdr).length⟩ (host.hdr2 bytes) true
            t.enterInterpreter = .ok 0#32 t₂ ∧
          t' = t₂.leaveInterpreter t.loadData2) := by
  simp only [loadInterpreter, Comp.bind_eq_ok, Comp.get_eq_ok]
  constructor
  · rintro ⟨_, _, ⟨rfl, rfl⟩, hrun⟩
    cases hname : interpreterName t.pElfLoadData.interpreter with
    | none => simp [hname] at hrun
    | some name =>
      rw [hname] at hrun
      cases name with
      | nil =>
        obtain ⟨hok, rfl⟩ := Comp.pure_eq_ok.mp hrun
        exact ⟨loadResult_eq_zero.mp hok, .inl ⟨rfl, rfl⟩⟩
      | cons c cs =>
        cases hfile : host.createFile (c :: cs) with
        | error err =>
          simp only [hfile, Comp.pure_eq_ok] at hrun
          exact absurd hrun.1 (by decide)
        | ok bytes =>
          simp only [hfile, Comp.bind_eq_ok, Comp.modify_eq_ok, Comp.pure_eq_ok] at hrun
          obtain ⟨_, _, rfl, rc, t₂, hload, _, _, rfl, hok, rfl⟩ := hrun
          simp only [loadResult_eq_zero, Bool.and_eq_true, Bool.not_eq_true', beq_iff_eq] at hok
          obtain ⟨⟨hok, hibcs⟩, rfl⟩ := hok
          refine ⟨hok, .inr ⟨_, bytes, t₂, rfl, by simp, ?_, hfile, hload, rfl⟩⟩
          rw [hibcs]
          decide
  · rintro ⟨rfl, ⟨hname, rfl⟩ | ⟨name, bytes, t₂, hname, hne, hibcs, hfile, hload, rfl⟩⟩
    · refine ⟨_, _, ⟨rfl, rfl⟩, ?_⟩
      rw [hname]
      rfl
    · refine ⟨_, _, ⟨rfl, rfl⟩, ?_⟩
      rw [hname]
      cases name with
      | nil => exact absurd rfl hne
      | cons c cs =>
        simp only [hfile, Comp.bind_eq_ok, Comp.modify_eq_ok, Comp.pure_eq_ok]
        refine ⟨⟨⟩, _, rfl, 0#32, t₂, hload, ⟨⟩, _, rfl, ?_, rfl⟩
        rw [loadResult_eq_zero]
        simpa using hibcs

/-- How a call comes to return 0. -/
theorem loadElfImage_eq_zero (host : Host) (fuel : Nat) (hImg : Handle) (hdr : Elf32Hdr)
    (library : Bool) (t t' : Task) :
    loadElfImage host (fuel + 1) hImg hdr library t = .ok 0#32 t' ↔
      hdr.Valid ∧ hdr.ePhoff ≠ 0#32 ∧
      AllAccepted host hdr (t.request hImg hdr library).base t.memoryAllocations
        ((t.request hImg hdr library).entries host) ∧
      ((t.request hImg hdr library).interpreterName host = some [] ∧
          t' = t.afterRounds host hImg hdr library ∨
        ∃ name bytes t₂, (t.request hImg hdr library).interpreterName host = some name ∧
          name ≠ [] ∧ ¬ibcsInterpreters.contains name ∧ host.createFile name = .ok bytes ∧
          loadElfImage host fuel ⟨bytes, (bytes.take sizeofHdr).length⟩ (host.hdr2 bytes) true
            (t.afterRounds host hImg hdr library).enterInterpreter = .ok 0#32 t₂ ∧
          t' = t₂.leaveInterpreter (t.afterRounds host hImg hdr library).loadData2) := by
  have hdone := roundsDone_afterRounds host hImg hdr library t
  have hname : interpreterName (t.afterRounds host hImg hdr library).pElfLoadData.interpreter =
      (t.request hImg hdr library).interpreterName host := by
    rw [hdone.interpreter]
    rfl
  have hallocs : (t.setElfLoadData (ElfLoadData.begin hdr library)).memoryAllocations =
      t.memoryAllocations := setElfLoadData_memoryAllocations t _
  rw [loadElfImage]
  by_cases hvalid : hdr.Valid
  swap
  · simp only [hvalid, not_false_eq_true, if_true, Comp.pure_eq_ok, false_and, iff_false]
    exact fun h ↦ absurd h.1 (by decide)
  by_cases hphoff : hdr.ePhoff = 0#32
  · simp only [hvalid, hphoff, not_true_eq_false, if_false, if_true, Comp.pure_eq_ok, ne_eq,
      false_and, and_false, iff_false]
    exact fun h ↦ absurd h.1 (by decide)
  simp only [hvalid, hphoff, not_true_eq_false, if_false, ne_eq, not_false_eq_true, true_and,
    Comp.bind_eq_ok, Comp.get_eq_ok, Comp.modify_eq_ok]
  constructor
  · rintro ⟨_, _, ⟨rfl, rfl⟩, _, _, rfl, loadok, t₁, hrounds, hrest⟩
    obtain ⟨rfl, hend⟩ := (loadInterpreter_eq_zero ..).mp hrest
    obtain ⟨hacc, ht₁⟩ := (visitEntries_eq_true ..).mp hrounds
    have ht₁ : t₁ = t.afterRounds host hImg hdr library := ht₁
    rw [hallocs] at hacc
    rw [ht₁, hname] at hend
    exact ⟨hacc, hend⟩
  · rintro ⟨hacc, hrest⟩
    refine ⟨_, _, ⟨rfl, rfl⟩, ⟨⟩, _, rfl, true, t.afterRounds host hImg hdr library, ?_, ?_⟩
    · rw [visitEntries_eq_true, hallocs]
      exact ⟨hacc, rfl⟩
    · rw [loadInterpreter_eq_zero, hname]
      exact ⟨rfl, hrest⟩

/-! ## Whole loads -/

/-- What a call that returns 0 has done. -/
structure Loaded (host : Host) (fuel : Nat) (r : Request) (t t' : Task) : Prop where
  mem : t'.world.mem = t.world.mem.patch (r.patches host fuel)
  start : t'.pElfLoadData.startAddr = r.start
  loadData2 : t'.loadData2.isSome = t.loadData2.isSome
  /-- A copy of the load data keeps the entry point of the process safe. -/
  member : t.loadData2.isSome = true → t'.elfLoadData.startAddr = t.elfLoadData.startAddr

/-- A call that returns 0 was loadable, and has stored what the request says. -/
theorem loaded_of_eq_zero {host : Host} {fuel : Nat} {hImg : Handle} {hdr : Elf32Hdr}
    {library : Bool} {t t' : Task}
    (h : loadElfImage host fuel hImg hdr library t = .ok 0#32 t') :
    Loadable host fuel (t.request hImg hdr library) ∧
      Loaded host fuel (t.request hImg hdr library) t t' := by
  induction fuel generalizing hImg hdr library t t' with
  | zero => exact absurd h Comp.wait_ne_ok
  | succ fuel ih =>
    obtain ⟨hvalid, hphoff, hacc, hend⟩ := (loadElfImage_eq_zero ..).mp h
    have hdone := roundsDone_afterRounds host hImg hdr library t
    rcases hend with ⟨hname, rfl⟩ | ⟨name, bytes, t₂, hname, hne, hibcs, hfile, hload, rfl⟩
    · refine ⟨⟨hvalid, hphoff, hacc, .inl hname⟩, ?_, hdone.start, hdone.loadData2, ?_⟩
      · rw [hdone.mem, patches_succ, Request.interpreterPatches, hname, List.append_nil]
      · intro hcopy
        rw [hdone.elfLoadData hcopy]
    · obtain ⟨hloadable, hloaded⟩ := ih hload
      rw [request_enterInterpreter hdone] at hloadable hloaded
      refine ⟨⟨hvalid, hphoff, hacc, .inr ⟨name, bytes, hname, hne, hibcs, hfile, hloadable⟩⟩,
        ?_, ?_, hdone.loadData2, ?_⟩
      · have hmem : t₂.world.mem = (t.afterRounds host hImg hdr library).world.mem.patch
            (((t.request hImg hdr library).ofInterpreter host bytes).patches host fuel) :=
          hloaded.mem
        have hpatches : (t.request hImg hdr library).patches host (fuel + 1) =
            (t.request hImg hdr library).ownPatches host ++
              ((t.request hImg hdr library).ofInterpreter host bytes).patches host fuel := by
          cases name with
          | nil => exact absurd rfl hne
          | cons c cs => simp only [patches_succ, Request.interpreterPatches, hname, hfile]
        rw [hpatches, Mem.patch_append, ← hdone.mem, ← hmem]
        rfl
      · -- written to the copy or to the process, the entry point is the one of the rounds
        have hmember : t₂.elfLoadData.startAddr =
            (t.afterRounds host hImg hdr library).elfLoadData.startAddr := hloaded.member rfl
        have hstart := hdone.start
        unfold Task.pElfLoadData at hstart ⊢
        cases hcopy : (t.afterRounds host hImg hdr library).loadData2 with
        | some d =>
          rw [hcopy] at hstart
          exact hstart
        | none =>
          rw [hcopy] at hstart
          exact hmember.trans hstart
      · intro hcopy
        have hmember : t₂.elfLoadData.startAddr =
            (t.afterRounds host hImg hdr library).elfLoadData.startAddr := hloaded.member rfl
        exact hmember.trans (by rw [hdone.elfLoadData hcopy])

/-- A loadable image is loaded. -/
theorem exists_eq_zero_of_loadable {host : Host} {fuel : Nat} {hImg : Handle} {hdr : Elf32Hdr}
    {library : Bool} {t : Task} (h : Loadable host fuel (t.request hImg hdr library)) :
    ∃ t', loadElfImage host fuel hImg hdr library t = .ok 0#32 t' := by
  induction fuel generalizing hImg hdr library t with
  | zero => exact absurd h not_false
  | succ fuel ih =>
    obtain ⟨hvalid, hphoff, hacc, hend⟩ := h
    rcases hend with hname | ⟨name, bytes, hname, hne, hibcs, hfile, hrest⟩
    · exact ⟨_, (loadElfImage_eq_zero ..).mpr ⟨hvalid, hphoff, hacc, .inl ⟨hname, rfl⟩⟩⟩
    · have hdone := roundsDone_afterRounds host hImg hdr library t
      rw [← request_enterInterpreter hdone] at hrest
      obtain ⟨t₂, hload⟩ := ih hrest
      exact ⟨_, (loadElfImage_eq_zero ..).mpr ⟨hvalid, hphoff, hacc,
        .inr ⟨name, bytes, t₂, hname, hne, hibcs, hfile, hload, rfl⟩⟩⟩

/-- More room for interpreters changes nothing. -/
theorem loadable_mono {host : Host} {depth depth' : Nat} {r : Request} (hle : depth ≤ depth')
    (h : Loadable host depth r) : Loadable host depth' r := by
  induction depth generalizing depth' r with
  | zero => exact absurd h not_false
  | succ depth ih =>
    cases depth' with
    | zero => omega
    | succ depth' =>
      obtain ⟨hvalid, hphoff, hacc, hend⟩ := h
      refine ⟨hvalid, hphoff, hacc, ?_⟩
      rcases hend with hname | ⟨name, bytes, hname, hne, hibcs, hfile, hrest⟩
      · exact .inl hname
      · exact .inr ⟨name, bytes, hname, hne, hibcs, hfile, ih (by omega) hrest⟩

end Keow.Exec
