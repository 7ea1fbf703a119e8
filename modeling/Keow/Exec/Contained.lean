import Keow.Base.Recorder
import Keow.Exec.Libraries
import Keow.Exec.Lookup

/-!
# Where loading an image reads and writes

`LoadElfImage` once more, with a record of its accesses to three buffers whose sizes do not
come from the same place as the lengths: the `e_phentsize` bytes of a program header, the
`MAX_PATH` bytes of `Interpreter`, and the region that is allocated for a segment. Nothing
checks the lengths, `Process.cpp:1083–1182`.
-/

namespace Keow.Exec

open Keow.Base Keow.Kernel Keow.Paths

/-! ## Accesses -/

/-- An access of `LoadElfImage`. -/
inductive Access where
  /-- A field at an offset of the header buffer is read. -/
  | field (offset bufLen : Nat)
  /-- `ReadFile` delivers bytes into `Interpreter`. -/
  | interpreter (len : Nat)
  /-- Bytes of the file are stored for the segment that a region was allocated for. -/
  | segment (region size addr : DWORD) (len : Nat)

/-- It stays inside its buffer. -/
def Access.Inside : Access → Prop
  | .field offset bufLen => offset + 4 ≤ bufLen
  | .interpreter len => len ≤ maxPath
  | .segment region size addr len =>
      ∀ i < len, (addr + BitVec.ofNat 32 i - region).toNat < size.toNat

/-- The offsets of the fields that a header of this type makes the loop read. -/
def Phdr.fieldsRead (p : Phdr) : List Nat :=
  if p.pType = PT_LOAD then [0, 24, 8, 20, 28, 4, 16]
  else if p.pType = PT_PHDR then [0, 8]
  else if p.pType = PT_INTERP then [0, 4, 16]
  else [0]

/-- A computation of the kernel thread with the accesses it has made. -/
abbrev XR := Comp (Task × List Access)

/-- `loadSegment`. -/
def loadSegmentR (host : Host) (base : DWORD) (library : Bool) (e : Entry) : XR Bool := do
  let pMem ← Comp.silent (allocateMemAndProtect host (e.phdr.alignedMem base)
    (e.phdr.alignedSize base) PAGE_EXECUTE_READWRITE)
  if pMem ≠ e.phdr.alignedMem base then return false
  else
    Comp.silent (Comp.modify (Task.setMem (fun mem ↦
      fillMem mem (e.phdr.alignedMem base) (e.phdr.alignedSize base).toInt 0)))
    if e.phdr.pFilesz ≠ 0#32 ∧ e.payload.length ≠ e.phdr.pFilesz.toNat then return false
    else
      Comp.record [.segment (e.phdr.alignedMem base) (e.phdr.alignedSize base)
        (e.phdr.wantMem base) e.payload.length]
      Comp.silent (Comp.modify (Task.setMem (fun mem ↦ mem.write (e.phdr.wantMem base) e.payload)))
      Comp.silent (Comp.modify
        (Task.setElfLoadData (ElfLoadData.recordSegment base library e.phdr)))
      return true

/-- `visitEntry`. -/
def visitEntryR (host : Host) (hdr : Elf32Hdr) (base : DWORD) (library : Bool) (e : Entry) :
    XR Bool := do
  Comp.record (e.phdr.fieldsRead.map (Access.field · hdr.ePhentsize.toNat))
  if hdr.ePhentsize.toNat < e.phdr.extent then Comp.fault
  else if e.phdr.pType = PT_LOAD then loadSegmentR host base library e
  else if e.phdr.pType = PT_PHDR then do
    Comp.silent (Comp.modify (Task.setElfLoadData (ElfLoadData.recordPhdr hdr base e.phdr)))
    return true
  else if e.phdr.pType = PT_INTERP then do
    Comp.record [.interpreter e.payload.length]
    if maxPath < e.payload.length then Comp.fault
    else do
      Comp.silent (Comp.modify (Task.setElfLoadData (ElfLoadData.recordInterpreter e.payload)))
      return true
  else return true

/-- `visitEntries`. -/
def visitEntriesR (host : Host) (hdr : Elf32Hdr) (base : DWORD) (library : Bool) :
    List Entry → XR Bool
  | [] => return true
  | e :: es => do
      if ← visitEntryR host hdr base library e then visitEntriesR host hdr base library es
      else return false

/-- `loadInterpreter`. -/
def loadInterpreterR (host : Host) (load : Handle → Elf32Hdr → Bool → XR DWORD) (loadok : Bool) :
    XR DWORD := do
  let t ← Comp.silent Comp.get
  match interpreterName t.pElfLoadData.interpreter with
  | none => Comp.fault
  | some [] => return loadResult loadok
  | some name =>
      match host.createFile name with
      | .error _ => return loadResult false
      | .ok bytes => do
          Comp.silent (Comp.modify Task.enterInterpreter)
          let rc ← load ⟨bytes, (bytes.take sizeofHdr).length⟩ (host.hdr2 bytes) true
          Comp.silent (Comp.modify (Task.leaveInterpreter t.loadData2))
          return loadResult (loadok && !ibcsInterpreters.contains name && rc == 0#32)

/-- `loadElfImage`. -/
def loadElfImageR (host : Host) : Nat → Handle → Elf32Hdr → Bool → XR DWORD
  | 0, _, _, _ => Comp.wait
  | fuel + 1, hImg, hdr, library =>
      if ¬hdr.Valid then return ERROR_BAD_FORMAT
      else if hdr.ePhoff = 0#32 then return -1#32
      else do
        let t ← Comp.silent Comp.get
        let base := hdr.baseAddr library t.pElfLoadData.lastLibAddr
        Comp.silent (Comp.modify (Task.setElfLoadData (ElfLoadData.begin hdr library)))
        let loadok ← visitEntriesR host hdr base library
          (hdr.rounds hdr.ePhnum.toNat 0 hImg (host.uninitialised hdr.ePhentsize.toNat))
        loadInterpreterR host (loadElfImageR host fuel) loadok

/-! ## Without the record -/

theorem erases_loadSegment (host : Host) (base : DWORD) (library : Bool) (e : Entry) :
    Comp.Erases (loadSegmentR host base library e) (loadSegment host base library e) := by
  refine Comp.erases_bind (Comp.erases_silent _) fun pMem ↦ ?_
  refine Comp.erases_ite (Comp.erases_pure _) ?_
  refine Comp.erases_bind (Comp.erases_silent _) fun _ ↦ ?_
  refine Comp.erases_ite (Comp.erases_pure _) (Comp.erases_record ?_)
  exact Comp.erases_bind (Comp.erases_silent _) fun _ ↦
    Comp.erases_bind (Comp.erases_silent _) fun _ ↦ Comp.erases_pure _

theorem erases_visitEntry (host : Host) (hdr : Elf32Hdr) (base : DWORD) (library : Bool)
    (e : Entry) :
    Comp.Erases (visitEntryR host hdr base library e) (visitEntry host hdr base library e) := by
  refine Comp.erases_record (Comp.erases_ite Comp.erases_fault ?_)
  refine Comp.erases_ite (erases_loadSegment host base library e) (Comp.erases_ite ?_ ?_)
  · exact Comp.erases_bind (Comp.erases_silent _) fun _ ↦ Comp.erases_pure _
  · refine Comp.erases_ite (Comp.erases_record (Comp.erases_ite Comp.erases_fault ?_))
      (Comp.erases_pure _)
    exact Comp.erases_bind (Comp.erases_silent _) fun _ ↦ Comp.erases_pure _

theorem erases_visitEntries (host : Host) (hdr : Elf32Hdr) (base : DWORD) (library : Bool)
    (es : List Entry) :
    Comp.Erases (visitEntriesR host hdr base library es)
      (visitEntries host hdr base library es) := by
  induction es with
  | nil => exact Comp.erases_pure _
  | cons e es ih =>
    exact Comp.erases_bind (erases_visitEntry host hdr base library e) fun _ ↦
      Comp.erases_ite ih (Comp.erases_pure _)

theorem erases_loadInterpreter (host : Host) {loadR : Handle → Elf32Hdr → Bool → XR DWORD}
    {load : Handle → Elf32Hdr → Bool → X DWORD}
    (h : ∀ hImg hdr library, Comp.Erases (loadR hImg hdr library) (load hImg hdr library))
    (loadok : Bool) :
    Comp.Erases (loadInterpreterR host loadR loadok) (loadInterpreter host load loadok) := by
  refine Comp.erases_bind (Comp.erases_silent _) fun t ↦ ?_
  cases interpreterName t.pElfLoadData.interpreter with
  | none => exact Comp.erases_fault
  | some name =>
    cases name with
    | nil => exact Comp.erases_pure _
    | cons c cs =>
      dsimp only
      cases host.createFile (c :: cs) with
      | error err => exact Comp.erases_pure _
      | ok bytes =>
        exact Comp.erases_bind (Comp.erases_silent _) fun _ ↦
          Comp.erases_bind (h _ _ _) fun _ ↦
            Comp.erases_bind (Comp.erases_silent _) fun _ ↦ Comp.erases_pure _

/-- Without the record it is `LoadElfImage`. -/
theorem erases_loadElfImage (host : Host) (fuel : Nat) (hImg : Handle) (hdr : Elf32Hdr)
    (library : Bool) :
    Comp.Erases (loadElfImageR host fuel hImg hdr library)
      (loadElfImage host fuel hImg hdr library) := by
  induction fuel generalizing hImg hdr library with
  | zero => exact Comp.erases_wait
  | succ fuel ih =>
    refine Comp.erases_ite (Comp.erases_pure _) (Comp.erases_ite (Comp.erases_pure _) ?_)
    refine Comp.erases_bind (Comp.erases_silent _) fun t ↦ ?_
    refine Comp.erases_bind (Comp.erases_silent _) fun _ ↦ ?_
    exact Comp.erases_bind (erases_visitEntries host hdr _ library _) fun loadok ↦
      erases_loadInterpreter host ih loadok

/-! ## Contained images -/

/-- The segment has room for its file bytes behind the rounded-down start. -/
def Entry.Fits (base : DWORD) (e : Entry) : Prop :=
  e.payload = [] ∨ (e.phdr.wantMem base - e.phdr.alignedMem base).toNat + e.payload.length ≤
    (e.phdr.alignedSize base).toNat

instance (base : DWORD) (e : Entry) : Decidable (e.Fits base) := by
  unfold Entry.Fits
  infer_instance

/-- Every header up to the one where the loop stops is inside its buffer, names an interpreter
that fits, and has its file bytes inside the region of the segment. -/
def ContainedFrom (host : Host) (hdr : Elf32Hdr) (base : DWORD) :
    List MemoryAlloc → List Entry → Prop
  | _, [] => True
  | allocs, e :: es =>
      e.phdr.extent ≤ hdr.ePhentsize.toNat ∧
      (e.phdr.pType = PT_INTERP → e.payload.length ≤ maxPath) ∧
      (e.Accepted host hdr base allocs →
        (e.phdr.pType = PT_LOAD → e.Fits base) ∧
        ContainedFrom host hdr base (e.allocations base allocs) es)

/-- An image that is contained, as far as its header lets it get. -/
def Request.Contained (host : Host) (r : Request) : Prop :=
  r.hdr.Valid → r.hdr.ePhoff ≠ 0#32 →
    ContainedFrom host r.hdr r.base r.allocations (r.entries host)

theorem inside_fieldsRead_iff (p : Phdr) (n : Nat) :
    (∀ a ∈ p.fieldsRead.map (Access.field · n), a.Inside) ↔ p.extent ≤ n := by
  simp only [List.forall_mem_map, Access.Inside, Phdr.fieldsRead, Phdr.extent]
  split
  · simp only [List.mem_cons, List.not_mem_nil, or_false, forall_eq_or_imp, forall_eq]
    omega
  · split
    · simp only [List.mem_cons, List.not_mem_nil, or_false, forall_eq_or_imp, forall_eq]
      omega
    · split
      · simp only [List.mem_cons, List.not_mem_nil, or_false, forall_eq_or_imp, forall_eq]
        omega
      · simp

/-- Addresses count from the start of the region, around the end of memory if need be. -/
theorem inside_segment_iff (region size addr : DWORD) (len : Nat) :
    (Access.segment region size addr len).Inside ↔
      len = 0 ∨ (addr - region).toNat + len ≤ size.toNat := by
  have hoffset : ∀ i, (addr + BitVec.ofNat 32 i - region).toNat =
      ((addr - region).toNat + i) % 2 ^ 32 := by
    intro i
    have hsub : addr + BitVec.ofNat 32 i - region = (addr - region) + BitVec.ofNat 32 i := by
      rw [BitVec.sub_eq_add_neg, BitVec.sub_eq_add_neg, BitVec.add_assoc, BitVec.add_assoc,
        BitVec.add_comm (BitVec.ofNat 32 i)]
    rw [hsub, BitVec.toNat_add, BitVec.toNat_ofNat, Nat.add_mod_mod]
  have hsize := size.isLt
  simp only [Access.Inside, hoffset]
  constructor
  · intro h
    by_contra hnot
    simp only [not_or, Nat.not_le] at hnot
    by_cases hstart : (addr - region).toNat < size.toNat
    · -- the first byte behind the region
      have hout := h (size.toNat - (addr - region).toNat) (by omega)
      rw [Nat.mod_eq_of_lt (by omega)] at hout
      omega
    · have hout := h 0 (by omega)
      rw [Nat.mod_eq_of_lt (by have := (addr - region).isLt; omega)] at hout
      omega
  · rintro (rfl | h) i hi
    · omega
    · rw [Nat.mod_eq_of_lt (by omega)]
      omega

theorem recorded_loadSegment (host : Host) (base : DWORD) (library : Bool) (e : Entry) (t : Task) :
    Comp.Recorded Access.Inside (loadSegmentR host base library e) t
      (host.allocateMem t.memoryAllocations (e.phdr.alignedMem base) (e.phdr.alignedSize base) =
          e.phdr.alignedMem base ∧
        (e.phdr.pFilesz = 0#32 ∨ e.payload.length = e.phdr.pFilesz.toNat) → e.Fits base) := by
  refine Comp.recorded_silent_bind rfl ?_
  split
  · next hmem => exact Comp.recorded_congr (Comp.recorded_pure _) (by simp [hmem])
  · next hmem =>
    refine Comp.recorded_silent_bind rfl ?_
    split
    · next hshort =>
      refine Comp.recorded_congr (Comp.recorded_pure _) ?_
      have hnot : ¬(e.phdr.pFilesz = 0#32 ∨ e.payload.length = e.phdr.pFilesz.toNat) := by
        rwa [not_or]
      simp [hnot]
    · next hwhole =>
      have hwhole : e.phdr.pFilesz = 0#32 ∨ e.payload.length = e.phdr.pFilesz.toNat := by
        simpa [or_iff_not_imp_left] using hwhole
      refine Comp.recorded_congr (Comp.recorded_record (C := True) ?_) ?_
      · exact Comp.recorded_silent_bind rfl (Comp.recorded_silent_bind rfl (Comp.recorded_pure _))
      · simp only [List.mem_singleton, forall_eq, inside_segment_iff, and_true,
          List.length_eq_zero_iff, not_not.mp hmem, hwhole, true_implies]
        rfl

theorem recorded_visitEntry (host : Host) (hdr : Elf32Hdr) (base : DWORD) (library : Bool)
    (e : Entry) (t : Task) :
    Comp.Recorded Access.Inside (visitEntryR host hdr base library e) t
      (e.phdr.extent ≤ hdr.ePhentsize.toNat ∧
        (e.phdr.pType = PT_INTERP → e.payload.length ≤ maxPath) ∧
        (e.Accepted host hdr base t.memoryAllocations → e.phdr.pType = PT_LOAD → e.Fits base)) := by
  by_cases hext : hdr.ePhentsize.toNat < e.phdr.extent
  · refine Comp.recorded_congr (Comp.recorded_record (C := True) ?_) ?_
    · rw [if_pos hext]
      exact Comp.recorded_fault
    · rw [inside_fieldsRead_iff]
      have hnot : ¬e.phdr.extent ≤ hdr.ePhentsize.toNat := by omega
      simp [hnot]
  have hle : e.phdr.extent ≤ hdr.ePhentsize.toNat := by omega
  by_cases hload : e.phdr.pType = PT_LOAD
  · have hint : e.phdr.pType ≠ PT_INTERP := by
      rw [hload]
      decide
    refine Comp.recorded_congr (Comp.recorded_record
      (C := host.allocateMem t.memoryAllocations (e.phdr.alignedMem base)
          (e.phdr.alignedSize base) = e.phdr.alignedMem base ∧
        (e.phdr.pFilesz = 0#32 ∨ e.payload.length = e.phdr.pFilesz.toNat) → e.Fits base) ?_) ?_
    · rw [if_neg hext, if_pos hload]
      exact recorded_loadSegment host base library e t
    · rw [inside_fieldsRead_iff]
      simp only [Entry.Accepted, hle, hint, true_and, false_implies, forall_prop_of_true hload]
  have hfits : (e.phdr.pType = PT_LOAD → e.Fits base) ↔ True := by simp [hload]
  by_cases hphdr : e.phdr.pType = PT_PHDR
  · have hint : e.phdr.pType ≠ PT_INTERP := by
      rw [hphdr]
      decide
    refine Comp.recorded_congr (Comp.recorded_record (C := True) ?_) ?_
    · rw [if_neg hext, if_neg hload, if_pos hphdr]
      exact Comp.recorded_silent_bind rfl (Comp.recorded_pure _)
    · rw [inside_fieldsRead_iff, hfits]
      simp [hle, hint]
  by_cases hint : e.phdr.pType = PT_INTERP
  · refine Comp.recorded_congr (Comp.recorded_record
      (C := (∀ a ∈ [Access.interpreter e.payload.length], a.Inside) ∧ True) ?_) ?_
    · rw [if_neg hext, if_neg hload, if_neg hphdr, if_pos hint]
      refine Comp.recorded_record ?_
      split
      · exact Comp.recorded_fault
      · exact Comp.recorded_silent_bind rfl (Comp.recorded_pure _)
    · rw [inside_fieldsRead_iff, hfits]
      simp [hle, hint, Access.Inside]
  · refine Comp.recorded_congr (Comp.recorded_record (C := True) ?_) ?_
    · rw [if_neg hext, if_neg hload, if_neg hphdr, if_neg hint]
      exact Comp.recorded_pure _
    · rw [inside_fieldsRead_iff, hfits]
      simp [hle, hint]

theorem recorded_visitEntries (host : Host) (hdr : Elf32Hdr) (base : DWORD) (library : Bool)
    (es : List Entry) (t : Task) :
    Comp.Recorded Access.Inside (visitEntriesR host hdr base library es) t
      (ContainedFrom host hdr base t.memoryAllocations es) := by
  induction es generalizing t with
  | nil => exact Comp.recorded_pure _
  | cons e es ih =>
    have hround := recorded_visitEntry host hdr base library e t
    refine Comp.recorded_congr (Comp.recorded_bind
      (D := fun go t' ↦ go = true → ContainedFrom host hdr base t'.memoryAllocations es)
      (erases_visitEntry host hdr base library e) hround ?_) ?_
    · intro go t' _
      cases go with
      | false => exact Comp.recorded_congr (Comp.recorded_pure _) (by simp)
      | true => exact Comp.recorded_congr (ih t') (by simp)
    · have hallocs : (t.visited hdr base library e).memoryAllocations =
          e.allocations base t.memoryAllocations := by
        simp [Task.visited]
      have hrest : (∀ go t', visitEntry host hdr base library e t = .ok go t' → go = true →
            ContainedFrom host hdr base t'.memoryAllocations es) ↔
          (e.Accepted host hdr base t.memoryAllocations →
            ContainedFrom host hdr base (e.allocations base t.memoryAllocations) es) := by
        constructor
        · intro h hacc
          rw [← hallocs]
          exact h true _ ((visitEntry_eq_true ..).mpr ⟨hacc, rfl⟩) rfl
        · rintro h _ t' hrun rfl
          obtain ⟨hacc, rfl⟩ := (visitEntry_eq_true ..).mp hrun
          rw [hallocs]
          exact h hacc
      rw [hrest, ContainedFrom, imp_and, and_assoc, and_assoc]

section Interpreter

variable {host : Host} {loadR : Handle → Elf32Hdr → Bool → XR DWORD}
  {load : Handle → Elf32Hdr → Bool → X DWORD} {s : LoopEnd} {t : Task}

/-- What the end of `LoadElfImage` accesses is what the load of the interpreter accesses. -/
theorem recorded_loadInterpreter
    (herase : ∀ hImg hdr library, Comp.Erases (loadR hImg hdr library) (load hImg hdr library))
    (hs : s.Of t) (loadok : Bool) {C : Prop}
    (h : ∀ r, s.next host = some r →
      Comp.Recorded Access.Inside (loadR r.hImg r.hdr true) t.enterInterpreter C)
    (hnone : s.next host = none → C) :
    Comp.Recorded Access.Inside (loadInterpreterR host loadR loadok) t C := by
  refine Comp.recorded_silent_bind (Comp.get_eq_ok.mpr ⟨rfl, rfl⟩) ?_
  rw [LoopEnd.next] at h hnone
  rw [hs.interpreter]
  cases hname : interpreterName s.interpreter with
  | none =>
    have hC : C := hnone (by simp [hname])
    exact Comp.recorded_congr Comp.recorded_fault (by simp [hC])
  | some name =>
    cases name with
    | nil =>
      have hC : C := hnone (by simp [hname])
      exact Comp.recorded_congr (Comp.recorded_pure _) (by simp [hC])
    | cons c cs =>
      cases hfile : host.createFile (c :: cs) with
      | error err =>
        have hC : C := hnone (by simp [hname, hfile])
        simp only [hfile]
        exact Comp.recorded_congr (Comp.recorded_pure _) (by simp [hC])
      | ok bytes =>
        simp only [hname, hfile, Option.some.injEq] at h
        simp only [hfile]
        refine Comp.recorded_silent_bind rfl ?_
        refine Comp.recorded_congr (Comp.recorded_bind (D := fun _ _ ↦ True)
          (herase _ _ _) (h _ rfl) fun rc t' _ ↦ ?_) (by simp)
        exact Comp.recorded_silent_bind rfl (Comp.recorded_pure _)

end Interpreter

/-- A request and those behind it, up to a depth, are contained. -/
def ContainedBelow (host : Host) (fuel : Nat) (r : Request) : Prop :=
  ∀ n < fuel, ∀ r', chase (Request.next host) n r = some r' → r'.Contained host

/-- A refused header accesses nothing. -/
theorem containedBelow_of_refused {host : Host} {r : Request}
    (h : ¬(r.hdr.Valid ∧ r.hdr.ePhoff ≠ 0#32)) (fuel : Nat) : ContainedBelow host fuel r := by
  cases fuel with
  | zero => exact fun n hn ↦ absurd hn (Nat.not_lt_zero n)
  | succ fuel =>
    refine forall_chase_succ.mpr ⟨fun hvalid hphoff ↦ absurd ⟨hvalid, hphoff⟩ h, ?_⟩
    intro r' hr'
    rw [Request.next, if_neg h] at hr'
    cases hr'

theorem recorded_loadElfImage (host : Host) (fuel : Nat) (hImg : Handle) (hdr : Elf32Hdr)
    (library : Bool) (t : Task) :
    Comp.Recorded Access.Inside (loadElfImageR host fuel hImg hdr library) t
      (ContainedBelow host fuel (t.request hImg hdr library)) := by
  induction fuel generalizing hImg hdr library t with
  | zero =>
    refine Comp.recorded_congr Comp.recorded_wait (iff_of_true trivial ?_)
    exact fun n hn ↦ absurd hn (Nat.not_lt_zero n)
  | succ fuel ih =>
    unfold loadElfImageR
    by_cases hvalid : hdr.Valid
    swap
    · rw [if_pos hvalid]
      refine Comp.recorded_congr (Comp.recorded_pure _) (iff_of_true trivial ?_)
      exact containedBelow_of_refused (fun h ↦ hvalid h.1) _
    by_cases hphoff : hdr.ePhoff = 0#32
    · rw [if_neg (not_not.mpr hvalid), if_pos hphoff]
      refine Comp.recorded_congr (Comp.recorded_pure _) (iff_of_true trivial ?_)
      exact containedBelow_of_refused (fun h ↦ h.2 hphoff) _
    rw [if_neg (not_not.mpr hvalid), if_neg hphoff]
    refine Comp.recorded_silent_bind (Comp.get_eq_ok.mpr ⟨rfl, rfl⟩) ?_
    refine Comp.recorded_silent_bind rfl ?_
    have hloop := visitEntries_request host hImg hdr library t
    have hentries := recorded_visitEntries host hdr (t.request hImg hdr library).base library
      ((t.request hImg hdr library).entries host)
      (t.setElfLoadData (ElfLoadData.begin hdr library))
    rw [setElfLoadData_memoryAllocations] at hentries
    have hnext : (t.request hImg hdr library).next host =
        ((t.request hImg hdr library).loopEnd host).bind (LoopEnd.next host) :=
      if_pos ⟨hvalid, hphoff⟩
    refine Comp.recorded_congr (Comp.recorded_bind
      (D := fun _ _ ↦ ∀ r, (t.request hImg hdr library).next host = some r →
        ContainedBelow host fuel r)
      (erases_visitEntries host hdr _ library _) hentries ?_) ?_
    · intro loadok t' hrun
      cases hs : (t.request hImg hdr library).loopEnd host with
      | none =>
        rw [hs] at hloop
        obtain ⟨_, hfault⟩ := hloop
        cases hfault.symm.trans hrun
      | some s =>
        rw [hs] at hloop hnext
        obtain ⟨_, hok, hof⟩ := hloop
        cases hok.symm.trans hrun
        rw [hnext, Option.bind_some]
        refine recorded_loadInterpreter (erases_loadElfImage host fuel) hof _ ?_ ?_
        · intro r hr
          have hend := @loadInterpreter_next host s _ hof (loadElfImage host fuel) s.loadok
          rw [hr] at hend
          refine Comp.recorded_congr (ih r.hImg r.hdr true _) ?_
          rw [hend.1, hr]
          simp only [Option.some.injEq, forall_eq']
        · intro hnone r hr
          rw [hnone] at hr
          cases hr
    · refine Iff.trans ?_ forall_chase_succ.symm
      refine and_congr ⟨fun h _ _ ↦ h, fun h ↦ h hvalid hphoff⟩ ?_
      refine ⟨fun h r hr ↦ ?_, fun h _ _ _ r hr ↦ h r hr⟩
      rw [hnext, Option.bind_eq_some_iff] at hr
      obtain ⟨s, hs, hr⟩ := hr
      rw [hs] at hloop hnext
      obtain ⟨t', hok, -⟩ := hloop
      exact h _ t' hok r (by rw [hnext]; exact hr)

/-! ## Loading stays inside -/

/-- However far the load goes, it makes no access outside its buffers. -/
def StaysInside (host : Host) (hImg : Handle) (hdr : Elf32Hdr) (library : Bool) (t : Task) :
    Prop :=
  ∀ fuel, ∀ a ∈ (loadElfImageR host fuel hImg hdr library (t, [])).state.2, a.Inside

/-- Loading stays inside exactly when the image, and each interpreter that it leads to, is
contained. -/
theorem staysInside_iff (host : Host) (hImg : Handle) (hdr : Elf32Hdr) (library : Bool)
    (t : Task) :
    StaysInside host hImg hdr library t ↔
      ∀ n r, chase (Request.next host) n (t.request hImg hdr library) = some r →
        r.Contained host := by
  have hrun : ∀ fuel, (∀ a ∈ (loadElfImageR host fuel hImg hdr library (t, [])).state.2,
      a.Inside) ↔ ContainedBelow host fuel (t.request hImg hdr library) := by
    intro fuel
    rw [recorded_loadElfImage host fuel hImg hdr library t []]
    simp
  simp only [StaysInside, hrun]
  exact ⟨fun h n r hr ↦ h (n + 1) n (Nat.lt_succ_self n) r hr, fun h _ n _ r hr ↦ h n r hr⟩

/-- Two bytes of code that ask for one byte of memory. -/
def tightSegment : Phdr := ⟨PT_LOAD, 84#32, 0x08048000#32, 2#32, 1#32, 1#32⟩

/-- A program of this segment. -/
def tightProgram : List UInt8 := executable 0x08048000#32 [tightSegment] [0x90, 0x90]

/-- Its second byte lands behind the region. -/
theorem not_staysInside_tightProgram :
    ¬StaysInside bareHost (imageHandle tightProgram) (imageHdr tightProgram) false freshTask := by
  intro h
  have hbelow := ((recorded_loadElfImage bareHost 1 _ _ false freshTask []).mp (h 1)).2
  have hcontained := hbelow 0 (by decide) _ rfl (by decide +kernel) (by decide +kernel)
  have hentries : (freshTask.request (imageHandle tightProgram) (imageHdr tightProgram)
      false).entries bareHost = [⟨tightSegment, [0x90, 0x90]⟩] := by
    decide +kernel
  rw [hentries] at hcontained
  obtain ⟨-, -, hround⟩ := hcontained
  have hfits := (hround (by decide +kernel)).1 rfl
  revert hfits
  decide +kernel

end Keow.Exec
