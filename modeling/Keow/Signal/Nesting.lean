import Keow.Signal.Calls
import Mathlib.Logic.Relation

/-!
# Nested signal handlers

Deliveries from the pending-signal path of `DebuggerLoop`, and the way back: the `ret` of the
handler into the restorer that `HandleSignal` puts on the stack, its `int 80h`, and
`sys_sigreturn` (`Process.cpp:1672–1812`, `sys_rtsig.cpp:55–70`). The processor runs the few
instructions that the kernel injects; everything else the user thread does is arbitrary. A
signal may come between any two instructions, also of the injected code.
-/

namespace Keow.Signal

open Keow.Base Keow.Kernel

/-! ## The processor on injected code -/

/-- The word at an address. -/
def wordAt (mem : UserMem) (addr : DWORD) : DWORD := (Codec.word 4).decode (Mem.read mem addr 4)

/-- The instructions that the kernel injects: `mov ebx, imm32`, `mov eax, imm32`, `pop gs`,
`ret imm16`, and the `ret` of a handler. -/
inductive Instruction where
  | movEbx (imm : DWORD)
  | movEax (imm : DWORD)
  | popGs
  | retImm (imm : BitVec 16)
  | ret

/-- Their encodings. Other instructions, and traps, are not run here. -/
def decodeInstruction (code : List UInt8) : Option Instruction :=
  if code[0]? = some 0xbb then some (.movEbx ((Codec.word 4).decode (code.drop 1)))
  else if code[0]? = some 0xb8 then some (.movEax ((Codec.word 4).decode (code.drop 1)))
  else if code[0]? = some 0x0f ∧ code[1]? = some 0xa9 then some .popGs
  else if code[0]? = some 0xc2 then some (.retImm ((Codec.word 2).decode (code.drop 1)))
  else if code[0]? = some 0xc3 then some .ret
  else none

/-- What they do. `pop gs` takes four bytes for a register of two. -/
def Instruction.exec (mem : UserMem) (ctx : Context) : Instruction → Context
  | .movEbx imm => { ctx with ebx := imm, eip := ctx.eip + 5#32 }
  | .movEax imm => { ctx with eax := imm, eip := ctx.eip + 5#32 }
  | .popGs =>
      { ctx with
        segGs := wordAt mem ctx.esp &&& 0xffff#32
        esp := ctx.esp + 4#32
        eip := ctx.eip + 2#32 }
  | .retImm imm =>
      { ctx with eip := wordAt mem ctx.esp, esp := ctx.esp + 4#32 + imm.setWidth 32 }
  | .ret => { ctx with eip := wordAt mem ctx.esp, esp := ctx.esp + 4#32 }

/-- One step of the processor. -/
def cpuStep (mem : UserMem) (ctx : Context) : Option Context :=
  (decodeInstruction (Mem.read mem ctx.eip 5)).map (Instruction.exec mem ctx)

theorem cpuStep_eq {mem : UserMem} {ctx : Context} {i : Instruction}
    (h : decodeInstruction (Mem.read mem ctx.eip 5) = some i) :
    cpuStep mem ctx = some (i.exec mem ctx) := by
  rw [cpuStep, h, Option.map_some]

/-- The two contexts agree on what the injected code depends on. -/
structure SameCore (ctx ctx' : Context) : Prop where
  eip : ctx'.eip = ctx.eip
  esp : ctx'.esp = ctx.esp
  eax : ctx'.eax = ctx.eax
  ebx : ctx'.ebx = ctx.ebx

theorem sameCore_exec {mem : UserMem} {ctx ctx' : Context} (h : SameCore ctx ctx')
    (i : Instruction) : SameCore (i.exec mem ctx) (i.exec mem ctx') := by
  cases i with
  | movEbx imm | movEax imm | popGs | retImm imm | ret =>
    constructor
    · simp only [Instruction.exec, h.eip, h.esp]
    · simp only [Instruction.exec, h.esp]
    · simp only [Instruction.exec, h.eax]
    · simp only [Instruction.exec, h.ebx]

theorem cpuStep_sameCore {mem : UserMem} {ctx ctx₁ ctx' : Context} (h : SameCore ctx ctx')
    (hstep : cpuStep mem ctx = some ctx₁) :
    ∃ ctx₁', cpuStep mem ctx' = some ctx₁' ∧ SameCore ctx₁ ctx₁' := by
  obtain ⟨i, hi, rfl⟩ := Option.map_eq_some_iff.mp hstep
  refine ⟨i.exec mem ctx', ?_, sameCore_exec h i⟩
  rw [cpuStep, h.eip, hi, Option.map_some]

/-- The step depends on the code and on the word on top of the stack only. -/
theorem cpuStep_of_agree {mem mem' : UserMem} {ctx : Context} {floor : Nat}
    (h : Mem.AgreeAbove floor mem mem') (hesp : floor ≤ ctx.esp.toNat)
    (heip : floor ≤ ctx.eip.toNat) (hcode : ctx.eip.toNat + 5 ≤ 2 ^ 32)
    (hstack : ctx.esp.toNat + 4 ≤ 2 ^ 32) : cpuStep mem' ctx = cpuStep mem ctx := by
  have hcode' := Mem.read_of_agreeAbove h heip hcode
  have hword : wordAt mem' ctx.esp = wordAt mem ctx.esp := by
    rw [wordAt, wordAt, Mem.read_of_agreeAbove h hesp hstack]
  rw [cpuStep, cpuStep, ← hcode']
  congr 1
  funext i
  cases i <;> simp only [Instruction.exec, hword]

/-! ## Frames -/

/-- An active delivery: where its frame is, what it saved, and whether its handler has returned
into the restorer. -/
structure Frame where
  addr : DWORD
  ctx : Context
  signalMask : BitVec 64
  returning : Bool

/-- The lowest byte of the frame that is still needed: `ret` has used up the return address. -/
def Frame.floor (f : Frame) : Nat := if f.returning then f.addr.toNat + 4 else f.addr.toNat

theorem Frame.floor_le (f : Frame) : f.floor ≤ f.addr.toNat + 4 := by
  unfold Frame.floor
  split <;> omega

/-- The frame is in memory as `HandleSignal` wrote it, as far as it is still needed. -/
structure Frame.Stored (f : Frame) (mem : UserMem) : Prop where
  top : f.addr.toNat + frameSize = f.ctx.esp.toNat
  flags : f.ctx.contextFlags = Context.CONTEXT_ALL
  saved : Mem.read mem (f.addr + offsetSavedState) 724 =
    SignalSaveState.codec.encode ⟨f.ctx, f.signalMask⟩
  restorer : Mem.read mem (f.addr + offsetRestorer) 20 = asmCode (f.addr + offsetSavedState)
  returnAddress : f.returning = false →
    Mem.read mem f.addr 4 = (Codec.word 4).encode (f.addr + offsetRestorer)

/-- No address inside a frame wraps. -/
theorem Frame.Stored.toNat_add {f : Frame} {mem : UserMem} (h : f.Stored mem) {k : Nat}
    (hk : k < frameSize) : (f.addr + BitVec.ofNat 32 k).toNat = f.addr.toNat + k := by
  have htop := h.top
  have hesp := f.ctx.esp.isLt
  have hsize : frameSize = 888 := rfl
  exact Mem.toNat_add_ofNat (by omega)

theorem Frame.stored_of_agree {f : Frame} {mem mem' : UserMem} (h : f.Stored mem)
    (hagree : Mem.AgreeAbove f.floor mem mem') : f.Stored mem' := by
  have htop := h.top
  have hesp := f.ctx.esp.isLt
  have hsize : frameSize = 888 := rfl
  have hfloor := f.floor_le
  have hsaved : (f.addr + offsetSavedState).toNat = f.addr.toNat + 144 :=
    h.toNat_add (by omega)
  have hrestorer : (f.addr + offsetRestorer).toNat = f.addr.toNat + 868 :=
    h.toNat_add (by omega)
  refine ⟨h.top, h.flags, ?_, ?_, fun hf ↦ ?_⟩
  · rw [← Mem.read_of_agreeAbove hagree (by omega) (by omega)]
    exact h.saved
  · rw [← Mem.read_of_agreeAbove hagree (by omega) (by omega)]
    exact h.restorer
  · have hlow : f.floor = f.addr.toNat := by simp [Frame.floor, hf]
    rw [← Mem.read_of_agreeAbove hagree (by omega) (by omega)]
    exact h.returnAddress hf

/-! ## The way back -/

/-- The thread is about to make the `sigreturn` call of the frame. -/
structure AtSigreturn (f : Frame) (ctx : Context) : Prop where
  eip : ctx.eip = f.addr + 878#32
  esp : ctx.esp = f.addr + 4#32
  eax : ctx.eax = BitVec.ofNat 32 NR_sigreturn
  ebx : ctx.ebx = f.addr + offsetSavedState

/-- Left alone, the thread gets to the `sigreturn` call of the frame, and on the way it reads
nothing below its stack pointer. -/
inductive OnWay (f : Frame) (mem : UserMem) : Context → Prop
  | here {ctx : Context} (h : AtSigreturn f ctx) : OnWay f mem ctx
  | step {ctx ctx' : Context} (hcode : ctx.esp.toNat ≤ ctx.eip.toNat)
      (hfits : ctx.eip.toNat + 5 ≤ 2 ^ 32) (hstack : ctx.esp.toNat + 4 ≤ 2 ^ 32)
      (hstep : cpuStep mem ctx = some ctx') (hup : ctx.esp.toNat ≤ ctx'.esp.toNat)
      (h : OnWay f mem ctx') : OnWay f mem ctx

theorem onWay_of_agree {f : Frame} {mem mem' : UserMem} {ctx : Context} (h : OnWay f mem ctx)
    {floor : Nat} (hagree : Mem.AgreeAbove floor mem mem') (hfloor : floor ≤ ctx.esp.toNat) :
    OnWay f mem' ctx := by
  induction h with
  | here h => exact .here h
  | step hcode hfits hstack hstep hup _ ih =>
    refine .step hcode hfits hstack ?_ hup (ih (by omega))
    rw [cpuStep_of_agree hagree hfloor (by omega) hfits hstack]
    exact hstep

theorem onWay_of_sameCore {f : Frame} {mem : UserMem} {ctx ctx' : Context}
    (h : OnWay f mem ctx) (hcore : SameCore ctx ctx') : OnWay f mem ctx' := by
  induction h generalizing ctx' with
  | here h =>
    exact .here ⟨hcore.eip.trans h.eip, hcore.esp.trans h.esp, hcore.eax.trans h.eax,
      hcore.ebx.trans h.ebx⟩
  | step hcode hfits hstack hstep hup _ ih =>
    obtain ⟨ctx₁', hstep', hcore'⟩ := cpuStep_sameCore hcore hstep
    exact .step (by rw [hcore.esp, hcore.eip]; exact hcode) (by rw [hcore.eip]; exact hfits)
      (by rw [hcore.esp]; exact hstack) hstep' (by rw [hcore.esp, hcore'.esp]; exact hup)
      (ih hcore')

/-- The stack pointer never gets past the return address. -/
theorem onWay_esp_le {f : Frame} {mem : UserMem} {ctx : Context} (hf : f.Stored mem)
    (h : OnWay f mem ctx) : ctx.esp.toNat ≤ f.addr.toNat + 4 := by
  induction h with
  | here h =>
    have hfour : (f.addr + 4#32).toNat = f.addr.toNat + 4 := hf.toNat_add (by decide)
    exact Nat.le_of_eq (by rw [h.esp, hfour])
  | step _ _ _ _ hup _ ih => omega

/-- The frames are in memory, each interrupted context stands on its stack below the frame of
the handler it interrupted, and a handler that has returned is on its way back. -/
def Chained (mem : UserMem) : Context → List Frame → Prop
  | _, [] => True
  | ctx, f :: rest =>
      f.Stored mem ∧ ctx.esp.toNat ≤ f.floor ∧ (f.returning = true → OnWay f mem ctx) ∧
        Chained mem f.ctx rest

theorem chained_of_agree {mem mem' : UserMem} {ctx : Context} {frames : List Frame}
    (h : Chained mem ctx frames) (hagree : Mem.AgreeAbove ctx.esp.toNat mem mem') :
    Chained mem' ctx frames := by
  induction frames generalizing ctx with
  | nil => trivial
  | cons f rest ih =>
    obtain ⟨hstored, hesp, hway, hrest⟩ := h
    have htop := hstored.top
    have hsize : frameSize = 888 := rfl
    have hfloor := f.floor_le
    refine ⟨Frame.stored_of_agree hstored (Mem.agreeAbove_mono hagree hesp), hesp,
      fun hf ↦ onWay_of_agree (hway hf) hagree (by omega), ?_⟩
    exact ih hrest (Mem.agreeAbove_mono hagree (by omega))

theorem chained_of_sameCore {mem : UserMem} {ctx ctx' : Context} {frames : List Frame}
    (h : Chained mem ctx frames) (hcore : SameCore ctx ctx') : Chained mem ctx' frames := by
  cases frames with
  | nil => trivial
  | cons f rest =>
    obtain ⟨hstored, hesp, hway, hrest⟩ := h
    exact ⟨hstored, by rw [hcore.esp]; exact hesp, fun hf ↦ onWay_of_sameCore (hway hf) hcore,
      hrest⟩

/-- Everything active is above the stack pointer. -/
theorem chained_floor {mem : UserMem} {ctx : Context} {frames : List Frame}
    (h : Chained mem ctx frames) : ∀ f ∈ frames, ctx.esp.toNat ≤ f.floor := by
  induction frames generalizing ctx with
  | nil => simp
  | cons f rest ih =>
    obtain ⟨hstored, hesp, -, hrest⟩ := h
    have htop := hstored.top
    have hsize : frameSize = 888 := rfl
    have hfloor := f.floor_le
    intro g hg
    rcases List.mem_cons.mp hg with rfl | hg
    · exact hesp
    · have hle := ih hrest g hg
      omega

/-! ### The code of the restorer -/

theorem asmCode_eq (addr : DWORD) :
    asmCode addr = ([0xbb] ++ (Codec.word 4).encode addr) ++
      (([0xb8] ++ natBytes 4 NR_sigreturn) ++ [0xcd, 0x80, 0x58, 0xb8] ++
        natBytes 4 NR_sigreturn ++ [0xcd, 0x80]) := by
  simp only [asmCode, List.append_assoc]

/-- The three instructions of the restorer, where `HandleSignal` put them. -/
structure RestorerAt (f : Frame) (mem : UserMem) : Prop where
  movEbx : Mem.read mem (f.addr + 868#32) 5 =
    [0xbb] ++ (Codec.word 4).encode (f.addr + offsetSavedState)
  movEax : Mem.read mem (f.addr + 873#32) 5 = [0xb8] ++ natBytes 4 NR_sigreturn
  int80 : Mem.read mem (f.addr + 878#32) 5 = [0xcd, 0x80, 0x58, 0xb8, 0x77]

theorem restorerAt_of_stored {f : Frame} {mem : UserMem} (h : f.Stored mem) :
    RestorerAt f mem := by
  have hcode : Mem.read mem (f.addr + 868#32) 20 = _ :=
    h.restorer.trans (asmCode_eq (f.addr + offsetSavedState))
  obtain ⟨h1, hrest⟩ := Mem.read_eq_append (by rfl) hcode
  have h873 : f.addr + 868#32 + BitVec.ofNat 32 5 = f.addr + 873#32 := by
    rw [BitVec.add_assoc]
    rfl
  have h878 : f.addr + 873#32 + BitVec.ofNat 32 5 = f.addr + 878#32 := by
    rw [BitVec.add_assoc]
    rfl
  have hrest' : Mem.read mem (f.addr + 873#32) 15 = ([0xb8] ++ natBytes 4 NR_sigreturn) ++
      ([0xcd, 0x80, 0x58, 0xb8, 0x77] ++ [0, 0, 0, 0xcd, 0x80]) := by
    rw [← h873]
    exact hrest
  obtain ⟨h2, hrest₂⟩ := Mem.read_eq_append (by rfl) hrest'
  have hrest₂' : Mem.read mem (f.addr + 878#32) 10 =
      [0xcd, 0x80, 0x58, 0xb8, 0x77] ++ [0, 0, 0, 0xcd, 0x80] := by
    rw [← h878]
    exact hrest₂
  exact ⟨h1, h2, (Mem.read_eq_append (by rfl) hrest₂').1⟩

/-- A step inside the frame that leaves the stack pointer at its second word. -/
theorem onWay_step_inside {f : Frame} {mem : UserMem} (h : f.Stored mem) {ctx ctx' : Context}
    {k : Nat} (hlow : 4 ≤ k) (hhigh : k + 5 ≤ frameSize)
    (heip : ctx.eip = f.addr + BitVec.ofNat 32 k) (hesp : ctx.esp = f.addr + 4#32)
    (hstep : cpuStep mem ctx = some ctx')
    (hsame : ctx'.esp = ctx.esp) (hrest : OnWay f mem ctx') : OnWay f mem ctx := by
  have htop := h.top
  have hlt := f.ctx.esp.isLt
  have hsize : frameSize = 888 := rfl
  have heip' : ctx.eip.toNat = f.addr.toNat + k := by rw [heip, h.toNat_add (by omega)]
  have hesp' : ctx.esp.toNat = f.addr.toNat + 4 := by rw [hesp, h.toNat_add (by decide)]
  apply OnWay.step _ _ _ hstep (Nat.le_of_eq (congrArg BitVec.toNat hsame.symm)) hrest
  · omega
  · omega
  · omega

/-- From the `ret` of the handler to the `int 80h`. -/
theorem onWay_restorer {f : Frame} {mem : UserMem} (h : f.Stored mem) {ctx : Context}
    (heip : ctx.eip = f.addr + 868#32) (hesp : ctx.esp = f.addr + 4#32) : OnWay f mem ctx := by
  have hcode := restorerAt_of_stored h
  let ctx₁ : Context := (Instruction.movEbx (f.addr + offsetSavedState)).exec mem ctx
  have heip₁ : ctx₁.eip = f.addr + 873#32 := by
    change ctx.eip + 5#32 = f.addr + 873#32
    rw [heip, BitVec.add_assoc]
    rfl
  have hstep₁ : cpuStep mem ctx = some ctx₁ := by
    apply cpuStep_eq
    rw [heip, hcode.movEbx]
    simp [decodeInstruction]
  let ctx₂ : Context := (Instruction.movEax (BitVec.ofNat 32 NR_sigreturn)).exec mem ctx₁
  have hstep₂ : cpuStep mem ctx₁ = some ctx₂ := by
    apply cpuStep_eq
    rw [heip₁, hcode.movEax]
    rfl
  have hesp₁ : ctx₁.esp = ctx.esp := rfl
  have hesp₂ : ctx₂.esp = ctx₁.esp := rfl
  have hhere : AtSigreturn f ctx₂ := by
    refine ⟨?_, (hesp₂.trans hesp₁).trans hesp, rfl, rfl⟩
    change ctx₁.eip + 5#32 = f.addr + 878#32
    rw [heip₁, BitVec.add_assoc]
    rfl
  apply onWay_step_inside h (by decide) (by decide) heip hesp hstep₁ hesp₁
  exact onWay_step_inside h (by decide) (by decide) heip₁ (hesp₁.trans hesp) hstep₂ hesp₂
    (.here hhere)

/-! ### The code that reloads `gs` -/

/-- The world that `ResumeKeowProcess` leaves, with `gs` to be reloaded. -/
def resumed (w : World) : World :=
  let esp := w.threadCtx.esp - 14#32
  { w with
    threadCtx := { w.threadCtx with esp := esp, eip := esp + 8#32 }
    mem := Mem.write w.mem esp (gsFrame w.segGs w.threadCtx.eip) }

theorem resumeKeowProcess_eq (w : World) : resumeKeowProcess true w = .ok () (resumed w) := rfl

theorem length_gsFrame (segGs retAddress : DWORD) : (gsFrame segGs retAddress).length = 14 := by
  simp [gsFrame, Codec.word]

theorem toNat_sub_fourteen {esp : DWORD} (h : 14 ≤ esp.toNat) :
    (esp - 14#32).toNat = esp.toNat - 14 := by
  rw [Mem.toNat_sub_of_le (by exact h)]
  rfl

/-- Nothing above the stack pointer is touched. -/
theorem agreeAbove_resumed {w : World} (h : 14 ≤ w.threadCtx.esp.toNat) :
    Mem.AgreeAbove w.threadCtx.esp.toNat w.mem (resumed w).mem := by
  apply Mem.agreeAbove_write
  rw [length_gsFrame, toNat_sub_fourteen h]
  omega

/-- The parts of the injected code. -/
theorem read_resumed (w : World) :
    wordAt (resumed w).mem (w.threadCtx.esp - 14#32 + 4#32) = w.threadCtx.eip ∧
      Mem.read (resumed w).mem (w.threadCtx.esp - 14#32 + 8#32) 6 =
        [0x0f, 0xa9] ++ [0xc2, 0x06, 0x00, 0x00] := by
  have hall : Mem.read (resumed w).mem (w.threadCtx.esp - 14#32) 14 =
      gsFrame w.segGs w.threadCtx.eip := by
    have hread := Mem.read_write w.mem (w.threadCtx.esp - 14#32)
      (gsFrame w.segGs w.threadCtx.eip) (by rw [length_gsFrame]; decide)
    rw [length_gsFrame] at hread
    exact hread
  rw [gsFrame, List.append_assoc] at hall
  obtain ⟨-, hrest⟩ := Mem.read_eq_append (by simp [Codec.word]) hall
  rw [Codec.length_encode] at hrest
  obtain ⟨hret, hcode⟩ := Mem.read_eq_append (by simp [Codec.word]) hrest
  rw [Codec.length_encode] at hret hcode
  constructor
  · change (Codec.word 4).decode (Mem.read _ _ (Codec.word 4).size) = _
    rw [show w.threadCtx.esp - 14#32 + 4#32 = w.threadCtx.esp - 14#32 +
      BitVec.ofNat 32 (Codec.word 4).size from rfl, hret]
    exact (Codec.word 4).decode_encode_nil _
  · have haddr : w.threadCtx.esp - 14#32 + 8#32 = w.threadCtx.esp - 14#32 +
        BitVec.ofNat 32 (Codec.word 4).size + BitVec.ofNat 32 (Codec.word 4).size := by
      rw [BitVec.add_assoc]
      rfl
    rw [haddr]
    exact hcode

/-- The injected code takes the thread back to where it was, with `gs` reloaded. -/
theorem cpuStep_resumed {w : World} :
    ∃ ctx₁ ctx₂, cpuStep (resumed w).mem (resumed w).threadCtx = some ctx₁ ∧
      cpuStep (resumed w).mem ctx₁ = some ctx₂ ∧
      ctx₁.esp = w.threadCtx.esp - 14#32 + 4#32 ∧ ctx₁.eip = w.threadCtx.esp - 14#32 + 10#32 ∧
      ctx₂ = { w.threadCtx with segGs := ctx₁.segGs } := by
  obtain ⟨hret, hcode⟩ := read_resumed w
  have hpop : decodeInstruction (Mem.read (resumed w).mem (resumed w).threadCtx.eip 5) =
      some .popGs := by
    have hsplit : Mem.read (resumed w).mem (w.threadCtx.esp - 14#32 + 8#32) 6 =
        [0x0f, 0xa9, 0xc2, 0x06, 0x00] ++ [0x00] := hcode
    have hread := (Mem.read_eq_append (by rfl) hsplit).1
    change decodeInstruction (Mem.read _ (w.threadCtx.esp - 14#32 + 8#32) 5) = _
    change Mem.read _ _ 5 = _ at hread
    rw [hread]
    rfl
  let ctx₁ : Context := Instruction.popGs.exec (resumed w).mem (resumed w).threadCtx
  have heip₁ : ctx₁.eip = w.threadCtx.esp - 14#32 + 10#32 := by
    change w.threadCtx.esp - 14#32 + 8#32 + 2#32 = _
    rw [BitVec.add_assoc]
    rfl
  have hretImm : decodeInstruction (Mem.read (resumed w).mem ctx₁.eip 5) = some (.retImm 6#16) := by
    obtain ⟨-, hread⟩ := Mem.read_eq_append (by rfl) hcode
    have haddr : w.threadCtx.esp - 14#32 + 8#32 + BitVec.ofNat 32 2 = ctx₁.eip := rfl
    change Mem.read (resumed w).mem (w.threadCtx.esp - 14#32 + 8#32 + BitVec.ofNat 32 2) 4 = _
      at hread
    rw [haddr] at hread
    rw [Mem.read_add _ _ 4 1, hread]
    rfl
  have hesp : w.threadCtx.esp - 14#32 + 4#32 + 4#32 + 6#32 = w.threadCtx.esp := by
    rw [BitVec.add_assoc, BitVec.add_assoc]
    exact BitVec.sub_add_cancel _ _
  have hexec : (Instruction.retImm 6#16).exec (resumed w).mem ctx₁ = { w.threadCtx with
      segGs := ctx₁.segGs
      eip := wordAt (resumed w).mem (w.threadCtx.esp - 14#32 + 4#32)
      esp := w.threadCtx.esp - 14#32 + 4#32 + 4#32 + 6#32 } := by
    simp only [ctx₁, Instruction.exec, resumed]
    rfl
  refine ⟨ctx₁, _, cpuStep_eq hpop, cpuStep_eq hretImm, rfl, heip₁, ?_⟩
  rw [hexec, hret, hesp]

theorem onWay_resumed {f : Frame} {w : World} (hroom : 14 ≤ w.threadCtx.esp.toNat)
    (h : OnWay f w.mem w.threadCtx) : OnWay f (resumed w).mem (resumed w).threadCtx := by
  have hlt := w.threadCtx.esp.isLt
  have hbase := toNat_sub_fourteen hroom
  have hoff : ∀ k < 14, (w.threadCtx.esp - 14#32 + BitVec.ofNat 32 k).toNat =
      w.threadCtx.esp.toNat - 14 + k := by
    intro k hk
    rw [Mem.toNat_add_ofNat (by omega), hbase]
  have hback := onWay_of_agree h (agreeAbove_resumed hroom) (Nat.le_refl _)
  obtain ⟨ctx₁, ctx₂, hstep₁, hstep₂, hesp₁, heip₁, hctx₂⟩ := cpuStep_resumed (w := w)
  have hesp : (resumed w).threadCtx.esp.toNat = w.threadCtx.esp.toNat - 14 := hbase
  have heip : (resumed w).threadCtx.eip.toNat = w.threadCtx.esp.toNat - 14 + 8 :=
    hoff 8 (by decide)
  have hesp₁' : ctx₁.esp.toNat = w.threadCtx.esp.toNat - 14 + 4 := by
    rw [hesp₁]
    exact hoff 4 (by decide)
  have heip₁' : ctx₁.eip.toNat = w.threadCtx.esp.toNat - 14 + 10 := by
    rw [heip₁]
    exact hoff 10 (by decide)
  have hesp₂ : ctx₂.esp.toNat = w.threadCtx.esp.toNat := by rw [hctx₂]
  have hcore : SameCore w.threadCtx ctx₂ := by
    rw [hctx₂]
    exact ⟨rfl, rfl, rfl, rfl⟩
  exact .step (by omega) (by omega) (by omega) hstep₁ (by omega)
    (.step (by omega) (by omega) (by omega) hstep₂ (by omega) (onWay_of_sameCore hback hcore))

/-- Resuming the thread keeps what is active. -/
theorem chained_resumed {w : World} {frames : List Frame} (hroom : 14 ≤ w.threadCtx.esp.toNat)
    (h : Chained w.mem w.threadCtx frames) :
    Chained (resumed w).mem (resumed w).threadCtx frames := by
  have hagree := chained_of_agree h (agreeAbove_resumed hroom)
  cases frames with
  | nil => trivial
  | cons f rest =>
    have hesp : (resumed w).threadCtx.esp.toNat = w.threadCtx.esp.toNat - 14 :=
      toNat_sub_fourteen hroom
    have hle := h.2.1
    exact ⟨hagree.1, by omega, fun hf ↦ onWay_resumed hroom (h.2.2.1 hf), hagree.2.2.2⟩

/-! ## Delivery and return -/

/-- The frame of a delivery from the given world. -/
def newFrame (w : World) : Frame where
  addr := w.threadCtx.esp - BitVec.ofNat 32 frameSize
  ctx := { w.threadCtx with contextFlags := Context.CONTEXT_ALL }
  signalMask := w.cur.signalMask
  returning := false

theorem length_frameBytes (newEsp : DWORD) (sig : Nat) (flags : DWORD) (saved : SignalSaveState) :
    (frameBytes newEsp sig flags saved).length = frameSize := by
  have hsize : SignalSaveState.codec.size = 724 := rfl
  simp [frameBytes, asmCode, Codec.length_encode, Codec.word, hsize, frameSize]

theorem toNat_newFrame {w : World} (h : frameSize ≤ w.threadCtx.esp.toNat) :
    (newFrame w).addr.toNat + frameSize = w.threadCtx.esp.toNat := by
  have hsub : (newFrame w).addr.toNat = w.threadCtx.esp.toNat - frameSize :=
    Mem.toNat_sub_of_le (by exact h)
  omega

/-- The frame in its parts: return address, arguments, saved state and restorer. -/
theorem frameBytes_eq (newEsp : DWORD) (sig : Nat) (flags : DWORD) (saved : SignalSaveState) :
    ∃ args : List UInt8, args.length = 140 ∧
      frameBytes newEsp sig flags saved =
        ((Codec.word 4).encode (newEsp + offsetRestorer) ++ args) ++
          (SignalSaveState.codec.encode saved ++ asmCode (newEsp + offsetSavedState)) := by
  refine ⟨natBytes 4 sig ++
    ((Codec.word 4).encode
      (if flags &&& SA_SIGINFO ≠ 0#32 then newEsp + offsetSigInfo else 0#32) ++
    (natBytes 4 0 ++
      (natBytes 4 (if flags &&& SA_SIGINFO ≠ 0#32 then sig else 0) ++ List.replicate 124 0))),
    ?_, ?_⟩
  · simp [Codec.word]
  · simp only [frameBytes, List.append_assoc]

/-- `HandleSignal` stores the frame. -/
theorem stored_newFrame (sig : Nat) {w : World} (h : frameSize ≤ w.threadCtx.esp.toNat) :
    (newFrame w).Stored (enterHandler sig w).mem := by
  let saved : SignalSaveState := ⟨(newFrame w).ctx, w.cur.signalMask⟩
  let flags := (w.cur.signalAction sig).saFlags
  have hread : Mem.read (enterHandler sig w).mem (newFrame w).addr 888 =
      frameBytes (newFrame w).addr sig flags saved := by
    have hread := Mem.read_write w.mem (newFrame w).addr
      (frameBytes (newFrame w).addr sig flags saved) (by rw [length_frameBytes]; decide)
    rw [length_frameBytes] at hread
    exact hread
  obtain ⟨args, hargs, hbytes⟩ := frameBytes_eq (newFrame w).addr sig flags saved
  have hstate : (SignalSaveState.codec.encode saved).length = 724 :=
    SignalSaveState.codec.length_encode saved
  have hasm : (asmCode ((newFrame w).addr + offsetSavedState)).length = 20 := by
    simp [asmCode, Codec.word]
  have hword : ((Codec.word 4).encode ((newFrame w).addr + offsetRestorer)).length = 4 :=
    (Codec.word 4).length_encode _
  have hhead : ((Codec.word 4).encode ((newFrame w).addr + offsetRestorer) ++ args).length =
      144 := by
    rw [List.length_append, hword, hargs]
  rw [hbytes] at hread
  have htail : (SignalSaveState.codec.encode saved ++
      asmCode ((newFrame w).addr + offsetSavedState)).length = 744 := by
    rw [List.length_append, hstate, hasm]
  obtain ⟨hfront, hback⟩ := Mem.read_eq_append (by rw [hhead, htail]) hread
  rw [hhead] at hfront hback
  rw [htail] at hback
  obtain ⟨hret, -⟩ := Mem.read_eq_append (by rw [hword, hargs]) hfront
  obtain ⟨hsaved, hrestorer⟩ := Mem.read_eq_append (by rw [hstate, hasm]) hback
  rw [hstate] at hsaved hrestorer
  rw [hasm] at hrestorer
  rw [hword] at hret
  have haddr : (newFrame w).addr + offsetRestorer =
      (newFrame w).addr + BitVec.ofNat 32 144 + BitVec.ofNat 32 724 := by
    rw [BitVec.add_assoc]
    rfl
  refine ⟨toNat_newFrame h, rfl, hsaved, ?_, fun _ ↦ hret⟩
  rw [haddr]
  exact hrestorer

/-- A delivery keeps what is active and adds its own frame. -/
theorem chained_deliver (sig : Nat) {w : World} {frames : List Frame}
    (hroom : frameSize + 14 ≤ w.threadCtx.esp.toNat) (h : Chained w.mem w.threadCtx frames) :
    Chained (resumed (enterHandler sig w)).mem (resumed (enterHandler sig w)).threadCtx
      (newFrame w :: frames) := by
  have htop := toNat_newFrame (w := w) (by omega)
  have hwrite : Mem.AgreeAbove w.threadCtx.esp.toNat w.mem (enterHandler sig w).mem := by
    apply Mem.agreeAbove_write
    rw [length_frameBytes]
    exact Nat.le_of_eq htop
  have hold : Chained (enterHandler sig w).mem (newFrame w).ctx frames :=
    chained_of_sameCore (chained_of_agree h hwrite) ⟨rfl, rfl, rfl, rfl⟩
  have hin : Chained (enterHandler sig w).mem (enterHandler sig w).threadCtx
      (newFrame w :: frames) :=
    ⟨stored_newFrame sig (by omega), Nat.le_refl _, fun hf ↦ absurd hf (by simp [newFrame]), hold⟩
  have hesp : (enterHandler sig w).threadCtx.esp = (newFrame w).addr := rfl
  exact chained_resumed (by rw [hesp]; omega) hin

/-- `sigreturn` of a process that no tracer follows. -/
theorem handleInt80SysCall_sigreturn (env : Environment) (ctx : Context) (w : World)
    (hnf : NotFollowed w) (heax : ctx.eax = BitVec.ofNat 32 NR_sigreturn) {state : SignalSaveState}
    (hread : SignalSaveState.codec.decode (Mem.read w.mem ctx.ebx 724) = state) :
    ∃ w₁, handleInt80SysCall env ctx w = .ok state.ctx w₁ ∧ w₁.cur.signalMask = state.signalMask ∧
      w₁.mem = w.mem := by
  have hn : ctx.eax.toNat = 119 := by rw [heax]; rfl
  have hlt : ctx.eax.toNat < NR_syscalls := by rw [hn]; decide
  have henter : NotFollowed (enterSyscall ctx w) := hnf
  have hcall : syscallHandler env ctx.eax.toNat ctx (enterSyscall ctx w) =
      .ok state.ctx { enterSyscall ctx w with cur := { (enterSyscall ctx w).cur with
        signalMask := state.signalMask } } := by
    rw [hn, ← hread]
    rfl
  have hafter : NotFollowed { enterSyscall ctx w with cur := { (enterSyscall ctx w).cur with
      signalMask := state.signalMask } } := hnf
  have hstart : modifyCur
      (fun p ↦ { p with ptrace := { p.ptrace with ctx := ctx, ctxValid := true } }) w =
        .ok () (enterSyscall ctx w) := rfl
  refine ⟨{ enterSyscall ctx w with cur := { (enterSyscall ctx w).cur with
    signalMask := state.signalMask
    ptrace := { (enterSyscall ctx w).cur.ptrace with ctxValid := false } } }, ?_, rfl, rfl⟩
  rw [handleInt80SysCall, Comp.bind_of_ok hstart]
  simp only [hlt, if_true]
  rw [Comp.bind_of_ok (stopForPtrace_of_notFollowed henter _ _), Comp.bind_of_ok hcall,
    Comp.bind_of_ok (stopForPtrace_of_notFollowed hafter _ _)]
  rfl

/-- The `int 80h` of the restorer gives back the saved context and mask. -/
theorem handleException_sigreturn (env : Environment) {f : Frame} {w : World}
    (hstored : f.Stored w.mem) (hat : AtSigreturn f w.threadCtx) (hnf : NotFollowed w) :
    ∃ w₁, handleException env .accessViolation w.threadCtx.eip w = .ok () w₁ ∧
      w₁.threadCtx = f.ctx ∧ w₁.cur.signalMask = f.signalMask ∧ w₁.mem = w.mem := by
  have hinstr : (enterException w).instruction w.threadCtx.eip = INT80 := by
    have hcode : Mem.read w.mem w.threadCtx.eip 5 = [0xcd, 0x80] ++ [0x58, 0xb8, 0x77] := by
      rw [hat.eip]
      exact (restorerAt_of_stored hstored).int80
    have hword : Mem.read w.mem w.threadCtx.eip 2 = [0xcd, 0x80] :=
      (Mem.read_eq_append (by rfl) hcode).1
    change (Codec.word 2).decode (Mem.read w.mem w.threadCtx.eip 2) = INT80
    rw [hword]
    rfl
  let ctx := (exceptionContext w).withEip (w.threadCtx.eip + 2#32)
  have hread : SignalSaveState.codec.decode (Mem.read (enterException w).mem ctx.ebx 724) =
      ⟨f.ctx, f.signalMask⟩ := by
    change SignalSaveState.codec.decode (Mem.read w.mem w.threadCtx.ebx 724) = _
    rw [hat.ebx, hstored.saved]
    exact SignalSaveState.codec.decode_encode_nil _
  obtain ⟨w₁, hcall, hmask, hmem⟩ :=
    handleInt80SysCall_sigreturn env ctx (enterException w) hnf hat.eax hread
  have hcode : handleExceptionCode env .accessViolation w.threadCtx.eip (exceptionContext w)
      (enterException w) = .ok f.ctx w₁ := by
    have hself : (Comp.get : K World) (enterException w) = .ok (enterException w)
        (enterException w) := rfl
    rw [handleExceptionCode, Comp.bind_of_ok hself]
    simp only [hinstr, true_or, if_true]
    exact hcall
  refine ⟨{ w₁ with threadCtx := f.ctx }, ?_, rfl, hmask, hmem⟩
  have hget : getThreadContext w = .ok (exceptionContext w) w := rfl
  have hgs : (Comp.modify (fun w' : World ↦ { w' with segGs := (exceptionContext w).segGs }) :
      K PUnit) w = .ok () (enterException w) := rfl
  rw [handleException, Comp.bind_of_ok hget, Comp.bind_of_ok hgs, Comp.bind_of_ok hcode]
  simp only [setThreadContext, Comp.modify, Context.merge_of_all hstored.flags]

/-! ## Runs -/

/-- The user thread under its kernel thread, with the active deliveries, newest first. -/
structure Machine where
  world : World
  frames : List Frame

/-- One step. `stackDown` says that a handler keeps its stack pointer at or below its frame
until it returns. -/
inductive Step (env : Environment) (stackDown : Bool) : Machine → Machine → Prop
  /-- A pending signal takes a turn of `DebuggerLoop`. The frame and the code that reloads `gs`
  lie in the address space. -/
  | deliver {m : Machine} {sig : Nat} {w₁ w' : World} (hcatch : m.world.cur.Catches sig)
      (hroom : frameSize + 14 ≤ m.world.threadCtx.esp.toNat)
      (hact : actOnSignal sig m.world = .ok () w₁) (hres : resumeKeowProcess true w₁ = .ok () w') :
      Step env stackDown m ⟨w', newFrame m.world :: m.frames⟩
  /-- The user thread runs, makes system calls and changes its mask: whatever a handler does,
  memory at or above its frame stays. -/
  | run {m : Machine} {w' : World}
      (hhandler : ∀ f rest, m.frames = f :: rest → f.returning = false ∧
        Mem.AgreeAbove f.addr.toNat m.world.mem w'.mem ∧
        (stackDown = true → w'.threadCtx.esp.toNat ≤ f.addr.toNat)) :
      Step env stackDown m ⟨w', m.frames⟩
  /-- The handler returns. -/
  | ret {w : World} {f : Frame} {rest : List Frame} (hf : f.returning = false)
      (hesp : w.threadCtx.esp = f.addr)
      (hret : decodeInstruction (Mem.read w.mem w.threadCtx.eip 5) = some .ret) :
      Step env stackDown ⟨w, f :: rest⟩
        ⟨{ w with threadCtx := Instruction.ret.exec w.mem w.threadCtx },
          { f with returning := true } :: rest⟩
  /-- An instruction of the restorer, or of the code that reloads `gs`. -/
  | cpu {w : World} {f : Frame} {rest : List Frame} {ctx' : Context} (hf : f.returning = true)
      (hstep : cpuStep w.mem w.threadCtx = some ctx') :
      Step env stackDown ⟨w, f :: rest⟩ ⟨{ w with threadCtx := ctx' }, f :: rest⟩
  /-- The `int 80h` of the restorer traps, with no signal pending and no tracer that follows
  system calls. -/
  | sigreturn {w w₁ w' : World} {f : Frame} {rest : List Frame} (hf : f.returning = true)
      (hint : w.instruction w.threadCtx.eip = INT80) (hnf : NotFollowed w)
      (hexc : handleException env .accessViolation w.threadCtx.eip w = .ok () w₁)
      (hres : resumeKeowProcess true w₁ = .ok () w') :
      Step env stackDown ⟨w, f :: rest⟩ ⟨w', rest⟩

/-- What the active deliveries rely on. -/
def Machine.Inv (m : Machine) : Prop := Chained m.world.mem m.world.threadCtx m.frames

/-- The processor does not run an `int 80h`: it traps. -/
theorem decodeInstruction_int80 {w : World} {addr : DWORD} (h : w.instruction addr = INT80) :
    decodeInstruction (Mem.read w.mem addr 5) = none := by
  let b₀ := w.mem (addr + BitVec.ofNat 32 0)
  let b₁ := w.mem (addr + BitVec.ofNat 32 1)
  have hword : b₀.toNat + 256 * b₁.toNat = 0x80cd := by
    have h' : BitVec.ofNat 16 (b₀.toNat + 256 * (b₁.toNat + 256 * 0)) = 0x80cd#16 := h
    have hn := congrArg BitVec.toNat h'
    have h₀ := b₀.toNat_lt
    have h₁ := b₁.toNat_lt
    simp only [BitVec.toNat_ofNat] at hn
    omega
  have hfirst : b₀ = 0xcd := by
    have h₀ := b₀.toNat_lt
    apply UInt8.toNat_inj.mp
    change b₀.toNat = 205
    omega
  have hcode : (Mem.read w.mem addr 5)[0]? = some 0xcd := by
    rw [← hfirst]
    rfl
  simp only [decodeInstruction, hcode]
  rfl

/-- At an `int 80h` nothing of the injected code is left to run before the call. -/
theorem atSigreturn_of_onWay {f : Frame} {w : World} (h : OnWay f w.mem w.threadCtx)
    (hint : w.instruction w.threadCtx.eip = INT80) : AtSigreturn f w.threadCtx := by
  cases h with
  | here h => exact h
  | step hcode hfits hstack hstep hup h =>
    rw [cpuStep, decodeInstruction_int80 hint] at hstep
    exact absurd hstep (by simp)

theorem chained_run {w w' : World} {f : Frame} {rest : List Frame}
    (h : Chained w.mem w.threadCtx (f :: rest)) (hf : f.returning = false)
    (hagree : Mem.AgreeAbove f.addr.toNat w.mem w'.mem)
    (hesp : w'.threadCtx.esp.toNat ≤ f.addr.toNat) :
    Chained w'.mem w'.threadCtx (f :: rest) := by
  obtain ⟨hstored, -, -, hrest⟩ := h
  have hfloor : f.floor = f.addr.toNat := by simp [Frame.floor, hf]
  have htop := hstored.top
  refine ⟨Frame.stored_of_agree hstored (by rw [hfloor]; exact hagree), ?_,
    fun hf' ↦ absurd hf' (by simp [hf]), ?_⟩
  · rw [hfloor]
    exact hesp
  · exact chained_of_agree hrest (Mem.agreeAbove_mono hagree (by omega))

/-- The handler's `ret` goes to the restorer and leaves the signal number on the stack. -/
theorem chained_ret {w : World} {f : Frame} {rest : List Frame}
    (h : Chained w.mem w.threadCtx (f :: rest)) (hf : f.returning = false)
    (hesp : w.threadCtx.esp = f.addr) :
    Chained w.mem (Instruction.ret.exec w.mem w.threadCtx)
      ({ f with returning := true } :: rest) := by
  obtain ⟨hstored, -, -, hrest⟩ := h
  let f' : Frame := { f with returning := true }
  have hstored' : f'.Stored w.mem :=
    ⟨hstored.top, hstored.flags, hstored.saved, hstored.restorer, fun h ↦ absurd h (by simp [f'])⟩
  have hback : wordAt w.mem w.threadCtx.esp = f.addr + 868#32 := by
    rw [hesp, wordAt, hstored.returnAddress hf]
    exact (Codec.word 4).decode_encode_nil _
  have hfour : (f.addr + 4#32).toNat = f.addr.toNat + 4 := hstored.toNat_add (by decide)
  have hesp' : (Instruction.ret.exec w.mem w.threadCtx).esp = f'.addr + 4#32 := by
    change w.threadCtx.esp + 4#32 = _
    rw [hesp]
  refine ⟨hstored', ?_, fun _ ↦ onWay_restorer hstored' hback hesp', hrest⟩
  have hfloor : f'.floor = f.addr.toNat + 4 := rfl
  change (Instruction.ret.exec w.mem w.threadCtx).esp.toNat ≤ f'.floor
  rw [hesp', hfloor]
  exact Nat.le_of_eq hfour

theorem chained_cpu {mem : UserMem} {ctx ctx' : Context} {f : Frame} {rest : List Frame}
    (h : Chained mem ctx (f :: rest)) (hf : f.returning = true)
    (hstep : cpuStep mem ctx = some ctx') : Chained mem ctx' (f :: rest) := by
  obtain ⟨hstored, -, hway, hrest⟩ := h
  have hnext : OnWay f mem ctx' := by
    cases hway hf with
    | here hat =>
      rw [cpuStep, hat.eip, (restorerAt_of_stored hstored).int80] at hstep
      exact absurd hstep (by simp [decodeInstruction])
    | step hcode hfits hstack hstep' hup h =>
      obtain rfl := Option.some.inj (hstep'.symm.trans hstep)
      exact h
  refine ⟨hstored, ?_, fun _ ↦ hnext, hrest⟩
  have hfloor : f.floor = f.addr.toNat + 4 := by simp [Frame.floor, hf]
  rw [hfloor]
  exact onWay_esp_le hstored hnext

theorem inv_step {env : Environment} {m m' : Machine} (h : Step env true m m') (hinv : m.Inv) :
    m'.Inv := by
  cases h with
  | deliver hcatch hroom hact hres =>
    rw [actOnSignal_eq hcatch] at hact
    obtain ⟨-, rfl⟩ := Result.ok.inj hact
    rw [resumeKeowProcess_eq] at hres
    obtain ⟨-, rfl⟩ := Result.ok.inj hres
    exact chained_deliver _ hroom hinv
  | @run m w' hhandler =>
    obtain ⟨w, frames⟩ := m
    cases frames with
    | nil => trivial
    | cons f rest =>
      obtain ⟨hf, hagree, hesp⟩ := hhandler f rest rfl
      exact chained_run hinv hf hagree (hesp rfl)
  | ret hf hesp hret =>
    have hchained := chained_ret hinv hf hesp
    exact hchained
  | cpu hf hstep => exact chained_cpu hinv hf hstep
  | @sigreturn w w₁ w' f rest hf hint hnf hexc hres =>
    obtain ⟨hstored, -, hway, hrest⟩ := hinv
    obtain ⟨w₂, hexc', hctx, -, hmem⟩ :=
      handleException_sigreturn env hstored (atSigreturn_of_onWay (hway hf) hint) hnf
    obtain ⟨-, rfl⟩ := Result.ok.inj (hexc'.symm.trans hexc)
    rw [resumeKeowProcess_eq] at hres
    obtain ⟨-, rfl⟩ := Result.ok.inj hres
    have htop := hstored.top
    have hsize : frameSize = 888 := rfl
    have hback : Chained w₂.mem w₂.threadCtx rest := by
      rw [hmem, hctx]
      exact hrest
    exact chained_resumed (by rw [hctx]; omega) hback

/-- The invariant holds along every run. -/
theorem inv_reachable {env : Environment} {w₀ : World} {m : Machine}
    (h : Relation.ReflTransGen (Step env true) ⟨w₀, []⟩ m) : m.Inv := by
  induction h with
  | refl => trivial
  | tail _ hstep ih => exact inv_step hstep ih

/-- The address lies in the frame. -/
def Frame.Covers (f : Frame) (a : DWORD) : Prop :=
  f.addr.toNat ≤ a.toNat ∧ a.toNat < f.addr.toNat + frameSize

/-- No address lies in two active frames. -/
def Disjoint (frames : List Frame) : Prop :=
  frames.Pairwise (fun g f ↦ ∀ a, ¬(g.Covers a ∧ f.Covers a))

/-- An address lies in two active frames only if it belongs to the return address of the older
one and that has been used up. -/
def DisjointButSpent (frames : List Frame) : Prop :=
  frames.Pairwise (fun g f ↦ ∀ a, g.Covers a → f.Covers a →
    f.returning = true ∧ a.toNat < f.addr.toNat + 4)

theorem disjointButSpent_of_chained {mem : UserMem} {ctx : Context} {frames : List Frame}
    (h : Chained mem ctx frames) : DisjointButSpent frames := by
  induction frames generalizing ctx with
  | nil => exact List.Pairwise.nil
  | cons g rest ih =>
    obtain ⟨hstored, -, -, hrest⟩ := h
    refine List.Pairwise.cons (fun f hf a hg hfa ↦ ?_) (ih hrest)
    have hfloor := chained_floor hrest f hf
    have htop := hstored.top
    unfold Frame.floor at hfloor
    unfold Frame.Covers at hg hfa
    cases hr : f.returning with
    | true =>
      rw [hr, if_pos rfl] at hfloor
      exact ⟨rfl, by omega⟩
    | false =>
      rw [hr] at hfloor
      simp only [Bool.false_eq_true, if_false] at hfloor
      omega

/-- The two instructions that `ResumeKeowProcess` injects take the thread to the context, with
`gs` reloaded. -/
def ResumesAt (ctx : Context) (w : World) : Prop :=
  ∃ ctx₁ ctx₂, cpuStep (resumed w).mem (resumed w).threadCtx = some ctx₁ ∧
    cpuStep (resumed w).mem ctx₁ = some ctx₂ ∧ ctx₂ = { ctx with segGs := ctx₁.segGs }

/-- In every run of nested deliveries and returns, the active frames are disjoint except for
return addresses that are used up; a handler that has returned gets to its `sigreturn`; and the
`sigreturn` puts in force the context and the mask from just before its delivery, where the
thread is resumed. -/
theorem nested_roundTrip (env : Environment) (w₀ : World) (m : Machine)
    (h : Relation.ReflTransGen (Step env true) ⟨w₀, []⟩ m) :
    DisjointButSpent m.frames ∧
      ∀ f rest, m.frames = f :: rest → f.returning = true →
        OnWay f m.world.mem m.world.threadCtx ∧
          (m.world.instruction m.world.threadCtx.eip = INT80 → NotFollowed m.world →
            ∃ w₁, handleException env .accessViolation m.world.threadCtx.eip m.world = .ok () w₁ ∧
              w₁.threadCtx = f.ctx ∧ w₁.cur.signalMask = f.signalMask ∧ ResumesAt f.ctx w₁) := by
  have hinv := inv_reachable h
  refine ⟨disjointButSpent_of_chained hinv, fun f rest hframes hf ↦ ?_⟩
  have hchain : Chained m.world.mem m.world.threadCtx (f :: rest) := by
    rw [← hframes]
    exact hinv
  obtain ⟨hstored, -, hway, -⟩ := hchain
  refine ⟨hway hf, fun hint hnf ↦ ?_⟩
  obtain ⟨w₁, hexc, hctx, hmask, -⟩ :=
    handleException_sigreturn env hstored (atSigreturn_of_onWay (hway hf) hint) hnf
  obtain ⟨ctx₁, ctx₂, hstep₁, hstep₂, -, -, hctx₂⟩ := cpuStep_resumed (w := w₁)
  rw [hctx] at hctx₂
  exact ⟨w₁, hexc, hctx, hmask, ctx₁, ctx₂, hstep₁, hstep₂, hctx₂⟩

/-! A process that catches two signals with one handler, interrupted by the second signal after
the `ret` of the first handler, or when that handler has given up its stack. -/

def twoHandlers : World :=
  let w := loneWorld []
  { w with
    cur := { w.cur with signalAction := fun s ↦
      if s = SIGUSR1 ∨ s = SIGUSR2 then { saHandler := 0x1000#32 } else {} }
    threadCtx := { Context.zero with esp := 0x20000#32 } }

def firstHandler : World := resumed (enterHandler SIGUSR1 twoHandlers)

/-- The handler of the first signal has filled the stack below its frame with `ret`. -/
def inFirstHandler (esp : DWORD) : World :=
  { firstHandler with
    threadCtx := { firstHandler.threadCtx with esp := esp, eip := 0x1000#32 }
    mem := fun a ↦
      if (newFrame twoHandlers).addr.toNat ≤ a.toNat then firstHandler.mem a else 0xc3 }

def inRestorer : World :=
  let w := inFirstHandler (newFrame twoHandlers).addr
  { w with threadCtx := Instruction.ret.exec w.mem w.threadCtx }

theorem step_deliver {env : Environment} {stackDown : Bool} {sig : Nat} {w : World}
    (hcatch : w.cur.Catches sig) (hroom : frameSize + 14 ≤ w.threadCtx.esp.toNat)
    (frames : List Frame) : Step env stackDown ⟨w, frames⟩
      ⟨resumed (enterHandler sig w), newFrame w :: frames⟩ :=
  .deliver hcatch hroom (actOnSignal_eq hcatch) (resumeKeowProcess_eq _)

theorem catches_second (esp : DWORD) : (inFirstHandler esp).cur.Catches SIGUSR2 := by
  have hcatch : (inFirstHandler 0#32).cur.Catches SIGUSR2 :=
    ⟨by decide, by decide, by decide, by decide, by decide, by decide⟩
  exact hcatch

/-- The first signal is delivered and its handler runs. -/
theorem reaches_firstHandler (stackDown : Bool) (esp : DWORD)
    (hesp : stackDown = true → esp.toNat ≤ (newFrame twoHandlers).addr.toNat) :
    Relation.ReflTransGen (Step idleEnvironment stackDown) ⟨twoHandlers, []⟩
      ⟨inFirstHandler esp, [newFrame twoHandlers]⟩ := by
  have hcatch : twoHandlers.cur.Catches SIGUSR1 :=
    ⟨by decide, by decide, by decide, rfl, by decide, by decide⟩
  refine .tail (.single (step_deliver hcatch (by decide) [])) (.run ?_)
  intro f rest hframes
  obtain ⟨rfl, -⟩ := List.cons.inj hframes
  exact ⟨rfl, fun a ha ↦ (if_pos ha).symm, hesp⟩

/-- The second signal comes after the `ret` of the first handler. -/
theorem reaches_secondFrame :
    Relation.ReflTransGen (Step idleEnvironment true) ⟨twoHandlers, []⟩
      ⟨resumed (enterHandler SIGUSR2 inRestorer),
        [newFrame inRestorer, { newFrame twoHandlers with returning := true }]⟩ := by
  have hret : Step idleEnvironment true
      ⟨inFirstHandler (newFrame twoHandlers).addr, [newFrame twoHandlers]⟩
      ⟨inRestorer, [{ newFrame twoHandlers with returning := true }]⟩ := .ret rfl rfl rfl
  refine .tail (.tail (reaches_firstHandler true _ (fun _ ↦ Nat.le_refl _)) hret) ?_
  have hcatch : inRestorer.cur.Catches SIGUSR2 := catches_second (newFrame twoHandlers).addr
  exact step_deliver hcatch (by decide) _

/-- Two deliveries are active, and their frames are disjoint but for a spent word. -/
theorem nested_roundTrip_second :
    ∃ m, Relation.ReflTransGen (Step idleEnvironment true) ⟨twoHandlers, []⟩ m ∧
      m.frames.length = 2 ∧ DisjointButSpent m.frames :=
  ⟨_, reaches_secondFrame, rfl,
    (nested_roundTrip idleEnvironment twoHandlers _ reaches_secondFrame).1⟩

/-- A signal that comes in the restorer reuses the word of the return address, and one that
comes when a handler has raised its stack pointer above its frame destroys the frame. -/
theorem active_frames_overlap :
    (¬∀ env w₀ m, Relation.ReflTransGen (Step env true) ⟨w₀, []⟩ m → Disjoint m.frames) ∧
      ¬∀ env w₀ m, Relation.ReflTransGen (Step env false) ⟨w₀, []⟩ m →
        DisjointButSpent m.frames := by
  constructor
  · intro hall
    have hdisjoint := hall _ _ _ reaches_secondFrame
    have hpair := List.rel_of_pairwise_cons hdisjoint (List.mem_singleton_self _)
    exact hpair (newFrame twoHandlers).addr ⟨⟨by decide, by decide⟩, ⟨by decide, by decide⟩⟩
  · intro hall
    have hraised := reaches_firstHandler false 0x20000#32 (fun h ↦ absurd h (by decide))
    have hboth := hall _ _ _ (.tail hraised (step_deliver (catches_second 0x20000#32)
      (by decide) _))
    have hpair := List.rel_of_pairwise_cons hboth (List.mem_singleton_self _)
    have hspent := hpair (newFrame twoHandlers).addr ⟨by decide, by decide⟩ ⟨by decide, by decide⟩
    exact absurd hspent.1 (by decide)

end Keow.Signal
