import Keow.Base.Prog
import Keow.Base.StringArray
import Keow.Signal.Deliver
import Keow.Stub.Functions

/-!
# Calls into the user process

`Process::InjectFunctionCall` against the functions of the stub. The kernel leaves the arguments
on the Win32 stack of the stopped thread and lets it run at the function; the function breaks or
ends the process, and other debug events come before that. A system call makes any number of such
calls, each with what the ones before it have returned.
-/

namespace Keow.Stub

open Keow.Base Keow.Kernel Keow.Signal

/-! ## Words on a stack -/

theorem length_words (vs : List DWORD) :
    (vs.flatMap (Codec.word 4).encode).length = 4 * vs.length := by
  rw [List.length_flatMap]
  simp [Codec.word, Nat.mul_comm]

/-- A word of an array that has been stored. -/
theorem word_of_stored (m : Mem 32) (a : BitVec 32) {vs : List DWORD} {i : Nat} {v : DWORD}
    (hv : vs[i]? = some v) (hlen : 4 * vs.length ≤ 2 ^ 32) :
    (m.write a (vs.flatMap (Codec.word 4).encode)).word (a + BitVec.ofNat 32 (4 * i)) = v := by
  obtain ⟨hi, rfl⟩ := List.getElem?_eq_some_iff.mp hv
  have hsplit : vs.flatMap (Codec.word 4).encode =
      (vs.take i).flatMap (Codec.word 4).encode ++
        ((Codec.word 4).encode vs[i] ++ (vs.drop (i + 1)).flatMap (Codec.word 4).encode) := by
    rw [← List.flatMap_cons, ← List.drop_eq_getElem_cons hi, ← List.flatMap_append,
      List.take_append_drop]
  have hread := Mem.read_write m a (vs.flatMap (Codec.word 4).encode)
    (by rw [length_words]; exact hlen)
  obtain ⟨-, hrest⟩ := Mem.read_eq_append (by rw [hsplit, List.length_append])
    (hread.trans hsplit)
  obtain ⟨hword, -⟩ := Mem.read_eq_append (List.length_append ..) hrest
  rw [length_words, List.length_take, Nat.min_eq_left (Nat.le_of_lt hi),
    Codec.length_encode] at hword
  exact (congrArg (Codec.word 4).decode hword).trans (Codec.decode_encode_nil _ _)

/-- The thread of the stub, as it is before it runs for the first time: the stack below its
pointer has room for the frame of any call. -/
structure StubThread where
  /-- `m_BaseWin32Ctx`. -/
  ctx : Context
  full : ctx.contextFlags = Context.CONTEXT_FULL
  stackLimit : DWORD
  room : stackLimit.toNat + 28 ≤ ctx.esp.toNat

namespace StubThread

variable (th : StubThread)

/-- On the part of the stack that the thread has not used. -/
def OnStack (x : DWORD) : Prop := th.stackLimit.toNat ≤ x.toNat ∧ x.toNat < th.ctx.esp.toNat

/-- The same memory but for that. -/
def Agree (m m' : UserMem) : Prop := ∀ x, ¬th.OnStack x → m x = m' x

variable {th}

theorem agree_refl (m : UserMem) : th.Agree m m := fun _ _ ↦ rfl

theorem Agree.trans {m m' m'' : UserMem} (h : th.Agree m m') (h' : th.Agree m' m'') :
    th.Agree m m'' := fun x hx ↦ (h x hx).trans (h' x hx)

theorem agree_write (m : UserMem) {a : DWORD} {bs : List UInt8}
    (hlow : th.stackLimit.toNat ≤ a.toNat) (hhigh : a.toNat + bs.length ≤ th.ctx.esp.toNat) :
    th.Agree m (m.write a bs) := by
  intro x hx
  have hlt := th.ctx.esp.isLt
  rcases Nat.lt_or_ge x.toNat a.toNat with hbelow | habove
  · exact (Mem.write_below m a x bs (by omega) hbelow).symm
  · refine (Mem.write_above m a x bs ?_).symm
    by_contra hinside
    exact hx ⟨by omega, by omega⟩

end StubThread

/-! ## The kernel's side -/

/-- `SysCallDll` in the kernel, with `P->SysCallAddr`. -/
def Call.remote (sysCallAddr : Function → DWORD) (c : Call) : K DWORD :=
  injectFunctionCall (sysCallAddr c.function) (c.stack.flatMap (Codec.word 4).encode)

theorem Call.within_remote (sysCallAddr : Function → DWORD) (c : Call) :
    Comp.Within consuming (c.remote sysCallAddr) :=
  consumes_injectFunctionCall _ _

/-- The world in which `InjectFunctionCall` lets the thread run. -/
def injected (func : DWORD) (stackData : List UInt8) (w : World) : World :=
  let ctx := { w.cur.baseWin32Ctx with
    eip := func
    esp := w.cur.baseWin32Ctx.esp - 4#32 - BitVec.ofNat 32 stackData.length }
  { w with
    threadCtx := ctx.merge w.threadCtx
    mem := (w.mem.write ctx.esp (natBytes 4 0)).write (ctx.esp + 4#32) stackData }

/-- An input that the wait for the break lets pass. -/
def Passing : Input → Prop
  | .event (.exception .breakpoint _) _ _ => False
  | .event (.exitProcess _) _ _ => False
  | _ => True

theorem injectLoop_passing {noise : List Input} (hnoise : ∀ i ∈ noise, Passing i)
    (more : List Input) (w : World) :
    ∃ w', injectLoop (noise ++ more) w = injectLoop more w' ∧
      w'.cur.baseWin32Ctx = w.cur.baseWin32Ctx := by
  induction noise generalizing w with
  | nil => exact ⟨w, rfl, rfl⟩
  | cons i noise ih =>
    obtain ⟨hi, hnoise⟩ := List.forall_mem_cons.mp hnoise
    obtain ⟨w₁, hstep, hbase⟩ : ∃ w₁, injectLoop (i :: noise ++ more) w =
        injectLoop (noise ++ more) w₁ ∧ w₁.cur.baseWin32Ctx = w.cur.baseWin32Ctx := by
      cases i with
      | send sig => exact ⟨_, rfl, rfl⟩
      | resume request data => exact ⟨_, rfl, rfl⟩
      | event evt ctx mem =>
        cases evt with
        | exception code address => cases code <;> first | exact hi.elim | exact ⟨_, rfl, rfl⟩
        | exitProcess code => exact hi.elim
        | _ => exact ⟨_, rfl, rfl⟩
    obtain ⟨w', hrest, hbase'⟩ := ih hnoise w₁
    exact ⟨w', hstep.trans hrest, hbase'.trans hbase⟩

/-- What is left to do behind the break. -/
def afterBreak (oldCtx : Context) : K DWORD := do
  let w ← Comp.get
  let ret := w.threadCtx.eax
  if w.cur.inWin32Setup then setThreadContext oldCtx
  return ret

theorem injectFunctionCall_eq (func : DWORD) (stackData : List UInt8) (w : World) :
    injectFunctionCall func stackData w =
      (injectLoop w.inputs >>= fun _ ↦
        afterBreak { w.threadCtx with contextFlags := Context.CONTEXT_FULL })
        (injected func stackData w) := rfl

theorem afterBreak_ok (oldCtx : Context) (w : World) :
    ∃ w', afterBreak oldCtx w = .ok w.threadCtx.eax w' ∧ w'.mem = w.mem ∧ w'.cur = w.cur := by
  cases hsetup : w.cur.inWin32Setup with
  | false => exact ⟨w, by simp [afterBreak, Comp.get_bind, hsetup], rfl, rfl⟩
  | true =>
    exact ⟨{ w with threadCtx := oldCtx.merge w.threadCtx },
      by simp [afterBreak, Comp.get_bind, hsetup]; rfl, rfl, rfl⟩

/-- The function breaks: the kernel has its `Eax`. -/
theorem injectFunctionCall_broken {func : DWORD} {stackData : List UInt8} {w : World}
    {noise rest : List Input} {address : DWORD} {ctx : Context} {mem : UserMem}
    (hnoise : ∀ i ∈ noise, Passing i)
    (hinputs : w.inputs = noise ++ .event (.exception .breakpoint address) ctx mem :: rest) :
    ∃ w', injectFunctionCall func stackData w = .ok ctx.eax w' ∧ w'.mem = mem ∧
      w'.cur.baseWin32Ctx = w.cur.baseWin32Ctx := by
  obtain ⟨w₁, hloop, hbase⟩ := injectLoop_passing hnoise
    (.event (.exception .breakpoint address) ctx mem :: rest) (injected func stackData w)
  have hbreak : injectLoop w.inputs (injected func stackData w) =
      .ok () { w₁ with threadCtx := ctx, mem := mem, inputs := rest } := by
    rw [hinputs, hloop]
    rfl
  obtain ⟨w', hafter, hmem, hcur⟩ := afterBreak_ok
    { w.threadCtx with contextFlags := Context.CONTEXT_FULL }
    { w₁ with threadCtx := ctx, mem := mem, inputs := rest }
  refine ⟨w', ?_, hmem, ?_⟩
  · rw [injectFunctionCall_eq, Comp.bind_of_ok hbreak, hafter]
  · rw [hcur]
    exact hbase

/-- The process exits: so does the kernel's thread. -/
theorem injectFunctionCall_exited {func : DWORD} {stackData : List UInt8} {w : World}
    {noise rest : List Input} {code : DWORD} {ctx : Context} {mem : UserMem}
    (hnoise : ∀ i ∈ noise, Passing i)
    (hinputs : w.inputs = noise ++ .event (.exitProcess code) ctx mem :: rest) :
    ∃ w', injectFunctionCall func stackData w = .exit w' ∧ w'.cur.exitCode = code ∧
      w'.cur.stillRunning = false := by
  obtain ⟨w₁, hloop, -⟩ := injectLoop_passing hnoise
    (.event (.exitProcess code) ctx mem :: rest) (injected func stackData w)
  have hexit : injectLoop w.inputs (injected func stackData w) =
      .exit ({ w₁ with threadCtx := ctx, mem := mem, inputs := rest }.recordExit code) := by
    rw [hinputs, hloop]
    rfl
  refine ⟨{ w₁ with threadCtx := ctx, mem := mem, inputs := rest }.recordExit code, ?_, rfl, rfl⟩
  rw [injectFunctionCall_eq]
  simp only [Bind.bind, Comp.bind, hexit]

/-! ## The thread's side -/

/-- The library in the user process: `LoadAddressInfo` takes the address of each function. -/
structure Dll where
  address : Function → DWORD
  code : DWORD → Option Function
  code_address : ∀ f, code (address f) = some f

variable {ω : Type}

def Machine.withMem (m : Machine ω) (mem : UserMem) : Machine ω :=
  { m with win32 := { m.win32 with mem := mem } }

/-- What a `_stdcall` function takes for its arguments: the words behind the return address. -/
def argument (mem : UserMem) (esp : DWORD) (i : Nat) : DWORD :=
  mem.word (esp + 4#32 + BitVec.ofNat 32 (4 * i))

/-- How a run of the thread in the library may come out. It takes its arguments from the stack as
it finds it, and what it has put there itself is not known when it calls Win32. -/
def Dll.Executes (d : Dll) (api : Win32 ω) (th : StubThread) (ctx : Context) (m : Machine ω)
    (out : Except DWORD (DWORD × Machine ω)) : Prop :=
  ∃ f μ, d.code ctx.eip = some f ∧ th.Agree m.win32.mem μ ∧
    f.enter api (argument m.win32.mem ctx.esp) (m.withMem μ) = out

/-- The debug event for it. -/
inductive Reports (th : StubThread) : Except DWORD (DWORD × Machine ω) → Input → Prop
  | breaks {val : DWORD} {m : Machine ω} {address : DWORD} {ctx : Context} {mem : UserMem}
      (heax : ctx.eax = val) (hmem : th.Agree m.win32.mem mem) :
      Reports th (.ok (val, m)) (.event (.exception .breakpoint address) ctx mem)
  | exits {code : DWORD} {ctx : Context} {mem : UserMem} :
      Reports th (.error code) (.event (.exitProcess code) ctx mem)

/-- The thread that runs where the kernel has put it comes to an end, and says so. -/
def Answers (d : Dll) (api : Win32 ω) (th : StubThread) (c : Call) (m : Machine ω) (w : World) :
    Prop :=
  let w' := injected (d.address c.function) (c.stack.flatMap (Codec.word 4).encode) w
  ∃ noise event rest out, w.inputs = noise ++ event :: rest ∧ (∀ i ∈ noise, Passing i) ∧
    d.Executes api th w'.threadCtx (m.withMem w'.mem) out ∧ Reports th out event

/-! ## Programs of calls -/

/-- A call inside the user process, on a stack whose unused part is not known. -/
def calling (api : Win32 ω) (th : StubThread) : CallSpec Call DWORD (Machine ω) DWORD where
  returns c m val m' := ∃ μ, th.Agree m.win32.mem μ ∧ c.direct api (m.withMem μ) = .ok (val, m')
  ends c m code := ∃ μ, th.Agree m.win32.mem μ ∧ c.direct api (m.withMem μ) = .error code

/-- The kernel has the process in view as it is. -/
structure InView (th : StubThread) (m : Machine ω) (w : World) : Prop where
  mem : th.Agree m.win32.mem w.mem
  ctx : w.cur.baseWin32Ctx = th.ctx

def Exited (code : DWORD) (w : World) : Prop :=
  w.cur.exitCode = code ∧ w.cur.stillRunning = false

section Injected

variable {th : StubThread} {w : World}

/-- The thread runs at the function, on the frame. -/
theorem injected_registers (hctx : w.cur.baseWin32Ctx = th.ctx) (func : DWORD)
    (stackData : List UInt8) :
    (injected func stackData w).threadCtx.eip = func ∧
      (injected func stackData w).threadCtx.esp =
        th.ctx.esp - 4#32 - BitVec.ofNat 32 stackData.length := by
  have hcontrol : Context.CONTEXT_FULL.getLsbD 0 = true := by decide
  simp [injected, hctx, Context.merge, th.full, hcontrol]

theorem frame_add (th : StubThread) {n : Nat} (hn : n ≤ 24) :
    (th.ctx.esp - 4#32 - BitVec.ofNat 32 n).toNat + (4 + n) = th.ctx.esp.toNat := by
  have hroom := th.room
  have hlt := th.ctx.esp.isLt
  have hfour : (4#32).toNat = 4 := rfl
  have hofNat : (BitVec.ofNat 32 n).toNat = n := by
    rw [BitVec.toNat_ofNat, Nat.mod_eq_of_lt (by omega)]
  rw [Mem.toNat_sub_of_le (by rw [Mem.toNat_sub_of_le (by omega)]; omega),
    Mem.toNat_sub_of_le (by omega)]
  omega

/-- The frame lies where the thread has not used the stack. -/
theorem agree_injected (hctx : w.cur.baseWin32Ctx = th.ctx) (func : DWORD) {stackData : List UInt8}
    (hlength : stackData.length ≤ 24) : th.Agree w.mem (injected func stackData w).mem := by
  have hframe := frame_add th hlength
  have hroom := th.room
  have hlt := th.ctx.esp.isLt
  have hadd : (th.ctx.esp - 4#32 - BitVec.ofNat 32 stackData.length + 4#32).toNat =
      (th.ctx.esp - 4#32 - BitVec.ofNat 32 stackData.length).toNat + 4 :=
    Mem.toNat_add_ofNat (i := 4) (by omega)
  simp only [injected, hctx]
  refine (StubThread.agree_write _ (by omega) ?_).trans (StubThread.agree_write _ ?_ ?_)
  · rw [length_natBytes]
    omega
  · omega
  · omega

/-- The function finds the arguments of the call. -/
theorem argument_injected (hctx : w.cur.baseWin32Ctx = th.ctx) (func : DWORD) {vs : List DWORD}
    {i : Nat} {v : DWORD} (hv : vs[i]? = some v) (hlength : vs.length ≤ 6) :
    argument (injected func (vs.flatMap (Codec.word 4).encode) w).mem
      (injected func (vs.flatMap (Codec.word 4).encode) w).threadCtx.esp i = v := by
  rw [argument, (injected_registers hctx _ _).2]
  simp only [injected, hctx]
  exact word_of_stored _ _ hv (by omega)

end Injected

/-- A call into the user process is the call inside it. -/
theorem remote_simulates (d : Dll) (api : Win32 ω) (th : StubThread) :
    Prog.Simulates (calling api th) (Call.remote d.address) (InView th) (Answers d api th)
      Exited := by
  rintro c m w ⟨hmem, hctx⟩
    ⟨noise, event, rest, out, hinputs, hnoise, ⟨f, μ, hcode, hscratch, hout⟩, hreports⟩
  have hlength := c.length_stack_le
  rw [(injected_registers hctx _ _).1, d.code_address] at hcode
  cases hcode
  have henter := enter_function api (c := c) fun i v hv ↦
    argument_injected hctx (d.address c.function) hv hlength
  have hdirect : c.direct api (m.withMem μ) = out :=
    (congrFun henter (m.withMem μ)).symm.trans hout
  have hagree : th.Agree m.win32.mem μ :=
    hmem.trans ((agree_injected hctx _ (by rw [length_words]; omega)).trans hscratch)
  cases hreports with
  | breaks heax hmem' =>
    obtain ⟨w', hrun, rfl, hctx'⟩ := injectFunctionCall_broken hnoise hinputs
    subst heax
    exact .inl ⟨_, _, w', hrun, ⟨μ, hagree, hdirect⟩, hmem', hctx'.trans hctx⟩
  | exits =>
    obtain ⟨w', hrun, hended⟩ := injectFunctionCall_exited hnoise hinputs
    exact .inr ⟨_, w', hrun, ⟨μ, hagree, hdirect⟩, hended⟩

/-- The three calls that signals and exits make are among these. -/
theorem remote_eq (d : Dll) {w : World}
    (haddr : w.cur.sysCallAddr = ⟨d.address .exit, d.address .writeFile, d.address .getLastError⟩) :
    (∀ code, sysCallDllExit code w = (Call.remote d.address (.exit code) >>= fun _ ↦ pure ()) w) ∧
      (∀ h buf len,
        sysCallDllWriteFile h buf len w = Call.remote d.address (.writeFile h buf len) w) ∧
      sysCallDllGetLastError w = Call.remote d.address .getLastError w := by
  refine ⟨fun code ↦ ?_, fun h buf len ↦ ?_, ?_⟩
  · simp only [sysCallDllExit, Comp.get_bind, haddr]
    rfl
  · simp only [sysCallDllWriteFile, Comp.get_bind, haddr]
    rfl
  · simp only [sysCallDllGetLastError, Comp.get_bind, haddr]
    rfl

/-- Whatever calls the kernel makes, each chosen by what the ones before it have returned, the
process and the results are as if they had been made inside the process; the inputs taken
meanwhile leave in the kernel the signals sent and the requests of the tracer, and nothing else.
If one of the calls ends the process, the kernel has the exit code besides. After the last call,
`GetLastError` has the error of the thread. -/
theorem remote_program {α : Type} (d : Dll) (api : Win32 ω) (th : StubThread)
    (p : Prog Call DWORD α) {m : Machine ω} {w : World} (hview : InView th m w)
    (hanswered : p.Answered (calling api th) (Call.remote d.address) (InView th)
      (Answers d api th) m w) :
    (∃ a m' w', p.run (Call.remote d.address) w = .ok a w' ∧ Consumes w w' ∧
        p.Comes (calling api th) m (.ok (a, m')) ∧ InView th m' w' ∧
          (p.makesCall = true → m'.lastError = m'.win32.threadError)) ∨
      ∃ code w', p.run (Call.remote d.address) w = .exit (w'.recordExit code) ∧ Consumes w w' ∧
        p.Comes (calling api th) m (.error code) := by
  have hconsumes := Prog.within_run (Call.within_remote d.address) p w
  rcases (remote_simulates d api th).run p hview hanswered with
    ⟨a, m', w', hrun, hcomes, hview'⟩ | ⟨code, w', hrun, hcomes, hended⟩
  · refine .inl ⟨a, m', w', hrun, Comp.of_post_ok hconsumes hrun, hcomes, hview', fun hp ↦ ?_⟩
    exact hcomes.of_returns (fun c m val m' ⟨μ, _, h⟩ ↦ lastError_of_direct h) hp
  · obtain ⟨exitCode, w₁, hconsumes₁, rfl⟩ := Comp.of_post_exit hconsumes hrun
    obtain rfl : exitCode = code := hended.1
    exact .inr ⟨exitCode, w₁, hrun, hconsumes₁, hcomes⟩

section Invalid

/-- A thread with 8 KiB of stack. -/
def smallThread : StubThread where
  ctx := { Context.zero with contextFlags := Context.CONTEXT_FULL, esp := 0x12000#32 }
  full := rfl
  stackLimit := 0x10000#32
  room := by decide

def functions : List Function :=
  [.virtualAlloc, .virtualFree, .getLastError, .closeHandle, .setFilePointer, .getFilePointer,
    .setEndOfFile, .zeroMem, .exit, .createFileMapping, .mapViewOfFileEx, .unmapViewOfFile,
    .writeFile, .readFile, .peekAvailablePipe]

/-- The functions one after the other. -/
def packedDll : Dll where
  address f := BitVec.ofNat 32 (0x401000 + 0x40 * functions.idxOf f)
  code a := functions.find? fun f ↦ BitVec.ofNat 32 (0x401000 + 0x40 * functions.idxOf f) = a
  code_address f := by cases f <;> rfl

/-- `ERROR_INVALID_HANDLE`, whatever is called. -/
def invalid {α : Type} (a : α) : Api Unit α := fun s ↦ (a, { s with threadError := 6#32 })

def invalidHandles : Win32 Unit where
  virtualAlloc _ _ _ _ := invalid 0
  virtualFree _ _ _ := invalid 0
  closeHandle _ := invalid 0
  setFilePointer _ _ _ _ := invalid (-1)
  setEndOfFile _ := invalid 0
  zeroMemory p _ := invalid p
  createFileMapping _ _ _ _ := invalid 0
  mapViewOfFileEx _ _ _ _ _ _ := invalid 0
  unmapViewOfFile _ := invalid 0
  writeFile _ _ _ := invalid (false, 0)
  readFile _ _ _ := invalid (false, 0)
  peekNamedPipe _ := invalid (false, 0)

/-- The process breaks with these values of `Eax`, after a signal and a debug string each. -/
def breaking (vals : List DWORD) : List Input :=
  vals.flatMap fun val ↦ [.send ⟨SIGHUP, SIGHUP_bounds⟩,
    .event .outputDebugString Context.zero (fun _ ↦ 0),
    .event (.exception .breakpoint 0#32) (Context.zero.withEax val) (fun _ ↦ 0)]

theorem answers_breaking {c : Call} {m : Machine Unit} {w : World} {val : DWORD}
    {vals : List DWORD} (hinputs : w.inputs = breaking (val :: vals)) (hzero : w.mem = fun _ ↦ 0)
    (hctx : w.cur.baseWin32Ctx = smallThread.ctx)
    (hdirect : ∀ μ, ∃ m', c.direct invalidHandles (m.withMem μ) = .ok (val, m') ∧
      m'.win32.mem = μ) :
    Answers packedDll invalidHandles smallThread c m w := by
  have hlength := c.length_stack_le
  obtain ⟨m', hm, hmem⟩ := hdirect
    (injected (packedDll.address c.function) (c.stack.flatMap (Codec.word 4).encode) w).mem
  refine ⟨[.send ⟨SIGHUP, SIGHUP_bounds⟩, .event .outputDebugString Context.zero fun _ ↦ 0], _,
    breaking vals, .ok (val, m'), hinputs, by simp [Passing],
    ⟨c.function, _, ?_, StubThread.agree_refl _, ?_⟩, .breaks rfl ?_⟩
  · rw [(injected_registers hctx _ _).1, packedDll.code_address]
  · exact (congrFun (enter_function invalidHandles fun i v hv ↦
      argument_injected hctx _ hv hlength) _).trans hm
  · intro x hx
    rw [hmem, ← hzero]
    exact (agree_injected hctx _ (by rw [length_words]; omega) x hx).symm

/-- What comes of closing a handle. -/
def closeError : Prog Call DWORD (DWORD × DWORD) :=
  .call (.closeHandle 5#32) fun ok ↦ .call .getLastError fun err ↦ .done (ok, err)

def invalidWorld : World :=
  { loneWorld (breaking [0#32, 6#32]) with
    cur := { (loneWorld []).cur with baseWin32Ctx := smallThread.ctx } }

def freshMachine : Machine Unit := ⟨⟨(), fun _ ↦ 0, 0#32⟩, 0#32⟩

/-- The error of a handle that could not be closed comes back. -/
theorem remote_program_closeError :
    ∃ w', closeError.run (Call.remote packedDll.address) invalidWorld = .ok (0#32, 6#32) w' ∧
      Consumes invalidWorld w' := by
  have hprogram := remote_program packedDll invalidHandles smallThread closeError
    (m := freshMachine) (w := invalidWorld) ⟨StubThread.agree_refl _, rfl⟩
    ⟨answers_breaking rfl rfl rfl fun μ ↦ ⟨_, rfl, rfl⟩, by
      rintro r t s hstep ⟨_, -, hreturns⟩ _
      cases hreturns
      cases hstep
      exact ⟨answers_breaking rfl rfl rfl fun μ ↦ ⟨_, rfl, rfl⟩, fun _ _ _ _ _ _ ↦ trivial⟩⟩
  rcases hprogram with ⟨a, m', w', hrun, hconsumes, hcomes, -⟩ | ⟨code, w', -, -, hcomes⟩
  · cases hcomes with
    | returns hclose hnext =>
      obtain ⟨_, -, hclose⟩ := hclose
      cases hclose
      cases hnext with
      | returns herror hdone =>
        obtain ⟨_, -, herror⟩ := herror
        cases herror
        cases hdone
        exact ⟨w', hrun, hconsumes⟩
  · cases hcomes with
    | returns hclose hnext =>
      cases hnext with
      | returns _ hdone => cases hdone
      | ends herror =>
        obtain ⟨_, -, herror⟩ := herror
        cases herror
    | ends hclose =>
      obtain ⟨_, -, hclose⟩ := hclose
      cases hclose

end Invalid

end Keow.Stub
