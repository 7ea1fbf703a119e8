import Keow.Memory.Committed
import Keow.Memory.Transfer
import Keow.Signal.Ptrace

/-!
# Faults in copies

`ProcessReadWriteMemory` traces a piece that fails and goes on, and returns true in the end. So
`ReadMemory` and `WriteMemory` return true whatever they have copied, and the two callers that
answer `-EFAULT` when they do not never do: `PTRACE_PEEKDATA`, and `sys_socketcall` when it fetches
its arguments.
-/

namespace Keow.Memory

open Keow.Base Keow.Kernel
open Keow.Signal.Ptrace (Tracees peekData)

/-- What is documented of `ReadProcessMemory` and `WriteProcessMemory` inside one page, beside the
copies that succeed: one that meets a byte that is not accessible does not report all bytes. -/
structure Reports (c : Copier) : Prop where
  fails : ∀ rw m (pRemote pLocal len : DWORD), pRemote.toNat % 4096 + len.toNat ≤ 4096 →
    pLocal.toNat % 4096 + len.toNat ≤ 4096 → ¬Accessible rw m.remote.space pRemote len.toNat →
    (c.xfer rw m pRemote pLocal len).2.toNat < len.toNat

section Calls

variable (c : Copier) (m : Ends)

/-- What `ProcessReadWriteMemory` returns, `*pDone`, and what it leaves. Behind its loop it returns
true. -/
def transfer (rw : ReadWrite) (pRemote pLocal len : DWORD) : Bool × DWORD × Ends :=
  let r := processReadWriteMemory c rw m pRemote pLocal 0#32 len
  (true, r.2, r.1)

/-- `MemoryHelper::ReadMemory`, `MemoryHelper.cpp:266–276`, with what it returns. -/
def tryReadMemory (toAddr fromAddr : DWORD) (len : Int) : Bool × Ends :=
  let r := transfer c m .read fromAddr toAddr (BitVec.ofInt 32 len)
  if !r.1 then (false, r.2.2) else (true, r.2.2)

/-- `MemoryHelper::WriteMemory`, `MemoryHelper.cpp:254–264`, with what it returns. -/
def tryWriteMemory (toAddr : DWORD) (len : Int) (fromAddr : DWORD) : Bool × Ends :=
  let r := transfer c m .write toAddr fromAddr (BitVec.ofInt 32 len)
  if !r.1 then (false, r.2.2) else (true, r.2.2)

theorem tryReadMemory_eq (toAddr fromAddr : DWORD) (len : Int) :
    tryReadMemory c m toAddr fromAddr len = (true, readMemory c m toAddr fromAddr len) := rfl

theorem tryWriteMemory_eq (toAddr : DWORD) (len : Int) (fromAddr : DWORD) :
    tryWriteMemory c m toAddr len fromAddr = (true, writeMemory c m toAddr len fromAddr) := rfl

/-- A word in the kernel. -/
def wordAt (mem : UserMem) (addr : DWORD) : DWORD := (Codec.word 4).decode (mem.read addr 4)

/-- The tracee at the other end, with `tmp` at an address of the kernel. -/
def tracee (tmp : DWORD) : Tracees where
  threads _ _ := []
  readMemory _ _ addr :=
    let r := tryReadMemory c m tmp addr 4
    if !r.1 then none else some (wordAt r.2.kernel tmp)

end Calls

/-! ## Calls of a socket -/

/-- `nargs`, in bytes. -/
def nargs : List Nat := [0, 3, 3, 3, 2, 3, 3, 3, 4, 4, 4, 6, 6, 2, 5, 5, 3, 3].map (4 * ·)

/-- What every handler does, `SocketCalls.cpp:132–219`. -/
def notImplemented (_args : List DWORD) : DWORD := -ENOSYS

def sysSocket (domain type protocol : DWORD) : DWORD := notImplemented [domain, type, protocol]
def sysBind (sockfd myAddr addrlen : DWORD) : DWORD := notImplemented [sockfd, myAddr, addrlen]
def sysConnect (sockfd servAddr addrlen : DWORD) : DWORD :=
  notImplemented [sockfd, servAddr, addrlen]
def sysListen (sockfd backlog : DWORD) : DWORD := notImplemented [sockfd, backlog]
def sysAccept (sockfd addr addrlen : DWORD) : DWORD := notImplemented [sockfd, addr, addrlen]
def sysGetsockname (sockfd addr addrlen : DWORD) : DWORD := notImplemented [sockfd, addr, addrlen]
def sysGetpeername (sockfd addr addrlen : DWORD) : DWORD := notImplemented [sockfd, addr, addrlen]
def sysSocketpair (domain type protocol sv : DWORD) : DWORD :=
  notImplemented [domain, type, protocol, sv]
def sysSend (sockfd buf len flags : DWORD) : DWORD := notImplemented [sockfd, buf, len, flags]
def sysSendto (sockfd buf len flags servAddr addrlen : DWORD) : DWORD :=
  notImplemented [sockfd, buf, len, flags, servAddr, addrlen]
def sysRecv (sockfd buf len flags : DWORD) : DWORD := notImplemented [sockfd, buf, len, flags]
def sysRecvfrom (sockfd buf len flags srcAddr addrlen : DWORD) : DWORD :=
  notImplemented [sockfd, buf, len, flags, srcAddr, addrlen]
def sysShutdown (sockfd how : DWORD) : DWORD := notImplemented [sockfd, how]
def sysSetsockopt (sockfd level optname optval optlen : DWORD) : DWORD :=
  notImplemented [sockfd, level, optname, optval, optlen]
def sysGetsockopt (sockfd level optname optval optlen : DWORD) : DWORD :=
  notImplemented [sockfd, level, optname, optval, optlen]
def sysSendmsg (sockfd msg flags : DWORD) : DWORD := notImplemented [sockfd, msg, flags]
def sysRecvmsg (sockfd msg flags : DWORD) : DWORD := notImplemented [sockfd, msg, flags]

/-- The handler of a call, with the words of `a`. -/
def dispatch (call : Nat) (a : Nat → DWORD) : DWORD :=
  match call with
  | 1 => sysSocket (a 0) (a 1) (a 2)
  | 2 => sysBind (a 0) (a 1) (a 2)
  | 3 => sysConnect (a 0) (a 1) (a 2)
  | 4 => sysListen (a 0) (a 1)
  | 5 => sysAccept (a 0) (a 1) (a 2)
  | 6 => sysGetsockname (a 0) (a 1) (a 2)
  | 7 => sysGetpeername (a 0) (a 1) (a 2)
  | 8 => sysSocketpair (a 0) (a 1) (a 2) (a 3)
  | 9 => sysSend (a 0) (a 1) (a 2) (a 3)
  | 10 => sysRecv (a 0) (a 1) (a 2) (a 3)
  | 11 => sysSendto (a 0) (a 1) (a 2) (a 3) (a 4) (a 5)
  | 12 => sysRecvfrom (a 0) (a 1) (a 2) (a 3) (a 4) (a 5)
  | 13 => sysShutdown (a 0) (a 1)
  | 14 => sysSetsockopt (a 0) (a 1) (a 2) (a 3) (a 4)
  | 15 => sysGetsockopt (a 0) (a 1) (a 2) (a 3) (a 4)
  | 16 => sysSendmsg (a 0) (a 1) (a 2)
  | 17 => sysRecvmsg (a 0) (a 1) (a 2)
  | _ => -EINVAL

/-- `SYS_RECVMSG`, the last call. -/
def SYS_RECVMSG : Nat := 17

/-- `sys_socketcall`, `SocketCalls.cpp:46–129`, with its array `a` at an address of the kernel. -/
def sysSocketcall (c : Copier) (m : Ends) (a : DWORD) (ctx : Context) : Context × Ends :=
  let call := ctx.ebx.toNat
  if call < 1 ∨ SYS_RECVMSG < call then (ctx.withEax (-EINVAL), m)
  else
    let r := tryReadMemory c m a ctx.ecx (nargs.getD call 0)
    if !r.1 then (ctx.withEax (-EFAULT), r.2)
    else
      (ctx.withEax (dispatch call fun i ↦ wordAt r.2.kernel (a + BitVec.ofNat 32 (4 * i))), r.2)

/-! ## How many bytes are reported -/

section Count

variable {c : Copier} {rw : ReadWrite} {s : Space} {addr : DWORD}

/-- Accessible pieces side by side. -/
theorem Accessible.append {n : DWORD} {k : Nat} (h : Accessible rw s addr n.toNat)
    (h' : Accessible rw s (addr + n) k) : Accessible rw s addr (n.toNat + k) := by
  intro a ha hlast
  by_cases hin : a < addr.toNat + n.toNat
  · exact h a ha hin
  · have hadd : (addr + n).toNat = addr.toNat + n.toNat := by
      by_cases hpos : 0 < n.toNat
      · have hle := h.add_le hpos
        unfold userPages at hle
        rw [BitVec.toNat_add, Nat.mod_eq_of_lt (by omega)]
      · have hlt := addr.isLt
        rw [BitVec.toNat_add, Nat.mod_eq_of_lt (by omega)]
    exact h' a (by omega) (by omega)

/-- The bytes that a copy reports: no more than there are, and all of them exactly if they are
accessible. -/
structure Counts (rw : ReadWrite) (s : Space) (addr : DWORD) (len count : Nat) : Prop where
  le : count ≤ len
  whole : count = len ↔ Accessible rw s addr len

theorem Counts.nothing : Counts rw s addr 0 0 :=
  ⟨Nat.le_refl 0, iff_of_true rfl fun a ha hlast ↦ absurd hlast (by omega)⟩

theorem Counts.append {n : DWORD} {k i j : Nat} (h : Counts rw s addr n.toNat i)
    (h' : Counts rw s (addr + n) k j) : Counts rw s addr (n.toNat + k) (i + j) := by
  have hle := h.le
  have hle' := h'.le
  refine ⟨by omega, ?_⟩
  constructor
  · intro hwhole
    exact (h.whole.mp (by omega)).append (h'.whole.mp (by omega))
  · intro hwhole
    have hfirst := h.whole.mpr (hwhole.left (by omega))
    have hrest := h'.whole.mpr (hwhole.right (by omega))
    omega

@[simp] theorem Copier.space_move (m : Ends) (pRemote pLocal len : DWORD) :
    (c.move rw m pRemote pLocal len).1.remote.space = m.remote.space := by
  cases rw <;> rfl

/-- One call of `ReadProcessMemory` or `WriteProcessMemory`. -/
theorem counts_move (hc : Reports c) {m : Ends} {pRemote pLocal len : DWORD}
    (hremote : pRemote.toNat % 4096 + len.toNat ≤ 4096)
    (hlocal : pLocal.toNat % 4096 + len.toNat ≤ 4096) :
    Counts rw m.remote.space pRemote len.toNat (c.move rw m pRemote pLocal len).2.toNat := by
  by_cases h : Accessible rw m.remote.space pRemote len.toNat
  · rw [c.move_eq hremote hlocal h]
    exact ⟨Nat.le_refl _, iff_of_true rfl h⟩
  · have hfails : (c.move rw m pRemote pLocal len).2.toNat < len.toNat :=
      hc.fails rw m pRemote pLocal len hremote hlocal h
    exact ⟨Nat.le_of_lt hfails, iff_of_false (Nat.ne_of_lt hfails) h⟩

/-- One turn of the loop: the two pieces count like the local one. -/
theorem counts_turn (hc : Reports c) {m : Ends} {pRemote pLocal copied n : DWORD}
    (hn : n ≠ 0#32) (hpage : pLocal.toNat % 4096 + n.toNat ≤ 4096)
    (hsum : copied.toNat + n.toNat < 2 ^ 32) {second : Ends × DWORD}
    (hsecond : (if n - toBoundary pRemote n ≠ 0#32 then
        let r := c.move rw (c.move rw m pRemote pLocal (toBoundary pRemote n)).1
          (pRemote + toBoundary pRemote n) (pLocal + toBoundary pRemote n)
          (n - toBoundary pRemote n)
        (r.1, copied + (c.move rw m pRemote pLocal (toBoundary pRemote n)).2 + r.2)
      else ((c.move rw m pRemote pLocal (toBoundary pRemote n)).1,
        copied + (c.move rw m pRemote pLocal (toBoundary pRemote n)).2)) = second) :
    second.1.remote.space = m.remote.space ∧ ∃ k, second.2.toNat = copied.toNat + k ∧
      Counts rw m.remote.space pRemote n.toNat k := by
  have hb := toBoundary_bounds pRemote hn
  have hmin := toNat_toBoundary pRemote n
  generalize toBoundary pRemote n = a at hb hmin hsecond
  have hrest : (n - a).toNat = n.toNat - a.toNat :=
    BitVec.toNat_sub_of_le (by rw [BitVec.le_def]; omega)
  have hwhole : a.toNat + (n - a).toNat = n.toNat := by omega
  have hfirst : Counts rw m.remote.space pRemote a.toNat (c.move rw m pRemote pLocal a).2.toNat :=
    counts_move hc (by omega) (by omega)
  have hle := hfirst.le
  split at hsecond
  · next hne =>
    have hpos : 0 < (n - a).toNat := Nat.pos_of_ne_zero fun hz ↦ hne (BitVec.eq_of_toNat_eq hz)
    have hremote : (pRemote + a).toNat % 4096 = 0 := by
      rw [BitVec.toNat_add]
      omega
    have hlocal : (pLocal + a).toNat % 4096 = pLocal.toNat % 4096 + a.toNat := by
      rw [BitVec.toNat_add]
      omega
    have hlast : Counts rw m.remote.space (pRemote + a) (n - a).toNat
        (c.move rw (c.move rw m pRemote pLocal a).1 (pRemote + a) (pLocal + a)
          (n - a)).2.toNat := by
      have hspace : (c.move rw m pRemote pLocal a).1.remote.space = m.remote.space :=
        c.space_move m pRemote pLocal a
      rw [← hspace]
      exact counts_move hc (by omega) (by omega)
    have hle' := hlast.le
    subst hsecond
    refine ⟨by simp, _, ?_, hwhole ▸ hfirst.append hlast⟩
    rw [BitVec.toNat_add, BitVec.toNat_add, Nat.mod_eq_of_lt (a := copied.toNat + _) (by omega),
      Nat.mod_eq_of_lt (by omega), Nat.add_assoc]
  · next heq =>
    have hz : n - a = 0#32 := not_not.mp heq
    have han : a.toNat = n.toNat := by
      rw [hz] at hwhole
      exact hwhole
    subst hsecond
    refine ⟨by simp, _, ?_, han ▸ hfirst⟩
    rw [BitVec.toNat_add, Nat.mod_eq_of_lt (by omega)]

/-- A copy reports all bytes exactly if they are accessible, wherever the two buffers lie. -/
theorem counts_processReadWriteMemory (hc : Reports c) (rw : ReadWrite) (m : Ends)
    (pRemote pLocal : DWORD) {copied amountLeft : DWORD}
    (hsum : copied.toNat + amountLeft.toNat < 2 ^ 32) :
    ∃ k, (processReadWriteMemory c rw m pRemote pLocal copied amountLeft).2.toNat =
        copied.toNat + k ∧ Counts rw m.remote.space pRemote amountLeft.toNat k := by
  induction hk : amountLeft.toNat using Nat.strong_induction_on
    generalizing m pRemote pLocal copied amountLeft with
  | _ len ih =>
    rw [processReadWriteMemory]
    split
    · next hz =>
      subst hz
      exact ⟨0, rfl, hk ▸ Counts.nothing⟩
    · next hne =>
      have hb := toBoundary_bounds pLocal hne
      have hn : toBoundary pLocal amountLeft ≠ 0#32 := by
        intro hz
        rw [hz] at hb
        exact absurd hb.1 (by decide)
      simp only
      generalize toBoundary pLocal amountLeft = n at hb hn ⊢
      generalize hsecond : (if n - toBoundary pRemote n ≠ 0#32 then _ else _) = second
      obtain ⟨hspace, i, hi, hcounts⟩ := counts_turn hc hn hb.2.2 (by omega) hsecond
      have hle := hcounts.le
      have hrest : (amountLeft - n).toNat = amountLeft.toNat - n.toNat :=
        BitVec.toNat_sub_of_le (by rw [BitVec.le_def]; omega)
      have hsum' : second.2.toNat + (amountLeft - n).toNat < 2 ^ 32 := by omega
      obtain ⟨j, hj, hcounts'⟩ := ih (amountLeft - n).toNat (by omega) second.1 (pRemote + n)
        (pLocal + n) hsum' rfl
      rw [hspace] at hcounts'
      refine ⟨i + j, by rw [hj, hi, Nat.add_assoc], ?_⟩
      rw [show len = n.toNat + (amountLeft - n).toNat by omega]
      exact hcounts.append hcounts'

end Count

/-! ## What the callers are told -/

section Told

variable (c : Copier) (m : Ends)

/-- All bytes stand where they were copied to, and are reported. -/
def Transferred (rw : ReadWrite) (pRemote pLocal len : DWORD) : Prop :=
  processReadWriteMemory c rw m pRemote pLocal 0#32 len = (m.copy rw pRemote pLocal len.toNat, len)

/-- A call, with the other process at the remote end: that of a handle, the tracee, or `P`. -/
inductive Use where
  | readMemory (toAddr fromAddr : DWORD) (len : Int)
  | writeMemory (toAddr : DWORD) (len : Int) (fromAddr : DWORD)
  | peekData (slot : Slot) (ctx : Context) (tmp : DWORD) (w : World)
  | socketcall (ctx : Context) (a : DWORD)

namespace Use

/-- `ReadMemory` and `WriteMemory` return true exactly if all bytes were transferred, and the
callers answer `-EFAULT` exactly if the bytes of the user are not all accessible. -/
def Right : Use → Prop
  | readMemory toAddr fromAddr len =>
      (tryReadMemory c m toAddr fromAddr len).1 = true ↔
        Transferred c m .read fromAddr toAddr (BitVec.ofInt 32 len)
  | writeMemory toAddr len fromAddr =>
      (tryWriteMemory c m toAddr len fromAddr).1 = true ↔
        Transferred c m .write toAddr fromAddr (BitVec.ofInt 32 len)
  | peekData slot ctx tmp w =>
      ((tryReadMemory c m tmp ctx.edx 4).1 = true ↔ Transferred c m .read ctx.edx tmp 4#32) ∧
        ∃ ctx' w', Signal.Ptrace.peekData (tracee c m tmp) slot ctx w = .ok ctx' w' ∧
          (ctx'.eax = -EFAULT ↔ ¬Accessible .read m.remote.space ctx.edx 4)
  | socketcall ctx a =>
      let call := ctx.ebx.toNat
      let size := nargs.getD call 0
      1 ≤ call ∧ call ≤ SYS_RECVMSG →
        ((tryReadMemory c m a ctx.ecx size).1 = true ↔
          Transferred c m .read ctx.ecx a (BitVec.ofNat 32 size)) ∧
        ((sysSocketcall c m a ctx).1.eax = -EFAULT ↔ ¬Accessible .read m.remote.space ctx.ecx size)

/-- The bytes of the user are accessible, and a word that is peeked at is not `-EFAULT` itself. -/
def Fits : Use → Prop
  | readMemory _ fromAddr len =>
      Accessible .read m.remote.space fromAddr (BitVec.ofInt 32 len).toNat
  | writeMemory toAddr len _ => Accessible .write m.remote.space toAddr (BitVec.ofInt 32 len).toNat
  | peekData _ ctx _ _ =>
      Accessible .read m.remote.space ctx.edx 4 ∧ wordAt m.remote.mem ctx.edx ≠ -EFAULT
  | socketcall ctx _ =>
      let call := ctx.ebx.toNat
      1 ≤ call ∧ call ≤ SYS_RECVMSG →
        Accessible .read m.remote.space ctx.ecx (nargs.getD call 0)

end Use

variable {c : Copier} {m : Ends} {rw : ReadWrite} {pRemote pLocal : DWORD}

theorem transferred_iff (hc : Reports c) {len : DWORD} :
    Transferred c m rw pRemote pLocal len ↔ Accessible rw m.remote.space pRemote len.toNat := by
  constructor
  · intro h
    have hsum : (0#32).toNat + len.toNat < 2 ^ 32 := by simpa using len.isLt
    obtain ⟨k, hk, hcounts⟩ := counts_processReadWriteMemory hc rw m pRemote pLocal hsum
    rw [h] at hk
    exact hcounts.whole.mp (by simpa using hk.symm)
  · intro h
    rw [Transferred, processReadWriteMemory_eq c m pRemote pLocal 0#32 h, BitVec.zero_add]

/-- What returns true in any case tells whether all bytes were transferred where they are. -/
theorem told_iff (hc : Reports c) {len : DWORD} :
    (true = true ↔ Transferred c m rw pRemote pLocal len) ↔
      Accessible rw m.remote.space pRemote len.toNat := by
  rw [transferred_iff hc]
  simp

/-- A word that is read stands in the kernel. -/
theorem wordAt_read {addr tmp : DWORD} (h : Accessible .read m.remote.space addr 4) :
    wordAt (readMemory c m tmp addr 4).kernel tmp = wordAt m.remote.mem addr := by
  have hread : (readMemory c m tmp addr 4).kernel =
      m.kernel.write tmp (m.remote.mem.read addr 4) := by
    have hcopy := processReadWriteMemory_eq c m addr tmp 0#32
      (show Accessible .read m.remote.space addr (4#32).toNat from h)
    rw [readMemory, show BitVec.ofInt 32 4 = 4#32 from rfl, hcopy]
    rfl
  have hback := Mem.read_write m.kernel tmp (m.remote.mem.read addr 4) (by simp)
  rw [Mem.length_read] at hback
  rw [wordAt, hread, hback, wordAt]

/-- `PTRACE_PEEKDATA` answers with `tmp`. -/
theorem peekData_eq (slot : Slot) (ctx : Context) (tmp : DWORD) (w : World) :
    ∃ w', peekData (tracee c m tmp) slot ctx w =
      .ok (ctx.withEax (wordAt (readMemory c m tmp ctx.edx 4).kernel tmp)) w' := ⟨_, rfl⟩

theorem notImplemented_ne_EFAULT (args : List DWORD) : notImplemented args ≠ -EFAULT := by
  rw [notImplemented]
  decide

theorem dispatch_ne_EFAULT (call : Nat) (a : Nat → DWORD) : dispatch call a ≠ -EFAULT := by
  unfold dispatch
  split
  case h_18 => decide
  all_goals exact notImplemented_ne_EFAULT _

theorem getD_nargs_le (call : Nat) : nargs.getD call 0 ≤ 24 := by
  rw [List.getD_eq_getElem?_getD]
  cases hget : nargs[call]? with
  | none => exact Nat.zero_le 24
  | some size => exact (by decide : ∀ size ∈ nargs, size ≤ 24) size (List.mem_of_getElem? hget)

/-- `sys_socketcall` never answers `-EFAULT`. -/
theorem sysSocketcall_ne_EFAULT (a : DWORD) (ctx : Context) :
    (sysSocketcall c m a ctx).1.eax ≠ -EFAULT := by
  unfold sysSocketcall
  dsimp only
  split
  · change -EINVAL ≠ -EFAULT
    decide
  · exact dispatch_ne_EFAULT ctx.ebx.toNat fun i ↦
      wordAt (readMemory c m a ctx.ecx (nargs.getD ctx.ebx.toNat 0)).kernel
        (a + BitVec.ofNat 32 (4 * i))

/-- The calls tell what happened exactly where nothing can fail. -/
theorem tellsFaults_iff (hc : Reports c) (u : Use) : u.Right c m ↔ u.Fits m := by
  cases u with
  | readMemory toAddr fromAddr len => exact told_iff hc
  | writeMemory toAddr len fromAddr => exact told_iff hc
  | peekData slot ctx tmp w =>
    obtain ⟨w', hrun⟩ := peekData_eq (c := c) (m := m) slot ctx tmp w
    have htold : ((tryReadMemory c m tmp ctx.edx 4).1 = true ↔
        Transferred c m .read ctx.edx tmp 4#32) ↔ Accessible .read m.remote.space ctx.edx 4 :=
      told_iff hc
    rw [Use.Right, Use.Fits, htold]
    apply and_congr_right
    intro h
    rw [Comp.exists_ok_iff hrun]
    simp only [h, not_true_eq_false, iff_false]
    rw [Context.withEax, wordAt_read h]
  | socketcall ctx a =>
    have hsize : (BitVec.ofNat 32 (nargs.getD ctx.ebx.toNat 0)).toNat =
        nargs.getD ctx.ebx.toNat 0 := by
      rw [BitVec.toNat_ofNat, Nat.mod_eq_of_lt]
      exact Nat.lt_of_le_of_lt (getD_nargs_le _) (by decide)
    have htold : ((tryReadMemory c m a ctx.ecx (nargs.getD ctx.ebx.toNat 0)).1 = true ↔
        Transferred c m .read ctx.ecx a (BitVec.ofNat 32 (nargs.getD ctx.ebx.toNat 0))) ↔
          Accessible .read m.remote.space ctx.ecx (nargs.getD ctx.ebx.toNat 0) := by
      have hfetched : (true = true ↔ Transferred c m .read ctx.ecx a
          (BitVec.ofNat 32 (nargs.getD ctx.ebx.toNat 0))) ↔ Accessible .read m.remote.space ctx.ecx
            (BitVec.ofNat 32 (nargs.getD ctx.ebx.toNat 0)).toNat := told_iff hc
      rwa [hsize] at hfetched
    simp only [Use.Right, Use.Fits, htold, sysSocketcall_ne_EFAULT, false_iff, not_not, and_self]

end Told

/-! ## Calls on one page -/

theorem reports_exact : Reports Copier.exact where
  fails rw m pRemote pLocal len _ _ h := by
    have hpos : 0 < len.toNat := by
      by_contra hz
      exact h fun a ha hlast ↦ absurd hlast (by omega)
    have hnone : Copier.exact.xfer rw m pRemote pLocal len = (m.target rw, 0#32) := if_neg h
    rw [hnone]
    exact hpos

/-- A process with a page at `0x10000`. -/
def onePageEnds : Ends where
  remote := { space := onePage, mem := fun _ ↦ 0 }
  kernel _ := 0

/-- Eight bytes at the end of the page. -/
theorem right_inside : (Use.readMemory 0x5000#32 0x10FF8#32 8).Right Copier.exact onePageEnds :=
  (tellsFaults_iff reports_exact _).mpr (by
    change Accessible .read onePage 0x10FF8#32 8
    decide)

/-- `socket` with its arguments at the end of the page. -/
def socketAtEnd : Context := { Context.zero with ebx := 1#32, ecx := 0x10FFC#32 }

/-- Bytes that run past it cannot all be read: `ReadMemory` returns true, and `sys_socketcall` does
not answer `-EFAULT`. -/
theorem not_right_straddling :
    ¬(Use.readMemory 0x5000#32 0x10FFC#32 8).Right Copier.exact onePageEnds ∧
      ¬(Use.socketcall socketAtEnd 0x5000#32).Right Copier.exact onePageEnds := by
  constructor
  · intro h
    have hall : Transferred Copier.exact onePageEnds .read 0x10FFC#32 0x5000#32 8#32 := h.mp rfl
    rw [transferred_iff reports_exact] at hall
    exact absurd hall (by decide)
  · intro h
    have hanswer := (h ⟨by decide, by decide⟩).2
    exact sysSocketcall_ne_EFAULT _ _ (hanswer.mpr (by decide))

end Keow.Memory
