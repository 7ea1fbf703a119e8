import Keow.Base.Align
import Keow.Base.Memory
import Keow.Base.VirtualMemory
import Keow.Kernel.Linux

/-!
# Copying between processes

`ReadProcessMemory` and `WriteProcessMemory` are relied on inside one page on both sides only.
`MemoryHelper` cuts every copy into such pieces, and a copy between two processes goes through
a buffer of 4k in the kernel.
-/

namespace Keow.Memory

open Keow.Base Keow.Kernel

/-- The pages of a process and what they hold. -/
structure Remote where
  space : Space
  mem : UserMem

def Remote.setMem (r : Remote) (mem : UserMem) : Remote := { r with mem := mem }

@[simp] theorem Remote.space_setMem (r : Remote) (mem : UserMem) :
    (r.setMem mem).space = r.space := rfl

@[simp] theorem Remote.mem_setMem (r : Remote) (mem : UserMem) : (r.setMem mem).mem = mem := rfl

@[simp] theorem Remote.setMem_mem (r : Remote) : r.setMem r.mem = r := rfl

@[simp] theorem Remote.setMem_setMem (r : Remote) (mem mem' : UserMem) :
    (r.setMem mem).setMem mem' = r.setMem mem' := rfl

inductive ReadWrite where
  | read
  | write
deriving DecidableEq

/-- The memory of the kernel and of another process, as a copy finds and leaves them. -/
structure Ends where
  remote : Remote
  kernel : UserMem

/-- The page gives the access. -/
def Gives (rw : ReadWrite) (p : Page) : Prop :=
  match rw with
  | .read => p.Readable
  | .write => p.Writable

instance (rw : ReadWrite) : DecidablePred (Gives rw) := fun p ↦
  match rw with
  | .read => inferInstanceAs (Decidable p.Readable)
  | .write => inferInstanceAs (Decidable p.Writable)

/-- The bytes of the other process that a copy needs: readable to read them, writable to write
them. -/
def Accessible (rw : ReadWrite) (s : Space) (addr : DWORD) (len : Nat) : Prop :=
  ∀ a, addr.toNat ≤ a → a < addr.toNat + len → Gives rw (s.page (a / 4096))

/-- Page by page. -/
theorem accessible_iff {rw : ReadWrite} {s : Space} {addr : DWORD} {len : Nat} :
    Accessible rw s addr len ↔ len = 0 ∨ ∀ i < pageEnd addr.toNat len - addr.toNat / 4096,
      Gives rw (s.page (addr.toNat / 4096 + i)) := by
  unfold pageEnd
  constructor
  · intro h
    by_cases hz : len = 0
    · exact .inl hz
    · right
      intro i hi
      have hn := h (max addr.toNat ((addr.toNat / 4096 + i) * 4096)) (by omega) (by omega)
      rwa [show max addr.toNat ((addr.toNat / 4096 + i) * 4096) / 4096 = addr.toNat / 4096 + i by
        omega] at hn
  · rintro (hz | h) a ha hlast
    · omega
    · have hi := h (a / 4096 - addr.toNat / 4096) (by omega)
      rwa [show addr.toNat / 4096 + (a / 4096 - addr.toNat / 4096) = a / 4096 by omega] at hi

instance (rw : ReadWrite) (s : Space) (addr : DWORD) (len : Nat) :
    Decidable (Accessible rw s addr len) :=
  decidable_of_iff _ accessible_iff.symm

namespace Ends

/-- Replace the memory that is copied to. -/
def store (rw : ReadWrite) (m : Ends) (mem : UserMem) : Ends :=
  match rw with
  | .read => { m with kernel := mem }
  | .write => { m with remote := m.remote.setMem mem }

/-- The memory that is copied to. -/
def target (rw : ReadWrite) (m : Ends) : UserMem :=
  match rw with
  | .read => m.kernel
  | .write => m.remote.mem

/-- It, after all bytes have been copied. -/
def copied (rw : ReadWrite) (m : Ends) (pRemote pLocal : DWORD) (len : Nat) : UserMem :=
  match rw with
  | .read => m.kernel.write pLocal (m.remote.mem.read pRemote len)
  | .write => m.remote.mem.write pRemote (m.kernel.read pLocal len)

/-- What a copy is for. -/
def copy (rw : ReadWrite) (m : Ends) (pRemote pLocal : DWORD) (len : Nat) : Ends :=
  m.store rw (m.copied rw pRemote pLocal len)

end Ends

/-- `ReadProcessMemory` and `WriteProcessMemory`: the memory they copy to, afterwards, and the
number of bytes they report. The addresses are the remote one and the local one. -/
structure Copier where
  xfer : ReadWrite → Ends → DWORD → DWORD → DWORD → UserMem × DWORD
  xfer_spec : ∀ rw m (pRemote pLocal len : DWORD), pRemote.toNat % 4096 + len.toNat ≤ 4096 →
    pLocal.toNat % 4096 + len.toNat ≤ 4096 → Accessible rw m.remote.space pRemote len.toNat →
    xfer rw m pRemote pLocal len = (m.copied rw pRemote pLocal len.toNat, len)

/-- A copy that is complete, or fails where a byte is not accessible. -/
def Copier.exact : Copier where
  xfer rw m pRemote pLocal len :=
    if Accessible rw m.remote.space pRemote len.toNat then
      (m.copied rw pRemote pLocal len.toNat, len)
    else (m.target rw, 0#32)
  xfer_spec _ _ _ _ _ _ _ h := if_pos h

/-- One call of either. -/
def Copier.move (c : Copier) (rw : ReadWrite) (m : Ends) (pRemote pLocal len : DWORD) :
    Ends × DWORD :=
  let r := c.xfer rw m pRemote pLocal len
  (m.store rw r.1, r.2)

theorem Copier.move_eq (c : Copier) {rw : ReadWrite} {m : Ends} {pRemote pLocal len : DWORD}
    (hremote : pRemote.toNat % 4096 + len.toNat ≤ 4096)
    (hlocal : pLocal.toNat % 4096 + len.toNat ≤ 4096)
    (h : Accessible rw m.remote.space pRemote len.toNat) :
    c.move rw m pRemote pLocal len = (m.copy rw pRemote pLocal len.toNat, len) := by
  rw [move, c.xfer_spec rw m pRemote pLocal len hremote hlocal h]
  rfl

/-- The bytes up to the next 4k boundary, `amount` at most. -/
def toBoundary (p amount : DWORD) : DWORD :=
  let n := (p &&& ~~~(0x1000#32 - 1#32)) + 0x1000#32 - p
  if amount < n then amount else n

/-- The bytes up to the next 4k boundary. -/
theorem toNat_toNext4k (addr : DWORD) :
    ((addr &&& ~~~(0x1000#32 - 1#32)) + 0x1000#32 - addr).toNat = 4096 - addr.toNat % 4096 := by
  have hdown := toNat_and_not_sub_one addr 0x1000#32 (k := 12) rfl
  have hlt := addr.isLt
  rw [BitVec.toNat_sub, BitVec.toNat_add, hdown]
  show (2 ^ 32 - addr.toNat + (addr.toNat - addr.toNat % 2 ^ 12 + 4096) % 2 ^ 32) % 2 ^ 32 = _
  omega

theorem toNat_toBoundary (p amount : DWORD) :
    (toBoundary p amount).toNat = min (4096 - p.toNat % 4096) amount.toNat := by
  have hn := toNat_toNext4k p
  unfold toBoundary
  simp only
  split
  · next h =>
    rw [BitVec.lt_def, hn] at h
    omega
  · next h =>
    rw [BitVec.lt_def, hn] at h
    omega

/-- Every piece gets on. -/
theorem toBoundary_bounds (p : DWORD) {amount : DWORD} (h : amount ≠ 0#32) :
    0 < (toBoundary p amount).toNat ∧ (toBoundary p amount).toNat ≤ amount.toNat ∧
      p.toNat % 4096 + (toBoundary p amount).toNat ≤ 4096 := by
  have hpos : 0 < amount.toNat := Nat.pos_of_ne_zero fun hz ↦ h (BitVec.eq_of_toNat_eq hz)
  rw [toNat_toBoundary]
  omega

/-- So there is less left. -/
theorem toNat_sub_toBoundary_lt (p : DWORD) {amount : DWORD} (h : amount ≠ 0#32) :
    (amount - toBoundary p amount).toNat < amount.toNat := by
  have hb := toBoundary_bounds p h
  rw [BitVec.toNat_sub_of_le (by rw [BitVec.le_def]; omega)]
  omega

/-- `MemoryHelper::ProcessReadWriteMemory`, `MemoryHelper.cpp:158–252`: one piece of the local
buffer up to its next page, in one or two pieces of the remote one, then the rest. A piece that
fails is only traced. -/
def processReadWriteMemory (c : Copier) (rw : ReadWrite) (m : Ends)
    (pRemote pLocal copied amountLeft : DWORD) : Ends × DWORD :=
  if _h : amountLeft = 0#32 then (m, copied)
  else
    let localToCopy := toBoundary pLocal amountLeft
    let remoteToCopy := toBoundary pRemote localToCopy
    let first := c.move rw m pRemote pLocal remoteToCopy
    let rest := localToCopy - remoteToCopy
    let second :=
      if rest ≠ 0#32 then
        let r := c.move rw first.1 (pRemote + remoteToCopy) (pLocal + remoteToCopy) rest
        (r.1, copied + first.2 + r.2)
      else (first.1, copied + first.2)
    processReadWriteMemory c rw second.1 (pRemote + localToCopy) (pLocal + localToCopy) second.2
      (amountLeft - localToCopy)
termination_by amountLeft.toNat
decreasing_by exact toNat_sub_toBoundary_lt pLocal _h

/-! ## What a copy does -/

section Copy

variable {rw : ReadWrite} {s : Space} {addr : DWORD} {len : Nat}

theorem Accessible.committed (h : Accessible rw s addr len) {a : Nat} (ha : addr.toNat ≤ a)
    (hlast : a < addr.toNat + len) : s.Committed a := by
  cases rw with
  | read => exact Page.state_commit_of_readable (h a ha hlast)
  | write => exact Page.state_commit_of_writable (h a ha hlast)

/-- Accessible bytes do not wrap around. -/
theorem Accessible.add_le (h : Accessible rw s addr len) (hpos : 0 < len) :
    addr.toNat + len ≤ userPages * 4096 := by
  have hc := h.committed (a := addr.toNat + len - 1) (by omega) (by omega)
  have hlt := Space.lt_of_committed hc
  omega

theorem Accessible.left (h : Accessible rw s addr len) {n : Nat} (hn : n ≤ len) :
    Accessible rw s addr n :=
  fun a ha hlast ↦ h a ha (by omega)

theorem Accessible.right (h : Accessible rw s addr len) {n : DWORD} {k : Nat}
    (hn : n.toNat + k ≤ len) : Accessible rw s (addr + n) k := by
  intro a ha hlast
  have hle := h.add_le
  have hadd : (addr + n).toNat = addr.toNat + n.toNat := by
    unfold userPages at hle
    rw [BitVec.toNat_add]
    by_cases hk : 0 < k
    · rw [Nat.mod_eq_of_lt (by omega)]
    · omega
  exact h a (by omega) (by omega)

namespace Ends

@[simp] theorem space_copy (m : Ends) (pRemote pLocal : DWORD) (len : Nat) :
    (m.copy rw pRemote pLocal len).remote.space = m.remote.space := by
  cases rw <;> rfl

@[simp] theorem copy_zero (m : Ends) (pRemote pLocal : DWORD) : m.copy rw pRemote pLocal 0 = m := by
  cases rw <;> simp [copy, store, copied, Mem.read]

/-- Two adjacent pieces are one. -/
theorem copy_copy (m : Ends) (pRemote pLocal n : DWORD) {k : Nat} (h : n.toNat + k ≤ 2 ^ 32) :
    (m.copy rw pRemote pLocal n.toNat).copy rw (pRemote + n) (pLocal + n) k =
      m.copy rw pRemote pLocal (n.toNat + k) := by
  have hn : BitVec.ofNat 32 n.toNat = n := by rw [BitVec.ofNat_toNat, BitVec.setWidth_eq]
  cases rw with
  | read =>
    have hcopy := Mem.write_read_append m.kernel m.remote.mem pLocal pRemote h
    rw [hn] at hcopy
    simp only [copy, store, copied, hcopy]
  | write =>
    have hcopy := Mem.write_read_append m.remote.mem m.kernel pRemote pLocal h
    rw [hn] at hcopy
    simp only [copy, store, copied, Remote.mem_setMem, Remote.setMem_setMem, hcopy]

end Ends

/-- One turn of the loop: the two pieces make up the local one. -/
theorem xfer_turn (c : Copier) (m : Ends) (pRemote pLocal copied : DWORD) {n : DWORD}
    (hn : n ≠ 0#32) (hpage : pLocal.toNat % 4096 + n.toNat ≤ 4096)
    (h : Accessible rw m.remote.space pRemote n.toNat) :
    (if n - toBoundary pRemote n ≠ 0#32 then
        let r := c.move rw (c.move rw m pRemote pLocal (toBoundary pRemote n)).1
          (pRemote + toBoundary pRemote n) (pLocal + toBoundary pRemote n)
          (n - toBoundary pRemote n)
        (r.1, copied + (c.move rw m pRemote pLocal (toBoundary pRemote n)).2 + r.2)
      else ((c.move rw m pRemote pLocal (toBoundary pRemote n)).1,
        copied + (c.move rw m pRemote pLocal (toBoundary pRemote n)).2)) =
      (m.copy rw pRemote pLocal n.toNat, copied + n) := by
  have hb := toBoundary_bounds pRemote hn
  have hmin := toNat_toBoundary pRemote n
  generalize toBoundary pRemote n = a at hb hmin
  have hrest : (n - a).toNat = n.toNat - a.toNat :=
    BitVec.toNat_sub_of_le (by rw [BitVec.le_def]; omega)
  have hwhole : a.toNat + (n - a).toNat = n.toNat := by omega
  have hfirst := @c.move_eq rw m pRemote pLocal a (by omega) (by omega) (h.left (by omega))
  rw [hfirst]
  split
  · next hne =>
    have hpos : 0 < (n - a).toNat := Nat.pos_of_ne_zero fun hz ↦ hne (BitVec.eq_of_toNat_eq hz)
    -- the first piece stopped at the remote boundary, so that the rest is inside one page
    have hremote : (pRemote + a).toNat % 4096 = 0 := by
      rw [BitVec.toNat_add]
      omega
    have hlocal : (pLocal + a).toNat % 4096 = pLocal.toNat % 4096 + a.toNat := by
      rw [BitVec.toNat_add]
      omega
    have hsecond := @c.move_eq rw (m.copy rw pRemote pLocal a.toNat) (pRemote + a) (pLocal + a)
      (n - a) (by omega) (by omega) (by rw [Ends.space_copy]; exact h.right (by omega))
    simp only [hsecond]
    rw [Ends.copy_copy m pRemote pLocal a (by omega), hwhole, BitVec.add_assoc, BitVec.add_comm a,
      BitVec.sub_add_cancel]
  · next heq =>
    have hz : n - a = 0#32 := by
      by_contra hz
      exact heq hz
    rw [hz] at hrest hwhole
    have hna : a = n := by
      apply BitVec.eq_of_toNat_eq
      rw [← hwhole]
      rfl
    rw [hna]

/-- A copy whose bytes are accessible is complete, wherever the two buffers lie. -/
theorem processReadWriteMemory_eq (c : Copier) (m : Ends) (pRemote pLocal copied : DWORD)
    {amountLeft : DWORD} (h : Accessible rw m.remote.space pRemote amountLeft.toNat) :
    processReadWriteMemory c rw m pRemote pLocal copied amountLeft =
      (m.copy rw pRemote pLocal amountLeft.toNat, copied + amountLeft) := by
  induction hk : amountLeft.toNat using Nat.strong_induction_on
    generalizing m pRemote pLocal copied amountLeft with
  | _ k ih =>
    rw [processReadWriteMemory]
    split
    · next hz =>
      subst hz
      simp only [BitVec.add_zero, ← hk]
      rw [show (0#32).toNat = 0 from rfl, Ends.copy_zero]
    · next hne =>
      have hb := toBoundary_bounds pLocal hne
      have hn : toBoundary pLocal amountLeft ≠ 0#32 := by
        intro hz
        rw [hz] at hb
        exact absurd hb.1 (by decide)
      generalize toBoundary pLocal amountLeft = n at hb hn
      have hrest : (amountLeft - n).toNat = amountLeft.toNat - n.toNat :=
        BitVec.toNat_sub_of_le (by rw [BitVec.le_def]; omega)
      simp only
      rw [xfer_turn c m pRemote pLocal copied hn hb.2.2 (h.left hb.2.1)]
      rw [ih (amountLeft - n).toNat (by omega) _ _ _ _ (by
        rw [Ends.space_copy]
        exact h.right (by omega)) rfl]
      have hlt := amountLeft.isLt
      rw [Ends.copy_copy m pRemote pLocal n (by omega), hrest, BitVec.add_assoc, BitVec.add_comm n,
        BitVec.sub_add_cancel, show n.toNat + (amountLeft.toNat - n.toNat) = k by omega]

/-! ## From one process to another -/

/-- `MemoryHelper::ReadMemory`, `MemoryHelper.cpp:266–276`. -/
def readMemory (c : Copier) (m : Ends) (toAddr fromAddr : DWORD) (len : Int) : Ends :=
  (processReadWriteMemory c .read m fromAddr toAddr 0#32 (BitVec.ofInt 32 len)).1

/-- `MemoryHelper::WriteMemory`, `MemoryHelper.cpp:254–264`. -/
def writeMemory (c : Copier) (m : Ends) (toAddr : DWORD) (len : Int) (fromAddr : DWORD) : Ends :=
  (processReadWriteMemory c .write m toAddr fromAddr 0#32 (BitVec.ofInt 32 len)).1

/-- `MemoryHelper::TransferMemory`, `MemoryHelper.cpp:281–295`, from the offset `i` on. `buf` is
where the buffer is in the kernel, and the process copied to is the remote end. -/
def transferMemory (c : Copier) (buf : DWORD) (source : Remote) (fromAddr toAddr : DWORD)
    (len : Int) (m : Ends) (i : Nat) : Ends :=
  if (i : Int) < len then
    let copy := if (i : Int) + 4096 > len then len - i else 4096
    let kernel := (readMemory c ⟨source, m.kernel⟩ buf (fromAddr + BitVec.ofNat 32 i) copy).kernel
    transferMemory c buf source fromAddr toAddr len
      (writeMemory c { m with kernel := kernel } (toAddr + BitVec.ofNat 32 i) copy buf) (i + 4096)
  else m
termination_by (len - i).toNat

/-- A turn copies 4k, or what is left. -/
theorem exists_copy {i len : Nat} (h : i < len) : ∃ n : Nat, n = min 4096 (len - i) ∧
    (if (i : Int) + 4096 > len then (len : Int) - i else 4096) = n := by
  refine ⟨_, rfl, ?_⟩
  split <;> omega

/-- A transfer whose bytes are accessible on both sides copies them all and nothing else. -/
theorem transferMemory_eq (c : Copier) (buf : DWORD) (source : Remote) {fromAddr toAddr : DWORD}
    {len : Nat} {m : Ends} (hread : Accessible .read source.space fromAddr len)
    (hwrite : Accessible .write m.remote.space toAddr len) (i : Nat) :
    (transferMemory c buf source fromAddr toAddr len m i).remote =
      m.remote.setMem (m.remote.mem.write (toAddr + BitVec.ofNat 32 i)
        (source.mem.read (fromAddr + BitVec.ofNat 32 i) (len - i))) := by
  induction hk : len - i using Nat.strong_induction_on generalizing m i with
  | _ k ih =>
    rw [transferMemory]
    split
    · next hlt =>
      have hle := hread.add_le (by omega)
      unfold userPages at hle
      obtain ⟨n, hn, hcopy⟩ := exists_copy (show i < len by omega)
      have hlen : (BitVec.ofInt 32 (n : Int)).toNat = n := by
        rw [BitVec.ofInt_natCast, BitVec.toNat_ofNat, Nat.mod_eq_of_lt (by omega)]
      have hi : (BitVec.ofNat 32 i).toNat = i := by
        rw [BitVec.toNat_ofNat, Nat.mod_eq_of_lt (by omega)]
      have hin : (BitVec.ofNat 32 i).toNat + n ≤ len := by omega
      simp only [hcopy]
      have hkernel : (readMemory c ⟨source, m.kernel⟩ buf (fromAddr + BitVec.ofNat 32 i) n).kernel =
          m.kernel.write buf (source.mem.read (fromAddr + BitVec.ofNat 32 i) n) := by
        have hacc := hread.right hin
        rw [← hlen] at hacc
        rw [readMemory, processReadWriteMemory_eq c ⟨source, m.kernel⟩ _ _ _ hacc, hlen]
        rfl
      rw [hkernel]
      generalize hbuffer : m.kernel.write buf _ = kernel
      have hbytes : kernel.read buf n = source.mem.read (fromAddr + BitVec.ofNat 32 i) n := by
        have := Mem.read_write m.kernel buf (source.mem.read (fromAddr + BitVec.ofNat 32 i) n)
          (by simp only [Mem.length_read]; omega)
        rwa [Mem.length_read, hbuffer] at this
      have hremote : (writeMemory c { m with kernel := kernel } (toAddr + BitVec.ofNat 32 i) n
          buf).remote = m.remote.setMem (m.remote.mem.write (toAddr + BitVec.ofNat 32 i)
            (source.mem.read (fromAddr + BitVec.ofNat 32 i) n)) := by
        have hacc := hwrite.right hin
        rw [← hlen] at hacc
        rw [writeMemory, processReadWriteMemory_eq c { m with kernel := kernel } _ _ _ hacc, hlen,
          ← hbytes]
        rfl
      generalize writeMemory c { m with kernel := kernel } _ _ _ = m' at hremote
      rw [ih (len - (i + 4096)) (by omega) (by rw [hremote]; exact hwrite) (i + 4096) rfl, hremote,
        Remote.setMem_setMem, Remote.mem_setMem]
      by_cases hlast : i + 4096 ≤ len
      · have happend := Mem.write_read_append m.remote.mem source.mem (toAddr + BitVec.ofNat 32 i)
          (fromAddr + BitVec.ofNat 32 i) (n := 4096) (k := len - (i + 4096)) (by omega)
        simp only [BitVec.add_assoc, ← BitVec.ofNat_add] at happend
        rw [show n = 4096 by omega, happend, show 4096 + (len - (i + 4096)) = k by omega]
      · rw [show len - (i + 4096) = 0 by omega, show k = n by omega]
        simp [Mem.read]
    · next hge =>
      rw [show k = 0 by omega]
      simp [Mem.read]

end Copy
end Keow.Memory
