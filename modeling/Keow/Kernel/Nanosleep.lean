import Keow.Base.Int32
import Keow.Kernel.Linux

/-!
# What is left of a sleep

`SysCalls::sys_nanosleep`, `sys_sys.cpp:490–527`. The time slept is the difference of two tick
counts, right modulo 2^32 whether or not the count wrapped in between, and the remainder is the
request less that difference, modulo 2^32 as well: nothing stops it at zero.
-/

namespace Keow.Kernel

open Keow.Base

/-- `linux::timespec`, both members of type `long`. -/
structure Timespec where
  tv_sec : DWORD
  tv_nsec : DWORD
deriving DecidableEq

namespace Timespec

/-- The layout in memory. -/
def codec : Codec Timespec :=
  ((Codec.word 4).pair (Codec.word 4)).imap (fun p ↦ ⟨p.1, p.2⟩) (fun t ↦ (t.tv_sec, t.tv_nsec))
    fun _ ↦ rfl

/-- The nanoseconds of a time. -/
def nanoseconds (t : Timespec) : Int := t.tv_sec.toInt * 10 ^ 9 + t.tv_nsec.toInt

/-- The whole milliseconds of a time. -/
def milliseconds (t : Timespec) : Nat := t.tv_sec.toNat * 1000 + t.tv_nsec.toNat / 1000000

/-- A time that is not negative and can be waited for. -/
structure Valid (t : Timespec) : Prop where
  tv_sec : 0 ≤ t.tv_sec.toInt
  tv_nsec : 0 ≤ t.tv_nsec.toInt ∧ t.tv_nsec.toInt < 10 ^ 9
  milliseconds : t.milliseconds < 2 ^ 32 - 1

end Timespec

/-- A call and what it meets: the tick count at entry, the milliseconds that pass until it is read
again, and whether the wait ends because the process is to terminate or has a signal. -/
structure Sleep where
  ctx : Context
  mem : UserMem
  start : DWORD
  elapsed : Nat
  signalled : Bool

namespace Sleep

variable (s : Sleep)

/-- The request that is read. -/
def req : Timespec := Timespec.codec.decode (s.mem.read s.ctx.ebx Timespec.codec.size)

/-- `GetTickCount` after the wait. -/
def endTick : DWORD := s.start + BitVec.ofNat 32 s.elapsed

/-- The time to wait. -/
def msec : DWORD := s.req.tv_sec * 1000#32 + s.req.tv_nsec.sdiv 1000000#32

/-- The two tick counts, moved back if the second is below the first. The subtraction from `end`
already uses the new `end`. -/
def unwrap (start endTick : DWORD) : DWORD × DWORD :=
  if endTick < start then (start - (endTick + 1#32), endTick - (endTick + 1#32))
  else (start, endTick)

/-- The time that is left, as stored. -/
def rem : Timespec :=
  let ticks := unwrap s.start s.endTick
  let msec := s.msec - (ticks.2 - ticks.1)
  ⟨msec / 1000#32, msec % 1000#32 * 1000000#32⟩

/-- `SysCalls::sys_nanosleep`. -/
def sysNanosleep : Context × UserMem :=
  let ctx := s.ctx.withEax (if s.signalled then -EINTR else 0#32)
  if s.ctx.ecx = 0#32 then (ctx, s.mem)
  else (ctx, s.mem.write s.ctx.ecx (Timespec.codec.encode s.rem))

/-- What `sys_nanosleep` has stored at `pRem`. -/
def stored : Timespec := Timespec.codec.decode (s.sysNanosleep.2.read s.ctx.ecx Timespec.codec.size)

/-- What is stored is the time requested less the time slept, in whole milliseconds and split into
seconds and nanoseconds, or nothing if it slept longer; it is not more than was requested. -/
def TrueRemainder : Prop :=
  s.stored.tv_sec.toNat = (s.req.milliseconds - s.elapsed) / 1000 ∧
    s.stored.tv_nsec.toNat = (s.req.milliseconds - s.elapsed) % 1000 * 1000000 ∧
    s.stored.nanoseconds ≤ s.req.nanoseconds

variable {s}

/-- Reading back a time that was stored. -/
theorem decode_read_write (mem : UserMem) (a : DWORD) (t : Timespec) :
    Timespec.codec.decode ((mem.write a (Timespec.codec.encode t)).read a Timespec.codec.size) =
      t := by
  have hread := mem.read_write a (Timespec.codec.encode t) (by
    rw [Codec.length_encode]
    decide)
  rw [Codec.length_encode] at hread
  rw [hread, Codec.decode_encode_nil]

theorem stored_eq (h : s.ctx.ecx ≠ 0#32) : s.stored = s.rem := by
  rw [stored, sysNanosleep, if_neg h, decode_read_write]

/-- Moving both tick counts back leaves their difference. -/
theorem unwrap_sub (start endTick : DWORD) :
    (unwrap start endTick).2 - (unwrap start endTick).1 = endTick - start := by
  unfold unwrap
  split
  · apply BitVec.eq_of_toNat_eq
    simp only [BitVec.toNat_sub, BitVec.toNat_add]
    omega
  · rfl

theorem endTick_sub (s : Sleep) : s.endTick - s.start = BitVec.ofNat 32 s.elapsed := by
  rw [endTick, BitVec.add_comm, BitVec.add_sub_cancel]

theorem toNat_msec (h : s.req.Valid) : s.msec.toNat = s.req.milliseconds := by
  obtain ⟨hnsec, hnlt⟩ := toInt_of_nonneg h.tv_nsec.1
  have htotal := h.milliseconds
  have hmsb : s.req.tv_nsec.msb = false := BitVec.msb_eq_false_iff_two_mul_lt.mpr (by omega)
  have hdiv : (s.req.tv_nsec.sdiv 1000000#32).toNat = s.req.tv_nsec.toNat / 1000000 := by
    rw [BitVec.sdiv_eq, hmsb]
    rfl
  rw [Timespec.milliseconds] at htotal ⊢
  rw [msec, BitVec.toNat_add, BitVec.toNat_mul, hdiv]
  show (s.req.tv_sec.toNat * 1000 % 2 ^ 32 + _) % 2 ^ 32 = _
  omega

/-- The milliseconds stored are what is left modulo 2^32. -/
theorem toNat_rem (h : s.req.Valid) :
    ∃ m, m = (s.req.milliseconds + (2 ^ 32 - s.elapsed % 2 ^ 32)) % 2 ^ 32 ∧
      s.rem.tv_sec.toNat = m / 1000 ∧ s.rem.tv_nsec.toNat = m % 1000 * 1000000 := by
  refine ⟨(s.msec - BitVec.ofNat 32 s.elapsed).toNat, ?_, ?_, ?_⟩
  · rw [BitVec.toNat_sub, toNat_msec h, BitVec.toNat_ofNat, Nat.add_comm]
  · rw [rem, unwrap_sub, endTick_sub]
    rfl
  · rw [rem, unwrap_sub, endTick_sub, BitVec.toNat_mul, BitVec.toNat_umod]
    show (_ % 1000) * 1000000 % 2 ^ 32 = _
    omega

/-- The nanoseconds of a time stored from so many milliseconds. -/
theorem nanoseconds_eq {t : Timespec} {m : Nat} (hm : m < 2 ^ 32)
    (hsec : t.tv_sec.toNat = m / 1000) (hnsec : t.tv_nsec.toNat = m % 1000 * 1000000) :
    t.nanoseconds = m * 10 ^ 6 := by
  rw [Timespec.nanoseconds, BitVec.toInt_eq_toNat_of_lt (by omega),
    BitVec.toInt_eq_toNat_of_lt (by omega), hsec, hnsec]
  omega

theorem milliseconds_le_nanoseconds {t : Timespec} (h : t.Valid) :
    (t.milliseconds * 10 ^ 6 : Int) ≤ t.nanoseconds := by
  have hsec := (toInt_of_nonneg h.tv_sec).1
  have hnsec := (toInt_of_nonneg h.tv_nsec.1).1
  rw [Timespec.nanoseconds, Timespec.milliseconds, hsec, hnsec]
  omega

/-- The remainder is true unless the process slept longer than it asked for, by anything but a
multiple of 2^32 milliseconds. -/
theorem trueRemainder_iff (s : Sleep) (hreq : s.req.Valid) (hrem : s.ctx.ecx ≠ 0#32) :
    s.TrueRemainder ↔
      s.elapsed ≤ s.req.milliseconds ∨ s.elapsed % 2 ^ 32 = s.req.milliseconds := by
  obtain ⟨m, hm, hsec, hnsec⟩ := toNat_rem hreq
  have htotal := hreq.milliseconds
  rw [TrueRemainder, stored_eq hrem, hsec, hnsec]
  constructor
  · rintro ⟨hsecs, hnsecs, -⟩
    omega
  · intro hslept
    have hleft : m = s.req.milliseconds - s.elapsed := by omega
    have hle := milliseconds_le_nanoseconds hreq
    have hstored := nanoseconds_eq (by omega) hsec hnsec
    refine ⟨by rw [hleft], by rw [hleft], ?_⟩
    rw [hstored]
    omega

/-- A process that asks for one second at the address 16 and wants to know at the address 32 what
is left. -/
def oneSecond (elapsed : Nat) : Sleep where
  ctx := { Context.zero with ebx := 16#32, ecx := 32#32 }
  mem := Mem.write (fun _ ↦ 0) 16#32 (Timespec.codec.encode ⟨1#32, 0#32⟩)
  start := 0#32
  elapsed := elapsed
  signalled := false

theorem req_oneSecond (elapsed : Nat) : (oneSecond elapsed).req = ⟨1#32, 0#32⟩ :=
  decode_read_write _ _ _

theorem valid_oneSecond : Timespec.Valid ⟨1#32, 0#32⟩ :=
  ⟨by decide, ⟨by decide, by decide⟩, by decide⟩

/-- After 250 milliseconds three quarters of the second are left. -/
theorem trueRemainder_oneSecond : (oneSecond 250).TrueRemainder :=
  (trueRemainder_iff (oneSecond 250) (by rw [req_oneSecond]; exact valid_oneSecond) (by decide)).mpr
    (.inl (by rw [req_oneSecond]; decide))

/-- After 1001 milliseconds nothing is left, but seven weeks are stored. -/
theorem not_trueRemainder_oneSecond :
    (oneSecond 1001).req.Valid ∧ (oneSecond 1001).ctx.ecx ≠ 0#32 ∧
      (oneSecond 1001).stored = ⟨4294967#32, 295000000#32⟩ ∧ ¬(oneSecond 1001).TrueRemainder := by
  have hreq := req_oneSecond 1001
  have hstored : (oneSecond 1001).stored = ⟨4294967#32, 295000000#32⟩ := by
    rw [stored_eq (by decide), rem, msec, hreq]
    decide
  refine ⟨by rw [hreq]; exact valid_oneSecond, by decide, hstored, ?_⟩
  rintro ⟨hsecs, -⟩
  rw [hstored, hreq] at hsecs
  exact absurd hsecs (by decide)

end Sleep

end Keow.Kernel
