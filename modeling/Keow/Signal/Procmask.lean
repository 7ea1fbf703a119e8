import Keow.Signal.Exception
import Keow.Signal.Mask

/-!
# What `sigprocmask` is asked for

The law of the call against what it does, `sys_process.cpp:95–137`. A request for the old mask
returns before the new one is looked at, so the two are never carried out together, and
without either nothing sets Eax.
-/

namespace Keow.Signal

open Keow.Base Keow.Kernel

/-! ## The words together -/

/-- The new mask of `sigprocmask`, `none` for an unknown request. -/
def nextMask (how : DWORD) (set mask : BitVec 64) : Option (BitVec 64) :=
  if how = SIG_BLOCK then some (mask ||| set)
  else if how = SIG_UNBLOCK then some (mask &&& ~~~set)
  else if how = SIG_SETMASK then some set
  else none

/-- A new mask consists of the new words. -/
theorem nextWord_sigWord (how : DWORD) (set mask : BitVec 64) (i : Nat) :
    nextWord how (sigWord set i) (sigWord mask i) =
      (nextMask how set mask).map fun mask ↦ sigWord mask i := by
  have hbits : ∀ {x y : DWORD}, (∀ j, j < 32 → x.getLsbD j = y.getLsbD j) → x = y :=
    fun h ↦ BitVec.eq_of_getLsbD_eq h
  unfold nextWord nextMask
  split
  · refine congrArg some (hbits fun j hj ↦ ?_)
    simp only [BitVec.getLsbD_or, getLsbD_sigWord, hj, decide_true, Bool.true_and]
  · split
    · refine congrArg some (hbits fun j hj ↦ ?_)
      simp only [BitVec.getLsbD_and, BitVec.getLsbD_not, getLsbD_sigWord, hj, decide_true,
        Bool.true_and]
      by_cases hi : nsigBpw * i + j < 64
      · rw [decide_eq_true hi, Bool.true_and]
      · rw [BitVec.getLsbD_of_ge mask _ (by omega), Bool.false_and, Bool.false_and]
    · split
      · rfl
      · rfl

/-- The loop makes of both words what `nextMask` makes of the set. -/
theorem procmaskLoop_eq (how : DWORD) (set mask : BitVec 64) (eax : DWORD) :
    procmaskLoop how (sigWord set) (List.range nsigWords) eax (sigWord mask) =
      match nextMask how set mask with
      | none => (-EINVAL, sigWord mask)
      | some mask => (0#32, sigWord mask) := by
  have hword := nextWord_sigWord how set mask
  show procmaskLoop how (sigWord set) [0, 1] eax (sigWord mask) = _
  cases hnext : nextMask how set mask with
  | none =>
    rw [hnext] at hword
    simp only [procmaskLoop, hword, Option.map_none]
  | some next =>
    rw [hnext] at hword
    simp only [procmaskLoop, hword, Option.map_some, Nat.one_ne_zero, if_false]
    refine congrArg (Prod.mk 0#32) (funext fun i ↦ ?_)
    match i with
    | 0 => rfl
    | 1 => rfl
    | i + 2 =>
      have hle : nsigWords ≤ i + 2 := Nat.le_add_left _ _
      rw [if_neg (by omega), if_neg (by omega), sigWord_of_le mask hle, sigWord_of_le next hle]

/-! ## The law -/

/-- A request that the switch knows. -/
def KnownRequest (how : DWORD) : Prop :=
  how = SIG_BLOCK ∨ how = SIG_UNBLOCK ∨ how = SIG_SETMASK

instance (how : DWORD) : Decidable (KnownRequest how) := inferInstanceAs (Decidable (_ ∨ _ ∨ _))

/-- Whether signal `i + 1` is to be blocked by such a request: it is added, removed, or set. -/
def asked (how : DWORD) (set mask : BitVec 64) (i : Nat) : Bool :=
  if how = SIG_BLOCK then mask.getLsbD i || set.getLsbD i
  else if how = SIG_UNBLOCK then mask.getLsbD i && !set.getLsbD i
  else set.getLsbD i

/-- The set that `Ecx` points to on entry. -/
def givenSet (ctx : Context) (w : World) : BitVec 64 :=
  (Codec.word 8).decode (Mem.read w.mem ctx.ecx 8)

/-- A call of `sigprocmask(Ebx, Ecx, Edx)` has stored the old mask if asked, and set the new one
if asked, or refused the request. -/
structure Obeyed (ctx : Context) (w : World) (ctx' : Context) (w' : World) : Prop where
  refused : ctx.ecx ≠ 0#32 → ¬KnownRequest ctx.ebx →
    ctx'.eax = -EINVAL ∧ w'.cur.signalMask = w.cur.signalMask
  returned : ctx.ecx = 0#32 ∨ KnownRequest ctx.ebx → ctx'.eax = 0#32
  stored : ctx.ecx = 0#32 ∨ KnownRequest ctx.ebx → ctx.edx ≠ 0#32 →
    Mem.read w'.mem ctx.edx 8 = (Codec.word 8).encode w.cur.signalMask
  applied : ctx.ecx ≠ 0#32 → KnownRequest ctx.ebx → ∀ i < 64,
    w'.cur.signalMask.getLsbD i = asked ctx.ebx (givenSet ctx w) w.cur.signalMask i
  kept : ctx.ecx = 0#32 → w'.cur.signalMask = w.cur.signalMask

/-- With both pointers the request is a known one that leaves the mask as it is, and with neither
Eax is 0 already. -/
def Separable (ctx : Context) (w : World) : Prop :=
  (ctx.edx ≠ 0#32 → ctx.ecx ≠ 0#32 → KnownRequest ctx.ebx ∧ ∀ i < 64,
    asked ctx.ebx (givenSet ctx w) w.cur.signalMask i = w.cur.signalMask.getLsbD i) ∧
  (ctx.edx = 0#32 → ctx.ecx = 0#32 → ctx.eax = 0#32)

theorem nextMask_of_known {how : DWORD} (h : KnownRequest how) (set mask : BitVec 64) :
    ∃ next, nextMask how set mask = some next ∧
      ∀ i < 64, next.getLsbD i = asked how set mask i := by
  unfold nextMask asked
  split
  · exact ⟨_, rfl, fun i _ ↦ BitVec.getLsbD_or⟩
  · split
    · refine ⟨_, rfl, fun i hi ↦ ?_⟩
      rw [BitVec.getLsbD_and, BitVec.getLsbD_not, decide_eq_true hi, Bool.true_and]
    · split
      · exact ⟨_, rfl, fun i _ ↦ rfl⟩
      · next h0 h1 h2 => exact absurd h (by rintro (h | h | h) <;> contradiction)

theorem nextMask_of_unknown {how : DWORD} (h : ¬KnownRequest how) (set mask : BitVec 64) :
    nextMask how set mask = none := by
  unfold nextMask
  rw [if_neg fun h0 ↦ h (.inl h0), if_neg fun h1 ↦ h (.inr (.inl h1)),
    if_neg fun h2 ↦ h (.inr (.inr h2))]

/-! ## The call -/

section Call

variable {ctx : Context} {w : World}

/-- The old mask is asked for, and nothing else is done. -/
theorem sysSigprocmask_of_old (h : ctx.edx ≠ 0#32) :
    sysSigprocmask ctx w = .ok (ctx.withEax 0#32)
      { w with mem := Mem.write w.mem ctx.edx ((Codec.word 8).encode w.cur.signalMask) } := by
  rw [sysSigprocmask, Comp.get_bind, if_pos h]
  rfl

theorem sysSigprocmask_of_new (hold : ctx.edx = 0#32) (hnew : ctx.ecx ≠ 0#32) :
    sysSigprocmask ctx w =
      match nextMask ctx.ebx (givenSet ctx w) w.cur.signalMask with
      | some mask => .ok (ctx.withEax 0#32) { w with cur := { w.cur with signalMask := mask } }
      | none => .ok (ctx.withEax (-EINVAL)) w := by
  rw [sysSigprocmask, Comp.get_bind,
    if_neg (not_not.mpr hold), if_pos hnew]
  have hread : readMemory ctx.ecx 8 w = .ok (Mem.read w.mem ctx.ecx 8) w := rfl
  rw [Comp.bind_of_ok hread]
  dsimp only
  rw [← givenSet, procmaskLoop_eq]
  cases nextMask ctx.ebx (givenSet ctx w) w.cur.signalMask with
  | some mask =>
    dsimp only
    rw [ofSigWords_sigWord]
    rfl
  | none =>
    dsimp only
    rw [ofSigWords_sigWord]
    rfl -- both words are written back as they were

theorem sysSigprocmask_of_neither (hold : ctx.edx = 0#32) (hnew : ctx.ecx = 0#32) :
    sysSigprocmask ctx w = .ok ctx w := by
  rw [sysSigprocmask, Comp.get_bind,
    if_neg (not_not.mpr hold), if_neg (not_not.mpr hnew)]
  rfl

end Call

/-- `sigprocmask` does what it is asked for exactly when the two requests can be told apart. -/
theorem sysSigprocmask_obeyed_iff (ctx : Context) (w : World) :
    ∃ ctx' w', sysSigprocmask ctx w = .ok ctx' w' ∧ (Obeyed ctx w ctx' w' ↔ Separable ctx w) := by
  by_cases hold : ctx.edx = 0#32
  · by_cases hnew : ctx.ecx = 0#32
    · refine ⟨ctx, w, sysSigprocmask_of_neither hold hnew, ?_⟩
      constructor
      · intro h
        exact ⟨fun hne ↦ absurd hold hne, fun _ _ ↦ h.returned (.inl hnew)⟩
      · intro h
        exact ⟨fun hne ↦ absurd hnew hne, fun _ ↦ h.2 hold hnew, fun _ hne ↦ absurd hold hne,
          fun hne ↦ absurd hnew hne, fun _ ↦ rfl⟩
    · have hrun := sysSigprocmask_of_new (w := w) hold hnew
      have hsep : Separable ctx w := ⟨fun hne ↦ absurd hold hne, fun _ h0 ↦ absurd h0 hnew⟩
      by_cases hknown : KnownRequest ctx.ebx
      · obtain ⟨next, hnext, hbits⟩ :=
          nextMask_of_known hknown (givenSet ctx w) w.cur.signalMask
        rw [hnext] at hrun
        refine ⟨_, _, hrun, iff_of_true ?_ hsep⟩
        exact ⟨fun _ hun ↦ absurd hknown hun, fun _ ↦ rfl, fun _ hne ↦ absurd hold hne,
          fun _ _ ↦ hbits, fun h0 ↦ absurd h0 hnew⟩
      · rw [nextMask_of_unknown hknown] at hrun
        refine ⟨_, _, hrun, iff_of_true ?_ hsep⟩
        exact ⟨fun _ _ ↦ ⟨rfl, rfl⟩, fun h ↦ absurd h (not_or.mpr ⟨hnew, hknown⟩),
          fun _ hne ↦ absurd hold hne, fun _ h ↦ absurd h hknown, fun h0 ↦ absurd h0 hnew⟩
  · refine ⟨_, _, sysSigprocmask_of_old hold, ?_⟩
    have hstored : Mem.read (Mem.write w.mem ctx.edx ((Codec.word 8).encode w.cur.signalMask))
        ctx.edx 8 = (Codec.word 8).encode w.cur.signalMask :=
      Mem.read_write w.mem ctx.edx ((Codec.word 8).encode w.cur.signalMask) (by simp [Codec.word])
    constructor
    · intro h
      refine ⟨fun _ hnew ↦ ?_, fun h0 ↦ absurd h0 hold⟩
      have hknown : KnownRequest ctx.ebx := by
        by_contra hun
        exact absurd (h.refused hnew hun).1 (show (0#32 : DWORD) ≠ -EINVAL by decide)
      exact ⟨hknown, fun i hi ↦ (h.applied hnew hknown i hi).symm⟩
    · intro h
      refine ⟨fun hnew hun ↦ absurd (h.1 hold hnew).1 hun, fun _ ↦ rfl, fun _ _ ↦ hstored,
        fun hnew _ i hi ↦ ((h.1 hold hnew).2 i hi).symm, fun _ ↦ rfl⟩

/-- A set with `SIGHUP` at 0x1000, to be added while the old mask is asked for. -/
def hangupSet : World := { loneWorld [] with mem := fun x ↦ if x = 0x1000#32 then 1 else 0 }

/-- It is not added. -/
theorem not_obeyed_hangup :
    ∃ ctx' w', sysSigprocmask
        { Context.zero with ebx := SIG_BLOCK, ecx := 0x1000#32, edx := 0x2000#32 } hangupSet =
          .ok ctx' w' ∧
      ¬Obeyed { Context.zero with ebx := SIG_BLOCK, ecx := 0x1000#32, edx := 0x2000#32 } hangupSet
        ctx' w' := by
  refine ⟨_, _, sysSigprocmask_of_old (by decide), fun h ↦ ?_⟩
  have hbit := h.applied (by decide) (.inl rfl) 0 (by decide)
  exact absurd hbit (by decide)

end Keow.Signal
