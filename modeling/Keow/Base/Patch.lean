import Keow.Base.Memory

/-!
# Sequences of stores

A memory after a sequence of stores is described byte by byte: the last store that covers a
byte decides it, and a byte that none covers keeps its contents.
-/

namespace Keow.Base

/-- Bytes to be stored from an address upwards. -/
structure Patch (w : Nat) where
  start : BitVec w
  bytes : List UInt8

namespace Patch

variable {w : Nat}

/-- The byte the patch stores at an address, if it covers it. -/
def byteAt (p : Patch w) (x : BitVec w) : Option UInt8 := p.bytes[(x - p.start).toNat]?

/-- What the last patch that covers an address stores there. -/
def lastByte : List (Patch w) → BitVec w → Option UInt8
  | [], _ => none
  | p :: ps, x => (lastByte ps x).or (p.byteAt x)

@[simp] theorem lastByte_nil (x : BitVec w) : lastByte [] x = none := rfl

theorem lastByte_cons (p : Patch w) (ps : List (Patch w)) (x : BitVec w) :
    lastByte (p :: ps) x = (lastByte ps x).or (p.byteAt x) := rfl

theorem lastByte_append (ps qs : List (Patch w)) (x : BitVec w) :
    lastByte (ps ++ qs) x = (lastByte qs x).or (lastByte ps x) := by
  induction ps with
  | nil => simp
  | cons p ps ih => rw [List.cons_append, lastByte_cons, lastByte_cons, ih, Option.or_assoc]

/-- A block of one byte value stores that value on what it covers. -/
theorem byteAt_replicate (start x : BitVec w) (n : Nat) (b : UInt8) :
    byteAt ⟨start, List.replicate n b⟩ x = if (x - start).toNat < n then some b else none := by
  rw [byteAt, List.getElem?_replicate]

end Patch

namespace Mem

variable {w : Nat}

/-- Carry out the stores from left to right. -/
def patch (m : Mem w) (ps : List (Patch w)) : Mem w :=
  ps.foldl (fun m p ↦ write m p.start p.bytes) m

@[simp] theorem patch_nil (m : Mem w) : patch m [] = m := rfl

@[simp] theorem patch_cons (m : Mem w) (p : Patch w) (ps : List (Patch w)) :
    patch m (p :: ps) = patch (write m p.start p.bytes) ps := rfl

theorem patch_append (m : Mem w) (ps qs : List (Patch w)) :
    patch m (ps ++ qs) = patch (patch m ps) qs := List.foldl_append

/-- The last covering store decides. -/
theorem patch_apply (m : Mem w) (ps : List (Patch w)) (x : BitVec w) :
    patch m ps x = (Patch.lastByte ps x).getD (m x) := by
  induction ps generalizing m with
  | nil => rfl
  | cons p ps ih =>
    rw [patch_cons, ih, Patch.lastByte_cons]
    cases Patch.lastByte ps x with
    | some b => rfl
    | none => rfl

/-- Two stores of one byte value, the second right behind the first, are one store. -/
theorem write_write_replicate (m : Mem w) (a : BitVec w) (b : UInt8) (n k : Nat) :
    write (write m a (List.replicate n b)) (a + BitVec.ofNat w n) (List.replicate k b) =
      write m a (List.replicate (n + k) b) := by
  funext x
  have hx := (x - a).isLt
  simp only [write, List.getElem?_replicate]
  by_cases hn : n ≤ (x - a).toNat
  · have hoff : (x - (a + BitVec.ofNat w n)).toNat = (x - a).toNat - n := by
      have hsub : x - (a + BitVec.ofNat w n) = (x - a) - BitVec.ofNat w n := by
        simp only [BitVec.sub_eq_add_neg, BitVec.neg_add, BitVec.add_assoc]
      have hof : (BitVec.ofNat w n).toNat = n := by
        rw [BitVec.toNat_ofNat, Nat.mod_eq_of_lt (by omega)]
      rw [hsub, toNat_sub_of_le (by omega), hof]
    rw [hoff]
    by_cases hk : (x - a).toNat < n + k
    · rw [if_pos (by omega), if_pos hk]
      rfl
    · rw [if_neg (by omega), if_neg hk, if_neg (by omega)]
      rfl
  · rw [if_pos (by omega : (x - a).toNat < n), if_pos (by omega : (x - a).toNat < n + k)]
    split <;> rfl

end Mem
end Keow.Base
