import Mathlib.Algebra.Order.Ring.Int
import Mathlib.Data.List.Basic
import Mathlib.Tactic.Common

/-!
# Fixed-size binary codecs

A packed C structure occupies a fixed number of bytes and is read back field by
field. `Codec` carries that size together with its two laws, so that composite
layouts inherit them: concatenation of fields is `pair`, and a record is the image
of its field tuple under `imap`.
-/

namespace Keow.Base

universe u v

/-- Little-endian digits of `x`: exactly `n` bytes, the least significant first. -/
def natBytes : Nat → Nat → List UInt8
  | 0, _ => []
  | n + 1, x => UInt8.ofNat (x % 256) :: natBytes n (x / 256)

/-- The number spelled by little-endian bytes. -/
def leNat : List UInt8 → Nat
  | [] => 0
  | b :: bs => b.toNat + 256 * leNat bs

@[simp] theorem length_natBytes (n x : Nat) : (natBytes n x).length = n := by
  induction n generalizing x with
  | zero => rfl
  | succ n ih => simp [natBytes, ih]

theorem leNat_natBytes (n x : Nat) : leNat (natBytes n x) = x % 256 ^ n := by
  induction n generalizing x with
  | zero => simp [natBytes, leNat, Nat.mod_one]
  | succ n ih =>
    have hd : (UInt8.ofNat (x % 256)).toNat = x % 256 := by
      rw [UInt8.toNat_ofNat']
      omega
    rw [natBytes, leNat, ih, hd, Nat.pow_succ, Nat.mul_comm (256 ^ n) 256, Nat.mod_mul]

/-- An encoding of `α` in exactly `size` bytes, read back in front of any suffix. -/
structure Codec (α : Type u) where
  size : Nat
  encode : α → List UInt8
  decode : List UInt8 → α
  length_encode : ∀ a, (encode a).length = size
  decode_encode : ∀ a rest, decode (encode a ++ rest) = a

namespace Codec

variable {α : Type u} {β : Type v}

attribute [simp] length_encode decode_encode

/-- Reading back exactly the encoded bytes. -/
@[simp] theorem decode_encode_nil (c : Codec α) (a : α) : c.decode (c.encode a) = a := by
  simpa using c.decode_encode a []

/-- Little-endian machine words of `n` bytes. -/
def word (n : Nat) : Codec (BitVec (8 * n)) where
  size := n
  encode w := natBytes n w.toNat
  decode bs := BitVec.ofNat (8 * n) (leNat (bs.take n))
  length_encode w := length_natBytes n w.toNat
  decode_encode w rest := by
    have ht : (natBytes n w.toNat ++ rest).take n = natBytes n w.toNat := by
      rw [List.take_append_of_le_length (by simp), List.take_of_length_le (by simp)]
    have hp : (256 : Nat) ^ n = 2 ^ (8 * n) := by rw [Nat.pow_mul]
    rw [ht, leNat_natBytes, hp, Nat.mod_eq_of_lt w.isLt, BitVec.ofNat_toNat, BitVec.setWidth_eq]

/-- An uninterpreted block of `n` bytes. -/
def block (n : Nat) : Codec (Vector UInt8 n) where
  size := n
  encode v := v.toList
  decode bs := Vector.ofFn (fun i ↦ bs.getD i 0)
  length_encode v := by simp
  decode_encode v rest := by
    apply Vector.ext
    intro i hi
    have hl : i < v.toList.length := by simpa using hi
    simp [List.getD, List.getElem?_append_left hl, hi]

/-- Consecutive fields. -/
def pair (a : Codec α) (b : Codec β) : Codec (α × β) where
  size := a.size + b.size
  encode p := a.encode p.1 ++ b.encode p.2
  decode bs := (a.decode bs, b.decode (bs.drop a.size))
  length_encode p := by simp
  decode_encode p rest := by
    have hd : (a.encode p.1 ++ b.encode p.2 ++ rest).drop a.size = b.encode p.2 ++ rest := by
      rw [List.append_assoc, List.drop_append_of_le_length (by simp),
        List.drop_of_length_le (by simp), List.nil_append]
    rw [hd, b.decode_encode, List.append_assoc, a.decode_encode]

/-- Transport along a retraction: every `β` is recovered from its fields. -/
def imap (c : Codec α) (mk : α → β) (fields : β → α) (h : ∀ b, mk (fields b) = b) : Codec β where
  size := c.size
  encode b := c.encode (fields b)
  decode bs := mk (c.decode bs)
  length_encode b := by simp
  decode_encode b rest := by rw [c.decode_encode, h]

end Codec
end Keow.Base
