import Mathlib.Algebra.Order.Ring.Int
import Mathlib.Data.List.Basic
import Mathlib.Tactic.Common

/-!
# Flat byte memory

An address space of `2 ^ w` bytes, total and circular: byte `x` lies at offset
`(x - a).toNat` from `a`, so a block that runs past the top continues at zero.
Frame facts are stated both for that offset and for the ordinary order of addresses
when the block does not wrap.
-/

namespace Keow.Base

/-- The contents of an address space with `w`-bit addresses. -/
def Mem (w : Nat) : Type := BitVec w → UInt8

namespace Mem

variable {w : Nat}

/-- Store consecutive bytes from `a` upwards. -/
def write (m : Mem w) (a : BitVec w) (bs : List UInt8) : Mem w :=
  fun x ↦ (bs[(x - a).toNat]?).getD (m x)

/-- Load `n` consecutive bytes from `a` upwards. -/
def read (m : Mem w) (a : BitVec w) (n : Nat) : List UInt8 :=
  (List.range n).map (fun i ↦ m (a + BitVec.ofNat w i))

@[simp] theorem length_read (m : Mem w) (a : BitVec w) (n : Nat) :
    (read m a n).length = n := by
  simp [read]

@[simp] theorem write_nil (m : Mem w) (a : BitVec w) : write m a [] = m := by
  funext x
  simp [write]

/-- The offset of an address at or above `a`. -/
theorem toNat_sub_of_le {x a : BitVec w} (h : a.toNat ≤ x.toNat) :
    (x - a).toNat = x.toNat - a.toNat := by
  have hx := x.isLt
  have ha := a.isLt
  rw [BitVec.toNat_sub]
  have he : 2 ^ w - a.toNat + x.toNat = (x.toNat - a.toNat) + 2 ^ w := by omega
  rw [he, Nat.add_mod_right, Nat.mod_eq_of_lt (by omega)]

/-- The offset of an address below `a`, counted around the top. -/
theorem toNat_sub_of_lt {x a : BitVec w} (h : x.toNat < a.toNat) :
    (x - a).toNat = 2 ^ w - a.toNat + x.toNat := by
  have ha := a.isLt
  rw [BitVec.toNat_sub, Nat.mod_eq_of_lt (by omega)]

/-- Bytes past the end of the block keep their contents. -/
theorem write_of_length_le (m : Mem w) (a x : BitVec w) (bs : List UInt8)
    (h : bs.length ≤ (x - a).toNat) : write m a bs x = m x := by
  rw [write, List.getElem?_eq_none h, Option.getD_none]

/-- An offset that does not wrap. -/
theorem toNat_add_ofNat {a : BitVec w} {i : Nat} (h : a.toNat + i < 2 ^ w) :
    (a + BitVec.ofNat w i).toNat = a.toNat + i := by
  rw [BitVec.toNat_add, BitVec.toNat_ofNat, Nat.mod_eq_of_lt (by omega : i < 2 ^ w),
    Nat.mod_eq_of_lt h]

/-- A block that does not wrap leaves every address above it alone. -/
theorem write_above (m : Mem w) (a x : BitVec w) (bs : List UInt8)
    (h : a.toNat + bs.length ≤ x.toNat) : write m a bs x = m x := by
  apply write_of_length_le
  rw [toNat_sub_of_le (by omega)]
  omega

/-- A block that does not wrap leaves every address below it alone. -/
theorem write_below (m : Mem w) (a x : BitVec w) (bs : List UInt8)
    (hw : a.toNat + bs.length ≤ 2 ^ w) (h : x.toNat < a.toNat) : write m a bs x = m x := by
  apply write_of_length_le
  rw [toNat_sub_of_lt h]
  omega

theorem read_congr {m m' : Mem w} {a : BitVec w} {n : Nat}
    (h : ∀ i, i < n → m (a + BitVec.ofNat w i) = m' (a + BitVec.ofNat w i)) :
    read m a n = read m' a n := by
  apply List.map_congr_left
  intro i hi
  exact h i (List.mem_range.mp hi)

/-- Loading what was just stored. -/
theorem read_write (m : Mem w) (a : BitVec w) (bs : List UInt8) (h : bs.length ≤ 2 ^ w) :
    read (write m a bs) a bs.length = bs := by
  apply List.ext_getElem
  · simp
  · intro i hi hj
    have ho : (a + BitVec.ofNat w i - a).toNat = i := by
      rw [BitVec.add_comm, BitVec.add_sub_cancel, BitVec.toNat_ofNat,
        Nat.mod_eq_of_lt (by omega)]
    simp only [read, List.getElem_map, List.getElem_range]
    rw [write, ho, List.getElem?_eq_getElem hj, Option.getD_some]

/-- Storing two consecutive blocks one after the other. -/
theorem write_append (m : Mem w) (a : BitVec w) (bs cs : List UInt8)
    (h : bs.length + cs.length ≤ 2 ^ w) :
    write (write m a bs) (a + BitVec.ofNat w bs.length) cs = write m a (bs ++ cs) := by
  funext x
  by_cases hcs : cs = []
  · simp [hcs]
  · have hpos := List.length_pos_of_ne_nil hcs
    have hn : (BitVec.ofNat w bs.length).toNat = bs.length := by
      rw [BitVec.toNat_ofNat, Nat.mod_eq_of_lt (by omega)]
    have hsub : x - (a + BitVec.ofNat w bs.length) = x - a - BitVec.ofNat w bs.length := by
      rw [BitVec.sub_eq_add_neg, BitVec.neg_add, BitVec.sub_eq_add_neg (x - a),
        BitVec.sub_eq_add_neg x, BitVec.sub_eq_add_neg (-a), BitVec.add_assoc]
    simp only [write, hsub]
    rcases Nat.lt_or_ge (x - a).toNat bs.length with hin | hin
    · rw [toNat_sub_of_lt (by omega), hn, List.getElem?_eq_none (by omega), Option.getD_none,
        List.getElem?_append_left hin]
    · rw [toNat_sub_of_le (by omega), hn, List.getElem?_eq_none hin, Option.getD_none,
        List.getElem?_append_right hin]

/-- A load splits at any point. -/
theorem read_add (m : Mem w) (a : BitVec w) (n k : Nat) :
    read m a (n + k) = read m a n ++ read m (a + BitVec.ofNat w n) k := by
  rw [read, List.range_add, List.map_append, List.map_map]
  congr 1
  apply List.map_congr_left
  intro i _
  simp only [Function.comp_apply, BitVec.ofNat_add, BitVec.add_assoc]

/-- Copying two consecutive blocks one after the other. -/
theorem write_read_append (m m' : Mem w) (a b : BitVec w) {n k : Nat} (h : n + k ≤ 2 ^ w) :
    write (write m a (read m' b n)) (a + BitVec.ofNat w n)
        (read m' (b + BitVec.ofNat w n) k) = write m a (read m' b (n + k)) := by
  have happend := write_append m a (read m' b n) (read m' (b + BitVec.ofNat w n) k) (by simpa)
  rwa [length_read, ← read_add] at happend

/-- A load of two consecutive blocks. -/
theorem read_eq_append {m : Mem w} {a : BitVec w} {bs cs : List UInt8} {n : Nat}
    (hn : n = bs.length + cs.length) (h : read m a n = bs ++ cs) :
    read m a bs.length = bs ∧ read m (a + BitVec.ofNat w bs.length) cs.length = cs := by
  rw [hn, read_add] at h
  exact List.append_inj h (by simp)

/-- What was stored at an address inside a block that does not wrap, read from elsewhere. -/
theorem write_read_apply (m m' : Mem w) {a b x : BitVec w} {n : Nat} (ha : a.toNat ≤ x.toNat)
    (hn : x.toNat < a.toNat + n) : write m a (read m' b n) x = m' (b + (x - a)) := by
  have ho := toNat_sub_of_le ha
  have hlt : (x - a).toNat < n := by omega
  rw [write, read, List.getElem?_map, List.getElem?_range hlt, Option.map_some, Option.getD_some,
    BitVec.ofNat_toNat, BitVec.setWidth_eq]

/-- The two memories have the same contents from an address upwards. -/
def AgreeAbove (floor : Nat) (m m' : Mem w) : Prop :=
  ∀ x : BitVec w, floor ≤ x.toNat → m x = m' x

theorem agreeAbove_mono {floor floor' : Nat} {m m' : Mem w} (h : AgreeAbove floor m m')
    (hle : floor ≤ floor') : AgreeAbove floor' m m' :=
  fun x hx ↦ h x (Nat.le_trans hle hx)

/-- A block below the floor changes nothing above it. -/
theorem agreeAbove_write {floor : Nat} (m : Mem w) (a : BitVec w) (bs : List UInt8)
    (h : a.toNat + bs.length ≤ floor) : AgreeAbove floor m (write m a bs) :=
  fun x hx ↦ (write_above m a x bs (by omega)).symm

/-- Loads above the floor agree. -/
theorem read_of_agreeAbove {floor : Nat} {m m' : Mem w} (h : AgreeAbove floor m m') {a : BitVec w}
    {n : Nat} (ha : floor ≤ a.toNat) (hn : a.toNat + n ≤ 2 ^ w) : read m a n = read m' a n := by
  apply read_congr
  intro i hi
  apply h
  rw [toNat_add_ofNat (by omega)]
  omega

end Mem
end Keow.Base
