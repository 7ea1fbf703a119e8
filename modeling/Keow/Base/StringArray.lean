import Keow.Base.Codec
import Keow.Base.Memory

/-!
# Arrays of strings in memory

The argument vectors of C: strings that end with a zero byte, and arrays of pointers to such
strings that end with a null pointer. What an array says depends on the bytes of its ranges
only, so that it survives stores elsewhere.
-/

namespace Keow.Base
namespace Mem

variable {w : Nat}

/-! ## Ranges of addresses -/

/-- The two memories agree on the `n` bytes from `a` on. -/
def AgreeOn (m m' : Mem w) (a : BitVec w) (n : Nat) : Prop :=
  ∀ x : BitVec w, a.toNat ≤ x.toNat → x.toNat < a.toNat + n → m x = m' x

theorem AgreeOn.trans {m m' m'' : Mem w} {a : BitVec w} {n : Nat} (h : AgreeOn m m' a n)
    (h' : AgreeOn m' m'' a n) : AgreeOn m m'' a n :=
  fun x hx hlt ↦ (h x hx hlt).trans (h' x hx hlt)

theorem AgreeOn.left {m m' : Mem w} {a : BitVec w} {n k : Nat} (h : AgreeOn m m' a n)
    (hk : k ≤ n) : AgreeOn m m' a k :=
  fun x hx hlt ↦ h x hx (by omega)

/-- A store outside the range. -/
theorem agreeOn_write (m : Mem w) {a b : BitVec w} {n : Nat} {bs : List UInt8}
    (hb : b.toNat + bs.length ≤ 2 ^ w)
    (h : a.toNat + n ≤ b.toNat ∨ b.toNat + bs.length ≤ a.toNat) :
    AgreeOn m (m.write b bs) a n := by
  intro x hx hlt
  rcases Nat.lt_or_ge x.toNat b.toNat with hbelow | habove
  · exact (write_below m b x bs hb hbelow).symm
  · exact (write_above m b x bs (by omega)).symm

theorem read_of_agreeOn {m m' : Mem w} {a : BitVec w} {n : Nat} (h : AgreeOn m m' a n)
    (ha : a.toNat + n ≤ 2 ^ w) : m.read a n = m'.read a n := by
  apply read_congr
  intro i hi
  have hadd : (a + BitVec.ofNat w i).toNat = a.toNat + i := toNat_add_ofNat (by omega)
  exact h _ (by omega) (by omega)

/-- Two ranges of addresses have nothing in common. -/
def Apart (r r' : BitVec w × Nat) : Prop :=
  r.1.toNat + r.2 ≤ r'.1.toNat ∨ r'.1.toNat + r'.2 ≤ r.1.toNat

instance : DecidableRel (Apart (w := w)) := fun _ _ ↦ inferInstanceAs (Decidable (_ ∨ _))

theorem Apart.symm {r r' : BitVec w × Nat} (h : Apart r r') : Apart r' r := Or.symm h

/-! ## Words -/

/-- The word at an address. -/
def word (m : Mem 32) (a : BitVec 32) : BitVec 32 := (Codec.word 4).decode (m.read a 4)

/-- Loading the word that was just stored. -/
theorem word_write (m : Mem 32) (a v : BitVec 32) :
    (m.write a (natBytes 4 v.toNat)).word a = v := by
  have hread := read_write m a (natBytes 4 v.toNat) (by simp)
  rw [length_natBytes] at hread
  rw [word, hread]
  exact (Codec.word 4).decode_encode_nil v

theorem word_of_read {m : Mem 32} {a : BitVec 32} {x : Nat} (h : m.read a 4 = natBytes 4 x) :
    m.word a = BitVec.ofNat 32 x := by
  have hmod : (BitVec.ofNat 32 x).toNat = x % 256 ^ 4 := BitVec.toNat_ofNat x 32
  rw [word, h]
  apply BitVec.eq_of_toNat_eq
  show (BitVec.ofNat 32 (leNat ((natBytes 4 x).take 4))).toNat = _
  rw [List.take_of_length_le (by simp), leNat_natBytes, ← hmod, BitVec.ofNat_toNat,
    BitVec.setWidth_eq]

theorem word_of_agreeOn {m m' : Mem 32} {a : BitVec 32} (h : AgreeOn m m' a 4)
    (ha : a.toNat + 4 ≤ 2 ^ 32) : m.word a = m'.word a := by
  rw [word, word, read_of_agreeOn h ha]

/-! ## Strings -/

/-- The string that starts at an address, with the zero that ends it. -/
def IsString (m : Mem 32) (a : BitVec 32) (s : List UInt8) : Prop :=
  0 ∉ s ∧ m.read a (s.length + 1) = s ++ [0]

instance (m : Mem 32) (a : BitVec 32) (s : List UInt8) : Decidable (IsString m a s) :=
  inferInstanceAs (Decidable (_ ∧ _))

theorem IsString.of_agreeOn {m m' : Mem 32} {a : BitVec 32} {s : List UInt8} (h : IsString m a s)
    (hagree : AgreeOn m m' a (s.length + 1)) (ha : a.toNat + (s.length + 1) ≤ 2 ^ 32) :
    IsString m' a s :=
  ⟨h.1, (read_of_agreeOn hagree ha).symm.trans h.2⟩

/-- A string that was just stored. -/
theorem isString_write (m : Mem 32) (a : BitVec 32) {s : List UInt8} (hs : 0 ∉ s)
    (hlen : s.length + 1 ≤ 2 ^ 32) : IsString (m.write a (s ++ [0])) a s := by
  have hread := read_write m a (s ++ [0]) (by simpa using hlen)
  rw [List.length_append] at hread
  exact ⟨hs, hread⟩

/-- The part of a string behind its first bytes is a string. -/
theorem IsString.drop {m : Mem 32} {a : BitVec 32} {s : List UInt8} (h : IsString m a s) {n : Nat}
    (hn : n ≤ s.length) : IsString m (a + BitVec.ofNat 32 n) (s.drop n) := by
  refine ⟨fun h0 ↦ h.1 (List.mem_of_mem_drop h0), ?_⟩
  have hread := h.2
  rw [show s.length + 1 = n + (s.length - n + 1) by omega, read_add] at hread
  have hdrop := congrArg (List.drop n) hread
  rw [List.drop_append_of_le_length (by simp), List.drop_of_length_le (by simp),
    List.nil_append, List.drop_append_of_le_length hn] at hdrop
  rw [List.length_drop]
  exact hdrop

theorem IsString.eq_of_length_le {m : Mem 32} {a : BitVec 32} {s s' : List UInt8}
    (h : IsString m a s) (h' : IsString m a s') (hle : s.length ≤ s'.length) : s = s' := by
  have hread := h'.2
  rw [show s'.length + 1 = s.length + 1 + (s'.length - s.length) by omega, read_add, h.2] at hread
  have hstart : s ++ [0] <+: s' ++ [0] := ⟨_, hread⟩
  rcases List.prefix_concat_iff.mp hstart with heq | hinside
  · exact List.append_cancel_right heq
  · exact absurd (hinside.subset (by simp)) h'.1

/-- What starts at an address is one string. -/
theorem IsString.unique {m : Mem 32} {a : BitVec 32} {s s' : List UInt8} (h : IsString m a s)
    (h' : IsString m a s') : s = s' := by
  rcases Nat.le_total s.length s'.length with hle | hle
  · exact h.eq_of_length_le h' hle
  · exact (h'.eq_of_length_le h hle).symm

/-! ## Arrays -/

/-- The strings that an array of pointers leads to, up to its null pointer. -/
def IsStringArray (m : Mem 32) : BitVec 32 → List (List UInt8) → Prop
  | a, [] => m.word a = 0#32
  | a, s :: ss => m.word a ≠ 0#32 ∧ IsString m (m.word a) s ∧ IsStringArray m (a + 4#32) ss

instance decidableIsStringArray (m : Mem 32) :
    ∀ (a : BitVec 32) (ss : List (List UInt8)), Decidable (IsStringArray m a ss)
  | a, [] => inferInstanceAs (Decidable (m.word a = 0#32))
  | a, s :: ss =>
      have := decidableIsStringArray m (a + 4#32) ss
      inferInstanceAs (Decidable (m.word a ≠ 0#32 ∧ IsString m (m.word a) s ∧ _))

/-- Where the pointers and the strings of an array lie. -/
def arrayRanges (m : Mem 32) : BitVec 32 → List (List UInt8) → List (BitVec 32 × Nat)
  | a, [] => [(a, 4)]
  | a, s :: ss => (a, 4) :: (m.word a, s.length + 1) :: arrayRanges m (a + 4#32) ss

/-- An array is determined by the bytes of its ranges. -/
theorem IsStringArray.of_agreeOn {m m' : Mem 32} {a : BitVec 32} {ss : List (List UInt8)}
    (h : IsStringArray m a ss)
    (hranges : ∀ r ∈ arrayRanges m a ss, AgreeOn m m' r.1 r.2 ∧ r.1.toNat + r.2 ≤ 2 ^ 32) :
    IsStringArray m' a ss := by
  induction ss generalizing a with
  | nil =>
    obtain ⟨hagree, ha⟩ := hranges (a, 4) (List.mem_singleton.mpr rfl)
    exact (word_of_agreeOn hagree ha).symm.trans h
  | cons s ss ih =>
    simp only [arrayRanges, List.forall_mem_cons] at hranges
    obtain ⟨⟨hagree, ha⟩, ⟨hstring, hs⟩, hrest⟩ := hranges
    obtain ⟨hne, his, harray⟩ := h
    rw [IsStringArray, ← word_of_agreeOn hagree ha]
    exact ⟨hne, his.of_agreeOn hstring hs, ih harray hrest⟩

theorem arrayRanges_of_agreeOn {m m' : Mem 32} {a : BitVec 32} {ss : List (List UInt8)}
    (hranges : ∀ r ∈ arrayRanges m a ss, AgreeOn m m' r.1 r.2 ∧ r.1.toNat + r.2 ≤ 2 ^ 32) :
    arrayRanges m' a ss = arrayRanges m a ss := by
  induction ss generalizing a with
  | nil => rfl
  | cons s ss ih =>
    simp only [arrayRanges, List.forall_mem_cons] at hranges
    obtain ⟨⟨hagree, ha⟩, -, hrest⟩ := hranges
    rw [arrayRanges, arrayRanges, ← word_of_agreeOn hagree ha, ih hrest]

/-- A copy of a table, cell by cell. -/
theorem cells_of_read_eq {m m' : Mem 32} {a b : BitVec 32} {n : Nat}
    (h : m'.read b (4 * (n + 1 + 1)) = m.read a (4 * (n + 1 + 1))) :
    m'.word b = m.word a ∧ m'.read (b + 4#32) (4 * (n + 1)) = m.read (a + 4#32) (4 * (n + 1)) := by
  rw [Nat.mul_add 4 (n + 1), Nat.add_comm, read_add, read_add] at h
  obtain ⟨hword, hrest⟩ := List.append_inj h (by simp)
  exact ⟨by rw [word, word, hword], hrest⟩

/-- A copy of the table of pointers is an array of the same strings, where these are kept. -/
theorem IsStringArray.relocate {m m' : Mem 32} {a b : BitVec 32} {ss : List (List UInt8)}
    (h : IsStringArray m a ss)
    (htable : m'.read b (4 * (ss.length + 1)) = m.read a (4 * (ss.length + 1)))
    (hranges : ∀ r ∈ arrayRanges m a ss, AgreeOn m m' r.1 r.2 ∧ r.1.toNat + r.2 ≤ 2 ^ 32) :
    IsStringArray m' b ss := by
  induction ss generalizing a b with
  | nil =>
    show m'.word b = 0#32
    rw [word, show m'.read b 4 = m.read a 4 from htable]
    exact h
  | cons s ss ih =>
    obtain ⟨hword, htable⟩ := cells_of_read_eq htable
    simp only [arrayRanges, List.forall_mem_cons] at hranges
    obtain ⟨-, ⟨hstring, hs⟩, hrest⟩ := hranges
    obtain ⟨hne, his, harray⟩ := h
    rw [IsStringArray, hword]
    exact ⟨hne, his.of_agreeOn hstring hs, ih harray htable hrest⟩

/-- The ranges of the copy are its own pointers and the strings of the old array. -/
theorem forall_arrayRanges_relocate {P : BitVec 32 × Nat → Prop} {m m' : Mem 32} {a b : BitVec 32}
    {ss : List (List UInt8)}
    (htable : m'.read b (4 * (ss.length + 1)) = m.read a (4 * (ss.length + 1)))
    (hcells : ∀ i ≤ ss.length, P (b + BitVec.ofNat 32 (4 * i), 4))
    (h : ∀ r ∈ arrayRanges m a ss, P r) : ∀ r ∈ arrayRanges m' b ss, P r := by
  induction ss generalizing a b with
  | nil =>
    rw [arrayRanges, List.forall_mem_singleton]
    simpa using hcells 0 (Nat.le_refl 0)
  | cons s ss ih =>
    obtain ⟨hword, htable⟩ := cells_of_read_eq htable
    simp only [arrayRanges, List.forall_mem_cons] at h ⊢
    obtain ⟨-, hs, hrest⟩ := h
    refine ⟨by simpa using hcells 0 (Nat.zero_le _), by rwa [hword], ih htable ?_ hrest⟩
    intro i hi
    rw [BitVec.add_assoc, ← BitVec.ofNat_add, show 4 + 4 * i = 4 * (i + 1) by omega]
    exact hcells (i + 1) (Nat.succ_le_succ hi)

/-- What an array says is one list of strings. -/
theorem IsStringArray.unique {m : Mem 32} {a : BitVec 32} {ss ss' : List (List UInt8)}
    (h : IsStringArray m a ss) (h' : IsStringArray m a ss') : ss = ss' := by
  induction ss generalizing a ss' with
  | nil =>
    cases ss' with
    | nil => rfl
    | cons s' ss' => exact absurd h h'.1
  | cons s ss ih =>
    cases ss' with
    | nil => exact absurd h' h.1
    | cons s' ss' => rw [h.2.1.unique h'.2.1, ih h.2.2 h'.2.2]

/-! ## Building an array -/

/-- Store strings, each at its address. -/
def writeStrings (m : Mem 32) : List (BitVec 32 × List UInt8) → Mem 32
  | [] => m
  | (a, s) :: rest => writeStrings (m.write a (s ++ [0])) rest

/-- The range of a string that is stored. -/
def stringRange (e : BitVec 32 × List UInt8) : BitVec 32 × Nat := (e.1, e.2.length + 1)

/-- The bytes of a table of pointers. -/
def pointers (addrs : List (BitVec 32)) : List UInt8 := addrs.flatMap fun a ↦ natBytes 4 a.toNat

@[simp] theorem length_pointers (addrs : List (BitVec 32)) :
    (pointers addrs).length = 4 * addrs.length := by
  induction addrs with
  | nil => rfl
  | cons a addrs ih =>
    rw [pointers, List.flatMap_cons, List.length_append, length_natBytes, ← pointers, ih,
      List.length_cons]
    omega

/-- A table of pointers, cell by cell. -/
theorem cells_of_read_pointers {m : Mem 32} {a p : BitVec 32} {addrs : List (BitVec 32)} {n : Nat}
    (h : m.read a (4 * (n + 1)) = pointers (p :: addrs)) :
    m.word a = p ∧ m.read (a + 4#32) (4 * n) = pointers addrs := by
  rw [Nat.mul_add, Nat.add_comm, read_add, pointers, List.flatMap_cons, ← pointers] at h
  obtain ⟨hword, hrest⟩ := List.append_inj h (by simp)
  refine ⟨?_, hrest⟩
  rw [word_of_read hword, BitVec.ofNat_toNat, BitVec.setWidth_eq]

section Building

variable {m : Mem 32} {strings : List (BitVec 32 × List UInt8)}

/-- What is apart from the strings stays. -/
theorem agreeOn_writeStrings {r : BitVec 32 × Nat}
    (hfits : ∀ e ∈ strings, e.1.toNat + (e.2.length + 1) ≤ 2 ^ 32)
    (hapart : ∀ e ∈ strings, Apart r (stringRange e)) :
    AgreeOn m (m.writeStrings strings) r.1 r.2 := by
  induction strings generalizing m with
  | nil => exact fun _ _ _ ↦ rfl
  | cons e strings ih =>
    obtain ⟨hfit, hfits⟩ := List.forall_mem_cons.mp hfits
    obtain ⟨hout, hapart⟩ := List.forall_mem_cons.mp hapart
    have hlen : (e.2 ++ [0]).length = e.2.length + 1 := List.length_append
    refine (agreeOn_write m (by omega) ?_).trans (ih hfits hapart)
    rw [hlen]
    exact hout

/-- Strings that are apart from each other are all there. -/
theorem isString_writeStrings (hzero : ∀ e ∈ strings, 0 ∉ e.2)
    (hfits : ∀ e ∈ strings, e.1.toNat + (e.2.length + 1) ≤ 2 ^ 32)
    (hapart : (strings.map stringRange).Pairwise Apart) :
    ∀ e ∈ strings, IsString (m.writeStrings strings) e.1 e.2 := by
  induction strings generalizing m with
  | nil => exact fun _ h ↦ absurd h List.not_mem_nil
  | cons e strings ih =>
    obtain ⟨hz, hzero⟩ := List.forall_mem_cons.mp hzero
    obtain ⟨hfit, hfits⟩ := List.forall_mem_cons.mp hfits
    rw [List.map_cons, List.pairwise_cons] at hapart
    rw [List.forall_mem_cons]
    refine ⟨?_, ih hzero hfits hapart.2⟩
    have hkept : AgreeOn (m.write e.1 (e.2 ++ [0]))
        ((m.write e.1 (e.2 ++ [0])).writeStrings strings) e.1 (e.2.length + 1) :=
      agreeOn_writeStrings (r := stringRange e) hfits
        fun e' he' ↦ hapart.1 _ (List.mem_map_of_mem he')
    exact (isString_write m e.1 hz (by omega)).of_agreeOn hkept hfit

/-- A table of pointers to strings in front of an array. -/
theorem IsStringArray.prepend {a : BitVec 32} {ss : List (List UInt8)}
    (htable : m.read a (4 * strings.length) = pointers (strings.map Prod.fst))
    (hne : ∀ e ∈ strings, e.1 ≠ 0#32) (hstrings : ∀ e ∈ strings, IsString m e.1 e.2)
    (h : IsStringArray m (a + BitVec.ofNat 32 (4 * strings.length)) ss) :
    IsStringArray m a (strings.map Prod.snd ++ ss) := by
  induction strings generalizing a with
  | nil => simpa using h
  | cons e strings ih =>
    obtain ⟨hnull, hne⟩ := List.forall_mem_cons.mp hne
    obtain ⟨hstring, hstrings⟩ := List.forall_mem_cons.mp hstrings
    obtain ⟨hword, htable⟩ := cells_of_read_pointers htable
    rw [List.map_cons, List.cons_append, IsStringArray, hword]
    refine ⟨hnull, hstring, ih htable hne hstrings ?_⟩
    rw [BitVec.add_assoc, ← BitVec.ofNat_add, Nat.add_comm 4]
    exact h

/-- Its ranges are the pointers, their strings and the ranges of the array behind. -/
theorem forall_arrayRanges_prepend {P : BitVec 32 × Nat → Prop} {a : BitVec 32}
    {ss : List (List UInt8)}
    (htable : m.read a (4 * strings.length) = pointers (strings.map Prod.fst))
    (hcells : ∀ i < strings.length, P (a + BitVec.ofNat 32 (4 * i), 4))
    (hstrings : ∀ e ∈ strings, P (stringRange e))
    (h : ∀ r ∈ arrayRanges m (a + BitVec.ofNat 32 (4 * strings.length)) ss, P r) :
    ∀ r ∈ arrayRanges m a (strings.map Prod.snd ++ ss), P r := by
  induction strings generalizing a with
  | nil => simpa using h
  | cons e strings ih =>
    obtain ⟨hstring, hstrings⟩ := List.forall_mem_cons.mp hstrings
    obtain ⟨hword, htable⟩ := cells_of_read_pointers htable
    rw [List.map_cons, List.cons_append, arrayRanges, hword]
    simp only [List.forall_mem_cons]
    refine ⟨by simpa using hcells 0 (Nat.succ_pos _), hstring, ih htable ?_ hstrings ?_⟩
    · intro i hi
      rw [BitVec.add_assoc, ← BitVec.ofNat_add, show 4 + 4 * i = 4 * (i + 1) by omega]
      exact hcells (i + 1) (Nat.succ_lt_succ hi)
    · rw [BitVec.add_assoc, ← BitVec.ofNat_add, Nat.add_comm 4]
      exact h

/-- A table of pointers, and behind it a copy of the `n` bytes of another one. -/
def writeTable (m : Mem 32) (t : BitVec 32) (addrs : List (BitVec 32)) (a : BitVec 32) (n : Nat) :
    Mem 32 :=
  let m := m.write t (pointers addrs)
  m.write (t + BitVec.ofNat 32 (4 * addrs.length)) (m.read a n)

/-- The bytes of the table. -/
theorem writeTable_eq (m : Mem 32) (t : BitVec 32) (addrs : List (BitVec 32)) (a : BitVec 32)
    {n : Nat} (hfits : 4 * addrs.length + n ≤ 2 ^ 32) :
    m.writeTable t addrs a n =
      m.write t (pointers addrs ++ (m.write t (pointers addrs)).read a n) := by
  have happend := write_append m t (pointers addrs) ((m.write t (pointers addrs)).read a n)
    (by simpa using hfits)
  rwa [length_pointers] at happend

/-- The blocks that a longer array needs: the table and the strings in front. -/
def tableBlocks (t : BitVec 32) (strings : List (BitVec 32 × List UInt8)) (n : Nat) :
    List (BitVec 32 × Nat) :=
  (t, 4 * (strings.length + n + 1)) :: strings.map stringRange

/-- These blocks do not disturb each other or the array. -/
structure Spare (m : Mem 32) (t : BitVec 32) (strings : List (BitVec 32 × List UInt8))
    (a : BitVec 32) (ss : List (List UInt8)) : Prop where
  fits : ∀ r ∈ tableBlocks t strings ss.length, r.1.toNat + r.2 ≤ 2 ^ 32
  apart : (tableBlocks t strings ss.length).Pairwise Apart
  live : ∀ r ∈ arrayRanges m a ss, r.1.toNat + r.2 ≤ 2 ^ 32 ∧
    ∀ b ∈ tableBlocks t strings ss.length, Apart r b

section Spare

variable {t a : BitVec 32} {ss : List (List UInt8)}

theorem Spare.table_fits (h : Spare m t strings a ss) :
    t.toNat + 4 * (strings.length + ss.length + 1) ≤ 2 ^ 32 :=
  h.fits _ List.mem_cons_self

theorem Spare.strings_fit (h : Spare m t strings a ss) :
    ∀ e ∈ strings, e.1.toNat + (e.2.length + 1) ≤ 2 ^ 32 :=
  fun _ he ↦ h.fits _ (List.mem_cons_of_mem _ (List.mem_map_of_mem he))

theorem Spare.table_apart (h : Spare m t strings a ss) {r : BitVec 32 × Nat}
    (hr : r ∈ arrayRanges m a ss ∨ r ∈ strings.map stringRange) : r.1.toNat + r.2 ≤ t.toNat ∨
      t.toNat + 4 * (strings.length + ss.length + 1) ≤ r.1.toNat := by
  rcases hr with hr | hr
  · exact (h.live r hr).2 _ List.mem_cons_self
  · exact ((List.pairwise_cons.mp h.apart).1 r hr).symm

/-- The array is not touched by what is written first. -/
theorem Spare.kept (h : Spare m t strings a ss) : ∀ r ∈ arrayRanges m a ss,
    AgreeOn m ((m.writeStrings strings).write t (pointers (strings.map Prod.fst))) r.1 r.2 ∧
      r.1.toNat + r.2 ≤ 2 ^ 32 := by
  intro r hr
  have hfits := h.table_fits
  have hapart := h.table_apart (.inl hr)
  refine ⟨(agreeOn_writeStrings h.strings_fit fun e he ↦ ?_).trans (agreeOn_write _ ?_ ?_),
    (h.live r hr).1⟩
  · exact (h.live r hr).2 _ (List.mem_cons_of_mem _ (List.mem_map_of_mem he))
  · rw [length_pointers, List.length_map]
    omega
  · rw [length_pointers, List.length_map]
    omega

/-- The longer array: the table leads to the new strings, then to those of the array. -/
theorem Spare.isStringArray (h : Spare m t strings a ss) (hzero : ∀ e ∈ strings, 0 ∉ e.2)
    (hne : ∀ e ∈ strings, e.1 ≠ 0#32) (harray : IsStringArray m a ss)
    {P : BitVec 32 × Nat → Prop}
    (hcells : ∀ i < strings.length + ss.length + 1, P (t + BitVec.ofNat 32 (4 * i), 4))
    (hstrings : ∀ e ∈ strings, P (stringRange e)) (hlive : ∀ r ∈ arrayRanges m a ss, P r) :
    let m' := (m.writeStrings strings).writeTable t (strings.map Prod.fst) a (4 * (ss.length + 1))
    IsStringArray m' t (strings.map Prod.snd ++ ss) ∧
      ∀ r ∈ arrayRanges m' t (strings.map Prod.snd ++ ss), P r := by
  have hfits := h.table_fits
  have hlen : (pointers (strings.map Prod.fst)).length = 4 * strings.length := by simp
  have hkept := h.kept
  have heq := writeTable_eq (m.writeStrings strings) t (strings.map Prod.fst) a
    (n := 4 * (ss.length + 1)) (by rw [List.length_map]; omega)
  dsimp only
  generalize hm₂ : (m.writeStrings strings).write t (pointers (strings.map Prod.fst)) = m₂
    at hkept heq
  generalize hm' : (m.writeStrings strings).writeTable t (strings.map Prod.fst) a
    (4 * (ss.length + 1)) = m' at heq
  -- what the table holds
  have hread := read_write (m.writeStrings strings) t
    (pointers (strings.map Prod.fst) ++ m₂.read a (4 * (ss.length + 1))) (by
      rw [List.length_append, hlen, length_read]
      omega)
  rw [← heq] at hread
  obtain ⟨hpointers, hrest⟩ := read_eq_append List.length_append hread
  rw [hlen] at hpointers hrest
  rw [length_read] at hrest
  -- the old array behind the new pointers
  have hbehind : (t + BitVec.ofNat 32 (4 * strings.length)).toNat =
      t.toNat + 4 * strings.length := toNat_add_ofNat (by omega)
  have hcopy : m' = m₂.write (t + BitVec.ofNat 32 (4 * strings.length))
      (m₂.read a (4 * (ss.length + 1))) := by
    rw [← hm', writeTable, List.length_map, hm₂]
  have harray₂ := harray.of_agreeOn hkept
  have hranges := arrayRanges_of_agreeOn hkept
  have hagree₂ : ∀ r ∈ arrayRanges m₂ a ss,
      AgreeOn m₂ m' r.1 r.2 ∧ r.1.toNat + r.2 ≤ 2 ^ 32 := by
    rw [hranges]
    intro r hr
    have hapart := h.table_apart (.inl hr)
    refine ⟨?_, (h.live r hr).1⟩
    rw [hcopy]
    refine agreeOn_write _ ?_ ?_
    · rw [length_read]
      omega
    · rw [length_read]
      omega
  -- the strings in front
  have hstring : ∀ e ∈ strings, IsString m' e.1 e.2 := by
    intro e he
    have hapart : e.1.toNat + (e.2.length + 1) ≤ t.toNat ∨
        t.toNat + 4 * (strings.length + ss.length + 1) ≤ e.1.toNat :=
      h.table_apart (.inr (List.mem_map_of_mem he))
    have hstored := @isString_writeStrings m strings hzero h.strings_fit
      (List.pairwise_cons.mp h.apart).2 e he
    refine hstored.of_agreeOn ?_ (h.strings_fit e he)
    rw [heq]
    refine agreeOn_write _ ?_ ?_
    · rw [List.length_append, hlen, length_read]
      omega
    · rw [List.length_append, hlen, length_read]
      omega
  constructor
  · exact IsStringArray.prepend hpointers hne hstring (harray₂.relocate hrest hagree₂)
  · refine forall_arrayRanges_prepend hpointers (fun i hi ↦ hcells i (by omega)) hstrings
      (forall_arrayRanges_relocate hrest ?_ (by rwa [hranges]))
    intro i hi
    rw [BitVec.add_assoc, ← BitVec.ofNat_add, ← Nat.mul_add]
    exact hcells (strings.length + i) (by omega)

end Spare

end Building

end Mem
end Keow.Base
