import Mathlib.Algebra.Order.Ring.Int
import Mathlib.Data.List.Basic
import Mathlib.Logic.Function.Basic
import Mathlib.Tactic.Common

/-!
# The string class

`string` of `String.cpp`: a buffer, the length of the text and the capacity. The capacity grows in
blocks of 1024 bytes, first for the text and then for the NUL behind it, and only the text is
carried over to a new buffer, whose other bytes are whatever its memory held. A store that does not
end below the capacity has no result. Lengths are natural numbers: a process has too little memory
for an `int` of them to overflow, apart from the sum in `substr`.
-/

namespace Keow.Kernel

universe u

/-- `string`, with a null pointer as `none`. -/
structure CharString where
  pChars : Option (List UInt8)
  len : Nat
  capacity : Nat

/-- `strlen` of the bytes at a pointer. -/
def strlen (str : List UInt8) : Nat := (str.takeWhile (· ≠ 0)).length

/-- The bytes from `pos` on replaced by others. -/
def overwrite (bytes : List UInt8) (pos : Nat) (new : List UInt8) : List UInt8 :=
  bytes.take pos ++ new ++ bytes.drop (pos + new.length)

namespace CharString

/-- `string::string()`, `String.cpp:34–38`. -/
def new : CharString := ⟨none, 0, 0⟩

/-- The bytes of the buffer. -/
def chars (s : CharString) : List UInt8 := s.pChars.getD []

/-- The first `m_nLen` characters. -/
def text (s : CharString) : List UInt8 := s.chars.take s.len

/-- `memcpy(&m_pChars[pos], bytes, ..)`. -/
def store (s : CharString) (pos : Nat) (bytes : List UInt8) : Option CharString :=
  if bytes = [] then some s
  else if pos + bytes.length ≤ s.capacity then
    s.pChars.map fun p ↦ { s with pChars := some (overwrite p pos bytes) }
  else none

/-- `while(m_nCapacity < size) m_nCapacity += 1024`. -/
def grow (size capacity : Nat) : Nat :=
  if capacity < size then grow size (capacity + 1024) else capacity
termination_by size - capacity
decreasing_by omega

/-- `string::reserve`, `String.cpp:73–88`. The new buffer holds `raw` before the text is copied. -/
def reserve (s : CharString) (raw : Nat → UInt8) (size : Nat) : Option CharString :=
  if size ≤ s.capacity then some s
  else
    let capacity := grow size s.capacity
    store { s with pChars := some ((List.range capacity).map raw), capacity := capacity } 0 s.text

/-- `string::null_terminate`, `String.cpp:55–59`. -/
def nullTerminate (s : CharString) (raw : Nat → UInt8) : Option CharString := do
  let s ← s.reserve raw (s.len + 1)
  s.store s.len [0]

/-- `string::empty`, `String.cpp:61–64`. -/
def isEmpty (s : CharString) : Bool := s.pChars.isNone || s.len == 0

/-- What assignments and appends end with: copy the text to `pos`, set the length and terminate. -/
def setText (s : CharString) (raw : Nat → UInt8) (pos : Nat) (bytes : List UInt8) (len : Nat) :
    Option CharString := do
  let s ← s.store pos bytes
  nullTerminate { s with len := len } raw

/-! The operations, each with what the memory of its first and of its second new buffer held. -/

variable (raw : Bool → Nat → UInt8)

/-- `operator=(const char*)`, `String.cpp:145–153`. -/
def assignChars (s : CharString) (str : List UInt8) : Option CharString := do
  let len := strlen str
  let s ← s.reserve (raw false) len
  s.setText (raw true) 0 (str.take len) len

/-- `operator=(const string&)`, `String.cpp:154–162`. -/
def assign (s str : CharString) : Option CharString := do
  let s ← s.reserve (raw false) str.len
  s.setText (raw true) 0 str.text str.len

/-- `string::string(const char*)`, `String.cpp:45–50`. -/
def ofChars (str : List UInt8) : Option CharString := new.assignChars raw str

/-- `string::string(const string&)`, `String.cpp:39–44`. -/
def copy (str : CharString) : Option CharString := new.assign raw str

/-- `operator+=(char)`, `String.cpp:96–103`. -/
def appendChar (s : CharString) (c : UInt8) : Option CharString := do
  let s ← s.reserve (raw false) (s.len + 2)
  s.setText (raw true) s.len [c] (s.len + 1)

/-- `operator+=(const char*)`, `String.cpp:104–112`. -/
def appendChars (s : CharString) (str : List UInt8) : Option CharString := do
  let len := strlen str
  let s ← s.reserve (raw false) (s.len + len)
  s.setText (raw true) s.len (str.take len) (s.len + len)

/-- `operator+=(const string&)`, `String.cpp:113–122`. -/
def append (s str : CharString) : Option CharString :=
  if str.isEmpty then some s
  else do
    let s ← s.reserve (raw false) (s.len + str.len)
    s.setText (raw true) s.len str.text (s.len + str.len)

/-- `string::substr`, `String.cpp:164–179`, whose sum is an `int`. -/
def substr (s : CharString) (pos len : Nat) : Option CharString :=
  if pos < s.len then do
    let len := if (s.len : Int) < ((pos + len : Nat) : Int).bmod (2 ^ 32) then s.len - pos else len
    let t ← new.reserve (raw false) len
    t.setText (raw true) 0 ((s.chars.drop pos).take len) len
  else some new

/-- The loop of `string::find`. -/
def findLoop (bytes : List UInt8) (c : UInt8) : Nat → Nat → Int
  | 0, _ => -1
  | turns + 1, n => if bytes[n]? = some c then n else findLoop bytes c turns (n + 1)

/-- `string::find`, `String.cpp:129–140`. -/
def find (s : CharString) (c : UInt8) (pos : Nat) : Int :=
  if s.isEmpty then -1 else findLoop s.chars c (s.len - pos) pos

/-- The buffer has the size that is noted, and begins with the text. -/
structure Holds (s : CharString) (text : List UInt8) : Prop where
  chars : ∃ rest, s.chars = text ++ rest
  len : s.len = text.length
  capacity : s.chars.length = s.capacity

/-- There is a NUL behind the text, and room for it. -/
def Terminated (s : CharString) : Prop :=
  s.len + 1 ≤ s.capacity ∧ s.chars[s.len]? = some 0

/-! ## One operation -/

variable {raw : Bool → Nat → UInt8}

theorem overwrite_append (pre rest new : List UInt8) :
    overwrite (pre ++ rest) pre.length new = pre ++ new ++ rest.drop new.length := by
  rw [overwrite, List.take_left, List.drop_length_add_append]

theorem le_grow (size capacity : Nat) :
    size ≤ grow size capacity ∧ capacity ≤ grow size capacity := by
  fun_induction grow size capacity with
  | case1 capacity h ih => exact ⟨ih.1, by omega⟩
  | case2 capacity h => exact ⟨by omega, Nat.le_refl _⟩

theorem Holds.text_eq {s : CharString} {text : List UInt8} (h : s.Holds text) : s.text = text := by
  obtain ⟨rest, hchars⟩ := h.chars
  rw [CharString.text, hchars, h.len, List.take_left]

theorem Holds.len_le {s : CharString} {text : List UInt8} (h : s.Holds text) :
    s.len ≤ s.capacity := by
  obtain ⟨rest, hchars⟩ := h.chars
  rw [← h.capacity, hchars, h.len, List.length_append]
  omega

theorem holds_new : new.Holds [] := ⟨⟨[], rfl⟩, rfl, rfl⟩

theorem isEmpty_iff {s : CharString} {text : List UInt8} (h : s.Holds text) :
    s.isEmpty = true ↔ text = [] := by
  have hzero : s.len = 0 ↔ text = [] := by rw [h.len, List.length_eq_zero_iff]
  rw [isEmpty, Bool.or_eq_true, beq_iff_eq, hzero]
  constructor
  · rintro (hnull | htext)
    · have hcapacity := h.capacity
      have hle := h.len_le
      rw [CharString.chars, Option.isNone_iff_eq_none.mp hnull] at hcapacity
      apply hzero.mp
      rw [← hcapacity] at hle
      exact Nat.le_zero.mp hle
    · exact htext
  · exact .inr

/-- What fits goes between what precedes it and the bytes that it does not reach. -/
theorem store_eq {s : CharString} {pre rest bytes : List UInt8} (hchars : s.chars = pre ++ rest)
    (hcapacity : s.chars.length = s.capacity) (hroom : bytes.length ≤ rest.length) :
    ∃ s', s.store pre.length bytes = some s' ∧
      s'.chars = pre ++ bytes ++ rest.drop bytes.length ∧ s'.len = s.len ∧
      s'.capacity = s.capacity := by
  by_cases hbytes : bytes = []
  · refine ⟨s, if_pos hbytes, ?_, rfl, rfl⟩
    rw [hbytes, hchars, List.append_nil, List.length_nil, List.drop_zero]
  · have hfits : pre.length + bytes.length ≤ s.capacity := by
      rw [← hcapacity, hchars, List.length_append]
      omega
    have hpos := List.length_pos_iff.mpr hbytes
    cases hp : s.pChars with
    | none =>
      rw [CharString.chars, hp] at hcapacity
      rw [← hcapacity] at hfits
      simp at hfits
      exact absurd hfits.2 hbytes
    | some p =>
      rw [CharString.chars, hp, Option.getD_some] at hchars
      refine ⟨{ s with pChars := some (overwrite p pre.length bytes) }, ?_, ?_, rfl, rfl⟩
      · rw [store, if_neg hbytes, if_pos hfits, hp]
        rfl
      · show overwrite p pre.length bytes = _
        rw [hchars, overwrite_append]

theorem holds_reserve {s : CharString} {text : List UInt8} (h : s.Holds text)
    (raw : Nat → UInt8) (size : Nat) :
    ∃ s', s.reserve raw size = some s' ∧ s'.Holds text ∧ size ≤ s'.capacity := by
  by_cases hsize : size ≤ s.capacity
  · exact ⟨s, if_pos hsize, h, hsize⟩
  · obtain ⟨hle, hcapacity⟩ := le_grow size s.capacity
    have hlen := h.len_le
    have hfresh : CharString.chars ⟨some ((List.range (grow size s.capacity)).map raw), s.len,
        grow size s.capacity⟩ = [] ++ (List.range (grow size s.capacity)).map raw := rfl
    have hroom : s.text.length ≤ ((List.range (grow size s.capacity)).map raw).length := by
      rw [h.text_eq, ← h.len, List.length_map, List.length_range]
      omega
    obtain ⟨s', hstore, hchars, hlen', hcapacity'⟩ := store_eq hfresh (by simp [hfresh]) hroom
    refine ⟨s', ?_, ?_, ?_⟩
    · rw [reserve, if_neg hsize]
      exact hstore
    · constructor
      · exact ⟨_, by rw [hchars, List.nil_append, h.text_eq]⟩
      · rw [hlen', h.len]
      · rw [hchars, hcapacity', List.nil_append, List.length_append, List.length_drop]
        rw [List.length_map, List.length_range] at hroom ⊢
        show _ = grow size s.capacity
        omega
    · rw [hcapacity']
      exact hle

theorem holds_nullTerminate {s : CharString} {text : List UInt8} (h : s.Holds text)
    (raw : Nat → UInt8) :
    ∃ s', s.nullTerminate raw = some s' ∧ s'.Holds text ∧ s'.Terminated := by
  obtain ⟨s₁, hreserve, h₁, hroom⟩ := holds_reserve h raw (s.len + 1)
  obtain ⟨rest, hchars⟩ := h₁.chars
  have hlen : s₁.len = s.len := by rw [h₁.len, h.len]
  have hrest : [(0 : UInt8)].length ≤ rest.length := by
    have hcapacity := h₁.capacity
    rw [hchars, List.length_append, ← h₁.len, hlen] at hcapacity
    rw [List.length_singleton]
    omega
  obtain ⟨s₂, hstore, hchars₂, hlen₂, hcapacity₂⟩ := store_eq hchars h₁.capacity hrest
  refine ⟨s₂, ?_, ?_, ?_, ?_⟩
  · rw [nullTerminate, hreserve]
    show s₁.store s₁.len [0] = _
    rw [h₁.len, hstore]
  · constructor
    · exact ⟨_, by rw [hchars₂, List.append_assoc]⟩
    · rw [hlen₂, h₁.len]
    · rw [hcapacity₂, ← h₁.capacity, hchars₂, hchars]
      simp only [List.length_append, List.length_drop] at hrest ⊢
      omega
  · rw [hlen₂, hcapacity₂, hlen]
    exact hroom
  · rw [hchars₂, hlen₂, h₁.len, List.append_assoc, List.getElem?_append_right (Nat.le_refl _),
      Nat.sub_self]
    rfl

/-- Where a part of the text stays and there is room behind it, the new characters follow it. -/
theorem holds_setText {s : CharString} {pre rest bytes : List UInt8}
    (hchars : s.chars = pre ++ rest) (hcapacity : s.chars.length = s.capacity)
    (hroom : pre.length + bytes.length ≤ s.capacity) (raw : Nat → UInt8) :
    ∃ s', s.setText raw pre.length bytes (pre.length + bytes.length) = some s' ∧
      s'.Holds (pre ++ bytes) ∧ s'.Terminated := by
  have hrest : bytes.length ≤ rest.length := by
    rw [← hcapacity, hchars, List.length_append] at hroom
    omega
  obtain ⟨s₁, hstore, hchars₁, -, hcapacity₁⟩ := store_eq hchars hcapacity hrest
  have h₁ : Holds { s₁ with len := pre.length + bytes.length } (pre ++ bytes) := by
    constructor
    · exact ⟨_, hchars₁⟩
    · exact (List.length_append).symm
    · show s₁.chars.length = s₁.capacity
      rw [hcapacity₁, ← hcapacity, hchars₁, hchars]
      simp only [List.length_append, List.length_drop]
      omega
  obtain ⟨s₂, hterminate, h₂⟩ := holds_nullTerminate h₁ raw
  exact ⟨s₂, by rw [setText, hstore]; exact hterminate, h₂⟩

/-- Making room and writing a text from the start. -/
theorem holds_replace {s : CharString} {text : List UInt8} (h : s.Holds text)
    (raw : Bool → Nat → UInt8) (bytes : List UInt8) {len : Nat} (hlen : bytes.length = len) :
    ∃ s', (do
        let s ← s.reserve (raw false) len
        s.setText (raw true) 0 bytes len) = some s' ∧ s'.Holds bytes ∧ s'.Terminated := by
  subst hlen
  obtain ⟨s₁, hreserve, h₁, hroom⟩ := holds_reserve h (raw false) bytes.length
  obtain ⟨s₂, hset, h₂⟩ := holds_setText (List.nil_append s₁.chars).symm h₁.capacity
    (by simpa using hroom) (raw true)
  refine ⟨s₂, ?_, by simpa using h₂⟩
  rw [hreserve]
  simpa using hset

/-- Making room, at least what is needed, and writing behind the text. -/
theorem holds_extend {s : CharString} {text : List UInt8} (h : s.Holds text)
    (raw : Bool → Nat → UInt8) (bytes : List UInt8) {size len : Nat} (hlen : bytes.length = len)
    (hsize : s.len + len ≤ size) :
    ∃ s', (do
        let s ← s.reserve (raw false) size
        s.setText (raw true) s.len bytes (s.len + len)) = some s' ∧
      s'.Holds (text ++ bytes) ∧ s'.Terminated := by
  subst hlen
  obtain ⟨s₁, hreserve, h₁, hroom⟩ := holds_reserve h (raw false) size
  obtain ⟨rest, hchars⟩ := h₁.chars
  have hfits : text.length + bytes.length ≤ s₁.capacity := by
    rw [← h.len]
    exact Nat.le_trans hsize hroom
  obtain ⟨s₂, hset, h₂⟩ := holds_setText hchars h₁.capacity hfits (raw true)
  refine ⟨s₂, ?_, h₂⟩
  rw [hreserve]
  show s₁.setText (raw true) s₁.len bytes (s₁.len + bytes.length) = _
  rw [h₁.len, hset]

/-! ## The text of each operation -/

/-- The text at a pointer, up to its NUL. -/
def cText (str : List UInt8) : List UInt8 := str.takeWhile (· ≠ 0)

theorem take_strlen (str : List UInt8) : str.take (strlen str) = cText str :=
  (List.prefix_iff_eq_take.mp (List.takeWhile_prefix _)).symm

theorem length_cText (str : List UInt8) : (cText str).length = strlen str := rfl

theorem holds_assignChars {s : CharString} {text : List UInt8} (h : s.Holds text)
    (raw : Bool → Nat → UInt8) (str : List UInt8) :
    ∃ s', s.assignChars raw str = some s' ∧ s'.Holds (cText str) ∧ s'.Terminated := by
  have hset := holds_replace h raw (cText str) (length_cText str)
  rw [← take_strlen] at hset
  rw [← take_strlen]
  exact hset

theorem holds_assign {s str : CharString} {text other : List UInt8} (h : s.Holds text)
    (hstr : str.Holds other) (raw : Bool → Nat → UInt8) :
    ∃ s', s.assign raw str = some s' ∧ s'.Holds other ∧ s'.Terminated := by
  have hset := holds_replace h raw other hstr.len.symm
  rw [← hstr.text_eq] at hset ⊢
  exact hset

theorem holds_appendChar {s : CharString} {text : List UInt8} (h : s.Holds text)
    (raw : Bool → Nat → UInt8) (c : UInt8) :
    ∃ s', s.appendChar raw c = some s' ∧ s'.Holds (text ++ [c]) ∧ s'.Terminated :=
  holds_extend h raw [c] rfl (by omega)

theorem holds_appendChars {s : CharString} {text : List UInt8} (h : s.Holds text)
    (raw : Bool → Nat → UInt8) (str : List UInt8) :
    ∃ s', s.appendChars raw str = some s' ∧ s'.Holds (text ++ cText str) ∧ s'.Terminated := by
  have hset := holds_extend h raw (cText str) (length_cText str) (Nat.le_refl _)
  rw [← take_strlen] at hset
  rw [← take_strlen]
  exact hset

theorem holds_append {s str : CharString} {text other : List UInt8} (h : s.Holds text)
    (hstr : str.Holds other) (raw : Bool → Nat → UInt8) :
    ∃ s', s.append raw str = some s' ∧ s'.Holds (text ++ other) ∧
      (other ≠ [] → s'.Terminated) := by
  by_cases hempty : str.isEmpty = true
  · have hnil := (isEmpty_iff hstr).mp hempty
    exact ⟨s, if_pos hempty, by rwa [hnil, List.append_nil], fun hne ↦ absurd hnil hne⟩
  · obtain ⟨s', hset, hs', hterminated⟩ := holds_extend h raw other hstr.len.symm (Nat.le_refl _)
    refine ⟨s', ?_, hs', fun _ ↦ hterminated⟩
    rw [append, if_neg hempty, hstr.text_eq]
    exact hset

/-- With a sum that is an `int`, `substr` copies what lies at the place of the text. -/
theorem holds_substr {s : CharString} {text : List UInt8} (h : s.Holds text)
    (raw : Bool → Nat → UInt8) {pos len : Nat} (hint : pos + len < 2 ^ 31) :
    ∃ t, s.substr raw pos len = some t ∧ t.Holds ((text.drop pos).take len) := by
  by_cases hpos : pos < s.len
  · obtain ⟨rest, hchars⟩ := h.chars
    have hsum : ((pos + len : Nat) : Int).bmod (2 ^ 32) = (pos + len : Nat) :=
      Int.bmod_eq_of_le (by omega) (by omega)
    have hlen := h.len
    -- what is taken from the buffer does not reach behind the text
    have hcopy : ((s.chars.drop pos).take
        (if (s.len : Int) < ((pos + len : Nat) : Int) then s.len - pos else len)) =
          (text.drop pos).take len := by
      rw [hchars, List.drop_append_of_le_length (by omega)]
      split
      · rw [List.take_append_of_le_length (by rw [List.length_drop]; omega),
          List.take_of_length_le (by rw [List.length_drop]; omega),
          List.take_of_length_le (by rw [List.length_drop]; omega)]
      · rw [List.take_append_of_le_length (by rw [List.length_drop]; omega)]
    have hlength : ((text.drop pos).take len).length =
        if (s.len : Int) < ((pos + len : Nat) : Int) then s.len - pos else len := by
      rw [List.length_take, List.length_drop]
      split <;> omega
    obtain ⟨t, hset, ht, -⟩ := holds_replace holds_new raw _ hlength
    refine ⟨t, ?_, ht⟩
    rw [substr, if_pos hpos, hsum]
    show (do
      let t ← new.reserve (raw false) _
      t.setText (raw true) 0 _ _) = _
    rw [hcopy]
    exact hset
  · refine ⟨new, if_neg hpos, ?_⟩
    rw [h.len] at hpos
    rw [List.drop_of_length_le (by omega), List.take_nil]
    exact holds_new

/-- `find` on a list of characters. -/
def indexFrom (text : List UInt8) (c : UInt8) (pos : Nat) : Int :=
  match (text.drop pos).idxOf? c with
  | some k => (pos + k : Nat)
  | none => -1

theorem findLoop_eq {bytes text rest : List UInt8} (hbytes : bytes = text ++ rest) (c : UInt8) :
    ∀ turns pos, turns + pos = text.length → findLoop bytes c turns pos = indexFrom text c pos := by
  intro turns
  induction turns with
  | zero =>
    intro pos hpos
    rw [findLoop, indexFrom, List.drop_of_length_le (by omega)]
    rfl
  | succ turns ih =>
    intro pos hpos
    have hlt : pos < text.length := by omega
    have hget : bytes[pos]? = some text[pos] := by
      rw [hbytes, List.getElem?_append_left hlt, List.getElem?_eq_getElem hlt]
    rw [findLoop, hget, indexFrom, List.drop_eq_getElem_cons hlt, List.idxOf?_cons]
    by_cases hc : text[pos] = c
    · simp [hc]
    · rw [if_neg (by simpa using hc), ih (pos + 1) (by omega), indexFrom,
        if_neg (by simpa using hc)]
      cases (text.drop (pos + 1)).idxOf? c with
      | none => rfl
      | some k =>
        show ((pos + 1 + k : Nat) : Int) = (pos + (k + 1) : Nat)
        rw [Nat.add_assoc, Nat.add_comm 1 k]

theorem find_eq {s : CharString} {text : List UInt8} (h : s.Holds text) (c : UInt8) (pos : Nat) :
    s.find c pos = indexFrom text c pos := by
  by_cases hempty : s.isEmpty = true
  · rw [find, if_pos hempty, (isEmpty_iff h).mp hempty, indexFrom, List.drop_nil]
    rfl
  · obtain ⟨rest, hchars⟩ := h.chars
    rw [find, if_neg hempty, h.len]
    by_cases hpos : pos ≤ text.length
    · exact findLoop_eq hchars c _ pos (by omega)
    · have hnone : text.length - pos = 0 := by omega
      rw [hnone, findLoop, indexFrom, List.drop_of_length_le (by omega)]
      rfl

end CharString

/-! ## Runs -/

variable {ι : Type u}

/-- What is done to a string. A `char*` comes with the bytes it points to, other strings by name;
`substr` puts its result in the place of the string. -/
inductive StringOp (ι : Type u) where
  | new
  | ofChars (str : List UInt8)
  | copy (other : ι)
  | assignChars (str : List UInt8)
  | assign (other : ι)
  | appendChar (c : UInt8)
  | appendChars (str : List UInt8)
  | append (other : ι)
  | substr (other : ι) (pos len : Nat)

namespace StringOp

/-- What the operation makes of string `i`. -/
def run (raw : Bool → Nat → UInt8) (strings : ι → CharString) (i : ι) :
    StringOp ι → Option CharString
  | new => some .new
  | ofChars str => CharString.ofChars raw str
  | copy other => CharString.copy raw (strings other)
  | assignChars str => (strings i).assignChars raw str
  | assign other => (strings i).assign raw (strings other)
  | appendChar c => (strings i).appendChar raw c
  | appendChars str => (strings i).appendChars raw str
  | append other => (strings i).append raw (strings other)
  | substr other pos len => (strings other).substr raw pos len

/-- A `char*` points to a text with a NUL, another string is not the same one, and the place and the
length of a part add up to an `int`. -/
def Allowed (i : ι) : StringOp ι → Prop
  | ofChars str | assignChars str | appendChars str => 0 ∈ str
  | copy other | assign other | append other => other ≠ i
  | substr _ pos len => pos + len < 2 ^ 31
  | new | appendChar _ => True

/-- The same operation on texts. -/
def onTexts (texts : ι → List UInt8) (i : ι) : StringOp ι → List UInt8
  | new => []
  | ofChars str | assignChars str => CharString.cText str
  | copy other | assign other => texts other
  | appendChar c => texts i ++ [c]
  | appendChars str => texts i ++ CharString.cText str
  | append other => texts i ++ texts other
  | substr other pos len => ((texts other).drop pos).take len

/-- An assignment, or an append of a text that is not empty. -/
def Writes (texts : ι → List UInt8) : StringOp ι → Prop
  | ofChars _ | copy _ | assignChars _ | assign _ | appendChar _ => True
  | appendChars str => CharString.cText str ≠ []
  | append other => texts other ≠ []
  | new | substr _ _ _ => False

end StringOp

/-- The strings that a run of allowed operations leads to, with the texts that the same operations
lead to. -/
inductive StringRun [DecidableEq ι] : (ι → CharString) → (ι → List UInt8) → Prop
  | start : StringRun (fun _ ↦ .new) fun _ ↦ []
  | step {strings : ι → CharString} {texts : ι → List UInt8} {i : ι} {op : StringOp ι}
      {raw : Bool → Nat → UInt8} {s : CharString} : StringRun strings texts → op.Allowed i →
      op.run raw strings i = some s →
      StringRun (Function.update strings i s) (Function.update texts i (op.onTexts texts i))

namespace CharString

theorem holds_run {strings : ι → CharString} {texts : ι → List UInt8}
    (h : ∀ i, (strings i).Holds (texts i)) (raw : Bool → Nat → UInt8) {i : ι} {op : StringOp ι}
    (hop : op.Allowed i) :
    ∃ s, op.run raw strings i = some s ∧ s.Holds (op.onTexts texts i) ∧
      (op.Writes texts → s.Terminated) := by
  have hdone : ∀ {r : Option CharString} {text : List UInt8},
      (∃ s, r = some s ∧ s.Holds text ∧ s.Terminated) →
      ∃ s, r = some s ∧ s.Holds text ∧ (op.Writes texts → s.Terminated) :=
    fun ⟨s, hs⟩ ↦ ⟨s, hs.1, hs.2.1, fun _ ↦ hs.2.2⟩
  cases op with
  | new => exact ⟨_, rfl, holds_new, False.elim⟩
  | ofChars str => exact hdone (holds_assignChars holds_new raw str)
  | copy other => exact hdone (holds_assign holds_new (h other) raw)
  | assignChars str => exact hdone (holds_assignChars (h i) raw str)
  | assign other => exact hdone (holds_assign (h i) (h other) raw)
  | appendChar c => exact hdone (holds_appendChar (h i) raw c)
  | appendChars str => exact hdone (holds_appendChars (h i) raw str)
  | append other => exact holds_append (h i) (h other) raw
  | substr other pos len =>
    obtain ⟨t, hsubstr, ht⟩ := holds_substr (h other) raw hop
    exact ⟨t, hsubstr, ht, False.elim⟩

theorem holds_of_run [DecidableEq ι] {strings : ι → CharString} {texts : ι → List UInt8}
    (h : StringRun strings texts) (i : ι) : (strings i).Holds (texts i) := by
  induction h generalizing i with
  | start => exact holds_new
  | @step strings texts j op raw s _ hop hrun ih =>
    obtain ⟨s', hrun', hs, -⟩ := holds_run ih raw hop
    obtain rfl : s = s' := Option.some.inj (hrun.symm.trans hrun')
    by_cases hij : i = j
    · subst hij
      rwa [Function.update_self, Function.update_self]
    · rw [Function.update_of_ne hij, Function.update_of_ne hij]
      exact ih i

/-- In every run each string has the text that the same operations make of lists of characters and
finds characters where they are in it; the next operation stores nothing at or above the capacity,
and if it assigns or appends something, there is room for a NUL, and a NUL. -/
theorem text_of_run [DecidableEq ι] {strings : ι → CharString} {texts : ι → List UInt8}
    (h : StringRun strings texts) :
    (∀ i, (strings i).len = (texts i).length ∧ (strings i).text = texts i ∧
      ∀ c pos, (strings i).find c pos = indexFrom (texts i) c pos) ∧
    ∀ (raw : Bool → Nat → UInt8) (i : ι) (op : StringOp ι), op.Allowed i →
      ∃ s, op.run raw strings i = some s ∧ (op.Writes texts → s.Terminated) := by
  constructor
  · intro i
    have hi := holds_of_run h i
    exact ⟨hi.len, hi.text_eq, find_eq hi⟩
  · intro raw i op hop
    obtain ⟨s, hrun, -, hterminated⟩ := holds_run (holds_of_run h) raw hop
    exact ⟨s, hrun, hterminated⟩

end CharString

/-- An allowed operation leads on. -/
theorem StringRun.next [DecidableEq ι] {strings : ι → CharString} {texts : ι → List UInt8}
    (h : StringRun strings texts) (raw : Bool → Nat → UInt8) (i : ι) (op : StringOp ι)
    (hop : op.Allowed i) :
    ∃ s, StringRun (Function.update strings i s)
      (Function.update texts i (op.onTexts texts i)) := by
  obtain ⟨s, hrun, -, -⟩ := CharString.holds_run (CharString.holds_of_run h) raw hop
  exact ⟨s, h.step hop hrun⟩

/-- `"ab"` is assigned to a string and appended to an empty one, and then cut down to its `"b"`. -/
theorem text_of_ab : ∃ strings : Bool → CharString,
    ((strings false).text = [0x61, 0x62] ∧ (strings false).find 0x62 0 = 1) ∧
      (strings true).text = [0x62] := by
  have raw : Bool → Nat → UInt8 := fun _ _ ↦ 0xCC
  obtain ⟨s₁, h₁⟩ := (StringRun.start : StringRun (fun _ : Bool ↦ .new) _).next raw true
    (.assignChars [0x61, 0x62, 0x00]) (show 0 ∈ [0x61, 0x62, (0x00 : UInt8)] by decide)
  obtain ⟨s₂, h₂⟩ := h₁.next raw false (.append true) (fun h ↦ Bool.noConfusion h)
  obtain ⟨s₃, h₃⟩ := h₂.next raw true (.substr true 1 1) (show 1 + 1 < 2 ^ 31 by decide)
  have hfalse := (CharString.text_of_run h₃).1 false
  have htrue := (CharString.text_of_run h₃).1 true
  exact ⟨_, ⟨hfalse.2.1, hfalse.2.2 0x62 0⟩, htrue.2.1⟩

end Keow.Kernel
