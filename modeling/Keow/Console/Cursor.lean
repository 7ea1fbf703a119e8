import Keow.Console.Sequence

/-!
# Cursor sequences

`ESC [ n A` to `ESC [ n D`, the column sequence and `ESC [ r ; c H`. Whether a sequence has
parameters is read off the element that counts separators, so that one parameter looks like none,
and the numbers that arrive are bytes.
-/

namespace Keow.Console

/-- Where `ESC [ n A` to `ESC [ n D` move. -/
inductive Direction where
  | up
  | down
  | right
  | left
deriving DecidableEq

namespace Direction

/-- `A` to `D`. -/
def final : Direction → UInt8
  | up => 0x41
  | down => 0x42
  | right => 0x43
  | left => 0x44

/-- The position this far away. -/
def move (d : Direction) (pos : Coord) (n : BitVec 16) : Coord :=
  match d with
  | up => ⟨pos.x, pos.y - n⟩
  | down => ⟨pos.x, pos.y + n⟩
  | right => ⟨pos.x + n, pos.y⟩
  | left => ⟨pos.x - n, pos.y⟩

theorem isFinal_final (d : Direction) : isFinal d.final = true := by
  cases d <;> rfl

theorem move_inj (d : Direction) (pos : Coord) {m n : BitVec 16} :
    d.move pos m = d.move pos n ↔ m = n := by
  cases d <;> simp [move]

theorem bracketCall_final (d : Direction) (s : Screen) (t : Cons25) :
    bracketCall s t d.final =
      some (.setConsoleCursorPosition (d.move s.cursorPosition (distance t))) := by
  cases d <;> rfl

end Direction

/-- A parameter, counted from 1 when it is absent. -/
def Param.ordinal (p : Param) : Nat := if p = [] then 1 else p.value

/-- The sequences that move the cursor. -/
inductive CursorSequence where
  /-- `ESC [ n A` to `ESC [ n D`. -/
  | move (direction : Direction) (n : Param)
  /-- ``ESC [ n ` ``. -/
  | column (n : Param) (present : n ≠ [])
  /-- `ESC [ r H` or `ESC [ r ; c H`. -/
  | position (row : Param) (column : Option Param)

namespace CursorSequence

/-- The characters. -/
def bytes : CursorSequence → List UInt8
  | move direction n => sequenceBytes n [] direction.final
  | column n _ => sequenceBytes n [] 0x60
  | position row col => sequenceBytes row col.toList 0x48

def parameters : CursorSequence → List Param
  | move _ n => [n]
  | column n _ => [n]
  | position row col => row :: col.toList

/-- Where the cursor is to go. -/
def target (s : Screen) : CursorSequence → Coord
  | move direction n => direction.move s.cursorPosition (.ofNat 16 (max n.value 1))
  | column n _ => ⟨.ofNat 16 n.value - 1#16, s.cursorPosition.y⟩
  | position row col =>
      ⟨.ofNat 16 ((col.map Param.ordinal).getD 1) - 1#16,
        .ofNat 16 row.ordinal - 1#16 + s.firstY⟩

/-- A move is by one. A column is below 256. A position is the first column of the first row
where there is no separator, and has two parameters below 256 where there is one. -/
def Fits : CursorSequence → Prop
  | move _ n => n.value ≤ 1
  | column n _ => n.value < 256
  | position row none => row.ordinal = 1
  | position row (some col) => (row ≠ [] ∧ row.value < 256) ∧ col ≠ [] ∧ col.value < 256

instance : (q : CursorSequence) → Decidable q.Fits
  | move _ n => inferInstanceAs (Decidable (n.value ≤ 1))
  | column n _ => inferInstanceAs (Decidable (n.value < 256))
  | position row none => inferInstanceAs (Decidable (row.ordinal = 1))
  | position row (some col) => inferInstanceAs
      (Decidable ((row ≠ [] ∧ row.value < 256) ∧ col ≠ [] ∧ col.value < 256))

end CursorSequence

/-! ## Numbers that arrive as bytes -/

theorem ofNat_inj {m n : Nat} (hm : m < 65536) (hn : n < 65536) :
    BitVec.ofNat 16 m = BitVec.ofNat 16 n ↔ m = n := by
  rw [← BitVec.toNat_inj, BitVec.toNat_ofNat, BitVec.toNat_ofNat, Nat.mod_eq_of_lt hm,
    Nat.mod_eq_of_lt hn]

theorem short_ofNat (n : Nat) : short (.ofNat n) = .ofNat 16 (n % 256) := by
  apply BitVec.eq_of_toNat_eq
  simp [short]

theorem short_eq_iff {n : Nat} (hn : n < 65536) :
    short (.ofNat n) = .ofNat 16 n ↔ n < 256 := by
  rw [short_ofNat, ofNat_inj (by omega) hn]
  omega

/-- An absent parameter arrives as 0. -/
theorem short_eq_ordinal_iff {p : Param} (h : p.value < 65536) :
    short (.ofNat p.value) = .ofNat 16 p.ordinal ↔ p ≠ [] ∧ p.value < 256 := by
  by_cases hp : p = []
  · subst hp
    simp [Param.ordinal, short]
  · rw [Param.ordinal, if_neg hp, short_eq_iff h]
    simp [hp]

theorem ordinal_lt {p : Param} (h : p.value < 65536) : p.ordinal < 65536 := by
  unfold Param.ordinal
  split <;> omega

section Print

variable {κ : Type} (w : Window κ) {t : Terminal κ}

/-- All that the sequence asks of the console is its cursor position. -/
def GoesToTarget (t : Terminal κ) (q : CursorSequence) : Prop :=
  (printAll w t q.bytes).map Terminal.calls =
    some (t.calls ++ [.setConsoleCursorPosition (q.target (w.screen t.window))])

theorem goesToTarget_move (h : t.cons.outputState = .none) (d : Direction) {n : Param}
    (hn : n.value < 65536) : GoesToTarget w t (.move d n) ↔ n.value ≤ 1 := by
  have hdistance : distance ⟨.bracket, oneParameter n⟩ = 1#16 := by
    simp [distance, oneParameter]
  rw [GoesToTarget, CursorSequence.bytes, calls_one w h n d.isFinal_final, d.bracketCall_final,
    hdistance, CursorSequence.target]
  simp only [Option.toList_some, Option.some.injEq, List.append_cancel_left_eq, List.cons.injEq,
    ConsoleCall.setConsoleCursorPosition.injEq, and_true, d.move_inj]
  rw [ofNat_inj (m := 1) (by omega) (by omega)]
  omega

theorem goesToTarget_column (h : t.cons.outputState = .none) {n : Param} (present : n ≠ [])
    (hn : n.value < 65536) : GoesToTarget w t (.column n present) ↔ n.value < 256 := by
  rw [GoesToTarget, CursorSequence.bytes, calls_one w h n rfl, CursorSequence.target,
    ← short_eq_iff hn]
  simp [bracketCall, oneParameter]

/-- Without a separator every position is the first one. -/
theorem goesToTarget_row (h : t.cons.outputState = .none) {row : Param}
    (hrow : row.value < 65536) : GoesToTarget w t (.position row none) ↔ row.ordinal = 1 := by
  have hfirst : (0#16 = BitVec.ofNat 16 row.ordinal - 1#16) ↔ row.ordinal = 1 := by
    rw [← BitVec.sub_self 1#16, BitVec.sub_left_inj, ofNat_inj (by omega) (ordinal_lt hrow),
      eq_comm]
  rw [GoesToTarget, CursorSequence.bytes, Option.toList_none, calls_one w h row rfl,
    CursorSequence.target, ← hfirst]
  simp [bracketCall, oneParameter, eq_comm]

theorem goesToTarget_position (h : t.cons.outputState = .none) {row col : Param}
    (hrow : row.value < 65536) (hcol : col.value < 65536) :
    GoesToTarget w t (.position row (some col)) ↔
      (row ≠ [] ∧ row.value < 256) ∧ col ≠ [] ∧ col.value < 256 := by
  rw [GoesToTarget, CursorSequence.bytes, Option.toList_some, calls_two w h row col rfl,
    CursorSequence.target, ← short_eq_ordinal_iff hrow, ← short_eq_ordinal_iff hcol]
  simp [bracketCall, twoParameters, separate, oneParameter, and_comm]

/-- A cursor sequence, whatever has been parsed before it, goes where its parameters say exactly
if it fits. -/
theorem goesToTarget_iff (h : t.cons.outputState = .none) (q : CursorSequence)
    (hrange : ∀ p ∈ q.parameters, p.value < 65536) : GoesToTarget w t q ↔ q.Fits := by
  cases q with
  | move d n => exact goesToTarget_move w h d (hrange n (List.mem_singleton_self n))
  | column n present => exact goesToTarget_column w h present (hrange n (List.mem_singleton_self n))
  | position row col =>
    have hrow := hrange row List.mem_cons_self
    cases col with
    | none => exact goesToTarget_row w h hrow
    | some col =>
      exact goesToTarget_position w h hrow (hrange col (by simp [CursorSequence.parameters]))

end Print

/-- To row 3 and column 12. -/
theorem goesToTarget_row_three :
    GoesToTarget idleWindow (Terminal.start (Vector.replicate 100 0) startScreen)
      (.position [3] (some [1, 2])) :=
  (goesToTarget_iff idleWindow rfl _ (by decide)).mpr (by decide)

/-- `ESC [ 5 A` moves by one line. -/
theorem not_goesToTarget_five :
    ¬GoesToTarget idleWindow (Terminal.start (Vector.replicate 100 0) startScreen)
      (.move .up [5]) :=
  mt (goesToTarget_move idleWindow rfl .up (by decide)).mp (by decide)

end Keow.Console
