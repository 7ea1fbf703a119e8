import Keow.Console.ScreenBuffer

/-!
# Editing the page

A program of cursor moves and edits, sent as escape sequences, against the page that it is
about.
-/

namespace Keow.Console

open Keow.Base

/-! ## The numbers of a sequence -/

namespace Numbers

def addDigits (n : Numbers) (p : Param) : Numbers := p.foldl (fun n d ↦ n.addDigit (digit d)) n

@[simp] theorem separators_addDigits (n : Numbers) (p : Param) :
    (n.addDigits p).separators = n.separators := by
  induction p generalizing n with
  | nil => rfl
  | cons d p ih => exact ih (n.addDigit (digit d))

/-- The digits go to the number behind the last separator. -/
theorem number_addDigits (n : Numbers) (p : Param) (i : Nat) :
    (n.addDigits p).number i =
      if i = n.separators % 256 then p.foldl (fun v d ↦ v * 10 + d.val) (n.number i)
      else n.number i := by
  induction p generalizing n with
  | nil => simp [addDigits]
  | cons d p ih =>
    have hdigit : ∀ d : Fin 10, (digit d - 0x30).toNat = d.val := by decide
    rw [addDigits, List.foldl_cons, ← addDigits, ih]
    simp only [addDigit, hdigit d, List.foldl_cons]
    split <;> rfl

end Numbers

/-- The digits of a number. -/
theorem scan_digits {n : Numbers} (h : n.separators % 256 ≤ 98) (p : Param) (cs : List UInt8) :
    (Scanner.bracket n).scan (p.bytes ++ cs) = (Scanner.bracket (n.addDigits p)).scan cs := by
  induction p generalizing n with
  | nil => rfl
  | cons d p ih =>
    have hnext : (Scanner.bracket n).next (digit d) =
        some (.bracket (n.addDigit (digit d)), none) := by
      simp [Scanner.next, alwaysSpecial_of_isDigit (isDigit_digit d), Scanner.move,
        digit_ne_equal, isDigit_digit, Scanner.addDigit, h]
    have hrest := ih (n := n.addDigit (digit d)) h
    rw [Param.bytes, List.map_cons, List.cons_append, Scanner.scan_cons, hnext, Option.bind_some,
      ← Param.bytes, hrest]
    simp [Numbers.addDigits]

namespace PageOp

/-- The numbers that are scanned from an operation. -/
def numbers : PageOp → Numbers
  | goto line column => (({} : Numbers).addDigits line).separate.addDigits column
  | edit _ => {}

def final : PageOp → UInt8
  | goto _ _ => 0x48
  | edit e => e.final

def command (op : PageOp) : Command := .bracket op.numbers op.final

/-- What comes before the final character. -/
def opening : PageOp → List UInt8
  | goto line column => [0x1B, 0x5B] ++ (line.bytes ++ (0x3B :: column.bytes))
  | edit _ => [0x1B, 0x5B]

theorem bytes_eq (op : PageOp) : op.bytes = op.opening ++ [op.final] := by
  cases op with
  | goto line column => simp [bytes, sequenceBytes, separated, opening, final]
  | edit e => rfl

theorem scan_opening (op : PageOp) :
    Scanner.text.scan op.opening = some (.bracket op.numbers, []) := by
  cases op with
  | goto line column =>
    have hopen : Scanner.text.scan [0x1B, 0x5B] = some (.bracket {}, []) := rfl
    have hseparator : ∀ n : Numbers, (Scanner.bracket n).next 0x3B =
        some (.bracket n.separate, none) := fun _ ↦ rfl
    have hcolumn := scan_digits (n := (({} : Numbers).addDigits line).separate)
      (by simp [Numbers.separate]) column []
    rw [List.append_nil] at hcolumn
    rw [opening, Scanner.scan_append, hopen, Option.bind_some, scan_digits (Nat.zero_le _),
      Scanner.scan_cons, hseparator, Option.bind_some, hcolumn]
    rfl
  | edit e => rfl

theorem next_final (op : PageOp) (n : Numbers) :
    (Scanner.bracket n).next op.final = some (.text, some (.bracket n op.final)) := by
  cases op with
  | goto line column => rfl
  | edit e => cases e <;> rfl

/-- The command comes with the final character. -/
theorem scan_bytes (op : PageOp) (cs : List UInt8) :
    Scanner.text.scan (op.bytes ++ cs) =
      (Scanner.text.scan cs).map fun r ↦ (r.1, op.command :: r.2) := by
  rw [bytes_eq, List.append_assoc, Scanner.scan_append, scan_opening, Option.bind_some,
    List.singleton_append, Scanner.scan_cons, next_final, Option.bind_some, Option.map_map]
  rfl

/-- No command comes before it. -/
theorem scan_part {op : PageOp} {cs : List UInt8} (h : cs <+: op.bytes) (hpart : cs ≠ op.bytes) :
    ∃ p, Scanner.text.scan cs = some (p, []) := by
  rw [bytes_eq, List.prefix_concat_iff, ← bytes_eq] at h
  obtain ⟨ds, hds⟩ := h.resolve_left hpart
  have hscan := op.scan_opening
  rw [← hds, Scanner.scan_append] at hscan
  obtain ⟨r, hr, hrest⟩ := Option.bind_eq_some_iff.mp hscan
  obtain ⟨q, _, hq⟩ := Option.map_eq_some_iff.mp hrest
  have hnil := (List.append_eq_nil_iff.mp (congrArg Prod.snd hq)).1
  exact ⟨r.1, by rw [hr, ← hnil]⟩

/-- A program is scanned into its commands. -/
theorem scan_program (ops : List PageOp) :
    Scanner.text.scan (ops.flatMap bytes) = some (.text, ops.map command) := by
  induction ops with
  | nil => rfl
  | cons op ops ih =>
    rw [List.flatMap_cons, scan_bytes, ih]
    rfl

end PageOp

/-! ## One operation -/

namespace ScreenBuffer

variable {host : ConsoleHost} {b : ScreenBuffer}

theorem toInt_of_lt {v : BitVec 16} (h : v.toNat < 2 ^ 15) : v.toInt = v.toNat :=
  BitVec.toInt_eq_toNat_of_lt (by omega)

theorem toInt_succ {v : BitVec 16} (h : v.toNat + 1 < 2 ^ 15) :
    (v + 1#16).toInt = v.toNat + 1 := by
  have hnat : (v + 1#16).toNat = v.toNat + 1 := by
    rw [BitVec.toNat_add, BitVec.toNat_ofNat]
    omega
  rw [toInt_of_lt (by omega), hnat]
  rfl

/-- The lines of a buffer. -/
def lines (width height : Nat) (cell : Nat → Nat → Cell) : List (List Cell) :=
  tabulate height fun i ↦ tabulate width (cell i)

theorem lines_inj {width height : Nat} {f g : Nat → Nat → Cell} :
    lines width height f = lines width height g ↔
      ∀ i < height, ∀ j < width, f i j = g i j := by
  simp only [lines, tabulate_inj]

theorem eraseFrom_tabulate (width x : Nat) (f : Nat → Cell) :
    Edit.eraseFrom x (tabulate width f) =
      tabulate width fun j ↦ if j < x then f j else Edit.erase (f j) :=
  take_append_map_drop width x f Edit.erase

/-- What an edit is for, cell by cell. -/
def edited (g : Geometry) (x y : Nat) (cell : Nat → Nat → Cell) (i j : Nat) : Edit → Cell
  | .eraseLine => if i = y ∧ x ≤ j then Edit.erase (cell i j) else cell i j
  | .eraseBelow => if y < i ∨ i = y ∧ x ≤ j then Edit.erase (cell i j) else cell i j
  | .deleteChar =>
      if i = y ∧ x ≤ j then if j + 1 < g.width then cell i (j + 1) else g.blank else cell i j
  | .insertChar =>
      if i = y ∧ x ≤ j then if j = x then g.blank else cell i (j - 1) else cell i j
  | .deleteLine => if y ≤ i then if i + 1 < g.height then cell (i + 1) j else g.blank else cell i j
  | .insertLine => if y ≤ i then if i = y then g.blank else cell (i - 1) j else cell i j

/-- An edit of the line with the cursor. -/
theorem lines_edited {g : Geometry} {x y : Nat} {cell : Nat → Nat → Cell} {e : Edit}
    {line : Nat → Nat → Cell} (hline : ∀ j < g.width, line y j = edited g x y cell y j e)
    (hother : ∀ i ≠ y, ∀ j, edited g x y cell i j e = cell i j) :
    (tabulate g.height fun i ↦
      if i = y then tabulate g.width (line i) else tabulate g.width (cell i)) =
        lines g.width g.height fun i j ↦ edited g x y cell i j e := by
  apply tabulate_congr
  intro i _
  split
  · next heq =>
    rw [heq]
    exact tabulate_congr hline
  · next hne => exact tabulate_congr fun j _ ↦ (hother i hne j).symm

theorem apply_lines {g : Geometry} {x y : Nat} (hx : x < g.width) (hy : y < g.height)
    (cell : Nat → Nat → Cell) (e : Edit) :
    e.apply g ⟨lines g.width g.height cell, x, y⟩ =
      ⟨lines g.width g.height fun i j ↦ edited g x y cell i j e, x, y⟩ := by
  have hblank : List.replicate g.width g.blank = tabulate g.width fun _ ↦ g.blank :=
    replicate_eq_tabulate _ _
  simp only [Edit.apply, Page.mk.injEq, and_true]
  cases e with
  | eraseLine =>
    simp only [lines, modify_tabulate, eraseFrom_tabulate]
    refine lines_edited (e := .eraseLine) ?_ fun i hi j ↦ if_neg fun h ↦ hi h.1
    intro j _
    by_cases hj : j < x
    · simp [edited, hj, Nat.not_le.mpr hj]
    · simp [edited, hj, Nat.le_of_not_lt hj]
  | eraseBelow =>
    simp only [lines, modify_tabulate, eraseFrom_tabulate, take_append_map_drop]
    apply tabulate_congr
    intro i _
    by_cases hi : i = y
    · rw [if_pos (by omega), if_pos hi]
      apply tabulate_congr
      intro j _
      by_cases hj : j < x
      · simp [edited, hi, hj, Nat.not_le.mpr hj]
      · simp [edited, hi, hj, Nat.le_of_not_lt hj]
    · rw [if_neg hi, eraseFrom_tabulate]
      by_cases hlt : i < y
      · rw [if_pos (by omega)]
        exact tabulate_congr fun j _ ↦ (if_neg (by omega)).symm
      · rw [if_neg (by omega)]
        exact tabulate_congr fun j _ ↦ (if_pos (.inl (by omega))).symm
  | deleteChar =>
    simp only [lines, modify_tabulate, eraseIdx_append _ _ _ _ hx]
    refine lines_edited (e := .deleteChar) ?_ fun i hi j ↦ if_neg fun h ↦ hi h.1
    intro j _
    by_cases hj : j < x
    · simp [edited, hj, Nat.not_le.mpr hj]
    · simp [edited, hj, Nat.le_of_not_lt hj]
  | insertChar =>
    simp only [lines, modify_tabulate, dropLast_insertIdx _ _ _ _ hx]
    refine lines_edited (e := .insertChar) ?_ fun i hi j ↦ if_neg fun h ↦ hi h.1
    intro j _
    by_cases hj : j < x
    · simp [edited, hj, Nat.not_le.mpr hj]
    · simp [edited, hj, Nat.le_of_not_lt hj]
  | deleteLine =>
    rw [lines, eraseIdx_append _ _ _ _ hy, hblank]
    apply tabulate_congr
    intro i _
    by_cases hi : i < y
    · simp only [edited, if_pos hi, if_neg (Nat.not_le.mpr hi)]
    · simp only [edited, if_neg hi, if_pos (Nat.le_of_not_lt hi)]
      split <;> rfl
  | insertLine =>
    rw [lines, hblank, dropLast_insertIdx _ _ _ _ hy]
    apply tabulate_congr
    intro i _
    by_cases hi : i < y
    · simp only [edited, if_pos hi, if_neg (Nat.not_le.mpr hi)]
    · simp only [edited, if_neg hi, if_pos (Nat.le_of_not_lt hi)]
      split <;> rfl

/-- Cells in the order of lines and columns. -/
theorem start_le_iff {w x j : Nat} (hx : x < w) (hj : j < w) (y i : Nat) :
    y * w + x ≤ i * w + j ↔ y < i ∨ i = y ∧ x ≤ j := by
  rcases Nat.lt_trichotomy y i with hlt | rfl | hlt
  · have hline : (y + 1) * w ≤ i * w := Nat.mul_le_mul_right w hlt
    rw [Nat.succ_mul] at hline
    exact iff_of_true (by omega) (.inl hlt)
  · omega
  · have hline : (i + 1) * w ≤ y * w := Nat.mul_le_mul_right w hlt
    rw [Nat.succ_mul] at hline
    exact iff_of_false (by omega) (by omega)

/-- The characters that `ESC [ K` fills. -/
theorem toNat_lineRest (b : ScreenBuffer) :
    ((b.screen.screenWidth - b.screen.cursorPosition.x).setWidth 32).toNat = b.width - b.x := by
  have hx := b.column_lt
  rw [b.full, BitVec.toNat_setWidth, BitVec.toNat_sub, width, x]
  omega

/-- The characters that `ESC [ J` fills. -/
theorem toNat_reach (b : ScreenBuffer) :
    ((b.screen.screenWidth - b.screen.cursorPosition.x +
      (b.screen.size.y - b.screen.cursorPosition.y) * b.screen.size.x).setWidth 32).toNat =
        b.reach := by
  have hx := b.column_lt
  have hy := b.line_lt
  have hcolumns : (b.screen.size.x - b.screen.cursorPosition.x).toNat = b.width - b.x := by
    rw [BitVec.toNat_sub, width, x]
    omega
  have hlines : (b.screen.size.y - b.screen.cursorPosition.y).toNat = b.height - b.y := by
    rw [BitVec.toNat_sub, height, y]
    omega
  rw [b.full, BitVec.toNat_setWidth, BitVec.toNat_add, BitVec.toNat_mul, hcolumns, hlines, reach,
    Nat.add_mod_mod]
  exact Nat.mod_eq_of_lt (Nat.lt_of_lt_of_le (Nat.mod_lt _ (by decide)) (by decide))

/-- The buffer after a command. -/
def after (host : ConsoleHost) (b : ScreenBuffer) (d : Command) : ScreenBuffer :=
  (d.call b.screen).elim b fun call ↦ b.perform host call

/-- What the call behind an edit leaves in a cell. -/
def editCell (b : ScreenBuffer) (i j : Nat) : Edit → Cell
  | .eraseLine => b.fill 0x20 (b.width - b.x) b.screen.cursorPosition i j
  | .eraseBelow => b.fill 0x20 b.reach b.screen.cursorPosition i j
  | .deleteChar =>
      let s := b.screen
      b.scroll
        ⟨s.cursorPosition.x + 1#16, s.cursorPosition.y, s.size.x, s.cursorPosition.y⟩
        s.cursorPosition b.geometry.blank i j
  | .insertChar =>
      let s := b.screen
      b.scroll ⟨s.cursorPosition.x, s.cursorPosition.y, s.size.x, s.cursorPosition.y⟩
        ⟨s.cursorPosition.x + 1#16, s.cursorPosition.y⟩ b.geometry.blank i j
  | .deleteLine =>
      let s := b.screen
      b.scroll ⟨0#16, s.cursorPosition.y + 1#16, s.size.x, s.size.y⟩ ⟨0#16, s.cursorPosition.y⟩
        b.geometry.blank i j
  | .insertLine =>
      let s := b.screen
      b.scroll ⟨0#16, s.cursorPosition.y, s.size.x, s.size.y⟩
        ⟨0#16, s.cursorPosition.y + 1#16⟩ b.geometry.blank i j

theorem after_edit (b : ScreenBuffer) (e : Edit) :
    b.after host (PageOp.edit e).command = { b with cell := fun i j ↦ b.editCell i j e } := by
  cases e with
  | eraseLine =>
    simp only [after, PageOp.command, PageOp.final, Command.call, Edit.final, bracketCall,
      Option.elim_some, perform, toNat_lineRest]
    rfl
  | eraseBelow =>
    simp only [after, PageOp.command, PageOp.final, Command.call, Edit.final, bracketCall,
      Option.elim_some, perform, toNat_reach]
    rfl
  | deleteChar => rfl
  | insertChar => rfl
  | deleteLine => rfl
  | insertLine => rfl

theorem column_lt_width (b : ScreenBuffer) : b.x < b.width := b.column_lt

theorem line_lt_height (b : ScreenBuffer) : b.y < b.height := b.line_lt

/-- A fill from the cursor on. -/
theorem fill_cursor {i j : Nat} (hj : j < b.width) (char : UInt8) (len : Nat) :
    b.fill char len b.screen.cursorPosition i j =
      if (b.y < i ∨ i = b.y ∧ b.x ≤ j) ∧ i * b.width + j < b.y * b.width + b.x + len then
        { b.cell i j with char := char }
      else b.cell i j := by
  simp only [← start_le_iff b.column_lt_width hj]
  rfl

theorem editCell_eraseLine {i j : Nat} (hj : j < b.width) :
    b.editCell i j .eraseLine = edited b.geometry b.x b.y b.cell i j .eraseLine := by
  have hx := b.column_lt_width
  have hend : i * b.width + j < b.y * b.width + b.x + (b.width - b.x) ↔ i ≤ b.y := by
    have hnext := start_le_iff (x := 0) (by omega) hj (b.y + 1) i
    rw [Nat.succ_mul] at hnext
    omega
  rw [editCell, fill_cursor hj, edited]
  exact if_congr (by omega) rfl rfl

theorem editCell_eraseBelow {i j : Nat} (hj : j < b.width) :
    b.editCell i j .eraseBelow = edited b.geometry b.x b.y b.cell i j .eraseBelow ↔
      (b.y * b.width + b.x + b.reach ≤ i * b.width + j → (b.cell i j).char = 0x20) := by
  have hcell : b.cell i j = Edit.erase (b.cell i j) ↔ (b.cell i j).char = 0x20 := by
    rw [Edit.erase]
    constructor
    · exact congrArg Cell.char
    · intro h
      rw [← h]
  have hstart := start_le_iff b.column_lt_width hj b.y i
  rw [editCell, fill_cursor hj, edited]
  by_cases hbehind : b.y < i ∨ i = b.y ∧ b.x ≤ j
  · by_cases hreach : i * b.width + j < b.y * b.width + b.x + b.reach
    · rw [if_pos ⟨hbehind, hreach⟩, if_pos hbehind]
      exact iff_of_true rfl fun h ↦ absurd hreach (Nat.not_lt.mpr h)
    · rw [if_neg fun h ↦ hreach h.2, if_pos hbehind, hcell]
      exact (imp_iff_right (Nat.le_of_not_lt hreach)).symm
  · rw [if_neg fun h ↦ hbehind h.1, if_neg hbehind]
    exact iff_of_true rfl fun h ↦ absurd (hstart.mp (by omega)) hbehind

/-- A scroll by whole columns and lines. -/
theorem scroll_eq {r : SmallRect} {pos : Coord} {gap : Cell} {i j i' j' : Nat}
    {Moved Left : Prop} [Decidable Moved] [Decidable Left]
    (hmoved : b.Inside r (i - (pos.y.toInt - r.top.toInt)) (j - (pos.x.toInt - r.left.toInt)) ↔
      Moved)
    (hfrom : Moved → (i - (pos.y.toInt - r.top.toInt)).toNat = i' ∧
      (j - (pos.x.toInt - r.left.toInt)).toNat = j')
    (hleft : b.Inside r i j ↔ Left) :
    b.scroll r pos gap i j = if Moved then b.cell i' j' else if Left then gap else b.cell i j := by
  simp only [scroll, hmoved, hleft]
  split
  · next h => rw [(hfrom h).1, (hfrom h).2]
  · rfl

theorem toInt_x (b : ScreenBuffer) : b.screen.cursorPosition.x.toInt = b.x :=
  toInt_of_lt (Nat.lt_trans b.column_lt b.width_lt)

theorem toInt_y (b : ScreenBuffer) : b.screen.cursorPosition.y.toInt = b.y :=
  toInt_of_lt (Nat.lt_trans b.line_lt b.height_lt)

theorem toInt_x_succ (b : ScreenBuffer) : (b.screen.cursorPosition.x + 1#16).toInt = b.x + 1 :=
  toInt_succ (Nat.lt_of_le_of_lt b.column_lt b.width_lt)

theorem toInt_y_succ (b : ScreenBuffer) : (b.screen.cursorPosition.y + 1#16).toInt = b.y + 1 :=
  toInt_succ (Nat.lt_of_le_of_lt b.line_lt b.height_lt)

theorem toInt_width (b : ScreenBuffer) : b.screen.size.x.toInt = b.width := toInt_of_lt b.width_lt

theorem toInt_height (b : ScreenBuffer) : b.screen.size.y.toInt = b.height :=
  toInt_of_lt b.height_lt

theorem toInt_zero : (0#16).toInt = 0 := rfl

theorem editCell_deleteChar {i j : Nat} (hi : i < b.height) (hj : j < b.width) :
    b.editCell i j .deleteChar =
      if i = b.y ∧ b.x ≤ j ∧ j + 1 < b.width then b.cell i (j + 1)
      else if i = b.y ∧ b.x < j then b.geometry.blank else b.cell i j := by
  apply scroll_eq <;>
    simp only [Inside, toInt_x, toInt_y, toInt_x_succ, toInt_width] <;> omega

theorem editCell_insertChar {i j : Nat} (hi : i < b.height) (hj : j < b.width) :
    b.editCell i j .insertChar =
      if i = b.y ∧ b.x < j then b.cell i (j - 1)
      else if i = b.y ∧ b.x ≤ j then b.geometry.blank else b.cell i j := by
  apply scroll_eq <;>
    simp only [Inside, toInt_x, toInt_y, toInt_x_succ, toInt_width] <;> omega

theorem editCell_deleteLine {i j : Nat} (hi : i < b.height) (hj : j < b.width) :
    b.editCell i j .deleteLine =
      if b.y ≤ i ∧ i + 1 < b.height then b.cell (i + 1) j
      else if b.y < i then b.geometry.blank else b.cell i j := by
  apply scroll_eq <;>
    simp only [Inside, toInt_zero, toInt_y, toInt_y_succ, toInt_width, toInt_height] <;> omega

theorem editCell_insertLine {i j : Nat} (hi : i < b.height) (hj : j < b.width) :
    b.editCell i j .insertLine =
      if b.y < i then b.cell (i - 1) j
      else if b.y ≤ i then b.geometry.blank else b.cell i j := by
  apply scroll_eq <;>
    simp only [Inside, toInt_zero, toInt_y, toInt_y_succ, toInt_width, toInt_height] <;> omega

/-- What is at the end of the line or of the page stays where it is if it is to be deleted. -/
theorem editCell_iff_fits (b : ScreenBuffer) (e : Edit) :
    (∀ i < b.height, ∀ j < b.width,
      b.editCell i j e = edited b.geometry b.x b.y b.cell i j e) ↔ b.Fits (.edit e) := by
  have hx := b.column_lt_width
  have hy := b.line_lt_height
  have hwidth : b.geometry.width = b.width := rfl
  have hheight : b.geometry.height = b.height := rfl
  cases e with
  | eraseLine => exact iff_of_true (fun i _ j hj ↦ editCell_eraseLine hj) trivial
  | eraseBelow => exact forall₂_congr fun i _ ↦ forall₂_congr fun j hj ↦ editCell_eraseBelow hj
  | deleteChar =>
    constructor
    · intro h
      by_cases hlast : b.x + 1 < b.width
      · exact .inl hlast
      · have hcell := h b.y hy b.x hx
        rw [editCell_deleteChar hy hx, if_neg (by omega), if_neg (by omega), edited,
          if_pos ⟨rfl, Nat.le_refl _⟩, if_neg (by omega)] at hcell
        exact .inr hcell
    · intro h i hi j hj
      rw [editCell_deleteChar hi hj, edited, hwidth]
      by_cases hline : i = b.y ∧ b.x ≤ j
      · rw [if_pos hline]
        by_cases hnext : j + 1 < b.width
        · rw [if_pos ⟨hline.1, hline.2, hnext⟩, if_pos hnext]
        · rw [if_neg (by omega), if_neg hnext]
          split
          · rfl
          · next hcursor =>
            obtain ⟨rfl, rfl⟩ : i = b.y ∧ j = b.x := by omega
            exact h.resolve_left hnext
      · rw [if_neg (by omega), if_neg (by omega), if_neg hline]
  | insertChar =>
    refine iff_of_true (fun i hi j hj ↦ ?_) trivial
    rw [editCell_insertChar hi hj, edited]
    by_cases hline : i = b.y ∧ b.x ≤ j
    · rw [if_pos hline, if_pos hline]
      by_cases hcursor : j = b.x
      · rw [if_neg (by omega), if_pos hcursor]
      · rw [if_pos (by omega), if_neg hcursor]
    · rw [if_neg (by omega), if_neg hline, if_neg hline]
  | deleteLine =>
    constructor
    · intro h
      by_cases hlast : b.y + 1 < b.height
      · exact .inl hlast
      · refine .inr fun j hj ↦ ?_
        have hcell := h b.y hy j hj
        rw [editCell_deleteLine hy hj, if_neg (by omega), if_neg (by omega), edited,
          if_pos (Nat.le_refl _), hheight, if_neg hlast] at hcell
        exact hcell
    · intro h i hi j hj
      rw [editCell_deleteLine hi hj, edited, hheight]
      by_cases hbelow : b.y ≤ i
      · rw [if_pos hbelow]
        by_cases hnext : i + 1 < b.height
        · rw [if_pos ⟨hbelow, hnext⟩, if_pos hnext]
        · rw [if_neg (by omega), if_neg hnext]
          split
          · rfl
          · next hcursor =>
            obtain rfl : i = b.y := by omega
            exact h.resolve_left hnext j hj
      · rw [if_neg (by omega), if_neg (by omega), if_neg hbelow]
  | insertLine =>
    refine iff_of_true (fun i hi j hj ↦ ?_) trivial
    rw [editCell_insertLine hi hj, edited]
    by_cases hbelow : b.y ≤ i
    · rw [if_pos hbelow, if_pos hbelow]
      by_cases hcursor : i = b.y
      · rw [if_neg (by omega), if_pos hcursor]
      · rw [if_pos (by omega), if_neg hcursor]
    · rw [if_neg (by omega), if_neg hbelow, if_neg hbelow]

theorem page_eq (b : ScreenBuffer) : b.page = ⟨lines b.width b.height b.cell, b.x, b.y⟩ := rfl

/-- An edit does to the page what it is for exactly where it fits. -/
theorem page_after_edit (b : ScreenBuffer) (e : Edit) :
    (b.after host (PageOp.edit e).command).page = e.apply b.geometry b.page ↔
      b.Fits (.edit e) := by
  have hpage : e.apply b.geometry b.page =
      ⟨lines b.width b.height fun i j ↦ edited b.geometry b.x b.y b.cell i j e, b.x, b.y⟩ :=
    apply_lines (g := b.geometry) b.column_lt_width b.line_lt_height b.cell e
  rw [hpage, after_edit, page_eq, Page.mk.injEq, ← editCell_iff_fits, ← lines_inj]
  exact and_iff_left ⟨rfl, rfl⟩

/-- The target of a move. -/
def target (s : Screen) (line column : Param) : Coord :=
  ⟨short (.ofNat column.value) - 1#16, short (.ofNat line.value) - 1#16 + s.firstY⟩

theorem after_goto (b : ScreenBuffer) (line column : Param) :
    b.after host (PageOp.goto line column).command =
      b.setCursor host (target b.screen line column) := by
  let n : Numbers := (({} : Numbers).addDigits line).separate.addDigits column
  have hcount : n.array[0] = 1 := by simp [n, Numbers.separate]
  have hline : n.array[1] = .ofNat line.value := by
    simp [n, Numbers.separate, Numbers.number_addDigits, Param.value]
  have hcolumn : n.array[2] = .ofNat column.value := by
    simp [n, Numbers.separate, Numbers.number_addDigits, Param.value]
  have hcall : (PageOp.goto line column).command.call b.screen =
      some (.setConsoleCursorPosition (target b.screen line column)) := by
    change bracketCall b.screen ⟨.bracket, n.array⟩ 0x48 = _
    simp only [bracketCall, hcount, hline, hcolumn]
    rfl
  rw [after, hcall]
  rfl

theorem toNat_short (v : Nat) : (short (.ofNat v)).toNat = v % 256 := by
  rw [short, BitVec.toNat_setWidth]
  have hbyte : (UInt8.ofNat v).toBitVec.toNat = v % 256 := UInt8.toNat_ofNat'
  omega

theorem toNat_target_x (s : Screen) (line column : Param) :
    (target s line column).x.toNat = (2 ^ 16 - 1 + column.value % 256) % 2 ^ 16 := by
  rw [target, BitVec.toNat_sub, toNat_short]
  rfl

theorem toInt_target_y (s : Screen) (line column : Param) :
    (target s line column).y.toInt =
      ((line.value % 256 : Nat) - 1 + s.firstY.toInt).bmod (2 ^ 16) := by
  have hline : (short (.ofNat line.value) - 1#16).toInt = (line.value % 256 : Nat) - 1 := by
    have hshort := toNat_short line.value
    have hlt : (short (.ofNat line.value)).toNat < 2 ^ 15 := by omega
    rw [BitVec.toInt_sub, toInt_of_lt hlt, hshort, show (1#16).toInt = 1 from rfl]
    exact Int.bmod_eq_of_le (by omega) (by omega)
  rw [target, BitVec.toInt_add, hline]

theorem column_target (b : ScreenBuffer) (line column : Param) :
    ((target b.screen line column).x.toNat < b.width ↔
      0 ≤ ((column.value % 256 : Nat) : Int) - 1 ∧
        ((column.value % 256 : Nat) : Int) - 1 < b.width) ∧
    ((target b.screen line column).x.toNat < b.width →
      (target b.screen line column).x.toNat =
        (((column.value % 256 : Nat) : Int) - 1).toNat) := by
  have hwidth : b.width < 2 ^ 15 := b.width_lt
  have hx := toNat_target_x b.screen line column
  omega

theorem line_target (b : ScreenBuffer) (line column : Param) :
    ((target b.screen line column).y.toNat < b.height ↔
      0 ≤ ((line.value % 256 : Nat) : Int) - 1 + b.geometry.top ∧
        ((line.value % 256 : Nat) : Int) - 1 + b.geometry.top < b.height) ∧
    ((target b.screen line column).y.toNat < b.height →
      (target b.screen line column).y.toNat =
        (((line.value % 256 : Nat) : Int) - 1 + b.geometry.top).toNat) := by
  have hheight : b.height < 2 ^ 15 := b.height_lt
  have hy := toInt_target_y b.screen line column
  have htop : b.geometry.top = b.screen.firstY.toInt := rfl
  have hlow := b.screen.firstY.le_toInt
  have hhigh := b.screen.firstY.toInt_lt
  have hlt := (target b.screen line column).y.isLt
  rw [← htop] at hy hlow hhigh
  rw [BitVec.toInt_eq_toNat_cond, Int.bmod_def] at hy
  split at hy <;> split at hy <;> omega

/-- A move does to the page what it is for. -/
theorem page_after_goto (b : ScreenBuffer) (line column : Param) :
    (b.after host (PageOp.goto line column).command).page =
      (PageOp.goto line column).apply b.geometry b.page := by
  obtain ⟨hcolumn, hx⟩ := column_target b line column
  obtain ⟨hline, hy⟩ := line_target b line column
  rw [after_goto, setCursor, PageOp.apply]
  split
  · next h =>
    rw [if_pos ⟨(hcolumn.mp h.1).1, (hcolumn.mp h.1).2, hline.mp h.2⟩, ← hx h.1, ← hy h.2]
    rfl
  · next h =>
    rw [if_neg]
    intro hinside
    exact h ⟨hcolumn.mpr ⟨hinside.1, hinside.2.1⟩, hline.mpr hinside.2.2⟩

/-- The page changes, and nothing else. -/
theorem geometry_after (b : ScreenBuffer) (op : PageOp) :
    (b.after host op.command).geometry = b.geometry := by
  cases op with
  | goto line column =>
    rw [after_goto, setCursor]
    split
    · have htop : ∀ pos : Coord,
          Screen.firstY
            { b.screen with cursorPosition := pos, window := host.shows b.screen pos } =
              b.screen.firstY := by
        intro pos
        simp only [Screen.firstY, Screen.screenHeight, host.shows_height]
      simp only [geometry, width, height, htop]
    · rfl
  | edit e =>
    rw [after_edit]
    rfl

theorem page_after (b : ScreenBuffer) (op : PageOp) :
    (b.after host op.command).page = op.apply b.geometry b.page ↔ b.Fits op := by
  cases op with
  | goto line column => exact iff_of_true (page_after_goto b line column) trivial
  | edit e => exact page_after_edit b e

/-- A program of operations that fit, and only such a one, does to the page what it is for, at
every point of it. -/
theorem page_foldl_iff (b : ScreenBuffer) (ops : List PageOp) :
    (∀ n, (((ops.take n).map PageOp.command).foldl (after host) b).page =
      (ops.take n).foldl (PageOp.apply b.geometry) b.page) ↔
        Along (fun b op ↦ b.after host op.command) Fits b ops := by
  induction ops generalizing b with
  | nil => exact iff_of_true (fun n ↦ by simp) trivial
  | cons op ops ih =>
    have hop : (b.after host op.command).page = op.apply b.geometry b.page ↔ b.Fits op :=
      page_after b op
    rw [Along, ← hop, ← ih, geometry_after]
    constructor
    · intro h
      have hone : (b.after host op.command).page = op.apply b.geometry b.page := by
        simpa using h 1
      refine ⟨hone, fun n ↦ ?_⟩
      rw [hone]
      exact h (n + 1)
    · rintro ⟨hone, hrest⟩ n
      cases n with
      | zero => rfl
      | succ n =>
        have hn := hrest n
        rw [hone] at hn
        exact hn

theorem carryOut_eq (o : ScreenBuffer × List ConsoleCall) (d : Command) :
    (carryOut (window host) o d).1 = o.1.after host d := by
  unfold carryOut after window
  dsimp only
  cases d.call o.1.screen <;> rfl

theorem foldl_carryOut (o : ScreenBuffer × List ConsoleCall) (ds : List Command) :
    (ds.foldl (carryOut (window host)) o).1 = ds.foldl (after host) o.1 := by
  induction ds generalizing o with
  | nil => rfl
  | cons d ds ih => rw [List.foldl_cons, List.foldl_cons, ih, carryOut_eq]

end ScreenBuffer

/-- A terminal at rest does to the buffer what the commands of a stream do. -/
theorem exists_terminal_of_scan (host : ConsoleHost) {t : Terminal ScreenBuffer}
    (hrest : t.cons.outputState = .none) {cs : List UInt8} {p : Scanner} {ds : List Command}
    (hscan : Scanner.text.scan cs = some (p, ds)) :
    ∃ t', printAll (ScreenBuffer.window host) t cs = some t' ∧
      t'.window = ds.foldl (ScreenBuffer.after host) t.window := by
  have hholds : Scanner.text.Holds t.cons := hrest
  have hprint := printAll_eq_scan (ScreenBuffer.window host) hholds cs
  rw [hscan, Option.map_some, Option.map_eq_some_iff] at hprint
  obtain ⟨t', hrun, houtcome⟩ := hprint
  have hwindow := congrArg Prod.fst houtcome
  rw [ScreenBuffer.foldl_carryOut] at hwindow
  exact ⟨t', hrun, hwindow⟩

/-- A terminal at rest prints any program of moves and edits to its end, and the page is after
every operation what the program makes of it exactly if every operation fits where it comes. -/
theorem printAll_program (host : ConsoleHost) (t : Terminal ScreenBuffer)
    (hrest : t.cons.outputState = .none) (ops : List PageOp) :
    (∀ n, ∃ t', printAll (ScreenBuffer.window host) t ((ops.take n).flatMap PageOp.bytes) =
        some t' ∧
      t'.window.page = (ops.take n).foldl (PageOp.apply t.window.geometry) t.window.page) ↔
    Along (fun b op ↦ b.after host op.command) ScreenBuffer.Fits t.window ops := by
  rw [← ScreenBuffer.page_foldl_iff]
  refine forall_congr' fun n ↦ ?_
  obtain ⟨t', hrun, hwindow⟩ :=
    exists_terminal_of_scan host hrest (PageOp.scan_program (ops.take n))
  rw [hrun, ← hwindow]
  simp

/-- A console that takes no text and whose window stays. -/
def stillHost : ConsoleHost where
  write _ b := b
  shows s _ := s.window
  shows_width _ _ := rfl
  shows_height _ _ := rfl

/-- A terminal of four columns and two lines with letters on them. -/
def lettered : Terminal ScreenBuffer where
  window :=
    { screen :=
        { size := ⟨4#16, 2#16⟩
          cursorPosition := ⟨0#16, 0#16⟩
          attributes := 7#16
          window := ⟨0#16, 0#16, 3#16, 0#16⟩
          cursorVisible := true }
      cell := fun i j ↦ ⟨.ofNat (0x41 + 4 * i + j), 7#16⟩
      width_lt := by decide
      height_lt := by decide
      column_lt := by decide
      line_lt := by decide
      full := by decide }

/-- A new first line, and a letter gone from the second. -/
def openLine : List PageOp := [.edit .insertLine, .goto [2] [3], .edit .deleteChar]

theorem fits_openLine :
    Along (fun b op ↦ b.after stillHost op.command) ScreenBuffer.Fits lettered.window openLine :=
  ⟨trivial, trivial, .inl (by decide), trivial⟩

theorem printAll_program_lettered :
    ∃ t', printAll (ScreenBuffer.window stillHost) lettered (openLine.flatMap PageOp.bytes) =
        some t' ∧
      t'.window.page =
        openLine.foldl (PageOp.apply lettered.window.geometry) lettered.window.page :=
  (printAll_program stillHost lettered rfl openLine).mpr fits_openLine openLine.length

end Keow.Console
