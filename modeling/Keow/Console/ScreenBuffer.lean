import Keow.Base.Tabulate
import Keow.Console.Commands

/-!
# The screen buffer

The cells of a Win32 console and what the calls that the terminal makes do to them, as these
calls are documented. What `WriteConsole` does is left to the host, and so is the place of the
window once the cursor has moved.
-/

namespace Keow.Console

open Keow.Base

/-- `CHAR_INFO`. -/
structure Cell where
  char : UInt8
  attributes : BitVec 16
deriving DecidableEq

/-- A screen buffer of less than 2^15 columns and lines, with the cursor in it, and the window as
wide as it, as `main` of `KeowConsole.cpp` and `TIOCSWINSZ` set it up. -/
structure ScreenBuffer where
  screen : Screen
  cell : Nat → Nat → Cell
  width_lt : screen.size.x.toNat < 2 ^ 15
  height_lt : screen.size.y.toNat < 2 ^ 15
  column_lt : screen.cursorPosition.x.toNat < screen.size.x.toNat
  line_lt : screen.cursorPosition.y.toNat < screen.size.y.toNat
  full : screen.screenWidth = screen.size.x

/-- What is not said of a console here. -/
structure ConsoleHost where
  /-- `WriteConsole`. -/
  write : List UInt8 → ScreenBuffer → ScreenBuffer
  /-- The window, once the cursor has been put somewhere. -/
  shows : Screen → Coord → SmallRect
  shows_width : ∀ s pos, (shows s pos).right - (shows s pos).left = s.window.right - s.window.left
  shows_height : ∀ s pos,
    (shows s pos).bottom - (shows s pos).top = s.window.bottom - s.window.top

namespace ScreenBuffer

def width (b : ScreenBuffer) : Nat := b.screen.size.x.toNat

def height (b : ScreenBuffer) : Nat := b.screen.size.y.toNat

def x (b : ScreenBuffer) : Nat := b.screen.cursorPosition.x.toNat

def y (b : ScreenBuffer) : Nat := b.screen.cursorPosition.y.toNat

/-- `FillConsoleOutputCharacter`: so many characters from a position on, line after line, up to
the end of the buffer. -/
def fill (b : ScreenBuffer) (char : UInt8) (len : Nat) (pos : Coord) (i j : Nat) : Cell :=
  let start := pos.y.toNat * b.width + pos.x.toNat
  if start ≤ i * b.width + j ∧ i * b.width + j < start + len then { b.cell i j with char := char }
  else b.cell i j

/-- Line `i`, column `j` is a cell of the buffer inside the rectangle. -/
def Inside (b : ScreenBuffer) (r : SmallRect) (i j : Int) : Prop :=
  0 ≤ i ∧ i < b.height ∧ 0 ≤ j ∧ j < b.width ∧
    r.top.toInt ≤ i ∧ i ≤ r.bottom.toInt ∧ r.left.toInt ≤ j ∧ j ≤ r.right.toInt

instance (b : ScreenBuffer) (r : SmallRect) (i j : Int) : Decidable (b.Inside r i j) :=
  inferInstanceAs (Decidable (_ ∧ _))

/-- `ScrollConsoleScreenBuffer`: the part of the rectangle that is inside the buffer moves, as far
as it stays there, and what it leaves behind is filled. -/
def scroll (b : ScreenBuffer) (r : SmallRect) (pos : Coord) (gap : Cell) (i j : Nat) : Cell :=
  let i' : Int := i - (pos.y.toInt - r.top.toInt)
  let j' : Int := j - (pos.x.toInt - r.left.toInt)
  if b.Inside r i' j' then b.cell i'.toNat j'.toNat
  else if b.Inside r i j then gap
  else b.cell i j

/-- `SetConsoleCursorPosition` fails for a position outside the buffer. -/
def setCursor (host : ConsoleHost) (b : ScreenBuffer) (pos : Coord) : ScreenBuffer :=
  if h : pos.x.toNat < b.width ∧ pos.y.toNat < b.height then
    { screen :=
        { b.screen with cursorPosition := pos, window := host.shows b.screen pos }
      cell := b.cell
      width_lt := b.width_lt
      height_lt := b.height_lt
      column_lt := h.1
      line_lt := h.2
      full := by
        rw [← b.full, Screen.screenWidth, Screen.screenWidth, host.shows_width] }
  else b

/-- What the calls do. -/
def perform (host : ConsoleHost) (call : ConsoleCall) (b : ScreenBuffer) : ScreenBuffer :=
  match call with
  | .writeConsole chars => host.write chars b
  | .fillConsoleOutputCharacter char len pos => { b with cell := b.fill char len.toNat pos }
  | .setConsoleCursorPosition pos => b.setCursor host pos
  | .scrollConsoleScreenBuffer moveRect pos attributes =>
      { b with cell := b.scroll moveRect pos ⟨0x20, attributes⟩ }
  | .setConsoleTextAttribute attributes =>
      { b with
        screen := { b.screen with attributes := attributes }
        width_lt := b.width_lt
        height_lt := b.height_lt
        column_lt := b.column_lt
        line_lt := b.line_lt
        full := b.full }
  | .setConsoleCursorInfo visible =>
      { b with
        screen := { b.screen with cursorVisible := visible }
        width_lt := b.width_lt
        height_lt := b.height_lt
        column_lt := b.column_lt
        line_lt := b.line_lt
        full := b.full }

/-- A console with such a buffer. -/
def window (host : ConsoleHost) : Window ScreenBuffer where
  screen := ScreenBuffer.screen
  perform := perform host

end ScreenBuffer

/-! ## A page of lines -/

/-- Lines of cells, and a cursor among them. -/
structure Page where
  lines : List (List Cell)
  x : Nat
  y : Nat
deriving DecidableEq

/-- What does not change on the page: its size, the line that the first one of the screen is, and
what a cell without a character looks like. -/
structure Geometry where
  width : Nat
  height : Nat
  top : Int
  blank : Cell
deriving DecidableEq

/-- The sequences without numbers that change cells at the cursor. -/
inductive Edit where
  | eraseLine
  | eraseBelow
  | deleteChar
  | insertChar
  | deleteLine
  | insertLine
deriving DecidableEq

namespace Edit

def final : Edit → UInt8
  | eraseLine => 0x4B
  | eraseBelow => 0x4A
  | deleteChar => 0x50
  | insertChar => 0x40
  | deleteLine => 0x4D
  | insertLine => 0x4C

/-- A cell without its character. -/
def erase (c : Cell) : Cell := { c with char := 0x20 }

/-- Without the characters from a column on. -/
def eraseFrom (x : Nat) (line : List Cell) : List Cell := line.take x ++ (line.drop x).map erase

/-- What the sequences are for. -/
def apply (g : Geometry) (e : Edit) (p : Page) : Page :=
  let blankLine := List.replicate g.width g.blank
  { p with
    lines :=
      match e with
      | eraseLine => p.lines.modify p.y (eraseFrom p.x)
      | eraseBelow =>
          let lines := p.lines.modify p.y (eraseFrom p.x)
          lines.take (p.y + 1) ++ (lines.drop (p.y + 1)).map (eraseFrom 0)
      | deleteChar => p.lines.modify p.y fun line ↦ line.eraseIdx p.x ++ [g.blank]
      | insertChar => p.lines.modify p.y fun line ↦ (line.insertIdx p.x g.blank).dropLast
      | deleteLine => p.lines.eraseIdx p.y ++ [blankLine]
      | insertLine => (p.lines.insertIdx p.y blankLine).dropLast }

end Edit

/-- What a program does to the page: edits at the cursor, and moves of the cursor to a line and
column of the screen, counted from 1. -/
inductive PageOp where
  | goto (line column : Param)
  | edit (e : Edit)

namespace PageOp

def bytes : PageOp → List UInt8
  | goto line column => sequenceBytes line [column] 0x48
  | edit e => sequenceBytes [] [] e.final

/-- Numbers count modulo 256, and a position that is not on the page leaves the cursor. -/
def apply (g : Geometry) (p : Page) : PageOp → Page
  | goto line column =>
      let y : Int := (line.value % 256 : Nat) - 1 + g.top
      let x : Int := (column.value % 256 : Nat) - 1
      if 0 ≤ x ∧ x < g.width ∧ 0 ≤ y ∧ y < g.height then { p with x := x.toNat, y := y.toNat }
      else p
  | edit e => e.apply g p

end PageOp

namespace ScreenBuffer

/-- The page that the buffer is. -/
def page (b : ScreenBuffer) : Page where
  lines := tabulate b.height fun i ↦ tabulate b.width (b.cell i)
  x := b.x
  y := b.y

def geometry (b : ScreenBuffer) : Geometry where
  width := b.width
  height := b.height
  top := b.screen.firstY.toInt
  blank := ⟨0x20, b.screen.attributes⟩

/-- So many characters `ESC [ J` erases at most: a `WORD`. -/
def reach (b : ScreenBuffer) : Nat := (b.width - b.x + (b.height - b.y) * b.width) % 2 ^ 16

/-- The calls do here what the sequence is for: nothing is to be deleted at the end of a line or
of the page that is not blank, and what is out of reach has been erased. -/
def Fits (b : ScreenBuffer) : PageOp → Prop
  | .edit .eraseBelow => ∀ i < b.height, ∀ j < b.width,
      b.y * b.width + b.x + b.reach ≤ i * b.width + j → (b.cell i j).char = 0x20
  | .edit .deleteChar => b.x + 1 < b.width ∨ b.cell b.y b.x = b.geometry.blank
  | .edit .deleteLine => b.y + 1 < b.height ∨ ∀ j < b.width, b.cell b.y j = b.geometry.blank
  | _ => True

end ScreenBuffer

end Keow.Console
