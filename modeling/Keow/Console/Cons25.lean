import Mathlib.Data.List.Basic
import Mathlib.Tactic.Common

/-!
# The terminal of a console

`cons25::OutputChar`, `cons25.cpp:67–454`: what it keeps of a sequence in `m_OutputState` and
`m_OutputStateData`, and the call that each character makes to the Win32 console. An access
outside `m_OutputStateData` gives nothing.
-/

namespace Keow.Console

/-- `COORD`. -/
structure Coord where
  x : BitVec 16
  y : BitVec 16
deriving DecidableEq

/-- `SMALL_RECT`. -/
structure SmallRect where
  left : BitVec 16
  top : BitVec 16
  right : BitVec 16
  bottom : BitVec 16
deriving DecidableEq

/-- What `GetConsoleScreenBufferInfo` reports, and `bVisible` of `GetConsoleCursorInfo`. -/
structure Screen where
  size : Coord
  cursorPosition : Coord
  attributes : BitVec 16
  window : SmallRect
  cursorVisible : Bool

namespace Screen

/-- `screenWidth`. -/
def screenWidth (s : Screen) : BitVec 16 := s.window.right - s.window.left + 1#16

/-- `screenHeight`. -/
def screenHeight (s : Screen) : BitVec 16 := s.window.bottom - s.window.top + 1#16

/-- `firstY`, the line of the buffer where the screen starts. -/
def firstY (s : Screen) : BitVec 16 := s.size.y - s.screenHeight - 1#16

end Screen

/-- The calls that change the console. -/
inductive ConsoleCall where
  | writeConsole (chars : List UInt8)
  | fillConsoleOutputCharacter (char : UInt8) (len : BitVec 32) (pos : Coord)
  | setConsoleCursorPosition (pos : Coord)
  /-- `ScrollConsoleScreenBuffer`, with blanks of these attributes in the gap. -/
  | scrollConsoleScreenBuffer (moveRect : SmallRect) (pos : Coord) (attributes : BitVec 16)
  | setConsoleTextAttribute (attributes : BitVec 16)
  | setConsoleCursorInfo (visible : Bool)
deriving DecidableEq

/-- The values of `m_OutputState`: 0, `ESC`, `ESC<<8 | '['` and `'['<<8 | '='`. -/
inductive OutputState where
  | none
  | esc
  | bracket
  | equal
deriving DecidableEq

/-- `cons25`, as far as output goes. -/
structure Cons25 where
  outputState : OutputState := .none
  outputStateData : Vector UInt8 100 := Vector.replicate 100 0

namespace Cons25

/-- Read `m_OutputStateData[i]`. -/
def data (t : Cons25) (i : Nat) : Option UInt8 := t.outputStateData[i]?

/-- Write `m_OutputStateData[i]`. -/
def setData (t : Cons25) (i : Nat) (b : UInt8) : Option Cons25 :=
  if h : i < 100 then some { t with outputStateData := t.outputStateData.set i b } else none

/-- A digit goes to the parameter that the first element counts, `cons25.cpp:157–162`. -/
def addDigit (t : Cons25) (c : UInt8) : Option Cons25 := do
  let cnt ← t.data 0
  let t ← t.setData (cnt.toNat + 1) ((← t.data (cnt.toNat + 1)) * 10)
  t.setData (cnt.toNat + 1) ((← t.data (cnt.toNat + 1)) + (c - 0x30))

/-- `;` goes on to the next parameter. -/
def nextParameter (t : Cons25) : Option Cons25 := do t.setData 0 ((← t.data 0) + 1)

end Cons25

def FOREGROUND_MASK : BitVec 16 := 0x000F#16
/-- `FOREGROUND_RED|FOREGROUND_BLUE|FOREGROUND_GREEN`. -/
def FOREGROUND_WHITE : BitVec 16 := 0x0007#16
def FOREGROUND_INTENSITY : BitVec 16 := 0x0008#16
def COMMON_LVB_REVERSE_VIDEO : BitVec 16 := 0x4000#16

/-- The switch over the first parameter of `ESC [ n m`, `cons25.cpp:362–385`. -/
def setAttributes (attributes : BitVec 16) (attr : UInt8) : BitVec 16 :=
  match attr with
  | 0 => (attributes &&& ~~~FOREGROUND_MASK) ||| FOREGROUND_WHITE
  | 1 => attributes ||| FOREGROUND_INTENSITY
  | 2 => attributes &&& ~~~FOREGROUND_INTENSITY
  | 7 => attributes ||| COMMON_LVB_REVERSE_VIDEO
  | _ => attributes

/-- A byte as an `int`, cut to a `SHORT`. -/
def short (b : UInt8) : BitVec 16 := b.toBitVec.setWidth 16

/-- `m_OutputStateData[0]`: the separators so far. -/
def separatorCount (data : Vector UInt8 100) : Nat := data[0].toNat

/-- The array behind one separator more. -/
def separate (data : Vector UInt8 100) : Vector UInt8 100 := data.set 0 (data[0] + 1)

/-- `m_OutputStateData[1]`: the first parameter. -/
def firstParameter (data : Vector UInt8 100) : UInt8 := data[1]

/-- How far `ESC [ n A` to `ESC [ n D` move: by the parameter only behind a separator. -/
def distance (t : Cons25) : BitVec 16 :=
  if t.outputStateData[0] = 0 then 1#16 else short t.outputStateData[1]

/-- The call at the end of `ESC [ n;n X`, `cons25.cpp:168–396`. -/
def bracketCall (s : Screen) (t : Cons25) (c : UInt8) : Option ConsoleCall :=
  let x := s.cursorPosition.x
  let y := s.cursorPosition.y
  match c with
  | 0x4A => -- J: clear to end of screen
      let len := s.screenWidth - x + (s.size.y - y) * s.size.x
      some (.fillConsoleOutputCharacter 0x20 (len.setWidth 32) s.cursorPosition)
  | 0x4B => -- K: clear to end of line
      some (.fillConsoleOutputCharacter 0x20 ((s.screenWidth - x).setWidth 32) s.cursorPosition)
  | 0x60 => -- `: to column n
      some (.setConsoleCursorPosition ⟨short t.outputStateData[1] - 1#16, y⟩)
  | 0x48 => -- H: to row, column
      if t.outputStateData[0] = 0 then some (.setConsoleCursorPosition ⟨0#16, s.firstY⟩)
      else some (.setConsoleCursorPosition ⟨short t.outputStateData[2] - 1#16,
        short t.outputStateData[1] - 1#16 + s.firstY⟩)
  | 0x42 => some (.setConsoleCursorPosition ⟨x, y + distance t⟩) -- B: down
  | 0x41 => some (.setConsoleCursorPosition ⟨x, y - distance t⟩) -- A: up
  | 0x43 => some (.setConsoleCursorPosition ⟨x + distance t, y⟩) -- C: right
  | 0x44 => some (.setConsoleCursorPosition ⟨x - distance t, y⟩) -- D: left
  | 0x45 => some (.writeConsole [0x0D, 0x0A]) -- E: newline
  | 0x50 => -- P: delete character
      some (.scrollConsoleScreenBuffer ⟨x + 1#16, y, s.size.x, y⟩ ⟨x, y⟩ s.attributes)
  | 0x4D => -- M: delete line
      some (.scrollConsoleScreenBuffer ⟨0#16, y + 1#16, s.size.x, s.size.y⟩ ⟨0#16, y⟩ s.attributes)
  | 0x40 => -- @: insert character
      some (.scrollConsoleScreenBuffer ⟨x, y, s.size.x, y⟩ ⟨x + 1#16, y⟩ s.attributes)
  | 0x4C => -- L: insert line
      some (.scrollConsoleScreenBuffer ⟨0#16, y, s.size.x, s.size.y⟩ ⟨0#16, y + 1#16⟩ s.attributes)
  | 0x6D => -- m: set attributes
      some (.setConsoleTextAttribute (setAttributes s.attributes t.outputStateData[1]))
  | _ => none

/-- The call at the end of `ESC [ = n X`, `cons25.cpp:424–450`. -/
def equalCall (s : Screen) (t : Cons25) (c : UInt8) : Option ConsoleCall :=
  if c = 0x43 then
    let n := t.outputStateData[1]
    some (.setConsoleCursorInfo (if n = 0 ∨ n = 1 then true else s.cursorVisible))
  else none

/-- `0` to `9`. -/
def isDigit (c : UInt8) : Bool := 0x30 ≤ c && c ≤ 0x39

/-- The characters that are special in every state, and what is written for them,
`cons25.cpp:75–91`. -/
def alwaysSpecial (c : UInt8) : Option UInt8 :=
  match c with
  | 0x07 | 0x08 | 0x09 | 0x0D => some c
  | 0x0A | 0x0C | 0x0B => some 0x0A
  | _ => none

/-- The state machine of `cons25::OutputChar`, `cons25.cpp:93–453`. -/
def outputStep (s : Screen) (t : Cons25) (c : UInt8) : Option (Cons25 × Option ConsoleCall) :=
  match t.outputState with
  | .none =>
      if c = 0x1B then some ({ t with outputState := .esc }, none)
      else some (t, some (.writeConsole [c]))
  | .esc =>
      if c = 0x5B then
        some ({ outputState := .bracket, outputStateData := Vector.replicate 100 0 }, none)
      else some ({ t with outputState := .none }, none)
  | .bracket =>
      if c = 0x3D then some ({ t with outputState := .equal }, none)
      else if isDigit c then (t.addDigit c).map (·, none)
      else if c = 0x3B then t.nextParameter.map (·, none)
      else some ({ t with outputState := .none }, bracketCall s t c)
  | .equal =>
      if isDigit c then (t.addDigit c).map (·, none)
      else if c = 0x3B then t.nextParameter.map (·, none)
      else some ({ t with outputState := .none }, equalCall s t c)

/-- `cons25::OutputChar`, `cons25.cpp:67–454`, with the console at this screen. -/
def outputChar (s : Screen) (t : Cons25) (c : UInt8) : Option (Cons25 × Option ConsoleCall) :=
  match alwaysSpecial c with
  | some c => some (t, some (.writeConsole [c]))
  | none => outputStep s t c

/-! ## A stream of characters -/

/-- The console window: what it reports, and what the calls do to it. -/
structure Window (κ : Type) where
  screen : κ → Screen
  perform : ConsoleCall → κ → κ

/-- The terminal in front of its window, and the calls that it has made. -/
structure Terminal (κ : Type) where
  cons : Cons25 := {}
  window : κ
  calls : List ConsoleCall := []

section Print

variable {κ : Type} (w : Window κ)

/-- The terminal after a character. -/
def Terminal.after (t : Terminal κ) (r : Cons25 × Option ConsoleCall) : Terminal κ where
  cons := r.1
  window := r.2.elim t.window (w.perform · t.window)
  calls := t.calls ++ r.2.toList

/-- One character. -/
def print (t : Terminal κ) (c : UInt8) : Option (Terminal κ) :=
  (outputChar (w.screen t.window) t.cons c).map (t.after w)

/-- The characters of a stream. -/
def printAll (t : Terminal κ) (cs : List UInt8) : Option (Terminal κ) := cs.foldlM (print w) t

@[simp] theorem printAll_nil (t : Terminal κ) : printAll w t [] = some t := rfl

@[simp] theorem printAll_cons (t : Terminal κ) (c : UInt8) (cs : List UInt8) :
    printAll w t (c :: cs) = (print w t c).bind (printAll w · cs) := rfl

theorem printAll_append (t : Terminal κ) (cs ds : List UInt8) :
    printAll w t (cs ++ ds) = (printAll w t cs).bind (printAll w · ds) :=
  List.foldlM_append ..

end Print

end Keow.Console
