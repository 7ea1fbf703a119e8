import Keow.Base.PrefixCode
import Keow.Console.Edits
import Keow.Console.Pump

/-!
# From the pipe to the screen

The loop of the console process with its terminal, `KeowConsole.cpp:208–241`. The text of the
processes comes in any pieces, cut anywhere, while the loop peeks, reads and prints.
-/

namespace Keow.Console

open Keow.Base

/-! ## The loop by itself -/

namespace Pump

/-- The character that goes to `OutputChar`. -/
def output (s : Pump) : PumpStep → Option UInt8
  | .write _ => none
  | .console =>
      match s.phase with
      | .printing i dwAvail => if i < dwAvail then s.kernelTextBuffer[i]? else none
      | _ => none

theorem printed_step (s : Pump) (i : PumpStep) :
    (s.step i).printed = s.printed ++ (s.output i).toList := by
  cases i with
  | write bytes => simp [step, output]
  | console =>
    unfold step output turn
    cases hphase : s.phase with
    | waiting =>
      dsimp only
      split <;> simp
    | peeked dwAvail =>
      dsimp only
      unfold readFile
      split <;> simp
    | printing i dwAvail =>
      dsimp only
      split
      · cases s.kernelTextBuffer[i]? <;> simp
      · simp
    | overrun => simp

theorem inv_foldl {s : Pump} (h : s.Inv) {steps : List PumpStep}
    (hfits : Along step FitsBuffer s steps) : (steps.foldl step s).Inv := by
  have hstep : ∀ (s : Pump) (i : PumpStep), s.Inv → s.FitsBuffer i → (s.step i).Inv :=
    fun _ _ h hi ↦ inv_step h hi
  exact trail_of_along hstep h hfits _ (foldl_mem_trail step s steps)

end Pump

/-! ## The loop with its terminal -/

/-- The loop of the console process, and its terminal as long as that stays in its array. -/
structure Display (κ : Type) where
  pump : Pump
  terminal : Option (Terminal κ)

namespace Display

variable {κ : Type} (w : Window κ)

def start (buf : Vector UInt8 1000) (t : Terminal κ) : Display κ := ⟨.start buf, some t⟩

def step (s : Display κ) (i : PumpStep) : Display κ where
  pump := s.pump.step i
  terminal := s.terminal.bind (printAll w · (s.pump.output i).toList)

/-- A run from the start. -/
def run (buf : Vector UInt8 1000) (t : Terminal κ) (steps : List PumpStep) : Display κ :=
  steps.foldl (step w) (start buf t)

theorem pump_run (buf : Vector UInt8 1000) (t : Terminal κ) (steps : List PumpStep) :
    (run w buf t steps).pump = steps.foldl Pump.step (Pump.start buf) :=
  (List.foldl_hom Display.pump fun _ _ ↦ rfl).symm

/-- The terminal has printed what has gone to it. -/
theorem terminal_run (buf : Vector UInt8 1000) (t : Terminal κ) (steps : List PumpStep) :
    (run w buf t steps).terminal = printAll w t (run w buf t steps).pump.printed := by
  have hstep : ∀ (s : Display κ) (i : PumpStep), s.terminal = printAll w t s.pump.printed →
      True → (step w s i).terminal = printAll w t (step w s i).pump.printed := by
    intro s i h _
    change s.terminal.bind _ = printAll w t (s.pump.step i).printed
    rw [h, Pump.printed_step, printAll_append]
  exact trail_invariant hstep rfl (fun _ _ ↦ trivial) _ (foldl_mem_trail _ _ _)

end Display

/-- The commands in what has come of a program are those of its first operations. -/
theorem exists_scan_of_prefix {ops : List PageOp} {cs : List UInt8}
    (h : cs <+: ops.flatMap PageOp.bytes) :
    ∃ n p, Scanner.text.scan cs = some (p, (ops.take n).map PageOp.command) := by
  obtain ⟨n, rest, rfl, hrest⟩ := exists_take_of_prefix h
  have hpart : ∃ p, Scanner.text.scan rest = some (p, []) := by
    rcases hrest with rfl | ⟨op, -, hpre, hne⟩
    · exact ⟨.text, rfl⟩
    · exact PageOp.scan_part hpre hne
  obtain ⟨p, hp⟩ := hpart
  refine ⟨n, p, ?_⟩
  rw [Scanner.scan_append, PageOp.scan_program, Option.bind_some, hp]
  simp

/-- Printing what has come of a program of operations that fit. -/
theorem exists_page_of_prefix (host : ConsoleHost) {t : Terminal ScreenBuffer}
    (hrest : t.cons.outputState = .none) {ops : List PageOp}
    (hops : Along (fun b op ↦ b.after host op.command) ScreenBuffer.Fits t.window ops)
    {cs : List UInt8} (h : cs <+: ops.flatMap PageOp.bytes) :
    ∃ n t', printAll (ScreenBuffer.window host) t cs = some t' ∧
      t'.window.page = (ops.take n).foldl (PageOp.apply t.window.geometry) t.window.page := by
  obtain ⟨n, p, hscan⟩ := exists_scan_of_prefix h
  obtain ⟨t', hrun, hwindow⟩ := exists_terminal_of_scan host hrest hscan
  exact ⟨n, t', hrun, by rw [hwindow, (ScreenBuffer.page_foldl_iff t.window ops).mpr hops n]⟩

/-- Whatever pieces the text of a program of moves and edits that fit is written in, and however
the writes fall between the turns of the loop: if the loop is never asked to read more than it
has room for, then at any time the page is what the program makes of it up to some operation,
and once all is written and the rest fits, the loop comes to where the page is what the whole
program makes of it. -/
theorem display_program (host : ConsoleHost) (buf : Vector UInt8 1000) (t : Terminal ScreenBuffer)
    (hrest : t.cons.outputState = .none) (ops : List PageOp)
    (hops : Along (fun b op ↦ b.after host op.command) ScreenBuffer.Fits t.window ops)
    (steps : List PumpStep) (htext : Pump.text steps <+: ops.flatMap PageOp.bytes)
    (hfits : Along Pump.step Pump.FitsBuffer (Pump.start buf) steps) :
    (∃ n t', (Display.run (ScreenBuffer.window host) buf t steps).terminal = some t' ∧
      t'.window.page = (ops.take n).foldl (PageOp.apply t.window.geometry) t.window.page) ∧
    (Pump.text steps = ops.flatMap PageOp.bytes →
      (Display.run (ScreenBuffer.window host) buf t steps).pump.pipe.length ≤ 1000 →
      ∃ k t', (Display.run (ScreenBuffer.window host) buf t
          (steps ++ List.replicate k .console)).terminal = some t' ∧
        t'.window.page = ops.foldl (PageOp.apply t.window.geometry) t.window.page) := by
  let w := ScreenBuffer.window host
  let s := steps.foldl Pump.step (Pump.start buf)
  have hinv : s.Inv := Pump.inv_foldl (Pump.inv_start buf) hfits
  have hwritten : s.written = Pump.text steps := Pump.written_foldl (Pump.start buf) steps
  constructor
  · have hpre : s.printed <+: Pump.text steps := by
      rw [← hwritten, ← hinv.lossless.2, List.append_assoc]
      exact List.prefix_append _ _
    rw [Display.terminal_run, Display.pump_run]
    exact exists_page_of_prefix host hrest hops (hpre.trans htext)
  · intro hall hpending
    rw [Display.pump_run] at hpending
    obtain ⟨s', hreaches, hprinted⟩ := Pump.exists_reaches hinv hpending
    obtain ⟨k, hk⟩ := hreaches.exists_turns
    obtain ⟨t', hrun, hwindow⟩ :=
      exists_terminal_of_scan host hrest (PageOp.scan_program ops)
    have hpage :
        (((ops.take ops.length).map PageOp.command).foldl (ScreenBuffer.after host) t.window).page =
          (ops.take ops.length).foldl (PageOp.apply t.window.geometry) t.window.page :=
      (ScreenBuffer.page_foldl_iff t.window ops).mpr hops ops.length
    rw [List.take_length, ← hwindow] at hpage
    refine ⟨k, t', ?_, hpage⟩
    rw [Display.terminal_run, Display.pump_run, List.foldl_append, hk, hprinted, hwritten, hall,
      hrun]

/-- The text in two pieces, the first of which ends inside a sequence. -/
def twoPieces : List PumpStep :=
  [.write [0x1B, 0x5B, 0x4C, 0x1B], .console,
    .write [0x5B, 0x32, 0x3B, 0x33, 0x48, 0x1B, 0x5B, 0x50]]

theorem display_program_lettered :
    ∃ k t', (Display.run (ScreenBuffer.window stillHost) (.replicate 1000 0) lettered
        (twoPieces ++ List.replicate k .console)).terminal = some t' ∧
      t'.window.page =
        openLine.foldl (PageOp.apply lettered.window.geometry) lettered.window.page :=
  have hfits : Along Pump.step Pump.FitsBuffer (.start (.replicate 1000 0)) twoPieces :=
    ⟨trivial, fun _ h ↦ (nomatch h), trivial, trivial⟩
  (display_program stillHost (.replicate 1000 0) lettered rfl openLine fits_openLine twoPieces
    (by decide) hfits).2 (by decide) (by rw [Display.pump_run]; decide)

end Keow.Console
