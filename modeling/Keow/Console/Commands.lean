import Mathlib
import Keow.Console.Sequence

/-!
# A stream as commands

`cons25::OutputChar` reads a stream and asks things of the console as it goes. What it asks for
is decided by the bytes alone: they are scanned into commands, with the numbers of a sequence as
numbers, and the array of the terminal holds those numbers cut to bytes.
-/

namespace Keow.Console

/-! ## Scanning -/

/-- The numbers of a sequence under way: how many separators there have been, and the number
behind so many of them, counted modulo 256. -/
structure Numbers where
  separators : Nat := 0
  number : Nat → Nat := fun _ ↦ 0

namespace Numbers

def addDigit (n : Numbers) (c : UInt8) : Numbers :=
  { n with
    number := fun i ↦
      if i = n.separators % 256 then n.number i * 10 + (c - 0x30).toNat else n.number i }

def separate (n : Numbers) : Numbers := { n with separators := n.separators + 1 }

/-- `m_OutputStateData`. -/
def array (n : Numbers) : Vector UInt8 100 :=
  .ofFn fun i ↦ if i.val = 0 then .ofNat n.separators else .ofNat (n.number (i.val - 1))

@[simp] theorem getElem_array_zero (n : Numbers) (h : 0 < 100) :
    n.array[0] = .ofNat n.separators := by
  simp [array]

@[simp] theorem getElem_array_succ (n : Numbers) {i : Nat} (h : i + 1 < 100) :
    n.array[i + 1] = .ofNat (n.number i) := by
  simp [array]

theorem separatorCount_array (n : Numbers) : separatorCount n.array = n.separators % 256 := by
  simp [separatorCount]

theorem array_separate (n : Numbers) : n.separate.array = Console.separate n.array := by
  ext i hi
  cases i with
  | zero => simp [separate, Console.separate]
  | succ i => simp [separate, Console.separate]

/-- A digit with an element for it. -/
theorem array_addDigit (n : Numbers) {c : UInt8} (h : n.separators % 256 + 1 < 100) :
    (n.addDigit c).array =
      n.array.set (n.separators % 256 + 1)
        (n.array[n.separators % 256 + 1] * 10 + (c - 0x30)) := by
  ext i hi
  cases i with
  | zero => simp [addDigit]
  | succ i =>
    rw [Vector.getElem_set]
    by_cases heq : i = n.separators % 256
    · subst heq
      simp [addDigit]
    · simp [addDigit, heq, Ne.symm heq]

theorem array_empty : ({} : Numbers).array = Vector.replicate 100 0 := by
  ext i hi
  simp [array]

end Numbers

/-- What a stream asks for. -/
inductive Command where
  /-- A control character, written wherever it stands. -/
  | control (char : UInt8)
  | text (char : UInt8)
  /-- `ESC [ n;n X`. -/
  | bracket (n : Numbers) (final : UInt8)
  /-- `ESC [ = n X`. -/
  | equal (n : Numbers) (final : UInt8)

namespace Command

/-- The call that the command makes to a console with this screen. -/
def call (s : Screen) : Command → Option ConsoleCall
  | control c | text c => some (.writeConsole [c])
  | bracket n final => bracketCall s ⟨.bracket, n.array⟩ final
  | equal n final => equalCall s ⟨.equal, n.array⟩ final

def isControl : Command → Bool
  | control _ => true
  | _ => false

end Command

/-- How far a stream is into a sequence, with its numbers. -/
inductive Scanner where
  | text
  | escape
  | bracket (n : Numbers)
  | equal (n : Numbers)

namespace Scanner

/-- A digit behind more than 98 separators, modulo 256, has no place. -/
def addDigit (next : Numbers → Scanner) (n : Numbers) (c : UInt8) :
    Option (Scanner × Option Command) :=
  if n.separators % 256 ≤ 98 then some (next (n.addDigit c), none) else none

/-- Past a character that is no control character. -/
def move : Scanner → UInt8 → Option (Scanner × Option Command)
  | text, c => if c = 0x1B then some (escape, none) else some (text, some (.text c))
  | escape, c => if c = 0x5B then some (bracket {}, none) else some (text, none)
  | bracket n, c =>
      if c = 0x3D then some (equal n, none)
      else if isDigit c then addDigit bracket n c
      else if c = 0x3B then some (bracket n.separate, none)
      else some (text, some (.bracket n c))
  | equal n, c =>
      if isDigit c then addDigit equal n c
      else if c = 0x3B then some (equal n.separate, none)
      else some (text, some (.equal n c))

/-- Past a character. -/
def next (p : Scanner) (c : UInt8) : Option (Scanner × Option Command) :=
  match alwaysSpecial c with
  | some c => some (p, some (.control c))
  | none => p.move c

/-- The commands of a stream, and how far it gets into the last sequence. -/
def scan : Scanner → List UInt8 → Option (Scanner × List Command)
  | p, [] => some (p, [])
  | p, c :: cs =>
      (p.next c).bind fun r ↦ (r.1.scan cs).map fun q ↦ (q.1, r.2.toList ++ q.2)

theorem scan_cons (p : Scanner) (c : UInt8) (cs : List UInt8) :
    p.scan (c :: cs) =
      (p.next c).bind fun r ↦ (r.1.scan cs).map fun q ↦ (q.1, r.2.toList ++ q.2) := rfl

theorem scan_append (p : Scanner) (cs ds : List UInt8) :
    p.scan (cs ++ ds) =
      (p.scan cs).bind fun r ↦ (r.1.scan ds).map fun q ↦ (q.1, r.2 ++ q.2) := by
  induction cs generalizing p with
  | nil => simp [scan]
  | cons c cs ih =>
    rw [List.cons_append, scan_cons, scan_cons]
    cases p.next c with
    | none => rfl
    | some r =>
      simp only [Option.bind_some, ih]
      cases r.1.scan cs with
      | none => rfl
      | some q => simp [Function.comp_def, List.append_assoc]

/-- The state of the terminal that has come this far: the array matters inside a sequence. -/
def Holds (t : Cons25) : Scanner → Prop
  | text => t.outputState = .none
  | escape => t.outputState = .esc
  | bracket n => t = ⟨.bracket, n.array⟩
  | equal n => t = ⟨.equal, n.array⟩

end Scanner

/-! ## The terminal carries the commands out -/

section Step

variable {s : Screen} {t : Cons25} {p : Scanner} {c : UInt8}

/-- The terminal after a character against the scanner after it. -/
def Follows (s : Screen) (r : Option (Cons25 × Option ConsoleCall))
    (q : Option (Scanner × Option Command)) : Prop :=
  match q with
  | none => r = none
  | some (p, d) => ∃ t, r = some (t, d.bind (Command.call s)) ∧ p.Holds t

theorem follows_addDigit (state : OutputState) (next : Numbers → Scanner)
    (hnext : ∀ n, (next n).Holds ⟨state, n.array⟩) (n : Numbers) :
    Follows s ((Cons25.addDigit ⟨state, n.array⟩ c).map (·, none))
      (Scanner.addDigit next n c) := by
  unfold Scanner.addDigit
  split
  · next hle =>
    have hcount : separatorCount n.array ≤ 98 := by rwa [n.separatorCount_array]
    refine ⟨⟨state, (n.addDigit c).array⟩, ?_, hnext _⟩
    rw [Cons25.addDigit_of_le ⟨state, n.array⟩ c hcount, n.array_addDigit (by omega)]
    simp only [n.separatorCount_array]
    rfl
  · next hlt =>
    have hcount : 98 < separatorCount n.array := by
      rw [n.separatorCount_array]
      exact Nat.lt_of_not_le hlt
    rw [Follows, Cons25.addDigit_of_lt ⟨state, n.array⟩ c hcount]
    rfl

theorem follows_nextParameter {state : OutputState} {n : Numbers} :
    (Cons25.nextParameter ⟨state, n.array⟩).map (·, (none : Option ConsoleCall)) =
      some (⟨state, n.separate.array⟩, none) := by
  rw [Cons25.nextParameter_eq, n.array_separate]
  rfl

theorem follows_outputStep (h : p.Holds t) : Follows s (outputStep s t c) (p.move c) := by
  cases p with
  | text =>
    have h : t.outputState = .none := h
    unfold outputStep Scanner.move
    rw [h]
    dsimp only
    split
    · exact ⟨_, rfl, rfl⟩
    · exact ⟨t, rfl, h⟩
  | escape =>
    have h : t.outputState = .esc := h
    unfold outputStep Scanner.move
    rw [h]
    dsimp only
    split
    · exact ⟨_, rfl, by rw [Scanner.Holds, Numbers.array_empty]⟩
    · exact ⟨_, rfl, rfl⟩
  | bracket n =>
    obtain rfl : t = ⟨.bracket, n.array⟩ := h
    unfold outputStep Scanner.move
    dsimp only
    split_ifs with hequal hdigit hseparator
    · exact ⟨_, rfl, rfl⟩
    · exact follows_addDigit .bracket .bracket (fun _ ↦ rfl) n
    · exact ⟨_, follows_nextParameter, rfl⟩
    · exact ⟨_, rfl, rfl⟩
  | equal n =>
    obtain rfl : t = ⟨.equal, n.array⟩ := h
    unfold outputStep Scanner.move
    dsimp only
    split_ifs with hdigit hseparator
    · exact follows_addDigit .equal .equal (fun _ ↦ rfl) n
    · exact ⟨_, follows_nextParameter, rfl⟩
    · exact ⟨_, rfl, rfl⟩

theorem follows_outputChar (h : p.Holds t) : Follows s (outputChar s t c) (p.next c) := by
  unfold outputChar Scanner.next
  cases alwaysSpecial c with
  | some d => exact ⟨t, rfl, h⟩
  | none => exact follows_outputStep h

end Step

section Stream

variable {κ : Type} (w : Window κ)

/-- The window and the calls that it has been asked for. -/
def Terminal.outcome (t : Terminal κ) : κ × List ConsoleCall := (t.window, t.calls)

/-- One command. -/
def carryOut (o : κ × List ConsoleCall) (d : Command) : κ × List ConsoleCall :=
  match d.call (w.screen o.1) with
  | none => o
  | some call => (w.perform call o.1, o.2 ++ [call])

/-- A terminal that has come as far as the scanner goes on as the scanner does. -/
theorem printAll_eq_scan {t : Terminal κ} {p : Scanner} (h : p.Holds t.cons) (cs : List UInt8) :
    (printAll w t cs).map Terminal.outcome =
      (p.scan cs).map fun r ↦ r.2.foldl (carryOut w) t.outcome := by
  induction cs generalizing t p with
  | nil => rfl
  | cons c cs ih =>
    have hstep := follows_outputChar (s := w.screen t.window) (c := c) h
    rw [printAll_cons, Scanner.scan_cons, print]
    cases hnext : p.next c with
    | none =>
      rw [hnext] at hstep
      have hstep : outputChar (w.screen t.window) t.cons c = none := hstep
      rw [hstep]
      rfl
    | some r =>
      rw [hnext] at hstep
      obtain ⟨p', d⟩ := r
      obtain ⟨t', hrun, hholds⟩ := hstep
      have hone : (t.after w (t', d.bind (Command.call (w.screen t.window)))).outcome =
          d.toList.foldl (carryOut w) t.outcome := by
        cases d with
        | none => simp [Terminal.after, Terminal.outcome]
        | some d =>
          cases hcall : d.call (w.screen t.window) <;>
            simp [Terminal.after, Terminal.outcome, carryOut, hcall]
      rw [hrun, Option.map_some, Option.bind_some, Option.bind_some, ih hholds, hone,
        Option.map_map]
      simp [Function.comp_def]

/-- A control character leaves the scanner where it is. -/
theorem Scanner.scan_control (p : Scanner) {c d : UInt8} (h : alwaysSpecial c = some d)
    (cs : List UInt8) :
    p.scan (c :: cs) = (p.scan cs).map fun r ↦ (r.1, .control d :: r.2) := by
  simp [scan_cons, next, h]

theorem Scanner.isControl_move {p : Scanner} {c : UInt8} {r : Scanner × Option Command}
    (h : p.move c = some r) : ∀ d ∈ r.2, d.isControl = false := by
  have hdigit : ∀ {next : Numbers → Scanner} {n : Numbers},
      addDigit next n c = some r → r.2 = none := by
    intro next n hadd
    unfold addDigit at hadd
    split at hadd
    · exact (Option.some.inj hadd) ▸ rfl
    · cases hadd
  cases p with
  | text =>
    simp only [move] at h
    split_ifs at h <;> (obtain rfl := Option.some.inj h; simp [Command.isControl])
  | escape =>
    simp only [move] at h
    split_ifs at h <;> (obtain rfl := Option.some.inj h; simp)
  | bracket n =>
    simp only [move] at h
    split_ifs at h
    · obtain rfl := Option.some.inj h
      simp
    · simp [hdigit h]
    · obtain rfl := Option.some.inj h
      simp
    · obtain rfl := Option.some.inj h
      simp [Command.isControl]
  | equal n =>
    simp only [move] at h
    split_ifs at h
    · simp [hdigit h]
    · obtain rfl := Option.some.inj h
      simp
    · obtain rfl := Option.some.inj h
      simp [Command.isControl]

/-- Neither the control characters of a stream nor the rest of it disturb the other. -/
theorem Scanner.scan_filter (p : Scanner) (cs : List UInt8) :
    (p.scan (cs.filter fun c ↦ (alwaysSpecial c).isNone) =
      (p.scan cs).map fun r ↦ (r.1, r.2.filter fun d ↦ !d.isControl)) ∧
    ((p.scan cs).map fun r ↦ r.2.filter Command.isControl) =
      (p.scan cs).map fun _ ↦ (cs.filterMap alwaysSpecial).map .control := by
  induction cs generalizing p with
  | nil => exact ⟨rfl, rfl⟩
  | cons c cs ih =>
    cases hspecial : alwaysSpecial c with
    | some d =>
      rw [p.scan_control hspecial, List.filter_cons_of_neg (by simp [hspecial]), (ih p).1]
      refine ⟨by simp [Function.comp_def, Command.isControl], ?_⟩
      have hcontrols := (ih p).2
      cases hscan : p.scan cs with
      | none => rfl
      | some r =>
        rw [hscan] at hcontrols
        have hd : (Command.control d).isControl = true := rfl
        simpa [hd, hspecial] using hcontrols
    | none =>
      rw [List.filter_cons_of_pos (by simp [hspecial]), scan_cons, scan_cons,
        show p.next c = p.move c by simp [next, hspecial],
        List.filterMap_cons_none hspecial]
      cases hmove : p.move c with
      | none => exact ⟨rfl, rfl⟩
      | some r =>
        have hplain := isControl_move hmove
        obtain ⟨p', d⟩ := r
        simp only [Option.bind_some, (ih p').1]
        have hcontrols := (ih p').2
        cases hscan : p'.scan cs with
        | none => exact ⟨rfl, rfl⟩
        | some q =>
          rw [hscan] at hcontrols
          cases d with
          | none => simpa using hcontrols
          | some d =>
            have hd := hplain d rfl
            simpa [hd] using hcontrols

/-- The commands of a whole stream. -/
def commands (cs : List UInt8) : Option (List Command) := (Scanner.text.scan cs).map (·.2)

/-- From the start a stream of any bytes has the commands carried out that are scanned from it,
if the terminal gets to its end. Control characters act at once, in the middle of a sequence too,
and the sequences are those that the stream has without them. -/
theorem printAll_eq_commands (data : Vector UInt8 100) (k : κ) (cs : List UInt8) :
    ((printAll w (Terminal.start data k) cs).map Terminal.outcome =
      (commands cs).map fun ds ↦ ds.foldl (carryOut w) (k, [])) ∧
    ((commands cs).map fun ds ↦ ds.filter fun d ↦ !d.isControl) =
      commands (cs.filter fun c ↦ (alwaysSpecial c).isNone) ∧
    ((commands cs).map fun ds ↦ ds.filter Command.isControl) =
      (commands cs).map fun _ ↦ (cs.filterMap alwaysSpecial).map .control := by
  have hfilter := Scanner.text.scan_filter cs
  refine ⟨?_, ?_, ?_⟩
  · have hstart : Scanner.text.Holds (Terminal.start data k).cons := rfl
    rw [printAll_eq_scan w hstart, commands, Option.map_map]
    rfl
  · rw [commands, commands, hfilter.1, Option.map_map, Option.map_map]
    rfl
  · rw [commands, Option.map_map, Option.map_map]
    exact hfilter.2

end Stream

end Keow.Console
