import Keow.Exec.Script

/-!
# Command lines

`ParseCommandLine`, `Utils.cpp:81–123`, on a string that ends with its buffer, against the
arguments that stand in it. The outer loop tests for the end of the line before it skips blanks
and not behind them, so that blanks where an argument could start make an empty one at the end of
the line.
-/

namespace Keow.Exec

open Keow.Base Keow.Kernel Keow.Paths

/-- `ParseCommandLine` on the string at an index of the buffer, with the arguments there are. -/
def parseCommandLineOnto (turns : Nat) (args : List Str) (lpCmdLine : Nat) : Scan (List Str) := do
  let pLineEnd ← advance (· == 0) turns lpCmdLine
  argumentsFrom turns pLineEnd turns lpCmdLine args

/-! ## The arguments in a string -/

/-- Each character with whether it is inside double quotes. -/
def marked : Bool → Str → List (UInt8 × Bool)
  | _, [] => []
  | inQuote, c :: cs => (c, inQuote) :: marked (if c = 0x22 then !inQuote else inQuote) cs

/-- A blank outside quotes. -/
def separates (m : UInt8 × Bool) : Bool := !m.2 && isspace m.1

/-- The characters without the double quotes. -/
def unquote (w : List (UInt8 × Bool)) : Str := (w.map Prod.fst).filter (· ≠ 0x22)

/-- The runs between separating blanks. -/
def argumentsIn (ms : List (UInt8 × Bool)) : List Str :=
  ((ms.splitOnP separates).filter (· ≠ [])).map unquote

/-- The arguments of a string. -/
def arguments (cs : Str) : List Str := argumentsIn (marked false cs)

/-- Separating blanks that a last empty argument is made of: a single one, or two at the end. -/
def blanksLeft : List (UInt8 × Bool) → Bool
  | [] => false
  | [m] => separates m
  | [m, n] => separates m && separates n
  | _ :: m :: n :: ms => blanksLeft (m :: n :: ms)

/-- Every run of characters that starts at a non-blank and ends at a blank outside quotes, or with
the string, is appended without its quotes, and nothing else, and nothing behind the terminator is
read. -/
def SplitsIntoArguments (cs : Str) : Prop :=
  ∀ (args : List Str) (turns : Nat), cs.length < turns →
    parseCommandLineOnto turns args 0 (cs ++ [0]) = .ok (args ++ arguments cs) (cs ++ [0])

/-! ## One argument after the other -/

section Arguments

variable {ms ws : List (UInt8 × Bool)} {m : UInt8 × Bool}

theorem argumentsIn_cons (hm : separates m = true) : argumentsIn (m :: ms) = argumentsIn ms := by
  rw [argumentsIn, List.splitOnP_cons_eq_if_modifyHead, if_pos hm,
    List.filter_cons_of_neg (by simp)]
  rfl

theorem argumentsIn_single (hne : ws ≠ []) (hws : ∀ m ∈ ws, separates m = false) :
    argumentsIn ws = [unquote ws] := by
  rw [argumentsIn, List.splitOnP_eq_singleton hws, List.filter_cons_of_pos (by simpa using hne)]
  rfl

theorem argumentsIn_append (hne : ws ≠ []) (hws : ∀ m ∈ ws, separates m = false)
    (hm : separates m = true) : argumentsIn (ws ++ m :: ms) = unquote ws :: argumentsIn ms := by
  rw [argumentsIn, List.splitOnP_append_cons_of_forall_mem hws m hm,
    List.filter_cons_of_pos (by simpa using hne)]
  rfl

theorem blanksLeft_single (hws : ∀ m ∈ ws, separates m = false) : blanksLeft ws = false := by
  fun_induction blanksLeft ws with
  | case1 => rfl
  | case2 m => exact hws m (by simp)
  | case3 m n => rw [hws m (by simp), Bool.false_and]
  | case4 k m n ms ih => exact ih fun x hx ↦ hws x (List.mem_cons_of_mem k hx)

theorem blanksLeft_blanks (hne : ws ≠ []) (hws : ∀ m ∈ ws, separates m = true) :
    blanksLeft ws = true := by
  fun_induction blanksLeft ws with
  | case1 => exact absurd rfl hne
  | case2 m => exact hws m (by simp)
  | case3 m n => rw [hws m (by simp), hws n (by simp), Bool.and_self]
  | case4 k m n ms ih =>
    exact ih (List.cons_ne_nil m _) fun x hx ↦ hws x (List.mem_cons_of_mem k hx)

/-- In front of something that is no blank. -/
theorem blanksLeft_cons {n : UInt8 × Bool} (hn : separates n = false) :
    blanksLeft (m :: n :: ms) = blanksLeft (n :: ms) := by
  cases ms with
  | nil => rw [blanksLeft, blanksLeft, hn, Bool.and_false]
  | cons o ms => rw [blanksLeft]

/-- Behind an argument. -/
theorem blanksLeft_append (hne : ws ≠ []) (hws : ∀ m ∈ ws, separates m = false)
    (hm : separates m = true) : blanksLeft (ws ++ m :: ms) = blanksLeft ms := by
  induction ws with
  | nil => exact absurd rfl hne
  | cons w ws ih =>
    obtain ⟨hw, hws⟩ := List.forall_mem_cons.mp hws
    match ws with
    | [] =>
      match ms with
      | [] => simp only [List.singleton_append, blanksLeft, hw, Bool.false_and]
      | [n] => simp only [List.singleton_append, blanksLeft, hm, Bool.true_and]
      | n :: o :: ms => simp only [List.singleton_append, blanksLeft]
    | [v] => exact ih (List.cons_ne_nil v _) hws
    | v :: u :: ws => exact ih (List.cons_ne_nil v _) hws

theorem unquote_cons_quote (q : Bool) (ws : List (UInt8 × Bool)) :
    unquote ((0x22, q) :: ws) = unquote ws := rfl

theorem unquote_cons {c : UInt8} (hc : c ≠ 0x22) (q : Bool) (ws : List (UInt8 × Bool)) :
    unquote ((c, q) :: ws) = c :: unquote ws := by
  rw [unquote, List.map_cons, List.filter_cons_of_pos (by simpa using hc)]
  rfl

end Arguments

/-! ## The parser -/

/-- An argument that the line ends. -/
theorem parse_last {cs : Str} {a : Str} {inQuote : Bool}
    (h : ∀ m ∈ marked inQuote cs, separates m = false) :
    parseCommandLine (.argument a inQuote) cs = [a ++ unquote (marked inQuote cs)] := by
  induction cs generalizing a inQuote with
  | nil => simp [parseCommandLine, marked, unquote]
  | cons c cs ih =>
    rw [marked] at h ⊢
    obtain ⟨hc, h⟩ := List.forall_mem_cons.mp h
    have hblank : (!inQuote && isspace c) = false := hc
    rw [parseCommandLine, hblank, if_neg Bool.false_ne_true]
    split
    · rename_i hquote
      subst hquote
      rw [if_pos rfl] at h
      rw [ih h, unquote_cons_quote]
    · rename_i hquote
      rw [if_neg hquote] at h
      rw [ih h, unquote_cons hquote, List.append_assoc, List.singleton_append]

/-- An argument that a blank ends. -/
theorem parse_next {cs : Str} {a : Str} {inQuote : Bool} {ws ms : List (UInt8 × Bool)}
    {m : UInt8 × Bool} (hmarked : marked inQuote cs = ws ++ m :: ms)
    (hws : ∀ m ∈ ws, separates m = false) (hm : separates m = true) :
    ∃ rest : Str, rest.length + ws.length < cs.length ∧ ms = marked false rest ∧
      parseCommandLine (.argument a inQuote) cs =
        (a ++ unquote ws) :: parseCommandLine .start rest := by
  induction cs generalizing a inQuote ws with
  | nil => cases ws <;> cases hmarked
  | cons c cs ih =>
    rw [marked] at hmarked
    cases ws with
    | nil =>
      obtain ⟨rfl, rfl⟩ := List.cons.inj hmarked
      have hblank : (!inQuote && isspace c) = true := hm
      obtain ⟨hout, hspace⟩ := Bool.and_eq_true_iff.mp hblank
      have hquote : c ≠ 0x22 := by
        rintro rfl
        exact absurd hspace (by decide)
      refine ⟨cs, by simp, ?_, ?_⟩
      · rw [if_neg hquote, show inQuote = false by simpa using hout]
      · rw [parseCommandLine, if_pos hblank]
        simp [unquote]
    | cons w ws =>
      obtain ⟨hhead, htail⟩ := List.cons.inj hmarked
      subst hhead
      obtain ⟨hc, hkept⟩ := List.forall_mem_cons.mp hws
      have hblank : (!inQuote && isspace c) = false := hc
      rw [parseCommandLine, hblank, if_neg Bool.false_ne_true]
      split
      · rename_i hquote
        subst hquote
        rw [if_pos rfl] at htail
        obtain ⟨rest, hlen, hms, hrun⟩ := ih (a := a) htail hkept
        refine ⟨rest, by rw [List.length_cons, List.length_cons]; omega, hms, ?_⟩
        rw [hrun, unquote_cons_quote]
      · rename_i hquote
        rw [if_neg hquote] at htail
        obtain ⟨rest, hlen, hms, hrun⟩ := ih (a := a ++ [c]) htail hkept
        refine ⟨rest, by rw [List.length_cons, List.length_cons]; omega, hms, ?_⟩
        rw [hrun, unquote_cons hquote, List.append_assoc, List.singleton_append]

/-- Where no quote is open, blanks separate. -/
theorem separates_of_blanks {bs : Str} (h : ∀ c ∈ bs, isspace c = true) (cs : Str) :
    ∃ ws, marked false (bs ++ cs) = ws ++ marked false cs ∧ ws.length = bs.length ∧
      ∀ m ∈ ws, separates m = true := by
  induction bs with
  | nil => exact ⟨[], rfl, rfl, fun m hm ↦ absurd hm List.not_mem_nil⟩
  | cons b bs ih =>
    obtain ⟨hb, hbs⟩ := List.forall_mem_cons.mp h
    obtain ⟨ws, hmarked, hlen, hws⟩ := ih hbs
    have hquote : b ≠ 0x22 := by
      rintro rfl
      exact absurd hb (by decide)
    refine ⟨(b, false) :: ws, ?_, by rw [List.length_cons, hlen, List.length_cons], ?_⟩
    · rw [List.cons_append, marked, if_neg hquote, hmarked, List.cons_append]
    · exact List.forall_mem_cons.mpr ⟨hb, hws⟩

theorem argumentsIn_blanks {ws ms : List (UInt8 × Bool)} (h : ∀ m ∈ ws, separates m = true) :
    argumentsIn (ws ++ ms) = argumentsIn ms := by
  induction ws with
  | nil => rfl
  | cons w ws ih =>
    obtain ⟨hw, hws⟩ := List.forall_mem_cons.mp h
    rw [List.cons_append, argumentsIn_cons hw, ih hws]

theorem blanksLeft_of_blanks {ws ms : List (UInt8 × Bool)} {n : UInt8 × Bool}
    (hn : separates n = false) (h : ∀ m ∈ ws, separates m = true) :
    blanksLeft (ws ++ n :: ms) = blanksLeft (n :: ms) := by
  induction ws with
  | nil => rfl
  | cons w ws ih =>
    obtain ⟨-, hws⟩ := List.forall_mem_cons.mp h
    rw [← ih hws]
    cases ws with
    | nil => exact blanksLeft_cons hn
    | cons v ws =>
      rw [List.cons_append, List.cons_append]
      cases ws with
      | nil => rw [List.nil_append, blanksLeft]
      | cons u ws => rw [List.cons_append, blanksLeft]

/-- What a line leaves behind its arguments. -/
def leftOver (ms : List (UInt8 × Bool)) : List Str := if blanksLeft ms then [[]] else []

/-- A line that starts with an argument. -/
theorem parse_argument_eq {cs : Str} {c : UInt8} (hc : isspace c = false)
    (ih : ∀ rest : Str, rest.length < (c :: cs).length →
      parseCommandLine .start rest = arguments rest ++ leftOver (marked false rest)) :
    parseCommandLine (.argument [] false) (c :: cs) =
      arguments (c :: cs) ++ leftOver (marked false (c :: cs)) := by
  have hhead : marked false (c :: cs) =
      (c, false) :: marked (if c = 0x22 then true else false) cs := rfl
  have hkept : separates (c, false) = false := hc
  have hsplit :=
    List.takeWhile_append_dropWhile (p := fun m ↦ !separates m) (l := marked false (c :: cs))
  have hword : ∀ m ∈ (marked false (c :: cs)).takeWhile (fun m ↦ !separates m),
      separates m = false := fun m hm ↦ by simpa using List.mem_takeWhile_imp hm
  have hne : (marked false (c :: cs)).takeWhile (fun m ↦ !separates m) ≠ [] := by
    rw [hhead, List.takeWhile_cons_of_pos (by simpa using hkept)]
    exact List.cons_ne_nil _ _
  generalize (marked false (c :: cs)).takeWhile (fun m ↦ !separates m) = ws at hsplit hword hne
  cases hrest : (marked false (c :: cs)).dropWhile (fun m ↦ !separates m) with
  | nil =>
    rw [hrest, List.append_nil] at hsplit
    rw [hsplit] at hword hne
    rw [parse_last hword, arguments, argumentsIn_single hne hword, leftOver,
      blanksLeft_single hword]
    rfl
  | cons m ms =>
    rw [hrest] at hsplit
    have hm : separates m = true := by
      have hnot := List.head_dropWhile_not (fun m ↦ !separates m)
        (by simp [hrest] : (marked false (c :: cs)).dropWhile (fun m ↦ !separates m) ≠ [])
      simpa [hrest] using hnot
    obtain ⟨rest, hlen, rfl, hrun⟩ := parse_next (a := []) hsplit.symm hword hm
    have harguments : arguments (c :: cs) = unquote ws :: arguments rest := by
      rw [arguments, ← hsplit, argumentsIn_append hne hword hm, arguments]
    have hleft : blanksLeft (marked false (c :: cs)) = blanksLeft (marked false rest) := by
      rw [← hsplit, blanksLeft_append hne hword hm]
    rw [hrun, ih rest (by omega), harguments, leftOver, leftOver, hleft]
    rfl

/-- The parser finds the arguments of a line, and an empty one in the blanks that are left. -/
theorem parse_eq {n : Nat} {cs : Str} (hn : cs.length ≤ n) :
    parseCommandLine .start cs = arguments cs ++ leftOver (marked false cs) := by
  induction n generalizing cs with
  | zero =>
    obtain rfl := List.length_eq_zero_iff.mp (Nat.le_zero.mp hn)
    rfl
  | succ n ih =>
    by_cases hnil : cs = []
    · subst hnil
      rfl
    have hsplit := List.takeWhile_append_dropWhile (p := isspace) (l := cs)
    have hblanks : ∀ c ∈ cs.takeWhile isspace, isspace c = true :=
      fun c hc ↦ List.mem_takeWhile_imp hc
    have hlen := congrArg List.length hsplit
    rw [List.length_append] at hlen
    obtain ⟨ws, hmarked, hcount, hws⟩ := separates_of_blanks hblanks (cs.dropWhile isspace)
    rw [hsplit] at hmarked
    cases hrest : cs.dropWhile isspace with
    | nil =>
      rw [hrest, List.append_nil] at hsplit
      have hne : ws ≠ [] := by
        rintro rfl
        rw [hsplit, List.length_nil] at hcount
        exact hnil (List.length_eq_zero_iff.mp hcount.symm)
      have hparse := parse_start (cs.takeWhile isspace) [] (by rwa [List.append_nil, hsplit])
        hblanks rfl
      rw [List.append_nil, hsplit] at hparse
      rw [hrest, marked, List.append_nil] at hmarked
      rw [hparse, arguments, hmarked, ← List.append_nil ws, argumentsIn_blanks hws,
        List.append_nil, leftOver, blanksLeft_blanks hne hws]
      rfl
    | cons c r =>
      have hc : isspace c = false := by
        have hnot := List.head_dropWhile_not isspace (by simp [hrest] : cs.dropWhile isspace ≠ [])
        simpa [hrest] using hnot
      have hparse := parse_start (cs.takeWhile isspace) (c :: r) (by simp) hblanks
        (by simpa using hc)
      rw [hrest] at hsplit hmarked hlen
      rw [hsplit] at hparse
      have hleft : blanksLeft (ws ++ marked false (c :: r)) = blanksLeft (marked false (c :: r)) :=
        blanksLeft_of_blanks (n := (c, false)) hc hws
      rw [hparse, parse_argument_eq hc fun rest hlt ↦ ih (by omega), arguments, arguments, hmarked,
        argumentsIn_blanks hws, leftOver, leftOver, hleft]

/-! ## Command lines that are split as intended -/

theorem parseCommandLineOnto_eq {turns : Nat} {args : List Str} {cs : Str} (hcs : 0 ∉ cs)
    (hturns : cs.length < turns) :
    parseCommandLineOnto turns args 0 (cs ++ [0]) =
      .ok (args ++ parseCommandLine .start cs) (cs ++ [0]) := by
  have hat : StringAt (cs ++ [0]) 0 cs := ⟨[], rfl⟩
  have hend : advance (· == 0) turns 0 (cs ++ [0]) = .ok (0 + cs.length) (cs ++ [0]) :=
    advance_eq_ok rfl (fun c hc ↦ by simpa using fun h : c = 0 ↦ hcs (h ▸ hc)) rfl hturns
  rw [parseCommandLineOnto, Comp.bind_of_ok hend, argumentsFrom_eq hat rfl hturns hturns]

/-- A string is split into its arguments exactly if no blanks are left behind them: it is not a
single blank, and does not end in two blanks outside quotes. -/
theorem splitsIntoArguments_iff {cs : Str} (hcs : 0 ∉ cs) :
    SplitsIntoArguments cs ↔ blanksLeft (marked false cs) = false := by
  have hparse := parse_eq (Nat.le_refl cs.length)
  constructor
  · intro hsplits
    have hrun := hsplits [] (cs.length + 1) (Nat.lt_succ_self _)
    rw [parseCommandLineOnto_eq hcs (Nat.lt_succ_self _), hparse] at hrun
    have hleft : leftOver (marked false cs) = [] := by simpa using (Result.ok.inj hrun).1
    rw [Bool.eq_false_iff]
    intro htrue
    rw [leftOver, if_pos htrue] at hleft
    cases hleft
  · intro hfalse args turns hturns
    rw [parseCommandLineOnto_eq hcs hturns, hparse, leftOver, hfalse, if_neg Bool.false_ne_true,
      List.append_nil]

/-- Quotes, and a blank between and behind the arguments. -/
theorem splitsIntoArguments_quoted :
    SplitsIntoArguments [0x61, 0x20, 0x22, 0x62, 0x20, 0x63, 0x22, 0x20] :=
  (splitsIntoArguments_iff (by decide)).mpr (by decide)

/-- Two blanks at the end make an empty argument. -/
theorem not_splitsIntoArguments_blanks : ¬SplitsIntoArguments [0x61, 0x20, 0x20] := by
  intro hsplits
  have hrun := hsplits [] 4 (by decide)
  rw [parseCommandLineOnto_eq (by decide) (by decide)] at hrun
  exact absurd (Result.ok.inj hrun).1 (by decide)

end Keow.Exec
