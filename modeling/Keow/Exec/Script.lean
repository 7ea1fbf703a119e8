import Mathlib.Data.List.TakeWhile
import Keow.Exec.Image
import Keow.Exec.Segments

/-!
# The header of a script

The lines of `Process::CanLoadImage` and `Process::LoadImage` that isolate the interpreter
line in the buffer of 1024 bytes, `Process.cpp:901–913` and `989–1001`, with
`ParseCommandLine`, `Utils.cpp:81–123`, byte by byte. An access outside the buffer is a
fault. `scriptWords` is what they come to.
-/

namespace Keow.Exec

open Keow.Base Keow.Kernel Keow.Paths

/-! ## The buffer -/

/-- A computation on the header buffer. -/
abbrev Scan := Comp (List UInt8)

/-- Read a byte of the buffer. -/
def readAt (i : Nat) : Scan UInt8 := fun buf ↦
  match buf[i]? with
  | some b => .ok b buf
  | none => .fault buf

/-- Write a byte of the buffer. -/
def writeAt (i : Nat) (b : UInt8) : Scan Unit := fun buf ↦
  if i < buf.length then .ok () (buf.set i b) else .fault buf

/-- `buflen`. -/
def buflen : Nat := 1024

section Loops

/-! No loop of the scan takes more than `turns` turns. -/

variable (turns : Nat)

/-- A loop that advances until it reads a byte it stops at. -/
def advance (stop : UInt8 → Bool) : Nat → Nat → Scan Nat
  | 0, _ => Comp.wait
  | n + 1, p => do
      let b ← readAt p
      if stop b then return p else advance stop n (p + 1)

/-- `strchr`. -/
def strchr (c : UInt8) (p : Nat) : Scan (Option Nat) := do
  let p ← advance (fun b ↦ b == c || b == 0) turns p
  let b ← readAt p
  return if b = c then some p else none

/-- Whether a blank ends the argument, which is not looked at inside quotes. -/
def blankAt (inQuote : Bool) (p : Nat) : Scan Bool :=
  if inQuote then pure false else isspace <$> readAt p

/-- The loop of `ParseCommandLine` over one argument, `Utils.cpp:98–113`. -/
def argumentEnd (lineEnd : Nat) : Nat → Nat → Bool → Str → Scan (Nat × Str)
  | 0, _, _, _ => Comp.wait
  | n + 1, p, inQuote, a => do
      let blank ← blankAt inQuote p
      if !blank && p < lineEnd then do
        let c ← readAt p
        if c = 0x22 then argumentEnd lineEnd n (p + 1) (!inQuote) a
        else argumentEnd lineEnd n (p + 1) inQuote (a ++ [c])
      else return (p, a)

/-- The outer loop of `ParseCommandLine`, `Utils.cpp:87–120`. -/
def argumentsFrom (lineEnd : Nat) : Nat → Nat → List Str → Scan (List Str)
  | 0, _, _ => Comp.wait
  | n + 1, pArg, args =>
      if pArg < lineEnd then do
        let pArg ← advance (fun b ↦ !isspace b) turns pArg
        let (p, a) ← argumentEnd lineEnd turns pArg false []
        argumentsFrom lineEnd n (p + 1) (args ++ [a])
      else return args

/-- `ParseCommandLine` on the string at an index of the buffer. -/
def parseCommandLineAt (lpCmdLine : Nat) : Scan (List Str) := do
  let pLineEnd ← advance (· == 0) turns lpCmdLine
  argumentsFrom turns pLineEnd turns lpCmdLine []

/-- The list of words, `Process.cpp:901–913`. -/
def isolateWords : Scan (List Str) := do
  let nl ← strchr turns 0x0A 0
  writeAt (nl.getD (buflen - 1)) 0
  let interp ← advance (· != 0x20) turns 2
  parseCommandLineAt turns interp

end Loops

/-! ## Loops inside the buffer -/

theorem readAt_of_drop {buf : List UInt8} {p : Nat} {b : UInt8} {post : List UInt8}
    (h : buf.drop p = b :: post) : readAt p buf = .ok b buf := by
  have hb : buf[p]? = some b := by
    rw [← List.head?_drop, h, List.head?_cons]
  simp only [readAt, hb]

theorem drop_succ_of_drop {buf : List UInt8} {p : Nat} {b : UInt8} {post : List UInt8}
    (h : buf.drop p = b :: post) : buf.drop (p + 1) = post := by
  rw [← List.drop_drop, h, List.drop_succ_cons, List.drop_zero]

/-- A loop comes to the first byte it stops at. -/
theorem advance_eq_ok {buf pre post : List UInt8} {p turns : Nat} {b : UInt8}
    {stop : UInt8 → Bool} (h : buf.drop p = pre ++ b :: post) (hpre : ∀ c ∈ pre, stop c = false)
    (hb : stop b = true) (hturns : pre.length < turns) :
    advance stop turns p buf = .ok (p + pre.length) buf := by
  induction turns generalizing p pre with
  | zero => exact absurd hturns (Nat.not_lt_zero _)
  | succ turns ih =>
    cases pre with
    | nil =>
      rw [advance, Comp.bind_of_ok (readAt_of_drop h), if_pos hb]
      rfl
    | cons c pre =>
      rw [List.length_cons] at hturns
      rw [List.cons_append] at h
      rw [advance, Comp.bind_of_ok (readAt_of_drop h), hpre c (by simp), if_neg (by simp),
        ih (drop_succ_of_drop h) (fun d hd ↦ hpre d (by simp [hd])) (by omega)]
      congr 1
      rw [List.length_cons]
      omega

/-- Without a byte to stop at, a loop leaves the buffer. -/
theorem advance_eq_fault {buf : List UInt8} {p turns : Nat} {stop : UInt8 → Bool}
    (h : ∀ c ∈ buf.drop p, stop c = false) (hp : p ≤ buf.length)
    (hturns : buf.length < p + turns) : advance stop turns p buf = .fault buf := by
  induction turns generalizing p with
  | zero => omega
  | succ turns ih =>
    rw [advance]
    cases hdrop : buf.drop p with
    | nil =>
      have hb : buf[p]? = none := by rw [← List.head?_drop, hdrop, List.head?_nil]
      simp only [Bind.bind, Comp.bind, readAt, hb]
    | cons b post =>
      have hlt : p < buf.length := by
        have hlen := congrArg List.length hdrop
        rw [List.length_drop, List.length_cons] at hlen
        omega
      rw [Comp.bind_of_ok (readAt_of_drop hdrop), h b (by simp [hdrop]), if_neg (by simp)]
      refine ih ?_ hlt (by omega)
      rw [drop_succ_of_drop hdrop]
      exact fun c hc ↦ h c (by simp [hdrop, hc])

/-! ## The words of a line -/

/-- The characters `cs` and then a terminator stand at index `p`. -/
def StringAt (buf : List UInt8) (p : Nat) (cs : Str) : Prop := ∃ post, buf.drop p = cs ++ 0 :: post

theorem StringAt.add {buf : List UInt8} {p : Nat} {cs ds : Str} (h : StringAt buf p (cs ++ ds)) :
    StringAt buf (p + cs.length) ds := by
  obtain ⟨post, hpost⟩ := h
  refine ⟨post, ?_⟩
  rw [← List.drop_drop, hpost, List.append_assoc, List.drop_left]

theorem StringAt.tail {buf : List UInt8} {p : Nat} {c : UInt8} {cs : Str}
    (h : StringAt buf p (c :: cs)) : StringAt buf (p + 1) cs :=
  StringAt.add (show StringAt buf p ([c] ++ cs) from h)

/-- Every loop that stops at the terminator and not at what stands in `pre` stops behind it. -/
theorem StringAt.advance_eq {buf : List UInt8} {p turns : Nat} {pre cs : Str}
    {stop : UInt8 → Bool} (h : StringAt buf p (pre ++ cs)) (hpre : ∀ c ∈ pre, stop c = false)
    (hstop : stop (cs.headD 0) = true) (hturns : pre.length < turns) :
    advance stop turns p buf = .ok (p + pre.length) buf := by
  obtain ⟨post, hpost⟩ := h
  cases cs with
  | nil => exact advance_eq_ok (by simpa using hpost) hpre hstop hturns
  | cons c cs => exact advance_eq_ok (by simpa using hpost) hpre hstop hturns

/-- Blanks where an argument starts are skipped. -/
theorem parse_blanks (blanks cs : Str) (h : ∀ c ∈ blanks, isspace c = true) :
    parseCommandLine .blanks (blanks ++ cs) = parseCommandLine .blanks cs := by
  induction blanks with
  | nil => rfl
  | cons b bs ih =>
    rw [List.cons_append, parseCommandLine, if_pos (h b (by simp)),
      ih fun c hc ↦ h c (by simp [hc])]

/-- Behind the blanks an argument starts. -/
theorem parse_argument {cs : Str} (h : isspace (cs.headD 0) = false) :
    parseCommandLine .blanks cs = parseCommandLine (.argument [] false) cs := by
  cases cs with
  | nil => rfl
  | cons c cs =>
    have hc : isspace c = false := by simpa using h
    simp [parseCommandLine, hc]

theorem parse_start (blanks cs : Str) (hne : blanks ++ cs ≠ [])
    (h : ∀ c ∈ blanks, isspace c = true) (hcs : isspace (cs.headD 0) = false) :
    parseCommandLine .start (blanks ++ cs) = parseCommandLine (.argument [] false) cs := by
  rw [← parse_argument hcs, ← parse_blanks blanks cs h]
  cases hcases : blanks ++ cs with
  | nil => exact absurd hcases hne
  | cons c cs => rfl

theorem StringAt.readAt_eq {buf : List UInt8} {p : Nat} {cs : Str} (h : StringAt buf p cs) :
    readAt p buf = .ok (cs.headD 0) buf := by
  obtain ⟨post, hpost⟩ := h
  cases cs with
  | nil => exact readAt_of_drop hpost
  | cons c cs => exact readAt_of_drop hpost

theorem blankAt_eq {buf : List UInt8} {p : Nat} {c : UInt8} (h : readAt p buf = .ok c buf)
    (inQuote : Bool) : blankAt inQuote p buf = .ok (!inQuote && isspace c) buf := by
  cases inQuote with
  | true => rfl
  | false => simp [blankAt, Functor.map, Comp.bind, h, Comp.pure]

/-- The loop over an argument comes to the end of the line, or to the blank behind the
argument. -/
theorem argumentEnd_eq {buf : List UInt8} {p turns lineEnd : Nat} {cs : Str} {inQuote : Bool}
    {a : Str} (h : StringAt buf p cs) (hend : p + cs.length = lineEnd)
    (hturns : cs.length < turns) :
    ∃ p' a', argumentEnd lineEnd turns p inQuote a buf = .ok (p', a') buf ∧
      (p' = lineEnd ∧ parseCommandLine (.argument a inQuote) cs = [a'] ∨
        ∃ rest, p' + 1 + rest.length = lineEnd ∧ p ≤ p' ∧ StringAt buf (p' + 1) rest ∧
          parseCommandLine (.argument a inQuote) cs = a' :: parseCommandLine .start rest) := by
  induction turns generalizing p cs inQuote a with
  | zero => exact absurd hturns (Nat.not_lt_zero _)
  | succ turns ih =>
    rw [argumentEnd, Comp.bind_of_ok (blankAt_eq h.readAt_eq inQuote)]
    cases cs with
    | nil =>
      have hp : ¬p < lineEnd := by simp at hend; omega
      refine ⟨p, a, ?_, .inl ⟨by simpa using hend, rfl⟩⟩
      rw [if_neg (by simp [hp])]
      rfl
    | cons c cs =>
      rw [List.length_cons] at hend hturns
      have hp : p < lineEnd := by omega
      rw [parseCommandLine]
      by_cases hblank : (!inQuote && isspace c) = true
      · refine ⟨p, a, ?_, .inr ⟨cs, by omega, Nat.le_refl p, h.tail, by rw [if_pos hblank]⟩⟩
        rw [if_neg (by simp [hblank])]
        rfl
      · rw [List.headD_cons, Bool.eq_false_iff.mpr hblank, if_pos (by simpa using hp),
          Comp.bind_of_ok h.readAt_eq, List.headD_cons, if_neg Bool.false_ne_true]
        -- one more character of the argument, or a quote that is left out of it
        have hnext : ∀ (q : Bool) (b : Str), ∃ p' a',
            argumentEnd lineEnd turns (p + 1) q b buf = .ok (p', a') buf ∧
            (p' = lineEnd ∧ parseCommandLine (.argument b q) cs = [a'] ∨
              ∃ rest, p' + 1 + rest.length = lineEnd ∧ p ≤ p' ∧ StringAt buf (p' + 1) rest ∧
                parseCommandLine (.argument b q) cs = a' :: parseCommandLine .start rest) := by
          intro q b
          obtain ⟨p', a', hrun, hres⟩ := @ih (p + 1) cs q b h.tail (by omega) (by omega)
          refine ⟨p', a', hrun, hres.imp id ?_⟩
          rintro ⟨rest, h1, h2, h3⟩
          exact ⟨rest, h1, by omega, h3⟩
        by_cases hquote : c = 0x22
        · simpa [hquote] using hnext (!inQuote) a
        · simpa [hquote] using hnext inQuote (a ++ [c])

/-- The loop of `ParseCommandLine` collects the words of what is left of the line. -/
theorem argumentsFrom_eq {buf : List UInt8} {pArg turns n lineEnd : Nat} {cs : Str}
    {args : List Str} (h : StringAt buf pArg cs) (hend : pArg + cs.length = lineEnd)
    (hturns : cs.length < turns) (hn : cs.length < n) :
    argumentsFrom turns lineEnd n pArg args buf =
      .ok (args ++ parseCommandLine .start cs) buf := by
  induction n generalizing pArg cs args with
  | zero => exact absurd hn (Nat.not_lt_zero _)
  | succ n ih =>
    rw [argumentsFrom]
    by_cases hnil : cs = []
    · subst hnil
      rw [if_neg (by simp at hend; omega)]
      simp [parseCommandLine, Pure.pure, Comp.pure]
    have hpos := List.length_pos_of_ne_nil hnil
    rw [if_pos (by omega)]
    have hsplit := List.takeWhile_append_dropWhile (p := isspace) (l := cs)
    have hblanks : ∀ c ∈ cs.takeWhile isspace, isspace c = true :=
      fun c hc ↦ List.mem_takeWhile_imp hc
    have hhead : isspace ((cs.dropWhile isspace).headD 0) = false := by
      cases hrest : cs.dropWhile isspace with
      | nil => rfl
      | cons c rest =>
        have hc := List.head_dropWhile_not isspace (by simp [hrest] : cs.dropWhile isspace ≠ [])
        simpa [hrest] using hc
    have hlen := congrArg List.length hsplit
    rw [List.length_append] at hlen
    have hstring : StringAt buf pArg (cs.takeWhile isspace ++ cs.dropWhile isspace) := by
      rwa [hsplit]
    have hskip : advance (fun b ↦ !isspace b) turns pArg buf =
        .ok (pArg + (cs.takeWhile isspace).length) buf := by
      apply StringAt.advance_eq hstring
      · simpa using hblanks
      · simpa using hhead
      · omega
    have hat : StringAt buf (pArg + (cs.takeWhile isspace).length) (cs.dropWhile isspace) :=
      hstring.add
    obtain ⟨p, a, hrun, hres⟩ := @argumentEnd_eq buf _ turns lineEnd _ false [] hat (by omega)
      (by omega)
    have hparse := parse_start _ _ (by rwa [hsplit]) hblanks hhead
    rw [hsplit] at hparse
    rw [Comp.bind_of_ok hskip, Comp.bind_of_ok hrun, hparse]
    dsimp only
    rcases hres with ⟨rfl, hwords⟩ | ⟨rest, h1, h2, h3, hwords⟩
    · -- the argument ends with the line
      rw [hwords]
      cases n with
      | zero => omega
      | succ n =>
        rw [argumentsFrom, if_neg (by omega)]
        rfl
    · rw [ih h3 h1 (by omega) (by omega), hwords]
      simp

theorem parseCommandLineAt_eq {buf : List UInt8} {p turns : Nat} {cs : Str}
    (h : StringAt buf p cs) (hcs : 0 ∉ cs) (hturns : cs.length < turns) :
    parseCommandLineAt turns p buf = .ok (parseCommandLine .start cs) buf := by
  have hend : advance (· == 0) turns p buf = .ok (p + cs.length) buf := by
    obtain ⟨post, hpost⟩ := h
    exact advance_eq_ok hpost (fun c hc ↦ by simpa using fun h : c = 0 ↦ hcs (h ▸ hc)) rfl hturns
  rw [parseCommandLineAt, Comp.bind_of_ok hend, argumentsFrom_eq h rfl hturns hturns,
    List.nil_append]

/-! ## The interpreter line -/

/-- The interpreter line ends inside the buffer: `strchr` meets a newline or a terminator. -/
def Terminated (buf : List UInt8) : Prop := ∃ c ∈ buf, c = 0 ∨ c = 0x0A

instance (buf : List UInt8) : Decidable (Terminated buf) := by
  unfold Terminated
  infer_instance

/-- What stands between `#!` and the end of the line. -/
def interpreterLine (buf : List UInt8) : Str :=
  (buf.takeWhile (fun c ↦ c != 0 && c != 0x0A)).drop 2

theorem scriptWords_of_terminated {buf : List UInt8} (h : Terminated buf) :
    scriptWords buf =
      some (parseCommandLine .start ((interpreterLine buf).dropWhile (· == 0x20))) := by
  rw [scriptWords, if_pos]
  · rfl
  · simpa [Terminated] using h

theorem scriptWords_of_not_terminated {buf : List UInt8} (h : ¬Terminated buf) :
    scriptWords buf = none := by
  rw [scriptWords, if_neg]
  simpa [Terminated] using h

/-- A terminated buffer is its first line, a newline or terminator, and the rest. -/
theorem exists_line {buf : List UInt8} (h : Terminated buf) :
    ∃ d post, buf = buf.takeWhile (fun c ↦ c != 0 && c != 0x0A) ++ d :: post ∧
      (d = 0 ∨ d = 0x0A) := by
  have hsplit := List.takeWhile_append_dropWhile (p := fun c : UInt8 ↦ c != 0 && c != 0x0A)
    (l := buf)
  cases hrest : buf.dropWhile (fun c ↦ c != 0 && c != 0x0A) with
  | nil =>
    obtain ⟨c, hc, hend⟩ := h
    have hall := (List.dropWhile_eq_nil_iff.mp hrest) c hc
    rcases hend with rfl | rfl <;> simp at hall
  | cons d post =>
    have hd := List.head_dropWhile_not (fun c : UInt8 ↦ c != 0 && c != 0x0A)
      (by simp [hrest] : buf.dropWhile _ ≠ [])
    rw [hrest] at hsplit
    refine ⟨d, post, hsplit.symm, ?_⟩
    simp only [hrest, List.head_cons] at hd
    grind

theorem not_mem_interpreterLine (buf : List UInt8) : 0 ∉ interpreterLine buf := by
  intro h
  have h' := List.mem_takeWhile_imp (List.mem_of_mem_drop h)
  simp at h'

/-- The buffer starts with `#!`, so its first line does. -/
theorem takeWhile_of_isScript {buf : List UInt8} (h : isScript buf = true) :
    buf.takeWhile (fun c ↦ c != 0 && c != 0x0A) = 0x23 :: 0x21 :: interpreterLine buf := by
  have htake : buf.take 2 = [0x23, 0x21] := by simpa [isScript] using h
  rw [← List.take_append_drop 2 buf, htake]
  simp [interpreterLine]

/-- `strchr` finds the newline that ends the line, or comes to a terminator before it. -/
theorem strchr_eq {line : List UInt8} (post : List UInt8) {d : UInt8} {turns : Nat}
    (hline : ∀ c ∈ line, c ≠ 0 ∧ c ≠ 0x0A) (hd : d = 0 ∨ d = 0x0A)
    (hturns : line.length < turns) :
    strchr turns 0x0A 0 (line ++ d :: post) =
      .ok (if d = 0x0A then some line.length else none) (line ++ d :: post) := by
  have hadvance : advance (fun b ↦ b == 0x0A || b == 0) turns 0 (line ++ d :: post) =
      .ok (0 + line.length) (line ++ d :: post) := by
    apply advance_eq_ok (show List.drop 0 _ = line ++ d :: post from List.drop_zero ..)
    · intro c hc
      simpa using (hline c hc).symm
    · rcases hd with rfl | rfl <;> decide
    · exact hturns
  have hread : readAt (0 + line.length) (line ++ d :: post) = .ok d (line ++ d :: post) :=
    readAt_of_drop (show _ = d :: post by simp)
  rw [strchr, Comp.bind_of_ok hadvance, Comp.bind_of_ok hread, Nat.zero_add]
  rfl

/-- The line ends with a terminator after the write, wherever that was. -/
theorem exists_set_eq (line post : List UInt8) (d : UInt8) {i : Nat} (hi : line.length ≤ i)
    (hd : d = 0 ∨ i = line.length) :
    ∃ post', (line ++ d :: post).set i 0 = line ++ 0 :: post' := by
  rw [List.set_append_right _ _ hi]
  cases hk : i - line.length with
  | zero => exact ⟨post, rfl⟩
  | succ k =>
    have hd : d = 0 := hd.resolve_right (by omega)
    exact ⟨post.set k 0, by rw [hd, List.set_cons_succ]⟩

/-- On a terminated line the scan stays inside the buffer and finds its words. -/
theorem isolateWords_of_terminated {buf : List UInt8} (hlen : buf.length = buflen)
    (hscript : isScript buf = true) (h : Terminated buf) :
    ∃ buf', ∀ turns, buflen < turns → isolateWords turns buf =
      .ok (parseCommandLine .start ((interpreterLine buf).dropWhile (· == 0x20))) buf' := by
  obtain ⟨d, post, hbuf, hd⟩ := exists_line h
  generalize hlinedef : buf.takeWhile (fun c ↦ c != 0 && c != 0x0A) = line at hbuf
  have hline : ∀ c ∈ line, c ≠ 0 ∧ c ≠ 0x0A := by
    intro c hc
    rw [← hlinedef] at hc
    simpa using List.mem_takeWhile_imp hc
  have hshape : line = 0x23 :: 0x21 :: interpreterLine buf :=
    hlinedef.symm.trans (takeWhile_of_isScript hscript)
  have hlength : line.length + (post.length + 1) = buflen := by
    rw [← hlen, hbuf, List.length_append, List.length_cons]
  -- the terminator is written where the newline stood, or into the last byte
  obtain ⟨post', hset⟩ := exists_set_eq line post d
    (show line.length ≤ (if d = 0x0A then some line.length else none).getD (buflen - 1) by
      rcases hd with rfl | rfl <;> simp; omega) (by
      rcases hd with rfl | rfl
      · exact .inl rfl
      · exact .inr rfl)
  rw [← hbuf] at hset
  have hwrite : writeAt ((if d = 0x0A then some line.length else none).getD (buflen - 1)) 0 buf =
      .ok () (line ++ 0 :: post') := by
    rw [writeAt, if_pos (by rw [hlen]; split <;> simp [buflen] at hlength ⊢; omega), hset]
  have hat : StringAt (line ++ 0 :: post') 2 (interpreterLine buf) :=
    ⟨post', by rw [hshape]; rfl⟩
  have hspaces := List.takeWhile_append_dropWhile (p := fun c : UInt8 ↦ c == 0x20)
    (l := interpreterLine buf)
  have hlens := congrArg List.length hspaces
  have hlineLen := congrArg List.length hshape
  rw [List.length_append] at hlens
  simp only [List.length_cons] at hlineLen
  refine ⟨line ++ 0 :: post', fun turns hturns ↦ ?_⟩
  have hfind := strchr_eq post hline hd (show line.length < turns by omega)
  rw [← hbuf] at hfind
  have hskip : advance (· != 0x20) turns 2 (line ++ 0 :: post') =
      .ok (2 + ((interpreterLine buf).takeWhile (· == 0x20)).length) (line ++ 0 :: post') := by
    apply StringAt.advance_eq (show StringAt _ 2 ((interpreterLine buf).takeWhile (· == 0x20) ++
      (interpreterLine buf).dropWhile (· == 0x20)) by rwa [hspaces])
    · intro c hc
      simpa using List.mem_takeWhile_imp hc
    · cases hrest : (interpreterLine buf).dropWhile (· == 0x20) with
      | nil => rfl
      | cons c rest =>
        have hc := List.head_dropWhile_not (fun c : UInt8 ↦ c == 0x20)
          (by simp [hrest] : (interpreterLine buf).dropWhile _ ≠ [])
        simpa [hrest] using hc
    · omega
  have hrest : StringAt (line ++ 0 :: post')
      (2 + ((interpreterLine buf).takeWhile (· == 0x20)).length)
      ((interpreterLine buf).dropWhile (· == 0x20)) := StringAt.add (by rwa [hspaces])
  rw [isolateWords, Comp.bind_of_ok hfind, Comp.bind_of_ok hwrite, Comp.bind_of_ok hskip,
    parseCommandLineAt_eq hrest _ (by omega)]
  exact fun h0 ↦ not_mem_interpreterLine buf (List.dropWhile_subset _ h0)

/-- Without a newline or terminator the scan leaves the buffer. -/
theorem isolateWords_of_not_terminated {buf : List UInt8} {turns : Nat}
    (hlen : buf.length = buflen) (h : ¬Terminated buf) (hturns : buflen < turns) :
    isolateWords turns buf = .fault buf := by
  have hfault : advance (fun b ↦ b == 0x0A || b == 0) turns 0 buf = .fault buf := by
    apply advance_eq_fault
    · intro c hc
      rw [List.drop_zero] at hc
      have hc' : ¬(c = 0 ∨ c = 0x0A) := fun hend ↦ h ⟨c, hc, hend⟩
      simpa [and_comm] using hc'
    · omega
    · omega
  simp only [isolateWords, strchr, Bind.bind, Comp.bind, hfault]

theorem length_headerBuffer (bytes : List UInt8) : (headerBuffer bytes).length = buflen := by
  rw [headerBuffer, List.length_append, List.length_take, List.length_replicate, buflen]
  omega

theorem isScript_headerBuffer {bytes : List UInt8} (h : bytes.take 2 = [0x23, 0x21]) :
    isScript (headerBuffer bytes) = true := by
  have hlen := congrArg List.length h
  simp only [List.length_take, List.length_cons, List.length_nil] at hlen
  have htake : (headerBuffer bytes).take 2 = bytes.take 2 := by
    rw [headerBuffer, List.take_append_of_le_length, List.take_take]
    · rfl
    · rw [List.length_take]
      omega
  rw [isScript, htake, h]
  rfl

theorem isElf_of_isScript {buf : List UInt8} (h : isScript buf = true) : isElf buf = false := by
  by_contra helf
  have h2 : buf.take 2 = [0x23, 0x21] := by simpa [isScript] using h
  have h4 : buf.take 4 = [0x7F, 0x45, 0x4C, 0x46] := by simpa [isElf] using helf
  have h24 : (buf.take 4).take 2 = buf.take 2 := List.take_take ..
  rw [h4, h2] at h24
  exact absurd h24 (by decide)

/-- A line of blanks has no words, or the one empty word that `ParseCommandLine` makes of
blanks other than spaces. -/
theorem words_of_blank {line : Str} (h : ∀ c ∈ line, isspace c = true) :
    parseCommandLine .start (line.dropWhile (· == 0x20)) =
      if ∃ c ∈ line, c ≠ 0x20 then [[]] else [] := by
  have hrest : line.dropWhile (· == 0x20) = [] ↔ ¬∃ c ∈ line, c ≠ 0x20 := by
    simp [List.dropWhile_eq_nil_iff]
  have hblank : ∀ c ∈ line.dropWhile (· == 0x20), isspace c = true :=
    fun c hc ↦ h c (List.dropWhile_subset _ hc)
  split
  · next hex =>
    have hstart := parse_start (line.dropWhile (· == 0x20)) []
      (by rw [List.append_nil]; exact fun hnil ↦ hrest.mp hnil hex) hblank rfl
    rw [List.append_nil] at hstart
    exact hstart
  · next hex => rw [hrest.mpr hex]; rfl

/-! ## Safe headers -/

/-- A script whose header is handled safely: the scan stays in the buffer, and without a word in
its line the script is refused. -/
structure HeaderSafe (host : Host) (path : Str) (bytes : List UInt8) : Prop where
  inside : ∃ words buf', scriptWords (headerBuffer bytes) = some words ∧
    ∀ turns, buflen < turns → isolateWords turns (headerBuffer bytes) = .ok words buf'
  fails : (∀ c ∈ interpreterLine (headerBuffer bytes), isspace c = true) → ∀ library t,
    ∃ n, ∀ fuel, n ≤ fuel →
      (∃ err, canLoadImage host fuel path t = .ok (some err) t) ∧
      ∃ rc t', rc ≠ 0#32 ∧ loadImage host fuel path library t = .ok rc t'

section Header

variable {host : Host} {path : Str} {bytes : List UInt8}

/-- `CanLoadImage` at a script. -/
theorem canLoadImage_script (hfile : host.createFile path = .ok bytes)
    (hscript : isScript (headerBuffer bytes) = true) (fuel : Nat) :
    canLoadImage host (fuel + 1) path =
      match scriptWords (headerBuffer bytes) with
      | some (word :: _) => canLoadImage host fuel word
      | _ => Comp.fault := by
  cases hwords : scriptWords (headerBuffer bytes) with
  | none =>
    simp only [canLoadImage, hfile, isElf_of_isScript hscript, hscript, hwords, Bool.false_eq_true,
      if_false, if_true]
  | some words =>
    cases words <;> simp only [canLoadImage, hfile, isElf_of_isScript hscript, hscript, hwords,
      Bool.false_eq_true, if_false, if_true]

/-- `LoadImage` at a script. -/
theorem loadImage_script (hfile : host.createFile path = .ok bytes)
    (hscript : isScript (headerBuffer bytes) = true) (fuel : Nat) (library : Bool) :
    loadImage host (fuel + 1) path library =
      match scriptWords (headerBuffer bytes) with
      | some (word :: words) => do
          let rc ← loadImage host fuel word false
          Comp.modify (fun t ↦ { t with arguments := word :: words ++ t.arguments })
          return rc
      | _ => Comp.fault := by
  cases hwords : scriptWords (headerBuffer bytes) with
  | none =>
    simp only [loadImage, hfile, isElf_of_isScript hscript, hscript, hwords, Bool.false_eq_true,
      if_false, if_true]
  | some words =>
    cases words <;> simp only [loadImage, hfile, isElf_of_isScript hscript, hscript, hwords,
      Bool.false_eq_true, if_false, if_true]

/-- A line of blanks and not of spaces only names the directory of the process. -/
theorem refused_of_blank {err : DWORD} (hfile : host.createFile path = .ok bytes)
    (hscript : isScript (headerBuffer bytes) = true) (hdir : host.createFile [] = .error err)
    (hwords : scriptWords (headerBuffer bytes) = some [[]]) (library : Bool) (t : Task)
    (fuel : Nat) :
    canLoadImage host (fuel + 2) path t = .ok (some err) t ∧
      ∃ t', loadImage host (fuel + 2) path library t = .ok err t' := by
  constructor
  · rw [canLoadImage_script hfile hscript, hwords]
    simp [canLoadImage, hdir]
  · rw [loadImage_script hfile hscript, hwords]
    simp [loadImage, hdir, Comp.bind_eq_ok]

/-- The header of a script is handled safely exactly when the line after `#!` ends inside the
buffer and is not made of spaces only. -/
theorem headerSafe_iff {err : DWORD} (hfile : host.createFile path = .ok bytes)
    (hscript : bytes.take 2 = [0x23, 0x21]) (hdir : host.createFile [] = .error err) :
    HeaderSafe host path bytes ↔
      Terminated (headerBuffer bytes) ∧ ∃ c ∈ interpreterLine (headerBuffer bytes), c ≠ 0x20 := by
  have hscript := isScript_headerBuffer hscript
  have hlen := length_headerBuffer bytes
  constructor
  · intro h
    obtain ⟨words, buf', hwords, -⟩ := h.inside
    have hterm : Terminated (headerBuffer bytes) := by
      by_contra hterm
      rw [scriptWords_of_not_terminated hterm] at hwords
      cases hwords
    refine ⟨hterm, ?_⟩
    by_contra hspaces
    have hblank : ∀ c ∈ interpreterLine (headerBuffer bytes), isspace c = true := by
      intro c hc
      have hc' : c = 0x20 := by
        by_contra hne
        exact hspaces ⟨c, hc, hne⟩
      rw [hc']
      rfl
    -- the first element of the empty list is taken
    obtain ⟨n, hn⟩ := h.fails hblank false freshTask
    obtain ⟨⟨err', hcan⟩, -⟩ := hn (n + 1) (by omega)
    rw [canLoadImage_script hfile hscript, scriptWords_of_terminated hterm,
      words_of_blank hblank, if_neg hspaces] at hcan
    exact Comp.fault_ne_ok hcan
  · rintro ⟨hterm, hex⟩
    constructor
    · obtain ⟨buf', hrun⟩ := isolateWords_of_terminated hlen hscript hterm
      exact ⟨_, buf', scriptWords_of_terminated hterm, hrun⟩
    · intro hblank library t
      have hwords := scriptWords_of_terminated hterm
      rw [words_of_blank hblank, if_pos hex] at hwords
      refine ⟨2, fun fuel hfuel ↦ ?_⟩
      obtain ⟨fuel, rfl⟩ := Nat.exists_eq_add_of_le' hfuel
      obtain ⟨hcan, t', hload⟩ := refused_of_blank hfile hscript hdir hwords library t fuel
      exact ⟨⟨err, hcan⟩, err, t', host.createFile_error hdir, hload⟩

end Header

/-- Every file is the same script. -/
def scriptsHost (bytes : List UInt8) : Host :=
  freeHost fun path ↦ if path = [] then none else some bytes

/-- `#!` and a newline: `CanLoadImage` takes the first word of a list that has none. -/
theorem not_headerSafe_blank :
    ¬HeaderSafe (scriptsHost [0x23, 0x21, 0x0A]) (ascii "/a") [0x23, 0x21, 0x0A] := by
  intro h
  have hline : interpreterLine (headerBuffer [0x23, 0x21, 0x0A]) = [] := by decide +kernel
  have hwords : scriptWords (headerBuffer [0x23, 0x21, 0x0A]) = some [] := by decide +kernel
  obtain ⟨n, hn⟩ := h.fails (by simp [hline]) false freshTask
  obtain ⟨⟨err, hcan⟩, -⟩ := hn (n + 1) (by omega)
  rw [canLoadImage_script rfl (isScript_headerBuffer rfl), hwords] at hcan
  exact Comp.fault_ne_ok hcan

/-- `#! sh` and a newline. -/
def shScript : List UInt8 := ascii "#! sh\n"

/-- A script of one word. -/
theorem headerSafe_shScript : HeaderSafe (scriptsHost shScript) (ascii "/a") shScript :=
  (@headerSafe_iff _ _ _ 2#32 rfl rfl rfl).mpr (by decide +kernel)

end Keow.Exec
