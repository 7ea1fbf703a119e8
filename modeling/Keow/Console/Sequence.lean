import Keow.Console.Parameters

/-!
# Sequences with decimal parameters

What `m_OutputStateData` holds at the end of `ESC [ p1 ; ... ; pk`: the numbers are cut to a
byte, and the parameters behind a multiple of 256 separators are taken for the first one.
-/

namespace Keow.Console

/-- The character of a digit. -/
def digit (d : Fin 10) : UInt8 := UInt8.ofNat (0x30 + d.val)

theorem isDigit_digit (d : Fin 10) : isDigit (digit d) = true := by
  revert d
  decide

theorem digit_ne_equal (d : Fin 10) : digit d ≠ 0x3D := by
  revert d
  decide

theorem digit_sub (d : Fin 10) : digit d - 0x30 = UInt8.ofNat d.val := by
  revert d
  decide

/-- A character that ends a sequence. -/
def isFinal (c : UInt8) : Bool :=
  (alwaysSpecial c).isNone && c != 0x3D && !isDigit c && c != 0x3B

/-- A decimal parameter, absent when it has no digits. -/
abbrev Param := List (Fin 10)

namespace Param

/-- The characters of the digits. -/
def bytes (p : Param) : List UInt8 := p.map digit

/-- The number, 0 when it is absent. -/
def value (p : Param) : Nat := p.foldl (fun n d ↦ n * 10 + d.val) 0

@[simp] theorem value_nil : value [] = 0 := rfl

/-- The digits added to a byte. -/
def addTo (b : UInt8) (p : Param) : UInt8 := p.foldl (fun b d ↦ b * 10 + UInt8.ofNat d.val) b

theorem addTo_zero (p : Param) : addTo 0 p = UInt8.ofNat p.value := by
  have hstep : ∀ (n : Nat) (d : Fin 10),
      UInt8.ofNat n * 10 + UInt8.ofNat d.val = UInt8.ofNat (n * 10 + d.val) := by
    intro n d
    simp
  exact List.foldl_hom UInt8.ofNat hstep

end Param

section Print

variable {κ : Type} (w : Window κ) {t : Terminal κ}

/-- Another array. -/
def Terminal.withData (t : Terminal κ) (data : Vector UInt8 100) : Terminal κ :=
  { t with cons := { t.cons with outputStateData := data } }

@[simp] theorem outputState_withData (t : Terminal κ) (data : Vector UInt8 100) :
    (t.withData data).cons.outputState = t.cons.outputState := rfl

@[simp] theorem data_withData (t : Terminal κ) (data : Vector UInt8 100) :
    (t.withData data).cons.outputStateData = data := rfl

@[simp] theorem withData_withData (t : Terminal κ) (data data' : Vector UInt8 100) :
    (t.withData data).withData data' = t.withData data' := rfl

@[simp] theorem window_withData (t : Terminal κ) (data : Vector UInt8 100) :
    (t.withData data).window = t.window := rfl

@[simp] theorem calls_withData (t : Terminal κ) (data : Vector UInt8 100) :
    (t.withData data).calls = t.calls := rfl

/-- `ESC [` from outside a sequence clears the array. -/
theorem printAll_bracket (h : t.cons.outputState = .none) :
    printAll w t [0x1B, 0x5B] =
      some { t with cons := { outputState := .bracket, outputStateData := .replicate 100 0 } } := by
  have hesc : alwaysSpecial 0x1B = none := rfl
  have hbracket : alwaysSpecial 0x5B = none := rfl
  simp [print, outputChar, hesc, hbracket, outputStep, h, Terminal.after]

/-- A digit behind `n` separators. -/
theorem print_digit (h : t.cons.outputState = .bracket) {n : Nat}
    (hcount : separatorCount t.cons.outputStateData = n) (hn : n ≤ 98) (d : Fin 10) :
    print w t (digit d) = some (t.withData (t.cons.outputStateData.set (n + 1)
      (t.cons.outputStateData[n + 1] * 10 + UInt8.ofNat d.val))) := by
  subst hcount
  rw [print, outputChar, alwaysSpecial_of_isDigit (isDigit_digit d)]
  simp [outputStep, h, digit_ne_equal, isDigit_digit, Cons25.addDigit_of_le _ _ hn, digit_sub,
    Terminal.after, Terminal.withData]

/-- Without an element for it. -/
theorem print_digit_of_lt (h : t.cons.outputState = .bracket)
    (hcount : 98 < separatorCount t.cons.outputStateData) (d : Fin 10) :
    print w t (digit d) = none := by
  rw [print, outputChar, alwaysSpecial_of_isDigit (isDigit_digit d)]
  simp [outputStep, h, digit_ne_equal, isDigit_digit, Cons25.addDigit_of_lt _ _ hcount]

/-- A separator. -/
theorem print_separator (h : t.cons.outputState = .bracket) :
    print w t 0x3B = some (t.withData (separate t.cons.outputStateData)) := by
  have hspecial : alwaysSpecial 0x3B = none := rfl
  have hdigit : isDigit 0x3B = false := rfl
  simp [print, outputChar, hspecial, outputStep, h, hdigit, Cons25.nextParameter_eq,
    Terminal.after, Terminal.withData]

/-- The character that ends the sequence. -/
theorem print_final (h : t.cons.outputState = .bracket) {c : UInt8} (hfinal : isFinal c = true) :
    print w t c = some (t.after w ({ t.cons with outputState := .none },
      bracketCall (w.screen t.window) t.cons c)) := by
  simp only [isFinal, Bool.and_eq_true, Bool.not_eq_true', bne_iff_ne, Option.isNone_iff_eq_none]
    at hfinal
  obtain ⟨⟨⟨hspecial, hequal⟩, hdigit⟩, hseparator⟩ := hfinal
  simp [print, outputChar, hspecial, outputStep, h, hequal, hdigit, hseparator]

/-- The digits behind `n` separators. -/
theorem printAll_digits (h : t.cons.outputState = .bracket) {n : Nat}
    (hcount : separatorCount t.cons.outputStateData = n) (hn : n ≤ 98) (p : Param) :
    printAll w t p.bytes = some (t.withData (t.cons.outputStateData.set (n + 1)
      (Param.addTo t.cons.outputStateData[n + 1] p))) := by
  induction p generalizing t with
  | nil => simp [Param.bytes, Param.addTo, Terminal.withData]
  | cons d p ih =>
    have hlt : n + 1 < 100 := by omega
    rw [Param.bytes, List.map_cons, printAll_cons, print_digit w h hcount hn, Option.bind_some]
    generalize hdata : t.cons.outputStateData.set (n + 1) _ = data
    have hcount' : separatorCount data = n := by rw [← hdata, separatorCount_set, hcount]
    have hrest := ih (t := t.withData data) h hcount'
    rw [Param.bytes] at hrest
    rw [hrest]
    subst hdata
    simp [Param.addTo]

/-- Parameters behind separators. -/
def separated (ps : List Param) : List UInt8 := ps.flatMap fun p ↦ 0x3B :: p.bytes

/-- `ESC [`, parameters with separators between them, and the character that ends them. -/
def sequenceBytes (p : Param) (ps : List Param) (final : UInt8) : List UInt8 :=
  [0x1B, 0x5B] ++ p.bytes ++ separated ps ++ [final]

/-- The array behind one parameter. -/
def oneParameter (p : Param) : Vector UInt8 100 :=
  (Vector.replicate 100 0).setIfInBounds 1 (.ofNat p.value)

/-- The array behind two parameters. -/
def twoParameters (p q : Param) : Vector UInt8 100 :=
  (separate (oneParameter p)).setIfInBounds 2 (.ofNat q.value)

theorem set_eq_setIfInBounds (data : Vector UInt8 100) {i : Nat} (h : i < 100) (b : UInt8) :
    data.set i b = data.setIfInBounds i b := by
  ext j hj
  rw [Vector.getElem_set, Vector.getElem_setIfInBounds]

theorem separatorCount_oneParameter (p : Param) : separatorCount (oneParameter p) = 0 := by
  simp [separatorCount, oneParameter]

theorem firstParameter_oneParameter (p : Param) :
    firstParameter (oneParameter p) = .ofNat p.value := by
  simp [firstParameter, oneParameter]

theorem printAll_first (h : t.cons.outputState = .none) (p : Param) :
    printAll w t ([0x1B, 0x5B] ++ p.bytes) = some { t with
      cons := { outputState := .bracket, outputStateData := oneParameter p } } := by
  rw [printAll_append, printAll_bracket w h, Option.bind_some,
    printAll_digits w rfl (n := 0) rfl (by omega), set_eq_setIfInBounds]
  simp [Param.addTo_zero, Terminal.withData, oneParameter]

/-- What a sequence with one parameter asks of the console. -/
theorem calls_one (h : t.cons.outputState = .none) (p : Param) {c : UInt8}
    (hfinal : isFinal c = true) :
    (printAll w t (sequenceBytes p [] c)).map Terminal.calls = some (t.calls ++
      (bracketCall (w.screen t.window) ⟨.bracket, oneParameter p⟩ c).toList) := by
  rw [sequenceBytes, separated, List.flatMap_nil, List.append_nil, printAll_append,
    printAll_first w h, Option.bind_some, printAll_cons, print_final w rfl hfinal,
    Option.bind_some, printAll_nil]
  rfl

theorem printAll_second (h : t.cons.outputState = .bracket) {p : Param}
    (hdata : t.cons.outputStateData = oneParameter p) (q : Param) :
    printAll w t (0x3B :: q.bytes) = some (t.withData (twoParameters p q)) := by
  rw [printAll_cons, print_separator w h, Option.bind_some, hdata]
  have hcount : separatorCount (separate (oneParameter p)) = 1 := by
    rw [separatorCount_separate, separatorCount_oneParameter]
  have hsecond : (separate (oneParameter p))[2] = 0 := by simp [separate, oneParameter]
  rw [printAll_digits w (t := t.withData (separate (oneParameter p))) h hcount (by omega),
    set_eq_setIfInBounds]
  simp [hsecond, twoParameters, Param.addTo_zero]

/-- With two. -/
theorem calls_two (h : t.cons.outputState = .none) (p q : Param) {c : UInt8}
    (hfinal : isFinal c = true) :
    (printAll w t (sequenceBytes p [q] c)).map Terminal.calls = some (t.calls ++
      (bracketCall (w.screen t.window) ⟨.bracket, twoParameters p q⟩ c).toList) := by
  rw [sequenceBytes, separated, List.flatMap_cons, List.flatMap_nil, List.append_nil,
    printAll_append, printAll_append, printAll_first w h, Option.bind_some,
    printAll_second w rfl rfl, Option.bind_some, printAll_cons, print_final w rfl hfinal,
    Option.bind_some, printAll_nil]
  rfl

/-! ## Any number of parameters -/

theorem printAll_parameter (h : t.cons.outputState = .bracket) {n : Nat}
    (hcount : separatorCount t.cons.outputStateData = n) (hn : n ≤ 97) (p : Param) :
    ∃ data, printAll w t (0x3B :: p.bytes) = some (t.withData data) ∧
      separatorCount data = n + 1 ∧
      firstParameter data = firstParameter t.cons.outputStateData := by
  rw [printAll_cons, print_separator w h, Option.bind_some]
  have hcount' : separatorCount (separate t.cons.outputStateData) = n + 1 := by
    rw [separatorCount_separate, hcount, Nat.mod_eq_of_lt (by omega)]
  rw [printAll_digits w (t := t.withData (separate t.cons.outputStateData)) h hcount' (by omega)]
  refine ⟨_, rfl, ?_, ?_⟩
  · rw [separatorCount_set, data_withData, hcount']
  · simp [firstParameter, separate]

/-- With an element for each of them, the first parameter stays. -/
theorem printAll_separated (h : t.cons.outputState = .bracket) {n : Nat}
    (hcount : separatorCount t.cons.outputStateData = n) (ps : List Param)
    (hn : n + ps.length ≤ 98) :
    ∃ data, printAll w t (separated ps) = some (t.withData data) ∧
      firstParameter data = firstParameter t.cons.outputStateData := by
  induction ps generalizing t n with
  | nil => exact ⟨_, rfl, rfl⟩
  | cons p ps ih =>
    rw [List.length_cons] at hn
    obtain ⟨data, hdata, hcount', hfirst⟩ := printAll_parameter w h hcount (by omega) p
    obtain ⟨data', hdata', hfirst'⟩ := ih (t := t.withData data) h hcount' (by omega)
    refine ⟨data', ?_, hfirst'.trans hfirst⟩
    rw [separated, List.flatMap_cons, printAll_append, hdata, Option.bind_some, ← separated,
      hdata']
    rfl

/-- More, none of them absent, leave the array. -/
theorem printAll_separated_of_lt (h : t.cons.outputState = .bracket) {n : Nat}
    (hcount : separatorCount t.cons.outputStateData = n) (hle : n ≤ 98) (ps : List Param)
    (hpresent : ∀ p ∈ ps, p ≠ []) (hn : 98 < n + ps.length) :
    printAll w t (separated ps) = none := by
  induction ps generalizing t n with
  | nil =>
    rw [List.length_nil] at hn
    omega
  | cons p ps ih =>
    rw [List.length_cons] at hn
    rw [separated, List.flatMap_cons, printAll_append, ← separated]
    by_cases hlast : n ≤ 97
    · obtain ⟨data, hdata, hcount', -⟩ := printAll_parameter w h hcount hlast p
      rw [hdata, Option.bind_some]
      exact ih (t := t.withData data) h hcount' (by omega)
        (fun q hq ↦ hpresent q (List.mem_cons_of_mem p hq)) (by omega)
    · cases p with
      | nil => exact absurd rfl (hpresent [] List.mem_cons_self)
      | cons d p =>
        rw [printAll_cons, print_separator w h, Option.bind_some]
        have houtside : 98 < separatorCount (separate t.cons.outputStateData) := by
          rw [separatorCount_separate, hcount]
          omega
        rw [Param.bytes, List.map_cons, printAll_cons,
          print_digit_of_lt w (t := t.withData (separate t.cons.outputStateData)) h houtside,
          Option.bind_none, Option.bind_none]

theorem eq_withData_of_digit (h : t.cons.outputState = .bracket) {c : UInt8}
    (hdigit : isDigit c = true) {t' : Terminal κ} (hstep : print w t c = some t') :
    ∃ data, t' = t.withData data := by
  have hequal : c ≠ 0x3D := by
    rintro rfl
    exact absurd hdigit (by decide)
  rw [print, outputChar, alwaysSpecial_of_isDigit hdigit] at hstep
  by_cases hle : separatorCount t.cons.outputStateData ≤ 98
  · simp [outputStep, h, hequal, hdigit, Cons25.addDigit_of_le _ _ hle, Terminal.after] at hstep
    exact ⟨t'.cons.outputStateData, by simp [← hstep, Terminal.withData, h]⟩
  · simp [outputStep, h, hequal, hdigit, Cons25.addDigit_of_lt _ _ (Nat.lt_of_not_le hle)] at hstep

/-- Whatever the digits and separators are, they touch nothing but the array. -/
theorem eq_withData_of_printAll (h : t.cons.outputState = .bracket) {cs : List UInt8}
    (hcs : ∀ c ∈ cs, isDigit c = true ∨ c = 0x3B) {t' : Terminal κ}
    (hrun : printAll w t cs = some t') : ∃ data, t' = t.withData data := by
  induction cs generalizing t with
  | nil =>
    obtain rfl : t = t' := by simpa using hrun
    exact ⟨_, rfl⟩
  | cons c cs ih =>
    obtain ⟨hc, hcs⟩ := List.forall_mem_cons.mp hcs
    rw [printAll_cons, Option.bind_eq_some_iff] at hrun
    obtain ⟨t₁, hstep, hrun⟩ := hrun
    have hdata : ∃ data, t₁ = t.withData data := by
      rcases hc with hdigit | rfl
      · exact eq_withData_of_digit w h hdigit hstep
      · rw [print_separator w h, Option.some.injEq] at hstep
        exact ⟨_, hstep.symm⟩
    obtain ⟨data, rfl⟩ := hdata
    exact ih (t := t.withData data) h hcs hrun

end Print

end Keow.Console
