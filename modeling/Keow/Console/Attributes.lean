import Keow.Console.Sequence

/-!
# Attribute sequences

`ESC [ p1 ; ... ; pk m` applies its first parameter and none of the others, and 0 resets the
colour and the intensity of the foreground but not reverse video.
-/

namespace Keow.Console

/-- A parameter that `m` knows, 0 when it is absent. -/
structure AttributeParam where
  digits : Param
  known : digits.value ∈ [0, 1, 2, 5, 7]

namespace AttributeParam

abbrev value (p : AttributeParam) : Nat := p.digits.value

end AttributeParam

/-- `ESC [ p1 ; ... ; pk m`. -/
structure AttributeSequence where
  first : AttributeParam
  rest : List AttributeParam

namespace AttributeSequence

def parameters (q : AttributeSequence) : List AttributeParam := q.first :: q.rest

def bytes (q : AttributeSequence) : List UInt8 :=
  sequenceBytes q.first.digits (q.rest.map AttributeParam.digits) 0x6D

/-- Each parameter in a sequence of its own. -/
def split (q : AttributeSequence) : List AttributeSequence := q.parameters.map (⟨·, []⟩)

end AttributeSequence

/-! ## The bits of an attribute -/

/-- The intensity behind these parameters: the last 1 or 2 among them decides it. -/
def bold (a : BitVec 16) (vs : List Nat) : Bool :=
  match (vs.filter (· ∈ [1, 2])).getLast? with
  | none => a.getLsbD 3
  | some v => v = 1

/-- Reverse video behind these parameters. -/
def reverse (a : BitVec 16) (vs : List Nat) : Bool := a.getLsbD 14 || decide (7 ∈ vs)

/-- The parameters one after the other. -/
def applyAll (a : BitVec 16) (vs : List Nat) : BitVec 16 :=
  vs.foldl (fun a v ↦ setAttributes a (.ofNat v)) a

/-- No parameter changes the background. -/
theorem getLsbD_four_setAttributes (a : BitVec 16) (b : UInt8) :
    (setAttributes a b).getLsbD 4 = a.getLsbD 4 := by
  unfold setAttributes
  split <;> simp [FOREGROUND_MASK, FOREGROUND_WHITE, FOREGROUND_INTENSITY, COMMON_LVB_REVERSE_VIDEO]

theorem getLsbD_intensity (i : Nat) : FOREGROUND_INTENSITY.getLsbD i = decide (3 = i) := by
  rw [show FOREGROUND_INTENSITY = BitVec.twoPow 16 3 by decide, BitVec.getLsbD_twoPow]
  simp

theorem getLsbD_reverse (i : Nat) : COMMON_LVB_REVERSE_VIDEO.getLsbD i = decide (14 = i) := by
  rw [show COMMON_LVB_REVERSE_VIDEO = BitVec.twoPow 16 14 by decide, BitVec.getLsbD_twoPow]
  simp

/-- A parameter other than 0 changes the intensity and reverse video only. -/
theorem getLsbD_setAttributes (a : BitVec 16) {v : Nat} (hv : v ∈ [1, 2, 5, 7]) {i : Nat}
    (hi : i < 16) :
    (setAttributes a (.ofNat v)).getLsbD i =
      if i = 3 then bold a [v] else if i = 14 then reverse a [v] else a.getLsbD i := by
  simp only [List.mem_cons, List.not_mem_nil, or_false] at hv
  rcases hv with rfl | rfl | rfl | rfl
  · have hset : setAttributes a (.ofNat 1) = a ||| FOREGROUND_INTENSITY := rfl
    rw [hset, BitVec.getLsbD_or, getLsbD_intensity]
    grind [bold, reverse]
  · have hset : setAttributes a (.ofNat 2) = a &&& ~~~FOREGROUND_INTENSITY := rfl
    rw [hset, BitVec.getLsbD_and, BitVec.getLsbD_not, getLsbD_intensity]
    grind [bold, reverse]
  · have hset : setAttributes a (.ofNat 5) = a := rfl
    rw [hset]
    grind [bold, reverse]
  · have hset : setAttributes a (.ofNat 7) = a ||| COMMON_LVB_REVERSE_VIDEO := rfl
    rw [hset, BitVec.getLsbD_or, getLsbD_reverse]
    grind [bold, reverse]

theorem bold_singleton (a : BitVec 16) (v : Nat) :
    bold a [v] = if v ∈ [1, 2] then decide (v = 1) else a.getLsbD 3 := by
  unfold bold
  by_cases hdecides : v ∈ [1, 2]
  · rw [List.filter_cons_of_pos (by simpa using hdecides), if_pos hdecides]
    rfl
  · rw [List.filter_cons_of_neg (by simpa using hdecides), if_neg hdecides]
    rfl

theorem bold_cons (a : BitVec 16) {v : Nat} (hv : v ∈ [1, 2, 5, 7]) (vs : List Nat) :
    bold a (v :: vs) = bold (setAttributes a (.ofNat v)) vs := by
  have hbit := getLsbD_setAttributes a hv (i := 3) (by omega)
  rw [if_pos rfl, bold_singleton] at hbit
  unfold bold
  rw [hbit]
  by_cases hdecides : v ∈ [1, 2]
  · rw [List.filter_cons_of_pos (by simpa using hdecides), List.getLast?_cons, if_pos hdecides]
    cases (vs.filter (· ∈ [1, 2])).getLast? <;> rfl
  · rw [List.filter_cons_of_neg (by simpa using hdecides), if_neg hdecides]

theorem reverse_cons (a : BitVec 16) {v : Nat} (hv : v ∈ [1, 2, 5, 7]) (vs : List Nat) :
    reverse a (v :: vs) = reverse (setAttributes a (.ofNat v)) vs := by
  have hbit := getLsbD_setAttributes a hv (i := 14) (by omega)
  simp_all [reverse, Bool.or_assoc]

theorem getLsbD_applyAll (a : BitVec 16) {vs : List Nat} (hvs : ∀ v ∈ vs, v ∈ [1, 2, 5, 7])
    {i : Nat} (hi : i < 16) :
    (applyAll a vs).getLsbD i =
      if i = 3 then bold a vs else if i = 14 then reverse a vs else a.getLsbD i := by
  induction vs generalizing a with
  | nil =>
    by_cases h3 : i = 3
    · simp [applyAll, bold, h3]
    · by_cases h14 : i = 14 <;> simp [applyAll, reverse, h3, h14]
  | cons v vs ih =>
    obtain ⟨hv, hvs⟩ := List.forall_mem_cons.mp hvs
    have hother := getLsbD_setAttributes a hv hi
    rw [bold_cons a hv, reverse_cons a hv, applyAll, List.foldl_cons, ← applyAll, ih _ hvs]
    grind

theorem applyAll_eq_iff (a : BitVec 16) {us vs : List Nat} (hus : ∀ v ∈ us, v ∈ [1, 2, 5, 7])
    (hvs : ∀ v ∈ vs, v ∈ [1, 2, 5, 7]) :
    applyAll a us = applyAll a vs ↔ bold a us = bold a vs ∧ reverse a us = reverse a vs := by
  constructor
  · intro heq
    have hbold := congrArg (·.getLsbD 3) heq
    have hreverse := congrArg (·.getLsbD 14) heq
    simp only [getLsbD_applyAll a hus (by omega : 3 < 16),
      getLsbD_applyAll a hvs (by omega : 3 < 16), if_true] at hbold
    simp only [getLsbD_applyAll a hus (by omega : 14 < 16),
      getLsbD_applyAll a hvs (by omega : 14 < 16), if_true] at hreverse
    exact ⟨hbold, hreverse⟩
  · rintro ⟨hbold, hreverse⟩
    apply BitVec.eq_of_getLsbD_eq
    intro i hi
    rw [getLsbD_applyAll a hus hi, getLsbD_applyAll a hvs hi, hbold, hreverse]

/-! ## A list of sequences -/

/-- The parameters in order. -/
def values (seqs : List AttributeSequence) : List Nat :=
  (seqs.flatMap AttributeSequence.parameters).map AttributeParam.value

/-- The first parameter of each sequence. -/
def firsts (seqs : List AttributeSequence) : List Nat := seqs.map fun q ↦ q.first.value

theorem known_values {seqs : List AttributeSequence} {v : Nat} (hv : v ∈ values seqs) :
    v ∈ [0, 1, 2, 5, 7] := by
  obtain ⟨p, -, rfl⟩ := List.mem_map.mp hv
  exact p.known

theorem mem_values_of_mem_firsts {seqs : List AttributeSequence} {v : Nat}
    (hv : v ∈ firsts seqs) : v ∈ values seqs := by
  obtain ⟨q, hq, rfl⟩ := List.mem_map.mp hv
  exact List.mem_map.mpr ⟨q.first, List.mem_flatMap.mpr ⟨q, hq, List.mem_cons_self⟩, rfl⟩

/-- No parameter is 0 or absent and no sequence has more than 99 of them, the intensity is the
same with the first parameters alone, and reverse video is on already or set by one of these. -/
structure FirstsSuffice (a : BitVec 16) (seqs : List AttributeSequence) : Prop where
  nonzero : 0 ∉ values seqs
  few : ∀ q ∈ seqs, q.parameters.length ≤ 99
  intensity : bold a (firsts seqs) = bold a (values seqs)
  reverse : 7 ∈ values seqs → a.getLsbD 14 = true ∨ 7 ∈ firsts seqs

section Print

variable {κ : Type} (w : Window κ) {t : Terminal κ}

/-- The attributes of the console. -/
def attributes (t : Terminal κ) : BitVec 16 := (w.screen t.window).attributes

/-- What `SetConsoleTextAttribute` sets is what `GetConsoleScreenBufferInfo` reports. -/
def Window.SetsAttributes : Prop :=
  ∀ a k, (w.screen (w.perform (.setConsoleTextAttribute a) k)).attributes = a

/-- The attribute behind the sequences. -/
def finalAttribute (t : Terminal κ) (seqs : List AttributeSequence) : Option (BitVec 16) :=
  (printAll w t (seqs.flatMap AttributeSequence.bytes)).map (attributes w)

/-- The sequences end with the attribute that their parameters set one at a time, which is the
one of any other terminal too if 0 is among them. -/
def Composes (t : Terminal κ) (seqs : List AttributeSequence) : Prop :=
  ∃ a, finalAttribute w t seqs = some a ∧
    finalAttribute w t (seqs.flatMap AttributeSequence.split) = some a ∧
    (0 ∈ values seqs → ∀ t' : Terminal κ, t'.cons.outputState = .none →
      finalAttribute w t' seqs = some a)

/-- The terminal behind a sequence, with the array that the parameters leave. -/
theorem print_attributes (hset : w.SetsAttributes) (h : t.cons.outputState = .bracket) :
    ∃ t', print w t 0x6D = some t' ∧ t'.cons.outputState = .none ∧
      attributes w t' =
        setAttributes (attributes w t) (firstParameter t.cons.outputStateData) := by
  refine ⟨_, print_final w h rfl, rfl, ?_⟩
  exact hset _ _

/-- A sequence with an element for each parameter sets the first one. -/
theorem printAll_few (hset : w.SetsAttributes) (h : t.cons.outputState = .none)
    {q : AttributeSequence} (hfew : q.parameters.length ≤ 99) :
    ∃ t', printAll w t q.bytes = some t' ∧ t'.cons.outputState = .none ∧
      attributes w t' = setAttributes (attributes w t) (.ofNat q.first.value) := by
  have hlen : 0 + (q.rest.map AttributeParam.digits).length ≤ 98 := by
    simp only [AttributeSequence.parameters, List.length_cons] at hfew
    rw [List.length_map]
    omega
  rw [AttributeSequence.bytes, sequenceBytes, printAll_append, printAll_append, printAll_first w h,
    Option.bind_some]
  generalize hone : ({ t with cons := _ } : Terminal κ) = t₁
  have hstate : t₁.cons.outputState = .bracket := by rw [← hone]
  have hcount : separatorCount t₁.cons.outputStateData = 0 := by
    rw [← hone, separatorCount_oneParameter]
  obtain ⟨data, hrest, hfirst⟩ := printAll_separated w hstate hcount _ hlen
  have hstate' : (t₁.withData data).cons.outputState = .bracket := hstate
  obtain ⟨t', hprint, hnone, hattr⟩ := print_attributes w hset hstate'
  refine ⟨t', ?_, hnone, ?_⟩
  · rw [hrest, Option.bind_some, printAll_cons, hprint]
    rfl
  · rw [hattr, data_withData, hfirst, ← hone, firstParameter_oneParameter]
    rfl

/-- One with more parameters, none of them absent, leaves the array. -/
theorem printAll_many (h : t.cons.outputState = .none) {q : AttributeSequence}
    (hpresent : ∀ p ∈ q.rest, p.digits ≠ []) (hmany : 99 < q.parameters.length) :
    printAll w t q.bytes = none := by
  have hlen : 98 < 0 + (q.rest.map AttributeParam.digits).length := by
    simp only [AttributeSequence.parameters, List.length_cons] at hmany
    rw [List.length_map]
    omega
  rw [AttributeSequence.bytes, sequenceBytes, printAll_append, printAll_append, printAll_first w h,
    Option.bind_some, printAll_separated_of_lt w rfl
      (separatorCount_oneParameter _) (by omega) _ _ hlen]
  · rfl
  · simpa using hpresent

/-- Any sequence sets something. -/
theorem printAll_sets (hset : w.SetsAttributes) (h : t.cons.outputState = .none)
    {q : AttributeSequence} {t' : Terminal κ} (hrun : printAll w t q.bytes = some t') :
    t'.cons.outputState = .none ∧ ∃ b, attributes w t' = setAttributes (attributes w t) b := by
  have hcs : ∀ c ∈ separated (q.rest.map AttributeParam.digits), isDigit c = true ∨ c = 0x3B := by
    intro c hc
    simp only [separated, List.mem_flatMap, List.mem_cons, Param.bytes, List.mem_map] at hc
    obtain ⟨p, -, rfl | ⟨d, -, rfl⟩⟩ := hc
    · exact .inr rfl
    · exact .inl (isDigit_digit d)
  rw [AttributeSequence.bytes, sequenceBytes, printAll_append, printAll_append, printAll_first w h,
    Option.bind_some, Option.bind_eq_some_iff] at hrun
  generalize hone : ({ t with cons := _ } : Terminal κ) = t₁ at hrun
  have hstate : t₁.cons.outputState = .bracket := by rw [← hone]
  obtain ⟨t₂, hrest, hrun⟩ := hrun
  obtain ⟨data, rfl⟩ := eq_withData_of_printAll w hstate hcs hrest
  obtain ⟨t₃, hprint, hnone, hattr⟩ := print_attributes w hset (t := t₁.withData data) hstate
  rw [printAll_cons, hprint] at hrun
  obtain rfl : t₃ = t' := by simpa using hrun
  subst hone
  exact ⟨hnone, _, hattr⟩

/-! ## All of them -/

theorem finalAttribute_cons (q : AttributeSequence) (seqs : List AttributeSequence) :
    finalAttribute w t (q :: seqs) =
      (printAll w t q.bytes).bind (finalAttribute w · seqs) := by
  rw [finalAttribute, List.flatMap_cons, printAll_append, Option.map_bind]
  rfl

/-- With an element for each parameter the first ones count. -/
theorem finalAttribute_few (hset : w.SetsAttributes) (h : t.cons.outputState = .none)
    {seqs : List AttributeSequence} (hfew : ∀ q ∈ seqs, q.parameters.length ≤ 99) :
    finalAttribute w t seqs = some (applyAll (attributes w t) (firsts seqs)) := by
  induction seqs generalizing t with
  | nil => rfl
  | cons q seqs ih =>
    obtain ⟨hq, hfew⟩ := List.forall_mem_cons.mp hfew
    obtain ⟨t', hrun, hnone, hattr⟩ := printAll_few w hset h hq
    rw [finalAttribute_cons, hrun, Option.bind_some, ih hnone hfew, hattr]
    rfl

/-- One with more, and no parameter that is absent. -/
theorem finalAttribute_many (hset : w.SetsAttributes) (h : t.cons.outputState = .none)
    {seqs : List AttributeSequence} (hpresent : ∀ q ∈ seqs, ∀ p ∈ q.parameters, p.digits ≠ [])
    {q : AttributeSequence} (hq : q ∈ seqs) (hmany : 99 < q.parameters.length) :
    finalAttribute w t seqs = none := by
  induction seqs generalizing t with
  | nil => cases hq
  | cons r seqs ih =>
    obtain ⟨hr, hpresent⟩ := List.forall_mem_cons.mp hpresent
    rw [finalAttribute_cons]
    by_cases hlen : 99 < r.parameters.length
    · rw [printAll_many w h (fun p hp ↦ hr p (List.mem_cons_of_mem _ hp)) hlen]
      rfl
    · obtain ⟨t', hrun, hnone, -⟩ := printAll_few w hset h (Nat.le_of_not_lt hlen)
      rw [hrun, Option.bind_some]
      rcases List.mem_cons.mp hq with rfl | hq
      · exact absurd hmany hlen
      · exact ih hnone hpresent hq

/-- The background stays. -/
theorem finalAttribute_background (hset : w.SetsAttributes) (h : t.cons.outputState = .none)
    {seqs : List AttributeSequence} {a : BitVec 16} (hrun : finalAttribute w t seqs = some a) :
    a.getLsbD 4 = (attributes w t).getLsbD 4 := by
  induction seqs generalizing t with
  | nil =>
    obtain rfl : attributes w t = a := by simpa [finalAttribute] using hrun
    rfl
  | cons q seqs ih =>
    rw [finalAttribute_cons, Option.bind_eq_some_iff] at hrun
    obtain ⟨t', hfirst, hrun⟩ := hrun
    obtain ⟨hnone, b, hattr⟩ := printAll_sets w hset h hfirst
    rw [ih hnone hrun, hattr, getLsbD_four_setAttributes]

theorem firsts_split (seqs : List AttributeSequence) :
    firsts (seqs.flatMap AttributeSequence.split) = values seqs := by
  simp only [firsts, values, List.map_flatMap, AttributeSequence.split, List.map_map]
  rfl

theorem finalAttribute_split (hset : w.SetsAttributes) (h : t.cons.outputState = .none)
    (seqs : List AttributeSequence) :
    finalAttribute w t (seqs.flatMap AttributeSequence.split) =
      some (applyAll (attributes w t) (values seqs)) := by
  rw [finalAttribute_few w hset h, firsts_split]
  intro q hq
  simp only [AttributeSequence.split, List.mem_flatMap, List.mem_map] at hq
  obtain ⟨-, -, p, -, rfl⟩ := hq
  exact Nat.le_of_ble_eq_true rfl

theorem present_of_nonzero {seqs : List AttributeSequence} (h : 0 ∉ values seqs) :
    ∀ q ∈ seqs, ∀ p ∈ q.parameters, p.digits ≠ [] := by
  intro q hq p hp habsent
  have hvalue : p.value = 0 := by rw [AttributeParam.value, habsent, Param.value_nil]
  exact h (List.mem_map.mpr ⟨p, List.mem_flatMap.mpr ⟨q, hq, hp⟩, hvalue⟩)

/-- The other background ends in another attribute. -/
theorem nonzero_of_composes (hset : w.SetsAttributes) (h : t.cons.outputState = .none)
    {seqs : List AttributeSequence} (hcomp : Composes w t seqs) : 0 ∉ values seqs := by
  intro hzero
  obtain ⟨a, hrun, -, hsame⟩ := hcomp
  let a' := ~~~attributes w t
  let t' := { t with window := w.perform (.setConsoleTextAttribute a') t.window }
  have hattr : attributes w t' = a' := hset _ _
  have hback := finalAttribute_background w hset h hrun
  have hback' := finalAttribute_background w hset (t := t') h (hsame hzero t' h)
  rw [hattr, hback] at hback'
  simp [a'] at hback'

theorem few_of_composes (hset : w.SetsAttributes) (h : t.cons.outputState = .none)
    {seqs : List AttributeSequence} (hnonzero : 0 ∉ values seqs) (hcomp : Composes w t seqs) :
    ∀ q ∈ seqs, q.parameters.length ≤ 99 := by
  intro q hq
  by_contra hmany
  obtain ⟨a, hrun, -⟩ := hcomp
  rw [finalAttribute_many w hset h (present_of_nonzero hnonzero) hq (Nat.lt_of_not_le hmany)]
    at hrun
  cases hrun

/-- Attribute sequences compose exactly if their first parameters suffice. -/
theorem composes_iff (hset : w.SetsAttributes) (h : t.cons.outputState = .none)
    (seqs : List AttributeSequence) :
    Composes w t seqs ↔ FirstsSuffice (attributes w t) seqs := by
  have hknown (hnonzero : 0 ∉ values seqs) : ∀ v ∈ values seqs, v ∈ [1, 2, 5, 7] := by
    intro v hv
    have hmem := known_values hv
    rcases List.mem_cons.mp hmem with rfl | hmem
    · exact absurd hv hnonzero
    · exact hmem
  have hknown' (hnonzero : 0 ∉ values seqs) : ∀ v ∈ firsts seqs, v ∈ [1, 2, 5, 7] :=
    fun v hv ↦ hknown hnonzero v (mem_values_of_mem_firsts hv)
  constructor
  · intro hcomp
    have hnonzero := nonzero_of_composes w hset h hcomp
    have hfew := few_of_composes w hset h hnonzero hcomp
    obtain ⟨a, hrun, hsplit, -⟩ := hcomp
    rw [finalAttribute_few w hset h hfew, Option.some.injEq] at hrun
    rw [finalAttribute_split w hset h, Option.some.injEq, ← hrun, eq_comm,
      applyAll_eq_iff _ (hknown' hnonzero) (hknown hnonzero)] at hsplit
    refine ⟨hnonzero, hfew, hsplit.1, fun hmem ↦ ?_⟩
    simpa [reverse, hmem] using hsplit.2
  · intro hfit
    refine ⟨_, finalAttribute_few w hset h hfit.few, ?_, fun hzero ↦ absurd hzero hfit.nonzero⟩
    rw [finalAttribute_split w hset h, Option.some.injEq, eq_comm,
      applyAll_eq_iff _ (hknown' hfit.nonzero) (hknown hfit.nonzero)]
    refine ⟨hfit.intensity, ?_⟩
    by_cases hmem : 7 ∈ values seqs
    · simpa [reverse, hmem] using hfit.reverse hmem
    · have hmem' : 7 ∉ firsts seqs := fun h7 ↦ hmem (mem_values_of_mem_firsts h7)
      simp [reverse, hmem, hmem']

end Print

/-- A window that keeps its attributes. -/
def attributeWindow : Window Screen where
  screen := id
  perform call s :=
    match call with
    | .setConsoleTextAttribute a => { s with attributes := a }
    | _ => s

/-- A parameter of one digit. -/
def attributeParam (d : Fin 10) (h : Param.value [d] ∈ [0, 1, 2, 5, 7] := by decide) :
    AttributeParam := ⟨[d], h⟩

/-- Bold, then reverse video and blink in one sequence. -/
theorem composes_bold_reverse :
    Composes attributeWindow (Terminal.start (Vector.replicate 100 0) startScreen)
      [⟨attributeParam 1, []⟩, ⟨attributeParam 7, [attributeParam 5]⟩] :=
  (composes_iff attributeWindow (fun _ _ ↦ rfl) rfl _).mpr
    ⟨by decide, by decide, by decide, by decide⟩

/-- `ESC [ 1 ; 7 m` leaves reverse video off. -/
theorem not_composes_reverse :
    ¬Composes attributeWindow (Terminal.start (Vector.replicate 100 0) startScreen)
      [⟨attributeParam 1, [attributeParam 7]⟩] := by
  rintro ⟨a, hrun, hsplit, -⟩
  rw [finalAttribute_few attributeWindow (fun _ _ ↦ rfl) rfl (by decide)] at hrun
  rw [finalAttribute_split attributeWindow (fun _ _ ↦ rfl) rfl, ← hrun] at hsplit
  exact absurd hsplit (by decide)

end Keow.Console
