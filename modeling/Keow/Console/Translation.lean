import Keow.Console.Chunk

/-!
# The translation of input

What `c_iflag` asks for of each character, and the chunks that the handler translates so. The
mask of `ISTRIP` clears bit 6 too. The character behind a discarded one is not looked at as a
character of the chunk. A character that is put in pushes the last one out of the chunk, unless a
copy of it stands behind the end, where each discarded character leaves one.
-/

namespace Keow.Console

open Keow.Base Keow.Kernel

section Specification

variable (c_iflag : DWORD)

/-- `ISTRIP` clears bit 7. -/
def sevenBits (b : UInt8) : UInt8 := if isSet c_iflag ISTRIP then b &&& 0x7F else b

/-- What a character is to become. -/
def translation (b : UInt8) : List UInt8 :=
  let b := sevenBits c_iflag b
  if isSet c_iflag IGNCR && b == CR then []
  else if isSet c_iflag INLCR && b == NL then [NL, CR]
  else if isSet c_iflag ICRNL && b == CR then [CR, NL]
  else if isSet c_iflag IUCLC then [tolower b]
  else [b]

/-- The chunk is passed on with each character translated on its own. -/
def TranslatesEach (chunk : List UInt8) : Prop :=
  ∀ (term : TermIOs) (foreground : List Nat) (st : Handler) (turns : Nat),
    term.c_iflag = c_iflag → chunk.length < turns →
      ∃ st', handleChunk term foreground turns chunk st = .ok () st' ∧
        st'.readBuffer = st.readBuffer ++ chunk.flatMap (translation c_iflag)

/-- The masks of `ISTRIP` agree on the character. -/
def FitsMask (b : UInt8) : Prop := isSet c_iflag ISTRIP = true → b &&& 0x7F < 0x40

/-- A character behind a discarded one that needs no stripping and is not to be discarded. -/
def FitsBehind (x : UInt8) : Prop := (isSet c_iflag ISTRIP = true → x < 0x80) ∧ x ≠ CR

/-- What is left of a chunk is translated as it should be if there are so many copies of its last
character behind it: `ISTRIP` meets no character with bit 6, a discarded character is followed by
one that needs neither stripping nor discarding, a discarded last one does not come back through
`ICRNL`, and a character that is put in before the last one has a copy of that to use up. -/
def Undisturbed : Nat → List UInt8 → Prop
  | _, [] => True
  | _, [b] => FitsMask c_iflag b ∧
      (isDiscarded c_iflag (stripped c_iflag b) = true → isSet c_iflag ICRNL = false)
  | copies, b :: x :: s => FitsMask c_iflag b ∧
      if isDiscarded c_iflag (stripped c_iflag b) then
        FitsBehind c_iflag x ∧
          Undisturbed (if (follower c_iflag x).isSome then copies else copies + 1) s
      else if (follower c_iflag (stripped c_iflag b)).isSome then
        0 < copies ∧ Undisturbed (copies - 1) (x :: s)
      else Undisturbed copies (x :: s)

instance (b : UInt8) : Decidable (FitsMask c_iflag b) := by
  unfold FitsMask
  infer_instance

instance (x : UInt8) : Decidable (FitsBehind c_iflag x) := by
  unfold FitsBehind
  infer_instance

instance decidableUndisturbed : (n : Nat) → (s : List UInt8) → Decidable (Undisturbed c_iflag n s)
  | _, [] => inferInstanceAs (Decidable True)
  | _, [b] => by
      unfold Undisturbed
      infer_instance
  | copies, b :: x :: s =>
      have := decidableUndisturbed (if (follower c_iflag x).isSome then copies else copies + 1) s
      have := decidableUndisturbed (copies - 1) (x :: s)
      have := decidableUndisturbed copies (x :: s)
      by
        unfold Undisturbed
        infer_instance

end Specification

/-! ## Bytes -/

section Bytes

variable {c_iflag : DWORD} {b x : UInt8}

theorem toNat_and_7F (b : UInt8) : (b &&& 0x7F).toNat = b.toNat % 128 := by
  rw [UInt8.toNat_and]
  exact Nat.and_two_pow_sub_one_eq_mod b.toNat 7

theorem toNat_and_3F (b : UInt8) : (b &&& 0x3F).toNat = b.toNat % 64 := by
  rw [UInt8.toNat_and]
  exact Nat.and_two_pow_sub_one_eq_mod b.toNat 6

theorem toNat_tolower (b : UInt8) :
    (tolower b).toNat = if 65 ≤ b.toNat ∧ b.toNat ≤ 90 then b.toNat + 32 else b.toNat := by
  have hiff : (0x41 ≤ b ∧ b ≤ 0x5A) ↔ 65 ≤ b.toNat ∧ b.toNat ≤ 90 := Iff.rfl
  unfold tolower
  split
  · rename_i h
    rw [if_pos (hiff.mp h), UInt8.toNat_add]
    have hle := (hiff.mp h).2
    exact Nat.mod_eq_of_lt (by change b.toNat + 32 < 256; omega)
  · rename_i h
    rw [if_neg (mt hiff.mpr h)]

/-- A letter becomes a letter, and every other byte stays. -/
theorem toNat_lowered (c_iflag : DWORD) (b : UInt8) :
    (lowered c_iflag b).toNat = b.toNat ∨
      65 ≤ b.toNat ∧ b.toNat ≤ 90 ∧ (lowered c_iflag b).toNat = b.toNat + 32 := by
  unfold lowered
  split
  · have htolower := toNat_tolower b
    split at htolower
    · rename_i h
      exact .inr ⟨h.1, h.2, htolower⟩
    · exact .inl htolower
  · exact .inl rfl

theorem stripped_eq_sevenBits (h : FitsMask c_iflag b) :
    stripped c_iflag b = sevenBits c_iflag b := by
  unfold stripped sevenBits
  split
  · rename_i hset
    have hlt : (b &&& 0x7F).toNat < 64 := h hset
    apply UInt8.toNat_inj.mp
    rw [toNat_and_7F] at hlt ⊢
    rw [toNat_and_3F]
    omega
  · rfl

theorem sevenBits_eq_self (h : isSet c_iflag ISTRIP = true → x < 0x80) :
    sevenBits c_iflag x = x := by
  unfold sevenBits
  split
  · rename_i hset
    have hlt : x.toNat < 128 := h hset
    apply UInt8.toNat_inj.mp
    rw [toNat_and_7F]
    omega
  · rfl

/-- A character that is not discarded has the outcome that the handler gives it. -/
theorem translation_eq (c_iflag : DWORD) (b : UInt8) :
    translation c_iflag b = if isDiscarded c_iflag (sevenBits c_iflag b) then []
      else outcome c_iflag (sevenBits c_iflag b) := by
  have hlower (c : UInt8) : lowered c_iflag c = if isSet c_iflag IUCLC then tolower c else c := rfl
  unfold translation isDiscarded outcome follower
  generalize sevenBits c_iflag b = c
  dsimp only
  split
  · rfl
  · split
    · rename_i hnl
      simp only [Bool.and_eq_true, beq_iff_eq] at hnl
      have htolower : tolower NL = NL := by decide
      rw [hnl.2, hlower, htolower, ite_self]
      rfl
    · split
      · rename_i hcr
        simp only [Bool.and_eq_true, beq_iff_eq] at hcr
        rw [hcr.2, lowered_CR]
        rfl
      · rw [hlower]
        split <;> rfl

end Bytes

/-! ## Turns of the loop -/

section Turns

variable {c_iflag : DWORD} {b x : UInt8} {s stale : List UInt8}

theorem emitted_of_discarded (h : isDiscarded c_iflag (stripped c_iflag b) = true) :
    emitted c_iflag (b :: x :: s) stale = outcome c_iflag x ++
      emitted c_iflag (past c_iflag x s (s.getLastD x :: stale)).1
        (past c_iflag x s (s.getLastD x :: stale)).2 := by
  apply emitted_of_some
  simp only [translated, h, if_true]

theorem emitted_of_kept (h : isDiscarded c_iflag (stripped c_iflag b) = false) :
    emitted c_iflag (b :: s) stale = outcome c_iflag (stripped c_iflag b) ++
      emitted c_iflag (past c_iflag (stripped c_iflag b) s stale).1
        (past c_iflag (stripped c_iflag b) s stale).2 := by
  apply emitted_of_some
  unfold translated
  rw [h, if_neg Bool.false_ne_true]

theorem emitted_of_last (h : isDiscarded c_iflag (stripped c_iflag b) = true) :
    emitted c_iflag [b] stale = if isSet c_iflag ICRNL then [CR] else [] := by
  have hnone : translated c_iflag b [] stale = none := by simp only [translated, h, if_true]
  rw [emitted_of_none c_iflag hnone, eq_CR_of_isDiscarded h, isSome_follower_CR]

theorem past_nil (c_iflag : DWORD) (x : UInt8) (stale : List UInt8) :
    (past c_iflag x [] stale).1 = [] :=
  List.length_eq_zero_iff.mp (Nat.le_zero.mp (length_past_le c_iflag x [] stale))

theorem emitted_of_kept_last (h : isDiscarded c_iflag (stripped c_iflag b) = false) :
    emitted c_iflag [b] stale = outcome c_iflag (stripped c_iflag b) := by
  rw [emitted_of_kept h, past_nil, emitted, List.append_nil]

theorem past_of_none (h : (follower c_iflag x).isSome = false) :
    past c_iflag x s stale = (s, stale) := by
  rw [past, h, if_neg Bool.false_ne_true]

theorem past_of_some (h : (follower c_iflag x).isSome = true) :
    past c_iflag x s stale = pushed s stale := by
  rw [past, if_pos h]

/-- A copy of the last character takes its place. -/
theorem pushed_copy (s stale : List UInt8) (x : UInt8) :
    pushed s (s.getLastD x :: stale) = (s, stale) := by
  cases s using List.reverseRecOn with
  | nil => rfl
  | append_singleton t y => simp [pushed]

theorem toList_follower (h : (follower c_iflag x).isSome = false) :
    (follower c_iflag x).toList = [] := by
  rw [Option.isSome_eq_false_iff, Option.isNone_iff_eq_none] at h
  rw [h, Option.toList_none]

theorem outcome_of_none (h : (follower c_iflag x).isSome = false) :
    outcome c_iflag x = [lowered c_iflag x] := by
  rw [outcome, toList_follower h]

/-- So many copies of the last character of `s`, and then `z`. -/
def Copies (n : Nat) (z s stale : List UInt8) : Prop :=
  ∀ y ∈ s.getLast?, stale = List.replicate n y ++ z

theorem translation_of_fitsMask (h : FitsMask c_iflag b) :
    translation c_iflag b = if isDiscarded c_iflag (stripped c_iflag b) then []
      else outcome c_iflag (stripped c_iflag b) := by
  rw [translation_eq, stripped_eq_sevenBits h]

theorem translation_of_fitsBehind (h : FitsBehind c_iflag x) :
    translation c_iflag x = outcome c_iflag x := by
  have hkept : isDiscarded c_iflag x = false := by
    rw [Bool.eq_false_iff]
    exact fun hdiscard ↦ h.2 (eq_CR_of_isDiscarded hdiscard)
  rw [translation_eq, sevenBits_eq_self h.1, hkept, if_neg Bool.false_ne_true]

section Copies

variable {n : Nat} {z : List UInt8}

theorem Copies.tail (h : Copies n z (b :: x :: s) stale) : Copies n z (x :: s) stale := h

theorem Copies.rest (h : Copies n z (b :: x :: s) stale) : Copies n z s stale := by
  intro y hy
  exact h y (by rw [List.getLast?_cons_cons, List.getLast?_cons, hy]; rfl)

/-- A discarded character leaves one more. -/
theorem Copies.cons (h : Copies n z (b :: x :: s) stale) :
    Copies (n + 1) z s (s.getLastD x :: stale) := by
  intro y hy
  have hlast : s.getLastD x = y := by rw [List.getLastD_eq_getLast?, hy, Option.getD_some]
  rw [hlast, h.rest y hy, List.replicate_succ, List.cons_append]

/-- A character that is put in uses one up. -/
theorem Copies.pushed_eq (h : Copies (n + 1) z (x :: s) stale) :
    ∃ stale', pushed (x :: s) stale = (x :: s, stale') ∧ Copies n z (x :: s) stale' := by
  have hlast : (x :: s).getLast? = some (s.getLastD x) := by
    rw [List.getLast?_cons, List.getLastD_eq_getLast?]
  refine ⟨List.replicate n (s.getLastD x) ++ z, ?_, ?_⟩
  · rw [h _ hlast, List.replicate_succ, List.cons_append, ← List.getLastD_cons (a := 0),
      pushed_copy]
  · intro y hy
    rw [hlast, Option.mem_some_iff] at hy
    rw [hy]

end Copies

/-- An undisturbed chunk is translated as it should be. -/
theorem emitted_of_undisturbed {copies n : Nat} {z : List UInt8} (hn : s.length ≤ n)
    (h : Undisturbed c_iflag copies s) (hcopies : Copies copies z s stale) :
    emitted c_iflag s stale = s.flatMap (translation c_iflag) := by
  induction n generalizing s stale copies with
  | zero =>
    obtain rfl := List.length_eq_zero_iff.mp (Nat.le_zero.mp hn)
    rw [emitted, List.flatMap_nil]
  | succ n ih =>
    cases s with
    | nil => rw [emitted, List.flatMap_nil]
    | cons b s =>
      cases s with
      | nil =>
        rw [Undisturbed] at h
        rw [List.flatMap_singleton, translation_of_fitsMask h.1]
        cases hdiscard : isDiscarded c_iflag (stripped c_iflag b) with
        | true =>
          rw [emitted_of_last hdiscard, h.2 hdiscard, if_neg Bool.false_ne_true, if_pos rfl]
        | false => rw [emitted_of_kept_last hdiscard, if_neg Bool.false_ne_true]
      | cons x s =>
        rw [Undisturbed] at h
        obtain ⟨hmask, h⟩ := h
        simp only [List.length_cons] at hn
        rw [List.flatMap_cons, translation_of_fitsMask hmask]
        cases hdiscard : isDiscarded c_iflag (stripped c_iflag b) with
        | true =>
          rw [if_pos hdiscard] at h
          obtain ⟨hbehind, h⟩ := h
          rw [emitted_of_discarded hdiscard, if_pos rfl, List.nil_append, List.flatMap_cons,
            translation_of_fitsBehind hbehind]
          cases hfollower : (follower c_iflag x).isSome with
          | true =>
            rw [if_pos hfollower] at h
            rw [past_of_some hfollower, pushed_copy, ih (by omega) h hcopies.rest]
          | false =>
            rw [hfollower, if_neg Bool.false_ne_true] at h
            rw [past_of_none hfollower, ih (by omega) h hcopies.cons]
        | false =>
          rw [hdiscard, if_neg Bool.false_ne_true] at h
          rw [emitted_of_kept hdiscard, if_neg Bool.false_ne_true]
          cases hfollower : (follower c_iflag (stripped c_iflag b)).isSome with
          | true =>
            rw [if_pos hfollower] at h
            obtain ⟨hpos, h⟩ := h
            obtain ⟨copies, rfl⟩ : ∃ m, copies = m + 1 := ⟨copies - 1, by omega⟩
            obtain ⟨stale', hpushed, hcopies'⟩ := hcopies.tail.pushed_eq
            rw [past_of_some hfollower, hpushed, ih (by rw [List.length_cons]; omega) h hcopies']
          | false =>
            rw [hfollower, if_neg Bool.false_ne_true] at h
            rw [past_of_none hfollower, ih (by rw [List.length_cons]; omega) h hcopies.tail]

end Turns

/-! ## Chunks that are disturbed -/

section Disturbed

variable {c_iflag : DWORD} {b x : UInt8} {s stale : List UInt8}

/-- Bit 6 is set and bit 7 is not. -/
def Upper (b : UInt8) : Prop := 64 ≤ b.toNat ∧ b.toNat < 128

theorem upper_lowered_iff : Upper (lowered c_iflag b) ↔ Upper b := by
  have hlowered := toNat_lowered c_iflag b
  unfold Upper
  omega

theorem eq_of_isSome_follower (h : (follower c_iflag b).isSome = true) : b = NL ∨ b = CR := by
  unfold follower at h
  split at h
  · rename_i hnl
    exact .inl (by simpa using (Bool.and_eq_true_iff.mp hnl).2)
  · split at h
    · rename_i hcr
      exact .inr (by simpa using (Bool.and_eq_true_iff.mp hcr).2)
    · cases h

theorem isSome_follower_of_upper (h : Upper b) : (follower c_iflag b).isSome = false := by
  rw [Bool.eq_false_iff]
  intro hsome
  rcases eq_of_isSome_follower hsome with rfl | rfl
  · exact absurd h.1 (by decide)
  · exact absurd h.1 (by decide)

theorem fitsBehind_of_upper (h : Upper x) : FitsBehind c_iflag x := by
  refine ⟨fun _ ↦ h.2, ?_⟩
  rintro rfl
  exact absurd h.1 (by decide)

theorem toNat_sevenBits (hstrip : isSet c_iflag ISTRIP = true) (b : UInt8) :
    (sevenBits c_iflag b).toNat = b.toNat % 128 := by
  rw [sevenBits, if_pos hstrip, toNat_and_7F]

theorem toNat_stripped (hstrip : isSet c_iflag ISTRIP = true) (b : UInt8) :
    (stripped c_iflag b).toNat = b.toNat % 64 := by
  rw [stripped, if_pos hstrip, toNat_and_3F]

/-- With bit 6 a character is to be passed on as one character, with bit 6. -/
theorem translation_of_upper (h : Upper (sevenBits c_iflag b)) :
    translation c_iflag b = [lowered c_iflag (sevenBits c_iflag b)] := by
  have hkept : isDiscarded c_iflag (sevenBits c_iflag b) = false := by
    rw [Bool.eq_false_iff]
    intro hdiscard
    rw [eq_CR_of_isDiscarded hdiscard] at h
    exact absurd h.1 (by decide)
  rw [translation_eq, hkept, if_neg Bool.false_ne_true,
    outcome_of_none (isSome_follower_of_upper h)]

/-- What the handler discards is to be discarded, or has bit 6. -/
theorem upper_of_discarded (hstrip : isSet c_iflag ISTRIP = true)
    (h : isDiscarded c_iflag (stripped c_iflag b) = true) :
    ∀ y ∈ translation c_iflag b, Upper y := by
  have hcr : (stripped c_iflag b).toNat = 13 := congrArg UInt8.toNat (eq_CR_of_isDiscarded h)
  have hseven := toNat_sevenBits hstrip b
  rw [toNat_stripped hstrip] at hcr
  by_cases hupper : Upper (sevenBits c_iflag b)
  · rw [translation_of_upper hupper]
    intro y hy
    rw [List.mem_singleton.mp hy, upper_lowered_iff]
    exact hupper
  · have heq : sevenBits c_iflag b = stripped c_iflag b := by
      apply UInt8.toNat_inj.mp
      unfold Upper at hupper
      rw [toNat_stripped hstrip]
      omega
    rw [translation_eq, heq, if_pos h]
    exact fun y hy ↦ absurd hy List.not_mem_nil

/-- Nothing comes of an empty rest. -/
theorem emitted_nil_ne {q : List UInt8} (hq : q ≠ []) :
    emitted c_iflag [] stale ≠ q ++ [].flatMap (translation c_iflag) := by
  rw [emitted]
  intro heq
  exact hq (List.append_eq_nil_iff.mp heq.symm).1

/-- Under `ISTRIP` bit 6 is gone for good, also where a discarded character brings the next one
through with it: there the handler falls behind what it is to pass on. -/
theorem emitted_ne_of_upper (hstrip : isSet c_iflag ISTRIP = true) {n : Nat} (hn : s.length ≤ n)
    {q : List UInt8} (hq : ∀ y ∈ q, Upper y)
    (hne : q ≠ [] ∨ ∃ b t, s = b :: t ∧ Upper (sevenBits c_iflag b)) :
    emitted c_iflag s stale ≠ q ++ s.flatMap (translation c_iflag) := by
  induction n generalizing s stale q with
  | zero =>
    obtain rfl := List.length_eq_zero_iff.mp (Nat.le_zero.mp hn)
    exact emitted_nil_ne (hne.resolve_right fun ⟨b, t, h, _⟩ ↦ List.cons_ne_nil b t h.symm)
  | succ n ih =>
    cases s with
    | nil =>
      exact emitted_nil_ne (hne.resolve_right fun ⟨b, t, h, _⟩ ↦ List.cons_ne_nil b t h.symm)
    | cons b s =>
      -- what is due next
      obtain ⟨y, w, hw, hy⟩ : ∃ y w, q ++ translation c_iflag b = y :: w ∧ Upper y := by
        cases q with
        | cons y q => exact ⟨y, _, rfl, hq y List.mem_cons_self⟩
        | nil =>
          obtain ⟨b', t, heq, hupper⟩ := hne.resolve_left fun h ↦ h rfl
          obtain ⟨rfl, rfl⟩ := List.cons.inj heq
          exact ⟨_, [], translation_of_upper hupper, upper_lowered_iff.mpr hupper⟩
      rw [List.flatMap_cons, ← List.append_assoc, hw]
      cases hdiscard : isDiscarded c_iflag (stripped c_iflag b) with
      | false =>
        rw [emitted_of_kept hdiscard, outcome, List.cons_append]
        intro heq
        rw [← (List.cons.inj heq).1, upper_lowered_iff] at hy
        have hstripped := toNat_stripped hstrip b
        unfold Upper at hy
        omega
      | true =>
        have hall : ∀ z ∈ y :: w, Upper z := by
          rw [← hw]
          exact List.forall_mem_append.mpr ⟨hq, upper_of_discarded hstrip hdiscard⟩
        cases s with
        | nil =>
          rw [emitted_of_last hdiscard]
          intro heq
          split at heq
          · rw [← (List.cons.inj heq).1] at hy
            exact absurd hy.1 (by decide)
          · cases heq
        | cons x s =>
          intro heq
          rw [emitted_of_discarded hdiscard, outcome, List.cons_append, List.cons_append] at heq
          obtain ⟨hx, htail⟩ := List.cons.inj heq
          rw [← hx, upper_lowered_iff] at hy
          have hfollower : (follower c_iflag x).isSome = false := isSome_follower_of_upper hy
          rw [past_of_none hfollower, toList_follower hfollower, List.nil_append,
            List.flatMap_cons, translation_of_fitsBehind (fitsBehind_of_upper hy),
            outcome_of_none hfollower, ← List.append_assoc] at htail
          rw [List.length_cons, List.length_cons] at hn
          refine ih (by dsimp only; omega) ?_ (.inl (by simp)) htail
          apply List.forall_mem_append.mpr ⟨(List.forall_mem_cons.mp hall).2, ?_⟩
          intro z hz
          rw [List.mem_singleton.mp hz, upper_lowered_iff]
          exact hy

/-- A byte that no flag touches. -/
def Plain (y : UInt8) : Prop := y = 0 ∨ y = 1

theorem outcome_of_plain {y : UInt8} (hy : Plain y) : outcome c_iflag y = [y] := by
  have hfollower : (follower c_iflag y).isSome = false := by
    rw [Bool.eq_false_iff]
    intro hsome
    rcases hy with rfl | rfl <;> rcases eq_of_isSome_follower hsome with h | h <;> cases h
  rw [outcome_of_none hfollower, lowered]
  rcases hy with rfl | rfl <;> simp [tolower]

theorem emitted_of_plain {y : UInt8} (hy : Plain y) : emitted c_iflag [y] stale = [y] := by
  have hstripped : stripped c_iflag y = y := by
    unfold stripped
    split
    · rcases hy with rfl | rfl <;> decide
    · rfl
  have hkept : isDiscarded c_iflag (stripped c_iflag y) = false := by
    rw [hstripped, Bool.eq_false_iff]
    intro hdiscard
    rcases hy with rfl | rfl <;> cases eq_CR_of_isDiscarded hdiscard
  rw [emitted_of_kept_last hkept, hstripped, outcome_of_plain hy]

theorem pushed_replicate (t : List UInt8) (y : UInt8) (k : Nat) :
    pushed (t ++ [y]) (List.replicate (k + 1) y) = (t ++ [y], List.replicate k y) := by
  have hcopy := pushed_copy (t ++ [y]) (List.replicate k y) 0
  rwa [show (t ++ [y]).getLastD 0 = y by simp, ← List.replicate_succ] at hcopy

theorem getLast?_append_of_eq {u v : List UInt8} {y : UInt8} (h : v.getLast? = some y) :
    (u ++ v).getLast? = some y := by
  rw [List.getLast?_append, h, Option.some_or]

/-- Once the last character has given way to `y`, and there is nothing but `y` behind it, `y` is
the last one that is passed on. -/
theorem getLast?_emitted {y : UInt8} (hy : Plain y) {n k : Nat} (hn : s.length ≤ n)
    (hk : s.length ≤ k) :
    (emitted c_iflag (s ++ [y]) (List.replicate k y)).getLast? = some y := by
  induction n generalizing s k with
  | zero =>
    obtain rfl := List.length_eq_zero_iff.mp (Nat.le_zero.mp hn)
    rw [List.nil_append, emitted_of_plain hy, List.getLast?_singleton]
  | succ n ih =>
    cases s with
    | nil => rw [List.nil_append, emitted_of_plain hy, List.getLast?_singleton]
    | cons b t =>
      rw [List.length_cons] at hn hk
      obtain ⟨k, rfl⟩ : ∃ m, k = m + 1 := ⟨k - 1, by omega⟩
      have hlast (u : List UInt8) (x : UInt8) : (u ++ [y]).getLastD x = y := by simp
      rw [List.cons_append]
      cases hdiscard : isDiscarded c_iflag (stripped c_iflag b) with
      | true =>
        cases t with
        | nil =>
          rw [List.nil_append, emitted_of_discarded hdiscard, outcome_of_plain hy, past_nil,
            emitted, List.append_nil, List.getLast?_singleton]
        | cons x t =>
          rw [List.length_cons] at hn hk
          rw [List.cons_append, emitted_of_discarded hdiscard, hlast, ← List.replicate_succ]
          apply getLast?_append_of_eq
          cases hfollower : (follower c_iflag x).isSome with
          | true =>
            rw [past_of_some hfollower, pushed_replicate]
            exact ih (by omega) (by omega)
          | false =>
            rw [past_of_none hfollower]
            exact ih (by omega) (by omega)
      | false =>
        rw [emitted_of_kept hdiscard]
        apply getLast?_append_of_eq
        cases hfollower : (follower c_iflag (stripped c_iflag b)).isSome with
        | true =>
          rw [past_of_some hfollower, pushed_replicate]
          exact ih (by omega) (by omega)
        | false =>
          rw [past_of_none hfollower]
          exact ih (by omega) (by omega)

theorem pushed_cons_replicate (x : UInt8) (s : List UInt8) (y : UInt8) (k : Nat) :
    pushed (x :: s) (List.replicate (k + 1) y) =
      ((x :: s).dropLast ++ [y], List.replicate k y) := by
  rw [pushed, if_neg (List.cons_ne_nil x s), List.replicate_succ, List.take_succ_cons,
    List.take_zero, List.tail_cons]

/-- Where `CR` is to be discarded, what is to be passed on starts with a character that could
stand behind a discarded one. -/
theorem fitsBehind_of_head? (hset : isSet c_iflag IGNCR = true) (s : List UInt8) :
    ∀ y ∈ (s.flatMap (translation c_iflag)).head?, FitsBehind c_iflag y := by
  induction s with
  | nil => exact fun y hy ↦ absurd hy (Option.not_mem_none y)
  | cons b s ih =>
    rw [List.flatMap_cons, translation_eq]
    split
    · exact ih
    · rename_i hkept
      intro y hy
      obtain rfl : lowered c_iflag (sevenBits c_iflag b) = y := by simpa [outcome] using hy
      have hlowered := toNat_lowered c_iflag (sevenBits c_iflag b)
      constructor
      · intro hstrip
        have hseven := toNat_sevenBits hstrip b
        change (lowered c_iflag (sevenBits c_iflag b)).toNat < 128
        omega
      · intro hcr
        rw [hcr] at hlowered
        have hnat : (sevenBits c_iflag b).toNat = CR.toNat := by
          have hthirteen : CR.toNat = 13 := rfl
          omega
        rw [isDiscarded, hset, UInt8.toNat_inj.mp hnat] at hkept
        exact hkept rfl

theorem fitsBehind_of_lowered (h : FitsBehind c_iflag (lowered c_iflag x)) :
    FitsBehind c_iflag x := by
  have hlowered := toNat_lowered c_iflag x
  constructor
  · intro hstrip
    have hlt : (lowered c_iflag x).toNat < 128 := h.1 hstrip
    change x.toNat < 128
    omega
  · rintro rfl
    exact h.2 (lowered_CR c_iflag)

theorem upper_of_not_fitsMask (h : ¬FitsMask c_iflag b) :
    isSet c_iflag ISTRIP = true ∧ Upper (sevenBits c_iflag b) := by
  obtain ⟨hstrip, hlarge⟩ := Classical.not_imp.mp h
  refine ⟨hstrip, ?_⟩
  have hle : ¬(b &&& 0x7F).toNat < 64 := hlarge
  rw [toNat_and_7F] at hle
  unfold Upper
  rw [toNat_sevenBits hstrip]
  omega

/-- A byte that the chunk is not to end in. -/
theorem exists_plain (out : List UInt8) : ∃ y, Plain y ∧ out.getLast? ≠ some y := by
  by_cases hzero : out.getLast? = some 0
  · refine ⟨1, .inr rfl, ?_⟩
    rw [hzero]
    decide
  · exact ⟨0, .inl rfl, hzero⟩

/-- Some byte, all over the rest of the buffer, makes the handler pass on something else. -/
def Disturbs (c_iflag : DWORD) (copies : Nat) (s : List UInt8) : Prop :=
  ∃ y, ∀ k stale, s.length ≤ k → Copies copies (List.replicate k y) s stale →
    emitted c_iflag s stale ≠ s.flatMap (translation c_iflag)

theorem disturbs_of_not_fitsMask {copies : Nat} (h : ¬FitsMask c_iflag b) :
    Disturbs c_iflag copies (b :: s) := by
  obtain ⟨hstrip, hupper⟩ := upper_of_not_fitsMask h
  refine ⟨0, fun k stale _ _ ↦ ?_⟩
  exact emitted_ne_of_upper hstrip (Nat.le_refl _) (q := [])
    (fun y hy ↦ absurd hy List.not_mem_nil) (.inr ⟨b, s, rfl, hupper⟩)

/-- A discarded last character comes back. -/
theorem disturbs_of_icrnl {copies : Nat} (hmask : FitsMask c_iflag b)
    (hdiscard : isDiscarded c_iflag (stripped c_iflag b) = true)
    (hset : isSet c_iflag ICRNL = true) : Disturbs c_iflag copies [b] := by
  refine ⟨0, fun k stale _ _ ↦ ?_⟩
  rw [emitted_of_last hdiscard, if_pos hset, List.flatMap_singleton,
    translation_of_fitsMask hmask, if_pos hdiscard]
  exact List.cons_ne_nil _ _

theorem flatMap_of_discarded (hmask : FitsMask c_iflag b)
    (hdiscard : isDiscarded c_iflag (stripped c_iflag b) = true) :
    (b :: s).flatMap (translation c_iflag) = s.flatMap (translation c_iflag) := by
  rw [List.flatMap_cons, translation_of_fitsMask hmask, if_pos hdiscard, List.nil_append]

theorem flatMap_of_kept (hmask : FitsMask c_iflag b)
    (hdiscard : isDiscarded c_iflag (stripped c_iflag b) = false) :
    (b :: s).flatMap (translation c_iflag) =
      outcome c_iflag (stripped c_iflag b) ++ s.flatMap (translation c_iflag) := by
  rw [List.flatMap_cons, translation_of_fitsMask hmask, hdiscard, if_neg Bool.false_ne_true]

/-- The character behind a discarded one is passed on as no character could be. -/
theorem disturbs_of_not_fitsBehind {copies : Nat} (hmask : FitsMask c_iflag b)
    (hdiscard : isDiscarded c_iflag (stripped c_iflag b) = true) (h : ¬FitsBehind c_iflag x) :
    Disturbs c_iflag copies (b :: x :: s) := by
  have hset : isSet c_iflag IGNCR = true := (Bool.and_eq_true_iff.mp hdiscard).1
  refine ⟨0, fun k stale _ _ heq ↦ h ?_⟩
  apply fitsBehind_of_lowered
  apply fitsBehind_of_head? hset (x :: s)
  rw [← flatMap_of_discarded hmask hdiscard, ← heq, emitted_of_discarded hdiscard]
  rfl

/-- What disturbs the rest behind a discarded character and the one that follows it. -/
theorem disturbs_of_discarded {copies : Nat} (hmask : FitsMask c_iflag b)
    (hdiscard : isDiscarded c_iflag (stripped c_iflag b) = true) (hbehind : FitsBehind c_iflag x)
    (h : Disturbs c_iflag (if (follower c_iflag x).isSome then copies else copies + 1) s) :
    Disturbs c_iflag copies (b :: x :: s) := by
  obtain ⟨y, hy⟩ := h
  refine ⟨y, fun k stale hk hcopies ↦ ?_⟩
  rw [List.length_cons, List.length_cons] at hk
  rw [flatMap_of_discarded hmask hdiscard, emitted_of_discarded hdiscard, List.flatMap_cons,
    translation_of_fitsBehind hbehind, Ne, List.append_cancel_left_eq]
  cases hfollower : (follower c_iflag x).isSome with
  | true =>
    rw [if_pos hfollower] at hy
    rw [past_of_some hfollower, pushed_copy]
    exact hy k stale (by omega) hcopies.rest
  | false =>
    rw [hfollower, if_neg Bool.false_ne_true] at hy
    rw [past_of_none hfollower]
    exact hy k _ (by omega) hcopies.cons

/-- What disturbs the rest behind a character into whose place nothing is pushed. -/
theorem disturbs_of_kept {copies : Nat} (hmask : FitsMask c_iflag b)
    (hdiscard : isDiscarded c_iflag (stripped c_iflag b) = false)
    (hfollower : (follower c_iflag (stripped c_iflag b)).isSome = false)
    (h : Disturbs c_iflag copies (x :: s)) : Disturbs c_iflag copies (b :: x :: s) := by
  obtain ⟨y, hy⟩ := h
  refine ⟨y, fun k stale hk hcopies ↦ ?_⟩
  rw [flatMap_of_kept hmask hdiscard, emitted_of_kept hdiscard, past_of_none hfollower, Ne,
    List.append_cancel_left_eq]
  exact hy k stale (Nat.le_of_succ_le hk) hcopies.tail

/-- With a copy to use up. -/
theorem disturbs_of_copy {copies : Nat} (hmask : FitsMask c_iflag b)
    (hdiscard : isDiscarded c_iflag (stripped c_iflag b) = false)
    (hfollower : (follower c_iflag (stripped c_iflag b)).isSome = true)
    (h : Disturbs c_iflag copies (x :: s)) : Disturbs c_iflag (copies + 1) (b :: x :: s) := by
  obtain ⟨y, hy⟩ := h
  refine ⟨y, fun k stale hk hcopies ↦ ?_⟩
  obtain ⟨stale', hpushed, hcopies'⟩ := hcopies.tail.pushed_eq
  rw [flatMap_of_kept hmask hdiscard, emitted_of_kept hdiscard, past_of_some hfollower, hpushed,
    Ne, List.append_cancel_left_eq]
  exact hy k stale' (Nat.le_of_succ_le hk) hcopies'

/-- Without one the last character is lost. -/
theorem disturbs_of_no_copy (hmask : FitsMask c_iflag b)
    (hdiscard : isDiscarded c_iflag (stripped c_iflag b) = false)
    (hfollower : (follower c_iflag (stripped c_iflag b)).isSome = true) :
    Disturbs c_iflag 0 (b :: x :: s) := by
  obtain ⟨y, hplain, hne⟩ := exists_plain ((x :: s).flatMap (translation c_iflag))
  refine ⟨y, fun k stale hk hcopies heq ↦ hne ?_⟩
  rw [List.length_cons] at hk
  obtain ⟨k, rfl⟩ : ∃ m, k = m + 1 := ⟨k - 1, by omega⟩
  obtain rfl : stale = List.replicate (k + 1) y := hcopies.tail _ List.getLast?_cons
  rw [flatMap_of_kept hmask hdiscard, emitted_of_kept hdiscard, past_of_some hfollower,
    pushed_cons_replicate, List.append_cancel_left_eq] at heq
  rw [← heq]
  apply getLast?_emitted hplain (Nat.le_refl _)
  rw [List.length_dropLast]
  omega

/-- A disturbed chunk is not translated as it should be. -/
theorem disturbs_of_not_undisturbed {copies n : Nat} (hn : s.length ≤ n)
    (h : ¬Undisturbed c_iflag copies s) : Disturbs c_iflag copies s := by
  induction n generalizing s copies with
  | zero =>
    obtain rfl := List.length_eq_zero_iff.mp (Nat.le_zero.mp hn)
    exact absurd trivial h
  | succ n ih =>
    match s with
    | [] => exact absurd trivial h
    | [b] =>
      rw [Undisturbed] at h
      by_cases hmask : FitsMask c_iflag b
      · obtain ⟨hdiscard, hset⟩ := Classical.not_imp.mp (not_and.mp h hmask)
        exact disturbs_of_icrnl hmask hdiscard (by simpa using hset)
      · exact disturbs_of_not_fitsMask hmask
    | b :: x :: s =>
      rw [Undisturbed] at h
      rw [List.length_cons, List.length_cons] at hn
      by_cases hmask : FitsMask c_iflag b
      · have h := not_and.mp h hmask
        cases hdiscard : isDiscarded c_iflag (stripped c_iflag b) with
        | true =>
          rw [if_pos hdiscard] at h
          by_cases hbehind : FitsBehind c_iflag x
          · exact disturbs_of_discarded hmask hdiscard hbehind
              (ih (by omega) (not_and.mp h hbehind))
          · exact disturbs_of_not_fitsBehind hmask hdiscard hbehind
        | false =>
          rw [hdiscard, if_neg Bool.false_ne_true] at h
          cases hfollower : (follower c_iflag (stripped c_iflag b)).isSome with
          | true =>
            rw [if_pos hfollower] at h
            cases copies with
            | zero => exact disturbs_of_no_copy hmask hdiscard hfollower
            | succ copies =>
              exact disturbs_of_copy hmask hdiscard hfollower
                (ih (by rw [List.length_cons]; omega) (not_and.mp h (Nat.succ_pos copies)))
          | false =>
            rw [hfollower, if_neg Bool.false_ne_true] at h
            exact disturbs_of_kept hmask hdiscard hfollower
              (ih (by rw [List.length_cons]; omega) h)
      · exact disturbs_of_not_fitsMask hmask

end Disturbed

/-! ## The chunks that are translated -/

theorem not_emptied_of_undisturbed {c_iflag : DWORD} {chunk : List UInt8}
    (h : Undisturbed c_iflag 0 chunk) : ¬Emptied c_iflag chunk := by
  rintro ⟨b, rfl, hdiscard, hset⟩
  rw [Undisturbed] at h
  rw [h.2 hdiscard] at hset
  cases hset

theorem not_translatesEach_of_disturbs {c_iflag : DWORD} {chunk : List UInt8}
    (hlen : chunk.length ≤ 128) (h : Disturbs c_iflag 0 chunk) :
    ¬TranslatesEach c_iflag chunk := by
  intro heach
  obtain ⟨y, hy⟩ := h
  let term : TermIOs := ⟨c_iflag, 0, 0⟩
  let st : Handler := ⟨Vector.replicate 256 y, [], [], []⟩
  obtain ⟨st', hok, hout⟩ := heach term [] st (chunk.length + 1) rfl (Nat.lt_succ_self _)
  by_cases hempty : Emptied c_iflag chunk
  · obtain ⟨st'', hfault⟩ := handleChunk_eq_fault term [] (Nat.succ_pos chunk.length) hempty st
    rw [hok] at hfault
    cases hfault
  · obtain ⟨st'', hok', hout', -⟩ :=
      handleChunk_eq term [] hlen (Nat.lt_succ_self _) hempty st
    obtain rfl : st' = st'' := by
      rw [hok] at hok'
      exact (Result.ok.inj hok').2
    rw [hout, List.append_cancel_left_eq] at hout'
    refine hy (256 - chunk.length) _ (by omega) ?_ hout'.symm
    intro z _
    change (Vector.replicate 256 y).toList.drop chunk.length = _
    rw [Vector.toList_replicate, List.drop_replicate, List.replicate_zero, List.nil_append]

end Keow.Console
