import Keow.Console.Input

/-!
# A chunk in its buffer

The loop of `DevConsole::ConsoleHandlerMain` over a chunk, as a function of the characters that
are left of it and of what stands behind them in the buffer. A character that is put in pushes the
last one out; a discarded one leaves a copy of the last one behind the end. Each turn takes at
least as much off the chunk as it adds to its length, which keeps a chunk of half the buffer
inside it.
-/

namespace Keow.Console

open Keow.Base Keow.Kernel

/-! ## The loop over the chunk -/

section Loop

variable (c_iflag : DWORD)

/-- The character that a turn translates, what is left of the chunk behind it, and what stands
behind that: nothing where the last character is discarded. -/
def translated (b : UInt8) (s stale : List UInt8) : Option (UInt8 × List UInt8 × List UInt8) :=
  if isDiscarded c_iflag (stripped c_iflag b) then
    match s with
    | [] => none
    | x :: r => some (x, r, r.getLastD x :: stale)
  else some (stripped c_iflag b, s, stale)

/-- What is left, and what stands behind that, past the character. -/
def past (x : UInt8) (s stale : List UInt8) : List UInt8 × List UInt8 :=
  if (follower c_iflag x).isSome then pushed s stale else (s, stale)

/-- What a character becomes. -/
def outcome (x : UInt8) : List UInt8 := lowered c_iflag x :: (follower c_iflag x).toList

theorem length_pushed_le (s stale : List UInt8) : (pushed s stale).1.length ≤ s.length := by
  unfold pushed
  split
  · exact Nat.zero_le _
  · rename_i hs
    have hpos := List.length_pos_of_ne_nil hs
    simp only [List.length_append, List.length_dropLast, List.length_take]
    omega

theorem length_past_le (x : UInt8) (s stale : List UInt8) :
    (past c_iflag x s stale).1.length ≤ s.length := by
  unfold past
  split
  · exact length_pushed_le s stale
  · exact Nat.le_refl _

theorem length_of_translated {b x : UInt8} {s stale s' stale' : List UInt8}
    (h : translated c_iflag b s stale = some (x, s', stale')) : s'.length ≤ s.length := by
  unfold translated at h
  split at h
  · cases s with
    | nil => cases h
    | cons y r =>
      obtain ⟨-, rfl, -⟩ := by simpa using h
      exact Nat.le_succ _
  · obtain ⟨-, rfl, -⟩ := by simpa using h
    exact Nat.le_refl _

/-- What the loop makes of a chunk with `stale` behind it. -/
def emitted : List UInt8 → List UInt8 → List UInt8
  | [], _ => []
  | b :: s, stale =>
      match _h : translated c_iflag b s stale with
      | none => if (follower c_iflag (stripped c_iflag b)).isSome then [stripped c_iflag b] else []
      | some (x, s', stale') =>
          outcome c_iflag x ++
            emitted (past c_iflag x s' stale').1 (past c_iflag x s' stale').2
termination_by s => s.length
decreasing_by
  have hpast := length_past_le c_iflag x s' stale'
  have htranslated := length_of_translated c_iflag _h
  rw [List.length_cons]
  omega

theorem emitted_of_some {b x : UInt8} {s stale s' stale' : List UInt8}
    (h : translated c_iflag b s stale = some (x, s', stale')) :
    emitted c_iflag (b :: s) stale = outcome c_iflag x ++
      emitted c_iflag (past c_iflag x s' stale').1 (past c_iflag x s' stale').2 := by
  rw [emitted]
  split
  · rename_i hnone
    rw [h] at hnone
    cases hnone
  · rename_i hsome
    rw [h] at hsome
    obtain ⟨rfl, rfl, rfl⟩ := by simpa using hsome
    rfl

theorem emitted_of_none {b : UInt8} {s stale : List UInt8}
    (h : translated c_iflag b s stale = none) :
    emitted c_iflag (b :: s) stale =
      if (follower c_iflag (stripped c_iflag b)).isSome then [stripped c_iflag b] else [] := by
  rw [emitted]
  split
  · rfl
  · rename_i hsome
    rw [h] at hsome
    cases hsome

theorem lastIndex_of_pos {n : Nat} (hpos : 0 < n) (hn : n < 4294967296) :
    lastIndex n = n - 1 := by
  unfold lastIndex
  omega

theorem spans_of_eq {i dwRead : Nat} {s : List UInt8} (h : dwRead = i + 1 + s.length)
    (hlt : dwRead < 4294967296) : Spans i dwRead s := by
  have hlast := lastIndex_of_pos (n := dwRead) (by omega) hlt
  exact ⟨by omega, fun _ ↦ by omega⟩

end Loop

section Leaves

variable (term : TermIOs) (foreground : List Nat) {pre s stale s' stale' : List UInt8}
  {b x : UInt8}

theorem leaves_discard (h : translated term.c_iflag b s stale = some (x, s', stale')) :
    Leaves (discard term pre.length (pre.length + 1 + s.length))
      (pre ++ stripped term.c_iflag b :: (s ++ stale)) (pre.length + 1 + s'.length)
      (pre ++ x :: (s' ++ stale')) := by
  unfold translated at h
  split at h
  · rename_i hdiscard
    cases s with
    | nil => cases h
    | cons y r =>
      have hrun : Leaves _ (pre ++ _ :: (y :: r ++ stale)) _ _ :=
        leaves_discard_of_true term hdiscard
      simp only [Option.some.injEq, Prod.mk.injEq] at h
      obtain ⟨rfl, rfl, rfl⟩ := h
      rw [List.getLastD_cons] at hrun
      rw [show pre.length + 1 + r.length = pre.length + (y :: r).length by
        rw [List.length_cons]; omega]
      exact hrun
  · rename_i hkept
    simp only [Option.some.injEq, Prod.mk.injEq] at h
    obtain ⟨rfl, rfl, rfl⟩ := h
    exact leaves_discard_of_false term (Bool.eq_false_iff.mpr hkept)

theorem ne_nil_of_translated (h : translated term.c_iflag b s stale = some (x, s', stale'))
    (hstale : stale ≠ []) : stale' ≠ [] := by
  unfold translated at h
  split at h
  · cases s with
    | nil => cases h
    | cons y r =>
      simp only [Option.some.injEq, Prod.mk.injEq] at h
      obtain ⟨-, -, rfl⟩ := h
      exact List.cons_ne_nil _ _
  · simp only [Option.some.injEq, Prod.mk.injEq] at h
    obtain ⟨-, -, rfl⟩ := h
    exact hstale

theorem length_pushed (hstale : stale ≠ []) : (pushed s stale).1.length = s.length := by
  unfold pushed
  split
  · rename_i hs
    rw [hs]
  · rename_i hs
    have hpos := List.length_pos_of_ne_nil hs
    have hpos' := List.length_pos_of_ne_nil hstale
    simp only [List.length_append, List.length_dropLast, List.length_take]
    omega

/-- A turn in which a character is translated. -/
theorem leaves_handleChar (h : translated term.c_iflag b s stale = some (x, s', stale'))
    (hstale : stale ≠ []) (hlen : pre.length + 1 + s.length < 4294967296) :
    Leaves (handleChar term foreground pre.length (pre.length + 1 + s.length))
      (pre ++ b :: (s ++ stale))
      ((pre ++ outcome term.c_iflag x).length,
        (pre ++ outcome term.c_iflag x).length + (past term.c_iflag x s' stale').1.length)
      (pre ++ outcome term.c_iflag x ++
        ((past term.c_iflag x s' stale').1 ++ (past term.c_iflag x s' stale').2)) := by
  have hle := length_of_translated term.c_iflag h
  have hstale' := ne_nil_of_translated term h hstale
  refine leaves_bind (leaves_strip term) (leaves_bind (leaves_discard term h) ?_)
  cases hfollower : follower term.c_iflag x with
  | none =>
    have hrun : Leaves _ (pre ++ x :: (s' ++ stale')) (_, pre.length + 1 + s'.length) _ :=
      leaves_translateChar_of_none term foreground hfollower
    simpa [outcome, past, hfollower] using hrun
  | some c =>
    have hspan : Spans pre.length (pre.length + 1 + s'.length) s' := spans_of_eq rfl (by omega)
    have hrun : Leaves _ (pre ++ x :: (s' ++ stale')) _ _ :=
      leaves_translateChar_of_some term foreground hfollower hspan hstale'
    have hout : outcome term.c_iflag x = [lowered term.c_iflag x, c] := by
      rw [outcome, hfollower, Option.toList_some]
    have hpast : past term.c_iflag x s' stale' = pushed s' stale' := by
      rw [past, hfollower, Option.isSome_some, if_pos rfl]
    have hlength : (pre ++ [lowered term.c_iflag x, c]).length = pre.length + 2 :=
      List.length_append
    have hcount : pre.length + 2 + s'.length = pre.length + 1 + s'.length + 1 := by omega
    rw [hout, hpast, length_pushed hstale', hlength, hcount, List.append_assoc]
    exact hrun

theorem of_translated_eq_none {c_iflag : DWORD} (h : translated c_iflag b s stale = none) :
    isDiscarded c_iflag (stripped c_iflag b) = true ∧ s = [] := by
  unfold translated at h
  split at h
  · rename_i hdiscard
    cases s with
    | nil => exact ⟨hdiscard, rfl⟩
    | cons y r => cases h
  · cases h

/-- A turn in which the last character is discarded. -/
theorem leaves_handleChar_of_none (h : translated term.c_iflag b [] stale = none)
    (hfollower : follower term.c_iflag (stripped term.c_iflag b) = none) :
    Leaves (handleChar term foreground pre.length (pre.length + 1)) (pre ++ b :: stale)
      (pre.length + 1, pre.length)
      (pre ++ lowered term.c_iflag (stripped term.c_iflag b) :: stale) := by
  have hdiscard : Leaves (discard term pre.length (pre.length + 1))
      (pre ++ stripped term.c_iflag b :: ([] ++ stale)) pre.length _ :=
    leaves_discard_of_true term (of_translated_eq_none h).1
  exact leaves_bind (leaves_strip term) (leaves_bind hdiscard
    (leaves_translateChar_of_none term foreground hfollower))

/-- It comes back with a character put behind it. -/
theorem leaves_handleChar_of_none_of_some (h : translated term.c_iflag b [] stale = none)
    {c : UInt8} (hfollower : follower term.c_iflag (stripped term.c_iflag b) = some c)
    (hpre : pre ≠ []) (hlen : pre.length < 4294967296) (hstale : stale ≠ []) :
    Leaves (handleChar term foreground pre.length (pre.length + 1)) (pre ++ b :: stale)
      (pre.length + 2, pre.length + 1)
      (pre ++ lowered term.c_iflag (stripped term.c_iflag b) :: c :: stale.tail) := by
  have hdiscard : Leaves (discard term pre.length (pre.length + 1))
      (pre ++ stripped term.c_iflag b :: ([] ++ stale)) pre.length _ :=
    leaves_discard_of_true term (of_translated_eq_none h).1
  have hpos := List.length_pos_of_ne_nil hpre
  have hspan : Spans pre.length pre.length [] := by
    refine ⟨?_, fun hne ↦ absurd rfl hne⟩
    rw [lastIndex_of_pos hpos hlen, List.length_nil]
    omega
  have hrun : Leaves _ (pre ++ _ :: ([] ++ stale)) _ _ :=
    leaves_translateChar_of_some term foreground hfollower hspan hstale
  exact leaves_bind (leaves_strip term) (leaves_bind hdiscard hrun)

/-- The one character of the chunk is discarded, and then it is still there for `ICRNL`. -/
def Emptied (c_iflag : DWORD) (chunk : List UInt8) : Prop :=
  ∃ b, chunk = [b] ∧ isDiscarded c_iflag (stripped c_iflag b) = true ∧
    isSet c_iflag ICRNL = true

theorem eq_CR_of_isDiscarded {c_iflag : DWORD} {c : UInt8} (h : isDiscarded c_iflag c = true) :
    c = CR := by
  simp only [isDiscarded, Bool.and_eq_true, beq_iff_eq] at h
  exact h.2

theorem isSome_follower_CR (c_iflag : DWORD) :
    (follower c_iflag CR).isSome = isSet c_iflag ICRNL := by
  have hne : (CR == NL) = false := rfl
  have heq : (CR == CR) = true := rfl
  rw [follower, hne, heq, Bool.and_false, Bool.and_true, if_neg Bool.false_ne_true]
  split
  · rename_i hset
    rw [hset, Option.isSome_some]
  · rename_i hset
    rw [Bool.eq_false_iff.mpr hset, Option.isSome_none]

theorem lowered_CR (c_iflag : DWORD) : lowered c_iflag CR = CR := by
  have htolower : tolower CR = CR := by decide
  rw [lowered, htolower, ite_self]

theorem length_outcome_le (c_iflag : DWORD) (x : UInt8) : (outcome c_iflag x).length ≤ 2 := by
  rw [outcome, List.length_cons]
  cases follower c_iflag x <;> simp

theorem handleChars_of_ok {turns i dwRead i' dwRead' : Nat} (hlt : i < dwRead) {st st' : Handler}
    (hturn : handleChar term foreground i dwRead st = .ok (i', dwRead') st') :
    handleChars term foreground (turns + 1) i dwRead st =
      handleChars term foreground turns i' dwRead' st' := by
  rw [handleChars, if_pos hlt]
  exact Comp.bind_of_ok hturn _

theorem handleChars_of_le {turns i dwRead : Nat} (hle : dwRead ≤ i) (st : Handler) :
    handleChars term foreground (turns + 1) i dwRead st = .ok dwRead st := by
  rw [handleChars, if_neg (Nat.not_lt_of_le hle)]
  rfl

/-- Every turn leaves less of the chunk, and the place that it may still need shrinks with it. -/
theorem handleChars_eq {turns : Nat} (hturns : s.length < turns)
    (hroom : pre.length + 2 * s.length ≤ 256)
    (hsafe : pre ≠ [] ∨ ¬Emptied term.c_iflag s) {st : Handler}
    (hst : st.buf.toList = pre ++ (s ++ stale)) :
    ∃ behind st', handleChars term foreground turns pre.length (pre.length + s.length) st =
        .ok (pre ++ emitted term.c_iflag s stale).length st' ∧
      st'.buf.toList = pre ++ emitted term.c_iflag s stale ++ behind ∧
      st'.readBuffer = st.readBuffer := by
  induction turns generalizing pre s stale st with
  | zero => exact absurd hturns (Nat.not_lt_zero _)
  | succ turns ih =>
    cases s with
    | nil =>
      refine ⟨stale, st, ?_, ?_, rfl⟩
      · rw [List.length_nil, handleChars_of_le term foreground (by omega), emitted,
          List.append_nil, Nat.add_zero]
      · rw [hst, emitted, List.append_nil, List.nil_append]
    | cons b s =>
      have hsize := congrArg List.length hst
      simp only [Vector.length_toList, List.length_append, List.length_cons] at hsize hroom hturns
      have hstale : stale ≠ [] := by
        rintro rfl
        simp only [List.length_nil] at hsize
        omega
      rw [List.length_cons, Nat.add_comm s.length, ← Nat.add_assoc]
      cases htranslated : translated term.c_iflag b s stale with
      | some t =>
        obtain ⟨x, s', stale'⟩ := t
        obtain ⟨st₁, hturn, hbytes, hread⟩ :=
          leaves_handleChar term foreground htranslated hstale (by omega) st hst
        have hout := length_outcome_le term.c_iflag x
        have hle := length_of_translated term.c_iflag htranslated
        have hpast := length_past_le term.c_iflag x s' stale'
        obtain ⟨behind, st₂, hrun, hbytes', hread'⟩ := ih (by omega)
          (by rw [List.length_append]; omega) (.inl (by simp [outcome])) hbytes
        rw [List.append_assoc pre, ← emitted_of_some term.c_iflag htranslated] at hrun hbytes'
        refine ⟨behind, st₂, ?_, hbytes', hread'.trans hread⟩
        rw [handleChars_of_ok term foreground (by omega) hturn, hrun]
      | none =>
        obtain ⟨hdiscard, rfl⟩ := of_translated_eq_none htranslated
        have hcr := eq_CR_of_isDiscarded hdiscard
        obtain ⟨turns, rfl⟩ : ∃ n, turns = n + 1 := ⟨turns - 1, by simp at hturns; omega⟩
        rw [emitted_of_none term.c_iflag htranslated, List.length_nil, Nat.add_zero]
        cases hfollower : follower term.c_iflag (stripped term.c_iflag b) with
        | none =>
          obtain ⟨st₁, hturn, hbytes, hread⟩ :=
            leaves_handleChar_of_none term foreground htranslated hfollower st hst
          refine ⟨lowered term.c_iflag (stripped term.c_iflag b) :: stale, st₁, ?_, ?_, hread⟩
          · rw [handleChars_of_ok term foreground (by omega) hturn,
              handleChars_of_le term foreground (by omega)]
            simp
          · simpa using hbytes
        | some c =>
          have hset : isSet term.c_iflag ICRNL = true := by
            rw [← isSome_follower_CR, ← hcr, hfollower, Option.isSome_some]
          have hpre : pre ≠ [] := hsafe.resolve_right fun hnot ↦ hnot ⟨b, rfl, hdiscard, hset⟩
          obtain ⟨st₁, hturn, hbytes, hread⟩ := leaves_handleChar_of_none_of_some term foreground
            htranslated hfollower hpre (by omega) hstale st hst
          rw [hcr, lowered_CR] at hbytes
          refine ⟨c :: stale.tail, st₁, ?_, ?_, hread⟩
          · rw [handleChars_of_ok term foreground (by omega) hturn,
              handleChars_of_le term foreground (by omega)]
            simp
          · rw [hcr]
            simpa using hbytes

theorem leaves_readChunk {j : Nat} {chunk old : List UInt8} (hj : j = pre.length)
    (hold : old.length = chunk.length) :
    Leaves (readChunk j chunk) (pre ++ (old ++ stale)) () (pre ++ (chunk ++ stale)) := by
  induction chunk generalizing pre old j with
  | nil =>
    obtain rfl := List.length_eq_zero_iff.mp hold
    exact leaves_pure ()
  | cons b chunk ih =>
    cases old with
    | nil => cases hold
    | cons c old =>
      have hwrite : Leaves (writeBuf j b) (pre ++ c :: (old ++ stale)) () _ := leaves_writeBuf hj b
      have hrest : Leaves (readChunk (j + 1) chunk) (pre ++ [b] ++ (old ++ stale)) () _ :=
        ih (by simp [hj]) (by simpa using hold)
      simp only [List.append_assoc, List.cons_append, List.nil_append] at hrest
      exact leaves_bind hwrite hrest

/-- The handler passes on what it makes of the chunk with the rest of the buffer behind it. -/
theorem handleChunk_eq {turns : Nat} {chunk : List UInt8} (hlen : chunk.length ≤ 128)
    (hturns : chunk.length < turns) (hsafe : ¬Emptied term.c_iflag chunk) (st : Handler) :
    ∃ st', handleChunk term foreground turns chunk st = .ok () st' ∧
      st'.readBuffer =
        st.readBuffer ++ emitted term.c_iflag chunk (st.buf.toList.drop chunk.length) ∧
      (emitted term.c_iflag chunk (st.buf.toList.drop chunk.length)).length ≤ 256 := by
  have hold : (st.buf.toList.take chunk.length).length = chunk.length := by
    rw [List.length_take, Vector.length_toList]
    omega
  have hcopy : Leaves (readChunk 0 chunk) ([] ++ (_ ++ st.buf.toList.drop chunk.length)) () _ :=
    leaves_readChunk rfl hold
  obtain ⟨st₁, hread, hbytes, hbuffer⟩ := hcopy st (List.take_append_drop _ _).symm
  obtain ⟨behind, st₂, hrun, hbytes', hbuffer'⟩ :=
    handleChars_eq term foreground hturns (by rw [List.length_nil]; omega) (.inr hsafe) hbytes
  rw [List.length_nil, Nat.zero_add, List.nil_append] at hrun
  rw [List.nil_append] at hbytes'
  have hsize := congrArg List.length hbytes'
  rw [Vector.length_toList, List.length_append] at hsize
  have hle : (emitted term.c_iflag chunk (st.buf.toList.drop chunk.length)).length ≤ 256 := by omega
  refine ⟨{ st₂ with readBuffer := st₂.readBuffer ++
    st₂.buf.toList.take (emitted term.c_iflag chunk (st.buf.toList.drop chunk.length)).length },
    ?_, ?_, hle⟩
  · rw [handleChunk, Comp.bind_of_ok hread, Comp.bind_of_ok hrun, writeChunk, if_pos hle]
  · rw [hbytes', List.take_left, hbuffer', hbuffer]

end Leaves

/-! ## The access outside the buffer -/

section Faults

variable {α β : Type} (term : TermIOs) (foreground : List Nat)

/-- With these bytes in the buffer it leaves the buffer. -/
def Faults (x : Handling α) (bytes : List UInt8) : Prop :=
  ∀ st : Handler, st.buf.toList = bytes → ∃ st', x st = .fault st'

theorem faults_bind {x : Handling α} {f : α → Handling β} {a : α} {bytes bytes' : List UInt8}
    (hx : Leaves x bytes a bytes') (hf : Faults (f a) bytes') : Faults (x >>= f) bytes := by
  intro st h
  obtain ⟨st₁, hrun, hbytes, -⟩ := hx st h
  obtain ⟨st₂, hrun'⟩ := hf st₁ hbytes
  exact ⟨st₂, by rw [Comp.bind_of_ok hrun, hrun']⟩

theorem faults_bind_left {x : Handling α} {f : α → Handling β} {bytes : List UInt8}
    (hx : Faults x bytes) : Faults (x >>= f) bytes := by
  intro st h
  obtain ⟨st₁, hrun⟩ := hx st h
  exact ⟨st₁, Comp.bind_of_fault hrun f⟩

theorem faults_openGap {j n : Nat} (hn : 0 < n) (hj : 256 < j) (bytes : List UInt8) :
    Faults (openGap j n) bytes := by
  intro st _
  cases n with
  | zero => exact absurd hn (Nat.lt_irrefl 0)
  | succ n =>
    have hread : readBuf (j - 1) st = .fault st := by
      have hnone : st.buf[j - 1]? = none := by
        rw [getElem?_eq_none_iff]
        omega
      simp only [readBuf, hnone]
    exact ⟨st, Comp.bind_of_fault hread _⟩

/-- Without a character left the loop that makes place starts at index `0xFFFFFFFF`. -/
theorem faults_insertChar (c : UInt8) (bytes : List UInt8) :
    Faults (insertChar 0 0 c) bytes := by
  have hlast : lastIndex 0 = 4294967295 := rfl
  rw [insertChar, hlast]
  exact faults_bind_left (faults_openGap (by omega) (by omega) bytes)

/-- The character that is still at the front is taken for one of the chunk. -/
theorem faults_translateChar (hset : isSet term.c_iflag ICRNL = true) (stale : List UInt8) :
    Faults (translateChar term foreground 0 0) (CR :: stale) := by
  have hinlcr : Leaves (isChar term INLCR NL 0) ([] ++ CR :: stale) _ _ :=
    leaves_isChar term INLCR NL
  have hicrnl : Leaves (isChar term ICRNL CR 0) ([] ++ CR :: stale) _ _ :=
    leaves_isChar term ICRNL CR
  rw [show (CR == NL) = false from rfl, Bool.and_false] at hinlcr
  rw [hset, show (CR == CR) = true from rfl, Bool.and_true] at hicrnl
  exact faults_bind_left (faults_bind hinlcr (faults_bind hicrnl (faults_insertChar NL _)))

theorem faults_handleChar {b : UInt8} (hset : isSet term.c_iflag ICRNL = true)
    (hdiscard : isDiscarded term.c_iflag (stripped term.c_iflag b) = true) (stale : List UInt8) :
    Faults (handleChar term foreground 0 1) (b :: stale) := by
  have hstrip : Leaves (strip term 0) ([] ++ b :: stale) () _ := leaves_strip term
  have hgone : Leaves (discard term 0 1) ([] ++ stripped term.c_iflag b :: ([] ++ stale)) 0 _ :=
    leaves_discard_of_true term hdiscard
  have htranslate := faults_translateChar term foreground hset stale
  rw [← eq_CR_of_isDiscarded hdiscard] at htranslate
  exact faults_bind hstrip (faults_bind hgone htranslate)

theorem handleChunk_eq_fault {turns : Nat} {chunk : List UInt8} (hturns : 0 < turns)
    (h : Emptied term.c_iflag chunk) (st : Handler) :
    ∃ st', handleChunk term foreground turns chunk st = .fault st' := by
  obtain ⟨b, rfl, hdiscard, hset⟩ := h
  obtain ⟨turns, rfl⟩ : ∃ n, turns = n + 1 := ⟨turns - 1, by omega⟩
  obtain ⟨c, stale, hbytes⟩ : ∃ c stale, st.buf.toList = c :: stale := by
    apply List.exists_cons_of_ne_nil
    intro hnil
    have hsize := congrArg List.length hnil
    rw [Vector.length_toList] at hsize
    cases hsize
  have hread : Leaves (readChunk 0 [b]) ([] ++ ([c] ++ stale)) () ([] ++ ([b] ++ stale)) :=
    leaves_readChunk rfl rfl
  have hloop : Faults (handleChars term foreground (turns + 1) 0 [b].length) (b :: stale) := by
    rw [handleChars, if_pos (by simp)]
    exact faults_bind_left (faults_handleChar term foreground hset hdiscard stale)
  exact faults_bind hread (faults_bind_left hloop) st hbytes

end Faults

/-! ## Inside the buffer -/

/-- Every access of the handler is inside its buffer, its loops end, and what it passes on is no
longer than the buffer. -/
def StaysInBuffer (term : TermIOs) (foreground : List Nat) (chunk : List UInt8) : Prop :=
  ∀ (st : Handler) (turns : Nat), chunk.length < turns →
    ∃ st' out, handleChunk term foreground turns chunk st = .ok () st' ∧
      st'.readBuffer = st.readBuffer ++ out ∧ out.length ≤ 256

/-- A handler that has done nothing yet. -/
def Handler.start : Handler where
  buf := Vector.replicate 256 0
  echoed := []
  readBuffer := []
  interrupted := []

end Keow.Console
