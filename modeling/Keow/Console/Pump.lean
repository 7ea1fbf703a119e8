import Keow.Base.Run

/-!
# The output of a console

The loop of the console process around `g_hKernelTextOutput`, `KeowConsole.cpp:218–241`: what
`PeekNamedPipe` finds pending is read into `KernelTextBuffer`, which has 1000 elements, and goes
to `OutputChar` from there. The kernel writes to the pipe between any two steps.
-/

namespace Keow.Console

open Keow.Base

/-- Where the loop stands. -/
inductive PumpPhase where
  | waiting
  /-- Behind `PeekNamedPipe`. -/
  | peeked (dwAvail : Nat)
  /-- In the loop over `KernelTextBuffer`. -/
  | printing (i dwAvail : Nat)
  /-- `ReadFile` has stored past the end of `KernelTextBuffer`. -/
  | overrun

/-- The pipe and the two ends of it. -/
structure Pump where
  /-- All that the kernel has written. -/
  written : List UInt8
  pipe : List UInt8
  phase : PumpPhase
  kernelTextBuffer : Vector UInt8 1000
  /-- All that has gone to `OutputChar`. -/
  printed : List UInt8

/-- The kernel writes, or the console loop takes its next step. -/
inductive PumpStep where
  | write (bytes : List UInt8)
  | console

namespace Pump

/-- Bytes stored at the front of the buffer. -/
def store (buf : Vector UInt8 1000) (bytes : List UInt8) (h : bytes.length ≤ 1000) :
    Vector UInt8 1000 :=
  ⟨(bytes ++ buf.toList.drop bytes.length).toArray, by simp; omega⟩

/-- `ReadFile` takes what there is, up to the size asked for. -/
def readFile (s : Pump) (dwAvail : Nat) : Pump :=
  if h : (s.pipe.take dwAvail).length ≤ 1000 then
    { s with
      pipe := s.pipe.drop dwAvail
      kernelTextBuffer := store s.kernelTextBuffer (s.pipe.take dwAvail) h
      phase := .printing 0 (s.pipe.take dwAvail).length }
  else { s with pipe := s.pipe.drop dwAvail, phase := .overrun }

/-- A step of the console loop. -/
def turn (s : Pump) : Pump :=
  match s.phase with
  | .waiting => if s.pipe.length ≠ 0 then { s with phase := .peeked s.pipe.length } else s
  | .peeked dwAvail => s.readFile dwAvail
  | .printing i dwAvail =>
      if i < dwAvail then
        match s.kernelTextBuffer[i]? with
        | some c => { s with printed := s.printed ++ [c], phase := .printing (i + 1) dwAvail }
        | none => { s with phase := .overrun }
      else { s with phase := .waiting }
  | .overrun => s

def step (s : Pump) : PumpStep → Pump
  | .write bytes => { s with written := s.written ++ bytes, pipe := s.pipe ++ bytes }
  | .console => s.turn

/-- Before anything is written. -/
def start (buf : Vector UInt8 1000) : Pump where
  written := []
  pipe := []
  phase := .waiting
  kernelTextBuffer := buf
  printed := []

/-- What has been read and not been printed yet. -/
def inHand (s : Pump) : List UInt8 :=
  match s.phase with
  | .printing i dwAvail => (s.kernelTextBuffer.toList.take dwAvail).drop i
  | _ => []

/-- `ReadFile` has stayed inside the buffer, and what is printed, read and pending is what has
been written. -/
def Lossless (s : Pump) : Prop :=
  s.phase ≠ .overrun ∧ s.printed ++ s.inHand ++ s.pipe = s.written

/-- `ReadFile` is not asked for more than `KernelTextBuffer` holds. -/
def FitsBuffer (s : Pump) : PumpStep → Prop
  | .write _ => True
  | .console => ∀ dwAvail, s.phase = .peeked dwAvail → dwAvail ≤ 1000

/-- What the loop relies on. -/
structure Inv (s : Pump) : Prop where
  lossless : s.Lossless
  peeked : ∀ dwAvail, s.phase = .peeked dwAvail → dwAvail ≤ s.pipe.length
  printing : ∀ i dwAvail, s.phase = .printing i dwAvail → i ≤ dwAvail ∧ dwAvail ≤ 1000

theorem inv_start (buf : Vector UInt8 1000) : (start buf).Inv where
  lossless := ⟨PumpPhase.noConfusion, rfl⟩
  peeked _ h := by cases h
  printing _ _ h := by cases h

theorem toList_store (buf : Vector UInt8 1000) {bytes : List UInt8} (h : bytes.length ≤ 1000) :
    (store buf bytes h).toList = bytes ++ buf.toList.drop bytes.length := rfl

section Step

variable {s : Pump}

theorem inv_write (h : s.Inv) (bytes : List UInt8) : (s.step (.write bytes)).Inv where
  lossless := by
    refine ⟨h.lossless.1, ?_⟩
    change s.printed ++ s.inHand ++ (s.pipe ++ bytes) = s.written ++ bytes
    rw [← List.append_assoc, h.lossless.2]
  peeked n hn := by
    have hle := h.peeked n hn
    rw [step, List.length_append]
    omega
  printing := h.printing

theorem inv_readFile (h : s.Inv) {dwAvail : Nat} (hphase : s.phase = .peeked dwAvail)
    (hfits : dwAvail ≤ 1000) : (s.readFile dwAvail).Inv := by
  have hlen : (s.pipe.take dwAvail).length ≤ 1000 := by
    rw [List.length_take]
    omega
  have hall := h.lossless.2
  rw [inHand, hphase, List.append_nil] at hall
  rw [readFile, dif_pos hlen]
  refine ⟨⟨PumpPhase.noConfusion, ?_⟩, fun n hn ↦ (by cases hn), ?_⟩
  · simp only [inHand, toList_store, List.take_left, List.drop_zero]
    rw [List.append_assoc, List.take_append_drop, hall]
  · rintro i n hn
    cases hn
    exact ⟨Nat.zero_le _, hlen⟩

/-- A character is printed. -/
theorem inv_print (h : s.Inv) {i dwAvail : Nat} (hphase : s.phase = .printing i dwAvail)
    (hlt : i < dwAvail) (c : UInt8) (hc : s.kernelTextBuffer[i]? = some c) :
    Inv { s with printed := s.printed ++ [c], phase := .printing (i + 1) dwAvail } := by
  have hbounds := h.printing i dwAvail hphase
  have hall := h.lossless.2
  have htake : (s.kernelTextBuffer.toList.take dwAvail)[i]? = some c := by
    rw [List.getElem?_take_of_lt hlt, Vector.getElem?_toList, hc]
  have hdrop : (s.kernelTextBuffer.toList.take dwAvail).drop i =
      c :: (s.kernelTextBuffer.toList.take dwAvail).drop (i + 1) := by
    obtain ⟨hi, hget⟩ := List.getElem?_eq_some_iff.mp htake
    rw [List.drop_eq_getElem_cons hi, hget]
  refine ⟨⟨PumpPhase.noConfusion, ?_⟩, fun n hn ↦ (by cases hn), ?_⟩
  · simp only [inHand, hphase, hdrop] at hall
    simpa [inHand] using hall
  · rintro j n hn
    cases hn
    exact ⟨hlt, hbounds.2⟩

theorem inv_turn (h : s.Inv) (hfits : s.FitsBuffer .console) : s.turn.Inv := by
  unfold turn
  cases hphase : s.phase with
  | waiting =>
    dsimp only
    split
    · refine ⟨⟨PumpPhase.noConfusion, ?_⟩, fun n hn ↦ ?_, fun i n hn ↦ (by cases hn)⟩
      · simpa [inHand, hphase] using h.lossless.2
      · cases hn
        exact Nat.le_refl _
    · exact h
  | peeked dwAvail => exact inv_readFile h hphase (hfits dwAvail hphase)
  | printing i dwAvail =>
    have hbounds := h.printing i dwAvail hphase
    dsimp only
    split
    · rename_i hlt
      have hc : s.kernelTextBuffer[i]? = some s.kernelTextBuffer[i] :=
        getElem?_pos s.kernelTextBuffer i (by omega)
      rw [hc]
      exact inv_print h hphase hlt _ hc
    · rename_i hge
      refine ⟨⟨PumpPhase.noConfusion, ?_⟩, fun n hn ↦ (by cases hn), fun i n hn ↦ (by cases hn)⟩
      have hdone : (s.kernelTextBuffer.toList.take dwAvail).drop i = [] := by
        rw [List.drop_eq_nil_iff, List.length_take]
        omega
      simpa [inHand, hphase, hdone] using h.lossless.2
  | overrun => exact absurd hphase h.lossless.1

theorem inv_step (h : s.Inv) {i : PumpStep} (hfits : s.FitsBuffer i) : (s.step i).Inv := by
  cases i with
  | write bytes => exact inv_write h bytes
  | console => exact inv_turn h hfits

/-- A larger `ReadFile` stores past the end. -/
theorem not_lossless_of_not_fits (h : s.Inv) {i : PumpStep} (hfits : ¬s.FitsBuffer i) :
    ¬(s.step i).Lossless := by
  cases i with
  | write bytes => exact absurd trivial hfits
  | console =>
    simp only [FitsBuffer, not_forall, Nat.not_le] at hfits
    obtain ⟨dwAvail, hphase, hlarge⟩ := hfits
    have hpipe := h.peeked dwAvail hphase
    have hlen : ¬(s.pipe.take dwAvail).length ≤ 1000 := by
      rw [List.length_take]
      omega
    intro hlossless
    rw [step, turn, hphase] at hlossless
    dsimp only at hlossless
    rw [readFile, dif_neg hlen] at hlossless
    exact hlossless.1 rfl

end Step

/-! ## What the loop comes to -/

/-- What a run writes. -/
def text (steps : List PumpStep) : List UInt8 :=
  steps.flatMap fun
    | .write bytes => bytes
    | .console => []

theorem written_turn (s : Pump) : s.turn.written = s.written := by
  unfold turn readFile
  cases s.phase with
  | waiting =>
    dsimp only
    split <;> rfl
  | peeked dwAvail =>
    dsimp only
    split <;> rfl
  | printing i dwAvail =>
    dsimp only
    split
    · split <;> rfl
    · rfl
  | overrun => rfl

theorem written_foldl (s : Pump) (steps : List PumpStep) :
    (steps.foldl step s).written = s.written ++ text steps := by
  induction steps generalizing s with
  | nil => simp [text]
  | cons i steps ih =>
    rw [List.foldl_cons, ih, text, text, List.flatMap_cons, ← List.append_assoc]
    cases i with
    | write bytes => rfl
    | console => rw [step, written_turn, List.append_nil]

/-- The loop gets here by itself, and reads nothing that does not fit. -/
structure Reaches (s s' : Pump) : Prop where
  inv : s'.Inv
  exists_turns : ∃ k, (List.replicate k .console).foldl step s = s'

theorem Reaches.refl {s : Pump} (h : s.Inv) : s.Reaches s := ⟨h, 0, rfl⟩

/-- A turn first. -/
theorem Reaches.head {s s' : Pump} (h : s.turn.Reaches s') : s.Reaches s' := by
  obtain ⟨k, hk⟩ := h.exists_turns
  exact ⟨h.inv, k + 1, by rw [List.replicate_succ, List.foldl_cons, ← hk]; rfl⟩

theorem Reaches.trans {s s' s'' : Pump} (h : s.Reaches s') (h' : s'.Reaches s'') :
    s.Reaches s'' := by
  obtain ⟨k, hk⟩ := h.exists_turns
  obtain ⟨k', hk'⟩ := h'.exists_turns
  exact ⟨h'.inv, k + k', by rw [List.replicate_add, List.foldl_append, hk, hk']⟩

/-- What has been read is printed. -/
theorem reaches_of_printing {n : Nat} {s : Pump} (h : s.Inv) {i dwAvail : Nat}
    (hphase : s.phase = .printing i dwAvail) (hn : dwAvail - i = n) :
    ∃ s', s.Reaches s' ∧ s'.phase = .waiting ∧ s'.pipe = s.pipe := by
  have hnext : s.turn.Inv :=
    inv_turn h fun d hd ↦ PumpPhase.noConfusion (hphase.symm.trans hd)
  have hbounds := h.printing i dwAvail hphase
  induction n generalizing s i with
  | zero =>
    have hturn : s.turn = { s with phase := .waiting } := by
      rw [turn, hphase]
      exact if_neg (by omega)
    exact ⟨s.turn, (Reaches.refl hnext).head, by rw [hturn], by rw [hturn]⟩
  | succ n ih =>
    have hlt : i < 1000 := by omega
    have hturn : s.turn = { s with
        printed := s.printed ++ [s.kernelTextBuffer[i]]
        phase := .printing (i + 1) dwAvail } := by
      rw [turn, hphase]
      simp only [if_pos (show i < dwAvail by omega), Vector.getElem?_eq_getElem hlt]
    have hphase' : s.turn.phase = .printing (i + 1) dwAvail := by rw [hturn]
    obtain ⟨s', hreaches, hwaiting, hpipe⟩ := ih hnext hphase' (by omega)
      (inv_turn hnext fun d hd ↦ PumpPhase.noConfusion (hphase'.symm.trans hd)) (by omega)
    exact ⟨s', hreaches.head, hwaiting, by rw [hpipe, hturn]⟩

/-- What has been found is read and printed. -/
theorem reaches_of_peeked {s : Pump} (h : s.Inv) {dwAvail : Nat}
    (hphase : s.phase = .peeked dwAvail) (hfits : dwAvail ≤ 1000) :
    ∃ s', s.Reaches s' ∧ s'.phase = .waiting ∧ s'.pipe = s.pipe.drop dwAvail := by
  have hlen : (s.pipe.take dwAvail).length ≤ 1000 := by
    rw [List.length_take]
    omega
  have hturn : s.turn = s.readFile dwAvail := by rw [turn, hphase]
  have hnext := inv_readFile h hphase hfits
  rw [readFile, dif_pos hlen] at hturn hnext
  obtain ⟨s', hreaches, hwaiting, hpipe⟩ := reaches_of_printing hnext rfl rfl
  exact ⟨s', (hturn ▸ hreaches).head, hwaiting, hpipe⟩

/-- What is pending is found, read and printed. -/
theorem reaches_of_waiting {s : Pump} (h : s.Inv) (hphase : s.phase = .waiting)
    (hpending : s.pipe.length ≤ 1000) :
    ∃ s', s.Reaches s' ∧ s'.phase = .waiting ∧ s'.pipe = [] := by
  by_cases hpipe : s.pipe.length = 0
  · exact ⟨s, .refl h, hphase, List.length_eq_zero_iff.mp hpipe⟩
  · have hturn : s.turn = { s with phase := .peeked s.pipe.length } := by
      rw [turn, hphase]
      exact if_pos hpipe
    have hnext : s.turn.Inv :=
      inv_turn h fun d hd ↦ PumpPhase.noConfusion (hphase.symm.trans hd)
    obtain ⟨s', hreaches, hwaiting, hrest⟩ :=
      reaches_of_peeked hnext (congrArg phase hturn) hpending
    exact ⟨s', hreaches.head, hwaiting, by simp [hrest, hturn]⟩

/-- The loop gets through with what has been written. -/
theorem exists_reaches {s : Pump} (h : s.Inv) (hpending : s.pipe.length ≤ 1000) :
    ∃ s', s.Reaches s' ∧ s'.printed = s.written := by
  have hidle : ∃ s', s.Reaches s' ∧ s'.phase = .waiting ∧ s'.pipe.length ≤ 1000 := by
    cases hphase : s.phase with
    | waiting => exact ⟨s, .refl h, hphase, hpending⟩
    | peeked dwAvail =>
      have hle := h.peeked dwAvail hphase
      obtain ⟨s', hreaches, hwaiting, hpipe⟩ := reaches_of_peeked h hphase (by omega)
      exact ⟨s', hreaches, hwaiting, by rw [hpipe, List.length_drop]; omega⟩
    | printing i dwAvail =>
      obtain ⟨s', hreaches, hwaiting, hpipe⟩ := reaches_of_printing h hphase rfl
      exact ⟨s', hreaches, hwaiting, by rw [hpipe]; exact hpending⟩
    | overrun => exact absurd hphase h.lossless.1
  obtain ⟨s', hreaches, hwaiting, hle⟩ := hidle
  obtain ⟨s'', hreaches', hwaiting', hpipe⟩ := reaches_of_waiting hreaches.inv hwaiting hle
  have hall := hreaches.trans hreaches'
  refine ⟨s'', hall, ?_⟩
  obtain ⟨k, hk⟩ := hall.exists_turns
  have hwritten : s''.written = s.written := by
    rw [← hk, written_foldl]
    simp [text]
  have hlossless := hreaches'.inv.lossless.2
  simpa [inHand, hwaiting', hpipe, hwritten] using hlossless

/-- However the kernel's writes fall between the steps of the console, nothing is lost and nothing
stored past the end of the buffer, all through a run, exactly if no peek that a `ReadFile` follows
has found more than the buffer holds. From every state of such a run in which the pipe holds no
more, the loop comes to where all that has been written is printed. -/
theorem lossless_iff (buf : Vector UInt8 1000) (steps : List PumpStep) :
    ((∀ s ∈ trail step (start buf) steps, s.Lossless) ↔
      Along step FitsBuffer (start buf) steps) ∧
    (Along step FitsBuffer (start buf) steps →
      ∀ s ∈ trail step (start buf) steps, s.pipe.length ≤ 1000 →
        ∃ k, ((List.replicate k .console).foldl step s).Lossless ∧
          ((List.replicate k .console).foldl step s).printed = s.written) := by
  constructor
  · exact trail_iff_along (fun (s : Pump) (h : s.Inv) ↦ h.lossless) (fun _ _ h ↦ inv_step h)
      (fun _ _ h ↦ not_lossless_of_not_fits h) (inv_start buf) steps
  · intro hfits s hs hpending
    have hstep : ∀ (s : Pump) (i : PumpStep), s.Inv → s.FitsBuffer i → (s.step i).Inv :=
      fun _ _ h hi ↦ inv_step h hi
    have hinv : s.Inv := trail_of_along hstep (inv_start buf) hfits s hs
    obtain ⟨s', hreaches, hprinted⟩ := exists_reaches hinv hpending
    obtain ⟨k, rfl⟩ := hreaches.exists_turns
    exact ⟨k, hreaches.inv.lossless, hprinted⟩

/-- The first peek, behind a write. -/
theorem peeked_of_write (buf : Vector UInt8 1000) {bytes : List UInt8} (h : bytes ≠ []) :
    (((start buf).step (.write bytes)).step .console).Inv ∧
      (((start buf).step (.write bytes)).step .console).phase = .peeked bytes.length := by
  constructor
  · exact inv_step (inv_write (inv_start buf) bytes) fun n hn ↦ by cases hn
  · simp [step, turn, start, h]

/-- 1001 bytes between two turns of the loop. -/
theorem not_lossless_1001 :
    ¬∀ s ∈ trail step (start (Vector.replicate 1000 0))
      [.write (List.replicate 1001 0x41), .console, .console], s.Lossless := by
  intro h
  generalize hbytes : List.replicate 1001 (0x41 : UInt8) = bytes at h
  have hlen : bytes.length = 1001 := by rw [← hbytes, List.length_replicate]
  have hne : bytes ≠ [] := List.ne_nil_of_length_pos (by omega)
  obtain ⟨hinv, hphase⟩ := peeked_of_write (Vector.replicate 1000 0) hne
  refine not_lossless_of_not_fits hinv (i := .console) (fun hfits ↦ ?_)
    (h _ (foldl_mem_trail step _ _))
  have hle := hfits _ hphase
  omega

end Pump

end Keow.Console
