import Mathlib.Data.List.Induction
import Keow.Base.Comp
import Keow.Kernel.Linux

/-!
# The input of a console

`DevConsole::ConsoleHandlerMain`, `DevConsole.cpp:141–286`: a chunk is read into the front of a
buffer of 256 bytes, characters are dropped from it and put into it where it stands, and what it
has become goes to the read buffer of the processes. An access outside the buffer is a fault.
-/

namespace Keow.Console

open Keow.Base Keow.Kernel

def ISTRIP : DWORD := 0x20#32
def INLCR : DWORD := 0x40#32
def IGNCR : DWORD := 0x80#32
def ICRNL : DWORD := 0x100#32
def IUCLC : DWORD := 0x200#32
def ISIG : DWORD := 0x1#32
def ECHO : DWORD := 0x8#32
def ECHOE : DWORD := 0x10#32

def CR : UInt8 := 0x0D
def NL : UInt8 := 0x0A

/-- What the handler looks at in `m_TermIOs`. -/
structure TermIOs where
  c_iflag : DWORD
  c_lflag : DWORD
  /-- `c_cc[VINTR]`. -/
  vintr : UInt8

/-- A flag is set. -/
def isSet (flags flag : DWORD) : Bool := flags &&& flag != 0#32

/-- The handler's buffer and what it has sent. -/
structure Handler where
  buf : Vector UInt8 256
  /-- Written to `m_hConsoleWrite`. -/
  echoed : List UInt8
  /-- Written to `m_hConsoleReadBufferWrite`. -/
  readBuffer : List UInt8
  /-- The processes that were sent `SIGINT`. -/
  interrupted : List Nat

/-- A computation of the handler. -/
abbrev Handling := Comp Handler

/-- Read `buf[i]`. -/
def readBuf (i : Nat) : Handling UInt8 := fun st ↦
  match st.buf[i]? with
  | some b => .ok b st
  | none => .fault st

/-- Write `buf[i]`. -/
def writeBuf (i : Nat) (b : UInt8) : Handling Unit := fun st ↦
  if h : i < 256 then .ok () { st with buf := st.buf.set i b } else .fault st

/-- `tolower`. -/
def tolower (b : UInt8) : UInt8 := if 0x41 ≤ b ∧ b ≤ 0x5A then b + 0x20 else b

/-- The loop that discards a character, over this many characters behind it. -/
def closeGap (j : Nat) : Nat → Handling Unit
  | 0 => pure ()
  | n + 1 => do
      let b ← readBuf j
      writeBuf (j - 1) b
      closeGap (j + 1) n

/-- The loop that makes place for a character, in this many turns. -/
def openGap (j : Nat) : Nat → Handling Unit
  | 0 => pure ()
  | n + 1 => do
      let b ← readBuf (j - 1)
      writeBuf j b
      openGap (j - 1) n

/-- `dwRead-1`, a `DWORD`. -/
def lastIndex (dwRead : Nat) : Nat := (dwRead + 4294967295) % 4294967296

/-- A character goes behind the one at `i`: the new `i` and `dwRead`. -/
def insertChar (i dwRead : Nat) (c : UInt8) : Handling (Nat × Nat) := do
  openGap (lastIndex dwRead) (lastIndex dwRead - i)
  writeBuf (i + 1) c
  return (i + 1, dwRead + 1)

section Turn

variable (term : TermIOs) (foreground : List Nat)

/-- `(m_TermIOs.c_iflag & flag) && *p==c`. -/
def isChar (flag : DWORD) (c : UInt8) (p : Nat) : Handling Bool :=
  if isSet term.c_iflag flag then do
    let b ← readBuf p
    return b == c
  else return false

/-- `ISTRIP`. -/
def strip (p : Nat) : Handling Unit :=
  if isSet term.c_iflag ISTRIP then do
    let b ← readBuf p
    writeBuf p (b &&& 0x3F)
  else return ()

/-- `IGNCR`: the new `dwRead`. -/
def discard (i dwRead : Nat) : Handling Nat := do
  if ← isChar term IGNCR CR i then
    closeGap (i + 1) (dwRead - (i + 1))
    return dwRead - 1
  else return dwRead

/-- `INLCR` and `ICRNL`: the new `i` and `dwRead`. -/
def double (i dwRead : Nat) : Handling (Nat × Nat) := do
  if ← isChar term INLCR NL i then insertChar i dwRead CR
  else if ← isChar term ICRNL CR i then insertChar i dwRead NL
  else return (i, dwRead)

/-- `IUCLC`. -/
def lower (p : Nat) : Handling Unit :=
  if isSet term.c_iflag IUCLC then do
    let b ← readBuf p
    writeBuf p (tolower b)
  else return ()

/-- `ISIG`: whether a signal was sent. A `char` with its top bit set is below every `cc_t`. -/
def interrupt (p : Nat) : Handling Bool :=
  if isSet term.c_lflag ISIG then do
    let b ← readBuf p
    if b < 0x80 ∧ b = term.vintr then
      Comp.modify fun st ↦ { st with interrupted := st.interrupted ++ foreground }
      return !foreground.isEmpty
    else return false
  else return false

/-- `ECHO`. -/
def echo (p : Nat) (sent : Bool) : Handling Unit :=
  if isSet term.c_lflag ECHO && !sent then
    if isSet term.c_lflag ECHOE then
      Comp.modify fun st ↦ { st with echoed := st.echoed ++ [0x08, 0x20, 0x08] }
    else do
      let b ← readBuf p
      Comp.modify fun st ↦ { st with echoed := st.echoed ++ [b] }
  else return ()

/-- One turn of the loop over the chunk behind `IGNCR`, `DevConsole.cpp:189–279`. -/
def translateChar (i dwRead : Nat) : Handling (Nat × Nat) := do
  let p := i
  let (i, dwRead) ← double term i dwRead
  lower term p
  let sent ← interrupt term foreground p
  echo term p sent
  return (i + 1, dwRead)

/-- One turn of the loop over the chunk, `DevConsole.cpp:159–279`. -/
def handleChar (i dwRead : Nat) : Handling (Nat × Nat) := do
  strip term i
  let dwRead ← discard term i dwRead
  translateChar term foreground i dwRead

/-- The loop over the chunk, in at most this many turns: the last `dwRead`. -/
def handleChars : Nat → Nat → Nat → Handling Nat
  | 0, _, _ => Comp.wait
  | turns + 1, i, dwRead =>
      if i < dwRead then do
        let (i, dwRead) ← handleChar term foreground i dwRead
        handleChars turns i dwRead
      else return dwRead

/-- `ReadFile` of a chunk into the buffer. -/
def readChunk (j : Nat) : List UInt8 → Handling Unit
  | [] => return ()
  | b :: chunk => do
      writeBuf j b
      readChunk (j + 1) chunk

/-- `WriteFile` of the front of the buffer. -/
def writeChunk (dwRead : Nat) : Handling Unit := fun st ↦
  if dwRead ≤ 256 then
    .ok () { st with readBuffer := st.readBuffer ++ st.buf.toList.take dwRead }
  else .fault st

/-- A turn of the outer loop. -/
def handleChunk (turns : Nat) (chunk : List UInt8) : Handling Unit := do
  readChunk 0 chunk
  let dwRead ← handleChars term foreground turns 0 chunk.length
  writeChunk dwRead

end Turn

/-! ## What a computation leaves in the buffer -/

section Leaves

variable {α β : Type}

/-- With these bytes in the buffer it returns `a`, leaves those, and writes nothing to the read
buffer. -/
def Leaves (x : Handling α) (bytes : List UInt8) (a : α) (bytes' : List UInt8) : Prop :=
  ∀ st : Handler, st.buf.toList = bytes →
    ∃ st', x st = .ok a st' ∧ st'.buf.toList = bytes' ∧ st'.readBuffer = st.readBuffer

variable {bytes bytes' bytes'' pre post stale s : List UInt8} {b x : UInt8}

theorem leaves_pure (a : α) : Leaves (pure a) bytes a bytes := fun st h ↦ ⟨st, rfl, h, rfl⟩

theorem leaves_bind {x : Handling α} {f : α → Handling β} {a : α} {c : β}
    (hx : Leaves x bytes a bytes') (hf : Leaves (f a) bytes' c bytes'') :
    Leaves (x >>= f) bytes c bytes'' := by
  intro st h
  obtain ⟨st₁, hrun, hbytes, hread⟩ := hx st h
  obtain ⟨st₂, hrun', hbytes', hread'⟩ := hf st₁ hbytes
  exact ⟨st₂, by rw [Comp.bind_of_ok hrun, hrun'], hbytes', hread'.trans hread⟩

theorem leaves_readBuf {i : Nat} (hi : i = pre.length) :
    Leaves (readBuf i) (pre ++ b :: post) b (pre ++ b :: post) := by
  intro st h
  refine ⟨st, ?_, h, rfl⟩
  have hget : st.buf[i]? = some b := by
    rw [← Vector.getElem?_toList, h, hi, List.getElem?_append_right (Nat.le_refl _), Nat.sub_self]
    rfl
  simp only [readBuf, hget]

theorem leaves_writeBuf {i : Nat} (hi : i = pre.length) (c : UInt8) :
    Leaves (writeBuf i c) (pre ++ b :: post) () (pre ++ c :: post) := by
  intro st h
  have hlen : i < 256 := by
    have hsize := congrArg List.length h
    rw [Vector.length_toList, List.length_append, List.length_cons] at hsize
    omega
  refine ⟨{ st with buf := st.buf.set i c }, ?_, ?_, rfl⟩
  · simp only [writeBuf, hlen, dite_true]
  · rw [Vector.toList_set, h, hi, List.set_append_right _ _ (Nat.le_refl _), Nat.sub_self]
    rfl

/-- The characters behind a discarded one move up, and the last of them stays where it was. -/
theorem leaves_closeGap {j : Nat} (hj : j = pre.length + 1) :
    Leaves (closeGap j s.length) (pre ++ b :: (s ++ stale)) ()
      (pre ++ (s ++ s.getLastD b :: stale)) := by
  induction s generalizing pre b j with
  | nil => exact leaves_pure ()
  | cons x s ih =>
    have hread : Leaves (readBuf j) (pre ++ [b] ++ x :: (s ++ stale)) x _ :=
      leaves_readBuf (by simpa using hj)
    have hwrite : Leaves (writeBuf (j - 1) x) (pre ++ b :: x :: (s ++ stale)) () _ :=
      leaves_writeBuf (by omega) x
    have hrest : Leaves (closeGap (j + 1) s.length) (pre ++ [x] ++ x :: (s ++ stale)) () _ :=
      ih (by simpa using hj)
    simp only [List.append_assoc, List.cons_append, List.nil_append] at hread hrest
    rw [List.getLastD_cons]
    exact leaves_bind hread (leaves_bind hwrite hrest)

/-- The characters from `x` on move down, over the last of them. -/
theorem leaves_openGap {j n : Nat} (hn : n = s.length) (hj : s ≠ [] → j = pre.length + n) :
    Leaves (openGap j n) (pre ++ x :: (s ++ stale)) ()
      (pre ++ x :: ((x :: s).dropLast ++ stale)) := by
  induction s using List.reverseRecOn generalizing stale j n with
  | nil =>
    subst hn
    exact leaves_pure ()
  | append_singleton t y ih =>
    have hj := hj (by simp)
    obtain rfl : n = t.length + 1 := by simpa using hn
    -- `z` is in front of the last one
    obtain ⟨u, z, hz⟩ : ∃ u z, x :: t = u ++ [z] :=
      ⟨_, _, (List.dropLast_append_getLast (List.cons_ne_nil x t)).symm⟩
    have hlen := congrArg List.length hz
    simp only [List.length_cons, List.length_append, List.length_nil] at hlen
    have hbytes (c : UInt8) : pre ++ x :: (t ++ c :: stale) = pre ++ u ++ z :: c :: stale := by
      simpa using congrArg (pre ++ · ++ c :: stale) hz
    have hread : Leaves (readBuf (j - 1)) (pre ++ u ++ z :: y :: stale) z _ :=
      leaves_readBuf (by rw [List.length_append]; omega)
    have hwrite : Leaves (writeBuf j z) (pre ++ u ++ [z] ++ y :: stale) () _ :=
      leaves_writeBuf (by simp only [List.length_append, List.length_singleton]; omega) z
    have hrest : Leaves (openGap (j - 1) t.length) (pre ++ x :: (t ++ z :: stale)) () _ :=
      ih rfl fun _ ↦ by omega
    rw [List.append_assoc (pre ++ u), List.append_assoc (pre ++ u), List.singleton_append,
      List.singleton_append] at hwrite
    rw [hbytes, hz, List.dropLast_concat] at hrest
    have hafter : (x :: (t ++ [y])).dropLast ++ stale = u ++ z :: stale := by
      rw [← List.cons_append, List.dropLast_concat, hz, List.append_assoc, List.singleton_append]
    rw [List.append_assoc t, List.singleton_append, hbytes, hafter]
    exact leaves_bind hread (leaves_bind hwrite hrest)

/-- The characters that are left of `s`, and what stands behind them, once a character has been put
in before them: the last one has given way to what stood behind it. -/
def pushed (s stale : List UInt8) : List UInt8 × List UInt8 :=
  if s = [] then ([], stale.tail) else (s.dropLast ++ stale.take 1, stale.tail)

theorem dropLast_append_eq (x : UInt8) (s : List UInt8) {stale : List UInt8} (h : stale ≠ []) :
    ∃ d, (x :: s).dropLast ++ stale = d :: ((pushed s stale).1 ++ (pushed s stale).2) := by
  cases stale with
  | nil => exact absurd rfl h
  | cons z stale =>
    cases s with
    | nil => exact ⟨z, rfl⟩
    | cons y t => exact ⟨x, by simp [pushed]⟩

/-- The character behind which another one goes has `s` between it and `dwRead`. -/
def Spans (i dwRead : Nat) (s : List UInt8) : Prop :=
  lastIndex dwRead - i = s.length ∧ (s ≠ [] → lastIndex dwRead = i + s.length)

theorem leaves_insertChar {dwRead : Nat} (hspan : Spans pre.length dwRead s) (hstale : stale ≠ [])
    (c : UInt8) :
    Leaves (insertChar pre.length dwRead c) (pre ++ x :: (s ++ stale)) (pre.length + 1, dwRead + 1)
      (pre ++ [x, c] ++ ((pushed s stale).1 ++ (pushed s stale).2)) := by
  obtain ⟨hcount, hlast⟩ := hspan
  obtain ⟨d, hd⟩ := dropLast_append_eq x s hstale
  unfold insertChar
  generalize lastIndex dwRead = last at *
  have hgap : Leaves (openGap last (last - pre.length)) (pre ++ x :: (s ++ stale)) () _ :=
    leaves_openGap hcount fun hs ↦ by rw [hcount, hlast hs]
  have hwrite : Leaves (writeBuf (pre.length + 1) c)
      (pre ++ [x] ++ d :: ((pushed s stale).1 ++ (pushed s stale).2)) () _ :=
    leaves_writeBuf (by simp) c
  rw [hd] at hgap
  simp only [List.append_assoc, List.cons_append, List.nil_append] at hwrite ⊢
  exact leaves_bind hgap (leaves_bind hwrite (leaves_pure _))

end Leaves

/-! ## A character -/

section Character

variable (term : TermIOs) (foreground : List Nat) {pre post s stale : List UInt8} {x : UInt8}

/-- What `ISTRIP` makes of a character. -/
def stripped (c_iflag : DWORD) (b : UInt8) : UInt8 :=
  if isSet c_iflag ISTRIP then b &&& 0x3F else b

/-- `IGNCR` discards it. -/
def isDiscarded (c_iflag : DWORD) (b : UInt8) : Bool := isSet c_iflag IGNCR && b == CR

/-- What goes behind it. -/
def follower (c_iflag : DWORD) (b : UInt8) : Option UInt8 :=
  if isSet c_iflag INLCR && b == NL then some CR
  else if isSet c_iflag ICRNL && b == CR then some NL
  else none

/-- What `IUCLC` makes of it. -/
def lowered (c_iflag : DWORD) (b : UInt8) : UInt8 :=
  if isSet c_iflag IUCLC then tolower b else b

theorem leaves_isChar (flag : DWORD) (c : UInt8) :
    Leaves (isChar term flag c pre.length) (pre ++ x :: post)
      (isSet term.c_iflag flag && x == c) (pre ++ x :: post) := by
  unfold isChar
  cases isSet term.c_iflag flag with
  | true => exact leaves_bind (leaves_readBuf rfl) (leaves_pure _)
  | false => exact leaves_pure _

theorem leaves_strip :
    Leaves (strip term pre.length) (pre ++ x :: post) ()
      (pre ++ stripped term.c_iflag x :: post) := by
  unfold strip stripped
  split
  · exact leaves_bind (leaves_readBuf rfl) (leaves_writeBuf rfl _)
  · exact leaves_pure _

theorem leaves_lower :
    Leaves (lower term pre.length) (pre ++ x :: post) ()
      (pre ++ lowered term.c_iflag x :: post) := by
  unfold lower lowered
  split
  · exact leaves_bind (leaves_readBuf rfl) (leaves_writeBuf rfl _)
  · exact leaves_pure _

theorem leaves_interrupt :
    ∃ sent, Leaves (interrupt term foreground pre.length) (pre ++ x :: post) sent
      (pre ++ x :: post) := by
  unfold interrupt
  split
  · by_cases hintr : x < 0x80 ∧ x = term.vintr
    · refine ⟨!foreground.isEmpty, leaves_bind (leaves_readBuf rfl) ?_⟩
      rw [if_pos hintr]
      exact fun st h ↦ ⟨_, rfl, h, rfl⟩
    · refine ⟨false, leaves_bind (leaves_readBuf rfl) ?_⟩
      rw [if_neg hintr]
      exact leaves_pure _
  · exact ⟨_, leaves_pure _⟩

theorem leaves_echo (sent : Bool) :
    Leaves (echo term pre.length sent) (pre ++ x :: post) () (pre ++ x :: post) := by
  unfold echo
  split
  · split
    · exact fun st h ↦ ⟨_, rfl, h, rfl⟩
    · exact leaves_bind (leaves_readBuf rfl) fun st h ↦ ⟨_, rfl, h, rfl⟩
  · exact leaves_pure _

theorem leaves_discard_of_false {dwRead : Nat} (h : isDiscarded term.c_iflag x = false) :
    Leaves (discard term pre.length dwRead) (pre ++ x :: post) dwRead (pre ++ x :: post) := by
  have hchar : Leaves _ (pre ++ x :: post) _ _ := leaves_isChar term IGNCR CR
  rw [← isDiscarded, h] at hchar
  exact leaves_bind hchar (leaves_pure _)

theorem leaves_discard_of_true (h : isDiscarded term.c_iflag x = true) :
    Leaves (discard term pre.length (pre.length + 1 + s.length)) (pre ++ x :: (s ++ stale))
      (pre.length + s.length) (pre ++ (s ++ s.getLastD x :: stale)) := by
  have hchar : Leaves _ (pre ++ x :: (s ++ stale)) _ _ := leaves_isChar term IGNCR CR
  rw [← isDiscarded, h] at hchar
  have hgap : Leaves (closeGap (pre.length + 1) s.length) (pre ++ x :: (s ++ stale)) () _ :=
    leaves_closeGap rfl
  refine leaves_bind hchar ?_
  rw [if_pos rfl, Nat.add_sub_cancel_left,
    show pre.length + 1 + s.length - 1 = pre.length + s.length by omega]
  exact leaves_bind hgap (leaves_pure _)

theorem leaves_double_of_none {dwRead : Nat} (h : follower term.c_iflag x = none) :
    Leaves (double term pre.length dwRead) (pre ++ x :: post) (pre.length, dwRead)
      (pre ++ x :: post) := by
  have hinlcr : Leaves _ (pre ++ x :: post) _ _ := leaves_isChar term INLCR NL
  have hicrnl : Leaves _ (pre ++ x :: post) _ _ := leaves_isChar term ICRNL CR
  unfold follower at h
  split_ifs at h with hnl hcr
  rw [Bool.eq_false_iff.mpr hnl] at hinlcr
  rw [Bool.eq_false_iff.mpr hcr] at hicrnl
  exact leaves_bind hinlcr (leaves_bind hicrnl (leaves_pure _))

theorem leaves_double_of_some {dwRead : Nat} {c : UInt8} (h : follower term.c_iflag x = some c)
    (hspan : Spans pre.length dwRead s) (hstale : stale ≠ []) :
    Leaves (double term pre.length dwRead) (pre ++ x :: (s ++ stale)) (pre.length + 1, dwRead + 1)
      (pre ++ [x, c] ++ ((pushed s stale).1 ++ (pushed s stale).2)) := by
  have hinlcr : Leaves _ (pre ++ x :: (s ++ stale)) _ _ := leaves_isChar term INLCR NL
  have hicrnl : Leaves _ (pre ++ x :: (s ++ stale)) _ _ := leaves_isChar term ICRNL CR
  unfold follower at h
  split_ifs at h with hnl hcr
  · obtain rfl := Option.some.inj h
    rw [hnl] at hinlcr
    exact leaves_bind hinlcr (leaves_insertChar hspan hstale _)
  · obtain rfl := Option.some.inj h
    rw [Bool.eq_false_iff.mpr hnl] at hinlcr
    rw [hcr] at hicrnl
    exact leaves_bind hinlcr (leaves_bind hicrnl (leaves_insertChar hspan hstale _))

theorem leaves_translateChar_of_none {dwRead : Nat} (h : follower term.c_iflag x = none) :
    Leaves (translateChar term foreground pre.length dwRead) (pre ++ x :: post)
      (pre.length + 1, dwRead) (pre ++ lowered term.c_iflag x :: post) := by
  obtain ⟨sent, hsent⟩ : ∃ sent, Leaves (interrupt term foreground pre.length)
      (pre ++ lowered term.c_iflag x :: post) sent _ := leaves_interrupt term foreground
  exact leaves_bind (leaves_double_of_none term h) (leaves_bind (leaves_lower term)
    (leaves_bind hsent (leaves_bind (leaves_echo term sent) (leaves_pure _))))

theorem leaves_translateChar_of_some {dwRead : Nat} {c : UInt8}
    (h : follower term.c_iflag x = some c) (hspan : Spans pre.length dwRead s)
    (hstale : stale ≠ []) :
    Leaves (translateChar term foreground pre.length dwRead) (pre ++ x :: (s ++ stale))
      (pre.length + 2, dwRead + 1)
      (pre ++ lowered term.c_iflag x :: c :: ((pushed s stale).1 ++ (pushed s stale).2)) := by
  have hdouble := leaves_double_of_some term h hspan hstale
  rw [List.append_assoc] at hdouble
  obtain ⟨sent, hsent⟩ : ∃ sent, Leaves (interrupt term foreground pre.length)
      (pre ++ lowered term.c_iflag x :: c :: ((pushed s stale).1 ++ (pushed s stale).2)) sent _ :=
    leaves_interrupt term foreground
  exact leaves_bind hdouble (leaves_bind (leaves_lower term)
    (leaves_bind hsent (leaves_bind (leaves_echo term sent) (leaves_pure _))))

end Character

end Keow.Console
