import Keow.Base.PrefixCode
import Keow.Base.Run
import Keow.Console.Chunk

/-!
# From the keyboard to a process

`cons25::InputChar`, `cons25.cpp:456–615`, sends what a key stands for to the kernel, where
`ConsoleHandlerMain` takes it in chunks, translates it and keeps it for the processes. The code of
`VK_F1` is the one at the front of the string of codes, `-`, so that each function key has the
code that the comments give the key before it.
-/

namespace Keow.Console

open Keow.Base Keow.Kernel

def ESC : UInt8 := 0x1B
/-- `CTRL('C')`. -/
def CTRL_C : UInt8 := 0x03
def VK_RETURN : Nat := 0x0D
def VK_DELETE : Nat := 0x2E
def VK_F1 : Nat := 0x70
def VK_F24 : Nat := 0x87

/-- `INPUT_RECORD`. -/
inductive InputRecord where
  /-- `KEY_EVENT`. -/
  | key (keyDown : Bool) (virtualKeyCode : BitVec 16) (asciiChar : UInt8)
  | other

/-- `"-MNOPQRSTUVWXYZabcdefghij"`. -/
def functionKeys : Vector UInt8 25 :=
  #v[0x2D, 0x4D, 0x4E, 0x4F, 0x50, 0x51, 0x52, 0x53, 0x54, 0x55, 0x56, 0x57, 0x58, 0x59, 0x5A,
    0x61, 0x62, 0x63, 0x64, 0x65, 0x66, 0x67, 0x68, 0x69, 0x6A]

/-- The keys that are sent as `ESC [ X`, `cons25.cpp:495–583`. -/
def finalOf (vk : Nat) : Option UInt8 :=
  match vk with
  | 0x26 => some 0x41 -- VK_UP
  | 0x28 => some 0x42 -- VK_DOWN
  | 0x25 => some 0x44 -- VK_LEFT
  | 0x27 => some 0x43 -- VK_RIGHT
  | 0x24 => some 0x48 -- VK_HOME
  | 0x23 => some 0x46 -- VK_END
  | 0x22 => some 0x47 -- VK_NEXT
  | 0x21 => some 0x49 -- VK_PRIOR
  | 0x2D => some 0x4C -- VK_INSERT
  | vk => if VK_F1 ≤ vk ∧ vk ≤ VK_F24 then functionKeys[vk - VK_F1]? else none

/-- `cons25::InputChar`: what is written to `g_hKernelTextInput`. -/
def inputChar : InputRecord → List UInt8
  | .other => []
  | .key keyDown virtualKeyCode asciiChar =>
      if keyDown then
        match finalOf virtualKeyCode.toNat with
        | some final => [ESC, 0x5B, final]
        | none =>
          if virtualKeyCode.toNat = VK_RETURN then [NL]
          else if virtualKeyCode.toNat = VK_DELETE then [0x7F]
          else if asciiChar = 0 then []
          else [asciiChar]
      else if asciiChar = CTRL_C then [CTRL_C]
      else []

/-! ## Keys and their codes -/

/-- What a process is to see of the keyboard. -/
inductive Key where
  | special (virtualKeyCode : Nat)
  | char (c : UInt8)
deriving DecidableEq

namespace Key

def code : Key → List UInt8
  | special vk => [ESC, 0x5B, (finalOf vk).getD 0]
  | char c => [c]

/-- A key that is not taken for the beginning of another. -/
def Told : Key → Prop
  | special vk => (finalOf vk).isSome
  | char c => c ≠ ESC

instance : DecidablePred Told := fun
  | special vk => inferInstanceAs (Decidable ((finalOf vk).isSome = true))
  | char c => inferInstanceAs (Decidable (c ≠ ESC))

end Key

/-- The key of a record, if it is one. -/
def keyOf : InputRecord → Option Key
  | .other => none
  | .key keyDown virtualKeyCode asciiChar =>
      if keyDown then
        if (finalOf virtualKeyCode.toNat).isSome then some (.special virtualKeyCode.toNat)
        else if virtualKeyCode.toNat = VK_RETURN then some (.char NL)
        else if virtualKeyCode.toNat = VK_DELETE then some (.char 0x7F)
        else if asciiChar = 0 then none
        else some (.char asciiChar)
      else if asciiChar = CTRL_C then some (.char CTRL_C)
      else none

theorem inputChar_eq (r : InputRecord) : inputChar r = (keyOf r).toList.flatMap Key.code := by
  cases r with
  | other => rfl
  | key keyDown virtualKeyCode asciiChar =>
    unfold inputChar keyOf
    cases hfinal : finalOf virtualKeyCode.toNat with
    | none =>
      dsimp only
      split_ifs <;> simp_all [Key.code]
    | some final =>
      dsimp only
      split_ifs <;> simp_all [Key.code]

/-- The key with this third character. -/
def keyWith (final : UInt8) : Option Nat := (List.range 0x88).find? fun vk ↦ finalOf vk = some final

theorem finalOf_lt {vk : Nat} {final : UInt8} (h : finalOf vk = some final) : vk < 0x88 := by
  unfold finalOf at h
  split at h <;> try omega
  split at h
  · next hle => exact Nat.lt_succ_of_le hle.2
  · cases h

theorem keyWith_finalOf {vk : Nat} {final : UInt8} (h : finalOf vk = some final) :
    keyWith final = some vk := by
  have hall : ((List.range 0x88).all fun vk ↦
      (finalOf vk).all fun final ↦ keyWith final == some vk) = true := by decide +kernel
  have hvk := List.all_eq_true.mp hall vk (List.mem_range.mpr (finalOf_lt h))
  rw [h, Option.all_some] at hvk
  exact eq_of_beq hvk

/-- No two keys have the same code, and none has the beginning of that of another. -/
theorem prefixFree_code : PrefixFree Key.Told Key.code where
  ne_nil k _ := by cases k <;> exact List.cons_ne_nil _ _
  eq_of_prefix := by
    intro k k' hk hk' hpre
    cases k with
    | special vk =>
      cases k' with
      | special vk' =>
        obtain ⟨final, hfinal⟩ := Option.isSome_iff_exists.mp hk
        obtain ⟨final', hfinal'⟩ := Option.isSome_iff_exists.mp hk'
        have heq := List.IsPrefix.eq_of_length hpre rfl
        simp only [Key.code, hfinal, hfinal', Option.getD_some, List.cons.injEq, true_and,
          and_true] at heq
        have hsame := keyWith_finalOf hfinal
        rw [heq, keyWith_finalOf hfinal'] at hsame
        rw [Option.some.inj hsame]
      | char c => exact absurd hpre.length_le (by simp [Key.code])
    | char c =>
      cases k' with
      | special vk' =>
        have hc := (List.cons_prefix_cons.mp hpre).1
        exact absurd hc hk
      | char c' => rw [(List.cons_prefix_cons.mp hpre).1]

/-! ## The way to a process -/

/-- None of the flags that change characters is set. -/
def Raw (c_iflag : DWORD) : Prop :=
  ∀ flag ∈ [ISTRIP, INLCR, IGNCR, ICRNL, IUCLC], isSet c_iflag flag = false

/-- The flags of a new console, `DevConsole.cpp:62`: `IGNBRK|IGNPAR|IXOFF|ISIG`. -/
def initialIflag : DWORD := 0x1005#32

theorem raw_initialIflag : Raw initialIflag := by
  simp [Raw, isSet, initialIflag, ISTRIP, INLCR, IGNCR, ICRNL, IUCLC]

section Raw

variable {c_iflag : DWORD} (h : Raw c_iflag)

include h

theorem emitted_of_raw (chunk stale : List UInt8) : emitted c_iflag chunk stale = chunk := by
  obtain ⟨hstrip, hinlcr, higncr, hicrnl, hiuclc⟩ :
      isSet c_iflag ISTRIP = false ∧ isSet c_iflag INLCR = false ∧ isSet c_iflag IGNCR = false ∧
        isSet c_iflag ICRNL = false ∧ isSet c_iflag IUCLC = false := by
    simpa [Raw] using h
  induction chunk with
  | nil => rw [emitted]
  | cons b chunk ih =>
    have hstripped : stripped c_iflag b = b := by simp [stripped, hstrip]
    have hfollower : follower c_iflag b = none := by simp [follower, hinlcr, hicrnl]
    have hlowered : lowered c_iflag b = b := by simp [lowered, hiuclc]
    have htranslated : translated c_iflag b chunk stale = some (b, chunk, stale) := by
      simp [translated, hstripped, isDiscarded, higncr]
    rw [emitted_of_some c_iflag htranslated, past, outcome, hfollower, hlowered]
    exact congrArg (b :: ·) ih

theorem not_emptied_of_raw (chunk : List UInt8) : ¬Emptied c_iflag chunk := by
  rintro ⟨b, -, hdiscard, -⟩
  have higncr : isSet c_iflag IGNCR = false := h IGNCR (by simp)
  rw [isDiscarded, higncr] at hdiscard
  cases hdiscard

end Raw

/-- The keyboard, the pipes behind it, and what has come to the processes. -/
structure Typing where
  /-- The keys so far. -/
  typed : List Key := []
  /-- In the pipe from the console process. -/
  console : List UInt8 := []
  /-- With the pipe to the processes as its read buffer. -/
  handler : Handler := .start
  /-- What the processes have read. -/
  read : List UInt8 := []
  crashed : Bool := false

/-- The console process takes an input record, the handler a chunk of at most `sizeof(buf)/2`
bytes, or a process reads. -/
inductive TypingStep where
  | input (r : InputRecord)
  | handle (term : TermIOs) (foreground : List Nat) (size : Nat)
  | read (size : Nat)

namespace TypingStep

/-- The settings of the console are such that it passes characters on as they are. -/
def Raw : TypingStep → Prop
  | handle term _ _ => Console.Raw term.c_iflag
  | _ => True

end TypingStep

namespace Typing

def step (s : Typing) : TypingStep → Typing
  | .input r =>
      { s with typed := s.typed ++ (keyOf r).toList, console := s.console ++ inputChar r }
  | .handle term foreground size =>
      let chunk := s.console.take (min size 128)
      match handleChunk term foreground (chunk.length + 1) chunk s.handler with
      | .ok _ handler => { s with console := s.console.drop (min size 128), handler := handler }
      | _ => { s with crashed := true }
  | .read size =>
      { s with
        handler := { s.handler with readBuffer := s.handler.readBuffer.drop size }
        read := s.read ++ s.handler.readBuffer.take size }

/-- What has been typed is on its way or has been read. -/
structure Lossless (s : Typing) : Prop where
  crashed : s.crashed = false
  all : s.read ++ s.handler.readBuffer ++ s.console = s.typed.flatMap Key.code

theorem step_handle (s : Typing) {term : TermIOs} (hraw : Raw term.c_iflag)
    (foreground : List Nat) (size : Nat) :
    ∃ handler, s.step (.handle term foreground size) =
        { s with console := s.console.drop (min size 128), handler := handler } ∧
      handler.readBuffer = s.handler.readBuffer ++ s.console.take (min size 128) := by
  have hlen : (s.console.take (min size 128)).length ≤ 128 := by
    rw [List.length_take]
    omega
  obtain ⟨handler, hrun, hbuffer, -⟩ := handleChunk_eq term foreground hlen
    (Nat.lt_succ_self _) (not_emptied_of_raw hraw _) s.handler
  refine ⟨handler, by simp only [step, hrun], ?_⟩
  rw [hbuffer, emitted_of_raw hraw]

theorem lossless_step {s : Typing} (h : s.Lossless) {i : TypingStep} (hraw : i.Raw) :
    (s.step i).Lossless := by
  have hall := h.all
  cases i with
  | input r =>
    refine ⟨h.crashed, ?_⟩
    rw [step, List.flatMap_append, ← inputChar_eq, ← hall]
    simp
  | handle term foreground size =>
    obtain ⟨handler, hstep, hbuffer⟩ := step_handle s hraw foreground size
    rw [hstep]
    refine ⟨h.crashed, ?_⟩
    rw [hbuffer, ← hall]
    simp
  | read size =>
    refine ⟨h.crashed, ?_⟩
    rw [step, ← hall]
    simp

/-- The handler gets through with what is in the pipe. -/
theorem exists_handled {term : TermIOs} (hraw : Raw term.c_iflag) {n : Nat} {s : Typing}
    (h : s.Lossless) (hn : s.console.length ≤ n) :
    ∃ k, let s' := (List.replicate k (TypingStep.handle term [] 128)).foldl step s
      s'.Lossless ∧ s'.console = [] ∧ s'.typed = s.typed := by
  induction n generalizing s with
  | zero => exact ⟨0, h, List.length_eq_zero_iff.mp (Nat.le_zero.mp hn), rfl⟩
  | succ n ih =>
    obtain ⟨handler, hstep, -⟩ := step_handle s hraw [] 128
    have hlen : (s.step (.handle term [] 128)).console.length ≤ n := by
      rw [hstep]
      simp only [List.length_drop]
      omega
    have hnext := lossless_step (i := .handle term [] 128) h hraw
    obtain ⟨k, hlossless, hconsole, htyped⟩ := ih hnext hlen
    exact ⟨k + 1, hlossless, hconsole, htyped.trans (by rw [hstep])⟩

/-- Before anything is typed. -/
def start : Typing := {}

/-- `VK_UP` and a letter, with the code of the key cut by a chunk. -/
def upAndLetter : List TypingStep :=
  [.input (.key true 0x26#16 0), .handle ⟨initialIflag, ECHO, 3⟩ [] 2,
    .input (.key true 0x41#16 0x61), .handle ⟨initialIflag, ECHO, 3⟩ [] 128, .read 3]

end Typing

end Keow.Console
