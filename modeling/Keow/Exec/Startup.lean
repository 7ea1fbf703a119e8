import Keow.Exec.CommandLine

/-!
# The command line of the kernel

`KernelStartup::ProcessCommandLine`, `KernelStartup.cpp:55–120`, with the handlers of its
arguments, `KernelStartup.cpp:249–290`, and the loop of `Process::StartInit` that counts the
arguments of init up to their terminator, `Process.cpp:143`. The store of an argument is guarded
by the size of the array, and the terminator is what is left of the initial fill.
-/

namespace Keow.Exec

open Keow.Base Keow.Kernel Keow.Paths

/-- `s_InitMaxArgs`. -/
def initMaxArgs : Nat := 20

/-- What the command line sets. -/
structure Startup where
  /-- `s_InitArguments`. -/
  initArguments : Vector (Option Str) initMaxArgs
  /-- `s_InitCurrentArgs`. -/
  initCurrentArgs : Nat
  /-- `s_pszAutoMount`. -/
  autoMount : Option Str
  /-- `m_FilesystemRoot`, which is mounted as the root. -/
  filesystemRoot : Str
  /-- `m_DebugLevel`. -/
  debugLevel : BitVec 32
  /-- `m_hLogFile`. -/
  logFile : DWORD

/-- What Windows does for the handlers. -/
structure StartupHost where
  setCurrentDirectory : Str → Bool
  /-- What `GetCurrentDirectory` reports in the directory. -/
  getCurrentDirectory : Str → Str
  createFile : Str → DWORD

/-- `atoi`: blanks, a sign and digits. -/
def atoi (s : Str) : BitVec 32 :=
  let s := s.dropWhile isspace
  let digits := if s.head? = some 0x2B ∨ s.head? = some 0x2D then s.tail else s
  let n := (digits.takeWhile fun c ↦ 0x30 ≤ c && c ≤ 0x39).foldl
    (fun n c ↦ 10 * n + (c.toNat - 0x30)) 0
  if s.head? = some 0x2D then -BitVec.ofNat 32 n else BitVec.ofNat 32 n

section Handlers

variable (host : StartupHost)

/-- A computation on the settings. -/
abbrev Starting := Comp Startup Unit

/-- `arg_root`. -/
def argRoot (arg : Str) : Starting :=
  if host.setCurrentDirectory arg then
    Comp.modify fun s ↦ { s with filesystemRoot := host.getCurrentDirectory arg }
  else Comp.exit -- `halt`

/-- `arg_init`. -/
def argInit (arg : Str) : Starting :=
  Comp.modify fun s ↦ { s with initArguments := s.initArguments.set 0 (some arg) (by decide) }

/-- `arg_debug`. -/
def argDebug (arg : Str) : Starting := Comp.modify fun s ↦ { s with debugLevel := atoi arg }

/-- `arg_automount`. -/
def argAutomount (arg : Str) : Starting := Comp.modify fun s ↦ { s with autoMount := some arg }

/-- `arg_log`. -/
def argLog (arg : Str) : Starting := Comp.modify fun s ↦ { s with logFile := host.createFile arg }

/-- `s_ArgumentHandlers`. -/
def argumentHandlers : List (Str × (Str → Starting)) :=
  [(ascii "root", argRoot host), (ascii "init", argInit), (ascii "debug", argDebug),
    (ascii "automount", argAutomount), (ascii "log", argLog host)]

/-- The name and the value of an argument, which are the same without `=`. -/
def nameAndValue (a : Str) : Str × Str :=
  if 0x3D ∈ a then (a.takeWhile (· ≠ 0x3D), (a.dropWhile (· ≠ 0x3D)).tail) else (a, a)

/-- An argument for init, if there is place for it. -/
def addInitArgument (val : Str) (s : Startup) : Startup :=
  if h : s.initCurrentArgs < initMaxArgs then
    { s with
      initArguments := s.initArguments.set s.initCurrentArgs (some val)
      initCurrentArgs := s.initCurrentArgs + 1 }
  else s

/-- A turn of the loop over the arguments. -/
def processArgument (a : Str) : Starting :=
  match (argumentHandlers host).find? (·.1 = (nameAndValue a).1) with
  | some handler => handler.2 (nameAndValue a).2
  | none => Comp.modify (addInitArgument (nameAndValue a).2)

/-- The loop over the arguments. -/
def processArguments : List Str → Starting
  | [] => return ()
  | a :: args => do
      processArgument host a
      processArguments args

/-- The defaults. -/
def setDefaults (s : Startup) : Startup :=
  { s with
    initArguments :=
      (Vector.replicate initMaxArgs none).set 0 (some (ascii "/bin/init")) (by decide)
    initCurrentArgs := 1 }

/-- `ProcessCommandLine`. -/
def processCommandLine (lpCmdLine : Str) : Starting := do
  Comp.modify setDefaults
  processArguments host (parseCommandLine .start lpCmdLine)
  Comp.modify fun s ↦ if s.logFile = 0#32 then { s with debugLevel := 0#32 } else s

end Handlers

/-- The loop of `StartInit`, which has no other bound than the array. -/
def argCnt : List (Option Str) → Option Nat
  | [] => none
  | none :: _ => some 0
  | some _ :: slots => (argCnt slots).map (· + 1)

/-! ## The arguments of init -/

/-- Nothing handles the argument. -/
def isUnknown (a : Str) : Bool :=
  (nameAndValue a).1 ∉ [ascii "root", ascii "init", ascii "debug", ascii "automount", ascii "log"]

/-- The values of the arguments that nothing handles. -/
def unknownValues (args : List Str) : List Str :=
  (args.filter isUnknown).map fun a ↦ (nameAndValue a).2

/-- `StartInit` meets the terminator in the array, and in front of it are the program and these
values, all of them or as many as there is place for. -/
def PassesOn (s : Startup) (values : List Str) : Prop :=
  ∃ n, argCnt s.initArguments.toList = some n ∧ n < initMaxArgs ∧
    (s.initArguments.toList.take n).drop 1 = (values.take (n - 1)).map some ∧
    (n - 1 = values.length ∨ n + 1 = initMaxArgs)

/-! ## The slots while arguments are added -/

theorem argCnt_eq_some {slots : List (Option Str)} {n : Nat} :
    argCnt slots = some n ↔ slots[n]? = some none ∧ ∀ i < n, slots[i]? ≠ some none := by
  induction slots generalizing n with
  | nil => simp [argCnt]
  | cons slot slots ih =>
    cases slot with
    | none =>
      rw [argCnt]
      constructor
      · rintro ⟨⟩
        exact ⟨rfl, fun i hi ↦ absurd hi (Nat.not_lt_zero i)⟩
      · intro h
        have hn : ¬0 < n := fun hpos ↦ h.2 0 hpos rfl
        rw [Nat.eq_zero_of_not_pos hn]
    | some arg =>
      rw [argCnt]
      cases n with
      | zero => simp
      | succ n =>
        simp only [Option.map_eq_some_iff, Nat.add_right_cancel_iff, exists_eq_right, ih,
          List.getElem?_cons_succ]
        constructor
        · intro h
          refine ⟨h.1, fun i hi ↦ ?_⟩
          cases i with
          | zero => simp
          | succ i => exact h.2 i (Nat.lt_of_succ_lt_succ hi)
        · intro h
          exact ⟨h.1, fun i hi ↦ h.2 (i + 1) (Nat.succ_lt_succ hi)⟩

/-- A program, then these values, as many as there is place for, then terminators. -/
structure Filled (s : Startup) (values : List Str) : Prop where
  program : s.initArguments[0] ≠ none
  slot (i : Nat) (hi : i + 1 < initMaxArgs) : s.initArguments[i + 1] = values[i]?
  current : s.initCurrentArgs = 1 + min values.length 19

theorem filled_setDefaults (s : Startup) : Filled (setDefaults s) [] where
  program := by simp [setDefaults]
  slot i hi := by
    simp only [setDefaults]
    rw [Vector.getElem_set_ne _ _ (by omega), Vector.getElem_replicate, List.getElem?_nil]
  current := rfl

section Step

variable {s s' : Startup} {values : List Str} {host : StartupHost}

theorem filled_addInitArgument (h : Filled s values) (val : Str) :
    Filled (addInitArgument val s) (values ++ [val]) := by
  have hcurrent := h.current
  have hmax : initMaxArgs = 20 := rfl
  unfold addInitArgument
  split
  · rename_i hlt
    refine ⟨?_, fun i hi ↦ ?_, ?_⟩
    · rw [Vector.getElem_set_ne _ _ (by omega)]
      exact h.program
    · rw [Vector.getElem_set]
      split
      · rename_i heq
        rw [List.getElem?_append_right (by omega), show i - values.length = 0 by omega]
        rfl
      · rename_i hne
        rw [h.slot i hi]
        by_cases hin : i < values.length
        · rw [List.getElem?_append_left hin]
        · rw [List.getElem?_eq_none (by omega), List.getElem?_eq_none
            (by rw [List.length_append, List.length_singleton]; omega)]
    · simp only [List.length_append, List.length_singleton]
      omega
  · refine ⟨h.program, fun i hi ↦ ?_, by
      rw [List.length_append, List.length_singleton]; omega⟩
    rw [h.slot i hi, List.getElem?_append_left (by omega)]

/-- The handlers set no slot behind the program. -/
theorem filled_handler (h : Filled s values) {handler : Str × (Str → Starting)}
    (hmem : handler ∈ argumentHandlers host) {arg : Str} (hrun : handler.2 arg s = .ok () s') :
    Filled s' values := by
  simp only [argumentHandlers, List.mem_cons, List.not_mem_nil, or_false] at hmem
  rcases hmem with rfl | rfl | rfl | rfl | rfl
  · simp only [argRoot] at hrun
    split at hrun
    · obtain rfl := Comp.modify_eq_ok.mp hrun
      exact ⟨h.program, h.slot, h.current⟩
    · cases hrun
  · simp only [argInit, Comp.modify_eq_ok] at hrun
    subst hrun
    refine ⟨by simp, fun i hi ↦ ?_, h.current⟩
    rw [Vector.getElem_set_ne _ _ (by omega), h.slot i hi]
  all_goals
    simp only [argDebug, argAutomount, argLog, Comp.modify_eq_ok] at hrun
    subst hrun
    exact ⟨h.program, h.slot, h.current⟩

theorem isUnknown_iff {a : Str} :
    isUnknown a = true ↔ (argumentHandlers host).find? (·.1 = (nameAndValue a).1) = none := by
  have hnames : [ascii "root", ascii "init", ascii "debug", ascii "automount", ascii "log"] =
      (argumentHandlers host).map Prod.fst := rfl
  rw [isUnknown, hnames, decide_eq_true_iff, List.mem_map, List.find?_eq_none]
  constructor
  · intro hunknown handler hmem hname
    exact hunknown ⟨handler, hmem, of_decide_eq_true hname⟩
  · rintro hnone ⟨handler, hmem, hname⟩
    exact hnone handler hmem (decide_eq_true hname)

theorem unknownValues_cons (a : Str) (args : List Str) :
    unknownValues (a :: args) = unknownValues [a] ++ unknownValues args := by
  rw [unknownValues, unknownValues, unknownValues, ← List.map_append, ← List.filter_append]
  rfl

theorem filled_processArgument (h : Filled s values) {a : Str}
    (hrun : processArgument host a s = .ok () s') : Filled s' (values ++ unknownValues [a]) := by
  rw [processArgument] at hrun
  cases hfind : (argumentHandlers host).find? (·.1 = (nameAndValue a).1) with
  | none =>
    rw [hfind] at hrun
    rw [unknownValues, List.filter_cons_of_pos (isUnknown_iff.mpr hfind),
      ← Comp.modify_eq_ok.mp hrun]
    exact filled_addInitArgument h _
  | some handler =>
    rw [hfind] at hrun
    have hknown : ¬isUnknown a = true := by
      intro hunknown
      rw [isUnknown_iff.mp hunknown] at hfind
      cases hfind
    rw [unknownValues, List.filter_cons_of_neg hknown, List.filter_nil, List.map_nil,
      List.append_nil]
    exact filled_handler h (List.mem_of_find?_eq_some hfind) hrun

theorem filled_processArguments (args : List Str) (h : Filled s values)
    (hrun : processArguments host args s = .ok () s') :
    Filled s' (values ++ unknownValues args) := by
  induction args generalizing s values with
  | nil =>
    obtain ⟨_, rfl⟩ := Comp.pure_eq_ok.mp hrun
    simpa [unknownValues] using h
  | cons a args ih =>
    obtain ⟨_, t, harg, hargs⟩ := Comp.bind_eq_ok.mp hrun
    rw [unknownValues_cons, ← List.append_assoc]
    exact ih (filled_processArgument h harg) hargs

theorem filled_processCommandLine {cs : Str} (hrun : processCommandLine host cs s = .ok () s') :
    Filled s' (unknownValues (parseCommandLine .start cs)) := by
  obtain ⟨_, _, hdefaults, hrest⟩ := Comp.bind_eq_ok.mp hrun
  obtain ⟨_, t, hargs, hlog⟩ := Comp.bind_eq_ok.mp hrest
  obtain rfl := Comp.modify_eq_ok.mp hdefaults
  obtain rfl := Comp.modify_eq_ok.mp hlog
  have h := filled_processArguments _ (filled_setDefaults s) hargs
  rw [List.nil_append] at h
  split
  · exact ⟨h.program, h.slot, h.current⟩
  · exact h

/-- It is read to its end, unless the root is missing. -/
theorem exists_processArguments (hroot : ∀ arg, host.setCurrentDirectory arg = true)
    (args : List Str) (s : Startup) : ∃ s', processArguments host args s = .ok () s' := by
  induction args generalizing s with
  | nil => exact ⟨s, rfl⟩
  | cons a args ih =>
    have harg : ∃ t, processArgument host a s = .ok () t := by
      rw [processArgument]
      cases hfind : (argumentHandlers host).find? (·.1 = (nameAndValue a).1) with
      | none => exact ⟨_, rfl⟩
      | some handler =>
        have hmem := List.mem_of_find?_eq_some hfind
        simp only [argumentHandlers, List.mem_cons, List.not_mem_nil, or_false] at hmem
        rcases hmem with rfl | rfl | rfl | rfl | rfl
        · simp only [argRoot, hroot, if_true]
          exact ⟨_, rfl⟩
        all_goals exact ⟨_, rfl⟩
    obtain ⟨t, ht⟩ := harg
    obtain ⟨s', hs'⟩ := ih t
    exact ⟨s', (Comp.bind_of_ok ht _).trans hs'⟩

theorem exists_processCommandLine (hroot : ∀ arg, host.setCurrentDirectory arg = true)
    (cs : Str) (s : Startup) : ∃ s', processCommandLine host cs s = .ok () s' := by
  obtain ⟨t, ht⟩ := exists_processArguments hroot (parseCommandLine .start cs) (setDefaults s)
  exact ⟨_, (Comp.bind_of_ok rfl _).trans (Comp.bind_of_ok ht _)⟩

/-! ## Command lines whose arguments reach init -/

theorem getElem?_slots (h : Filled s values) {i : Nat} (hi : i + 1 < initMaxArgs) :
    s.initArguments.toList[i + 1]? = some values[i]? := by
  rw [Vector.getElem?_toList, Vector.getElem?_eq_getElem hi, h.slot i hi]

theorem getElem?_program (h : Filled s values) : s.initArguments.toList[0]? ≠ some none := by
  rw [Vector.getElem?_toList, Vector.getElem?_eq_getElem (by decide)]
  exact fun hnone ↦ h.program (Option.some.inj hnone)

/-- With a slot left the terminator is behind the values. -/
theorem argCnt_of_filled (h : Filled s values) (hlen : values.length < 19) :
    argCnt s.initArguments.toList = some (values.length + 1) := by
  have hmax : initMaxArgs = 20 := rfl
  rw [argCnt_eq_some]
  constructor
  · rw [getElem?_slots h (by omega), List.getElem?_eq_none (Nat.le_refl _)]
  · intro i hi
    cases i with
    | zero => exact getElem?_program h
    | succ i =>
      rw [getElem?_slots h (by omega), List.getElem?_eq_getElem (Nat.lt_of_succ_lt_succ hi)]
      simp

theorem passesOn_of_filled (h : Filled s values) (hlen : values.length < 19) :
    PassesOn s values := by
  have hmax : initMaxArgs = 20 := rfl
  refine ⟨values.length + 1, argCnt_of_filled h hlen, by omega, ?_, .inl (Nat.add_sub_cancel _ 1)⟩
  rw [Nat.add_sub_cancel, List.take_length]
  apply List.ext_getElem?
  intro i
  rw [List.getElem?_drop, List.getElem?_map, Nat.add_comm 1 i]
  by_cases hi : i < values.length
  · rw [List.getElem?_take_of_lt (by omega), getElem?_slots h (by omega),
      List.getElem?_eq_getElem hi]
    rfl
  · rw [List.getElem?_take_eq_none (by omega), List.getElem?_eq_none (by omega)]
    rfl

/-- Without one there is no terminator. -/
theorem length_lt_of_argCnt (h : Filled s values) {n : Nat} (hn : n < initMaxArgs)
    (hargCnt : argCnt s.initArguments.toList = some n) : values.length < 19 := by
  have hmax : initMaxArgs = 20 := rfl
  have hnone := (argCnt_eq_some.mp hargCnt).1
  cases n with
  | zero => exact absurd hnone (getElem?_program h)
  | succ n =>
    rw [getElem?_slots h hn, Option.some_inj, List.getElem?_eq_none_iff] at hnone
    omega

end Step

/-- The arguments of init end inside their array, and are the unrecognised ones, exactly for
command lines with at most eighteen of them. -/
theorem passesOn_iff {host : StartupHost} {cs : Str} {s s' : Startup}
    (hrun : processCommandLine host cs s = .ok () s') :
    PassesOn s' (unknownValues (parseCommandLine .start cs)) ↔
      (unknownValues (parseCommandLine .start cs)).length ≤ 18 := by
  have h := filled_processCommandLine hrun
  constructor
  · rintro ⟨n, hargCnt, hn, _⟩
    exact Nat.le_of_lt_succ (length_lt_of_argCnt h hn hargCnt)
  · exact fun hlen ↦ passesOn_of_filled h (Nat.lt_succ_of_le hlen)

/-- A Windows with one directory. -/
def plainHost : StartupHost where
  setCurrentDirectory _ := true
  getCurrentDirectory arg := arg
  createFile _ := 1#32

theorem plainHost_enters (arg : Str) : plainHost.setCurrentDirectory arg = true := rfl

/-- Before the command line is read. -/
def unset : Startup where
  initArguments := Vector.replicate initMaxArgs none
  initCurrentArgs := 0
  autoMount := none
  filesystemRoot := []
  debugLevel := 0#32
  logFile := 0#32

/-- A program and one argument for it. -/
theorem passesOn_single : ∃ s,
    processCommandLine plainHost (ascii "init=/sh a=b") unset = .ok () s ∧
      PassesOn s [ascii "b"] := by
  have hvalues : unknownValues (parseCommandLine .start (ascii "init=/sh a=b")) = [ascii "b"] := by
    decide +kernel
  obtain ⟨s, hrun⟩ := exists_processCommandLine plainHost_enters
    (ascii "init=/sh a=b") unset
  have hpasses := (passesOn_iff hrun).mpr (by rw [hvalues]; decide)
  rw [hvalues] at hpasses
  exact ⟨s, hrun, hpasses⟩

/-- Nineteen unrecognised arguments leave no slot for the terminator. -/
theorem not_passesOn_nineteen : ∃ s,
    processCommandLine plainHost (List.replicate 19 [0x61, 0x20]).flatten unset = .ok () s ∧
      ¬PassesOn s (List.replicate 19 [0x61]) := by
  have hvalues : unknownValues (parseCommandLine .start (List.replicate 19 [0x61, 0x20]).flatten) =
      List.replicate 19 [0x61] := by decide +kernel
  obtain ⟨s, hrun⟩ := exists_processCommandLine plainHost_enters
    (List.replicate 19 [0x61, 0x20]).flatten unset
  have hfilled := filled_processCommandLine hrun
  rw [hvalues] at hfilled
  refine ⟨s, hrun, ?_⟩
  rintro ⟨n, hargCnt, hn, _⟩
  exact absurd (length_lt_of_argCnt hfilled hn hargCnt) (by decide)

end Keow.Exec
