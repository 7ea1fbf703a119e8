import Keow.Exec.Image
import Keow.Exec.Segments

/-!
# All or nothing

What `sys_execve` comes to. `CanLoadImage` refuses a file that is neither ELF nor a script, and
nothing else that cannot be loaded; what `LoadImage` returns is not looked at. So a call whose
image turns out not to be loadable has lost the old one, and starts the thread all the same.
-/

namespace Keow.Exec

open Keow.Base Keow.Kernel Keow.Paths

/-! ## What a call comes to -/

/-- Eax when the image is refused, and else when the thread has been set up. A traced process
then stops for its tracer. -/
def eaxAfter (t' : Task) : Except DWORD DWORD → DWORD
  | .error err => -win32ErrToUnixError err
  | .ok _ => t'.world.threadCtx.eax

/-- Files, memory, signal actions, load data and arguments are as before. -/
structure AsBefore (t t' : Task) : Prop where
  openFiles : t'.world.cur.openFiles = t.world.cur.openFiles
  memoryAllocations : t'.memoryAllocations = t.memoryAllocations
  signalAction : t'.world.cur.signalAction = t.world.cur.signalAction
  elfLoadData : t'.elfLoadData = t.elfLoadData
  arguments : t'.arguments = t.arguments

/-- What a new image is loaded with: nothing but the memory that the old one leaves. -/
def Task.newImage (host : Host) (t : Task) (bytes : List UInt8) : Request where
  library := false
  lastLibAddr := 0#32
  interpreter := List.replicate maxPath 0
  allocations := (t.freed host).memoryAllocations
  hImg := imageHandle bytes
  hdr := imageHdr bytes

/-- `LoadImage` has returned 0, and the thread stands at an entry point of the image. -/
def Replaced (host : Host) (filename : Str) (t t' : Task) (r : Except DWORD DWORD) : Prop :=
  r = .ok 0#32 ∧ ∃ bytes, Resolves host filename (.ok bytes) ∧
    EntryPoint host (t.newImage host bytes) t'.world.threadCtx.eip

/-- The call comes to an end, with an error and the process as before, or with a new image. -/
def AllOrNothing (host : Host) (filename : Str) (argv envp : List Str) (t : Task) : Prop :=
  ∃ n, ∀ fuel, n ≤ fuel → ∃ r t', replaceImage host fuel filename argv envp t = .ok r t' ∧
    ((eaxAfter t' r).toInt < 0 ∧ AsBefore t t' ∨ Replaced host filename t t' r)

/-- The path stands for an error, or for an ELF file that can be loaded once the old image is
gone; and there is no shared mapping in the way of that. -/
def Decided (host : Host) (filename : Str) (t : Task) : Prop :=
  (∃ err, Resolves host filename (.error err)) ∨
    t.mmapList = [] ∧ ∃ bytes depth, Resolves host filename (.ok bytes) ∧
      Loadable host depth (t.newImage host bytes)

/-! ## The run -/

/-- The call is refused by `CanLoadImage`, or goes on to the end whatever `LoadImage` returns. -/
theorem replaceImage_eq_ok {host : Host} {fuel : Nat} {filename : Str} {argv envp : List Str}
    {t t' : Task} {r : Except DWORD DWORD} :
    replaceImage host fuel filename argv envp t = .ok r t' ↔
      (∃ err, canLoadImage host fuel filename t = .ok (some err) t' ∧ r = .error err) ∨
      ∃ rc t₁, canLoadImage host fuel filename t = .ok none t ∧ t.mmapList = [] ∧
        loadImage host fuel filename false ((t.freed host).named filename argv envp) = .ok rc t₁ ∧
        startNewImageRunning host t₁ = .ok () t' ∧ r = .ok rc := by
  simp only [replaceImage, Comp.bind_eq_ok]
  constructor
  · rintro ⟨verdict, t₀, hcan, hrest⟩
    obtain ⟨rfl, -⟩ := resolves_of_canLoadImage hcan
    cases verdict with
    | some err =>
      obtain ⟨rfl, rfl⟩ := Comp.pure_eq_ok.mp hrest
      exact .inl ⟨err, hcan, rfl⟩
    | none =>
      simp only [Comp.bind_eq_ok, Comp.modify_eq_ok, Comp.pure_eq_ok] at hrest
      obtain ⟨_, _, hfree, _, _, rfl, rc, t₁, hload, _, _, hstart, rfl, rfl⟩ := hrest
      obtain ⟨hmaps, rfl⟩ := (freeResourcesBeforeExec_eq_ok ..).mp hfree
      exact .inr ⟨rc, t₁, hcan, hmaps, hload, hstart, rfl⟩
  · rintro (⟨err, hcan, rfl⟩ | ⟨rc, t₁, hcan, hmaps, hload, hstart, rfl⟩)
    · exact ⟨some err, t', hcan, rfl⟩
    · refine ⟨none, t, hcan, ?_⟩
      simp only [Comp.bind_eq_ok, Comp.modify_eq_ok, Comp.pure_eq_ok]
      exact ⟨⟨⟩, _, (freeResourcesBeforeExec_eq_ok ..).mpr ⟨hmaps, rfl⟩, ⟨⟩, _, rfl, rc, t₁,
        hload, ⟨⟩, _, hstart, rfl, rfl⟩

/-- The error that refuses an image is one of Windows. -/
theorem ne_zero_of_resolves {host : Host} {path : Str} {res : Except DWORD (List UInt8)}
    (h : Resolves host path res) {err : DWORD} (herr : res = .error err) : err ≠ 0#32 := by
  induction h with
  | missing hfile =>
    cases herr
    exact host.createFile_error hfile
  | elf => cases herr
  | script _ _ _ _ _ ih => exact ih herr
  | format =>
    cases herr
    decide

/-- An error of Windows is reported as a negative `errno`. -/
theorem neg_win32ErrToUnixError_neg {err : DWORD} (h : err ≠ 0#32) :
    (-win32ErrToUnixError err).toInt < 0 := by
  have hne : err.toNat ≠ 0 := fun hz ↦ h (BitVec.eq_of_toNat_eq hz)
  unfold win32ErrToUnixError
  split <;> first | contradiction | decide

/-- The thread of a new image starts with Eax 0, at the address in the load data. -/
theorem threadCtx_startNewImageRunning {host : Host} {t t' : Task}
    (h : startNewImageRunning host t = .ok () t') :
    t'.world.threadCtx.eax = 0#32 ∧
      t'.world.threadCtx.eip = t.elfLoadData.withStart.interpreterStart := by
  obtain ⟨t₁, hrun, heip, heax⟩ := exists_startNewImageRunning host t
  cases hrun.symm.trans h
  exact ⟨heax, heip⟩

/-- So what is set up is no error. -/
theorem not_eaxAfter_neg {host : Host} {t t' : Task}
    (h : startNewImageRunning host t = .ok () t') (rc : DWORD) :
    ¬(eaxAfter t' (.ok rc)).toInt < 0 := by
  rw [eaxAfter, (threadCtx_startNewImageRunning h).1]
  decide

/-- What an untraced process gets from the call. -/
theorem sysExecve_of_untraced {host : Host} {fuel : Nat} {filename : Str} {argv envp : List Str}
    {t t' : Task} {r : Except DWORD DWORD}
    (h : replaceImage host fuel filename argv envp t = .ok r t')
    (huntraced : t'.world.cur.ptrace.ownerPid = 0#32) (ctx : Context) :
    ∃ ctx', sysExecve host fuel filename argv envp ctx t = .ok ctx' t' ∧
      ctx'.eax = eaxAfter t' r := by
  rw [sysExecve, Comp.bind_of_ok h]
  cases r with
  | error err => exact ⟨_, rfl, rfl⟩
  | ok rc =>
    have hstop : stopForTracer ctx t' = .ok () t' := by
      rw [stopForTracer, Comp.get_bind]
      exact congrFun (if_neg (not_not.mpr huntraced)) t'
    dsimp only
    rw [Comp.bind_of_ok hstop]
    exact ⟨_, rfl, rfl⟩

theorem request_named (host : Host) (t : Task) (filename : Str) (argv envp : List Str)
    (bytes : List UInt8) :
    Task.request { (t.freed host).named filename argv envp with loadData2 := none }
      (imageHandle bytes) (imageHdr bytes) false = t.newImage host bytes := by
  unfold Task.request Task.newImage
  rfl

/-- A load that returns 0 has loaded what the path stands for, and the thread starts there. -/
theorem replaced_of_loadImage {host : Host} {fuel : Nat} {filename : Str} {argv envp : List Str}
    {t t₁ t' : Task}
    (hload : loadImage host fuel filename false ((t.freed host).named filename argv envp) =
      .ok 0#32 t₁)
    (hstart : startNewImageRunning host t₁ = .ok () t') :
    ∃ bytes depth, Resolves host filename (.ok bytes) ∧
      Loadable host depth (t.newImage host bytes) ∧
      EntryPoint host (t.newImage host bytes) t'.world.threadCtx.eip := by
  obtain ⟨bytes, depth, t₂, words, hres, helf, rfl⟩ := loadElfImage_of_loadImage hload
  have hloadable := (loaded_of_eq_zero helf).1
  have hentry := entryPoint_of_loaded rfl rfl helf
  rw [request_named] at hloadable hentry
  refine ⟨bytes, depth, hres, hloadable, ?_⟩
  rw [(threadCtx_startNewImageRunning hstart).2]
  exact hentry

/-! ## All or nothing -/

theorem decided_of_allOrNothing {host : Host} {filename : Str} {argv envp : List Str} {t : Task}
    (h : AllOrNothing host filename argv envp t) : Decided host filename t := by
  obtain ⟨n, h⟩ := h
  obtain ⟨r, t', hrun, hcase⟩ := h n (Nat.le_refl n)
  rcases replaceImage_eq_ok.mp hrun with
    ⟨err, hcan, rfl⟩ | ⟨rc, t₁, -, hmaps, hload, hstart, rfl⟩
  · obtain ⟨-, res, hres, hverdict⟩ := resolves_of_canLoadImage hcan
    cases res with
    | error err => exact .inl ⟨err, hres⟩
    | ok bytes => cases hverdict
  · rcases hcase with ⟨hneg, -⟩ | ⟨hzero, -⟩
    · exact absurd hneg (not_eaxAfter_neg hstart rc)
    · cases hzero
      obtain ⟨bytes, depth, hres, hloadable, -⟩ := replaced_of_loadImage hload hstart
      exact .inr ⟨hmaps, bytes, depth, hres, hloadable⟩

theorem allOrNothing_of_decided {host : Host} {filename : Str} {t : Task}
    (h : Decided host filename t) (argv envp : List Str) :
    AllOrNothing host filename argv envp t := by
  rcases h with ⟨err, hres⟩ | ⟨hmaps, bytes, depth, hres, hloadable⟩
  · obtain ⟨n, hn⟩ := canLoadImage_of_resolves hres t
    refine ⟨n, fun fuel hfuel ↦ ⟨.error err, t, ?_, .inl ⟨?_, ⟨rfl, rfl, rfl, rfl, rfl⟩⟩⟩⟩
    · exact replaceImage_eq_ok.mpr (.inl ⟨err, hn fuel hfuel, rfl⟩)
    · exact neg_win32ErrToUnixError_neg (ne_zero_of_resolves hres rfl)
  · obtain ⟨n, hn⟩ := canLoadImage_of_resolves hres t
    rw [← request_named host t filename argv envp bytes] at hloadable
    obtain ⟨m, hm⟩ := loadImage_of_loadable hres hloadable
    refine ⟨max n m, fun fuel hfuel ↦ ?_⟩
    obtain ⟨t₁, hload⟩ := hm fuel (by omega)
    obtain ⟨t', hstart, -, -⟩ := exists_startNewImageRunning host t₁
    obtain ⟨bytes', _, hres', -, hentry⟩ := replaced_of_loadImage hload hstart
    have hrun : replaceImage host fuel filename argv envp t = .ok (.ok 0#32) t' :=
      replaceImage_eq_ok.mpr (.inr ⟨0#32, t₁, hn fuel (by omega), hmaps, hload, hstart, rfl⟩)
    exact ⟨_, t', hrun, .inr ⟨rfl, bytes', hres', hentry⟩⟩

/-- `execve` is all or nothing exactly for a path that stands for an error or for an image that
can be loaded. -/
theorem allOrNothing_iff (host : Host) (filename : Str) (argv envp : List Str) (t : Task) :
    AllOrNothing host filename argv envp t ↔ Decided host filename t :=
  ⟨decided_of_allOrNothing, fun h ↦ allOrNothing_of_decided h argv envp⟩

/-- Every file is four bytes that say ELF. -/
def magicOnly : Host := freeHost fun _ ↦ some [0x7F, 0x45, 0x4C, 0x46]

/-- The file passes the check of `CanLoadImage`, and is no executable for `LoadElfImage`. -/
theorem loadImage_magicOnly (fuel : Nat) (path : Str) (t : Task) :
    canLoadImage magicOnly (fuel + 2) path t = .ok none t ∧
      ∃ t', loadImage magicOnly (fuel + 2) path false t = .ok ERROR_BAD_FORMAT t' := by
  have hfile : magicOnly.createFile path = .ok [0x7F, 0x45, 0x4C, 0x46] := rfl
  have helf : isElf (headerBuffer [0x7F, 0x45, 0x4C, 0x46]) = true := by decide +kernel
  have hinvalid : ¬(Elf32Hdr.ofBytes (headerBuffer [0x7F, 0x45, 0x4C, 0x46])).Valid := by
    decide +kernel
  constructor
  · rw [canLoadImage, hfile]
    dsimp only
    rw [if_pos helf]
    rfl
  · refine ⟨{ t with loadData2 := none }, ?_⟩
    rw [loadImage, hfile]
    dsimp only
    rw [if_pos helf, Comp.bind_eq_ok]
    refine ⟨⟨⟩, _, rfl, ?_⟩
    rw [loadElfImage, if_pos hinvalid]
    rfl

/-- The call takes the old image away and starts the thread at address 0. -/
theorem magicOnly_not_allOrNothing :
    ¬AllOrNothing magicOnly (ascii "/a") [] [] freshTask := by
  rintro ⟨n, h⟩
  obtain ⟨r, t', hrun, hcase⟩ := h (n + 2) (Nat.le_add_right n 2)
  rcases replaceImage_eq_ok.mp hrun with ⟨err, hcan, -⟩ | ⟨rc, t₁, -, -, hload, hstart, rfl⟩
  · cases (loadImage_magicOnly n _ _).1.symm.trans hcan
  · obtain ⟨t₂, hbad⟩ := (loadImage_magicOnly n _ _).2
    cases hbad.symm.trans hload
    rcases hcase with ⟨hneg, -⟩ | ⟨hzero, -⟩
    · exact absurd hneg (not_eaxAfter_neg hstart _)
    · exact absurd (Except.ok.inj hzero) (by decide)

end Keow.Exec
