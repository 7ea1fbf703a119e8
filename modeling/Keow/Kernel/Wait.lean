import Keow.Kernel.Groups

/-!
# Waiting for the right child

Which children `sys_wait4`, `sys_process.cpp:273–487`, waits for, what it answers when there is
none to report, and what it takes off the list; one call at a time, and over runs in which
processes change their groups as well.
-/

namespace Keow.Kernel

open Keow.Base

namespace KernelTable

/-! ## The children meant -/

/-- The children that a `pid` argument stands for: one by its pid, all, those in the group of
the caller, those in a group given by its negative. -/
def means (P child : Process) (waitPid : DWORD) : Bool :=
  (0 < waitPid.toInt && child.pid = waitPid) ||
    waitPid = -1#32 ||
    (waitPid = 0#32 && child.processGroupPID = P.processGroupPID) ||
    (waitPid.toInt < -1 && child.processGroupPID.toInt = -waitPid.toInt)

/-- A child of `P` that passes a test. -/
def passes (k : KernelTable) (P : Nat) (test : Process → Bool) (p : Nat) : Bool :=
  (k.object p).parentPid = k.pid P && test (k.object p)

/-- The registered ones, in order. -/
def childrenThat (k : KernelTable) (P : Nat) (test : Process → Bool) : List Nat :=
  k.listed.filter (k.passes P test)

/-- The children that `wait4` considers. -/
def considered (k : KernelTable) (P : Nat) (waitPid : DWORD) : List Nat :=
  k.childrenThat P fun child ↦ selects (k.object P) child waitPid

/-- The children that it is asked to consider. -/
def selected (k : KernelTable) (P : Nat) (waitPid : DWORD) : List Nat :=
  k.childrenThat P fun child ↦ means (k.object P) child waitPid

theorem mem_childrenThat {k : KernelTable} {P p : Nat} {test : Process → Bool} :
    p ∈ k.childrenThat P test ↔ k.ChildOf P p ∧ test (k.object p) = true := by
  rw [childrenThat, List.mem_filter, passes, Bool.and_eq_true, decide_eq_true_eq, ChildOf,
    and_assoc]

theorem childrenThat_eq_iff {k : KernelTable} {P : Nat} {test test' : Process → Bool} :
    k.childrenThat P test = k.childrenThat P test' ↔
      ∀ p, k.ChildOf P p → test (k.object p) = test' (k.object p) := by
  constructor
  · intro h p hchild
    have hmem : p ∈ k.childrenThat P test ↔ p ∈ k.childrenThat P test' := by rw [h]
    rw [mem_childrenThat, mem_childrenThat, and_iff_right hchild, and_iff_right hchild] at hmem
    exact Bool.eq_iff_iff.mpr hmem
  · intro h
    apply List.filter_congr
    intro p hp
    rw [passes, passes]
    by_cases hparent : (k.object p).parentPid = k.pid P
    · rw [h p ⟨hp, hparent⟩]
    · rw [decide_eq_false hparent, Bool.false_and, Bool.false_and]

/-- A group argument selects the group with the same number, where its negative is meant. -/
theorem selects_eq_means_iff (P child : Process) (waitPid : DWORD) :
    selects P child waitPid = means P child waitPid ↔
      (waitPid.toInt < -1 →
        (child.processGroupPID = waitPid ↔ child.processGroupPID.toInt = -waitPid.toInt)) := by
  by_cases hgroup : waitPid.toInt < -1
  · have hall : waitPid ≠ -1#32 := by
      rintro rfl
      exact absurd hgroup (by decide)
    have hzero : waitPid ≠ 0#32 := by
      rintro rfl
      exact absurd hgroup (by decide)
    have hpos : ¬0 < waitPid.toInt := by omega
    simp only [selects, means, hgroup, hall, hzero, hpos, decide_true, decide_false,
      Bool.true_and, Bool.false_and, Bool.or_false, Bool.false_or, forall_const]
    exact decide_eq_decide
  · refine iff_of_true ?_ fun h ↦ absurd h hgroup
    simp only [selects, means, hgroup, decide_false, Bool.false_and, Bool.or_false,
      Bool.false_or]
    cases decide (waitPid = -1#32) <;> cases (decide (waitPid = 0#32) &&
      decide (child.processGroupPID = P.processGroupPID)) <;> simp

/-- No number below -1 is its own negative as a group, so no child may be in either. -/
theorem considered_eq_iff {k : KernelTable} {P : Nat} {waitPid : DWORD} :
    k.considered P waitPid = k.selected P waitPid ↔
      (waitPid.toInt < -1 → ∀ p, k.ChildOf P p →
        (k.object p).processGroupPID ≠ waitPid ∧
          (k.object p).processGroupPID.toInt ≠ -waitPid.toInt) := by
  rw [considered, selected, childrenThat_eq_iff]
  constructor
  · intro h hgroup p hchild
    have hsame := (selects_eq_means_iff _ _ _).mp (h p hchild) hgroup
    have hnot : (k.object p).processGroupPID ≠ waitPid := by
      intro heq
      have hneg := hsame.mp heq
      rw [heq] at hneg
      omega
    exact ⟨hnot, fun hneg ↦ hnot (hsame.mpr hneg)⟩
  · intro h p hchild
    apply (selects_eq_means_iff _ _ _).mpr
    intro hgroup
    exact iff_of_false (h hgroup p hchild).1 (h hgroup p hchild).2

/-! ## The selection -/

/-- The child has not exited. -/
def running (k : KernelTable) (p : Nat) : Bool := (k.object p).stillRunning

/-- The selection goes through the children considered up to the first that has exited. -/
theorem selectChildren_eq (k : KernelTable) (P : Nat) (waitPid : DWORD) (ps : List Nat) :
    let cs := ps.filter (k.passes P fun child ↦ selects (k.object P) child waitPid)
    (k.selectChildren P waitPid ps).2 = (cs.find? fun p ↦ !k.running p).map k.pid ∧
      ((k.selectChildren P waitPid ps).1 = [] ↔ cs = []) ∧
      ((∀ p ∈ cs, k.running p = true) → (k.selectChildren P waitPid ps).1 = cs.map k.pid) := by
  induction ps with
  | nil => exact ⟨rfl, iff_of_true rfl rfl, fun _ ↦ rfl⟩
  | cons p ps ih =>
    rw [selectChildren]
    dsimp only at ih ⊢
    by_cases hparent : (k.object p).parentPid = k.pid P
    · rw [if_neg (not_not.mpr hparent)]
      by_cases hselects : selects (k.object P) (k.object p) waitPid = true
      · have hpass : k.passes P (fun child ↦ selects (k.object P) child waitPid) p = true := by
          rw [passes, hselects, decide_eq_true hparent]
          rfl
        rw [if_pos hselects, List.filter_cons_of_pos hpass]
        cases hrunning : (k.object p).stillRunning with
        | true =>
          rw [if_pos rfl, List.find?_cons,
            show (!k.running p) = false by rw [running, hrunning]; rfl]
          refine ⟨ih.1, by simp, fun hall ↦ ?_⟩
          rw [List.map_cons, ih.2.2 fun q hq ↦ hall q (.tail _ hq)]
          rfl
        | false =>
          rw [if_neg Bool.false_ne_true, List.find?_cons,
            show (!k.running p) = true by rw [running, hrunning]; rfl]
          refine ⟨rfl, by simp, fun hall ↦ ?_⟩
          have hp := hall p (.head _)
          rw [running, hrunning] at hp
          cases hp
      · have hfail : ¬k.passes P (fun child ↦ selects (k.object P) child waitPid) p = true :=
          fun h ↦ hselects (Bool.and_eq_true_iff.mp h).2
        rw [if_neg hselects, List.filter_cons_of_neg hfail]
        exact ih
    · have hfail : ¬k.passes P (fun child ↦ selects (k.object P) child waitPid) p = true :=
        fun h ↦ hparent (of_decide_eq_true (Bool.and_eq_true_iff.mp h).1)
      rw [if_pos hparent, List.filter_cons_of_neg hfail]
      exact ih

section Call

variable {k : KernelTable} {P : Nat} {waitPid options : DWORD} {turns : List WaitTurn}

/-- Without a child to consider there is no child. -/
theorem waitForChild_none (h : k.considered P waitPid = []) :
    waitForChild P waitPid options turns k = .ok (-ECHILD, false) k := by
  obtain ⟨-, hnil, -⟩ := selectChildren_eq k P waitPid k.listed
  have hfirst := hnil.mpr h
  rw [waitForChild, Comp.get_bind]
  generalize k.selectChildren P waitPid k.listed = r at hfirst
  obtain ⟨pids, exited⟩ := r
  dsimp only at hfirst
  rw [hfirst]
  rfl

/-- A child that has exited before the call is reported at once. -/
theorem waitForChild_exited (options : DWORD) (turns : List WaitTurn)
    (h : ∃ p ∈ k.considered P waitPid, k.running p = false) :
    ∃ p ∈ k.considered P waitPid, k.running p = false ∧
      waitForChild P waitPid options turns k = .ok (k.pid p, false) k := by
  obtain ⟨hfind, hnil, -⟩ := selectChildren_eq k P waitPid k.listed
  obtain ⟨q, hq, hexited⟩ := h
  have hsome : ((k.considered P waitPid).find? fun p ↦ !k.running p).isSome = true :=
    List.find?_isSome.mpr ⟨q, hq, by rw [hexited]; rfl⟩
  obtain ⟨p, hp⟩ := Option.isSome_iff_exists.mp hsome
  have hrunning : k.running p = false := by simpa using List.find?_some hp
  refine ⟨p, List.mem_of_find?_eq_some hp, hrunning, ?_⟩
  have hne : (k.selectChildren P waitPid k.listed).1 ≠ [] :=
    fun heq ↦ List.ne_nil_of_mem hq (hnil.mp heq)
  have hsnd : (k.selectChildren P waitPid k.listed).2 = some (k.pid p) := by
    rw [hfind]
    exact congrArg (Option.map k.pid) hp
  rw [waitForChild, Comp.get_bind]
  generalize k.selectChildren P waitPid k.listed = r at hne hsnd
  obtain ⟨pids, exited⟩ := r
  dsimp only at hne hsnd
  rw [hsnd]
  cases pids with
  | nil => exact absurd rfl hne
  | cons pid pids => rfl

/-- Otherwise the caller waits for all of them. -/
theorem waitForChild_running (hne : k.considered P waitPid ≠ [])
    (h : ∀ p ∈ k.considered P waitPid, k.running p = true) :
    waitForChild P waitPid options turns k =
      waitLoop P options ((k.considered P waitPid).map k.pid) turns k := by
  obtain ⟨hfind, -, hfst⟩ := selectChildren_eq k P waitPid k.listed
  have hfst : (k.selectChildren P waitPid k.listed).1 = (k.considered P waitPid).map k.pid := hfst h
  have hnone : ((k.considered P waitPid).find? fun p ↦ !k.running p) = none := by
    apply List.find?_eq_none.mpr
    intro p hp
    rw [h p hp]
    exact Bool.false_ne_true
  have hsnd : (k.selectChildren P waitPid k.listed).2 = none := by
    rw [hfind]
    exact congrArg (Option.map k.pid) hnone
  rw [waitForChild, Comp.get_bind, ← hfst]
  have hcons : (k.selectChildren P waitPid k.listed).1 ≠ [] := by
    rw [hfst]
    exact fun heq ↦ hne (List.map_eq_nil_iff.mp heq)
  generalize k.selectChildren P waitPid k.listed = r at hcons hsnd
  obtain ⟨pids, exited⟩ := r
  dsimp only at hcons hsnd ⊢
  rw [hsnd]
  cases pids with
  | nil => exact absurd rfl hcons
  | cons pid pids => rfl

/-! ## The wait -/

/-- What a wake-up can decide: to report a child that has exited, to give up with an error, or
nothing. -/
inductive Woken (k : KernelTable) (pids : List DWORD) (w : Wakeup) : Option DWORD → Prop
  | reported {i : Nat} {pid : DWORD} {p : Nat} (wakeup : w = .object i)
      (pid_eq : pids[i]? = some pid) (found : k.findProcess pid = some p)
      (exited : k.running p = false) : Woken k pids w (some pid)
  | cut {err : DWORD} (wakeup : w = .failed ∨ w = .object pids.length) (err_neg : err.toInt < 0)
      (err_ne : err ≠ -ECHILD) : Woken k pids w (some err)
  | again (not_cut : ¬(w = .failed ∨ w = .object pids.length))
      (running : ∀ i pid p, w = .object i → pids[i]? = some pid → k.findProcess pid = some p →
        k.running p = true) : Woken k pids w none

theorem wakeupResult_woken {pids : List DWORD} (hpids : k.Present pids) (w : Wakeup) :
    ∃ r, wakeupResult pids w k = .ok r k ∧ Woken k pids w r := by
  cases w with
  | failed => exact ⟨_, rfl, .cut (.inl rfl) (by decide) (by decide)⟩
  | timeout =>
    refine ⟨none, rfl, .again ?_ fun i pid p h ↦ by cases h⟩
    rintro (h | h) <;> cases h
  | object i =>
    rw [wakeupResult]
    by_cases hlast : i = pids.length
    · rw [if_pos hlast, hlast]
      exact ⟨_, rfl, .cut (.inr rfl) (by decide) (by decide)⟩
    · rw [if_neg hlast]
      have hnot : ¬(Wakeup.object i = .failed ∨ Wakeup.object i = .object pids.length) := by
        rintro (h | h)
        · cases h
        · exact hlast (Wakeup.object.inj h)
      cases hi : pids[i]? with
      | none =>
        refine ⟨none, rfl, .again hnot fun j pid p hj hpid ↦ ?_⟩
        rw [← Wakeup.object.inj hj, hi] at hpid
        cases hpid
      | some pid =>
        obtain ⟨p, hp⟩ := hpids pid (List.mem_of_getElem? hi)
        dsimp only
        rw [Comp.get_bind, hp]
        cases hrunning : (k.object p).stillRunning with
        | true =>
          refine ⟨none, by dsimp only; rw [hrunning]; rfl, .again hnot ?_⟩
          intro j pid' q hj hpid hq
          rw [← Wakeup.object.inj hj, hi] at hpid
          rw [← Option.some.inj hpid, hp] at hq
          rw [← Option.some.inj hq]
          exact hrunning
        | false =>
          exact ⟨some pid, by dsimp only; rw [hrunning]; rfl, .reported rfl hi hp hrunning⟩

/-- With `WNOHANG` the first turn decides, and nothing to report looks like no child. -/
theorem waitLoop_nohang (hopt : options &&& WNOHANG ≠ 0#32) {pids : List DWORD} {t : WaitTurn}
    (hpids : (t.events.foldl event k).Present pids) (ts : List WaitTurn) :
    ∃ r, Woken (t.events.foldl event k) pids t.wakeup r ∧
      waitLoop P options pids (t :: ts) k =
        .ok (r.getD (-ECHILD), false) (t.events.foldl event k) := by
  obtain ⟨r, hr, hwoken⟩ := wakeupResult_woken hpids t.wakeup
  refine ⟨r, hwoken, ?_⟩
  rw [waitLoop, Comp.bind_of_ok (show Comp.modify (fun k ↦ t.events.foldl event k) k =
    .ok ⟨⟩ (t.events.foldl event k) from rfl), Comp.bind_of_ok hr]
  cases r with
  | some result => rfl
  | none =>
    dsimp only
    rw [if_pos hopt]
    rfl

/-- Without it the loop never ends as if there were no child. -/
theorem safe_waitLoop_blocking (h : k.Sound) (hopt : ¬options &&& WNOHANG ≠ 0#32)
    {pids : List DWORD} (hpids : k.Present pids) (hne : ∀ pid ∈ pids, pid ≠ -ECHILD)
    (turns : List WaitTurn) :
    Comp.Safe (waitLoop P options pids turns) k (fun r _ ↦ r.1 ≠ -ECHILD) fun _ ↦ True := by
  induction turns generalizing k with
  | nil => trivial
  | cons t ts ih =>
    have hq := quiet_events t.events k
    have hpids' := hq.present h hpids
    obtain ⟨r, hr, hwoken⟩ := wakeupResult_woken hpids' t.wakeup
    rw [waitLoop, Comp.safe_bind, Comp.safe_modify, Comp.safe_bind]
    refine Comp.safe_of_eq_ok hr ?_
    cases hwoken with
    | reported _ hpid _ _ => exact hne _ (List.mem_of_getElem? hpid)
    | cut _ _ herr => exact herr
    | again _ _ =>
      dsimp only
      rw [if_neg hopt, Comp.safe_bind]
      apply Comp.safe_mono (safe_firstStopped P options t.suspended hpids') _ fun _ h ↦ h
      rintro r k' ⟨rfl, hr⟩
      cases r with
      | some pid => exact hne pid (hr pid rfl)
      | none => exact ih (hq.sound h) hpids'

/-! ## What is reported -/

/-- The child whose exit the call reports. -/
def reported (k : KernelTable) (P : Nat) (waitPid options : DWORD) (turns : List WaitTurn) :
    Option Nat :=
  match waitForChild P waitPid options turns k with
  | .ok (result, false) k' => if 0 < result.toInt then k'.findProcess result else none
  | _ => none

theorem listed_of_considered {p : Nat} (hp : p ∈ k.considered P waitPid) : p ∈ k.listed :=
  (mem_childrenThat.mp hp).1.1

theorem present_considered (h : k.Sound) (P : Nat) (waitPid : DWORD) :
    k.Present ((k.considered P waitPid).map k.pid) := by
  intro pid hpid
  obtain ⟨p, hp, rfl⟩ := List.mem_map.mp hpid
  exact ⟨p, (findProcess_eq_some h).mpr ⟨listed_of_considered hp, rfl⟩⟩

/-- What the first part of the call finds: an error, or a child considered, which has exited
unless it is reported as stopped. -/
def Found (k : KernelTable) (P : Nat) (waitPid : DWORD) (r : DWORD × Bool) (k' : KernelTable) :
    Prop :=
  Quiet k k' ∧ (r.1.toInt ≤ 0 ∨ ∃ p ∈ k.considered P waitPid, k.pid p = r.1 ∧
    (r.2 = false → k'.running p = false))

theorem safe_waitForChild_found (h : k.Sound) :
    Comp.Safe (waitForChild P waitPid options turns) k (Found k P waitPid) fun _ ↦ True := by
  by_cases hnone : k.considered P waitPid = []
  · exact Comp.safe_of_eq_ok (waitForChild_none hnone) ⟨quiet_refl k, .inl (by decide)⟩
  · by_cases hexited : ∃ p ∈ k.considered P waitPid, k.running p = false
    · obtain ⟨p, hp, hrunning, hrun⟩ :=
        waitForChild_exited options turns hexited
      exact Comp.safe_of_eq_ok hrun ⟨quiet_refl k, .inr ⟨p, hp, rfl, fun _ ↦ hrunning⟩⟩
    · have hall : ∀ p ∈ k.considered P waitPid, k.running p = true :=
        fun p hp ↦ Bool.not_eq_false _ ▸ fun hr ↦ hexited ⟨p, hp, hr⟩
      have hpids := present_considered h P waitPid
      have hloop : Comp.Safe (waitLoop P options ((k.considered P waitPid).map k.pid) turns) k
          (Found k P waitPid) fun _ ↦ True := by
        apply Comp.safe_mono (safe_waitLoop h P options hpids turns) _ fun _ _ ↦ trivial
        rintro r k' ⟨hq, hverdict⟩
        refine ⟨hq, hverdict.imp_right ?_⟩
        rintro ⟨hmem, hexit⟩
        obtain ⟨p, hp, hpid⟩ := List.mem_map.mp hmem
        refine ⟨p, hp, hpid, fun hr ↦ hexit hr p ?_⟩
        exact (findProcess_eq_some (hq.sound h)).mpr
          ⟨hq.listed_eq ▸ listed_of_considered hp, (hq.pid_eq p).trans hpid⟩
      unfold Comp.Safe at hloop ⊢
      rwa [waitForChild_running hnone hall]

theorem reported_run {p : Nat} (hr : k.reported P waitPid options turns = some p) :
    ∃ result k', waitForChild P waitPid options turns k = .ok (result, false) k' ∧
      0 < result.toInt ∧ k'.findProcess result = some p := by
  rw [reported] at hr
  cases hrun : waitForChild P waitPid options turns k with
  | exit k' => rw [hrun] at hr; cases hr
  | wait k' => rw [hrun] at hr; cases hr
  | fault k' => rw [hrun] at hr; cases hr
  | ok r k' =>
    obtain ⟨result, stopped⟩ := r
    rw [hrun] at hr
    cases stopped with
    | true => cases hr
    | false =>
      dsimp only at hr
      split at hr
      · next hpos => exact ⟨result, k', rfl, hpos, hr⟩
      · cases hr

/-- A child is reported as exited when it is one of those considered and has exited; and it is
taken off the list, alone. -/
theorem reported_eq_some (h : k.Sound) {p : Nat}
    (hr : k.reported P waitPid options turns = some p) :
    p ∈ k.considered P waitPid ∧ ∃ k', sysWait4 P waitPid options turns k = .ok (k.pid p) k' ∧
      k'.running p = false ∧ k'.listed = k.listed.erase p ∧ k'.fresh = k.fresh := by
  obtain ⟨result, k', hrun, hpos, hfind⟩ := reported_run hr
  obtain ⟨hq, hresult⟩ := Comp.safe_of_ok (safe_waitForChild_found h) hrun
  rcases hresult with hle | ⟨q, hq', hpid, hexited⟩
  · exact absurd hpos (Int.not_lt.mpr hle)
  · have h' := hq.sound h
    have hsame : k'.findProcess result = some q := (findProcess_eq_some h').mpr
      ⟨hq.listed_eq ▸ listed_of_considered hq', (hq.pid_eq q).trans hpid⟩
    obtain rfl : q = p := Option.some.inj (hsame.symm.trans hfind)
    have hdelete : Comp.Safe (deleteProcess q) k' (fun _ k'' ↦ k''.running q = false ∧
        k''.listed = k.listed.erase q ∧ k''.fresh = k.fresh) fun _ ↦ False := by
      apply safe_deleteProcess h'.linked
      intro l _ hl
      rw [hq.listed_eq] at hl
      exact ⟨hexited rfl, hl, hq.fresh_eq⟩
    obtain ⟨_, k'', hok, hpost⟩ := Comp.exists_ok_of_safe hdelete
    refine ⟨hq', k'', ?_, hpost⟩
    rw [sysWait4, Comp.bind_of_ok hrun]
    dsimp only at hpid ⊢
    rw [if_pos hpos, Comp.get_bind, hsame]
    dsimp only
    rw [if_neg Bool.false_ne_true, Comp.bind_of_ok hok, hpid]
    rfl

/-- Otherwise nothing is taken off it. -/
theorem reported_eq_none (h : k.Sound) (hr : k.reported P waitPid options turns = none)
    {result : DWORD} {k' : KernelTable}
    (hok : sysWait4 P waitPid options turns k = .ok result k') : k'.listed = k.listed := by
  obtain ⟨⟨result', stopped⟩, k₁, hrun, hrest⟩ := Comp.bind_eq_ok.mp hok
  obtain ⟨hq, hresult⟩ := Comp.safe_of_ok (safe_waitForChild_found h) hrun
  dsimp only at hresult hrest
  by_cases hpos : 0 < result'.toInt
  · rcases hresult with hle | ⟨p, hp, hpid, -⟩
    · exact absurd hpos (Int.not_lt.mpr hle)
    · have hfind : k₁.findProcess result' = some p := (findProcess_eq_some (hq.sound h)).mpr
        ⟨hq.listed_eq ▸ listed_of_considered hp, (hq.pid_eq p).trans hpid⟩
      cases stopped with
      | false =>
        rw [reported, hrun] at hr
        dsimp only at hr
        rw [if_pos hpos, hfind] at hr
        cases hr
      | true =>
        rw [if_pos hpos, Comp.get_bind, hfind] at hrest
        obtain ⟨-, rfl⟩ := Comp.pure_eq_ok.mp hrest
        exact hq.listed_eq
  · rw [if_neg hpos] at hrest
    obtain ⟨-, rfl⟩ := Comp.pure_eq_ok.mp hrest
    exact hq.listed_eq

/-- Taking a process off the list leaves the objects alone. -/
theorem object_deleteProcess {p : Nat} {k' : KernelTable} (h : deleteProcess p k = .ok () k') :
    k'.object = k.object := by
  rw [deleteProcess, Comp.get_bind] at h
  cases herase : k.processes.eraseValue p with
  | none =>
    rw [herase] at h
    cases h
  | some l =>
    rw [herase] at h
    rw [← Comp.modify_eq_ok.mp h]

/-- The result is what the first part has found. -/
theorem sysWait4_eq_ok {result : DWORD} {k' : KernelTable}
    (h : sysWait4 P waitPid options turns k = .ok result k') :
    ∃ stopped k₁, waitForChild P waitPid options turns k = .ok (result, stopped) k₁ ∧
      k'.object = k₁.object := by
  obtain ⟨⟨result', stopped⟩, k₁, hrun, hrest⟩ := Comp.bind_eq_ok.mp h
  refine ⟨stopped, k₁, ?_⟩
  dsimp only at hrest
  split at hrest
  · rw [Comp.get_bind] at hrest
    cases hfind : k₁.findProcess result' with
    | none =>
      rw [hfind] at hrest
      cases hrest
    | some child =>
      rw [hfind] at hrest
      dsimp only at hrest
      split at hrest
      · obtain ⟨rfl, rfl⟩ := Comp.pure_eq_ok.mp hrest
        exact ⟨hrun, rfl⟩
      · obtain ⟨_, k₂, hdelete, hpure⟩ := Comp.bind_eq_ok.mp hrest
        obtain ⟨rfl, rfl⟩ := Comp.pure_eq_ok.mp hpure
        exact ⟨hrun, object_deleteProcess hdelete⟩
  · obtain ⟨rfl, rfl⟩ := Comp.pure_eq_ok.mp hrest
    exact ⟨hrun, rfl⟩

theorem sysWait4_error {result : DWORD} {stopped : Bool} {k' : KernelTable}
    (h : waitForChild P waitPid options turns k = .ok (result, stopped) k')
    (hneg : ¬0 < result.toInt) : sysWait4 P waitPid options turns k = .ok result k' := by
  rw [sysWait4, Comp.bind_of_ok h]
  dsimp only
  rw [if_neg hneg]
  rfl

/-! ## One call -/

/-- The wait of the call ends with a selected child that has exited by then. -/
def Reports (k : KernelTable) (P : Nat) (waitPid : DWORD) (t : WaitTurn) : Prop :=
  ∃ i p, t.wakeup = .object i ∧ (k.selected P waitPid)[i]? = some p ∧
    (t.events.foldl event k).running p = false

/-- The wait is interrupted, or fails, while a selected child has exited or is stopped. -/
def Cut (k : KernelTable) (P : Nat) (waitPid : DWORD) (t : WaitTurn) : Prop :=
  (t.wakeup = .failed ∨ t.wakeup = .object (k.selected P waitPid).length) ∧
    ∃ p ∈ k.selected P waitPid,
      (t.events.foldl event k).running p = false ∨ t.suspended p = true

end Call

/-- A call of `wait4` considers the children selected, answers `ECHILD` exactly if there are
none, and with `WNOHANG` 0 if there are but none has exited or is stopped; a child that it
reports as exited is one of them and has exited, and its entry and no other is removed. -/
structure WaitsRight (k : KernelTable) (P : Nat) (waitPid options : DWORD)
    (turns : List WaitTurn) : Prop where
  considers : k.considered P waitPid = k.selected P waitPid
  echild : (∃ k', sysWait4 P waitPid options turns k = .ok (-ECHILD) k') ↔
    k.selected P waitPid = []
  nohang : options &&& WNOHANG ≠ 0#32 → k.selected P waitPid ≠ [] →
    ∀ result k', sysWait4 P waitPid options turns k = .ok result k' →
      (∀ p ∈ k.selected P waitPid, k'.running p = true ∧
        ∀ t, turns.head? = some t → t.suspended p = false) → result = 0#32
  reaps : ∀ p, k.reported P waitPid options turns = some p → p ∈ k.selected P waitPid ∧
    ∃ k', sysWait4 P waitPid options turns k = .ok (k.pid p) k' ∧ k'.running p = false ∧
      k'.listed = k.listed.erase p
  keeps : k.reported P waitPid options turns = none →
    ∀ result k', sysWait4 P waitPid options turns k = .ok result k' → k'.listed = k.listed

/-- For a group, no child of the caller is in the group with the number given or in the one
meant; with `WNOHANG`, there is a child to report, or none is selected, or the wait is cut while
there is one. -/
structure WaitFits (k : KernelTable) (P : Nat) (waitPid options : DWORD)
    (turns : List WaitTurn) : Prop where
  group : waitPid.toInt < -1 → ∀ p, k.ChildOf P p →
    (k.object p).processGroupPID ≠ waitPid ∧ (k.object p).processGroupPID.toInt ≠ -waitPid.toInt
  nohang : options &&& WNOHANG ≠ 0#32 → k.selected P waitPid ≠ [] →
    (∀ p ∈ k.selected P waitPid, k.running p = true) →
      ∀ t, turns.head? = some t → k.Reports P waitPid t ∨ k.Cut P waitPid t

section Call

variable {k : KernelTable} {P : Nat} {waitPid options : DWORD} {turns : List WaitTurn}

theorem pid_ne_echild (h : k.Sound) {p : Nat} (hp : p ∈ k.listed) : k.pid p ≠ -ECHILD := by
  intro heq
  have hrange := (h.pid_range p hp).2
  rw [heq] at hrange
  exact absurd hrange (by decide)

/-- What a turn decides for the children waited for. -/
theorem woken_selected (h : k.Sound) (hsame : k.considered P waitPid = k.selected P waitPid)
    {t : WaitTurn} {r : Option DWORD}
    (hw : Woken (t.events.foldl event k) ((k.considered P waitPid).map k.pid) t.wakeup r) :
    (k.Reports P waitPid t ∧ ∃ pid, r = some pid ∧ pid ≠ -ECHILD) ∨
      ((t.wakeup = .failed ∨ t.wakeup = .object (k.selected P waitPid).length) ∧
        ∃ err, r = some err ∧ err.toInt < 0 ∧ err ≠ -ECHILD) ∨
      (r = none ∧ ¬k.Reports P waitPid t ∧ ¬k.Cut P waitPid t) := by
  have hq := quiet_events t.events k
  have h' := hq.sound h
  have hfind : ∀ {i : Nat} {pid : DWORD}, ((k.considered P waitPid).map k.pid)[i]? = some pid →
      ∃ p, (k.selected P waitPid)[i]? = some p ∧ k.pid p = pid ∧ p ∈ k.listed ∧
        (t.events.foldl event k).findProcess pid = some p := by
    intro i pid hpid
    rw [List.getElem?_map, Option.map_eq_some_iff] at hpid
    obtain ⟨p, hp, rfl⟩ := hpid
    have hlisted := listed_of_considered (List.mem_of_getElem? hp)
    exact ⟨p, hsame ▸ hp, rfl, hlisted,
      (findProcess_eq_some h').mpr ⟨hq.listed_eq ▸ hlisted, hq.pid_eq p⟩⟩
  cases hw with
  | reported hwakeup hpid hfound hexited =>
    obtain ⟨p, hp, rfl, hlisted, hp'⟩ := hfind hpid
    rw [Option.some.inj (hfound.symm.trans hp')] at hexited
    exact .inl ⟨⟨_, p, hwakeup, hp, hexited⟩, _, rfl, pid_ne_echild h hlisted⟩
  | cut hwakeup hneg hne =>
    rw [List.length_map, hsame] at hwakeup
    exact .inr (.inl ⟨hwakeup, _, rfl, hneg, hne⟩)
  | again hcut hrunning =>
    refine .inr (.inr ⟨rfl, ?_, ?_⟩)
    · rintro ⟨i, p, hwakeup, hp, hexited⟩
      have hpid : ((k.considered P waitPid).map k.pid)[i]? = some (k.pid p) := by
        rw [List.getElem?_map, hsame, hp]
        rfl
      obtain ⟨q, hq', -, -, hfound⟩ := hfind hpid
      obtain rfl : q = p := Option.some.inj (hq'.symm.trans hp)
      have hrun := hrunning i (k.pid q) q hwakeup hpid hfound
      exact Bool.false_ne_true (hexited.symm.trans hrun)
    · rintro ⟨hwakeup, -⟩
      rw [List.length_map, hsame] at hcut
      exact hcut hwakeup

/-- The wait of a call with `WNOHANG`. -/
theorem waitForChild_nohang (h : k.Sound)
    (hsame : k.considered P waitPid = k.selected P waitPid) (hne : k.selected P waitPid ≠ [])
    (hall : ∀ p ∈ k.selected P waitPid, k.running p = true)
    (hopt : options &&& WNOHANG ≠ 0#32) (t : WaitTurn) (ts : List WaitTurn) :
    ∃ r, Woken (t.events.foldl event k) ((k.considered P waitPid).map k.pid) t.wakeup r ∧
      waitForChild P waitPid options (t :: ts) k =
        .ok (r.getD (-ECHILD), false) (t.events.foldl event k) := by
  have hpids := present_considered h P waitPid
  obtain ⟨r, hwoken, hloop⟩ :=
    waitLoop_nohang (P := P) hopt ((quiet_events t.events k).present h hpids) ts
  rw [← hsame] at hne hall
  exact ⟨r, hwoken, (waitForChild_running hne hall).trans hloop⟩

/-- A wait that returns has found a selected child that had exited before, or all of them run. -/
theorem waitForChild_cases (hsame : k.considered P waitPid = k.selected P waitPid)
    {r : DWORD × Bool} {k₁ : KernelTable}
    (hrun : waitForChild P waitPid options turns k = .ok r k₁) :
    (∃ p ∈ k.selected P waitPid, k.running p = false ∧ r = (k.pid p, false) ∧ k₁ = k) ∨
      ∀ p ∈ k.selected P waitPid, k.running p = true := by
  by_cases hexited : ∃ p ∈ k.considered P waitPid, k.running p = false
  · obtain ⟨p, hp, hr, hrun'⟩ := waitForChild_exited options turns hexited
    obtain ⟨rfl, rfl⟩ := Result.ok.inj (hrun'.symm.trans hrun)
    exact .inl ⟨p, hsame ▸ hp, hr, rfl, rfl⟩
  · refine .inr fun p hp ↦ ?_
    rw [← hsame] at hp
    exact Bool.not_eq_false _ ▸ fun hr ↦ hexited ⟨p, hp, hr⟩

/-- A wait with `WNOHANG` that returns has taken one turn. -/
theorem waitForChild_nohang_eq_ok (h : k.Sound)
    (hsame : k.considered P waitPid = k.selected P waitPid) (hne : k.selected P waitPid ≠ [])
    (hall : ∀ p ∈ k.selected P waitPid, k.running p = true)
    (hopt : options &&& WNOHANG ≠ 0#32) {r : DWORD × Bool} {k₁ : KernelTable}
    (hrun : waitForChild P waitPid options turns k = .ok r k₁) :
    ∃ t ts o, turns = t :: ts ∧ k₁ = t.events.foldl event k ∧ r = (o.getD (-ECHILD), false) ∧
      Woken k₁ ((k.considered P waitPid).map k.pid) t.wakeup o := by
  cases turns with
  | nil =>
    rw [← hsame] at hne hall
    rw [waitForChild_running hne hall] at hrun
    cases hrun
  | cons t ts =>
    obtain ⟨o, hwoken, hrun'⟩ := waitForChild_nohang h hsame hne hall hopt t ts
    obtain ⟨rfl, rfl⟩ := Result.ok.inj (hrun'.symm.trans hrun)
    exact ⟨t, ts, o, rfl, rfl, rfl, hwoken⟩

/-- A call that fits finds a child or there is none. -/
theorem selected_nil_of_echild (h : k.Sound)
    (hsame : k.considered P waitPid = k.selected P waitPid)
    (hfits : k.WaitFits P waitPid options turns) {k' : KernelTable}
    (hok : sysWait4 P waitPid options turns k = .ok (-ECHILD) k') :
    k.selected P waitPid = [] := by
  by_contra hne
  obtain ⟨stopped, k₁, hrun, -⟩ := sysWait4_eq_ok hok
  rcases waitForChild_cases hsame hrun with ⟨p, hp, -, hr, -⟩ | hall
  · rw [← hsame] at hp
    exact pid_ne_echild h (listed_of_considered hp) (Prod.mk.inj hr).1.symm
  · by_cases hopt : options &&& WNOHANG ≠ 0#32
    · obtain ⟨t, ts, o, rfl, rfl, hr, hwoken⟩ :=
        waitForChild_nohang_eq_ok h hsame hne hall hopt hrun
      have heq := (Prod.mk.inj hr).1.symm
      rcases woken_selected h hsame hwoken with ⟨-, pid, rfl, hpid⟩ | ⟨-, err, rfl, -, herr⟩ |
        ⟨-, hreports, hcut⟩
      · exact hpid heq
      · exact herr heq
      · rcases hfits.nohang hopt hne hall t rfl with hr | hc
        · exact hreports hr
        · exact hcut hc
    · rw [← hsame] at hne hall
      rw [waitForChild_running hne hall] at hrun
      have hpids := present_considered h P waitPid
      refine Comp.safe_of_ok (safe_waitLoop_blocking (P := P) h hopt hpids ?_ turns) hrun rfl
      intro pid hpid
      obtain ⟨p, hp, rfl⟩ := List.mem_map.mp hpid
      exact pid_ne_echild h (listed_of_considered hp)

/-- With a child selected, and none exited or stopped, a call with `WNOHANG` does not fit. -/
theorem not_fits_of_quiet (h : k.Sound)
    (hsame : k.considered P waitPid = k.selected P waitPid) (hopt : options &&& WNOHANG ≠ 0#32)
    (hne : k.selected P waitPid ≠ []) {result : DWORD} {k' : KernelTable}
    (hok : sysWait4 P waitPid options turns k = .ok result k')
    (hquiet : ∀ p ∈ k.selected P waitPid, k'.running p = true ∧
      ∀ t, turns.head? = some t → t.suspended p = false) :
    ¬k.WaitFits P waitPid options turns := by
  intro hfits
  obtain ⟨stopped, k₁, hrun, hobject⟩ := sysWait4_eq_ok hok
  have hrunning : ∀ p ∈ k.selected P waitPid, k₁.running p = true := by
    intro p hp
    rw [running, ← hobject]
    exact (hquiet p hp).1
  rcases waitForChild_cases hsame hrun with ⟨p, hp, hr, -, rfl⟩ | hall
  · exact Bool.false_ne_true (hr.symm.trans (hrunning p hp))
  · obtain ⟨t, ts, -, rfl, rfl, -, -⟩ := waitForChild_nohang_eq_ok h hsame hne hall hopt hrun
    rcases hfits.nohang hopt hne hall t rfl with ⟨i, p, -, hp, hr⟩ | ⟨-, p, hp, hr | hs⟩
    · exact Bool.false_ne_true (hr.symm.trans (hrunning p (List.mem_of_getElem? hp)))
    · exact Bool.false_ne_true (hr.symm.trans (hrunning p hp))
    · exact Bool.false_ne_true (((hquiet p hp).2 t rfl).symm.trans hs)

/-- One call of `wait4` is right exactly where it fits. -/
theorem waitsRight_iff (h : k.Sound) (P : Nat) (waitPid options : DWORD)
    (turns : List WaitTurn) :
    k.WaitsRight P waitPid options turns ↔ k.WaitFits P waitPid options turns := by
  constructor
  · intro hright
    have hsame := hright.considers
    refine ⟨considered_eq_iff.mp hsame, fun hopt hne hall t ht ↦ ?_⟩
    cases turns with
    | nil => cases ht
    | cons t' ts =>
      obtain rfl : t' = t := Option.some.inj ht
      obtain ⟨r, hwoken, hrun⟩ := waitForChild_nohang h hsame hne hall hopt t' ts
      rcases woken_selected h hsame hwoken with ⟨hreports, -⟩ | ⟨hwakeup, err, rfl, hneg, -⟩ |
        ⟨rfl, -, -⟩
      · exact .inl hreports
      · refine .inr ⟨hwakeup, ?_⟩
        by_contra hquiet
        have hok := sysWait4_error hrun (Int.not_lt.mpr (Int.le_of_lt hneg))
        have hzero := hright.nohang hopt hne err _ hok fun p hp ↦ ⟨?_, ?_⟩
        · rw [hzero] at hneg
          exact absurd hneg (by decide)
        · exact Bool.not_eq_false _ ▸ fun hr ↦ hquiet ⟨p, hp, .inl hr⟩
        · intro t ht
          rw [← Option.some.inj ht]
          exact Bool.not_eq_true _ ▸ fun hs ↦ hquiet ⟨p, hp, .inr hs⟩
      · have hok := sysWait4_error hrun (by decide)
        exact absurd (hright.echild.mp ⟨_, hok⟩) hne
  · intro hfits
    have hsame := considered_eq_iff.mpr hfits.group
    refine ⟨hsame, ⟨?_, fun hnil ↦ ?_⟩, ?_, ?_, fun hnone result k' ↦ reported_eq_none h hnone⟩
    · rintro ⟨k', hok⟩
      exact selected_nil_of_echild h hsame hfits hok
    · exact ⟨k, sysWait4_error (waitForChild_none (hsame.trans hnil)) (by decide)⟩
    · intro hopt hne result k' hok hquiet
      exact absurd hfits (not_fits_of_quiet h hsame hopt hne hok hquiet)
    · intro p hp
      obtain ⟨hmem, k', hok, hexited, hlisted, -⟩ := reported_eq_some h hp
      exact ⟨hsame ▸ hmem, k', hok, hexited, hlisted⟩

end Call

/-! ## Runs -/

/-- A call of a run: one that the table already knows, or one that changes a group. -/
inductive Act where
  | call (c : Call)
  | getpgid (P : Nat) (ctx : Context)
  | setpgid (P : Nat) (ctx : Context)

/-- One call, as one step. Only a registered process calls. -/
def act (k : KernelTable) : Act → KernelTable
  | .call c => k.step c
  | .getpgid P ctx => if P ∈ k.listed then (sysGetpgid P ctx k).2 else k
  | .setpgid P ctx => if P ∈ k.listed then (sysSetpgid P ctx k).2 else k

/-- The process whose exit a call reports. -/
def report (k : KernelTable) : Act → Option Nat
  | .call (.wait4 P waitPid options turns) =>
      if P ∈ k.listed then k.reported P waitPid options turns else none
  | _ => none

theorem quiet_setGroup (k : KernelTable) (p : Nat) (pgid : DWORD) : Quiet k (k.setGroup p pgid) :=
  quiet_update k p (fun _ ↦ rfl) fun _ h ↦ h

theorem quiet_sysGetpgid (k : KernelTable) (P : Nat) (ctx : Context) :
    Quiet k (sysGetpgid P ctx k).2 := by
  unfold sysGetpgid
  cases k.findProcess (k.addressed P ctx.ebx) with
  | none => exact quiet_refl k
  | some p2 => exact quiet_setGroup k p2 _

theorem sound_act {k : KernelTable} (h : k.Sound) (a : Act) : (k.act a).Sound := by
  cases a with
  | call c => exact sound_step h c
  | getpgid P ctx =>
    rw [act]
    split
    · exact (quiet_sysGetpgid k P ctx).sound h
    · exact h
  | setpgid P ctx =>
    rw [act]
    split
    · exact (quiet_setGroup k P _).sound h
    · exact h

/-- The process has been in the table and is not any more: its address is not given out again. -/
def Gone (k : KernelTable) (p : Nat) : Prop := p < k.fresh ∧ p ∉ k.listed

theorem gone_of_quiet {k k' : KernelTable} (hq : Quiet k k') {p : Nat} (hgone : k.Gone p) :
    k'.Gone p := by
  rw [Gone, hq.fresh_eq, hq.listed_eq]
  exact hgone

theorem fresh_deleteProcess (p : Nat) (k : KernelTable) :
    Comp.Post (deleteProcess p) k (fun _ k' ↦ k'.fresh = k.fresh) fun _ ↦ True := by
  rw [deleteProcess, Comp.post_bind, Comp.post_get]
  cases k.processes.eraseValue p with
  | none => trivial
  | some l => exact rfl

/-- A fork gives out the next address. -/
theorem startFork_post (P : Nat) (outcome : ForkOutcome) (k : KernelTable) :
    Comp.Post (startFork P outcome) k
      (fun r k' ↦ k.fresh ≤ k'.fresh ∧ ∀ child, r = some child → child = k.fresh)
      fun _ ↦ True := by
  have hfail : ∀ k₁ : KernelTable, k₁.fresh = k.fresh + 1 →
      Comp.Post (do
        deleteProcess k.fresh
        return none : Comp KernelTable (Option Nat)) k₁
        (fun r k' ↦ k.fresh ≤ k'.fresh ∧ ∀ child, r = some child → child = k.fresh)
        fun _ ↦ True := by
    intro k₁ hfresh
    rw [Comp.post_bind]
    refine Comp.post_mono (fresh_deleteProcess k.fresh k₁) (fun _ k' hk' ↦ ?_) fun _ h ↦ h
    refine ⟨?_, fun _ h ↦ by cases h⟩
    rw [hk', hfresh]
    exact Nat.le_succ _
  rw [startFork, Comp.post_bind, Comp.post_get]
  dsimp only
  generalize allocatePid (fun pid ↦ (k.findProcess pid).isSome) 10000 k.lastPID = r
  obtain ⟨pid, lastPID⟩ := r
  rw [Comp.post_bind, Comp.post_modify]
  cases pid with
  | none => exact hfail _ rfl
  | some pid =>
    dsimp only
    rw [Comp.post_bind, Comp.post_modify]
    cases outcome with
    | noThread => exact hfail _ rfl
    | noProcess =>
      rw [Comp.post_bind, Comp.post_modify]
      exact hfail _ rfl
    | started openFiles =>
      rw [Comp.post_bind, Comp.post_get]
      generalize KernelTable.findProcess _ _ = found
      cases found with
      | none => trivial
      | some parent => exact ⟨Nat.le_succ _, fun _ h ↦ (Option.some.inj h).symm⟩

theorem gone_of_waited {k k' : KernelTable} {result : DWORD} (hw : Waited k result k') {p : Nat}
    (hgone : k.Gone p) : k'.Gone p := by
  cases hw with
  | kept hq => exact gone_of_quiet hq hgone
  | reaped hq _ _ _ _ _ hlist =>
    refine ⟨lt_of_lt_of_eq hgone.1 hq.fresh_eq.symm, fun hmem ↦ hgone.2 ?_⟩
    rw [listed, hlist] at hmem
    exact List.mem_of_mem_erase hmem

theorem gone_startFork {k : KernelTable} (h : k.Sound) {P : Nat} (hP : P ∈ k.listed)
    (outcome : ForkOutcome) {p : Nat} (hgone : k.Gone p) :
    ((startFork P outcome k).state).Gone p := by
  obtain ⟨r, k', hrun, hforked⟩ := Comp.exists_ok_of_safe (safe_startFork h hP outcome)
  obtain ⟨hfresh, hchild⟩ := Comp.of_post_ok (startFork_post P outcome k) hrun
  rw [hrun]
  refine ⟨lt_of_lt_of_le hgone.1 hfresh, fun hmem ↦ hgone.2 ?_⟩
  change p ∈ k'.listed at hmem
  cases r with
  | none => rwa [hforked.listed_none rfl] at hmem
  | some child =>
    rw [(hforked.listed_some child rfl).1, List.mem_append, List.mem_singleton] at hmem
    rcases hmem with hmem | rfl
    · exact hmem
    · exact absurd (hchild p rfl) (Nat.ne_of_lt hgone.1)

/-- What is gone stays gone. -/
theorem gone_act {k : KernelTable} (h : k.Sound) (a : Act) {p : Nat} (hgone : k.Gone p) :
    (k.act a).Gone p := by
  cases a with
  | getpgid P ctx =>
    rw [act]
    split
    · exact gone_of_quiet (quiet_sysGetpgid k P ctx) hgone
    · exact hgone
  | setpgid P ctx =>
    rw [act]
    split
    · exact gone_of_quiet (quiet_setGroup k P _) hgone
    · exact hgone
  | call c =>
    rw [act]
    cases c with
    | event e => exact gone_of_quiet (quiet_event k e) hgone
    | startFork P outcome =>
      rw [step]
      split
      · next hP => exact gone_startFork h hP outcome hgone
      · exact hgone
    | wait4 P waitPid options turns =>
      rw [step]
      split
      · next hP =>
        exact Comp.state_of_safe (KernelTable.Gone · p) (safe_sysWait4 h hP waitPid options turns)
          (fun _ _ hw ↦ gone_of_waited hw hgone) fun _ hq ↦ gone_of_quiet hq hgone
      · exact hgone

/-- A process whose exit is reported was in the table until then. -/
theorem gone_of_report {k : KernelTable} (h : k.Sound) {a : Act} {p : Nat}
    (hr : k.report a = some p) : ¬k.Gone p ∧ (k.act a).Gone p := by
  cases a with
  | getpgid P ctx => cases hr
  | setpgid P ctx => cases hr
  | call c =>
    cases c with
    | event e => cases hr
    | startFork P outcome => cases hr
    | wait4 P waitPid options turns =>
      rw [report] at hr
      split at hr
      · next hP =>
        obtain ⟨hmem, k', hok, -, hlisted, hfresh⟩ := reported_eq_some h hr
        have hp := listed_of_considered hmem
        refine ⟨fun hgone ↦ hgone.2 hp, ?_⟩
        rw [act, step, if_pos hP, hok]
        refine ⟨lt_of_lt_of_eq (h.lt_fresh p hp) hfresh.symm, ?_⟩
        change p ∉ k'.listed
        rw [hlisted]
        exact h.nodup.not_mem_erase
      · cases hr

/-- From every sound table, over all runs of forks, waits, exits and changes of group: each call
of `wait4` by a process of the table is right exactly where it fits, and no exit is reported
twice. -/
theorem trail_wait4_iff {k₀ : KernelTable} (h₀ : k₀.Sound) (acts : List Act) :
    (∀ k ∈ trail act k₀ acts, ∀ P ∈ k.listed, ∀ waitPid options turns,
      k.WaitsRight P waitPid options turns ↔ k.WaitFits P waitPid options turns) ∧
    (emitted act report k₀ acts).Nodup := by
  constructor
  · intro k hk P _ waitPid options turns
    have h : k.Sound := @trail_invariant _ _ act Sound (fun _ ↦ True)
      (fun k a h _ ↦ sound_act h a) k₀ h₀ acts (fun _ _ ↦ trivial) k hk
    exact waitsRight_iff h P waitPid options turns
  · exact (nodup_emitted (fun _ a h ↦ sound_act h a) (fun _ a _ h hgone ↦ gone_act h a hgone)
      (fun _ _ _ h hr ↦ gone_of_report h hr) h₀ acts).1

/-- Init waits twice for the child, with `WNOHANG`: it is reaped, and that is all. -/
theorem trail_wait4_exitedChild :
    (∃ k', sysWait4 init (-1#32) WNOHANG [] exitedChild = .ok 2#32 k' ∧ k'.listed = [init]) ∧
      (emitted act report exitedChild
        (List.replicate 2 (.call (.wait4 init (-1#32) WNOHANG [])))).count 1 = 1 := by
  have hsound : exitedChild.Sound := by
    rw [exitedChild, forkAndExit, List.foldl_cons, List.foldl_cons, List.foldl_nil]
    exact sound_step (sound_step sound_startInit _) _
  obtain ⟨hright, honce⟩ := trail_wait4_iff hsound
    (List.replicate 2 (.call (.wait4 init (-1#32) WNOHANG [])))
  constructor
  · have hfits : exitedChild.WaitFits init (-1#32) WNOHANG [] :=
      ⟨fun h ↦ absurd h (by decide), fun _ _ hrunning ↦ absurd (hrunning 1 (by decide)) (by decide)⟩
    have hwait := (hright _ (mem_trail_self _ _ _) init (by decide) _ _ _).mpr hfits
    obtain ⟨-, k', hrun, -, hlisted⟩ := hwait.reaps 1 (by decide)
    exact ⟨k', hrun, hlisted⟩
  · exact List.count_eq_one_of_mem honce (by decide)

/-- Init with a child of pid 2 in group 5. -/
def family : KernelTable := (startInit.newProcess.register 1 2#32 1#32).setGroup 1 5#32

/-- The child is not found by its group, and while it runs `WNOHANG` denies that it exists. -/
theorem not_waitsRight_family :
    ¬family.WaitsRight init (-5#32) 0#32 [] ∧
    ¬family.WaitsRight init (-1#32) WNOHANG [{ wakeup := .timeout }] := by
  constructor
  · intro h
    exact absurd h.considers (by decide)
  · intro h
    have hok : sysWait4 init (-1#32) WNOHANG [{ wakeup := .timeout }] family =
        .ok (-ECHILD) family := rfl
    exact absurd (h.echild.mp ⟨family, hok⟩) (by decide)

end KernelTable

end Keow.Kernel
