import Keow.Base.Rooted
import Keow.Kernel.Pids

/-!
# The process tree

An exiting process signals the parent it finds by `m_ParentPid`, reads the parent's threads
before it checks that there is a parent, and only then hands its children to init. The parent
is there in every reachable table, and the parents lead to init, exactly if no process is
reaped while it still has children.
-/

namespace Keow.Kernel

open Keow.Base Relation

namespace KernelTable

def parentPid (k : KernelTable) (p : Nat) : DWORD := (k.object p).parentPid

/-- SIGCHLD for the parent of a process that has ended, `Process.cpp:310–317`: the process it is
sent to, if any. `pParent->m_ThreadList` is read before `if(pParent)`. -/
def signalParent (P : Nat) : Comp KernelTable (Option Nat) := do
  let k ← Comp.get
  if k.pid P = 1#32 then return none
  else
    match k.findProcess (k.parentPid P) with
    | none => Comp.fault
    | some parent => return some parent

/-- `q` is the registered parent of `p`. -/
def Parent (k : KernelTable) : Nat → Nat → Prop := Above {p | p ∈ k.listed} k.pid k.parentPid

/-- The parents lead from every registered process to init. -/
def Family (k : KernelTable) : Prop := Rooted {p | p ∈ k.listed} k.pid k.parentPid init

/-! ## What a call does to the parents -/

/-- Every process has kept its parent or been inherited by init. -/
def Inherited (k k' : KernelTable) : Prop :=
  ∀ p, k'.parentPid p = k.parentPid p ∨ k'.parentPid p = 1#32

theorem inherited_refl (k : KernelTable) : Inherited k k := fun _ ↦ .inl rfl

theorem inherited_trans (k₁ k₂ k₃ : KernelTable) (h : Inherited k₁ k₂) (h' : Inherited k₂ k₃) :
    Inherited k₁ k₃ := by
  intro p
  rcases h' p with heq | heq
  · rw [heq]
    exact h p
  · exact .inr heq

theorem inherited_update {f : Process → Process} (k : KernelTable) (p : Nat)
    (hf : ∀ q, (f q).parentPid = q.parentPid ∨ (f q).parentPid = 1#32) :
    Inherited k (k.update p f) := by
  intro q
  rw [parentPid, parentPid, update]
  dsimp only
  split
  · exact hf (k.object q)
  · exact .inl rfl

theorem adopt_inherits (pid : DWORD) (q : Process) :
    (adopt pid q).parentPid = q.parentPid ∨ (adopt pid q).parentPid = 1#32 := by
  rw [adopt]
  dsimp only
  split
  · exact .inr rfl
  · exact .inl rfl

theorem inherited_event (k : KernelTable) (e : ProcessEvent) : Inherited k (k.event e) := by
  cases e with
  | exitProcess p exitCode =>
    rw [event]
    exact inherited_update k p fun _ ↦ .inl rfl
  | releaseChildren p =>
    rw [event]
    split
    · exact inherited_refl k
    · have hfold : ∀ (ps : List Nat) (k' : KernelTable), Inherited k k' →
          Inherited k (ps.foldl (fun k' p2 ↦ k'.update p2 (adopt (k'.pid p))) k') := by
        intro ps
        induction ps with
        | nil => exact fun _ h ↦ h
        | cons p2 ps ih =>
          intro k' hk'
          exact ih _ (inherited_trans _ _ _ hk'
            (inherited_update k' p2 (adopt_inherits (k'.pid p))))
      exact hfold k.listed k (inherited_refl k)

theorem inherited_events (events : List ProcessEvent) (k : KernelTable) :
    Inherited k (events.foldl event k) := by
  induction events generalizing k with
  | nil => exact inherited_refl k
  | cons e events ih => exact inherited_trans _ _ _ (inherited_event k e) (ih (k.event e))

theorem always_deleteProcess (p : Nat) : Comp.Always Inherited (deleteProcess p) := by
  apply Comp.always_bind inherited_trans (Comp.always_get inherited_refl)
  intro k
  split
  · exact Comp.always_fault inherited_refl
  · exact Comp.always_modify inherited_refl

theorem always_wakeupResult (pids : List DWORD) (w : Wakeup) :
    Comp.Always Inherited (wakeupResult pids w) := by
  cases w with
  | failed => exact Comp.always_pure inherited_refl _
  | timeout => exact Comp.always_pure inherited_refl _
  | object i =>
    apply Comp.always_ite (Comp.always_pure inherited_refl _)
    split
    · exact Comp.always_pure inherited_refl _
    · apply Comp.always_bind inherited_trans (Comp.always_get inherited_refl)
      intro k
      split
      · exact Comp.always_fault inherited_refl
      · exact Comp.always_pure inherited_refl _

theorem always_firstStopped (P : Nat) (options : DWORD) (suspended : Nat → Bool)
    (pids : List DWORD) : Comp.Always Inherited (firstStopped P options suspended pids) := by
  induction pids with
  | nil => exact Comp.always_pure inherited_refl _
  | cons pid pids ih =>
    apply Comp.always_bind inherited_trans (Comp.always_get inherited_refl)
    intro k
    dsimp only
    split
    · exact Comp.always_fault inherited_refl
    · exact Comp.always_ite (Comp.always_pure inherited_refl _) ih

theorem always_waitLoop (P : Nat) (options : DWORD) (pids : List DWORD) (turns : List WaitTurn) :
    Comp.Always Inherited (waitLoop P options pids turns) := by
  induction turns with
  | nil => exact inherited_refl
  | cons t ts ih =>
    apply Comp.always_bind inherited_trans
      (Comp.always_modify (inherited_events t.events))
    intro _
    apply Comp.always_bind inherited_trans (always_wakeupResult pids t.wakeup)
    intro r
    cases r with
    | some result => exact Comp.always_pure inherited_refl _
    | none =>
      apply Comp.always_ite (Comp.always_pure inherited_refl _)
      apply Comp.always_bind inherited_trans
        (always_firstStopped P options t.suspended pids)
      intro r
      cases r with
      | some pid => exact Comp.always_pure inherited_refl _
      | none => exact ih

/-- `wait4` itself gives nobody a new parent. -/
theorem always_sysWait4 (P : Nat) (waitPid options : DWORD) (turns : List WaitTurn) :
    Comp.Always Inherited (sysWait4 P waitPid options turns) := by
  have hwait : Comp.Always Inherited (waitForChild P waitPid options turns) := by
    apply Comp.always_bind inherited_trans (Comp.always_get inherited_refl)
    intro k
    split
    · exact Comp.always_pure inherited_refl _
    · exact Comp.always_pure inherited_refl _
    · exact always_waitLoop P options _ turns
  apply Comp.always_bind inherited_trans hwait
  rintro ⟨result, oneStopped⟩
  apply Comp.always_ite _ (Comp.always_pure inherited_refl _)
  apply Comp.always_bind inherited_trans (Comp.always_get inherited_refl)
  intro k
  split
  · exact Comp.always_fault inherited_refl
  · next child _ =>
    apply Comp.always_ite (Comp.always_pure inherited_refl _)
    exact Comp.always_bind inherited_trans (always_deleteProcess child)
      fun _ ↦ Comp.always_pure inherited_refl _

/-- A fork makes the new process a child of its caller. -/
theorem startFork_parent {k : KernelTable} {P : Nat} (hP : P ≠ k.fresh) (outcome : ForkOutcome) :
    Comp.Post (startFork P outcome) k
      (fun r k' ↦ ∀ child, r = some child → k'.parentPid child = k.pid P) fun _ ↦ True := by
  have hfail : ∀ (p : Nat) (k₁ : KernelTable),
      Comp.Post (do
        deleteProcess p
        return none : Comp KernelTable (Option Nat)) k₁
        (fun r k' ↦ ∀ child, r = some child → k'.parentPid child = k.pid P) fun _ ↦ True := by
    intro p k₁
    rw [Comp.post_bind]
    exact Comp.post_of_forall (fun _ _ _ h ↦ by cases h) fun _ ↦ trivial
  rw [startFork, Comp.post_bind, Comp.post_get]
  dsimp only
  generalize allocatePid (fun pid ↦ (k.findProcess pid).isSome) 10000 k.lastPID = r
  obtain ⟨pid, lastPID⟩ := r
  rw [Comp.post_bind, Comp.post_modify]
  have hcaller : (k.beginFork lastPID).pid P = k.pid P := congrArg Process.pid (if_neg hP)
  cases pid with
  | none => exact hfail _ _
  | some pid =>
    dsimp only
    rw [Comp.post_bind, Comp.post_modify, hcaller]
    cases outcome with
    | noThread => exact hfail _ _
    | noProcess =>
      rw [Comp.post_bind, Comp.post_modify]
      exact hfail _ _
    | started openFiles =>
      rw [Comp.post_bind, Comp.post_get]
      generalize KernelTable.findProcess _ _ = found
      cases found with
      | none => trivial
      | some parent =>
        rintro child ⟨⟩
        simp [parentPid, update, register, forkCopyOtherProcess]

/-! ## One call -/

/-- No process leaves the table while a registered one has its pid for a parent. -/
def Orphanless (k : KernelTable) (c : Call) : Prop :=
  ∀ p ∈ k.listed, p ∉ (k.step c).listed →
    ∀ q ∈ (k.step c).listed, (k.step c).parentPid q ≠ k.pid p

/-- What one call does to the tree: some processes are lifted to init, or one is put below its
caller, or one is taken out. -/
inductive Grown (k k' : KernelTable) : Prop where
  | raised (listed : k'.listed = k.listed) (pids : ∀ p ∈ k.listed, k'.pid p = k.pid p)
      (parents : ∀ p ∈ k.listed, k'.parentPid p = k.parentPid p ∨ k'.parentPid p = 1#32)
  | added (P child : Nat) (caller : P ∈ k.listed) (listed : k'.listed = k.listed ++ [child])
      (pids : ∀ p ∈ k.listed, k'.pid p = k.pid p)
      (parents : ∀ p ∈ k.listed, k'.parentPid p = k.parentPid p)
      (parent : k'.parentPid child = k.pid P)
  | removed (p : Nat) (child : p ∈ k.listed) (ne_init : p ≠ init)
      (listed : k'.listed = k.listed.erase p) (pids : ∀ q ∈ k.listed, k'.pid q = k.pid q)
      (parents : ∀ q ∈ k.listed, k'.parentPid q = k.parentPid q ∨ k'.parentPid q = 1#32)

theorem grown_of_quiet {k k' : KernelTable} (hq : Quiet k k') (hi : Inherited k k') :
    Grown k k' :=
  .raised hq.listed_eq (fun p _ ↦ hq.pid_eq p) fun p _ ↦ hi p

theorem grown {k : KernelTable} (h : k.Sound) (c : Call) : Grown k (k.step c) := by
  cases c with
  | event e => exact grown_of_quiet (quiet_event k e) (inherited_event k e)
  | startFork P outcome =>
    rw [step]
    split
    · next hP =>
      obtain ⟨r, k', hrun, hforked⟩ := Comp.exists_ok_of_safe (safe_startFork h hP outcome)
      have hparent := Comp.of_post_ok (startFork_parent (ne_fresh h hP) outcome) hrun
      rw [hrun]
      have hpids : ∀ p ∈ k.listed, k'.pid p = k.pid p :=
        fun p hp ↦ congrArg Process.pid (hforked.object_eq p hp)
      have hparents : ∀ p ∈ k.listed, k'.parentPid p = k.parentPid p :=
        fun p hp ↦ congrArg Process.parentPid (hforked.object_eq p hp)
      cases r with
      | none =>
        exact .raised (hforked.listed_none rfl) hpids fun p hp ↦ .inl (hparents p hp)
      | some child =>
        exact .added P child hP (hforked.listed_some child rfl).1 hpids hparents
          (hparent child rfl)
    · exact grown_of_quiet (quiet_refl k) (inherited_refl k)
  | wait4 P waitPid options turns =>
    rw [step]
    split
    · next hP =>
      have hinherited := always_sysWait4 P waitPid options turns k
      refine Comp.state_of_safe (fun k' ↦ Inherited k k' → Grown k k')
        (safe_sysWait4 h hP waitPid options turns) ?_ (fun _ hq ↦ grown_of_quiet hq) hinherited
      intro result k' hw hi
      cases hw with
      | kept hq => exact grown_of_quiet hq hi
      | @reaped k₁ p l hq hp hinit _ _ _ hlist =>
        exact .removed p hp hinit hlist (fun q _ ↦ hq.pid_eq q) fun q _ ↦ hi q
    · exact grown_of_quiet (quiet_refl k) (inherited_refl k)

theorem Sound.injOn_pid {k : KernelTable} (h : k.Sound) : Set.InjOn k.pid {p | p ∈ k.listed} :=
  fun _ hp _ hq heq ↦ List.inj_on_of_nodup_map h.pids_nodup hp hq heq

/-- Init is nobody's child. -/
theorem Sound.parentPid_init_ne {k : KernelTable} (h : k.Sound) :
    ∀ p ∈ {p | p ∈ k.listed}, k.parentPid init ≠ k.pid p := by
  intro p hp heq
  have hrange := (h.pid_range p hp).1
  rw [← heq, parentPid, h.init_parent] at hrange
  exact absurd hrange (by decide)

theorem mem_erase_iff {k : KernelTable} (h : k.Sound) {p q : Nat} :
    q ∈ k.listed.erase p ↔ q ∈ {q | q ∈ k.listed} \ {p} := by
  rw [h.nodup.mem_erase_iff, and_comm]
  rfl

/-- A call that leaves no orphan leaves a tree. -/
theorem family_step {k : KernelTable} (h : k.Sound) (hf : k.Family) {c : Call}
    (hc : Orphanless k c) : (k.step c).Family := by
  cases grown h c with
  | raised hlisted hpids hparents =>
    rw [Family, hlisted]
    refine hf.raise h.init_mem hpids fun p hp ↦ ?_
    rw [h.init_pid]
    exact hparents p hp
  | added P child hP hlisted hpids hparents hparent =>
    have hset : {p | p ∈ (k.step c).listed} = insert child {p | p ∈ k.listed} := by
      rw [hlisted]
      ext p
      simp [or_comm]
    rw [Family, hset]
    exact hf.insert h.init_mem hpids hparents hP hparent
  | removed p hp hinit hlisted hpids hparents =>
    have hset : {q | q ∈ (k.step c).listed} = {q | q ∈ k.listed} \ {p} := by
      ext q
      rw [hlisted]
      exact mem_erase_iff h
    have hraised : Rooted {q | q ∈ k.listed} (k.step c).pid (k.step c).parentPid init := by
      refine hf.raise h.init_mem hpids fun p hp ↦ ?_
      rw [h.init_pid]
      exact hparents p hp
    have hgone : p ∉ (k.step c).listed := by
      rw [hlisted]
      exact h.nodup.not_mem_erase
    rw [Family, hset]
    apply hraised.diff
    intro q hq
    rw [hpids p hp]
    apply hc p hp hgone q
    rw [hlisted]
    exact (mem_erase_iff h).mpr hq

/-- A call that leaves every process its parent leaves no orphan. -/
theorem orphanless_of_parents {k : KernelTable} (h : k.Sound) {c : Call}
    (hall : ∀ p ∈ (k.step c).listed, p ≠ init → ∃ q, (k.step c).Parent p q) :
    Orphanless k c := by
  intro p hp hgone
  cases grown h c with
  | raised hlisted => exact absurd (hlisted ▸ hp) hgone
  | added P child _ hlisted =>
    rw [hlisted] at hgone
    exact absurd (List.mem_append_left _ hp) hgone
  | removed p' hp' hinit hlisted hpids hparents =>
    have hset : {q | q ∈ (k.step c).listed} = {q | q ∈ k.listed} \ {p'} := by
      ext q
      rw [hlisted]
      exact mem_erase_iff h
    obtain rfl : p = p' := by
      by_contra hne
      rw [hlisted] at hgone
      exact hgone ((mem_erase_iff h).mpr ⟨hp, hne⟩)
    have hinj : Set.InjOn (k.step c).pid {q | q ∈ k.listed} :=
      h.injOn_pid.congr fun q hq ↦ (hpids q hq).symm
    have htop : ∀ q ∈ {q | q ∈ k.listed}, (k.step c).parentPid init ≠ (k.step c).pid q := by
      intro q hq
      have hinit : (k.step c).parentPid init = k.parentPid init :=
        (sound_step h c).init_parent.trans h.init_parent.symm
      rw [hpids q hq, hinit]
      exact h.parentPid_init_ne q hq
    rw [← hpids p hp]
    intro q hq
    have hrest : q ∈ {q | q ∈ k.listed} \ {p} := hset ▸ hq
    refine forall_ne_of_exists_above hinj htop hp (fun a ha hne ↦ ?_) q hrest
    rw [← hset] at ha ⊢
    exact hall a ha hne

/-! ## Runs -/

/-- The exit of a process is signalled to its registered parent. -/
theorem signalParent_iff {k : KernelTable} (h : k.Sound) {p : Nat} (hp : p ∈ k.listed) :
    (∀ k', signalParent p k ≠ .fault k') ↔ (p ≠ init → ∃ q, k.Parent p q) := by
  have hrun : signalParent p k = if k.pid p = 1#32 then .ok none k else
      match k.findProcess (k.parentPid p) with
      | none => .fault k
      | some parent => .ok (some parent) k := by
    rw [signalParent, Comp.get_bind]
    split
    · rfl
    · cases k.findProcess (k.parentPid p) <;> rfl
  rw [hrun]
  split
  · next hpid =>
    have hinit := (h.pid_eq_one hp).mp hpid
    exact ⟨fun _ hne ↦ absurd hinit hne, fun _ k' hf ↦ by cases hf⟩
  · next hpid =>
    have hinit : p ≠ init := fun he ↦ hpid ((h.pid_eq_one hp).mpr he)
    constructor
    · intro hsafe _
      cases hfind : k.findProcess (k.parentPid p) with
      | none =>
        rw [hfind] at hsafe
        exact absurd rfl (hsafe k)
      | some q =>
        obtain ⟨hq, hpid⟩ := (findProcess_eq_some h).mp hfind
        exact ⟨q, hq, hpid.symm⟩
    · intro hparent k' hf
      obtain ⟨q, hq, hpid⟩ := hparent hinit
      rw [(findProcess_eq_some h).mpr ⟨hq, hpid.symm⟩] at hf
      cases hf

theorem family_startInit : startInit.Family := by
  have hset : {p | p ∈ startInit.listed} = {init} := by
    have hlinked : startInit.processes.Represents [(0, init)] :=
      LinkedList.represents_pushBack LinkedList.represents_empty init
    rw [listed_eq hlinked]
    ext p
    simp
  rw [Family, hset]
  exact rooted_singleton _ _ init

/-- Over all runs of forks, waits and exits from init alone: every exit finds its parent in every
table exactly if no call leaves an orphan, and exactly then the parents lead from every process
to init, and from none back to itself. -/
theorem trail_family_iff (calls : List Call) :
    ((∀ k ∈ trail step startInit calls, ∀ p ∈ k.listed, ∀ k', signalParent p k ≠ .fault k') ↔
      Along step Orphanless startInit calls) ∧
    ((∀ k ∈ trail step startInit calls, ∀ p ∈ k.listed,
        ReflTransGen k.Parent p init ∧ ¬TransGen k.Parent p p) ↔
      Along step Orphanless startInit calls) := by
  have hstep : ∀ k c, k.Sound ∧ k.Family → Orphanless k c →
      (k.step c).Sound ∧ (k.step c).Family :=
    fun k c hk hc ↦ ⟨sound_step hk.1 c, family_step hk.1 hk.2 hc⟩
  have hstart : startInit.Sound ∧ startInit.Family := ⟨sound_startInit, family_startInit⟩
  constructor
  · refine trail_iff_along ?_ hstep ?_ hstart calls
    · intro k hk p hp
      exact (signalParent_iff hk.1 hp).mpr fun hne ↦ hk.2.exists_above hp hne
    · intro k c hk hbad hall
      refine hbad (orphanless_of_parents hk.1 fun p hp ↦ ?_)
      exact (signalParent_iff (sound_step hk.1 c) hp).mp (hall p hp)
  · refine trail_iff_along ?_ hstep ?_ hstart calls
    · intro k hk p hp
      exact ⟨hk.2 p hp, hk.2.not_above_self hk.1.injOn_pid hk.1.parentPid_init_ne hp⟩
    · intro k c hk hbad hall
      refine hbad (orphanless_of_parents hk.1 fun p hp hne ↦ ?_)
      have hfamily : (k.step c).Family := fun p hp ↦ (hall p hp).1
      exact hfamily.exists_above hp hne

/-- A child forks a grandchild and exits, and init reaps it before its children are released. -/
def reapedEarly : List Call :=
  [.startFork init (.started fun _ ↦ none), .startFork 1 (.started fun _ ↦ none),
    .event (.exitProcess 1 0#32), .wait4 init (-1#32) 0#32 []]

example : (signalParent 2 (reapedEarly.foldl step startInit)).returned = false := by decide

end KernelTable

end Keow.Kernel
