import Keow.Base.Run
import Keow.Kernel.Table

/-!
# Pids are unique

What one call does to the process table, and from it that over every sequence of forks, waits
and exits the registered pids stay distinct and in range, that a failed fork leaves the table
alone and that only `wait4` gives up the pid of an exited process.
-/

namespace Keow.Kernel

open Keow.Base

namespace KernelTable

/-- The registered processes have distinct pids in range, and init is one of them for good:
nobody's child, so nobody reaps it. -/
structure Sound (k : KernelTable) : Prop where
  linked : ∃ cells, k.processes.Represents cells
  nodup : k.listed.Nodup
  lt_fresh : ∀ p ∈ k.listed, p < k.fresh
  pids_nodup : (k.listed.map k.pid).Nodup
  pid_range : ∀ p ∈ k.listed, 1 ≤ (k.pid p).toNat ∧ (k.pid p).toNat ≤ 0xFFFF
  init_mem : init ∈ k.listed
  init_pid : k.pid init = 1#32
  init_parent : (k.object init).parentPid = 0#32
  lastPID_le : k.lastPID.toNat ≤ 0x10000

/-! ## Lists and objects -/

theorem listed_eq {k : KernelTable} {cells : List (Nat × Nat)} (h : k.processes.Represents cells) :
    k.listed = cells.map Prod.snd :=
  LinkedList.toList_eq h

/-- Deleting a process takes its address off the list. -/
theorem safe_deleteProcess {k : KernelTable} (h : ∃ cells, k.processes.Represents cells) (p : Nat)
    {Q : Unit → KernelTable → Prop} {W : KernelTable → Prop}
    (hQ : ∀ l, (∃ cells, LinkedList.Represents l cells) → l.toList = k.listed.erase p →
      Q ⟨⟩ { k with processes := l }) : Comp.Safe (deleteProcess p) k Q W := by
  obtain ⟨cells, h⟩ := h
  obtain ⟨l, cells', herase, hl, hvalues⟩ := LinkedList.represents_eraseValue h p
  simp only [deleteProcess, Comp.safe_bind, Comp.safe_get, herase, Comp.safe_modify]
  apply hQ l ⟨cells', hl⟩
  rw [LinkedList.toList_eq hl, hvalues, listed_eq h]

theorem findProcess_eq_some {k : KernelTable} (h : k.Sound) {pid : DWORD} {p : Nat} :
    k.findProcess pid = some p ↔ p ∈ k.listed ∧ k.pid p = pid := by
  constructor
  · intro hfind
    exact ⟨List.mem_of_find?_eq_some hfind, by simpa using List.find?_some hfind⟩
  · rintro ⟨hp, rfl⟩
    cases hfind : k.findProcess (k.pid p) with
    | none =>
      have hne := List.find?_eq_none.mp hfind p hp
      simp at hne
    | some q =>
      have hq : q ∈ k.listed := List.mem_of_find?_eq_some hfind
      have heq : k.pid q = k.pid p := by simpa using List.find?_some hfind
      rw [List.inj_on_of_nodup_map h.pids_nodup hq hp heq]

theorem findProcess_eq_none {k : KernelTable} {pid : DWORD} :
    (k.findProcess pid).isSome = false ↔ pid ∉ k.listed.map k.pid := by
  rw [Option.isSome_eq_false_iff, Option.isNone_iff_eq_none, findProcess, List.find?_eq_none]
  simp

/-- The list and the pids on it decide whether a table is sound. -/
theorem Sound.congr {k k' : KernelTable} (h : k.Sound)
    (hlinked : ∃ cells, k'.processes.Represents cells) (hlisted : k'.listed = k.listed)
    (hfresh : k.fresh ≤ k'.fresh) (hpid : ∀ p ∈ k.listed, k'.pid p = k.pid p)
    (hinit : (k'.object init).parentPid = 0#32) (hlast : k'.lastPID.toNat ≤ 0x10000) :
    k'.Sound where
  linked := hlinked
  nodup := hlisted ▸ h.nodup
  lt_fresh := fun p hp ↦ lt_of_lt_of_le (h.lt_fresh p (hlisted ▸ hp)) hfresh
  pids_nodup := by
    rw [hlisted, List.map_congr_left hpid]
    exact h.pids_nodup
  pid_range := by
    intro p hp
    rw [hlisted] at hp
    rw [hpid p hp]
    exact h.pid_range p hp
  init_mem := hlisted ▸ h.init_mem
  init_pid := (hpid init h.init_mem).trans h.init_pid
  init_parent := hinit
  lastPID_le := hlast

/-! ## Forks -/

theorem toNat_succ {n : DWORD} (h : n.toNat ≤ 0x10000) : (n + 1#32).toNat = n.toNat + 1 := by
  rw [BitVec.toNat_add]
  apply Nat.mod_eq_of_lt
  have h1 : (1#32).toNat = 1 := rfl
  omega

theorem succ_ne_zero {n : DWORD} (h : n.toNat ≤ 0x10000) : n + 1#32 ≠ 0#32 := by
  intro h0
  have hsucc := toNat_succ h
  rw [h0] at hsucc
  simp at hsucc

/-- One turn of the allocation moves on to a pid in range. -/
theorem wrapped_range {n : DWORD} (h : n.toNat ≤ 0x10000) :
    1 ≤ (if 0xFFFF < (n + 1#32).toInt then 2#32 else n + 1#32).toNat ∧
      (if 0xFFFF < (n + 1#32).toInt then 2#32 else n + 1#32).toNat ≤ 0xFFFF := by
  have hsucc := toNat_succ h
  have hint : (n + 1#32).toInt = (n + 1#32).toNat := BitVec.toInt_eq_toNat_of_lt (by omega)
  split
  · exact ⟨by decide, by decide⟩
  · next hle => omega

/-- What an allocation yields: a counter that never runs away, and a free pid in range. -/
def Allocated (inUse : DWORD → Bool) (r : Option DWORD × DWORD) : Prop :=
  r.2.toNat ≤ 0x10000 ∧
    ∀ pid, r.1 = some pid → inUse pid = false ∧ 1 ≤ pid.toNat ∧ pid.toNat ≤ 0xFFFF

/-- One turn, when the rest of the loop does its part. -/
theorem allocated_succ {inUse : DWORD → Bool} {turns : Nat}
    (ih : ∀ n : DWORD, n.toNat ≤ 0xFFFF → Allocated inUse (allocatePid inUse turns n))
    {lastPID : DWORD} (h : lastPID.toNat ≤ 0x10000) :
    Allocated inUse (allocatePid inUse (turns + 1) lastPID) := by
  have hrange := wrapped_range h
  rw [allocatePid, if_neg (succ_ne_zero h)]
  generalize (if 0xFFFF < (lastPID + 1#32).toInt then 2#32 else lastPID + 1#32) = n at hrange
  by_cases huse : inUse n
  · rw [if_pos huse]
    exact ih n hrange.2
  · rw [if_neg huse]
    refine ⟨le_trans hrange.2 (by decide), ?_⟩
    rintro pid ⟨⟩
    exact ⟨by simpa using huse, hrange⟩

theorem allocated_allocatePid (inUse : DWORD → Bool) (turns : Nat) {lastPID : DWORD}
    (h : lastPID.toNat ≤ 0x10000) : Allocated inUse (allocatePid inUse (turns + 1) lastPID) := by
  apply allocated_succ _ h
  induction turns with
  | zero =>
    intro n hn
    rw [allocatePid, if_neg (succ_ne_zero (by omega))]
    have hsucc : (n + 1#32).toNat = n.toNat + 1 := toNat_succ (by omega)
    have hle : (n + 1#32).toNat ≤ 0x10000 := by omega
    exact ⟨hle, fun pid hpid ↦ absurd hpid (by simp)⟩
  | succ turns ih => exact fun n hn ↦ allocated_succ ih (by omega)

/-- What a fork leaves behind: the old processes as they were, and at most one new one, with a
pid of its own. -/
structure Forked (k : KernelTable) (r : Option Nat) (k' : KernelTable) : Prop where
  sound : k'.Sound
  object_eq : ∀ p ∈ k.listed, k'.object p = k.object p
  listed_none : r = none → k'.listed = k.listed
  listed_some : ∀ child, r = some child →
    k'.listed = k.listed ++ [child] ∧ k'.pid child ∉ k.listed.map k.pid

/-- A table that lists what `k` lists, its objects untouched: what a failed fork leaves. -/
theorem forked_none {k k' : KernelTable} (h : k.Sound)
    (hlinked : ∃ cells, k'.processes.Represents cells) (hlisted : k'.listed = k.listed)
    (hfresh : k.fresh ≤ k'.fresh) (hobject : ∀ p ∈ k.listed, k'.object p = k.object p)
    (hlast : k'.lastPID.toNat ≤ 0x10000) : Forked k none k' where
  sound := by
    apply h.congr hlinked hlisted hfresh _ _ hlast
    · intro p hp
      rw [pid, hobject p hp, pid]
    · rw [hobject init h.init_mem, h.init_parent]
  object_eq := hobject
  listed_none := fun _ ↦ hlisted
  listed_some := fun _ hchild ↦ absurd hchild (by simp)

/-- The new process of a fork stands at the end of the list. -/
structure Registered (k k' : KernelTable) (pid parentPid : DWORD) : Prop where
  linked : ∃ cells, k'.processes.Represents cells
  listed_eq : k'.listed = k.listed ++ [k.fresh]
  fresh_eq : k'.fresh = k.fresh + 1
  object_eq : ∀ p ∈ k.listed, k'.object p = k.object p
  lastPID_le : k'.lastPID.toNat ≤ 0x10000
  pid_eq : k'.pid k.fresh = pid
  parent_eq : (k'.object k.fresh).parentPid = parentPid

theorem fresh_not_mem {k : KernelTable} (h : k.Sound) : k.fresh ∉ k.listed :=
  fun hmem ↦ Nat.lt_irrefl _ (h.lt_fresh _ hmem)

theorem ne_fresh {k : KernelTable} (h : k.Sound) {p : Nat} (hp : p ∈ k.listed) : p ≠ k.fresh :=
  fun he ↦ fresh_not_mem h (he ▸ hp)

theorem object_beginFork {k : KernelTable} (h : k.Sound) (lastPID : DWORD) :
    ∀ p ∈ k.listed, (k.beginFork lastPID).object p = k.object p :=
  fun _ hp ↦ if_neg (ne_fresh h hp)

theorem registered {k : KernelTable} (h : k.Sound) {lastPID : DWORD}
    (hlast : lastPID.toNat ≤ 0x10000) (pid parentPid : DWORD) :
    Registered k ((k.beginFork lastPID).register k.fresh pid parentPid) pid parentPid := by
  obtain ⟨cells, hcells⟩ := h.linked
  have hpush := LinkedList.represents_pushBack hcells k.fresh
  refine ⟨⟨_, hpush⟩, ?_, rfl, ?_, hlast, ?_, ?_⟩
  · rw [listed_eq hpush, listed_eq hcells, List.map_append]
    rfl
  · intro p hp
    have hne := ne_fresh h hp
    simp [register, update, beginFork, newProcess, hne]
  · simp [KernelTable.pid, register, update]
  · simp [register, update]

/-- Changes to the new process that keep its pids do not matter. -/
theorem Registered.update {k k' : KernelTable} {pid parentPid : DWORD} (h : k.Sound)
    (hr : Registered k k' pid parentPid) {f : Process → Process}
    (hf : ∀ p, (f p).pid = p.pid ∧ (f p).parentPid = p.parentPid) :
    Registered k (k'.update k.fresh f) pid parentPid where
  linked := hr.linked
  listed_eq := hr.listed_eq
  fresh_eq := hr.fresh_eq
  object_eq := fun p hp ↦ (if_neg (ne_fresh h hp)).trans (hr.object_eq p hp)
  lastPID_le := hr.lastPID_le
  pid_eq := by
    rw [← hr.pid_eq]
    simp [KernelTable.pid, KernelTable.update, hf]
  parent_eq := by
    rw [← hr.parent_eq]
    simp [KernelTable.update, hf]

/-- The destructor undoes the registration. -/
theorem Registered.safe_deleteProcess {k k' : KernelTable} {pid parentPid : DWORD} (h : k.Sound)
    (hr : Registered k k' pid parentPid) :
    Comp.Safe (deleteProcess k.fresh) k' (fun _ ↦ Forked k none) fun _ ↦ False := by
  apply KernelTable.safe_deleteProcess hr.linked
  intro l hl hlisted
  refine forked_none h hl ?_ ?_ hr.object_eq hr.lastPID_le
  · rw [listed, hlisted, hr.listed_eq, List.erase_append_right _ (fresh_not_mem h),
      List.erase_cons_head, List.append_nil]
  · show k.fresh ≤ k'.fresh
    rw [hr.fresh_eq]
    exact Nat.le_succ _

/-- A process registered with a free pid in range makes a fork. -/
theorem Registered.forked {k k' : KernelTable} {pid parentPid : DWORD} (h : k.Sound)
    (hr : Registered k k' pid parentPid) (hfree : pid ∉ k.listed.map k.pid)
    (hrange : 1 ≤ pid.toNat ∧ pid.toNat ≤ 0xFFFF) : Forked k (some k.fresh) k' := by
  have hpid : ∀ p ∈ k.listed, k'.pid p = k.pid p := by
    intro p hp
    rw [KernelTable.pid, hr.object_eq p hp, KernelTable.pid]
  have hpids : k'.listed.map k'.pid = k.listed.map k.pid ++ [pid] := by
    rw [hr.listed_eq, List.map_append, List.map_congr_left hpid, List.map_singleton, hr.pid_eq]
  have hmem : ∀ p, p ∈ k'.listed ↔ p ∈ k.listed ∨ p = k.fresh := by
    intro p
    rw [hr.listed_eq, List.mem_append, List.mem_singleton]
  refine ⟨⟨hr.linked, ?_, ?_, ?_, ?_, ?_, ?_, ?_, hr.lastPID_le⟩, hr.object_eq,
    fun hnone ↦ absurd hnone (by simp), ?_⟩
  · rw [hr.listed_eq]
    exact List.nodup_append.mpr ⟨h.nodup, List.nodup_singleton _, fun a ha b hb ↦
      (List.mem_singleton.mp hb) ▸ ne_fresh h ha⟩
  · intro p hp
    rw [hr.fresh_eq]
    rcases (hmem p).mp hp with hp | rfl
    · exact Nat.lt_succ_of_lt (h.lt_fresh p hp)
    · exact Nat.lt_succ_self _
  · rw [hpids]
    refine List.nodup_append.mpr ⟨h.pids_nodup, List.nodup_singleton _, ?_⟩
    rintro a ha b hb rfl
    exact hfree (List.mem_singleton.mp hb ▸ ha)
  · intro p hp
    rcases (hmem p).mp hp with hp | rfl
    · rw [hpid p hp]
      exact h.pid_range p hp
    · rw [hr.pid_eq]
      exact hrange
  · exact (hmem init).mpr (.inl h.init_mem)
  · rw [hpid init h.init_mem, h.init_pid]
  · rw [hr.object_eq init h.init_mem, h.init_parent]
  · rintro child ⟨⟩
    refine ⟨hr.listed_eq, ?_⟩
    rw [hr.pid_eq]
    exact hfree

/-- The child finds its parent in the table. -/
theorem Registered.findProcess {k k' : KernelTable} {pid parentPid : DWORD}
    (hr : Registered k k' pid parentPid) (h' : k'.Sound) {P : Nat} (hP : P ∈ k.listed) :
    k'.findProcess (k.pid P) = some P := by
  apply (findProcess_eq_some h').mpr
  constructor
  · rw [hr.listed_eq]
    exact List.mem_append_left _ hP
  · exact congrArg Process.pid (hr.object_eq P hP)

/-- `StartFork` always returns. -/
theorem safe_startFork {k : KernelTable} (h : k.Sound) {P : Nat} (hP : P ∈ k.listed)
    (outcome : ForkOutcome) :
    Comp.Safe (startFork P outcome) k (Forked k) fun _ ↦ False := by
  have halloc := allocated_allocatePid (fun pid ↦ (k.findProcess pid).isSome) 9999 h.lastPID_le
  unfold startFork
  simp only [Comp.safe_bind, Comp.safe_get]
  generalize allocatePid (fun pid ↦ (k.findProcess pid).isSome) 10000 k.lastPID = r at halloc
  obtain ⟨pid, lastPID⟩ := r
  cases pid with
  | none =>
    simp only [Comp.safe_bind, Comp.safe_pure, Comp.safe_modify]
    have hlinked : ∃ cells, (k.beginFork lastPID).processes.Represents cells := h.linked
    apply KernelTable.safe_deleteProcess hlinked
    intro l hl hlisted
    refine forked_none h hl ?_ (Nat.le_succ _) (object_beginFork h lastPID) halloc.1
    rw [listed, hlisted]
    exact List.erase_of_not_mem (fresh_not_mem h)
  | some pid =>
    obtain ⟨hfree, hrange⟩ := halloc.2 pid rfl
    have hr := registered h halloc.1 pid (k.pid P)
    have hpid : (k.beginFork lastPID).pid P = k.pid P :=
      congrArg Process.pid (object_beginFork h lastPID P hP)
    simp only [Comp.safe_bind, Comp.safe_modify, hpid]
    have hforked := hr.forked h (findProcess_eq_none.mp hfree) hrange
    cases outcome with
    | noThread =>
      simp only [Comp.safe_bind, Comp.safe_pure]
      exact hr.safe_deleteProcess h
    | noProcess =>
      simp only [Comp.safe_bind, Comp.safe_modify, Comp.safe_pure]
      apply Registered.safe_deleteProcess h (Registered.update h hr _)
      exact fun p ↦ ⟨rfl, rfl⟩
    | started openFiles =>
      simp only [Comp.safe_bind, Comp.safe_get, hr.parent_eq, hr.findProcess hforked.sound hP,
        Comp.safe_modify, Comp.safe_pure]
      apply Registered.forked h (Registered.update h hr _) (findProcess_eq_none.mp hfree) hrange
      exact fun p ↦ ⟨rfl, rfl⟩

/-! ## Exits -/

/-- A change of objects that keeps the list, the pids and the pid counter, and leaves init
nobody's child. -/
structure Quiet (k k' : KernelTable) : Prop where
  processes_eq : k'.processes = k.processes
  fresh_eq : k'.fresh = k.fresh
  lastPID_eq : k'.lastPID = k.lastPID
  pid_eq : ∀ p, k'.pid p = k.pid p
  init_parent : (k.object init).parentPid = 0#32 → (k'.object init).parentPid = 0#32

theorem quiet_refl (k : KernelTable) : Quiet k k := ⟨rfl, rfl, rfl, fun _ ↦ rfl, id⟩

theorem Quiet.trans {k₁ k₂ k₃ : KernelTable} (h : Quiet k₁ k₂) (h' : Quiet k₂ k₃) :
    Quiet k₁ k₃ where
  processes_eq := h'.processes_eq.trans h.processes_eq
  fresh_eq := h'.fresh_eq.trans h.fresh_eq
  lastPID_eq := h'.lastPID_eq.trans h.lastPID_eq
  pid_eq := fun p ↦ (h'.pid_eq p).trans (h.pid_eq p)
  init_parent := fun hinit ↦ h'.init_parent (h.init_parent hinit)

theorem Quiet.listed_eq {k k' : KernelTable} (h : Quiet k k') : k'.listed = k.listed := by
  rw [listed, h.processes_eq, listed]

theorem Quiet.sound {k k' : KernelTable} (hq : Quiet k k') (h : k.Sound) : k'.Sound := by
  apply h.congr _ hq.listed_eq (le_of_eq hq.fresh_eq.symm) (fun p _ ↦ hq.pid_eq p)
  · exact hq.init_parent h.init_parent
  · rw [hq.lastPID_eq]
    exact h.lastPID_le
  · rw [hq.processes_eq]
    exact h.linked

theorem quiet_update {f : Process → Process} (k : KernelTable) (p : Nat)
    (hpid : ∀ q, (f q).pid = q.pid)
    (hinit : ∀ q, q.parentPid = 0#32 → (f q).parentPid = 0#32) : Quiet k (k.update p f) where
  processes_eq := rfl
  fresh_eq := rfl
  lastPID_eq := rfl
  pid_eq := by
    intro q
    rw [pid, update]
    dsimp only
    split
    · exact hpid _
    · rfl
  init_parent := by
    intro h
    rw [update]
    dsimp only
    split
    · exact hinit _ h
    · exact h

/-- Handing children to init leaves init itself alone. -/
theorem adopt_parentPid {pid : DWORD} (hpid : pid ≠ 0#32) {q : Process}
    (h : q.parentPid = 0#32) : (adopt pid q).parentPid = 0#32 := by
  rw [adopt]
  dsimp only
  rw [h, if_neg hpid.symm]

theorem quiet_event (k : KernelTable) (e : ProcessEvent) : Quiet k (k.event e) := by
  cases e with
  | exitProcess p exitCode =>
    rw [event]
    apply quiet_update k p
    · exact fun _ ↦ rfl
    · exact fun _ h ↦ h
  | releaseChildren p =>
    rw [event]
    split
    · exact quiet_refl k
    · next hp =>
      have hfold : ∀ (ps : List Nat) (k' : KernelTable), Quiet k k' →
          Quiet k (ps.foldl (fun k' p2 ↦ k'.update p2 (adopt (k'.pid p))) k') := by
        intro ps
        induction ps with
        | nil => exact fun _ h ↦ h
        | cons p2 ps ih =>
          intro k' hk'
          apply ih
          apply hk'.trans
          have hpid : k'.pid p ≠ 0#32 := by rwa [hk'.pid_eq]
          exact quiet_update k' p2 (fun _ ↦ rfl) fun _ h ↦ adopt_parentPid hpid h
      exact hfold k.listed k (quiet_refl k)

theorem quiet_events (events : List ProcessEvent) (k : KernelTable) :
    Quiet k (events.foldl event k) := by
  induction events generalizing k with
  | nil => exact quiet_refl k
  | cons e events ih => exact (quiet_event k e).trans (ih (k.event e))

/-! ## Waits -/

/-- `p` is a registered child of `P`. -/
def ChildOf (k : KernelTable) (P p : Nat) : Prop :=
  p ∈ k.listed ∧ (k.object p).parentPid = k.pid P

/-- The selected pids are those of children, and the one at which the selection stops has
exited. -/
theorem selectChildren_spec (k : KernelTable) (P : Nat) (waitPid : DWORD) {ps : List Nat}
    (hps : ∀ p ∈ ps, p ∈ k.listed) :
    (∀ pid ∈ (k.selectChildren P waitPid ps).1, ∃ p, k.ChildOf P p ∧ k.pid p = pid) ∧
      ∀ pid, (k.selectChildren P waitPid ps).2 = some pid →
        ∃ p, k.ChildOf P p ∧ k.pid p = pid ∧ (k.object p).stillRunning = false := by
  induction ps with
  | nil => simp [selectChildren]
  | cons p ps ih =>
    have ih := ih fun q hq ↦ hps q (List.mem_cons_of_mem _ hq)
    rw [selectChildren]
    dsimp only
    by_cases hparent : (k.object p).parentPid = k.pid P
    · have hchild : k.ChildOf P p := ⟨hps p List.mem_cons_self, hparent⟩
      rw [if_neg (not_not.mpr hparent)]
      split
      · split
        · refine ⟨?_, ih.2⟩
          intro pid hpid
          rcases List.mem_cons.mp hpid with rfl | hpid
          · exact ⟨p, hchild, rfl⟩
          · exact ih.1 pid hpid
        · next hexited =>
          have hexited : (k.object p).stillRunning = false := by simpa using hexited
          constructor
          · intro pid hpid
            exact ⟨p, hchild, (List.mem_singleton.mp hpid).symm⟩
          · rintro pid ⟨⟩
            exact ⟨p, hchild, rfl, hexited⟩
      · exact ih
    · rw [if_pos hparent]
      exact ih

/-- A verdict of the waiting loop: an error number, or the pid of a child waited for, which has
exited unless it is reported as stopped. -/
def Verdict (pids : List DWORD) (k : KernelTable) (r : DWORD × Bool) : Prop :=
  r.1.toInt ≤ 0 ∨ r.1 ∈ pids ∧
    (r.2 = false → ∀ p, k.findProcess r.1 = some p → (k.object p).stillRunning = false)

/-- The pids waited for are in the table. -/
def Present (k : KernelTable) (pids : List DWORD) : Prop :=
  ∀ pid ∈ pids, ∃ p, k.findProcess pid = some p

theorem Quiet.present {k k' : KernelTable} (hq : Quiet k k') (h : k.Sound) {pids : List DWORD}
    (hpids : k.Present pids) : k'.Present pids := by
  intro pid hpid
  obtain ⟨p, hp⟩ := hpids pid hpid
  obtain ⟨hmem, rfl⟩ := (findProcess_eq_some h).mp hp
  exact ⟨p, (findProcess_eq_some (hq.sound h)).mpr ⟨hq.listed_eq ▸ hmem, hq.pid_eq p⟩⟩

theorem safe_wakeupResult {k : KernelTable} {pids : List DWORD} (hpids : k.Present pids)
    (w : Wakeup) {W : KernelTable → Prop} :
    Comp.Safe (wakeupResult pids w) k
      (fun r k' ↦ k' = k ∧ ∀ result, r = some result → Verdict pids k (result, false)) W := by
  cases w with
  | failed =>
    refine ⟨rfl, ?_⟩
    rintro result ⟨⟩
    exact .inl (by decide)
  | timeout => exact ⟨rfl, fun _ h ↦ absurd h (by simp)⟩
  | object i =>
    rw [wakeupResult]
    split
    · refine ⟨rfl, ?_⟩
      rintro result ⟨⟩
      exact .inl (by decide)
    · cases hi : pids[i]? with
      | none => exact ⟨rfl, fun _ h ↦ absurd h (by simp)⟩
      | some pid =>
        have hmem : pid ∈ pids := List.mem_of_getElem? hi
        obtain ⟨child, hchild⟩ := hpids pid hmem
        simp only [Comp.safe_bind, Comp.safe_get, hchild, Comp.safe_pure, true_and]
        intro result hresult
        split at hresult
        · cases hresult
        · next hexited =>
          cases hresult
          refine .inr ⟨hmem, fun _ p hp ↦ ?_⟩
          rw [hchild] at hp
          cases hp
          simpa using hexited

theorem safe_firstStopped {k : KernelTable} (P : Nat) (options : DWORD) (suspended : Nat → Bool)
    {pids : List DWORD} (hpids : k.Present pids) {W : KernelTable → Prop} :
    Comp.Safe (firstStopped P options suspended pids) k
      (fun r k' ↦ k' = k ∧ ∀ pid, r = some pid → pid ∈ pids) W := by
  induction pids with
  | nil => exact ⟨rfl, fun _ h ↦ absurd h (by simp)⟩
  | cons pid pids ih =>
    obtain ⟨p, hp⟩ := hpids pid List.mem_cons_self
    simp only [firstStopped, Comp.safe_bind, Comp.safe_get, hp]
    split
    · refine ⟨rfl, ?_⟩
      rintro _ ⟨⟩
      exact List.mem_cons_self
    · apply Comp.safe_mono (ih fun q hq ↦ hpids q (List.mem_cons_of_mem _ hq))
      · exact fun r k' h ↦ ⟨h.1, fun q hq ↦ List.mem_cons_of_mem _ (h.2 q hq)⟩
      · exact fun _ h ↦ h

theorem safe_waitLoop {k : KernelTable} (h : k.Sound) (P : Nat) (options : DWORD)
    {pids : List DWORD} (hpids : k.Present pids) (turns : List WaitTurn) :
    Comp.Safe (waitLoop P options pids turns) k
      (fun r k' ↦ Quiet k k' ∧ Verdict pids k' r) (Quiet k) := by
  induction turns generalizing k with
  | nil => exact quiet_refl k
  | cons t ts ih =>
    have hq := quiet_events t.events k
    have hpids' := hq.present h hpids
    simp only [waitLoop, Comp.safe_bind, Comp.safe_modify]
    apply Comp.safe_mono (safe_wakeupResult hpids' t.wakeup) _ fun _ h ↦ h
    rintro r k' ⟨rfl, hr⟩
    cases r with
    | some result => exact ⟨hq, hr result rfl⟩
    | none =>
      dsimp only
      split
      · exact ⟨hq, .inl (by decide)⟩
      · simp only [Comp.safe_bind]
        apply Comp.safe_mono (safe_firstStopped P options t.suspended hpids') _ fun _ h ↦ h
        rintro r k' ⟨rfl, hr⟩
        cases r with
        | some pid => exact ⟨hq, .inr ⟨hr pid rfl, fun h ↦ absurd h (by simp)⟩⟩
        | none =>
          apply Comp.safe_mono (ih (hq.sound h) hpids')
          · exact fun r k' h' ↦ ⟨hq.trans h'.1, h'.2⟩
          · exact fun k' h' ↦ hq.trans h'

/-- What a wait leaves behind: the same list, or one without a child that had exited and whose
pid is the result. -/
inductive Waited (k : KernelTable) (result : DWORD) : KernelTable → Prop where
  | kept {k' : KernelTable} (quiet : Quiet k k') : Waited k result k'
  | reaped {k₁ : KernelTable} {p : Nat} {l : LinkedList Nat} (quiet : Quiet k k₁)
      (child : p ∈ k.listed) (ne_init : p ≠ init) (pid_eq : k.pid p = result)
      (exited : (k₁.object p).stillRunning = false) (linked : ∃ cells, l.Represents cells)
      (toList_eq : l.toList = k.listed.erase p) : Waited k result { k₁ with processes := l }

theorem Waited.sound {k k' : KernelTable} {result : DWORD} (h : k.Sound)
    (hw : Waited k result k') : k'.Sound := by
  cases hw with
  | kept hq => exact hq.sound h
  | @reaped k₁ p l hq hp hinit _ _ hlinked hlist =>
    have h₁ := hq.sound h
    have hsub : ∀ q ∈ l.toList, q ∈ k₁.listed := by
      intro q hmem
      rw [hlist] at hmem
      rw [hq.listed_eq]
      exact List.mem_of_mem_erase hmem
    refine ⟨hlinked, ?_, fun q hmem ↦ h₁.lt_fresh q (hsub q hmem), ?_,
      fun q hmem ↦ h₁.pid_range q (hsub q hmem), ?_, h₁.init_pid, h₁.init_parent, h₁.lastPID_le⟩
    · rw [listed, hlist]
      exact h.nodup.erase p
    · have hsublist : l.toList.Sublist k₁.listed := by
        rw [hlist, hq.listed_eq]
        exact List.erase_sublist
      exact h₁.pids_nodup.sublist (hsublist.map _)
    · rw [listed, hlist]
      exact (List.mem_erase_of_ne (Ne.symm hinit)).mpr h.init_mem

/-- A child of a registered process is not init. -/
theorem ChildOf.ne_init {k : KernelTable} (h : k.Sound) {P p : Nat} (hP : P ∈ k.listed)
    (hc : k.ChildOf P p) : p ≠ init := by
  rintro rfl
  have hparent := hc.2
  rw [h.init_parent] at hparent
  have hrange := (h.pid_range P hP).1
  rw [← hparent] at hrange
  simp at hrange

/-- What the first part of `wait4` decides: no child, or a child other than init, which has
exited unless it is reported as stopped. -/
def Decided (k : KernelTable) (r : DWORD × Bool) (k' : KernelTable) : Prop :=
  Quiet k k' ∧ (r.1.toInt ≤ 0 ∨
    ∃ p ∈ k.listed, p ≠ init ∧ k.pid p = r.1 ∧
      (r.2 = false → (k'.object p).stillRunning = false))

theorem decided_of_verdict {k k' : KernelTable} (h : k.Sound) {P : Nat} (hP : P ∈ k.listed)
    {pids : List DWORD} (hchildren : ∀ pid ∈ pids, ∃ p, k.ChildOf P p ∧ k.pid p = pid)
    {r : DWORD × Bool} (hq : Quiet k k') (hv : Verdict pids k' r) : Decided k r k' := by
  refine ⟨hq, hv.imp_right ?_⟩
  rintro ⟨hmem, hexited⟩
  obtain ⟨p, hp, hpid⟩ := hchildren r.1 hmem
  refine ⟨p, hp.1, hp.ne_init h hP, hpid, fun hr ↦ hexited hr p ?_⟩
  exact (findProcess_eq_some (hq.sound h)).mpr ⟨hq.listed_eq ▸ hp.1, (hq.pid_eq p).trans hpid⟩

theorem safe_waitForChild {k : KernelTable} (h : k.Sound) {P : Nat} (hP : P ∈ k.listed)
    (waitPid options : DWORD) (turns : List WaitTurn) :
    Comp.Safe (waitForChild P waitPid options turns) k (Decided k) (Quiet k) := by
  obtain ⟨hchildren, hexited⟩ := selectChildren_spec k P waitPid fun p (hp : p ∈ k.listed) ↦ hp
  simp only [waitForChild, Comp.safe_bind, Comp.safe_get]
  generalize k.selectChildren P waitPid k.listed = selected at hchildren hexited
  have hpresent : k.Present selected.1 := by
    intro pid hpid
    obtain ⟨p, hp, rfl⟩ := hchildren pid hpid
    exact ⟨p, (findProcess_eq_some h).mpr ⟨hp.1, rfl⟩⟩
  split
  · exact ⟨quiet_refl k, .inl (by decide)⟩
  · next pids pid _ =>
    obtain ⟨p, hp, hpid, hstopped⟩ := hexited pid rfl
    exact ⟨quiet_refl k, .inr ⟨p, hp.1, hp.ne_init h hP, hpid, fun _ ↦ hstopped⟩⟩
  · apply Comp.safe_mono (safe_waitLoop h P options hpresent turns) _ fun _ hk' ↦ hk'
    exact fun r k' hr ↦ decided_of_verdict h hP hchildren hr.1 hr.2

/-- `sys_wait4` returns or waits for ever. -/
theorem safe_sysWait4 {k : KernelTable} (h : k.Sound) {P : Nat} (hP : P ∈ k.listed)
    (waitPid options : DWORD) (turns : List WaitTurn) :
    Comp.Safe (sysWait4 P waitPid options turns) k (Waited k) (Quiet k) := by
  simp only [sysWait4, Comp.safe_bind]
  apply Comp.safe_mono (safe_waitForChild h hP waitPid options turns) _ fun _ hk' ↦ hk'
  rintro ⟨result, oneStopped⟩ k' ⟨hq, hr⟩
  dsimp only
  split
  · next hpos =>
    obtain hle | ⟨p, hp, hinit, hpid, hstopped⟩ := hr
    · exact absurd hpos (Int.not_lt.mpr hle)
    · have h' := hq.sound h
      have hfind : k'.findProcess result = some p :=
        (findProcess_eq_some h').mpr ⟨hq.listed_eq ▸ hp, (hq.pid_eq p).trans hpid⟩
      simp only [Comp.safe_bind, Comp.safe_get, hfind]
      cases oneStopped with
      | true => exact .kept hq
      | false =>
        simp only [Bool.false_eq_true, if_false, Comp.safe_bind, Comp.safe_pure]
        apply safe_deleteProcess h'.linked
        intro l hl hlist
        rw [hq.listed_eq] at hlist
        exact .reaped hq hp hinit hpid (hstopped rfl) hl hlist
  · exact .kept hq

/-! ## Runs -/

theorem sound_startInit : startInit.Sound := by
  have hlinked : startInit.processes.Represents [(0, init)] :=
    LinkedList.represents_pushBack LinkedList.represents_empty init
  have hlisted : startInit.listed = [init] := listed_eq hlinked
  refine ⟨⟨_, hlinked⟩, ?_, ?_, ?_, ?_, ?_, rfl, rfl, by decide⟩ <;> rw [hlisted]
  · exact List.nodup_singleton _
  · intro p hp
    rw [List.mem_singleton.mp hp]
    exact Nat.zero_lt_one
  · exact List.nodup_singleton _
  · intro p hp
    rw [List.mem_singleton.mp hp]
    exact ⟨by decide, by decide⟩
  · exact List.mem_singleton_self _

/-- What one call can do: change nothing but objects, fork, or return from a wait. -/
inductive Stepped (k : KernelTable) (c : Call) (k' : KernelTable) : Prop where
  | quiet (h : Quiet k k')
  | forked (r : Option Nat) (h : Forked k r k')
  | waited (P : Nat) (waitPid options result : DWORD) (turns : List WaitTurn)
      (call : c = .wait4 P waitPid options turns)
      (returned : sysWait4 P waitPid options turns k = .ok result k') (h : Waited k result k')

theorem stepped {k : KernelTable} (h : k.Sound) (c : Call) : Stepped k c (k.step c) := by
  cases c with
  | startFork P outcome =>
    rw [step]
    split
    · next hP =>
      obtain ⟨r, k', hrun, hforked⟩ := Comp.exists_ok_of_safe (safe_startFork h hP outcome)
      rw [hrun]
      exact .forked r hforked
    · exact .quiet (quiet_refl k)
  | wait4 P waitPid options turns =>
    rw [step]
    split
    · next hP =>
      have hsafe := safe_sysWait4 h hP waitPid options turns
      unfold Comp.Safe at hsafe
      cases hrun : sysWait4 P waitPid options turns k with
      | ok result k' =>
        rw [hrun] at hsafe
        exact .waited P waitPid options result turns rfl hrun hsafe
      | exit k' =>
        rw [hrun] at hsafe
        exact .quiet hsafe
      | wait k' =>
        rw [hrun] at hsafe
        exact .quiet hsafe
      | fault k' => exact absurd hsafe (by simp [hrun])
    · exact .quiet (quiet_refl k)
  | event e => exact .quiet (quiet_event k e)

theorem sound_step {k : KernelTable} (h : k.Sound) (c : Call) : (k.step c).Sound := by
  cases stepped h c with
  | quiet hq => exact hq.sound h
  | forked r hf => exact hf.sound
  | waited _ _ _ _ _ _ _ hw => exact hw.sound h

/-- `p` is still registered under its pid, or the call was a `wait4` that has reaped it: it
returned the pid of `p`, which had exited. -/
def KeptOrReaped (k : KernelTable) (c : Call) (p : Nat) : Prop :=
  (p ∈ (k.step c).listed ∧ (k.step c).pid p = k.pid p) ∨
    ∃ P waitPid options turns, c = .wait4 P waitPid options turns ∧
      sysWait4 P waitPid options turns k = .ok (k.pid p) (k.step c) ∧
      ((k.step c).object p).stillRunning = false

theorem keptOrReaped_of_waited {k k' : KernelTable} {result : DWORD} (hw : Waited k result k')
    {p : Nat} (hp : p ∈ k.listed) :
    (p ∈ k'.listed ∧ k'.pid p = k.pid p) ∨
      (k.pid p = result ∧ (k'.object p).stillRunning = false) := by
  cases hw with
  | kept hq => exact .inl ⟨hq.listed_eq ▸ hp, hq.pid_eq p⟩
  | @reaped k₁ q l hq _ _ hpid hexited _ hlist =>
    by_cases hpq : p = q
    · subst hpq
      exact .inr ⟨hpid, hexited⟩
    · refine .inl ⟨?_, hq.pid_eq p⟩
      show p ∈ l.toList
      rw [hlist]
      exact (List.mem_erase_of_ne hpq).mpr hp

theorem keptOrReaped {k : KernelTable} (h : k.Sound) {p : Nat} (hp : p ∈ k.listed) (c : Call) :
    KeptOrReaped k c p := by
  cases stepped h c with
  | quiet hq => exact .inl ⟨hq.listed_eq ▸ hp, hq.pid_eq p⟩
  | forked r hf =>
    refine .inl ⟨?_, congrArg Process.pid (hf.object_eq p hp)⟩
    cases r with
    | none =>
      rw [hf.listed_none rfl]
      exact hp
    | some child =>
      rw [(hf.listed_some child rfl).1]
      exact List.mem_append_left _ hp
  | waited P waitPid options result turns hcall hreturned hw =>
    rcases keptOrReaped_of_waited hw hp with hkept | ⟨rfl, hexited⟩
    · exact .inl hkept
    · exact .inr ⟨P, waitPid, options, turns, hcall, hreturned, hexited⟩

theorem Sound.pid_eq_one {k : KernelTable} (h : k.Sound) {p : Nat} (hp : p ∈ k.listed) :
    k.pid p = 1#32 ↔ p = init := by
  constructor
  · intro hpid
    exact List.inj_on_of_nodup_map h.pids_nodup hp h.init_mem (hpid.trans h.init_pid.symm)
  · rintro rfl
    exact h.init_pid

/-- In every table that forks, waits and exits lead to from init alone, the pids are distinct,
in 1..65535, and 1 only for init; a fork yields a pid not in use, or `NULL` and the table as it
was; and a process keeps its pid until a `wait4` reaps it, after its exit. -/
theorem trail_pids (calls : List Call) : ∀ k ∈ trail step startInit calls,
    (k.listed.map k.pid).Nodup ∧
      (∀ p ∈ k.listed, 1 ≤ (k.pid p).toNat ∧ (k.pid p).toNat ≤ 65535 ∧
        (k.pid p = 1#32 ↔ p = init)) ∧
      (∀ P ∈ k.listed, ∀ outcome, ∃ r k', startFork P outcome k = .ok r k' ∧
        (∀ p ∈ k.listed, k'.object p = k.object p) ∧ (r = none → k'.listed = k.listed) ∧
        ∀ child, r = some child →
          k'.listed = k.listed ++ [child] ∧ k'.pid child ∉ k.listed.map k.pid) ∧
      ∀ p ∈ k.listed, ∀ c, KeptOrReaped k c p := by
  intro k hk
  have h : k.Sound := @trail_invariant _ _ step Sound (fun _ ↦ True)
    (fun k c h _ ↦ sound_step h c) startInit sound_startInit calls (fun _ _ ↦ trivial) k hk
  refine ⟨h.pids_nodup, ?_, ?_, fun p hp c ↦ keptOrReaped h hp c⟩
  · intro p hp
    exact ⟨(h.pid_range p hp).1, (h.pid_range p hp).2, h.pid_eq_one hp⟩
  · intro P hP outcome
    obtain ⟨r, k', hrun, hf⟩ := Comp.exists_ok_of_safe (safe_startFork h hP outcome)
    exact ⟨r, k', hrun, hf.object_eq, hf.listed_none, hf.listed_some⟩

/-- Init forks, and the child exits. -/
def forkAndExit : List Call :=
  [.startFork init (.started fun _ ↦ none), .event (.exitProcess 1 0#32)]

/-- Init with a child of pid 2 that has exited. -/
def exitedChild : KernelTable := forkAndExit.foldl step startInit

/-- The child keeps its pid until init waits, and another fork does not get it. -/
theorem trail_pids_forkAndExit :
    (exitedChild.listed.map exitedChild.pid = [1#32, 2#32] ∧
      (exitedChild.listed.map exitedChild.pid).Nodup) ∧
      (∃ child k', startFork init (.started fun _ ↦ none) exitedChild = .ok (some child) k' ∧
        k'.pid child ∉ [1#32, 2#32]) ∧
      ∃ k', sysWait4 init (-1#32) 0#32 [] exitedChild = .ok 2#32 k' ∧ 1 ∉ k'.listed := by
  obtain ⟨hnodup, -, hfork, hkept⟩ :=
    trail_pids forkAndExit exitedChild (foldl_mem_trail step startInit forkAndExit)
  have hpids : exitedChild.listed.map exitedChild.pid = [1#32, 2#32] := by decide
  refine ⟨⟨hpids, hnodup⟩, ?_, ?_⟩
  · obtain ⟨r, k', hrun, -, -, hchild⟩ := hfork init (by decide) (.started fun _ ↦ none)
    have hvalue : (startFork init (.started fun _ ↦ none) exitedChild).value = some (some 2) := by
      decide
    rw [hrun] at hvalue
    obtain rfl := Option.some.inj hvalue
    exact ⟨2, k', hrun, hpids ▸ (hchild 2 rfl).2⟩
  · have hreaped : 1 ∉ (exitedChild.step (.wait4 init (-1#32) 0#32 [])).listed := by decide
    rcases hkept 1 (by decide) (.wait4 init (-1#32) 0#32 []) with hlisted | hwaited
    · exact absurd hlisted.1 hreaped
    · obtain ⟨P, waitPid, options, turns, heq, hrun, -⟩ := hwaited
      cases heq
      exact ⟨_, hrun, hreaped⟩

end KernelTable

end Keow.Kernel
