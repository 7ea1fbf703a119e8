import Keow.Kernel.Pids

/-!
# Process groups

The handlers of `getpgrp`, `getpgid` and `setpgid`, `sys_process.cpp:143–189`. Their bodies are
out of step with their names: the one called `sys_getpgid` stores a group that it takes from
`ecx`, and the one called `sys_setpgid` looks at no argument.
-/

namespace Keow.Kernel

open Keow.Base

namespace KernelTable

/-- The process a pid argument stands for, 0 for the caller. -/
def addressed (k : KernelTable) (P : Nat) (pid : DWORD) : DWORD :=
  if pid = 0#32 then k.pid P else pid

/-- Store the group of a process. -/
def setGroup (k : KernelTable) (p : Nat) (pgid : DWORD) : KernelTable :=
  k.update p fun q ↦ { q with processGroupPID := pgid }

/-- The group of a process. -/
def group (k : KernelTable) (p : Nat) : DWORD := (k.object p).processGroupPID

/-- `SysCalls::sys_getpgrp` called by `P`, `sys_process.cpp:146–149`. -/
def sysGetpgrp (P : Nat) (ctx : Context) (k : KernelTable) : Context × KernelTable :=
  (ctx.withEax (k.group P), k)

/-- `SysCalls::sys_getpgid` called by `P`, `sys_process.cpp:156–177`. -/
def sysGetpgid (P : Nat) (ctx : Context) (k : KernelTable) : Context × KernelTable :=
  match k.findProcess (k.addressed P ctx.ebx) with
  | none => (ctx.withEax (-ESRCH), k)
  | some p2 =>
      let pgid := if ctx.ecx = 0#32 then k.group p2 else ctx.ecx
      (ctx.withEax 0#32, k.setGroup p2 pgid)

/-- `SysCalls::sys_setpgid` called by `P`, `sys_process.cpp:185–189`. -/
def sysSetpgid (P : Nat) (ctx : Context) (k : KernelTable) : Context × KernelTable :=
  (ctx.withEax 0#32, k.setGroup P (k.pid P))

/-! ## Storing a group -/

theorem group_setGroup (k : KernelTable) (p q : Nat) (pgid : DWORD) :
    (k.setGroup p pgid).group q = if q = p then pgid else k.group q := by
  unfold setGroup update group
  dsimp only
  split <;> rfl

@[simp] theorem pid_setGroup (k : KernelTable) (p q : Nat) (pgid : DWORD) :
    (k.setGroup p pgid).pid q = k.pid q := by
  unfold setGroup update pid
  dsimp only
  split <;> rfl

@[simp] theorem findProcess_setGroup (k : KernelTable) (p : Nat) (pgid pid : DWORD) :
    (k.setGroup p pgid).findProcess pid = k.findProcess pid := by
  simp only [findProcess, pid_setGroup]
  rfl

@[simp] theorem addressed_setGroup (k : KernelTable) (p P : Nat) (pgid pid : DWORD) :
    (k.setGroup p pgid).addressed P pid = k.addressed P pid := by
  simp only [addressed, pid_setGroup]

/-- A group stored leaves every group as it was exactly when it is the one already there. -/
theorem setGroup_keeps_iff (k : KernelTable) (p : Nat) (pgid : DWORD) :
    (∀ q, (k.setGroup p pgid).group q = k.group q) ↔ pgid = k.group p := by
  constructor
  · intro h
    have hp := h p
    rw [group_setGroup, if_pos rfl] at hp
    exact hp
  · rintro rfl q
    rw [group_setGroup]
    split
    · next he => rw [he]
    · rfl

/-! ## What the handlers answer and change -/

/-- The answer of `sys_getpgid` is never a group. -/
theorem eax_sysGetpgid (P : Nat) (ctx : Context) (k : KernelTable) :
    (sysGetpgid P ctx k).1.eax =
      if (k.findProcess (k.addressed P ctx.ebx)).isSome then 0#32 else -ESRCH := by
  unfold sysGetpgid
  cases k.findProcess (k.addressed P ctx.ebx) <;> rfl

/-- `sys_getpgid` leaves the groups alone for a process that does not exist, and where `ecx`
is 0 or the group already stored. -/
theorem sysGetpgid_keeps_iff (P : Nat) (ctx : Context) (k : KernelTable) :
    (∀ q, (sysGetpgid P ctx k).2.group q = k.group q) ↔
      ∀ p2, k.findProcess (k.addressed P ctx.ebx) = some p2 →
        ctx.ecx = 0#32 ∨ ctx.ecx = k.group p2 := by
  unfold sysGetpgid
  cases k.findProcess (k.addressed P ctx.ebx) with
  | none => simp
  | some p2 =>
    dsimp only
    rw [setGroup_keeps_iff]
    constructor
    · rintro h p ⟨⟩
      split at h
      · next h0 => exact .inl h0
      · exact .inr h
    · intro h
      split
      · rfl
      · next h0 => exact (h p2 rfl).resolve_left h0

/-! ## Consistency -/

/-- The group that `setpgid(pid, pgid)` asks for: 0 for the process itself. -/
def requested (k : KernelTable) (P : Nat) (pid pgid : DWORD) : DWORD :=
  if pgid = 0#32 then k.addressed P pid else pgid

/-- The groups of a table are consistent under a `setpgid` of `P` with the registers `set` and
the getters of `R` with the registers `get`: the group set is the group got, for the same
process, and a getter changes no group. -/
structure Consistent (k : KernelTable) (P R : Nat) (set get : Context) : Prop where
  answered : (sysSetpgid P set k).1.eax = 0#32 → k.addressed R get.ebx = k.addressed P set.ebx →
    (sysGetpgid R get (sysSetpgid P set k).2).1.eax = k.requested P set.ebx set.ecx
  getpgid_keeps : ∀ q, (sysGetpgid R get k).2.group q = k.group q
  getpgrp_keeps : ∀ q, (sysGetpgrp R get k).2.group q = k.group q

/-- The getter asks for the process of the setter only where its answer, 0 or `ESRCH`, happens
to be the group asked for. -/
def Coincides (k : KernelTable) (P R : Nat) (set get : Context) : Prop :=
  k.addressed R get.ebx = k.addressed P set.ebx →
    k.requested P set.ebx set.ecx =
      if (k.findProcess (k.addressed P set.ebx)).isSome then 0#32 else -ESRCH

/-- The getter finds no process, or has 0 or the group of that process in `ecx`. -/
def Harmless (k : KernelTable) (R : Nat) (get : Context) : Prop :=
  ∀ p2, k.findProcess (k.addressed R get.ebx) = some p2 → get.ecx = 0#32 ∨ get.ecx = k.group p2

/-- In every table, by every pair of callers and for all registers, the groups are consistent
exactly where the answer coincides and the getter's `ecx` is harmless. -/
theorem consistent_iff (k : KernelTable) (P R : Nat) (set get : Context) :
    k.Consistent P R set get ↔ k.Coincides P R set get ∧ k.Harmless R get := by
  have hanswer : (sysGetpgid R get (sysSetpgid P set k).2).1.eax =
      if (k.findProcess (k.addressed R get.ebx)).isSome then 0#32 else -ESRCH := by
    simp only [eax_sysGetpgid, sysSetpgid, addressed_setGroup, findProcess_setGroup]
  constructor
  · intro h
    refine ⟨?_, (sysGetpgid_keeps_iff R get k).mp h.getpgid_keeps⟩
    intro hsame
    rw [← h.answered rfl hsame, hanswer, hsame]
  · rintro ⟨hcoincides, hharmless⟩
    refine ⟨?_, (sysGetpgid_keeps_iff R get k).mpr hharmless, fun _ ↦ rfl⟩
    intro _ hsame
    rw [hanswer, hcoincides hsame, hsame]

/-- Init asks for group 1 and is told 0, and asking with 5 in `ecx` moves it to group 5. -/
theorem startInit_not_consistent : ¬startInit.Consistent init init
    { Context.zero with ecx := 1#32 } { Context.zero with ecx := 5#32 } := by
  intro h
  have hanswered := h.answered rfl rfl
  revert hanswered
  decide

/-- No table keeps its groups consistent for all registers: a registered process can always
move a group by asking for its own. -/
theorem exists_not_consistent {k : KernelTable} {P : Nat} (hP : P ∈ k.listed) (set : Context) :
    ∃ get, ¬k.Consistent P P set get := by
  have hfound : (k.findProcess (k.pid P)).isSome := by
    rw [findProcess, List.find?_isSome]
    exact ⟨P, hP, by simp⟩
  obtain ⟨p2, hp2⟩ := Option.isSome_iff_exists.mp hfound
  -- a group other than 0 and the one stored
  have hother : ∃ pgid : DWORD, pgid ≠ 0#32 ∧ pgid ≠ k.group p2 := by
    by_cases h1 : k.group p2 = 1#32
    · exact ⟨2#32, by decide, by rw [h1]; decide⟩
    · exact ⟨1#32, by decide, Ne.symm h1⟩
  obtain ⟨pgid, h0, hne⟩ := hother
  refine ⟨{ Context.zero with ecx := pgid }, fun h ↦ ?_⟩
  have hcase : pgid = 0#32 ∨ pgid = k.group p2 :=
    (sysGetpgid_keeps_iff P _ k).mp h.getpgid_keeps p2 hp2
  exact hcase.elim h0 hne

end KernelTable

end Keow.Kernel
