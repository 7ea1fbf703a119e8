import Keow.Perms.Ids

/-!
# Both ids or neither

`setreuid` and `setregid` treat their two arguments one after the other, `sys_perms.cpp:79–150`.
A refusal of one leaves the other standing, the result tells of the last success only, and in
`setreuid` the second check is made with the real id that the first has just stored.
-/

namespace Keow.Perms

open Keow.Base Keow.Kernel

/-! ## What is asked for -/

/-- An argument asks for an id, unless it is -1. -/
def Asked (id : DWORD) : Prop := id ≠ -1#32

instance (id : DWORD) : Decidable (Asked id) := inferInstanceAs (Decidable (id ≠ -1#32))

/-- The credentials allow `euid` as effective user id, `sys_perms.cpp:101–105`. -/
def Ids.AllowsEuid (p : Ids) (euid : DWORD) : Prop :=
  p.isRoot = true ∨ euid = p.uid ∨ euid = p.euid ∨ euid = p.savedUid

instance (p : Ids) (euid : DWORD) : Decidable (p.AllowsEuid euid) :=
  inferInstanceAs (Decidable (_ ∨ _))

/-- The credentials allow `egid` as effective group id, `sys_perms.cpp:139–143`. -/
def Ids.AllowsEgid (p : Ids) (egid : DWORD) : Prop :=
  p.isRoot = true ∨ egid = p.gid ∨ egid = p.egid ∨ egid = p.savedGid

instance (p : Ids) (egid : DWORD) : Decidable (p.AllowsEgid egid) :=
  inferInstanceAs (Decidable (_ ∨ _))

/-- The credentials allow every change of user ids that is asked for. -/
def Ids.GrantsUids (p : Ids) (ruid euid : DWORD) : Prop :=
  (Asked ruid → p.isRoot = true) ∧ (Asked euid → p.AllowsEuid euid)

/-- The credentials allow every change of group ids that is asked for. -/
def Ids.GrantsGids (p : Ids) (rgid egid : DWORD) : Prop :=
  (Asked rgid → p.isRoot = true) ∧ (Asked egid → p.AllowsEgid egid)

/-- The user ids asked for in place of those held. -/
def Ids.withUids (p : Ids) (ruid euid : DWORD) : Ids :=
  { p with
    uid := if Asked ruid then ruid else p.uid
    euid := if Asked euid then euid else p.euid }

/-- The group ids asked for in place of those held. -/
def Ids.withGids (p : Ids) (rgid egid : DWORD) : Ids :=
  { p with
    gid := if Asked rgid then rgid else p.gid
    egid := if Asked egid then egid else p.egid }

/-- A call is atomic: where all is granted it returns 0 with the ids changed, otherwise `EPERM`
with the ids as they were. -/
structure Atomic (grants : Prop) (changed p : Ids) (r : Context × Ids) : Prop where
  granted : grants → r.1.eax = 0#32 ∧ r.2 = changed
  refused : ¬grants → r.1.eax = negEPERM ∧ r.2 = p

theorem atomic_of_granted {grants : Prop} {changed p : Ids} {r : Context × Ids} (h : grants) :
    Atomic grants changed p r ↔ r.1.eax = 0#32 ∧ r.2 = changed :=
  ⟨fun ha ↦ ha.granted h, fun hr ↦ ⟨fun _ ↦ hr, fun hn ↦ absurd h hn⟩⟩

theorem atomic_of_refused {grants : Prop} {changed p : Ids} {r : Context × Ids} (h : ¬grants) :
    Atomic grants changed p r ↔ r.1.eax = negEPERM ∧ r.2 = p :=
  ⟨fun ha ↦ ha.refused h, fun hr ↦ ⟨fun hg ↦ absurd hg h, fun _ ↦ hr⟩⟩

theorem negEPERM_ne_zero : negEPERM ≠ 0#32 := by decide

/-! ## Two checks in turn -/

section Checks

variable (id : DWORD) (r : Context × Ids)

theorem setRuid_eq : setRuid id r =
    if Asked id ∧ r.2.isRoot = true then ({ r.1 with eax := 0#32 }, { r.2 with uid := id })
    else r := by
  rw [setRuid]
  exact if_congr (by rw [Bool.and_eq_true, bne_iff_ne, Asked]) rfl rfl

theorem setEuid_eq : setEuid id r =
    if Asked id ∧ r.2.AllowsEuid id then ({ r.1 with eax := 0#32 }, { r.2 with euid := id })
    else r := by
  rw [setEuid]
  exact if_congr (by simp only [Bool.and_eq_true, bne_iff_ne, Bool.or_eq_true, beq_iff_eq,
    or_assoc, Ids.AllowsEuid, Asked]) rfl rfl

theorem setRgid_eq : setRgid id r =
    if Asked id ∧ r.2.isRoot = true then ({ r.1 with eax := 0#32 }, { r.2 with gid := id })
    else r := by
  rw [setRgid]
  exact if_congr (by rw [Bool.and_eq_true, bne_iff_ne, Asked]) rfl rfl

theorem setEgid_eq : setEgid id r =
    if Asked id ∧ r.2.AllowsEgid id then ({ r.1 with eax := 0#32 }, { r.2 with egid := id })
    else r := by
  rw [setEgid]
  exact if_congr (by simp only [Bool.and_eq_true, bne_iff_ne, Bool.or_eq_true, beq_iff_eq,
    or_assoc, Ids.AllowsEgid, Asked]) rfl rfl

end Checks

/-- Two requests, each behind its own check, the second check made on what the first has left:
the call is atomic when something is asked for and, if both are, either both pass or both
fail. `q` are the ids after the first request and `f` is the second change. -/
theorem atomic_inTurn_iff {A B R : Prop} [Decidable A] [Decidable B] [Decidable R]
    {C : Ids → Prop} [DecidablePred C] {p q changed : Ids} {f : Ids → Ids} (ctx : Context)
    (hroot : R → C p) (hchange : ¬C q → f q ≠ q)
    (hchanged : changed = if A then (if B then f q else q) else (if B then f p else p)) :
    let s := if A ∧ R then ({ ctx with eax := 0#32 }, q) else ({ ctx with eax := negEPERM }, p)
    Atomic ((A → R) ∧ (B → C p)) changed p
        (if B ∧ C s.2 then ({ s.1 with eax := 0#32 }, f s.2) else s) ↔
      (A ∨ B) ∧ (A → B → if R then C q else ¬C p) := by
  intro s
  subst hchanged
  by_cases hA : A
  · by_cases hR : R
    · -- the first request has been carried out, and the second is granted as well
      have hs : s = ({ ctx with eax := 0#32 }, q) := if_pos ⟨hA, hR⟩
      rw [hs, atomic_of_granted ⟨fun _ ↦ hR, fun _ ↦ hroot hR⟩, if_pos hA, if_pos hR]
      by_cases hB : B
      · by_cases hC : C q
        · simp [hA, hB, hC]
        · simp [hA, hB, hC, (hchange hC).symm]
      · simp [hA, hB]
    · have hs : s = ({ ctx with eax := negEPERM }, p) := if_neg fun h ↦ hR h.2
      rw [hs, atomic_of_refused fun h ↦ hR (h.1 hA), if_neg hR]
      by_cases hB : B
      · by_cases hC : C p
        · simp [hA, hB, hC, negEPERM_ne_zero.symm]
        · simp [hA, hB, hC]
      · simp [hA, hB]
  · have hs : s = ({ ctx with eax := negEPERM }, p) := if_neg fun h ↦ hA h.1
    rw [hs, if_neg hA]
    by_cases hB : B
    · by_cases hC : C p
      · rw [atomic_of_granted ⟨fun h ↦ absurd h hA, fun _ ↦ hC⟩]
        simp [hA, hB, hC]
      · rw [atomic_of_refused fun h ↦ hC (h.2 hB)]
        simp [hA, hB, hC]
    · -- nothing is asked for, and `EPERM` is the answer all the same
      rw [atomic_of_granted ⟨fun h ↦ absurd h hA, fun h ↦ absurd h hB⟩]
      simp [hA, hB, negEPERM_ne_zero]

/-! ## When the calls are atomic -/

/-- Something is asked for, and if both ids are, then root still passes the second check with its
new real id, and anyone else fails both. -/
def Ids.UidsAgree (p : Ids) (ruid euid : DWORD) : Prop :=
  (Asked ruid ∨ Asked euid) ∧
    (Asked ruid → Asked euid →
      if p.isRoot = true then
        ruid = 0#32 ∨ p.euid = 0#32 ∨ euid = ruid ∨ euid = p.euid ∨ euid = p.savedUid
      else euid ≠ p.uid ∧ euid ≠ p.euid ∧ euid ≠ p.savedUid)

/-- The same of group ids, whose checks do not interfere. -/
def Ids.GidsAgree (p : Ids) (rgid egid : DWORD) : Prop :=
  (Asked rgid ∨ Asked egid) ∧
    (Asked rgid → Asked egid → p.isRoot = true ∨
      (egid ≠ p.gid ∧ egid ≠ p.egid ∧ egid ≠ p.savedGid))

theorem isRoot_withUid (p : Ids) (uid : DWORD) :
    ({ p with uid := uid } : Ids).isRoot = true ↔ uid = 0#32 ∨ p.euid = 0#32 := by
  simp [Ids.isRoot]

theorem allowsEuid_withUid (p : Ids) (uid euid : DWORD) :
    ({ p with uid := uid } : Ids).AllowsEuid euid ↔
      uid = 0#32 ∨ p.euid = 0#32 ∨ euid = uid ∨ euid = p.euid ∨ euid = p.savedUid := by
  rw [Ids.AllowsEuid, isRoot_withUid, or_assoc]

theorem sysSetreuid_atomic_iff (ctx : Context) (p : Ids) :
    Atomic (p.GrantsUids ctx.ebx ctx.ecx) (p.withUids ctx.ebx ctx.ecx) p (sysSetreuid ctx p) ↔
      p.UidsAgree ctx.ebx ctx.ecx := by
  rw [sysSetreuid, setRuid_eq, setEuid_eq]
  refine (atomic_inTurn_iff (C := fun q ↦ q.AllowsEuid ctx.ecx) (q := { p with uid := ctx.ebx })
    (f := fun q ↦ { q with euid := ctx.ecx }) ctx Or.inl ?_ ?_).trans ?_
  · intro hC heq
    exact hC (.inr (.inr (.inl (congrArg Ids.euid heq))))
  · rw [Ids.withUids]
    split <;> split <;> rfl
  · refine and_congr_right' (imp_congr_right fun _ ↦ imp_congr_right fun _ ↦ ?_)
    split
    · exact allowsEuid_withUid p ctx.ebx ctx.ecx
    · next hR => simp [Ids.AllowsEuid, hR]

theorem sysSetregid_atomic_iff (ctx : Context) (p : Ids) :
    Atomic (p.GrantsGids ctx.ebx ctx.ecx) (p.withGids ctx.ebx ctx.ecx) p (sysSetregid ctx p) ↔
      p.GidsAgree ctx.ebx ctx.ecx := by
  rw [sysSetregid, setRgid_eq, setEgid_eq]
  refine (atomic_inTurn_iff (C := fun q ↦ q.AllowsEgid ctx.ecx) (q := { p with gid := ctx.ebx })
    (f := fun q ↦ { q with egid := ctx.ecx }) ctx Or.inl ?_ ?_).trans ?_
  · intro hC heq
    exact hC (.inr (.inr (.inl (congrArg Ids.egid heq))))
  · rw [Ids.withGids]
    split <;> split <;> rfl
  · refine and_congr_right' (imp_congr_right fun _ ↦ imp_congr_right fun _ ↦ ?_)
    split
    · next hR => exact iff_of_true (.inl hR) (.inl hR)
    · next hR => simp [Ids.AllowsEgid, hR]

/-- `setreuid` and `setregid` carry out all of a request or nothing of it exactly when the two
parts agree. -/
theorem setIds_atomic_iff (ctx : Context) (p : Ids) :
    (Atomic (p.GrantsUids ctx.ebx ctx.ecx) (p.withUids ctx.ebx ctx.ecx) p (sysSetreuid ctx p) ↔
        p.UidsAgree ctx.ebx ctx.ecx) ∧
      (Atomic (p.GrantsGids ctx.ebx ctx.ecx) (p.withGids ctx.ebx ctx.ecx) p (sysSetregid ctx p) ↔
        p.GidsAgree ctx.ebx ctx.ecx) :=
  ⟨sysSetreuid_atomic_iff ctx p, sysSetregid_atomic_iff ctx p⟩

/-- User 1000 asks for real id 0 and its own effective id: the first is refused, and the call
returns 0. -/
theorem setIds_not_atomic :
    let p : Ids := { uid := 1000, euid := 1000, savedUid := 1000 }
    let ctx : Context := { Context.zero with ebx := 0, ecx := 1000 }
    ¬Atomic (p.GrantsUids ctx.ebx ctx.ecx) (p.withUids ctx.ebx ctx.ecx) p (sysSetreuid ctx p) := by
  intro p ctx h
  have hno : ¬p.GrantsUids ctx.ebx ctx.ecx := fun hg ↦ absurd (hg.1 (by decide)) (by decide)
  exact absurd (h.refused hno).1 (by decide)

end Keow.Perms
