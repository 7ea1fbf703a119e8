import Keow.Base.Run
import Keow.Kernel.Context

/-!
# User and group ids of a process

`sys_perms.cpp:79–160`, with the six ids of `Process.h:103–105`. The saved ids are
consulted by `setreuid` and `setregid` and written by neither.
-/

namespace Keow.Perms

open Keow.Base Keow.Kernel

/-- The ids of a process, all zero when it is constructed (`Process.cpp:45–51`). -/
structure Ids where
  uid : DWORD := 0#32
  euid : DWORD := 0#32
  gid : DWORD := 0#32
  egid : DWORD := 0#32
  savedUid : DWORD := 0#32
  savedGid : DWORD := 0#32
deriving DecidableEq, Inhabited

/-- `-linux::EPERM`. -/
def negEPERM : DWORD := -1#32

/-- Real or effective root, the test made at `sys_perms.cpp:89–90,101–102`. -/
def Ids.isRoot (p : Ids) : Bool := p.uid == 0#32 || p.euid == 0#32

/-- Store the real uid, unless it is -1 or the caller is not root. `sys_perms.cpp:86–95`. -/
def setRuid (ruid : DWORD) (r : Context × Ids) : Context × Ids :=
  if ruid != -1#32 && r.2.isRoot then
    ({ r.1 with eax := 0#32 }, { r.2 with uid := ruid })
  else r

/-- Store the effective uid, if it is not -1 and the caller is root or already owns it.
The real uid tested is the one just stored. `sys_perms.cpp:97–110`. -/
def setEuid (euid : DWORD) (r : Context × Ids) : Context × Ids :=
  if euid != -1#32 &&
      (r.2.isRoot || euid == r.2.uid || euid == r.2.euid || euid == r.2.savedUid) then
    ({ r.1 with eax := 0#32 }, { r.2 with euid := euid })
  else r

/-- `SysCalls::sys_setreuid`, `sys_perms.cpp:79–112`. -/
def sysSetreuid (ctx : Context) (p : Ids) : Context × Ids :=
  setEuid ctx.ecx (setRuid ctx.ebx ({ ctx with eax := negEPERM }, p))

/-- Store the real gid, unless it is -1 or the caller is not root. `sys_perms.cpp:124–133`. -/
def setRgid (rgid : DWORD) (r : Context × Ids) : Context × Ids :=
  if rgid != -1#32 && r.2.isRoot then
    ({ r.1 with eax := 0#32 }, { r.2 with gid := rgid })
  else r

/-- Store the effective gid, if it is not -1 and the caller is root or already owns it.
`sys_perms.cpp:135–148`. -/
def setEgid (egid : DWORD) (r : Context × Ids) : Context × Ids :=
  if egid != -1#32 &&
      (r.2.isRoot || egid == r.2.gid || egid == r.2.egid || egid == r.2.savedGid) then
    ({ r.1 with eax := 0#32 }, { r.2 with egid := egid })
  else r

/-- `SysCalls::sys_setregid`, `sys_perms.cpp:117–150`. -/
def sysSetregid (ctx : Context) (p : Ids) : Context × Ids :=
  setEgid ctx.ecx (setRgid ctx.ebx ({ ctx with eax := negEPERM }, p))

/-- `SysCalls::sys_setreuid32`, `sys_perms.cpp:152–155`. -/
def sysSetreuid32 (ctx : Context) (p : Ids) : Context × Ids := sysSetreuid ctx p

/-- `SysCalls::sys_setregid32`, `sys_perms.cpp:157–160`. -/
def sysSetregid32 (ctx : Context) (p : Ids) : Context × Ids := sysSetregid ctx p

/-- One call of the set-id family, with the registers it is made with. -/
inductive IdCall where
  | setreuid (ctx : Context)
  | setregid (ctx : Context)
  | setreuid32 (ctx : Context)
  | setregid32 (ctx : Context)

/-- The ids after one call. -/
def idStep (p : Ids) : IdCall → Ids
  | .setreuid ctx => (sysSetreuid ctx p).2
  | .setregid ctx => (sysSetregid ctx p).2
  | .setreuid32 ctx => (sysSetreuid32 ctx p).2
  | .setregid32 ctx => (sysSetregid32 ctx p).2

/-- The call asks for effective uid 0. -/
def IdCall.asksEuidZero : IdCall → Bool
  | .setreuid ctx | .setreuid32 ctx => ctx.ecx == 0#32
  | .setregid _ | .setregid32 _ => false

/-- What a full drop to `u` leaves behind: the saved uid is still root's. -/
structure Dropped (u : DWORD) (p : Ids) : Prop where
  uid : p.uid = u
  euid : p.euid = u
  savedUid : p.savedUid = 0#32

theorem isRoot_of_dropped {u : DWORD} {p : Ids} (hu : u ≠ 0#32) (h : Dropped u p) :
    p.isRoot = false := by
  simp [Ids.isRoot, h.uid, h.euid, hu]

/-- The group calls leave the three uids alone. -/
theorem sysSetregid_uids (ctx : Context) (p : Ids) :
    (sysSetregid ctx p).2.uid = p.uid ∧ (sysSetregid ctx p).2.euid = p.euid ∧
      (sysSetregid ctx p).2.savedUid = p.savedUid := by
  unfold sysSetregid setEgid setRgid
  split <;> split <;> exact ⟨rfl, rfl, rfl⟩

/-- A non-root caller cannot change its real uid. -/
theorem setRuid_of_not_root {ruid : DWORD} {r : Context × Ids} (h : r.2.isRoot = false) :
    setRuid ruid r = r := by
  simp [setRuid, h]

/-- The user call of a dropped process: only a request for the saved uid 0 takes effect. -/
theorem sysSetreuid_of_dropped {u : DWORD} {p : Ids} (hu : u ≠ 0#32) (h : Dropped u p)
    (ctx : Context) :
    (sysSetreuid ctx p).2 = if ctx.ecx = 0#32 then { p with euid := 0#32 } else p := by
  have hr := isRoot_of_dropped hu h
  rw [sysSetreuid, setRuid_of_not_root (by exact hr), setEuid]
  dsimp only
  rw [hr, Bool.false_or]
  by_cases hz : ctx.ecx = 0#32
  · rw [hz, if_pos rfl, if_pos (by simp [h.savedUid])]
  · rw [if_neg hz]
    split
    · next hc =>
      -- the only other id it may ask for is the one it has
      have he : ctx.ecx = u := by
        simp only [Bool.and_eq_true, Bool.or_eq_true, beq_iff_eq, hz, or_false, h.uid, h.euid,
          h.savedUid, or_self] at hc
        exact hc.2
      dsimp only
      rw [he, ← h.euid]
    · rfl

/-- Full drop from root. -/
theorem dropped_sysSetreuid {u : DWORD} {p : Ids} {ctx : Context} (hu : u ≠ -1#32)
    (hp : p.uid = 0#32 ∧ p.euid = 0#32 ∧ p.savedUid = 0#32)
    (hctx : ctx.ebx = u ∧ ctx.ecx = u) :
    (sysSetreuid ctx p).1.eax = 0#32 ∧ Dropped u (sysSetreuid ctx p).2 := by
  obtain ⟨hu0, he0, hs0⟩ := hp
  have hm : (u != -1#32) = true := bne_iff_ne.mpr hu
  have hr : p.isRoot = true := by simp [Ids.isRoot, hu0]
  have hr' : ({ p with uid := u } : Ids).isRoot = true := by simp [Ids.isRoot, he0]
  rw [sysSetreuid, setRuid, hctx.1, hctx.2, hm, hr, Bool.and_self, if_pos rfl, setEuid]
  dsimp only
  rw [hm, hr', Bool.true_or, Bool.true_or, Bool.true_or, Bool.and_self, if_pos rfl]
  exact ⟨rfl, rfl, rfl, hs0⟩

theorem dropped_idStep {u : DWORD} (hu : u ≠ 0#32) (p : Ids) (c : IdCall) (h : Dropped u p)
    (hc : c.asksEuidZero = false) : Dropped u (idStep p c) := by
  have hgid : ∀ ctx, Dropped u (sysSetregid ctx p).2 := by
    intro ctx
    obtain ⟨h1, h2, h3⟩ := sysSetregid_uids ctx p
    exact ⟨h1.trans h.uid, h2.trans h.euid, h3.trans h.savedUid⟩
  have huid : ∀ ctx : Context, (ctx.ecx == 0#32) = false → Dropped u (sysSetreuid ctx p).2 := by
    intro ctx hz
    rw [sysSetreuid_of_dropped hu h, if_neg (by simpa using hz)]
    exact h
  cases c with
  | setreuid ctx => exact huid ctx hc
  | setreuid32 ctx => exact huid ctx hc
  | setregid ctx => exact hgid ctx
  | setregid32 ctx => exact hgid ctx

/-- Asking for effective uid 0 is granted on the strength of the stale saved uid. -/
theorem euid_idStep_of_asksEuidZero {u : DWORD} (hu : u ≠ 0#32) {p : Ids} {c : IdCall}
    (h : Dropped u p) (hc : c.asksEuidZero = true) : (idStep p c).euid = 0#32 := by
  have huid : ∀ ctx : Context, (ctx.ecx == 0#32) = true → (sysSetreuid ctx p).2.euid = 0#32 := by
    intro ctx hz
    rw [sysSetreuid_of_dropped hu h, if_pos (by simpa using hz)]
  cases c with
  | setreuid ctx => exact huid ctx hc
  | setreuid32 ctx => exact huid ctx hc
  | setregid ctx => simp [IdCall.asksEuidZero] at hc
  | setregid32 ctx => simp [IdCall.asksEuidZero] at hc

/-- After `setreuid(u, u)` by root, every later sequence of set-id calls keeps both uids
non-zero exactly when none of them asks for effective uid 0. -/
theorem dropped_privilege_iff (p : Ids) (u : DWORD) (ctx : Context) (calls : List IdCall)
    (hp : p.uid = 0#32 ∧ p.euid = 0#32 ∧ p.savedUid = 0#32) (hu0 : u ≠ 0#32) (hu1 : u ≠ -1#32)
    (hctx : ctx.ebx = u ∧ ctx.ecx = u) :
    (∀ q ∈ trail idStep (sysSetreuid ctx p).2 calls, q.uid ≠ 0#32 ∧ q.euid ≠ 0#32) ↔
      ∀ c ∈ calls, c.asksEuidZero = false := by
  have hd := (dropped_sysSetreuid hu1 hp hctx).2
  constructor
  · intro hsafe
    by_contra hno
    have hbad : ∃ c ∈ calls, ¬c.asksEuidZero = false := by
      simpa only [not_forall, exists_prop] using hno
    obtain ⟨q, c, hq, hc, hm⟩ := trail_first_violation (dropped_idStep hu0) hd hbad
    have hz := euid_idStep_of_asksEuidZero hu0 hq (by simpa using hc)
    exact (hsafe _ hm).2 hz
  · intro hok q hq
    have hdq := trail_invariant (dropped_idStep hu0) hd hok q hq
    rw [hdq.uid, hdq.euid]
    exact ⟨hu0, hu0⟩

/-- Dropping to uid 1000 and then changing only groups. -/
theorem dropped_privilege_iff_setregid :
    (∀ q ∈ trail idStep
        (sysSetreuid { Context.zero with ebx := 1000, ecx := 1000 } {}).2
        [.setregid { Context.zero with ebx := 5, ecx := 0 }],
      q.uid ≠ 0#32 ∧ q.euid ≠ 0#32) ∧
    IdCall.asksEuidZero (.setregid { Context.zero with ebx := 5, ecx := 0 }) = false :=
  ⟨(dropped_privilege_iff {} 1000 { Context.zero with ebx := 1000, ecx := 1000 }
    [.setregid { Context.zero with ebx := 5, ecx := 0 }] ⟨rfl, rfl, rfl⟩ (by decide) (by decide)
    ⟨rfl, rfl⟩).mpr (by simp [IdCall.asksEuidZero]), rfl⟩

/-- `setreuid(1000, 1000)` by root succeeds, and `setreuid(-1, 0)` then restores effective
root. -/
theorem dropped_privilege_regained :
    (sysSetreuid { Context.zero with ebx := 1000, ecx := 1000 } {}).1.eax = 0#32 ∧
      ¬∀ q ∈ trail idStep
          (sysSetreuid { Context.zero with ebx := 1000, ecx := 1000 } {}).2
          [.setreuid { Context.zero with ebx := -1, ecx := 0 }],
        q.uid ≠ 0#32 ∧ q.euid ≠ 0#32 := by
  refine ⟨rfl, ?_⟩
  intro h
  have hz : (idStep (sysSetreuid { Context.zero with ebx := 1000, ecx := 1000 } {}).2
      (.setreuid { Context.zero with ebx := -1, ecx := 0 })).euid = 0#32 := rfl
  exact (h _ (by simp [trail])).2 hz

end Keow.Perms
