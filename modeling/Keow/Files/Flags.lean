import Keow.Files.Sharing

/-!
# Flags of descriptors

What `fcntl` gives of each descriptor over a run, beside what it should give. `Duplicate` makes
the new object with the flags of its constructor; so a copy forgets them, and a run goes wrong
exactly where something other than these is copied.
-/

namespace Keow.Files

open Keow.Base Keow.Kernel

variable {ρ : Type}

/-- The results of `F_GETFD` and `F_GETFL`. -/
structure Flags where
  getfd : DWORD
  getfl : DWORD
deriving DecidableEq

/-- What they are for a handler. -/
def Handler.told (h : Handler) : Flags where
  getfd := if h.inheritable then 0#32 else 1#32
  getfl := h.flags

/-- `fcntl` gives these flags of a descriptor, whatever the third register. -/
def Gives (env : Environment ρ) (w : FileWorld ρ) (p : Nat) (fd : DWORD) (f : Flags) : Prop :=
  ∀ arg, (∃ w', sysFcntl env p fd F_GETFD arg w = .ok f.getfd w') ∧
    ∃ w', sysFcntl env p fd F_GETFL arg w = .ok f.getfl w'

/-- A world, with what `fcntl` should give of each descriptor. -/
structure FlagsWorld (ρ : Type) where
  world : FileWorld ρ
  expected : Nat → Nat → Flags

/-- All descriptors in use give what they should. -/
def AsExpected (env : Environment ρ) (s : FlagsWorld ρ) : Prop :=
  ∀ p fd, ValidFd fd → s.world.table.openFiles p fd.toNat ≠ none →
    Gives env s.world p fd (s.expected p fd.toNat)

/-! ## What should become of the flags -/

/-- One entry changed. -/
def setFlags (e : Nat → Nat → Flags) (P fd : Nat) (f : Flags) : Nat → Nat → Flags :=
  fun p i ↦ if p = P ∧ i = fd then f else e p i

/-- A descriptor just made has what it was made with. -/
def asMade (D D' : Nat → Nat → Option Handler) (e : Nat → Nat → Flags) : Nat → Nat → Flags :=
  fun p i ↦
    match D p i, D' p i with
    | none, some h => h.told
    | _, _ => e p i

/-- A copy has close-on-exec clear and the flags of the original. -/
def expectCopy (e : Nat → Nat → Flags) (P fdold fdnew : Nat) : Nat → Nat → Flags :=
  setFlags e P fdnew { getfd := 0#32, getfl := (e P fdold).getfl }

/-- The flags that should be given once a call has returned: a child has what its parent has, and
a descriptor has what is set. -/
def expect (D D' : Nat → Nat → Option Handler) (P child : Nat) (e : Nat → Nat → Flags) :
    Call → Nat → Nat → Flags
  | .dup fd => (lowestFree (D P)).elim e (expectCopy e P fd.toNat)
  | .dup2 fdold fdnew =>
      if D P fdold.toNat = none ∨ fdnew = fdold then e
      else expectCopy e P fdold.toNat fdnew.toNat
  | .fcntl fd cmd arg =>
      if cmd = F_SETFD then setFlags e P fd.toNat { e P fd.toNat with getfd := arg }
      else if cmd = F_SETFL then setFlags e P fd.toNat { e P fd.toNat with getfl := arg }
      else asMade D D' e
  | .fork => fun p i ↦ if p = child then e P i else e p i
  | _ => asMade D D' e

/-- A call, in the world and in what is expected. Calls that are not allowed are not made. -/
def flagsAfter (env : Environment ρ) (s : FlagsWorld ρ) (call : Nat × Call) : FlagsWorld ρ :=
  if Allowed s.world.table call.1 call.2 then
    match call.2.run env call.1 s.world with
    | .ok _ w' =>
        { world := w'
          expected := expect s.world.table.handlerAt w'.table.handlerAt call.1
            s.world.table.processes s.expected call.2 }
    | r => { s with world := r.state }
  else s

/-- What is copied has no flags but those of the constructor, and what is set is 0 or 1. -/
def FlagsKept (D : Nat → Nat → Option Handler) (P : Nat) : Call → Prop
  | .dup fd => ∀ h, D P fd.toNat = some h → lowestFree (D P) ≠ none → h.flags = 0#32
  | .dup2 fdold fdnew => ∀ h, D P fdold.toNat = some h → fdnew ≠ fdold → h.flags = 0#32
  | .fcntl fd cmd arg => cmd = F_SETFD → D P fd.toNat ≠ none → arg = 0#32 ∨ arg = 1#32
  | .fork => ∀ i h, D P i = some h → h.inheritable = true ∧ h.flags = 0#32
  | _ => True

/-! ## Expectations of values -/

/-- The descriptors have the flags expected of them. -/
def Agree (D : Nat → Nat → Option Handler) (e : Nat → Nat → Flags) : Prop :=
  ∀ p i h, D p i = some h → e p i = h.told

/-- What is open before and after is the same. -/
def Survive (D D' : Nat → Nat → Option Handler) : Prop :=
  ∀ p i h h', D p i = some h → D' p i = some h' → h' = h

section Agree

open Table

variable {D D' : Nat → Nat → Option Handler} {e e' : Nat → Nat → Flags} {P fd : Nat}

theorem survive_refl (D : Nat → Nat → Option Handler) : Survive D D := by
  intro p i h h' hh hh'
  exact Option.some.inj (hh'.symm.trans hh)

/-- A descriptor that was closed. -/
theorem survive_put (h : Survive D D') (hfree : D P fd = none) (x : Option Handler) :
    Survive D (put D' P fd x) := by
  intro p i g g' hg hg'
  unfold put at hg'
  split at hg'
  · next hslot =>
    rw [hslot.1, hslot.2, hfree] at hg
    cases hg
  · exact h p i g g' hg hg'

theorem survive_put_none (h : Survive D D') : Survive D (put D' P fd none) := by
  intro p i g g' hg hg'
  unfold put at hg'
  split at hg'
  · cases hg'
  · exact h p i g g' hg hg'

theorem agree_asMade (he : Agree D e) (h : Survive D D') : Agree D' (asMade D D' e) := by
  intro p i g hg
  unfold asMade
  rw [hg]
  cases hD : D p i with
  | none => rfl
  | some g' =>
    rw [h p i g' g hD hg]
    exact he p i g' hD

/-- What is expected of descriptors that are closed does not matter. -/
theorem agree_of_same (he : Agree D e) (h : ∀ p i, D p i ≠ none → e' p i = e p i) :
    Agree D e' := by
  intro p i g hg
  rw [h p i (hg ▸ Option.some_ne_none g)]
  exact he p i g hg

theorem agree_put_iff (he : Agree D e) (h : Handler) (f : Flags) :
    Agree (put D P fd (some h)) (setFlags e P fd f) ↔ f = h.told := by
  constructor
  · intro hagree
    have hslot := hagree P fd h (if_pos ⟨rfl, rfl⟩)
    rwa [setFlags, if_pos ⟨rfl, rfl⟩] at hslot
  · intro hf p i g hg
    unfold put at hg
    unfold setFlags
    split at hg
    · next hslot => rw [if_pos hslot, hf, Option.some.inj hg]
    · next hslot =>
      rw [if_neg hslot]
      exact he p i g hg

theorem told_eq_copy_iff (h : Handler) :
    h.told = h.copy.told ↔ h.inheritable = true ∧ h.flags = 0#32 := by
  obtain ⟨kind, inheritable, flags⟩ := h
  cases inheritable <;> simp [Handler.told, Handler.copy]

/-- A copy of a descriptor. -/
theorem agree_copy_iff (he : Agree D e) {fdold : Nat} {h : Handler} (hh : D P fdold = some h) :
    Agree (put D P fd (some h.copy)) (expectCopy e P fdold fd) ↔ h.flags = 0#32 := by
  rw [expectCopy, agree_put_iff he, he P fdold h hh]
  constructor
  · exact fun hflags ↦ congrArg Flags.getfl hflags
  · intro hflags
    show (⟨0#32, h.flags⟩ : Flags) = ⟨0#32, 0#32⟩
    rw [hflags]

/-- Flags set on a descriptor that is closed. -/
theorem agree_setFlags_closed (he : Agree D e) (hclosed : D P fd = none) (f : Flags) :
    Agree D (setFlags e P fd f) := by
  apply agree_of_same he
  intro p i hopen
  apply if_neg
  rintro ⟨rfl, rfl⟩
  exact hopen hclosed

theorem agree_dup_iff (he : Agree D e) {eax fd : DWORD} {child : Nat}
    (h : DupValue D P eax D' fd) :
    Agree D' (expect D D' P child e (.dup fd)) ↔ FlagsKept D P (.dup fd) := by
  simp only [expect, FlagsKept]
  rcases h with ⟨hfull, -, rfl⟩ | ⟨hfree, hclosed, -, rfl⟩ | ⟨fdnew, h, hfree, hh, -, rfl⟩
  · rw [hfull]
    exact iff_of_true he fun _ _ hne ↦ absurd rfl hne
  · obtain ⟨fdnew, hfdnew⟩ := Option.ne_none_iff_exists'.mp hfree
    rw [hfdnew]
    refine iff_of_true (agree_setFlags_closed he (lowestFree_eq_some.mp hfdnew).2.1 _) ?_
    intro h hh
    rw [hclosed] at hh
    cases hh
  · rw [hfree, Option.elim_some, agree_copy_iff he hh]
    constructor
    · intro hflags h' hh' _
      rwa [← Option.some.inj (hh.symm.trans hh')]
    · exact fun hkept ↦ hkept h hh (Option.some_ne_none fdnew)

theorem agree_dup2_iff (he : Agree D e) {eax fdold fdnew : DWORD} {child : Nat}
    (h : Dup2Value D P eax D' fdold fdnew) :
    Agree D' (expect D D' P child e (.dup2 fdold fdnew)) ↔ FlagsKept D P (.dup2 fdold fdnew) := by
  simp only [expect, FlagsKept]
  rcases h with ⟨hrefused, -, rfl⟩ | ⟨h, hh, hne, -, rfl⟩
  · rw [if_pos hrefused]
    apply iff_of_true he
    intro h hh hne
    rcases hrefused with hclosed | hsame
    · rw [hclosed] at hh
      cases hh
    · exact absurd hsame hne
  · have hopen : ¬(D P fdold.toNat = none ∨ fdnew = fdold) := by
      rintro (hclosed | hsame)
      · rw [hclosed] at hh
        cases hh
      · exact hne hsame
    rw [if_neg hopen, agree_copy_iff he hh]
    constructor
    · intro hflags h' hh' _
      rwa [← Option.some.inj (hh.symm.trans hh')]
    · exact fun hkept ↦ hkept h hh hne

theorem agree_fcntl_iff (he : Agree D e) {eax fd cmd arg : DWORD} {child : Nat}
    (h : FcntlValue D P eax D' fd cmd arg) :
    Agree D' (expect D D' P child e (.fcntl fd cmd arg)) ↔ FlagsKept D P (.fcntl fd cmd arg) := by
  simp only [expect, FlagsKept]
  rcases h with ⟨hclosed, -, rfl⟩ | ⟨h, hh, hopen⟩
  · apply iff_of_true
    · split
      · exact agree_setFlags_closed he hclosed _
      · split
        · exact agree_setFlags_closed he hclosed _
        · exact agree_asMade he (survive_refl _)
    · exact fun _ hne ↦ absurd hclosed hne
  · by_cases hsetfd : cmd = F_SETFD
    · subst hsetfd
      rw [FcntlOpenValue, if_neg (by decide), if_pos rfl] at hopen
      rw [if_pos rfl, hopen.2, agree_put_iff he, he P fd.toNat h hh]
      have hne : D P fd.toNat ≠ none := hh ▸ Option.some_ne_none h
      have hiff : (⟨arg, h.flags⟩ : Flags) = Handler.told { h with inheritable := arg = 0#32 } ↔
          arg = 0#32 ∨ arg = 1#32 := by
        by_cases hzero : arg = 0#32
        · simp [Handler.told, hzero]
        · simp [Handler.told, hzero]
      exact hiff.trans ⟨fun harg _ _ ↦ harg, fun hkept ↦ hkept rfl hne⟩
    · rw [if_neg hsetfd]
      refine iff_of_true ?_ fun hcmd ↦ absurd hcmd hsetfd
      by_cases hsetfl : cmd = F_SETFL
      · subst hsetfl
        rw [FcntlOpenValue, if_neg (by decide), if_neg hsetfd, if_neg (by decide),
          if_pos rfl] at hopen
        rw [if_pos rfl, hopen.2, agree_put_iff he, he P fd.toNat h hh]
        rfl
      · rw [if_neg hsetfl]
        apply agree_asMade he
        unfold FcntlOpenValue at hopen
        rw [if_neg hsetfd, if_neg hsetfl] at hopen
        split at hopen
        · exact hopen.2 ▸ survive_refl _
        · split at hopen
          · exact hopen.2 ▸ survive_refl _
          · split at hopen
            · rcases hopen with ⟨-, -, rfl⟩ | ⟨fdnew, hfree, ⟨-, -, rfl⟩ | ⟨-, -, rfl⟩⟩
              · exact survive_refl _
              · exact survive_refl _
              · exact survive_put (survive_refl _) (lowestFree_eq_some.mp hfree).2.1 _
            · exact hopen.2 ▸ survive_refl _

theorem agree_fork_iff (he : Agree D e) {child : Nat} :
    Agree (forkValue D P child) (expect D D' P child e .fork) ↔ FlagsKept D P .fork := by
  simp only [expect, FlagsKept]
  constructor
  · intro hagree i h hh
    have hvalue : forkValue D P child child i = some h.copy := by
      rw [forkValue, if_pos rfl, hh, Option.map_some]
    have hchild : (if child = child then e P i else e child i) = h.copy.told :=
      hagree child i h.copy hvalue
    rw [if_pos rfl, he P i h hh] at hchild
    exact (told_eq_copy_iff h).mp hchild
  · intro hkept p i g hg
    show (if p = child then e P i else e p i) = g.told
    unfold forkValue at hg
    split at hg
    · next hp =>
      obtain ⟨h, hh, rfl⟩ := Option.map_eq_some_iff.mp hg
      rw [if_pos hp, he P i h hh]
      exact (told_eq_copy_iff h).mpr (hkept i h hh)
    · next hp =>
      rw [if_neg hp]
      exact he p i g hg

theorem lowestTwo_free {fds : Nat × Nat} (h : lowestTwo (D P) = some fds) :
    D P fds.1 = none ∧ D P fds.2 = none := by
  obtain ⟨rest, hfilter⟩ := filter_of_lowestTwo h
  have hfree : ∀ i ∈ fds.1 :: fds.2 :: rest, D P i = none := by
    intro i hi
    rw [← hfilter] at hi
    exact of_decide_eq_true (List.mem_filter.mp hi).2
  exact ⟨hfree _ List.mem_cons_self, hfree _ (List.mem_cons_of_mem _ List.mem_cons_self)⟩

/-- One call, by value: the flags stay as expected exactly if it keeps them. -/
theorem agree_expect_iff {env : Environment ρ} {t : Table} {r : ρ} (he : Agree t.handlerAt e)
    {c : Call} {eax : DWORD} (h : c.Value env t r P eax D') :
    Agree D' (expect t.handlerAt D' P t.processes e c) ↔ FlagsKept t.handlerAt P c := by
  cases c with
  | openFile path access =>
    refine iff_of_true (agree_asMade he ?_) trivial
    rcases h with ⟨-, -, rfl⟩ |
      ⟨fd, hfree, ⟨-, -, rfl⟩ | ⟨o, -, ⟨-, -, rfl⟩ | ⟨-, -, rfl⟩⟩⟩
    · exact survive_refl _
    · exact survive_refl _
    · exact survive_refl _
    · exact survive_put (survive_refl _) (lowestFree_eq_some.mp hfree).2.1 _
  | close fd =>
    refine iff_of_true (agree_asMade he ?_) trivial
    rcases h with ⟨-, -, rfl⟩ | ⟨-, -, rfl⟩
    · exact survive_refl _
    · exact survive_put_none (survive_refl _)
  | dup fd => exact agree_dup_iff he h
  | dup2 fdold fdnew => exact agree_dup2_iff he h
  | fcntl fd cmd arg => exact agree_fcntl_iff he h
  | pipe address =>
    refine iff_of_true (agree_asMade he ?_) trivial
    rcases h with ⟨-, -, rfl⟩ | ⟨-, fds, hfree, -, rfl⟩
    · exact survive_refl _
    · obtain ⟨hfst, hsnd⟩ := lowestTwo_free hfree
      exact survive_put (survive_put (survive_refl _) hfst _) hsnd _
  | fork =>
    obtain rfl : D' = forkValue t.handlerAt P t.processes := h
    exact agree_fork_iff he
  | execve =>
    refine iff_of_true (agree_asMade he ?_) trivial
    obtain rfl : D' = execValue t.handlerAt P := h
    intro p i g g' hg hg'
    unfold execValue at hg'
    split at hg'
    · next hp =>
      rw [← hp] at hg'
      exact Option.some.inj ((Option.filter_eq_some_iff.mp hg').1.symm.trans hg)
    · exact Option.some.inj (hg'.symm.trans hg)

end Agree

/-! ## Runs -/

section Runs

open Table

variable (env : Environment ρ)

/-- What `fcntl` gives of a descriptor in use is what it tells of the handler. -/
theorem gives_iff {w : FileWorld ρ} (hs : w.table.Sound) {p : Nat} {fd : DWORD} (hfd : ValidFd fd)
    {h : Handler} (hh : w.table.handlerAt p fd.toNat = some h) (f : Flags) :
    Gives env w p fd f ↔ f = h.told := by
  obtain ⟨a, ha, -⟩ := slot_of_handlerAt hh
  have hp := (hs.within ha).1
  have hvalue : ∀ cmd arg, ∃ eax w', sysFcntl env p fd cmd arg w = .ok eax w' ∧
      FcntlOpenValue w.table.handlerAt p eax w'.table.handlerAt fd cmd arg h := by
    intro cmd arg
    obtain ⟨eax, w', hrun, D, hvalue, hmoves⟩ :=
      exists_ok_of_onTable (onTable_sysFcntl env hs hp hfd cmd arg (r := w.rest)) rfl
    refine ⟨eax, w', hrun, ?_⟩
    rw [hmoves.handlerAt]
    rcases hvalue with ⟨hclosed, -⟩ | ⟨h', hh', hopen⟩
    · rw [hclosed] at hh
      cases hh
    · rwa [Option.some.inj (hh.symm.trans hh')]
  have hgetfd : ∀ arg, ∃ w', sysFcntl env p fd F_GETFD arg w = .ok h.told.getfd w' := by
    intro arg
    obtain ⟨eax, w', hrun, hopen⟩ := hvalue F_GETFD arg
    rw [FcntlOpenValue, if_pos rfl] at hopen
    exact ⟨w', hrun.trans (congrArg (Result.ok · w') hopen.1)⟩
  have hgetfl : ∀ arg, ∃ w', sysFcntl env p fd F_GETFL arg w = .ok h.told.getfl w' := by
    intro arg
    obtain ⟨eax, w', hrun, hopen⟩ := hvalue F_GETFL arg
    rw [FcntlOpenValue, if_neg (by decide), if_neg (by decide), if_pos rfl] at hopen
    exact ⟨w', hrun.trans (congrArg (Result.ok · w') hopen.1)⟩
  constructor
  · intro hgives
    obtain ⟨⟨w₁, h₁⟩, ⟨w₂, h₂⟩⟩ := hgives 0#32
    obtain ⟨w₁', h₁'⟩ := hgetfd 0#32
    obtain ⟨w₂', h₂'⟩ := hgetfl 0#32
    have hfst : f.getfd = h.told.getfd := (Result.ok.inj (h₁.symm.trans h₁')).1
    have hsnd : f.getfl = h.told.getfl := (Result.ok.inj (h₂.symm.trans h₂')).1
    calc f = ⟨f.getfd, f.getfl⟩ := rfl
      _ = ⟨h.told.getfd, h.told.getfl⟩ := by rw [hfst, hsnd]
      _ = h.told := rfl
  · rintro rfl arg
    exact ⟨hgetfd arg, hgetfl arg⟩

theorem asExpected_iff {s : FlagsWorld ρ} (hs : s.world.table.Sound) :
    AsExpected env s ↔ Agree s.world.table.handlerAt s.expected := by
  constructor
  · intro hexpected p i h hh
    obtain ⟨a, ha, -⟩ := slot_of_handlerAt hh
    have hi := (hs.within ha).2
    have hnat : (BitVec.ofNat 32 i).toNat = i := by
      have hi : i < 1024 := hi
      rw [BitVec.toNat_ofNat]
      omega
    have hgives := hexpected p (BitVec.ofNat 32 i) (validFd_ofNat hi)
    rw [hnat] at hgives
    refine (gives_iff env hs (validFd_ofNat hi) (by rwa [hnat]) _).mp (hgives ?_)
    exact ha ▸ Option.some_ne_none a
  · intro hagree p fd hfd hopen
    obtain ⟨a, ha⟩ := Option.ne_none_iff_exists'.mp hopen
    obtain ⟨h, -, hh⟩ := handlerAt_of_openFiles hs ha
    exact (gives_iff env hs hfd hh _).mpr (hagree p fd.toNat h hh)

theorem flagsAfter_of_ok {s : FlagsWorld ρ} {P : Nat} {c : Call}
    (hc : Allowed s.world.table P c) {eax : DWORD} {w' : FileWorld ρ}
    (hrun : c.run env P s.world = .ok eax w') :
    flagsAfter env s (P, c) =
      { world := w'
        expected := expect s.world.table.handlerAt w'.table.handlerAt P s.world.table.processes
          s.expected c } := by
  unfold flagsAfter
  rw [if_pos hc]
  dsimp only
  rw [hrun]

/-- The step of a call that is allowed. -/
theorem flagsAfter_cases {s : FlagsWorld ρ} (hs : s.world.table.Sound) {P : Nat} {c : Call}
    (hc : Allowed s.world.table P c) :
    (∃ eax, Outcome env s.world.table s.world.rest P c eax (flagsAfter env s (P, c)).world.table ∧
      (flagsAfter env s (P, c)).expected =
        expect s.world.table.handlerAt (flagsAfter env s (P, c)).world.table.handlerAt P
          s.world.table.processes s.expected c) ∨
    (c.EndsThread s.world.table ∧
      (flagsAfter env s (P, c)).world.table = s.world.table ∧
      (flagsAfter env s (P, c)).expected = s.expected) := by
  have hsafe := safe_call env hs hc
  unfold flagsAfter
  rw [if_pos hc]
  dsimp only
  unfold Comp.Safe at hsafe
  cases hrun : c.run env P s.world with
  | ok eax w' =>
    rw [hrun] at hsafe
    exact .inl ⟨eax, hsafe, rfl⟩
  | exit w' =>
    rw [hrun] at hsafe
    exact .inr ⟨hsafe.2, hsafe.1, rfl⟩
  | wait w' =>
    rw [hrun] at hsafe
    exact .inr ⟨hsafe.2, hsafe.1, rfl⟩
  | fault w' =>
    rw [hrun] at hsafe
    exact hsafe.elim

/-- The tables are sound, and the flags as expected. -/
def Faithful (s : FlagsWorld ρ) : Prop :=
  s.world.table.Sound ∧ Agree s.world.table.handlerAt s.expected

/-- The condition on a call of a run. -/
def CopiesPlain (s : FlagsWorld ρ) (call : Nat × Call) : Prop :=
  Allowed s.world.table call.1 call.2 → FlagsKept s.world.table.handlerAt call.1 call.2

theorem faithful_step {s : FlagsWorld ρ} (h : Faithful s) {call : Nat × Call}
    (hkept : CopiesPlain s call) : Faithful (flagsAfter env s call) := by
  obtain ⟨P, c⟩ := call
  by_cases hc : Allowed s.world.table P c
  · rcases flagsAfter_cases env h.1 hc with ⟨eax, ⟨D, hvalue, hmoves⟩, hexpected⟩ | ⟨-, ht, he⟩
    · refine ⟨hmoves.sound, ?_⟩
      rw [hexpected, hmoves.handlerAt]
      exact (agree_expect_iff h.2 hvalue).mpr (hkept hc)
    · unfold Faithful
      rwa [ht, he]
  · unfold flagsAfter
    rwa [if_neg hc]

theorem not_asExpected_step {s : FlagsWorld ρ} (h : Faithful s) {call : Nat × Call}
    (hlost : ¬CopiesPlain s call) : ¬AsExpected env (flagsAfter env s call) := by
  obtain ⟨P, c⟩ := call
  obtain ⟨hc, hlost⟩ := Classical.not_imp.mp hlost
  rcases flagsAfter_cases env h.1 hc with
    ⟨eax, ⟨D, hvalue, hmoves⟩, hexpected⟩ | ⟨hends, -⟩
  · rw [asExpected_iff env hmoves.sound, hexpected, hmoves.handlerAt]
    exact fun hagree ↦ hlost ((agree_expect_iff h.2 hvalue).mp hagree)
  · -- only an `open` ends the thread, and it copies no flags
    cases c with
    | openFile path access => exact absurd trivial hlost
    | close | dup | dup2 | fcntl | pipe | fork | execve => exact hends.elim

/-- From any descriptors that give what they should, all descriptors give it in every world that
a run visits exactly if its calls copy none with flags of its own. -/
theorem trail_asExpected_iff {s : FlagsWorld ρ} (hs : s.world.table.Sound)
    (hstart : AsExpected env s) (calls : List (Nat × Call)) :
    (∀ s' ∈ trail (flagsAfter env) s calls, AsExpected env s') ↔
      Along (flagsAfter env) CopiesPlain s calls :=
  @trail_iff_along _ _ (flagsAfter env) CopiesPlain Faithful (AsExpected env)
    (fun _ h ↦ (asExpected_iff env h.1).mpr h.2)
    (fun _ _ h hkept ↦ faithful_step env h hkept)
    (fun _ _ h hlost ↦ not_asExpected_step env h hlost) s
    ⟨hs, (asExpected_iff env hs).mp hstart⟩ calls

/-- The first process, whose consoles have no flags. -/
def startFlags : FlagsWorld Unit where
  world := { table := startTable, rest := ⟨⟩ }
  expected := fun _ _ ↦ { getfd := 0#32, getfl := 0#32 }

theorem faithful_startFlags : Faithful startFlags := by
  refine ⟨sound_startTable, fun p i h hh ↦ ?_⟩
  obtain ⟨a, -, hobject⟩ := slot_of_handlerAt hh
  have hobject : (if a < 3 then some ({ kind := .ntConsole } : Handler) else none) = some h :=
    hobject
  split at hobject
  · rw [← Option.some.inj hobject]
    rfl
  · cases hobject

/-- The console has been made non-blocking. -/
theorem table_nonBlocking :
    (flagsAfter (Environment.idle Unit) startFlags (0, .fcntl 0#32 F_SETFL 0x800#32)).world.table =
      startTable.setObject 0 (some { kind := .ntConsole, flags := 0x800#32 }) := by
  have hset : Allowed startFlags.world.table 0 (.fcntl 0#32 F_SETFL 0x800#32) := by
    refine ⟨Nat.one_pos, fun fd hfd ↦ ?_, rfl⟩
    rw [List.mem_singleton.mp hfd]
    exact validFd_ofNat (show 0 < 1024 by omega)
  have hrun : (Call.fcntl 0#32 F_SETFL 0x800#32).run (Environment.idle Unit) 0 startFlags.world =
      .ok 0#32
        { table := startTable.setObject 0 (some { kind := .ntConsole, flags := 0x800#32 })
          rest := ⟨⟩
          indexed := [0] } := rfl
  rw [flagsAfter_of_ok (Environment.idle Unit) hset hrun]

/-- A run that makes a console non-blocking copies nothing, and the flag is there at its end. -/
theorem trail_asExpected_iff_console :
    (∀ s' ∈ trail (flagsAfter (Environment.idle Unit)) startFlags
      [(0, .fcntl 0#32 F_SETFL 0x800#32)], AsExpected (Environment.idle Unit) s') ∧
    (flagsAfter (Environment.idle Unit) startFlags
      (0, .fcntl 0#32 F_SETFL 0x800#32)).world.table.handlerAt 0 0 =
        some { kind := .ntConsole, flags := 0x800#32 } := by
  constructor
  · exact (trail_asExpected_iff (Environment.idle Unit) faithful_startFlags.1
      ((asExpected_iff (Environment.idle Unit) faithful_startFlags.1).mpr faithful_startFlags.2)
      _).mpr ⟨fun _ hcmd ↦ absurd hcmd (by decide), trivial⟩
  · rw [table_nonBlocking]
    rfl

/-- A console made non-blocking, then copied by `dup2`: the copy blocks. -/
theorem dup2_not_asExpected :
    ¬∀ s' ∈ trail (flagsAfter (Environment.idle Unit)) startFlags
      [(0, .fcntl 0#32 F_SETFL 0x800#32), (0, .dup2 0#32 5#32)],
      AsExpected (Environment.idle Unit) s' := by
  have hfaithful : Faithful (flagsAfter (Environment.idle Unit) startFlags
      (0, .fcntl 0#32 F_SETFL 0x800#32)) :=
    faithful_step (Environment.idle Unit) faithful_startFlags fun _ hcmd ↦ absurd hcmd (by decide)
  have hlost : ¬CopiesPlain (flagsAfter (Environment.idle Unit) startFlags
      (0, .fcntl 0#32 F_SETFL 0x800#32)) (0, .dup2 0#32 5#32) := by
    unfold CopiesPlain
    rw [table_nonBlocking]
    intro hkept
    have hdup : ∀ fd ∈ (Call.dup2 0#32 5#32).descriptors, ValidFd fd := by
      intro fd hfd
      rcases List.mem_cons.mp hfd with rfl | hfd
      · exact validFd_ofNat (show 0 < 1024 by omega)
      · rw [List.mem_singleton.mp hfd]
        exact validFd_ofNat (show 5 < 1024 by omega)
    exact absurd (hkept ⟨Nat.one_pos, hdup, rfl⟩ _ rfl (by decide)) (by decide)
  intro hall
  apply not_asExpected_step (Environment.idle Unit) hfaithful hlost
  exact hall _ (List.mem_cons_of_mem _ (List.mem_cons_of_mem _ List.mem_cons_self))

end Runs

end Keow.Files
