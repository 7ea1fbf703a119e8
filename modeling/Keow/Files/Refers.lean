import Keow.Files.Sharing

/-!
# What descriptors refer to

A descriptor stands for something outside the tables: an end of a pipe, a file with its
pointer. `Tracks` says what an environment must do so that such references can be followed, and
`onWorld_call` says where they are after a call: a copied descriptor refers to what the old one
does, and what is closed is given up.
-/

namespace Keow.Files

open Keow.Base Keow.Kernel

variable {ρ : Type}

/-! ## References -/

section Redirect

variable {β : Type} (D : Nat → Nat → Option β) (P fd : Nat) (e : Option β)

/-- One descriptor refers to something else. -/
def redirect : Nat → Nat → Option β := fun p i ↦ if p = P ∧ i = fd then e else D p i

@[simp] theorem redirect_same : redirect D P fd e P fd = e := if_pos ⟨rfl, rfl⟩

theorem redirect_of_ne {p i : Nat} (h : ¬(p = P ∧ i = fd)) : redirect D P fd e p i = D p i :=
  if_neg h

theorem redirect_redirect (e' : Option β) :
    redirect (redirect D P fd e) P fd e' = redirect D P fd e' := by
  funext p i
  unfold redirect
  split <;> rfl

variable {D P fd e}

theorem redirect_eq_self (h : D P fd = e) : redirect D P fd e = D := by
  funext p i
  unfold redirect
  split
  · next hslot => rw [hslot.1, hslot.2, h]
  · rfl

end Redirect

/-- The origin of an object that refers to `e` when it is made. No path names a pipe that is not
open. -/
inductive Origin.Refers {β : Type} (t : Table) (D : Nat → Nat → Option β) :
    Origin → Option β → Prop where
  | made {kind : HandlerKind} (h : kind ≠ .pipe) : Refers t D (.made kind) none
  | copied {q i a : Nat} {h : Handler} (slot : t.openFiles q i = some a)
      (object : t.object a = some h) : Refers t D (.copied a h.kind) (D q i)

/-- What a path is opened on, where it is a descriptor of a process. -/
def PathHandler.Refers {β : Type} (t : Table) (D : Nat → Nat → Option β) (e : Option β) :
    PathHandler → Prop
  | .unknown => False
  | .made _ => e = none
  | .ofDescriptor q fd => 0 ≤ fd ∧ t.openFiles q fd.toNat ≠ none ∧ e = D q fd.toNat

section Tracks

variable {β : Type} (env : Environment ρ) (alive : Nat → Prop) (ends : ρ → Option β × Option β)
  (reopens : ρ → Option β → Option β → Prop) (I : Table → ρ → (Nat → Nat → Option β) → Prop)

/-- The environment keeps `I t r D`: in this world the descriptors refer to `D`. A copy refers to
what the original does, a closed descriptor to nothing; `reopens` says what `Open` makes of the
reference of a new object, and `ends` what a new pipe consists of. -/
structure Tracks : Prop where
  sound : ∀ {t r D}, I t r D → t.Sound
  closed : ∀ {t r D P fd}, I t r D → t.openFiles P fd = none → D P fd = none
  newborn : ∀ {t r D}, I t r D → alive t.processes
  process : ∀ {t r D}, I t r D → I { t with processes := t.processes + 1 } r D
  setObject : ∀ {t r D P fd a h h'}, I t r D → t.openFiles P fd = some a →
    t.object a = some h → h'.kind = h.kind → I (t.setObject a (some h')) r D
  writeMemory : ∀ {t r D P address bytes}, I t r D → I t (env.writeMemory P address bytes r) D
  copied : ∀ {t r D P fd q i a h}, I t r D → alive P → P < t.processes → fd < MAX_OPEN_FILES →
    t.openFiles P fd = none → t.openFiles q i = some a → t.object a = some h →
    I (t.install P fd h.copy) (born env P t.fresh r (.copied a h.kind)) (redirect D P fd (D q i))
  shut : ∀ {t r D P fd a}, I t r D → alive P → t.openFiles P fd = some a →
    I t (env.close P a r) (redirect D P fd none)
  released : ∀ {t r D P fd a}, I t r D → alive P → t.openFiles P fd = some a →
    I (t.release P fd a) (env.close P a r) (redirect D P fd none)
  opened : ∀ {t r D P fd o e access share disposition}, I t r D → alive P → P < t.processes →
    fd < MAX_OPEN_FILES → t.openFiles P fd = none → o.Refers t D e →
    (env.openHandler P t.fresh access share disposition 0#32 (born env P t.fresh r o)).1 = true →
    ∃ e', reopens r e e' ∧ I (t.install P fd { kind := o.kind })
      (env.openHandler P t.fresh access share disposition 0#32 (born env P t.fresh r o)).2
      (redirect D P fd e')
  refused : ∀ {t r D P o e access share disposition}, I t r D → alive P → o.Refers t D e →
    (env.openHandler P t.fresh access share disposition 0#32 (born env P t.fresh r o)).1 = false →
    I (t.discard { kind := o.kind }) (env.close P t.fresh
      (env.openHandler P t.fresh access share disposition 0#32 (born env P t.fresh r o)).2) D
  seek : ∀ {t r D P fd a offset method t₁ r₁ D₁ e}, I t₁ r₁ D₁ → reopens r₁ e (D P fd) →
    I t r D → t.openFiles P fd = some a → I t (env.seek P a offset method r).2 D
  truncate : ∀ {t r D P fd a t₁ r₁ D₁ e}, I t₁ r₁ D₁ → reopens r₁ e (D P fd) →
    I t r D → t.openFiles P fd = some a → I t (env.truncate P a r) D
  piped : ∀ {t r D P fds}, I t r D → alive P → P < t.processes →
    (env.createPipe P r).1 = true → lowestTwo (t.openFiles P) = some fds →
    I ((t.install P fds.1 { kind := .pipe }).install P fds.2 { kind := .pipe })
      (env.construct P (t.fresh + 1) .pipe
        (env.construct P t.fresh .pipe (env.createPipe P r).2))
      (redirect (redirect D P fds.1 (ends r).1) P fds.2 (ends r).2)
  unpiped : ∀ {t r D P}, I t r D → (env.createPipe P r).1 = false → I t (env.createPipe P r).2 D

/-- What the methods keep of the rest of the world, where `Seek` and `Truncate` are called on an
object that has just been opened. -/
structure Frame (J : ρ → Prop) : Prop where
  construct : ∀ {r P a kind}, J r → J (env.construct P a kind r)
  copy : ∀ {r P a b}, J r → J (env.copy P a b r)
  close : ∀ {r P a}, J r → J (env.close P a r)
  openHandler : ∀ {r P a access share disposition flags}, J r →
    J (env.openHandler P a access share disposition flags r).2
  createPipe : ∀ {r P}, J r → J (env.createPipe P r).2
  writeMemory : ∀ {r P address bytes}, J r → J (env.writeMemory P address bytes r)
  seek : ∀ {t r D P fd a offset method r₁ e}, J r₁ → reopens r₁ e (D P fd) → I t r D →
    t.openFiles P fd = some a → J r → J (env.seek P a offset method r).2
  truncate : ∀ {t r D P fd a r₁ e}, J r₁ → reopens r₁ e (D P fd) → I t r D →
    t.openFiles P fd = some a → J r → J (env.truncate P a r)

variable {env alive ends reopens I}

/-- References can be followed together with what is kept besides. -/
theorem Tracks.frame (hT : Tracks env alive ends reopens I) {J : ρ → Prop}
    (hJ : Frame env reopens I J) : Tracks env alive ends reopens (fun t r D ↦ I t r D ∧ J r) := by
  have hborn : ∀ {P b r o}, J r → J (born env P b r o) := by
    intro P b r o hr
    cases o with
    | made kind => exact hJ.construct hr
    | copied a kind => exact hJ.copy (hJ.construct hr)
  constructor
  case sound => exact fun h ↦ hT.sound h.1
  case closed => exact fun h ↦ hT.closed h.1
  case newborn => exact fun h ↦ hT.newborn h.1
  case process => exact fun h ↦ ⟨hT.process h.1, h.2⟩
  case setObject => exact fun h ha hobject hkind ↦ ⟨hT.setObject h.1 ha hobject hkind, h.2⟩
  case writeMemory => exact fun h ↦ ⟨hT.writeMemory h.1, hJ.writeMemory h.2⟩
  case copied =>
    exact fun h hP hlt hfd hslot ha hobject ↦
      ⟨hT.copied h.1 hP hlt hfd hslot ha hobject, hborn h.2⟩
  case shut => exact fun h hP ha ↦ ⟨hT.shut h.1 hP ha, hJ.close h.2⟩
  case released => exact fun h hP ha ↦ ⟨hT.released h.1 hP ha, hJ.close h.2⟩
  case opened =>
    intro t r D P fd o e access share disposition h hP hlt hfd hslot ho hok
    obtain ⟨e', he', hopened⟩ := hT.opened h.1 hP hlt hfd hslot ho hok
    exact ⟨e', he', hopened, hJ.openHandler (hborn h.2)⟩
  case refused =>
    exact fun h hP ho hfail ↦
      ⟨hT.refused h.1 hP ho hfail, hJ.close (hJ.openHandler (hborn h.2))⟩
  case seek =>
    exact fun h₁ he h ha ↦ ⟨hT.seek h₁.1 he h.1 ha, hJ.seek h₁.2 he h.1 ha h.2⟩
  case truncate =>
    exact fun h₁ he h ha ↦ ⟨hT.truncate h₁.1 he h.1 ha, hJ.truncate h₁.2 he h.1 ha h.2⟩
  case piped =>
    exact fun h hP hlt hmade hfree ↦ ⟨hT.piped h.1 hP hlt hmade hfree,
      hJ.construct (hJ.construct (hJ.createPipe h.2))⟩
  case unpiped => exact fun h hmade ↦ ⟨hT.unpiped h.1 hmade, hJ.createPipe h.2⟩

end Tracks

/-- `F_DUPFD` makes a descriptor, `fdnew`. -/
def Dupfd (t : Table) (P : Nat) (fd cmd arg : DWORD) (fdnew : Nat) : Prop :=
  cmd = F_DUPFD ∧ t.openFiles P fd.toNat ≠ none ∧ lowestFree (t.openFiles P) = some fdnew ∧
    (fdnew : Int) ≤ arg.toInt

/-- What the descriptors refer to once a call has returned: the new one to what the old one does,
and all others to what they did, unless they are closed. -/
def Call.Redirects {β : Type} (env : Environment ρ) (ends : ρ → Option β × Option β)
    (reopens : ρ → Option β → Option β → Prop) (t : Table) (r : ρ) (P : Nat)
    (D : Nat → Nat → Option β) (eax : DWORD) (D' : Nat → Nat → Option β) : Call → Prop
  | .openFile path access =>
      (OpenFails env P t r path access ∧ D' = D) ∨
      ∃ fd e e', lowestFree (t.openFiles P) = some fd ∧ eax = BitVec.ofNat 32 fd ∧
        path.Refers t D e ∧ reopens r e e' ∧ D' = redirect D P fd e'
  | .close fd => D' = redirect D P fd.toNat none
  | .dup fd =>
      ((lowestFree (t.openFiles P) = none ∨ t.openFiles P fd.toNat = none) ∧ D' = D) ∨
      ∃ fdnew, lowestFree (t.openFiles P) = some fdnew ∧ t.openFiles P fd.toNat ≠ none ∧
        eax = BitVec.ofNat 32 fdnew ∧ D' = redirect D P fdnew (D P fd.toNat)
  | .dup2 fdold fdnew =>
      ((t.openFiles P fdold.toNat = none ∨ fdnew = fdold) ∧ D' = D) ∨
      (t.openFiles P fdold.toNat ≠ none ∧ eax = fdnew ∧
        D' = redirect D P fdnew.toNat (D P fdold.toNat))
  | .fcntl fd cmd arg =>
      ((∀ fdnew, ¬Dupfd t P fd cmd arg fdnew) ∧ D' = D) ∨
      ∃ fdnew, Dupfd t P fd cmd arg fdnew ∧ eax = BitVec.ofNat 32 fdnew ∧
        D' = redirect D P fdnew (D P fd.toNat)
  | .pipe _ =>
      ((env.createPipe P r).1 = false ∧ D' = D) ∨
      ∃ fds, lowestTwo (t.openFiles P) = some fds ∧ eax = 0#32 ∧
        D' = redirect (redirect D P fds.1 (ends r).1) P fds.2 (ends r).2
  | .fork => D' = fun p i ↦ if p = t.processes then D P i else D p i
  | .execve => ∀ p i,
      (p = P ∧ (∃ h, t.handlerAt P i = some h ∧ h.inheritable = false) → D' p i = none) ∧
      (¬(p = P ∧ ∃ h, t.handlerAt P i = some h ∧ h.inheritable = false) → D' p i = D p i)

/-- No call opens a pipe by a path. -/
def Call.Plain : Call → Prop
  | .openFile path _ => path ≠ .made .pipe
  | _ => True

instance : (c : Call) → Decidable c.Plain
  | .openFile (.made kind) _ => decidable_of_iff (kind ≠ .pipe) (by simp [Call.Plain])
  | .openFile .unknown _ => isTrue (by simp [Call.Plain])
  | .openFile (.ofDescriptor _ _) _ => isTrue (by simp [Call.Plain])
  | .close _ | .dup _ | .dup2 _ _ | .fcntl _ _ _ | .pipe _ | .fork | .execve => isTrue trivial

/-! ## The calls -/

section Calls

open Table

variable {β : Type} {env : Environment ρ} {alive : Nat → Prop} {ends : ρ → Option β × Option β}
  {reopens : ρ → Option β → Option β → Prop} {I : Table → ρ → (Nat → Nat → Option β) → Prop}
  {P : Nat} {t : Table} {r : ρ} {D : Nat → Nat → Option β} {W : Table → ρ → Prop}

/-- What an object made for a path refers to. -/
theorem exists_refers {path : PathHandler} (hpath : path ≠ .made .pipe) {o : Origin}
    (ho : path.origin t = some o) : ∃ e, o.Refers t D e ∧ path.Refers t D e := by
  cases path with
  | unknown => cases ho
  | made kind =>
    obtain rfl : Origin.made kind = o := Option.some.inj ho
    exact ⟨none, .made fun he ↦ hpath (he ▸ rfl), rfl⟩
  | ofDescriptor q fd =>
    simp only [PathHandler.origin] at ho
    split at ho
    · cases ho
    · next hin =>
      obtain ⟨a, ha, hmap⟩ := Option.bind_eq_some_iff.mp ho
      obtain ⟨h, hh, rfl⟩ := Option.map_eq_some_iff.mp hmap
      exact ⟨D q fd.toNat, .copied ha hh, by omega, ha ▸ Option.some_ne_none a, rfl⟩

theorem onWorld_sysOpen (hT : Tracks env alive ends reopens I) (h : I t r D) (hP : alive P)
    (hlt : P < t.processes) {path : PathHandler} (hpath : path ≠ .made .pipe) (access : DWORD) :
    OnWorld (sysOpen env P path access) t r (fun eax t' r' ↦ ∃ D',
      (Call.openFile path access).Redirects env ends reopens t r P D eax D' ∧ I t' r' D')
      (fun t' r' ↦ I t' r' D) := by
  apply onWorld_open env P (hT.sound h)
  · exact fun hfull ↦ ⟨D, .inl ⟨.inl hfull, rfl⟩, h⟩
  · exact fun _ _ horigin ↦ ⟨D, .inl ⟨.inr (.inl horigin), rfl⟩, h⟩
  · exact fun _ ↦ h
  · intro fd o hfree horigin hok
    obtain ⟨hfd, hslot, -⟩ := lowestFree_eq_some.mp hfree
    obtain ⟨e, ho, hrefers⟩ := exists_refers (D := D) hpath horigin
    obtain ⟨e', he', hopened⟩ := hT.opened h hP hlt hfd hslot ho hok
    have hinstalled : (t.install P fd { kind := o.kind }).openFiles P fd = some t.fresh :=
      if_pos ⟨rfl, rfl⟩
    have hlive : (t.install P fd { kind := o.kind }).object t.fresh ≠ none := by
      rw [object_install, if_pos rfl]
      exact Option.some_ne_none _
    have hreopens : reopens r e (redirect D P fd e' P fd) := by rwa [redirect_same]
    apply onWorld_moreFlags hlive
      (J := fun r' ↦ I (t.install P fd { kind := o.kind }) r' (redirect D P fd e'))
      (fun _ _ _ hr' ↦ hT.seek h hreopens hr' hinstalled)
      (fun _ hr' ↦ hT.truncate h hreopens hr' hinstalled) hopened
    intro r' hr'
    exact ⟨_, .inr ⟨fd, e, e', hfree, rfl, hrefers, he', rfl⟩, hr'⟩
  · intro fd o hfree horigin hfail
    obtain ⟨e, ho, -⟩ := exists_refers (D := D) hpath horigin
    exact ⟨D, .inl ⟨.inr (.inr ⟨o, horigin, hfail⟩), rfl⟩, hT.refused h hP ho hfail⟩

theorem onWorld_sysClose (hT : Tracks env alive ends reopens I) (h : I t r D) (hP : alive P)
    {fd : DWORD} (hfd : ValidFd fd) :
    OnWorld (sysClose env P fd) t r (fun eax t' r' ↦ ∃ D',
      (Call.close fd).Redirects env ends reopens t r P D eax D' ∧ I t' r' D') W := by
  apply onWorld_withHandler P hfd
  · intro hclosed
    exact ⟨D, (redirect_eq_self (hT.closed h hclosed)).symm, h⟩
  · intro a ha
    apply onWorld_bind
    apply onWorld_deleteHandler env P ((hT.sound h).live ha)
    rw [toInt_of_validFd hfd]
    apply onWorld_bind
    apply onWorld_setSlot hfd
    apply onWorld_pure
    exact ⟨_, rfl, hT.released h hP ha⟩

theorem onWorld_closeExisting (hT : Tracks env alive ends reopens I) (h : I t r D) (hP : alive P)
    {fd : Nat} (hfd : fd < MAX_OPEN_FILES) {Q : Unit → Table → ρ → Prop}
    (hQ : ∀ t' r', I t' r' (redirect D P fd none) → t'.openFiles P fd = none →
      (∀ p i, ¬(p = P ∧ i = fd) → Keeps t t' p i) → t'.processes = t.processes → Q ⟨⟩ t' r') :
    OnWorld (closeExisting env P fd) t r Q W := by
  apply onWorld_bind
  apply onWorld_slot hfd
  cases ha : t.openFiles P fd with
  | none =>
    apply onWorld_pure
    apply hQ t r _ ha (fun p i _ ↦ keeps_refl t p i) rfl
    rwa [redirect_eq_self (hT.closed h ha)]
  | some a =>
    have hs := hT.sound h
    apply onWorld_bind
    apply onWorld_closeHandler env P (hs.live ha)
    apply onWorld_bind
    apply onWorld_deleteHandler env P (hs.live ha)
    apply onWorld_setSlot hfd
    have hreleased := hT.released (hT.shut h hP ha) hP ha
    rw [redirect_redirect] at hreleased
    exact hQ _ _ hreleased (if_pos ⟨rfl, rfl⟩) (fun p i hslot ↦ keeps_release hs ha hslot) rfl

theorem onWorld_sysDup2 (hT : Tracks env alive ends reopens I) (h : I t r D) (hP : alive P)
    (hlt : P < t.processes) {fdold fdnew : DWORD} (hold : ValidFd fdold) (hnew : ValidFd fdnew)
    {Q : DWORD → Table → ρ → Prop}
    (hfail : t.openFiles P fdold.toNat = none ∨ fdnew = fdold → Q (-EBADF) t r)
    (hQ : ∀ t' r' b hd, t.openFiles P fdold.toNat ≠ none →
      t'.openFiles P fdnew.toNat = some b → t'.object b = some hd →
      I t' r' (redirect D P fdnew.toNat (D P fdold.toNat)) → Q fdnew t' r') :
    OnWorld (sysDup2 env P fdold fdnew) t r Q W := by
  apply onWorld_withHandler P hold
  · exact fun hclosed ↦ hfail (.inl hclosed)
  · intro a ha
    obtain ⟨hd, hhd⟩ := Option.ne_none_iff_exists'.mp ((hT.sound h).live ha)
    split
    · next hrefused =>
      apply onWorld_pure
      rcases hrefused with hlow | hhigh | hsame
      · exact absurd hnew (refused_iff.mp (.inl hlow)).1
      · exact absurd hnew (refused_iff.mp (.inr hhigh)).1
      · exact hfail (.inr hsame)
    · next hpass =>
      have hne : ¬(P = P ∧ fdold.toNat = fdnew.toNat) := fun heq ↦
        hpass (.inr (.inr (BitVec.eq_of_toNat_eq heq.2.symm)))
      rw [toInt_of_validFd hnew]
      apply onWorld_bind
      apply onWorld_closeExisting hT h hP hnew
      intro t' r' hI hslot hkeeps hprocesses
      have hkept := hkeeps P fdold.toNat hne
      have ha' : t'.openFiles P fdold.toNat = some a := hkept.1.trans ha
      have hhd' : t'.object a = some hd := (hkept.2 a ha).trans hhd
      apply onWorld_bind
      apply onWorld_duplicate env P hhd'
      apply onWorld_bind
      apply onWorld_setSlot hnew
      apply onWorld_pure
      have hcopied := hT.copied hI hP (hprocesses ▸ hlt) hnew hslot ha' hhd'
      rw [redirect_redirect, redirect_of_ne _ _ _ _ hne] at hcopied
      exact hQ _ _ t'.fresh hd.copy (ha ▸ Option.some_ne_none a) (if_pos ⟨rfl, rfl⟩) (if_pos rfl)
        hcopied

/-- A `dup2` to the lowest free descriptor. -/
theorem onWorld_dup2_lowest (hT : Tracks env alive ends reopens I) (h : I t r D) (hP : alive P)
    (hlt : P < t.processes) {fd : DWORD} (hfd : ValidFd fd) {fdnew : Nat}
    (hfree : lowestFree (t.openFiles P) = some fdnew) {Q : DWORD → Table → ρ → Prop}
    (hfail : t.openFiles P fd.toNat = none → Q (-EBADF) t r)
    (hQ : ∀ t' r' b hd, t.openFiles P fd.toNat ≠ none → t'.openFiles P fdnew = some b →
      t'.object b = some hd → I t' r' (redirect D P fdnew (D P fd.toNat)) →
      Q (BitVec.ofNat 32 fdnew) t' r') :
    OnWorld (sysDup2 env P fd (BitVec.ofNat 32 fdnew)) t r Q W := by
  obtain ⟨hin, hnone, -⟩ := lowestFree_eq_some.mp hfree
  have hnat : (BitVec.ofNat 32 fdnew).toNat = fdnew := by
    have hin : fdnew < 1024 := hin
    rw [BitVec.toNat_ofNat]
    omega
  apply onWorld_sysDup2 hT h hP hlt hfd (validFd_ofNat hin)
  · rintro (hclosed | hsame)
    · exact hfail hclosed
    · rw [← hsame, hnat] at hfail
      exact hfail hnone
  · rw [hnat]
    exact hQ

theorem onWorld_sysDup (hT : Tracks env alive ends reopens I) (h : I t r D) (hP : alive P)
    (hlt : P < t.processes) {fd : DWORD} (hfd : ValidFd fd) :
    OnWorld (sysDup env P fd) t r (fun eax t' r' ↦ ∃ D',
      (Call.dup fd).Redirects env ends reopens t r P D eax D' ∧ I t' r' D') W := by
  unfold sysDup
  apply onWorld_bind
  apply onWorld_findFreeFD
  cases hfree : lowestFree (t.openFiles P) with
  | none => exact onWorld_pure ⟨D, .inl ⟨.inl hfree, rfl⟩, h⟩
  | some fdnew =>
    apply onWorld_dup2_lowest hT h hP hlt hfd hfree
    · exact fun hclosed ↦ ⟨D, .inl ⟨.inr hclosed, rfl⟩, h⟩
    · intro t' r' b hd hopen _ _ hI
      exact ⟨_, .inr ⟨fdnew, hfree, hopen, rfl, rfl⟩, hI⟩

theorem onWorld_sysFcntl (hT : Tracks env alive ends reopens I) (h : I t r D) (hP : alive P)
    (hlt : P < t.processes) {fd : DWORD} (hfd : ValidFd fd) (cmd arg : DWORD) :
    OnWorld (sysFcntl env P fd cmd arg) t r (fun eax t' r' ↦ ∃ D',
      (Call.fcntl fd cmd arg).Redirects env ends reopens t r P D eax D' ∧ I t' r' D') W := by
  -- what is left to show where no descriptor is made
  have hsame : ∀ eax t' r', (∀ fdnew, ¬Dupfd t P fd cmd arg fdnew) → I t' r' D → ∃ D',
      (Call.fcntl fd cmd arg).Redirects env ends reopens t r P D eax D' ∧ I t' r' D' :=
    fun eax t' r' hno hI ↦ ⟨D, .inl ⟨hno, rfl⟩, hI⟩
  apply onWorld_withHandler P hfd
  · exact fun hclosed ↦ hsame _ t r (fun _ hdup ↦ hdup.2.1 hclosed) h
  · intro a ha
    obtain ⟨hd, hhd⟩ := Option.ne_none_iff_exists'.mp ((hT.sound h).live ha)
    have hset : ∀ hd', hd'.kind = hd.kind → I (t.setObject a (some hd')) r D :=
      fun hd' hkind ↦ hT.setObject h ha hhd hkind
    have hother : cmd ≠ F_DUPFD → ∀ fdnew, ¬Dupfd t P fd cmd arg fdnew :=
      fun hne _ hdup ↦ hne hdup.1
    apply onWorld_bind
    apply onWorld_deref hhd
    split
    · next hcmd => exact onWorld_pure (hsame _ t r (hother (hcmd ▸ by decide)) h)
    split
    · next hcmd =>
      apply onWorld_bind
      apply onWorld_modifyTable
      exact onWorld_pure (hsame _ _ r (hother (hcmd ▸ by decide)) (hset _ rfl))
    split
    · next hcmd => exact onWorld_pure (hsame _ t r (hother (hcmd ▸ by decide)) h)
    split
    · next hcmd =>
      apply onWorld_bind
      apply onWorld_modifyTable
      exact onWorld_pure (hsame _ _ r (hother (hcmd ▸ by decide)) (hset _ rfl))
    split
    · next hcmd =>
      apply onWorld_bind
      apply onWorld_findFreeFD
      cases hfree : lowestFree (t.openFiles P) with
      | none =>
        apply onWorld_pure
        refine hsame _ t r (fun fdnew hdup ↦ ?_) h
        exact Option.some_ne_none fdnew (hdup.2.2.1.symm.trans hfree)
      | some fdnew =>
        dsimp only
        split
        · next harg =>
          apply onWorld_pure
          refine hsame _ t r (fun n hdup ↦ ?_) h
          obtain rfl : n = fdnew := Option.some.inj (hdup.2.2.1.symm.trans hfree)
          exact Int.not_lt.mpr hdup.2.2.2 harg
        · next harg =>
          apply onWorld_bind
          apply onWorld_dup2_lowest hT h hP hlt hfd hfree
          · exact fun hclosed ↦ absurd (ha.symm.trans hclosed) (Option.some_ne_none a)
          · intro t' r' b hnew hopen hb hobject hI
            apply onWorld_bind
            apply onWorld_slot (lowestFree_eq_some.mp hfree).1
            rw [hb]
            apply onWorld_bind
            apply onWorld_deref hobject
            apply onWorld_bind
            apply onWorld_modifyTable
            apply onWorld_pure
            exact ⟨_, .inr ⟨fdnew, ⟨hcmd, hopen, hfree, Int.not_lt.mp harg⟩, rfl, rfl⟩,
              hT.setObject hI hb hobject rfl⟩
    · next hcmd => exact onWorld_pure (hsame _ t r (hother hcmd) h)

theorem onWorld_sysPipe (hT : Tracks env alive ends reopens I) (h : I t r D) (hP : alive P)
    (hlt : P < t.processes) {fds : Nat × Nat} (hfree : lowestTwo (t.openFiles P) = some fds)
    (address : DWORD) :
    OnWorld (sysPipe env P address) t r (fun eax t' r' ↦ ∃ D',
      (Call.pipe address).Redirects env ends reopens t r P D eax D' ∧ I t' r' D') W := by
  apply onWorld_pipe env hfree
  · intro hmade
    exact ⟨_, .inr ⟨fds, hfree, rfl, rfl⟩, hT.writeMemory (hT.piped h hP hlt hmade hfree)⟩
  · exact fun hfailed ↦ ⟨D, .inl ⟨hfailed, rfl⟩, hT.unpiped h hfailed⟩

/-! ### Loops over a table -/

theorem onWorld_forkFiles (hT : Tracks env alive ends reopens I) {child : Nat} (h : I t r D)
    (hchild : alive child) (hlt : child < t.processes) (hne : P ≠ child) {fds : List Nat}
    (hfds : ∀ fd ∈ fds, fd < MAX_OPEN_FILES) (hnodup : fds.Nodup)
    (hempty : ∀ fd ∈ fds, t.openFiles child fd = none) {Q : Unit → Table → ρ → Prop}
    (hQ : ∀ t' r', I t' r' (fun p i ↦ if p = child ∧ i ∈ fds then D P i else D p i) →
      Q ⟨⟩ t' r') : OnWorld (forkFiles env P child fds) t r Q W := by
  induction fds generalizing t r D with
  | nil =>
    apply onWorld_pure
    apply hQ
    simpa using h
  | cons fd fds ih =>
    obtain ⟨hnotin, hrest⟩ := List.nodup_cons.mp hnodup
    have hfd := hfds fd List.mem_cons_self
    have hslot := hempty fd List.mem_cons_self
    have hfds' : ∀ i ∈ fds, i < MAX_OPEN_FILES := fun i hi ↦ hfds i (List.mem_cons_of_mem fd hi)
    have hempty' : ∀ i ∈ fds, t.openFiles child i = none :=
      fun i hi ↦ hempty i (List.mem_cons_of_mem fd hi)
    -- either way the child now refers to what its parent does at this descriptor
    have hcopied : (fun p i ↦ if p = child ∧ i ∈ fds then redirect D child fd (D P fd) P i
        else redirect D child fd (D P fd) p i) =
        fun p i ↦ if p = child ∧ i ∈ fd :: fds then D P i else D p i := by
      funext p i
      rw [redirect_of_ne _ _ _ _ fun hc ↦ hne hc.1]
      unfold redirect
      by_cases hi : i = fd
      · subst hi
        simp [hnotin]
      · simp [hi]
    apply onWorld_bind
    apply onWorld_bind
    apply onWorld_slot hfd
    cases ha : t.openFiles P fd with
    | none =>
      apply onWorld_pure
      apply ih h hlt hfds' hrest hempty'
      intro t' r' hI
      apply hQ
      rw [← hcopied, hT.closed h ha, redirect_eq_self (hT.closed h hslot)]
      exact hI
    | some a =>
      obtain ⟨hd, hhd⟩ := Option.ne_none_iff_exists'.mp ((hT.sound h).live ha)
      apply onWorld_bind
      apply onWorld_duplicate env child hhd
      apply onWorld_setSlot hfd
      apply ih (hT.copied h hchild hlt hfd hslot ha hhd) hlt hfds' hrest
      · intro i hi
        have hslot' : ¬(child = child ∧ i = fd) := fun hc ↦ hnotin (hc.2 ▸ hi)
        exact (if_neg hslot').trans (hempty' i hi)
      · intro t' r' hI
        apply hQ
        rw [← hcopied]
        exact hI

theorem onWorld_fork (hT : Tracks env alive ends reopens I) (h : I t r D)
    (hlt : P < t.processes) :
    OnWorld (Call.fork.run env P) t r (fun eax t' r' ↦ ∃ D',
      Call.fork.Redirects env ends reopens t r P D eax D' ∧ I t' r' D') W := by
  have hs := hT.sound h
  have hempty : ∀ fd, t.openFiles t.processes fd = none := by
    intro fd
    by_contra hopen
    obtain ⟨a, ha⟩ := Option.ne_none_iff_exists'.mp hopen
    exact Nat.lt_irrefl _ (hs.within ha).1
  apply onWorld_bind
  apply onWorld_get
  rintro w rfl rfl
  apply onWorld_bind
  apply onWorld_modifyTable
  apply onWorld_forkFiles hT (hT.process h) (hT.newborn h) (Nat.lt_succ_self _) (Nat.ne_of_lt hlt)
    (fun fd hfd ↦ List.mem_range.mp hfd) List.nodup_range (fun fd _ ↦ hempty fd)
  intro t' r' hI
  apply onWorld_pure
  refine ⟨_, rfl, ?_⟩
  have hall : (fun p i ↦ if p = w.table.processes ∧ i ∈ List.range MAX_OPEN_FILES then D P i
      else D p i) = fun p i ↦ if p = w.table.processes then D P i else D p i := by
    funext p i
    by_cases hi : i ∈ List.range MAX_OPEN_FILES
    · simp [hi]
    · -- beyond the table nothing is open
      have hclosed : D P i = none := by
        apply hT.closed h
        by_contra hopen
        obtain ⟨a, ha⟩ := Option.ne_none_iff_exists'.mp hopen
        exact hi (List.mem_range.mpr (hs.within ha).2)
      by_cases hp : p = w.table.processes
      · rw [if_neg (fun hc ↦ hi hc.2), if_pos hp, hclosed, hp, hT.closed h (hempty i)]
      · rw [if_neg (fun hc ↦ hp hc.1), if_neg hp]
  rw [← hall]
  exact hI

theorem onWorld_releaseFiles (hT : Tracks env alive ends reopens I) (h : I t r D)
    (hP : alive P) {gone : Nat → Prop} {fds : List Nat}
    (hfds : ∀ fd ∈ fds, fd < MAX_OPEN_FILES) (hnodup : fds.Nodup)
    (hgone : ∀ fd ∈ fds, (∃ h, t.handlerAt P fd = some h ∧ h.inheritable = false) ↔ gone fd)
    {Q : Unit → Table → ρ → Prop}
    (hQ : ∀ t' r' D', I t' r' D' → (∀ p i, (p = P ∧ i ∈ fds ∧ gone i → D' p i = none) ∧
      (¬(p = P ∧ i ∈ fds ∧ gone i) → D' p i = D p i)) → Q ⟨⟩ t' r') :
    OnWorld (releaseFiles env P fds) t r Q W := by
  induction fds generalizing t r D with
  | nil =>
    apply onWorld_pure
    apply hQ t r D h
    exact fun p i ↦ ⟨fun hc ↦ absurd hc.2.1 List.not_mem_nil, fun _ ↦ rfl⟩
  | cons fd fds ih =>
    obtain ⟨hnotin, hrest⟩ := List.nodup_cons.mp hnodup
    have hfd := hfds fd List.mem_cons_self
    have hfds' : ∀ i ∈ fds, i < MAX_OPEN_FILES := fun i hi ↦ hfds i (List.mem_cons_of_mem fd hi)
    have hhere := hgone fd List.mem_cons_self
    have hlater : ∀ i ∈ fds, (∃ h, t.handlerAt P i = some h ∧ h.inheritable = false) ↔ gone i :=
      fun i hi ↦ hgone i (List.mem_cons_of_mem fd hi)
    have hs := hT.sound h
    -- where this descriptor stays, the rest of the loop says it all
    have hstays : ¬gone fd → OnWorld (releaseFiles env P fds) t r Q W := by
      intro hstay
      apply ih h hfds' hrest hlater
      intro t' r' D' hI hD
      apply hQ t' r' D' hI
      intro p i
      have hsame : (p = P ∧ i ∈ fd :: fds ∧ gone i) ↔ (p = P ∧ i ∈ fds ∧ gone i) := by
        constructor
        · rintro ⟨hp, hi, hg⟩
          rcases List.mem_cons.mp hi with rfl | hi
          · exact absurd hg hstay
          · exact ⟨hp, hi, hg⟩
        · exact fun hc ↦ ⟨hc.1, List.mem_cons_of_mem fd hc.2.1, hc.2.2⟩
      rw [hsame]
      exact hD p i
    apply onWorld_bind
    apply onWorld_bind
    apply onWorld_slot hfd
    cases ha : t.openFiles P fd with
    | none =>
      apply onWorld_pure
      apply hstays
      intro hg
      obtain ⟨hd, hvalue, -⟩ := hhere.mpr hg
      exact absurd (((handlerAt_eq_none hs).mpr ha).symm.trans hvalue) (by simp)
    | some a =>
      obtain ⟨hd, hhd, hvalue⟩ := handlerAt_of_openFiles hs ha
      apply onWorld_bind
      apply onWorld_deref hhd
      split
      · next hinherit =>
        have hg : gone fd := hhere.mp ⟨hd, hvalue, Bool.not_eq_true _ ▸ hinherit⟩
        apply onWorld_bind
        apply onWorld_closeHandler env P (hs.live ha)
        apply onWorld_bind
        apply onWorld_deleteHandler env P (hs.live ha)
        apply onWorld_setSlot hfd
        have hreleased := hT.released (hT.shut h hP ha) hP ha
        rw [redirect_redirect] at hreleased
        apply ih hreleased hfds' hrest
        · intro i hi
          have hslot : ¬(P = P ∧ i = fd) := fun hc ↦ hnotin (hc.2 ▸ hi)
          rw [handlerAt_of_keeps (keeps_release hs ha hslot)]
          exact hlater i hi
        · intro t' r' D' hI hD
          apply hQ t' r' D' hI
          intro p i
          by_cases hslot : p = P ∧ i = fd
          · obtain ⟨rfl, rfl⟩ := hslot
            have hnone : D' p i = none := by
              rw [(hD p i).2 fun hc ↦ hnotin hc.2.1, redirect_same]
            exact ⟨fun _ ↦ hnone, fun hc ↦ absurd ⟨rfl, List.mem_cons_self, hg⟩ hc⟩
          · constructor
            · rintro ⟨hp, hi, hgi⟩
              rcases List.mem_cons.mp hi with hi | hi
              · exact absurd ⟨hp, hi⟩ hslot
              · exact (hD p i).1 ⟨hp, hi, hgi⟩
            · intro hc
              rw [(hD p i).2 fun hc' ↦ hc ⟨hc'.1, List.mem_cons_of_mem fd hc'.2.1, hc'.2.2⟩,
                redirect_of_ne _ _ _ _ hslot]
      · next hinherit =>
        apply onWorld_pure
        apply hstays
        intro hg
        obtain ⟨hd', hvalue', hfalse⟩ := hhere.mpr hg
        obtain rfl : hd = hd' := Option.some.inj (hvalue.symm.trans hvalue')
        exact hinherit (Bool.eq_false_iff.mp hfalse)

theorem onWorld_execve (hT : Tracks env alive ends reopens I) (h : I t r D) (hP : alive P) :
    OnWorld (Call.execve.run env P) t r (fun eax t' r' ↦ ∃ D',
      Call.execve.Redirects env ends reopens t r P D eax D' ∧ I t' r' D') W := by
  have hs := hT.sound h
  apply onWorld_bind
  apply onWorld_releaseFiles hT h hP (fun fd hfd ↦ List.mem_range.mp hfd) List.nodup_range
    (fun fd _ ↦ Iff.rfl)
  intro t' r' D' hI hD
  apply onWorld_pure
  refine ⟨D', fun p i ↦ ?_, hI⟩
  constructor
  · rintro ⟨hp, hd, hvalue, hinherit⟩
    obtain ⟨a, ha, -⟩ := slot_of_handlerAt hvalue
    exact (hD p i).1 ⟨hp, List.mem_range.mpr (hs.within ha).2, hd, hvalue, hinherit⟩
  · exact fun hc ↦ (hD p i).2 fun hc' ↦ hc ⟨hc'.1, hc'.2.2⟩

/-- Every call on a world in which the references are known, to its end. -/
theorem onWorld_call (hT : Tracks env alive ends reopens I) (h : I t r D) (hP : alive P) {c : Call}
    (hc : Allowed t P c) (hplain : c.Plain) :
    OnWorld (c.run env P) t r (fun eax t' r' ↦ ∃ D',
      c.Redirects env ends reopens t r P D eax D' ∧ I t' r' D') (fun t' r' ↦ I t' r' D) := by
  obtain ⟨hlt, hfds, hslots⟩ := hc
  cases c with
  | openFile path access => exact onWorld_sysOpen hT h hP hlt hplain access
  | close fd => exact onWorld_sysClose hT h hP (hfds fd List.mem_cons_self)
  | dup fd => exact onWorld_sysDup hT h hP hlt (hfds fd List.mem_cons_self)
  | dup2 fdold fdnew =>
    have hnew : fdnew ∈ (Call.dup2 fdold fdnew).descriptors :=
      List.mem_cons_of_mem _ List.mem_cons_self
    apply onWorld_sysDup2 hT h hP hlt (hfds fdold List.mem_cons_self) (hfds fdnew hnew)
    · exact fun hfail ↦ ⟨D, .inl ⟨hfail, rfl⟩, h⟩
    · exact fun t' r' b hd hopen _ _ hI ↦ ⟨_, .inr ⟨hopen, rfl, rfl⟩, hI⟩
  | fcntl fd cmd arg => exact onWorld_sysFcntl hT h hP hlt (hfds fd List.mem_cons_self) cmd arg
  | pipe address =>
    simp only [Call.hasSlots] at hslots
    obtain ⟨fds, hfree⟩ := Option.isSome_iff_exists.mp hslots
    exact onWorld_sysPipe hT h hP hlt hfree address
  | fork => exact onWorld_fork hT h hlt
  | execve => exact onWorld_execve hT h hP

end Calls

end Keow.Files
