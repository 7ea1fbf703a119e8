import Keow.Files.Slots

/-!
# Calls on the tables and the rest of the world

Where a call gets an object from depends on what the methods answer. A program logic that
follows the rest of the world beside the tables, and with it what `sys_open` does in each of the
cases that end it.
-/

namespace Keow.Files

open Keow.Base Keow.Kernel

variable {ρ : Type}

/-! ## A program logic -/

/-- From any world with this table and this rest `x` returns with `Q` of what it leaves, or stops
with `W`; it does not run into undefined behaviour. -/
structure OnWorld {α : Type} (x : F ρ α) (t : Table) (r : ρ) (Q : α → Table → ρ → Prop)
    (W : Table → ρ → Prop) : Prop where
  safe : ∀ w : FileWorld ρ, w.table = t → w.rest = r →
    Comp.Safe x w (fun a w' ↦ Q a w'.table w'.rest) (fun w' ↦ W w'.table w'.rest)

section OnWorld

variable {α β : Type} {t : Table} {r : ρ} {Q : α → Table → ρ → Prop} {W : Table → ρ → Prop}

theorem onWorld_pure {a : α} (h : Q a t r) : OnWorld (pure a : F ρ α) t r Q W := by
  constructor
  rintro w rfl rfl
  exact h

theorem onWorld_exit (h : W t r) : OnWorld (Comp.exit : F ρ α) t r Q W := by
  constructor
  rintro w rfl rfl
  exact h

theorem onWorld_bind {x : F ρ β} {f : β → F ρ α}
    (h : OnWorld x t r (fun b t' r' ↦ OnWorld (f b) t' r' Q W) W) :
    OnWorld (x >>= f) t r Q W := by
  constructor
  intro w ht hr
  rw [Comp.safe_bind]
  exact Comp.safe_mono (h.safe w ht hr) (fun b w' hb ↦ hb.safe w' rfl rfl) (fun _ hW ↦ hW)

theorem onWorld_mono {x : F ρ α} {Q' : α → Table → ρ → Prop} {W' : Table → ρ → Prop}
    (h : OnWorld x t r Q W) (hQ : ∀ a t' r', Q a t' r' → Q' a t' r')
    (hW : ∀ t' r', W t' r' → W' t' r') : OnWorld x t r Q' W' :=
  ⟨fun w ht hr ↦ Comp.safe_mono (h.safe w ht hr) (fun a w' ↦ hQ a w'.table w'.rest)
    fun w' ↦ hW w'.table w'.rest⟩

/-- The table in which it stops, with or without a result. -/
theorem table_of_onWorld {x : F ρ α} (S : Table → Prop) (h : OnWorld x t r Q W) {w : FileWorld ρ}
    (ht : w.table = t) (hr : w.rest = r) (hQ : ∀ a t' r', Q a t' r' → S t')
    (hW : ∀ t' r', W t' r' → S t') : S (x w).state.table :=
  Comp.state_of_safe (fun w' ↦ S w'.table) (h.safe w ht hr) (fun a w' ↦ hQ a w'.table w'.rest)
    fun w' ↦ hW w'.table w'.rest

/-- What holds whatever the rest of the world is. -/
theorem onWorld_of_onTable {x : F ρ α} {Q : α → Table → Prop} {W : Table → Prop}
    (h : OnTable x t Q W) : OnWorld x t r (fun a t' _ ↦ Q a t') (fun t' _ ↦ W t') :=
  ⟨fun w ht _ ↦ h.safe w ht⟩

theorem onWorld_ite {c : Prop} [Decidable c] {x y : F ρ α} (hx : OnWorld x t r Q W)
    (hy : OnWorld y t r Q W) : OnWorld (if c then x else y) t r Q W := by
  split
  · exact hx
  · exact hy

theorem onWorld_get {f : FileWorld ρ → F ρ α}
    (h : ∀ w : FileWorld ρ, w.table = t → w.rest = r → OnWorld (f w) t r Q W) :
    OnWorld (Comp.get >>= f) t r Q W :=
  ⟨fun w ht hr ↦ (Comp.safe_bind f _).mpr ((h w ht hr).safe w ht hr)⟩

theorem onWorld_modifyTable {f : Table → Table} {Q : Unit → Table → ρ → Prop}
    (h : Q ⟨⟩ (f t) r) : OnWorld (modifyTable f : F ρ Unit) t r Q W := by
  constructor
  rintro w rfl rfl
  exact h

theorem onWorld_modifyRest {f : ρ → ρ} {Q : Unit → Table → ρ → Prop} (h : Q ⟨⟩ t (f r)) :
    OnWorld (modifyRest f) t r Q W := by
  constructor
  rintro w rfl rfl
  exact h

theorem onWorld_outside {f : ρ → α × ρ} (h : Q (f r).1 t (f r).2) :
    OnWorld (outside f) t r Q W := by
  constructor
  rintro w rfl rfl
  exact h

theorem onWorld_slot {P fd : Nat} (hfd : fd < MAX_OPEN_FILES) {Q : Option Nat → Table → ρ → Prop}
    (h : Q (t.openFiles P fd) t r) : OnWorld (slot P fd : F ρ (Option Nat)) t r Q W := by
  constructor
  rintro w rfl rfl
  exact Comp.safe_of_eq_ok (slot_eq P hfd w) h

theorem onWorld_setSlot {P fd : Nat} (hfd : fd < MAX_OPEN_FILES) {a : Option Nat}
    {Q : Unit → Table → ρ → Prop} (h : Q ⟨⟩ (t.setSlot P fd a) r) :
    OnWorld (setSlot P fd a : F ρ Unit) t r Q W := by
  constructor
  rintro w rfl rfl
  exact Comp.safe_of_eq_ok (setSlot_eq P hfd a w) h

theorem onWorld_findFreeFD {P : Nat} {Q : Option Nat → Table → ρ → Prop}
    (h : Q (lowestFree (t.openFiles P)) t r) :
    OnWorld (findFreeFD P : F ρ (Option Nat)) t r Q W := by
  constructor
  rintro w rfl rfl
  have hscan := findFreeFD_eq P w
  revert hscan
  -- kept from unfolding the scan
  generalize (findFreeFD P : F ρ (Option Nat)) = x
  rintro ⟨new, -, heq⟩
  exact Comp.safe_of_eq_ok heq h

theorem onWorld_deref {a : Nat} {h : Handler} (ha : t.object a = some h)
    {Q : Handler → Table → ρ → Prop} (hQ : Q h t r) :
    OnWorld (deref a : F ρ Handler) t r Q W := by
  constructor
  rintro w rfl rfl
  exact Comp.safe_of_eq_ok (deref_eq ha) hQ

theorem onWorld_method {a : Nat} (ha : t.object a ≠ none) {f : ρ → α × ρ}
    (h : Q (f r).1 t (f r).2) : OnWorld (method a f) t r Q W := by
  obtain ⟨hd, hhd⟩ := Option.ne_none_iff_exists'.mp ha
  exact onWorld_bind (onWorld_deref hhd (onWorld_outside h))

end OnWorld

section Objects

variable (env : Environment ρ) (P : Nat) {t : Table} {r : ρ} {W : Table → ρ → Prop}

theorem onWorld_newHandler {kind : HandlerKind} {Q : Nat → Table → ρ → Prop}
    (h : Q t.fresh (t.alloc { kind := kind }) (env.construct P t.fresh kind r)) :
    OnWorld (newHandler env P kind) t r Q W := by
  apply onWorld_get
  rintro w rfl rfl
  apply onWorld_bind
  apply onWorld_modifyTable
  apply onWorld_bind
  apply onWorld_modifyRest
  exact onWorld_pure h

theorem onWorld_duplicate {a : Nat} {h : Handler} (ha : t.object a = some h)
    {Q : Nat → Table → ρ → Prop}
    (hQ : Q t.fresh (t.alloc { kind := h.kind })
      (env.copy P a t.fresh (env.construct P t.fresh h.kind r))) :
    OnWorld (duplicate env P a) t r Q W := by
  apply onWorld_bind
  apply onWorld_deref ha
  apply onWorld_bind
  apply onWorld_newHandler
  apply onWorld_bind
  apply onWorld_modifyRest
  exact onWorld_pure hQ

theorem onWorld_closeHandler {a : Nat} (ha : t.object a ≠ none) {Q : Unit → Table → ρ → Prop}
    (h : Q ⟨⟩ t (env.close P a r)) : OnWorld (closeHandler env P a) t r Q W := by
  obtain ⟨hd, hhd⟩ := Option.ne_none_iff_exists'.mp ha
  exact onWorld_bind (onWorld_deref hhd (onWorld_modifyRest h))

theorem onWorld_deleteHandler {a : Nat} (ha : t.object a ≠ none) {Q : Unit → Table → ρ → Prop}
    (h : Q ⟨⟩ (t.setObject a none) (env.close P a r)) :
    OnWorld (deleteHandler env P a) t r Q W := by
  apply onWorld_bind
  apply onWorld_closeHandler env P ha
  exact onWorld_modifyTable h

theorem onWorld_kernelError {Q : DWORD → Table → ρ → Prop}
    (h : Q (-win32ErrToUnixError (env.lastError r)) t r) :
    OnWorld (kernelError env) t r Q W := by
  apply onWorld_get
  rintro w rfl rfl
  exact onWorld_pure h

/-- Behind the common check, for a descriptor of the table. -/
theorem onWorld_withHandler {fd : DWORD} (hfd : ValidFd fd) {call : Nat → F ρ DWORD}
    {Q : DWORD → Table → ρ → Prop} (hclosed : t.openFiles P fd.toNat = none → Q (-EBADF) t r)
    (hopen : ∀ a, t.openFiles P fd.toNat = some a → OnWorld (call a) t r Q W) :
    OnWorld (withHandler P fd call) t r Q W := by
  rw [withHandler, if_neg (fun hr ↦ (refused_iff.mp hr).1 hfd), toInt_of_validFd hfd]
  apply onWorld_bind
  apply onWorld_slot hfd
  cases ha : t.openFiles P fd.toNat with
  | none => exact onWorld_pure (hclosed ha)
  | some a => exact hopen a ha

end Objects

/-! ## Opening a path -/

/-- How an object comes about: constructed for a path, or copied from the one at an address. -/
inductive Origin where
  | made (kind : HandlerKind)
  | copied (a : Nat) (kind : HandlerKind)

def Origin.kind : Origin → HandlerKind
  | .made kind => kind
  | .copied _ kind => kind

/-- What the constructor, and `Duplicate` behind it, do for an object at `b`. -/
def born (env : Environment ρ) (P b : Nat) (r : ρ) : Origin → ρ
  | .made kind => env.construct P b kind r
  | .copied a kind => env.copy P a b (env.construct P b kind r)

/-- What an object for a path is made from, if there is anything at the path. -/
def PathHandler.origin (t : Table) : PathHandler → Option Origin
  | .unknown => none
  | .made kind => some (.made kind)
  | .ofDescriptor q fd =>
      if fd < 0 ∨ (MAX_OPEN_FILES : Int) ≤ fd then none
      else (t.openFiles q fd.toNat).bind fun a ↦ (t.object a).map fun h ↦ .copied a h.kind

/-- The path is that of a descriptor which is not in use: the kernel thread follows a null
pointer. -/
def PathHandler.EndsThread (t : Table) : PathHandler → Prop
  | .ofDescriptor q fd => 0 ≤ fd ∧ fd < (MAX_OPEN_FILES : Int) ∧ t.openFiles q fd.toNat = none
  | _ => False

/-- The `Open` of `sys_open`, on an object just made: its answer, and the rest of the world. -/
def openResult (env : Environment ρ) (P : Nat) (t : Table) (r : ρ) (o : Origin) (access : DWORD) :
    Bool × ρ :=
  env.openHandler P t.fresh (win32Access access) (win32Share access) (win32Disposition access) 0#32
    (born env P t.fresh r o)

/-- There is no free slot for a path, nothing at it, or `Open` fails. -/
def OpenFails (env : Environment ρ) (P : Nat) (t : Table) (r : ρ) (path : PathHandler)
    (access : DWORD) : Prop :=
  lowestFree (t.openFiles P) = none ∨ path.origin t = none ∨
    ∃ o, path.origin t = some o ∧ (openResult env P t r o access).1 = false

section Open

open Table

variable (env : Environment ρ) (P : Nat) {t : Table} {r : ρ} {W : Table → ρ → Prop}
  {path : PathHandler}

theorem onWorld_createForPath (hs : t.Sound) {Q : Option Nat → Table → ρ → Prop}
    (hnone : path.origin t = none → ¬path.EndsThread t → Q none t r)
    (hsome : ∀ o, path.origin t = some o →
      Q (some t.fresh) (t.alloc { kind := o.kind }) (born env P t.fresh r o))
    (hW : path.EndsThread t → W t r) : OnWorld (createForPath env P path) t r Q W := by
  cases path with
  | unknown => exact onWorld_pure (hnone rfl id)
  | made kind =>
    apply onWorld_bind
    apply onWorld_newHandler
    exact onWorld_pure (hsome (.made kind) rfl)
  | ofDescriptor q fd =>
    simp only [createForPath]
    split
    · next hout =>
      apply onWorld_pure
      apply hnone (if_pos hout)
      rintro ⟨hlow, hhigh, -⟩
      omega
    · next hin =>
      obtain ⟨n, rfl⟩ := Int.eq_ofNat_of_zero_le (show 0 ≤ fd by omega)
      have hn : n < MAX_OPEN_FILES := by omega
      apply onWorld_bind
      apply onWorld_slot hn
      cases ha : t.openFiles q n with
      | none => exact onWorld_exit (hW ⟨by omega, by omega, ha⟩)
      | some a =>
        obtain ⟨h, hh⟩ := Option.ne_none_iff_exists'.mp (hs.live ha)
        have horigin : (PathHandler.ofDescriptor q n).origin t = some (.copied a h.kind) := by
          rw [PathHandler.origin, if_neg hin, Int.toNat_natCast, ha, Option.bind_some, hh,
            Option.map_some]
        apply onWorld_bind
        apply onWorld_duplicate env P hh
        exact onWorld_pure (hsome _ horigin)

variable {env P}

theorem onWorld_moreFlags {ioh : Nat} (hlive : t.object ioh ≠ none) {access : DWORD}
    {J : ρ → Prop} (hseek : ∀ r offset method, J r → J (env.seek P ioh offset method r).2)
    (htruncate : ∀ r, J r → J (env.truncate P ioh r)) (hJ : J r) {Q : Unit → Table → ρ → Prop}
    (h : ∀ r', J r' → Q ⟨⟩ t r') : OnWorld (moreFlags env P ioh access) t r Q W := by
  have happend : ∀ r', J r' → OnWorld (do
      if access &&& O_APPEND ≠ 0#32 then
        let _ ← method ioh (env.seek P ioh 0#64 FILE_END)) t r' Q W := by
    intro r' hr'
    apply onWorld_ite
    · apply onWorld_bind
      exact onWorld_method hlive (onWorld_pure (h _ (hseek _ _ _ hr')))
    · exact onWorld_pure (h r' hr')
  apply onWorld_ite
  · apply onWorld_bind
    apply onWorld_method hlive
    apply onWorld_bind
    apply onWorld_method hlive
    exact happend _ (htruncate _ (hseek _ _ _ hJ))
  · exact happend r hJ

variable (env P)

/-- `sys_open`, in each of the cases that end it. -/
theorem onWorld_open (hs : t.Sound) (access : DWORD) {Q : DWORD → Table → ρ → Prop}
    (hfull : lowestFree (t.openFiles P) = none → Q (-EMFILE) t r)
    (hnone : ∀ fd, lowestFree (t.openFiles P) = some fd → path.origin t = none → Q (- ENXIO) t r)
    (hW : path.EndsThread t → W t r)
    (hopened : ∀ fd o, lowestFree (t.openFiles P) = some fd → path.origin t = some o →
      (openResult env P t r o access).1 = true →
      OnWorld (moreFlags env P t.fresh access) (t.install P fd { kind := o.kind })
        (openResult env P t r o access).2 (fun _ t' r' ↦ Q (BitVec.ofNat 32 fd) t' r') W)
    (hrefused : ∀ fd o, lowestFree (t.openFiles P) = some fd → path.origin t = some o →
      (openResult env P t r o access).1 = false →
      Q (-win32ErrToUnixError (env.lastError (openResult env P t r o access).2))
        (t.discard { kind := o.kind })
        (env.close P t.fresh (openResult env P t r o access).2)) :
    OnWorld (sysOpen env P path access) t r Q W := by
  unfold sysOpen
  apply onWorld_bind
  apply onWorld_findFreeFD
  cases hfree : lowestFree (t.openFiles P) with
  | none => exact onWorld_pure (hfull hfree)
  | some fd =>
    have hfd := (lowestFree_eq_some.mp hfree).1
    apply onWorld_bind
    apply onWorld_createForPath env P hs
    · exact fun horigin _ ↦ onWorld_pure (hnone fd hfree horigin)
    · intro o horigin
      have hnew : (t.alloc { kind := o.kind }).object t.fresh = some { kind := o.kind } :=
        if_pos rfl
      have hlive : (t.alloc { kind := o.kind }).object t.fresh ≠ none :=
        hnew ▸ Option.some_ne_none _
      apply onWorld_bind
      apply onWorld_method hlive
      split
      · next hok =>
        apply onWorld_bind
        apply onWorld_setSlot hfd
        apply onWorld_bind
        apply onWorld_mono (hopened fd o hfree horigin hok) _ fun _ _ h ↦ h
        exact fun _ _ _ hQ ↦ onWorld_pure hQ
      · next hfail =>
        apply onWorld_bind
        apply onWorld_kernelError
        apply onWorld_bind
        apply onWorld_deleteHandler env P hlive
        exact onWorld_pure (hrefused fd o hfree horigin (Bool.not_eq_true _ ▸ hfail))
    · exact hW

end Open

end Keow.Files
