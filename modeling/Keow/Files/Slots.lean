import Keow.Files.Bounds

/-!
# Slots and objects

The invariant of the tables: every slot points to an object of its own that is alive. A program
logic for the tables, whatever the rest of the world, and what the parts of the calls do to a
table that has the invariant.
-/

namespace Keow.Files

open Keow.Base Keow.Kernel

variable {ρ : Type}

namespace Table

/-- The object that a descriptor stands for. -/
def handlerAt (t : Table) (p fd : Nat) : Option Handler := (t.openFiles p fd).bind t.object

/-- Each slot in use belongs to a process, and points to an object that is alive and that no
other slot points to. -/
structure Sound (t : Table) : Prop where
  unshared : ∀ {p q fd fd' a}, t.openFiles p fd = some a → t.openFiles q fd' = some a →
    p = q ∧ fd = fd'
  live : ∀ {p fd a}, t.openFiles p fd = some a → t.object a ≠ none
  unborn : ∀ {a}, t.fresh ≤ a → t.object a = none
  within : ∀ {p fd a}, t.openFiles p fd = some a → p < t.processes ∧ fd < MAX_OPEN_FILES

/-- A slot still points where it did, and the object there is as it was. -/
def Keeps (t t' : Table) (p fd : Nat) : Prop :=
  t'.openFiles p fd = t.openFiles p fd ∧
    ∀ a, t.openFiles p fd = some a → t'.object a = t.object a

theorem keeps_refl (t : Table) (p fd : Nat) : Keeps t t p fd := ⟨rfl, fun _ _ ↦ rfl⟩

theorem keeps_trans {t₁ t₂ t₃ : Table} {p fd : Nat} (h : Keeps t₁ t₂ p fd)
    (h' : Keeps t₂ t₃ p fd) : Keeps t₁ t₃ p fd := by
  constructor
  · rw [h'.1, h.1]
  · intro a ha
    rw [h'.2 a (h.1.trans ha), h.2 a ha]

theorem handlerAt_of_keeps {t t' : Table} {p fd : Nat} (h : Keeps t t' p fd) :
    t'.handlerAt p fd = t.handlerAt p fd := by
  unfold handlerAt
  rw [h.1]
  cases ha : t.openFiles p fd with
  | none => rfl
  | some a => exact h.2 a ha

theorem handlerAt_eq_none {t : Table} (hs : t.Sound) {p fd : Nat} :
    t.handlerAt p fd = none ↔ t.openFiles p fd = none := by
  unfold handlerAt
  cases ha : t.openFiles p fd with
  | none => exact ⟨fun _ ↦ rfl, fun _ ↦ rfl⟩
  | some a => exact ⟨fun h ↦ absurd h (hs.live ha), fun h ↦ absurd h (by simp)⟩

theorem Sound.lt_fresh {t : Table} (hs : t.Sound) {p fd a : Nat}
    (ha : t.openFiles p fd = some a) : a < t.fresh := by
  apply Nat.lt_of_not_le
  intro hle
  exact hs.live ha (hs.unborn hle)

theorem slot_of_handlerAt {t : Table} {p fd : Nat} {h : Handler} (hh : t.handlerAt p fd = some h) :
    ∃ a, t.openFiles p fd = some a ∧ t.object a = some h :=
  Option.bind_eq_some_iff.mp hh

/-! ### Making and giving up objects -/

/-- A new object in a slot. -/
def install (t : Table) (P fd : Nat) (h : Handler) : Table :=
  (t.alloc h).setSlot P fd (some t.fresh)

/-- A slot is cleared, its object deleted. -/
def release (t : Table) (P fd a : Nat) : Table := (t.setObject a none).setSlot P fd none

/-- An object is made and deleted again. -/
def discard (t : Table) (h : Handler) : Table := (t.alloc h).setObject t.fresh none

section Slots

variable {t : Table} {P fd : Nat} {h : Handler} {a : Nat}

theorem object_setObject (t : Table) (a : Nat) (h : Option Handler) (b : Nat) :
    (t.setObject a h).object b = if b = a then h else t.object b := rfl

theorem openFiles_install (t : Table) (P fd : Nat) (h : Handler) (p i : Nat) :
    (t.install P fd h).openFiles p i =
      if p = P ∧ i = fd then some t.fresh else t.openFiles p i := rfl

theorem object_install (t : Table) (P fd : Nat) (h : Handler) (b : Nat) :
    (t.install P fd h).object b = if b = t.fresh then some h else t.object b := rfl

theorem openFiles_release (t : Table) (P fd a : Nat) (p i : Nat) :
    (t.release P fd a).openFiles p i = if p = P ∧ i = fd then none else t.openFiles p i := rfl

theorem object_release (t : Table) (P fd a b : Nat) :
    (t.release P fd a).object b = if b = a then none else t.object b := rfl

theorem sound_install (hs : t.Sound) (hP : P < t.processes) (hfd : fd < MAX_OPEN_FILES)
    (h : Handler) : (t.install P fd h).Sound := by
  constructor
  · intro p q i j a hp hq
    rw [openFiles_install] at hp hq
    split at hp <;> split at hq
    · next hp' hq' => exact ⟨hp'.1.trans hq'.1.symm, hp'.2.trans hq'.2.symm⟩
    · rw [← Option.some.inj hp] at hq
      exact absurd (hs.lt_fresh hq) (Nat.lt_irrefl _)
    · rw [← Option.some.inj hq] at hp
      exact absurd (hs.lt_fresh hp) (Nat.lt_irrefl _)
    · exact hs.unshared hp hq
  · intro p i a hp
    rw [openFiles_install] at hp
    rw [object_install]
    split
    · exact Option.some_ne_none h
    · next hne =>
      split at hp
      · exact absurd (Option.some.inj hp).symm hne
      · exact hs.live hp
  · intro a ha
    have hlt : t.fresh < a := ha
    rw [object_install, if_neg (by omega)]
    exact hs.unborn (by omega)
  · intro p i a hp
    rw [openFiles_install] at hp
    split at hp
    · next hslot =>
      obtain ⟨rfl, rfl⟩ := hslot
      exact ⟨hP, hfd⟩
    · exact hs.within hp

theorem sound_release (hs : t.Sound) (ha : t.openFiles P fd = some a) :
    (t.release P fd a).Sound := by
  constructor
  · intro p q i j b hp hq
    rw [openFiles_release] at hp hq
    split at hp <;> split at hq
    · cases hp
    · cases hp
    · cases hq
    · exact hs.unshared hp hq
  · intro p i b hp
    rw [openFiles_release] at hp
    split at hp
    · cases hp
    · next hslot =>
      have hne : b ≠ a := by
        rintro rfl
        exact hslot (hs.unshared hp ha)
      rw [object_release, if_neg hne]
      exact hs.live hp
  · intro b hb
    rw [object_release]
    split
    · rfl
    · exact hs.unborn hb
  · intro p i b hp
    rw [openFiles_release] at hp
    split at hp
    · cases hp
    · exact hs.within hp

theorem sound_discard (hs : t.Sound) (h : Handler) : (t.discard h).Sound := by
  have hobject : ∀ b, (t.discard h).object b = t.object b := by
    intro b
    show (if b = t.fresh then none else if b = t.fresh then some h else t.object b) = _
    split
    · next hb => exact (hs.unborn (Nat.le_of_eq hb.symm)).symm
    · rfl
  constructor
  · exact hs.unshared
  · intro p i b hp
    rw [hobject]
    exact hs.live hp
  · intro b hb
    rw [hobject]
    exact hs.unborn (Nat.le_of_succ_le hb)
  · exact hs.within

theorem sound_setObject (hs : t.Sound) (ha : t.openFiles P fd = some a) (h : Handler) :
    (t.setObject a (some h)).Sound := by
  constructor
  · exact hs.unshared
  · intro p i b hp
    rw [object_setObject]
    split
    · exact Option.some_ne_none h
    · exact hs.live hp
  · intro b hb
    have hb : t.fresh ≤ b := hb
    have hlt := hs.lt_fresh ha
    rw [object_setObject, if_neg (by omega)]
    exact hs.unborn hb
  · exact hs.within

/-- A new process has no slot in use. -/
theorem sound_processes (hs : t.Sound) {n : Nat} (hn : t.processes ≤ n) :
    ({ t with processes := n } : Table).Sound := by
  constructor
  · exact hs.unshared
  · exact hs.live
  · exact hs.unborn
  · intro p i a hp
    exact ⟨Nat.lt_of_lt_of_le (hs.within hp).1 hn, (hs.within hp).2⟩

/-! ### What the other slots see -/

theorem keeps_install (hs : t.Sound) {p i : Nat} (hslot : ¬(p = P ∧ i = fd)) (h : Handler) :
    Keeps t (t.install P fd h) p i := by
  constructor
  · rw [openFiles_install, if_neg hslot]
  · intro b hb
    have hlt := hs.lt_fresh hb
    rw [object_install, if_neg (by omega)]

theorem keeps_release (hs : t.Sound) (ha : t.openFiles P fd = some a) {p i : Nat}
    (hslot : ¬(p = P ∧ i = fd)) : Keeps t (t.release P fd a) p i := by
  constructor
  · rw [openFiles_release, if_neg hslot]
  · intro b hb
    have hne : b ≠ a := by
      rintro rfl
      exact hslot (hs.unshared hb ha)
    rw [object_release, if_neg hne]

theorem keeps_discard (hs : t.Sound) (h : Handler) (p i : Nat) : Keeps t (t.discard h) p i := by
  constructor
  · rfl
  · intro b hb
    have hlt := hs.lt_fresh hb
    show (if b = t.fresh then none else if b = t.fresh then some h else t.object b) = _
    rw [if_neg (by omega), if_neg (by omega)]

theorem keeps_setObject (hs : t.Sound) (ha : t.openFiles P fd = some a) {p i : Nat}
    (hslot : ¬(p = P ∧ i = fd)) (h : Option Handler) : Keeps t (t.setObject a h) p i := by
  constructor
  · rfl
  · intro b hb
    have hne : b ≠ a := by
      rintro rfl
      exact hslot (hs.unshared hb ha)
    rw [object_setObject, if_neg hne]

/-! ### The descriptors by value -/

/-- Descriptor tables that hold the objects themselves, with one entry changed. -/
def put (D : Nat → Nat → Option Handler) (P fd : Nat) (h : Option Handler) :
    Nat → Nat → Option Handler :=
  fun p i ↦ if p = P ∧ i = fd then h else D p i

theorem handlerAt_eq_put {t' : Table} {h : Option Handler} (hP : t'.handlerAt P fd = h)
    (hother : ∀ p i, ¬(p = P ∧ i = fd) → Keeps t t' p i) :
    t'.handlerAt = put t.handlerAt P fd h := by
  funext p i
  unfold put
  split
  · next hslot => rw [hslot.1, hslot.2, hP]
  · next hslot => exact handlerAt_of_keeps (hother p i hslot)

theorem handlerAt_install (hs : t.Sound) (P fd : Nat) (h : Handler) :
    (t.install P fd h).handlerAt = put t.handlerAt P fd (some h) := by
  apply handlerAt_eq_put
  · rw [handlerAt, openFiles_install, if_pos ⟨rfl, rfl⟩, Option.bind_some, object_install,
      if_pos rfl]
  · exact fun p i hslot ↦ keeps_install hs hslot h

theorem handlerAt_release (hs : t.Sound) (ha : t.openFiles P fd = some a) :
    (t.release P fd a).handlerAt = put t.handlerAt P fd none := by
  apply handlerAt_eq_put
  · rw [handlerAt, openFiles_release, if_pos ⟨rfl, rfl⟩, Option.bind_none]
  · exact fun p i hslot ↦ keeps_release hs ha hslot

theorem handlerAt_setObject (hs : t.Sound) (ha : t.openFiles P fd = some a)
    (h : Option Handler) : (t.setObject a h).handlerAt = put t.handlerAt P fd h := by
  apply handlerAt_eq_put
  · rw [handlerAt, show (t.setObject a h).openFiles = t.openFiles from rfl, ha, Option.bind_some,
      object_setObject, if_pos rfl]
  · exact fun p i hslot ↦ keeps_setObject hs ha hslot h

theorem handlerAt_of_slot (ha : t.openFiles P fd = some a) (hh : t.object a = some h) :
    t.handlerAt P fd = some h := by
  rw [handlerAt, ha, Option.bind_some, hh]

end Slots

end Table

/-! ## The parts of the calls, run -/

section Run

variable {α : Type} {w : FileWorld ρ} {a : Nat} {h : Handler}

theorem deref_eq (ha : w.table.object a = some h) : (deref a : F ρ Handler) w = .ok h w := by
  unfold deref
  rw [Comp.get_bind, ha]
  rfl

theorem method_eq (ha : w.table.object a = some h) (f : ρ → α × ρ) :
    (method a f : F ρ α) w = .ok (f w.rest).1 { w with rest := (f w.rest).2 } := by
  rw [method, Comp.bind_of_ok (deref_eq ha)]
  rfl

/-- Descriptor `fd` of `P` is open on the object at an address. -/
structure OpenAt (w : FileWorld ρ) (P : Nat) (fd : DWORD) (a : Nat) (h : Handler) : Prop where
  valid : ValidFd fd
  slot : w.table.openFiles P fd.toNat = some a
  object : w.table.object a = some h

/-- A method of what a descriptor is open on is the first thing that a call does. -/
theorem method_of_openAt {P : Nat} {fd : DWORD} (hopen : OpenAt w P fd a h) (f : ρ → α × ρ)
    (g : α → F ρ DWORD) :
    (method a f >>= g) { w with indexed := (fd.toNat : Int) :: w.indexed } =
      g (f w.rest).1 { w with rest := (f w.rest).2, indexed := (fd.toNat : Int) :: w.indexed } := by
  have hopened : ({ w with indexed := (fd.toNat : Int) :: w.indexed } :
      FileWorld ρ).table.object a = some h := hopen.object
  rw [Comp.bind_of_ok (method_eq hopened f)]

theorem dllError_eq (env : Environment ρ) (P : Nat) (w : FileWorld ρ) :
    dllError env P w = .ok (-win32ErrToUnixError (env.dllLastError P w.rest).1)
      { w with rest := (env.dllLastError P w.rest).2 } := rfl

theorem deleteHandler_eq (env : Environment ρ) (P : Nat) (ha : w.table.object a = some h) :
    deleteHandler env P a w =
      .ok ⟨⟩ { w with table := w.table.setObject a none, rest := env.close P a w.rest } := by
  have hclose : closeHandler env P a w = .ok ⟨⟩ { w with rest := env.close P a w.rest } := by
    rw [closeHandler, Comp.bind_of_ok (deref_eq ha)]
    rfl
  rw [deleteHandler, Comp.bind_of_ok hclose]
  rfl

theorem setSlot_eq (P : Nat) {fd : Nat} (hfd : fd < MAX_OPEN_FILES) (a : Option Nat)
    (w : FileWorld ρ) :
    (setSlot P fd a : F ρ Unit) w =
      .ok ⟨⟩ { w with table := w.table.setSlot P fd a, indexed := (fd : Int) :: w.indexed } := by
  have hin : ¬((fd : Int) < 0 ∨ (MAX_OPEN_FILES : Int) ≤ fd) := by omega
  have hindex : (index fd : F ρ Unit) w = .ok ⟨⟩ { w with indexed := (fd : Int) :: w.indexed } := by
    unfold index
    simp only [Bind.bind, Comp.bind, Comp.modify, if_neg hin, Pure.pure, Comp.pure]
  rw [setSlot, Comp.bind_of_ok hindex]
  rfl

end Run

/-! ## A program logic for the tables -/

/-- From any world with this table `x` returns with `Q` of its result and its table, or stops
with `W` of its table; it does not run into undefined behaviour. -/
structure OnTable {α : Type} (x : F ρ α) (t : Table) (Q : α → Table → Prop)
    (W : Table → Prop) : Prop where
  safe : ∀ w : FileWorld ρ, w.table = t →
    Comp.Safe x w (fun a w' ↦ Q a w'.table) (fun w' ↦ W w'.table)

section OnTable

variable {α β : Type} {t : Table} {Q : α → Table → Prop} {W : Table → Prop}

theorem onTable_pure {a : α} (h : Q a t) : OnTable (pure a : F ρ α) t Q W := by
  constructor
  rintro w rfl
  exact h

theorem onTable_bind {x : F ρ β} {f : β → F ρ α}
    (h : OnTable x t (fun b t' ↦ OnTable (f b) t' Q W) W) : OnTable (x >>= f) t Q W := by
  constructor
  intro w hw
  rw [Comp.safe_bind]
  exact Comp.safe_mono (h.safe w hw) (fun b w' hb ↦ hb.safe w' rfl) (fun _ hW ↦ hW)

/-- What has no other way to stop returns. -/
theorem exists_ok_of_onTable {x : F ρ α} (h : OnTable x t Q fun _ ↦ False) {w : FileWorld ρ}
    (hw : w.table = t) : ∃ a w', x w = .ok a w' ∧ Q a w'.table :=
  Comp.exists_ok_of_safe (h.safe w hw)

/-- The table in which it stops, with or without a result. -/
theorem table_of_onTable {x : F ρ α} (S : Table → Prop) (h : OnTable x t Q W) {w : FileWorld ρ}
    (hw : w.table = t) (hQ : ∀ a t', Q a t' → S t') (hW : ∀ t', W t' → S t') :
    S (x w).state.table :=
  Comp.state_of_safe (fun w' ↦ S w'.table) (h.safe w hw) (fun a w' ↦ hQ a w'.table)
    fun w' ↦ hW w'.table

theorem onTable_ite {c : Prop} [Decidable c] {x y : F ρ α} (hx : OnTable x t Q W)
    (hy : OnTable y t Q W) : OnTable (if c then x else y) t Q W := by
  split
  · exact hx
  · exact hy

theorem onTable_mono {x : F ρ α} {Q' : α → Table → Prop} {W' : Table → Prop}
    (h : OnTable x t Q W) (hQ : ∀ a t', Q a t' → Q' a t') (hW : ∀ t', W t' → W' t') :
    OnTable x t Q' W' :=
  ⟨fun w hw ↦ Comp.safe_mono (h.safe w hw) (fun a w' ↦ hQ a w'.table) (fun w' ↦ hW w'.table)⟩

/-- What is shown for some rest of the world. -/
theorem onTable_of_rest {x : F ρ α} (h : ρ → OnTable x t Q W) : OnTable x t Q W :=
  ⟨fun w hw ↦ (h w.rest).safe w hw⟩

theorem onTable_get {f : FileWorld ρ → F ρ α}
    (h : ∀ w : FileWorld ρ, w.table = t → OnTable (f w) t Q W) : OnTable (Comp.get >>= f) t Q W :=
  ⟨fun w hw ↦ (Comp.safe_bind f _).mpr ((h w hw).safe w hw)⟩

theorem onTable_modifyTable {f : Table → Table} {Q : Unit → Table → Prop} (h : Q ⟨⟩ (f t)) :
    OnTable (modifyTable f : F ρ Unit) t Q W := by
  constructor
  rintro w rfl
  exact h

theorem onTable_modifyRest {f : ρ → ρ} {Q : Unit → Table → Prop} (h : Q ⟨⟩ t) :
    OnTable (modifyRest f) t Q W := by
  constructor
  rintro w rfl
  exact h

theorem onTable_outside {f : ρ → α × ρ} (h : ∀ a, Q a t) : OnTable (outside f) t Q W := by
  constructor
  rintro w rfl
  exact h (f w.rest).1

theorem onTable_slot {P : Nat} {fd : Nat} (hfd : fd < MAX_OPEN_FILES)
    {Q : Option Nat → Table → Prop} (h : Q (t.openFiles P fd) t) :
    OnTable (slot P fd : F ρ (Option Nat)) t Q W := by
  constructor
  rintro w rfl
  exact Comp.safe_of_eq_ok (slot_eq P hfd w) h

theorem onTable_setSlot {P : Nat} {fd : Nat} (hfd : fd < MAX_OPEN_FILES) {a : Option Nat}
    {Q : Unit → Table → Prop} (h : Q ⟨⟩ (t.setSlot P fd a)) :
    OnTable (setSlot P fd a : F ρ Unit) t Q W := by
  constructor
  rintro w rfl
  exact Comp.safe_of_eq_ok (setSlot_eq P hfd a w) h

theorem onTable_findFreeFD {P : Nat} {Q : Option Nat → Table → Prop}
    (h : Q (lowestFree (t.openFiles P)) t) : OnTable (findFreeFD P : F ρ (Option Nat)) t Q W := by
  constructor
  rintro w rfl
  have hscan := findFreeFD_eq P w
  revert hscan
  -- kept from unfolding the scan
  generalize (findFreeFD P : F ρ (Option Nat)) = x
  rintro ⟨new, -, heq⟩
  exact Comp.safe_of_eq_ok heq h

theorem onTable_deref {a : Nat} {h : Handler} (ha : t.object a = some h)
    {Q : Handler → Table → Prop} (hQ : Q h t) : OnTable (deref a : F ρ Handler) t Q W := by
  constructor
  rintro w rfl
  exact Comp.safe_of_eq_ok (deref_eq ha) hQ

theorem onTable_method {a : Nat} (ha : t.object a ≠ none) {f : ρ → α × ρ} (h : ∀ b, Q b t) :
    OnTable (method a f) t Q W := by
  obtain ⟨hd, hhd⟩ := Option.ne_none_iff_exists'.mp ha
  apply onTable_bind
  exact onTable_deref hhd (onTable_outside h)

end OnTable

section Objects

variable (env : Environment ρ) (P : Nat) {t : Table} {W : Table → Prop}

theorem onTable_newHandler {kind : HandlerKind} {Q : Nat → Table → Prop}
    (h : Q t.fresh (t.alloc { kind := kind })) : OnTable (newHandler env P kind) t Q W := by
  apply onTable_get
  intro w hw
  apply onTable_bind
  apply onTable_modifyTable
  apply onTable_bind
  apply onTable_modifyRest
  rw [hw]
  exact onTable_pure h

theorem onTable_duplicate {a : Nat} {h : Handler} (ha : t.object a = some h)
    {Q : Nat → Table → Prop} (hQ : Q t.fresh (t.alloc { kind := h.kind })) :
    OnTable (duplicate env P a) t Q W := by
  apply onTable_bind
  apply onTable_deref ha
  apply onTable_bind
  apply onTable_newHandler
  apply onTable_bind
  apply onTable_modifyRest
  exact onTable_pure hQ

theorem onTable_closeHandler {a : Nat} (ha : t.object a ≠ none) {Q : Unit → Table → Prop}
    (h : Q ⟨⟩ t) : OnTable (closeHandler env P a) t Q W := by
  obtain ⟨hd, hhd⟩ := Option.ne_none_iff_exists'.mp ha
  apply onTable_bind
  exact onTable_deref hhd (onTable_modifyRest h)

theorem onTable_deleteHandler {a : Nat} (ha : t.object a ≠ none) {Q : Unit → Table → Prop}
    (h : Q ⟨⟩ (t.setObject a none)) : OnTable (deleteHandler env P a) t Q W := by
  apply onTable_bind
  apply onTable_closeHandler env P ha
  exact onTable_modifyTable h

theorem onTable_dllError {Q : DWORD → Table → Prop}
    (h : ∀ err, Q (-win32ErrToUnixError err) t) : OnTable (dllError env P) t Q W := by
  apply onTable_bind
  apply onTable_outside
  exact fun err ↦ onTable_pure (h err)

/-- Behind the common check, for a descriptor of the table. -/
theorem onTable_withHandler {fd : DWORD} (hfd : ValidFd fd) {call : Nat → F ρ DWORD}
    {Q : DWORD → Table → Prop} (hclosed : t.openFiles P fd.toNat = none → Q (-EBADF) t)
    (hopen : ∀ a, t.openFiles P fd.toNat = some a → OnTable (call a) t Q W) :
    OnTable (withHandler P fd call) t Q W := by
  rw [withHandler, if_neg (fun hr ↦ (refused_iff.mp hr).1 hfd), toInt_of_validFd hfd]
  apply onTable_bind
  apply onTable_slot hfd
  cases ha : t.openFiles P fd.toNat with
  | none => exact onTable_pure (hclosed ha)
  | some a => exact hopen a ha

end Objects

/-! ## What a call does to a table -/

namespace Table

/-- The invariant is kept, the slots outside `N` keep what they had, and the descriptors now
have the values `D`. -/
structure Moves (t t' : Table) (N : Nat → Nat → Prop) (D : Nat → Nat → Option Handler) :
    Prop where
  sound : t'.Sound
  processes : t.processes ≤ t'.processes
  keeps : ∀ p i, ¬N p i → Keeps t t' p i
  handlerAt : t'.handlerAt = D

section Moves

variable {t t' t'' : Table} {N N' : Nat → Nat → Prop} {D D' : Nat → Nat → Option Handler}

theorem moves_refl (hs : t.Sound) (N : Nat → Nat → Prop) : Moves t t N t.handlerAt :=
  ⟨hs, Nat.le_refl _, fun p i _ ↦ keeps_refl t p i, rfl⟩

theorem moves_trans (h : Moves t t' N D) (h' : Moves t' t'' N D') : Moves t t'' N D' :=
  ⟨h'.sound, Nat.le_trans h.processes h'.processes,
    fun p i hN ↦ keeps_trans (h.keeps p i hN) (h'.keeps p i hN), h'.handlerAt⟩

theorem moves_mono (h : Moves t t' N D) (hN : ∀ p i, N p i → N' p i) : Moves t t' N' D :=
  ⟨h.sound, h.processes, fun p i hnot ↦ h.keeps p i fun hp ↦ hnot (hN p i hp), h.handlerAt⟩

/-- Where the values are the same, and the slots that may have changed were free, all slots
point where they did. -/
theorem openFiles_of_moves (hs : t.Sound) (h : Moves t t' N t.handlerAt)
    (hN : ∀ p i, N p i → t.openFiles p i = none) : t'.openFiles = t.openFiles := by
  funext p i
  by_cases hp : N p i
  · have hvalue : t'.handlerAt p i = none := by
      rw [h.handlerAt]
      exact (handlerAt_eq_none hs).mpr (hN p i hp)
    rw [(handlerAt_eq_none h.sound).mp hvalue, hN p i hp]
  · exact (h.keeps p i hp).1

variable {P fd : Nat} {a : Nat}

theorem moves_install (hs : t.Sound) (hP : P < t.processes) (hfd : fd < MAX_OPEN_FILES)
    (h : Handler) :
    Moves t (t.install P fd h) (fun p i ↦ p = P ∧ i = fd) (put t.handlerAt P fd (some h)) :=
  ⟨sound_install hs hP hfd h, Nat.le_refl _, fun _ _ hslot ↦ keeps_install hs hslot h,
    handlerAt_install hs P fd h⟩

theorem moves_release (hs : t.Sound) (ha : t.openFiles P fd = some a) :
    Moves t (t.release P fd a) (fun p i ↦ p = P ∧ i = fd) (put t.handlerAt P fd none) :=
  ⟨sound_release hs ha, Nat.le_refl _, fun _ _ hslot ↦ keeps_release hs ha hslot,
    handlerAt_release hs ha⟩

theorem moves_setObject (hs : t.Sound) (ha : t.openFiles P fd = some a) (h : Handler) :
    Moves t (t.setObject a (some h)) (fun p i ↦ p = P ∧ i = fd)
      (put t.handlerAt P fd (some h)) :=
  ⟨sound_setObject hs ha h, Nat.le_refl _, fun _ _ hslot ↦ keeps_setObject hs ha hslot _,
    handlerAt_setObject hs ha _⟩

theorem moves_discard (hs : t.Sound) (h : Handler) (N : Nat → Nat → Prop) :
    Moves t (t.discard h) N t.handlerAt :=
  ⟨sound_discard hs h, Nat.le_refl _, fun p i _ ↦ keeps_discard hs h p i,
    funext fun p ↦ funext fun i ↦ handlerAt_of_keeps (keeps_discard hs h p i)⟩

theorem moves_processes (hs : t.Sound) (N : Nat → Nat → Prop) :
    Moves t { t with processes := t.processes + 1 } N t.handlerAt :=
  ⟨sound_processes hs (Nat.le_succ _), Nat.le_succ _, fun p i _ ↦ keeps_refl t p i, rfl⟩

theorem put_put (D : Nat → Nat → Option Handler) (P fd : Nat) (h h' : Option Handler) :
    put (put D P fd h) P fd h' = put D P fd h' := by
  funext p i
  unfold put
  split <;> rfl

/-- Where an object was put in a slot and then written, the slot holds the value written. -/
theorem moves_put_setObject {h : Handler}
    (hmoves : Moves t t' (fun p i ↦ p = P ∧ i = fd) (put t.handlerAt P fd (some h)))
    (ha : t'.openFiles P fd = some a) (h' : Handler) :
    Moves t (t'.setObject a (some h')) (fun p i ↦ p = P ∧ i = fd)
      (put t.handlerAt P fd (some h')) := by
  have hall := moves_trans hmoves (moves_setObject hmoves.sound ha h')
  rwa [hmoves.handlerAt, put_put] at hall

theorem put_eq_self {D : Nat → Nat → Option Handler} {h : Option Handler} (hD : D P fd = h) :
    put D P fd h = D := by
  funext p i
  unfold put
  split
  · next hslot => rw [hslot.1, hslot.2, hD]
  · rfl

theorem lowestFree_handlerAt (hs : t.Sound) (P : Nat) :
    lowestFree (t.handlerAt P) = lowestFree (t.openFiles P) := by
  unfold lowestFree
  congr 1
  funext fd
  exact decide_eq_decide.mpr (handlerAt_eq_none hs)

end Moves

end Table

end Keow.Files
