import Mathlib.Data.List.AList
import Mathlib.Data.Set.Basic

/-!
# Handles that objects hold

Processes have tables of handles, each a value of their own for something outside. Objects belong
to processes and hold handles by value. Where every handle is held by one object of its process,
what is still open can be told from the objects, and closing one closes nothing else.
-/

namespace Keow.Base

universe u

variable {α π ν ε : Type u} [DecidableEq π] [DecidableEq ν]

/-- The open handles by process and value, and what process each object belongs to and what
handle it holds. -/
structure Holding (α π ν ε : Type u) where
  handles : AList fun _ : π × ν ↦ ε
  owner : α → π
  value : α → Option ν

namespace Holding

/-- What the handle of an object is for. -/
def target (s : Holding α π ν ε) (a : α) : Option ε :=
  (s.value a).bind fun v ↦ s.handles.lookup (s.owner a, v)

/-- An object is made in a process, without a handle. -/
def appoint [DecidableEq α] (s : Holding α π ν ε) (a : α) (p : π) : Holding α π ν ε :=
  { s with
    owner := fun b ↦ if b = a then p else s.owner b
    value := fun b ↦ if b = a then none else s.value b }

/-- A handle is opened for an object. -/
def grant [DecidableEq α] (s : Holding α π ν ε) (a : α) (v : ν) (e : ε) : Holding α π ν ε :=
  { s with
    handles := s.handles.insert (s.owner a, v) e
    value := fun b ↦ if b = a then some v else s.value b }

/-- A process closes the handle that an object holds. -/
def drop [DecidableEq α] (s : Holding α π ν ε) (p : π) (a : α) : Holding α π ν ε :=
  match s.value a with
  | none => s
  | some v =>
      { s with
        handles := s.handles.erase (p, v)
        value := fun b ↦ if b = a then none else s.value b }

/-- A process ends: its handles are closed, and nobody tells the objects. -/
def exit (s : Holding α π ν ε) (p : π) : Holding α π ν ε :=
  { s with
    handles := ⟨s.handles.entries.filter (·.1.1 ≠ p),
      s.handles.nodupKeys.sublist List.filter_sublist⟩ }

@[simp] theorem owner_drop [DecidableEq α] (s : Holding α π ν ε) (p : π) (a : α) :
    (s.drop p a).owner = s.owner := by
  unfold drop
  split <;> rfl

theorem value_drop [DecidableEq α] (s : Holding α π ν ε) (p : π) (a b : α) :
    (s.drop p a).value b = if b = a then none else s.value b := by
  unfold drop
  split
  · next hv =>
    split
    · next hb => rw [hb, hv]
    · rfl
  · rfl

/-- Some process has a handle for this. -/
def isOpen [DecidableEq ε] (s : Holding α π ν ε) (e : ε) : Bool :=
  s.handles.entries.any (·.2 = e)

theorem isOpen_iff [DecidableEq ε] {s : Holding α π ν ε} {e : ε} :
    s.isOpen e = true ↔ ∃ k, s.handles.lookup k = some e := by
  simp only [isOpen, List.any_eq_true, decide_eq_true_eq]
  constructor
  · rintro ⟨⟨k, e'⟩, hmem, rfl⟩
    exact ⟨k, AList.mem_lookup_iff.mpr hmem⟩
  · rintro ⟨k, hk⟩
    exact ⟨⟨k, e⟩, AList.mem_lookup_iff.mp hk, rfl⟩

theorem lookup_exit (s : Holding α π ν ε) (p q : π) (v : ν) :
    (s.exit p).handles.lookup (q, v) = if q = p then none else s.handles.lookup (q, v) := by
  apply Option.ext
  intro e
  rw [← Option.mem_def, AList.mem_lookup_iff, exit]
  simp only [List.mem_filter, decide_eq_true_eq]
  rw [← AList.mem_lookup_iff, Option.mem_def]
  split
  · next hq => simp [hq]
  · next hq => simp [hq]

/-- Handles and objects match: every handle is held, every object whose process is there holds an
open one or none, and no two objects of a process hold the same. -/
structure Sound (gone : Set π) (s : Holding α π ν ε) : Prop where
  backed : ∀ {p v e}, s.handles.lookup (p, v) = some e → ∃ a, s.owner a = p ∧ s.value a = some v
  held : ∀ {a v}, s.value a = some v → s.owner a ∉ gone → s.handles.lookup (s.owner a, v) ≠ none
  apart : ∀ {a b v}, s.value a = some v → s.value b = some v → s.owner a = s.owner b → a = b
  dead : ∀ {p v}, p ∈ gone → s.handles.lookup (p, v) = none

section Sound

variable {gone : Set π} {s : Holding α π ν ε} {a : α} {p : π} {v : ν} {e : ε}

theorem target_eq_some : s.target a = some e ↔
    ∃ v, s.value a = some v ∧ s.handles.lookup (s.owner a, v) = some e :=
  Option.bind_eq_some_iff

theorem target_of_value_none (h : s.value a = none) : s.target a = none := by
  rw [target, h, Option.bind_none]

/-- What is open is what an object's handle is for. -/
theorem Sound.isOpen_iff [DecidableEq ε] (h : s.Sound gone) :
    s.isOpen e = true ↔ ∃ a, s.target a = some e := by
  rw [Holding.isOpen_iff]
  constructor
  · rintro ⟨⟨p, v⟩, hlookup⟩
    obtain ⟨a, rfl, hvalue⟩ := h.backed hlookup
    exact ⟨a, target_eq_some.mpr ⟨v, hvalue, hlookup⟩⟩
  · rintro ⟨a, ha⟩
    obtain ⟨v, -, hlookup⟩ := target_eq_some.mp ha
    exact ⟨_, hlookup⟩

theorem sound_empty (owner : α → π) (gone : Set π) :
    (⟨∅, owner, fun _ ↦ none⟩ : Holding α π ν ε).Sound gone :=
  ⟨fun h ↦ absurd h (by simp), fun h ↦ absurd h (by simp), fun h ↦ absurd h (by simp),
    fun _ ↦ AList.lookup_empty _⟩

section Change

variable [DecidableEq α]

theorem sound_appoint (h : s.Sound gone) (ha : s.value a = none) (p : π) :
    (s.appoint a p).Sound gone := by
  have hold : ∀ {b v}, (s.appoint a p).value b = some v → b ≠ a ∧ s.value b = some v := by
    intro b v hb
    have hb : (if b = a then none else s.value b) = some v := hb
    split at hb
    · cases hb
    · next hne => exact ⟨hne, hb⟩
  have howner : ∀ {b}, b ≠ a → (s.appoint a p).owner b = s.owner b := fun hne ↦ if_neg hne
  constructor
  · intro q v e hlookup
    obtain ⟨b, hb, hvalue⟩ := h.backed hlookup
    have hne : b ≠ a := by
      rintro rfl
      cases ha.symm.trans hvalue
    exact ⟨b, (howner hne).trans hb, (if_neg hne).trans hvalue⟩
  · intro b v hb hlive
    obtain ⟨hne, hvalue⟩ := hold hb
    rw [howner hne] at hlive ⊢
    exact h.held hvalue hlive
  · intro b c v hb hc heq
    obtain ⟨hneb, hvalueb⟩ := hold hb
    obtain ⟨hnec, hvaluec⟩ := hold hc
    rw [howner hneb, howner hnec] at heq
    exact h.apart hvalueb hvaluec heq
  · exact h.dead

theorem target_appoint (ha : s.value a = none) (p : π) (b : α) :
    (s.appoint a p).target b = s.target b := by
  by_cases hb : b = a
  · subst hb
    rw [target_of_value_none ha]
    exact target_of_value_none (if_pos rfl)
  · have howner : (s.appoint a p).owner b = s.owner b := if_neg hb
    have hvalue : (s.appoint a p).value b = s.value b := if_neg hb
    rw [target, howner, hvalue]
    rfl

theorem sound_grant (h : s.Sound gone) (ha : s.value a = none) (hlive : s.owner a ∉ gone)
    (hfree : (s.owner a, v) ∉ s.handles) (e : ε) : (s.grant a v e).Sound gone := by
  have hlookup : ∀ {q w}, (q, w) ≠ (s.owner a, v) →
      (s.grant a v e).handles.lookup (q, w) = s.handles.lookup (q, w) :=
    fun hne ↦ AList.lookup_insert_ne hne
  have hnone : s.handles.lookup (s.owner a, v) = none := AList.lookup_eq_none.mpr hfree
  -- nobody else of this process holds the new value
  have hnew : ∀ {b w}, b ≠ a → s.value b = some w → (s.owner b, w) ≠ (s.owner a, v) := by
    intro b w hne hb heq
    obtain ⟨hq, hw⟩ := Prod.mk.inj heq
    exact h.held hb (hq ▸ hlive) (by rw [hq, hw, hnone])
  constructor
  · intro q w e' hq
    by_cases hkey : (q, w) = (s.owner a, v)
    · obtain ⟨rfl, rfl⟩ := Prod.mk.inj hkey
      exact ⟨a, rfl, if_pos rfl⟩
    · rw [hlookup hkey] at hq
      obtain ⟨b, hb, hvalue⟩ := h.backed hq
      have hne : b ≠ a := by
        rintro rfl
        cases ha.symm.trans hvalue
      exact ⟨b, hb, (if_neg hne).trans hvalue⟩
  · intro b w hb hliveb
    have hb : (if b = a then some v else s.value b) = some w := hb
    split at hb
    · next heq =>
      have hfound : (s.grant a v e).handles.lookup (s.owner a, v) = some e :=
        AList.lookup_insert s.handles
      rw [heq, ← Option.some.inj hb, show (s.grant a v e).owner a = s.owner a from rfl, hfound]
      exact Option.some_ne_none e
    · next hne =>
      have hkey : (s.owner b, w) ≠ (s.owner a, v) := hnew hne hb
      rw [show (s.grant a v e).owner b = s.owner b from rfl, hlookup hkey]
      exact h.held hb hliveb
  · intro b c w hb hc heq
    have hb : (if b = a then some v else s.value b) = some w := hb
    have hc : (if c = a then some v else s.value c) = some w := hc
    have heq : s.owner b = s.owner c := heq
    split at hb <;> split at hc
    · next hba hca => exact hba.trans hca.symm
    · next hba hca =>
      rw [← Option.some.inj hb] at hc
      exact absurd (by rw [← heq, hba]) (hnew hca hc)
    · next hba hca =>
      rw [← Option.some.inj hc] at hb
      exact absurd (by rw [heq, hca]) (hnew hba hb)
    · exact h.apart hb hc heq
  · intro q w hq
    have hkey : (q, w) ≠ (s.owner a, v) := fun heq ↦ hlive ((Prod.mk.inj heq).1 ▸ hq)
    rw [hlookup hkey]
    exact h.dead hq

theorem target_grant (h : s.Sound gone) (hlive : s.owner a ∉ gone)
    (hfree : (s.owner a, v) ∉ s.handles) (e : ε) (b : α) :
    (s.grant a v e).target b = if b = a then some e else s.target b := by
  split
  · next hb =>
    subst hb
    exact target_eq_some.mpr ⟨v, if_pos rfl, AList.lookup_insert s.handles⟩
  · next hb =>
    have hvalue : (s.grant a v e).value b = s.value b := if_neg hb
    rw [target, target, hvalue]
    cases hw : s.value b with
    | none => rfl
    | some w =>
      have hkey : (s.owner b, w) ≠ (s.owner a, v) := by
        intro heq
        obtain ⟨hq, rfl⟩ := Prod.mk.inj heq
        apply h.held hw (hq ▸ hlive)
        rw [hq, AList.lookup_eq_none.mpr hfree]
      exact AList.lookup_insert_ne hkey

theorem sound_drop (h : s.Sound gone) (hp : s.owner a = p) : (s.drop p a).Sound gone := by
  unfold drop
  split
  · exact h
  · next v hv =>
    have hlookup : ∀ {q w}, (q, w) ≠ (p, v) →
        (s.handles.erase (p, v)).lookup (q, w) = s.handles.lookup (q, w) :=
      fun hne ↦ AList.lookup_erase_ne hne
    have hother : ∀ {b w}, b ≠ a → s.value b = some w → (s.owner b, w) ≠ (p, v) := by
      intro b w hne hb heq
      obtain ⟨hq, rfl⟩ := Prod.mk.inj heq
      exact hne (h.apart hb hv (hq.trans hp.symm))
    have hold : ∀ {b w}, (if b = a then none else s.value b) = some w →
        b ≠ a ∧ s.value b = some w := by
      intro b w hb
      split at hb
      · cases hb
      · next hne => exact ⟨hne, hb⟩
    constructor
    · intro q w e hq
      by_cases hkey : (q, w) = (p, v)
      · rw [hkey, AList.lookup_erase] at hq
        cases hq
      · rw [hlookup hkey] at hq
        obtain ⟨b, hb, hvalue⟩ := h.backed hq
        have hne : b ≠ a := by
          rintro rfl
          rw [hv] at hvalue
          exact hkey (by rw [← hb, hp, Option.some.inj hvalue])
        exact ⟨b, hb, (if_neg hne).trans hvalue⟩
    · intro b w hb hlive
      obtain ⟨hne, hvalue⟩ := hold hb
      dsimp only
      rw [hlookup (hother hne hvalue)]
      exact h.held hvalue hlive
    · intro b c w hb hc heq
      exact h.apart (hold hb).2 (hold hc).2 heq
    · intro q w hq
      by_cases hkey : (q, w) = (p, v)
      · rw [hkey, AList.lookup_erase]
      · rw [hlookup hkey]
        exact h.dead hq

theorem target_drop (h : s.Sound gone) (hp : s.owner a = p) (b : α) :
    (s.drop p a).target b = if b = a then none else s.target b := by
  unfold drop
  split
  · next hv =>
    split
    · next hb => rw [hb, target_of_value_none hv]
    · rfl
  · next v hv =>
    split
    · next hb => exact target_of_value_none (if_pos hb)
    · next hb =>
      simp only [target, if_neg hb]
      cases hw : s.value b with
      | none => rfl
      | some w =>
        have hkey : (s.owner b, w) ≠ (p, v) := by
          intro heq
          obtain ⟨hq, rfl⟩ := Prod.mk.inj heq
          exact hb (h.apart hw hv (hq.trans hp.symm))
        exact AList.lookup_erase_ne hkey

end Change

theorem sound_exit (h : s.Sound gone) (p : π) : (s.exit p).Sound (insert p gone) := by
  constructor
  · intro q v e hq
    rw [lookup_exit] at hq
    split at hq
    · cases hq
    · exact h.backed hq
  · intro a v ha hlive
    have hne : s.owner a ≠ p := fun heq ↦ hlive (.inl heq)
    rw [show (s.exit p).owner a = s.owner a from rfl, lookup_exit, if_neg hne]
    exact h.held ha fun hgone ↦ hlive (.inr hgone)
  · exact h.apart
  · intro q v hq
    rw [lookup_exit]
    split
    · rfl
    · next hne => exact h.dead (hq.resolve_left hne)

theorem target_exit (s : Holding α π ν ε) (p : π) (a : α) :
    (s.exit p).target a = if s.owner a = p then none else s.target a := by
  cases hv : s.value a with
  | none =>
    rw [target_of_value_none hv, ite_self]
    exact target_of_value_none hv
  | some v =>
    rw [target, target, show (s.exit p).value a = s.value a from rfl, hv, Option.bind_some,
      Option.bind_some, show (s.exit p).owner a = s.owner a from rfl, lookup_exit]

end Sound

end Holding
end Keow.Base
