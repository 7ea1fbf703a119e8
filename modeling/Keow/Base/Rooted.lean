import Mathlib.Data.Set.Function
import Mathlib.Logic.Relation

/-!
# Trees given by keys

Every element of a set has a key and points up to another key. `Rooted` says that from every
element the pointers lead to one root; `Rooted.diff` says which elements may be taken out, and
`forall_ne_of_exists_above` that no others may.
-/

namespace Keow.Base

open Relation

universe u v

variable {α : Type u} {κ : Type v}

/-- `b` bears the key that `a` points up to. -/
def Above (S : Set α) (key up : α → κ) (a b : α) : Prop := b ∈ S ∧ up a = key b

/-- From every element the way up ends at the root. -/
def Rooted (S : Set α) (key up : α → κ) (root : α) : Prop :=
  ∀ a ∈ S, ReflTransGen (Above S key up) a root

variable {S S' : Set α} {key key' up up' : α → κ} {root : α}

theorem rooted_singleton (key up : α → κ) (root : α) : Rooted {root} key up root := by
  rintro a rfl
  exact .refl

/-- A way up stays one in a larger set, where some elements are lifted to the root. -/
theorem way_up_of_raised (hsub : S ⊆ S') (hroot : root ∈ S) (hkey : ∀ a ∈ S, key' a = key a)
    (hup : ∀ a ∈ S, up' a = up a ∨ up' a = key root) {a : α} (ha : a ∈ S)
    (h : ReflTransGen (Above S key up) a root) : ReflTransGen (Above S' key' up') a root := by
  induction h using ReflTransGen.head_induction_on with
  | refl => exact .refl
  | @head a b hab _ ih =>
    obtain ⟨hb, heq⟩ := hab
    rcases hup a ha with hsame | hraised
    · exact .head ⟨hsub hb, hsame.trans (heq.trans (hkey b hb).symm)⟩ (ih hb)
    · exact .single ⟨hsub hroot, hraised.trans (hkey root hroot).symm⟩

/-- Elements may be lifted to the root. -/
theorem Rooted.raise (h : Rooted S key up root) (hroot : root ∈ S)
    (hkey : ∀ a ∈ S, key' a = key a) (hup : ∀ a ∈ S, up' a = up a ∨ up' a = key root) :
    Rooted S key' up' root :=
  fun a ha ↦ way_up_of_raised subset_rfl hroot hkey hup ha (h a ha)

/-- A new element is put below one that is there. -/
theorem Rooted.insert (h : Rooted S key up root) (hroot : root ∈ S)
    (hkey : ∀ a ∈ S, key' a = key a) (hup : ∀ a ∈ S, up' a = up a) {b p : α} (hp : p ∈ S)
    (hb : up' b = key p) : Rooted (insert b S) key' up' root := by
  have hold : ∀ a ∈ S, ReflTransGen (Above (Insert.insert b S) key' up') a root :=
    fun a ha ↦ way_up_of_raised (Set.subset_insert b S) hroot hkey
      (fun a ha ↦ .inl (hup a ha)) ha (h a ha)
  intro a ha
  rcases ha with rfl | ha
  · exact .head ⟨Set.mem_insert_of_mem a hp, hb.trans (hkey p hp).symm⟩ (hold p hp)
  · exact hold a ha

/-- Every element but the root has one above it. -/
theorem Rooted.exists_above (h : Rooted S key up root) {a : α} (ha : a ∈ S) (hne : a ≠ root) :
    ∃ b, Above S key up a b := by
  rcases (h a ha).cases_head with heq | ⟨b, hab, -⟩
  · exact absurd heq hne
  · exact ⟨b, hab⟩

/-- What is taken out is missed by everything that was right below it. -/
theorem forall_ne_of_exists_above (hinj : Set.InjOn key S) (htop : ∀ a ∈ S, up root ≠ key a)
    {p : α} (hp : p ∈ S) (h : ∀ a ∈ S \ {p}, a ≠ root → ∃ b, Above (S \ {p}) key up a b) :
    ∀ a ∈ S \ {p}, up a ≠ key p := by
  intro a ha heq
  have hne : a ≠ root := fun he ↦ htop p hp (he ▸ heq)
  obtain ⟨b, hb, hab⟩ := h a ha hne
  exact hb.2 (hinj hb.1 hp (hab.symm.trans heq))

/-- An element with nothing below it can be taken out. -/
theorem Rooted.diff (h : Rooted S key up root) {p : α} (hleaf : ∀ a ∈ S \ {p}, up a ≠ key p) :
    Rooted (S \ {p}) key up root := by
  intro a ha
  have hway := h a ha.1
  induction hway using ReflTransGen.head_induction_on with
  | refl => exact .refl
  | @head a b hab _ ih =>
    have hb : b ∈ S \ {p} := ⟨hab.1, fun he ↦ hleaf a ha (Set.mem_singleton_iff.mp he ▸ hab.2)⟩
    exact .head ⟨hb, hab.2⟩ (ih hb)

/-- Where keys are distinct and the root points to none, nothing is above itself. -/
theorem Rooted.not_above_self (h : Rooted S key up root) (hinj : Set.InjOn key S)
    (htop : ∀ a ∈ S, up root ≠ key a) {a : α} (ha : a ∈ S) :
    ¬TransGen (Above S key up) a a := by
  have hway := h a ha
  induction hway using ReflTransGen.head_induction_on with
  | refl =>
    intro hcycle
    obtain ⟨b, hb, -⟩ := TransGen.head'_iff.mp hcycle
    exact htop b hb.1 hb.2
  | @head a b hab _ ih =>
    intro hcycle
    obtain ⟨c, hc, hca⟩ := TransGen.head'_iff.mp hcycle
    -- the cycle leaves `a` for the only element above it
    obtain rfl : c = b := hinj hc.1 hab.1 (hc.2.symm.trans hab.2)
    exact ih hab.1 (.tail' hca hab)

end Keow.Base
