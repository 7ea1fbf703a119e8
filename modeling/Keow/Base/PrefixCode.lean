import Mathlib.Data.List.Basic
import Mathlib.Tactic.Common

/-!
# Streams of codes

A list of symbols sent as their codes, one behind the other. What has come of such a stream is
the codes of a front part of the list and a part of the next one; and where no code begins with
another, whole codes tell what the list begins with.
-/

namespace Keow.Base

universe u v

variable {α : Type u} {β : Type v} {code : α → List β}

/-- What has come of a stream of codes. -/
theorem exists_take_of_prefix {bs : List β} {as : List α} (h : bs <+: as.flatMap code) :
    ∃ n rest, bs = (as.take n).flatMap code ++ rest ∧
      (rest = [] ∨ ∃ a ∈ as, rest <+: code a ∧ rest ≠ code a) := by
  induction as generalizing bs with
  | nil => exact ⟨0, [], List.prefix_nil.mp h, .inl rfl⟩
  | cons a as ih =>
    rw [List.flatMap_cons] at h
    rcases List.prefix_or_prefix_of_prefix (List.prefix_append (code a) _) h with hwhole | hpart
    · obtain ⟨bs, rfl⟩ := hwhole
      obtain ⟨n, rest, rfl, hrest⟩ := ih ((List.prefix_append_right_inj (code a)).mp h)
      refine ⟨n + 1, rest, by simp, hrest.imp_right ?_⟩
      exact fun ⟨b, hb, hcode⟩ ↦ ⟨b, List.mem_cons_of_mem a hb, hcode⟩
    · by_cases heq : bs = code a
      · exact ⟨1, [], by simp [heq], .inl rfl⟩
      · exact ⟨0, bs, rfl, .inr ⟨a, List.mem_cons_self, hpart, heq⟩⟩

/-- No code of these symbols is empty or begins with that of another. -/
structure PrefixFree (S : α → Prop) (code : α → List β) : Prop where
  ne_nil : ∀ a, S a → code a ≠ []
  eq_of_prefix : ∀ a b, S a → S b → code a <+: code b → a = b

/-- Whole codes at the front of a stream are those that the list begins with. -/
theorem PrefixFree.prefix_iff {S : α → Prop} (h : PrefixFree S code) {as bs : List α}
    (has : ∀ a ∈ as, S a) (hbs : ∀ b ∈ bs, S b) :
    as.flatMap code <+: bs.flatMap code ↔ as <+: bs := by
  constructor
  · intro hpre
    induction as generalizing bs with
    | nil => exact List.nil_prefix
    | cons a as ih =>
      obtain ⟨ha, has⟩ := List.forall_mem_cons.mp has
      rw [List.flatMap_cons] at hpre
      cases bs with
      | nil =>
        have hnil := List.prefix_nil.mp hpre
        exact absurd (List.append_eq_nil_iff.mp hnil).1 (h.ne_nil a ha)
      | cons b bs =>
        obtain ⟨hb, htail⟩ := List.forall_mem_cons.mp hbs
        rw [List.flatMap_cons] at hpre
        have hfront := (List.prefix_append (code a) _).trans hpre
        obtain rfl : a = b := by
          rcases List.prefix_or_prefix_of_prefix hfront (List.prefix_append (code b) _) with
            hab | hba
          · exact h.eq_of_prefix a b ha hb hab
          · exact (h.eq_of_prefix b a hb ha hba).symm
        have hrest := (List.prefix_append_right_inj (code a)).mp hpre
        exact (List.cons_prefix_cons).mpr ⟨rfl, ih has htail hrest⟩
  · rintro ⟨cs, rfl⟩
    rw [List.flatMap_append]
    exact List.prefix_append _ _

end Keow.Base
