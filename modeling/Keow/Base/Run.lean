import Mathlib.Data.List.Basic
import Mathlib.Tactic.Common

/-!
# Runs of a deterministic system

A run feeds a finite list of inputs to a step function. `trail` lists every state it
visits, the initial one first, and `trail_invariant` is the rule for properties of
all of them.
-/

namespace Keow.Base

universe u v

variable {σ : Type u} {ι : Type v}

/-- Every state visited while consuming the inputs, the initial one first. -/
def trail (step : σ → ι → σ) : σ → List ι → List σ
  | s, [] => [s]
  | s, i :: is => s :: trail step (step s i) is

@[simp] theorem mem_trail_self (step : σ → ι → σ) (s : σ) (is : List ι) :
    s ∈ trail step s is := by
  cases is <;> simp [trail]

/-- The last state of a run. -/
theorem foldl_mem_trail (step : σ → ι → σ) (s : σ) (is : List ι) :
    is.foldl step s ∈ trail step s is := by
  induction is generalizing s with
  | nil => exact mem_trail_self step s []
  | cons i is ih =>
    rw [trail, List.foldl_cons]
    exact List.mem_cons_of_mem s (ih (step s i))

/-- Every step of the run meets a condition in the state it is taken in. -/
def Along (step : σ → ι → σ) (ok : σ → ι → Prop) : σ → List ι → Prop
  | _, [] => True
  | s, i :: is => ok s i ∧ Along step ok (step s i) is

theorem along_of_forall {step : σ → ι → σ} {ok : ι → Prop} {is : List ι} (h : ∀ i ∈ is, ok i)
    (s : σ) : Along step (fun _ ↦ ok) s is := by
  induction is generalizing s with
  | nil => trivial
  | cons i is ih =>
    obtain ⟨hi, his⟩ := List.forall_mem_cons.mp h
    exact ⟨hi, ih his (step s i)⟩

/-- What holds of every admissible step taken where an invariant holds, holds along the run. -/
theorem along_of_invariant {step : σ → ι → σ} {Inv : σ → Prop} {ok : ι → Prop} {P : σ → ι → Prop}
    (hstep : ∀ s i, Inv s → ok i → Inv (step s i)) (hP : ∀ s i, Inv s → ok i → P s i) {s : σ}
    (hs : Inv s) {is : List ι} (hok : ∀ i ∈ is, ok i) : Along step P s is := by
  induction is generalizing s with
  | nil => trivial
  | cons i is ih =>
    obtain ⟨hi, his⟩ := List.forall_mem_cons.mp hok
    exact ⟨hP s i hs hi, ih (hstep s i hs hi) his⟩

theorem along_append {step : σ → ι → σ} {ok : σ → ι → Prop} (s : σ) (is js : List ι) :
    Along step ok s (is ++ js) ↔ Along step ok s is ∧ Along step ok (is.foldl step s) js := by
  induction is generalizing s with
  | nil => simp [Along]
  | cons i is ih => simp [Along, ih, and_assoc]

/-- Steps that all meet the condition keep an invariant in every visited state. -/
theorem trail_of_along {step : σ → ι → σ} {ok : σ → ι → Prop} {Inv : σ → Prop}
    (hstep : ∀ s i, Inv s → ok s i → Inv (step s i)) {s : σ} (hs : Inv s) {is : List ι}
    (h : Along step ok s is) : ∀ t ∈ trail step s is, Inv t := by
  induction is generalizing s with
  | nil =>
    intro t ht
    rw [trail, List.mem_singleton] at ht
    exact ht ▸ hs
  | cons i is ih =>
    intro t ht
    rw [trail, List.mem_cons] at ht
    rcases ht with rfl | ht
    · exact hs
    · exact ih (hstep s i hs h.1) h.2 t ht

/-- Inputs that are all admissible keep an invariant in every visited state. -/
theorem trail_invariant {step : σ → ι → σ} {Inv : σ → Prop} {ok : ι → Prop}
    (hstep : ∀ s i, Inv s → ok i → Inv (step s i)) {s : σ} (hs : Inv s) {is : List ι}
    (hok : ∀ i ∈ is, ok i) : ∀ t ∈ trail step s is, Inv t :=
  trail_of_along hstep hs (along_of_forall hok s)

/-- The first inadmissible input of a run is met in a state that still has the invariant,
and the state it produces is visited. -/
theorem trail_first_violation {step : σ → ι → σ} {Inv : σ → Prop} {ok : ι → Prop}
    (hstep : ∀ s i, Inv s → ok i → Inv (step s i)) {s : σ} (hs : Inv s) {is : List ι}
    (hbad : ∃ i ∈ is, ¬ok i) : ∃ t i, Inv t ∧ ¬ok i ∧ step t i ∈ trail step s is := by
  induction is generalizing s with
  | nil => simp at hbad
  | cons i is ih =>
    by_cases hi : ok i
    · obtain ⟨j, hj, hnj⟩ := hbad
      have hj' : j ∈ is := by
        rcases List.mem_cons.mp hj with rfl | h
        · exact absurd hi hnj
        · exact h
      obtain ⟨t, k, ht, hk, hm⟩ := ih (hstep s i hs hi) ⟨j, hj', hnj⟩
      exact ⟨t, k, ht, hk, by rw [trail]; exact List.mem_cons_of_mem s hm⟩
    · refine ⟨s, i, hs, hi, ?_⟩
      rw [trail]
      exact List.mem_cons_of_mem s (mem_trail_self step _ is)

/-- Where good steps keep an invariant that implies a property and every other step breaks the
property at once, the property holds in all visited states exactly if all steps are good. -/
theorem trail_iff_along {step : σ → ι → σ} {ok : σ → ι → Prop} {Inv P : σ → Prop}
    (hP : ∀ s, Inv s → P s) (hstep : ∀ s i, Inv s → ok s i → Inv (step s i))
    (hbad : ∀ s i, Inv s → ¬ok s i → ¬P (step s i)) {s : σ} (hs : Inv s) (is : List ι) :
    (∀ t ∈ trail step s is, P t) ↔ Along step ok s is := by
  constructor
  · intro hall
    induction is generalizing s with
    | nil => trivial
    | cons i is ih =>
      have hi : ok s i := by
        by_contra hi
        apply hbad s i hs hi
        apply hall
        rw [trail]
        exact List.mem_cons_of_mem s (mem_trail_self step _ is)
      refine ⟨hi, ih (hstep s i hs hi) fun t ht ↦ hall t ?_⟩
      rw [trail]
      exact List.mem_cons_of_mem s ht
  · intro h t ht
    exact hP t (trail_of_along hstep hs h t ht)

/-- Two conditions that agree where an invariant holds, and keep it, are met along the same
runs. -/
theorem along_iff {step : σ → ι → σ} {ok ok' : σ → ι → Prop} {Inv : σ → Prop}
    (hiff : ∀ s i, Inv s → (ok s i ↔ ok' s i)) (hstep : ∀ s i, Inv s → ok s i → Inv (step s i))
    {s : σ} (hs : Inv s) (is : List ι) : Along step ok s is ↔ Along step ok' s is := by
  induction is generalizing s with
  | nil => exact Iff.rfl
  | cons i is ih =>
    rw [Along, Along, hiff s i hs]
    exact and_congr_right fun hi ↦ ih (hstep s i hs ((hiff s i hs).mpr hi))

/-- Where every step lowers a measure until the run is done, and what is done stays done, it is
done after more steps than the measure counts. -/
theorem foldl_done_of_measure {step : σ → ι → σ} {Inv Done : σ → Prop} (μ : σ → Nat)
    (hstep : ∀ s i, Inv s → Inv (step s i)) (hless : ∀ s i, Inv s → μ (step s i) < μ s ∨ Done s)
    (hdone : ∀ s i, Done s → Done (step s i)) {s : σ} (hs : Inv s) {is : List ι}
    (hlength : μ s < is.length) : Done (is.foldl step s) := by
  have hstays : ∀ (is : List ι) (s : σ), Done s → Done (is.foldl step s) := by
    intro is
    induction is with
    | nil => exact fun _ h ↦ h
    | cons i is ih => exact fun s h ↦ ih (step s i) (hdone s i h)
  induction is generalizing s with
  | nil => exact absurd hlength (Nat.not_lt_zero _)
  | cons i is ih =>
    rw [List.length_cons] at hlength
    rcases hless s i hs with hlt | h
    · exact ih (hstep s i hs) (by omega)
    · exact hstays is (step s i) (hdone s i h)

/-- What the steps of a run put out, in order. -/
def emitted {β : Type v} (step : σ → ι → σ) (out : σ → ι → Option β) : σ → List ι → List β
  | _, [] => []
  | s, i :: is => (out s i).toList ++ emitted step out (step s i) is

/-- Where what is put out is gone from then on, and nothing that is gone is put out, nothing is
put out twice. -/
theorem nodup_emitted {β : Type v} {step : σ → ι → σ} {out : σ → ι → Option β} {Inv : σ → Prop}
    {Gone : σ → β → Prop} (hstep : ∀ s i, Inv s → Inv (step s i))
    (hgone : ∀ s i b, Inv s → Gone s b → Gone (step s i) b)
    (hout : ∀ s i b, Inv s → out s i = some b → ¬Gone s b ∧ Gone (step s i) b) {s : σ}
    (hs : Inv s) (is : List ι) :
    (emitted step out s is).Nodup ∧ ∀ b ∈ emitted step out s is, ¬Gone s b := by
  induction is generalizing s with
  | nil => exact ⟨List.nodup_nil, fun b hb ↦ absurd hb List.not_mem_nil⟩
  | cons i is ih =>
    obtain ⟨hnodup, hlater⟩ := ih (hstep s i hs)
    have hrest : ∀ b ∈ emitted step out (step s i) is, ¬Gone s b :=
      fun b hb hg ↦ hlater b hb (hgone s i b hs hg)
    rw [emitted]
    cases hb : out s i with
    | none => exact ⟨hnodup, hrest⟩
    | some b =>
      obtain ⟨hhere, hafter⟩ := hout s i b hs hb
      refine ⟨List.nodup_cons.mpr ⟨fun hmem ↦ hlater b hmem hafter, hnodup⟩, ?_⟩
      intro c hc
      rcases List.mem_cons.mp hc with rfl | hc
      · exact hhere
      · exact hrest c hc

end Keow.Base
