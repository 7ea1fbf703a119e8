import Keow.Base.Comp

/-!
# Computations that record what they do

A computation whose state carries a record beside it, which it only ever extends. `Erases`
says that without the record it is a given computation, and `Recorded` what it takes for
all that it records to have a property.
-/

namespace Keow.Base

universe u v

variable {σ : Type u} {ι : Type u} {α β : Type v}

/-- Leave out the record. -/
def Result.forget : Result (σ × List ι) α → Result σ α
  | .ok a s => .ok a s.1
  | .exit s => .exit s.1
  | .wait s => .wait s.1
  | .fault s => .fault s.1

namespace Comp

/-- Do something without recording it. -/
def silent (x : Comp σ α) : Comp (σ × List ι) α := fun s ↦
  match x s.1 with
  | .ok a t => .ok a (t, s.2)
  | .exit t => .exit (t, s.2)
  | .wait t => .wait (t, s.2)
  | .fault t => .fault (t, s.2)

/-- Record something. -/
def record (items : List ι) : Comp (σ × List ι) PUnit := modify fun s ↦ (s.1, items ++ s.2)

/-- Without its record, `y` is `x`. -/
def Erases (y : Comp (σ × List ι) α) (x : Comp σ α) : Prop :=
  ∀ s log, (y (s, log)).forget = x s

theorem erases_pure (a : α) :
    Erases (Pure.pure a : Comp (σ × List ι) α) (Pure.pure a : Comp σ α) := fun _ _ ↦ rfl

theorem erases_fault : Erases (fault : Comp (σ × List ι) α) (fault : Comp σ α) := fun _ _ ↦ rfl

theorem erases_wait : Erases (wait : Comp (σ × List ι) α) (wait : Comp σ α) := fun _ _ ↦ rfl

theorem erases_silent (x : Comp σ α) : Erases (silent x : Comp (σ × List ι) α) x := by
  intro s log
  unfold silent
  dsimp only
  cases x s <;> rfl

theorem silent_of_ok {x : Comp σ α} {s s' : σ} {a : α} (h : x s = .ok a s') (log : List ι) :
    (silent x : Comp (σ × List ι) α) (s, log) = .ok a (s', log) := by
  unfold silent
  dsimp only
  rw [h]

theorem silent_get_bind {τ ι : Type v} (f : τ → Comp (τ × List ι) β) (s : τ) (log : List ι) :
    (silent get >>= f) (s, log) = f s (s, log) :=
  bind_of_ok rfl f

theorem state_silent (x : Comp σ α) (p : σ × List ι) :
    (silent x p).state = ((x p.1).state, p.2) := by
  unfold silent
  cases x p.1 <;> rfl

theorem erases_bind {y : Comp (σ × List ι) α} {x : Comp σ α} {g : α → Comp (σ × List ι) β}
    {f : α → Comp σ β} (hx : Erases y x) (hf : ∀ a, Erases (g a) (f a)) :
    Erases (y >>= g) (x >>= f) := by
  intro s log
  have hy := hx s log
  simp only [Bind.bind, bind]
  cases hrun : y (s, log) with
  | ok a s' =>
    rw [hrun] at hy
    rw [← hy]
    exact hf a s'.1 s'.2
  | exit s' =>
    rw [hrun] at hy
    rw [← hy]
    rfl
  | wait s' =>
    rw [hrun] at hy
    rw [← hy]
    rfl
  | fault s' =>
    rw [hrun] at hy
    rw [← hy]
    rfl

theorem erases_record {items : List ι} {g : PUnit → Comp (σ × List ι) β} {x : Comp σ β}
    (h : Erases (g ⟨⟩) x) : Erases (record items >>= g) x := fun s log ↦ h s (items ++ log)

/-- A look at the state that only the record needs. -/
theorem erases_get {τ : Type v} {κ : Type v} {g : τ → Comp (τ × List κ) β} {x : Comp τ β}
    (h : ∀ s, Erases (g s) x) : Erases (silent get >>= g) x := fun s log ↦ h s s log

theorem erases_ite {c : Prop} [Decidable c] {y y' : Comp (σ × List ι) α} {x x' : Comp σ α}
    (h : Erases y x) (h' : Erases y' x') : Erases (if c then y else y') (if c then x else x') := by
  split
  · exact h
  · exact h'

section Post

variable {s : σ × List ι} {X : σ × List ι → Prop}

@[simp] theorem post_silent (x : Comp σ α) (Q : α → σ × List ι → Prop) :
    Post (silent x : Comp (σ × List ι) α) s Q X ↔
      Post x s.1 (fun a t ↦ Q a (t, s.2)) (fun t ↦ X (t, s.2)) := by
  unfold Post silent
  cases x s.1 <;> rfl

@[simp] theorem post_record (items : List ι) (Q : PUnit → σ × List ι → Prop) :
    Post (record items) s Q X ↔ Q ⟨⟩ (s.1, items ++ s.2) := Iff.rfl

end Post

/-- From `s`, everything that `y` records has the property exactly when `C` holds. -/
def Recorded (P : ι → Prop) (y : Comp (σ × List ι) α) (s : σ) (C : Prop) : Prop :=
  ∀ log, (∀ i ∈ (y (s, log)).state.2, P i) ↔ (∀ i ∈ log, P i) ∧ C

section Recorded

variable {P : ι → Prop} {s : σ} {C : Prop}

theorem recorded_congr {y : Comp (σ × List ι) α} {C' : Prop} (h : Recorded P y s C)
    (hC : C ↔ C') : Recorded P y s C' := fun log ↦ by rw [h log, hC]

theorem recorded_pure (a : α) : Recorded P (Pure.pure a : Comp (σ × List ι) α) s True :=
  fun _ ↦ (iff_of_eq (and_true _)).symm

theorem recorded_fault : Recorded P (fault : Comp (σ × List ι) α) s True :=
  fun _ ↦ (iff_of_eq (and_true _)).symm

theorem recorded_wait : Recorded P (wait : Comp (σ × List ι) α) s True :=
  fun _ ↦ (iff_of_eq (and_true _)).symm

theorem recorded_silent (x : Comp σ α) : Recorded P (silent x : Comp (σ × List ι) α) s True :=
  fun _ ↦ by rw [state_silent, and_true]

theorem recorded_record {items : List ι} {g : PUnit → Comp (σ × List ι) β}
    (h : Recorded P (g ⟨⟩) s C) : Recorded P (record items >>= g) s ((∀ i ∈ items, P i) ∧ C) := by
  intro log
  have hstep := h (items ++ log)
  simp only [List.mem_append, or_imp, forall_and] at hstep
  change (∀ i ∈ (g ⟨⟩ (s, items ++ log)).state.2, P i) ↔ _
  rw [hstep]
  tauto

/-- After a silent first part that returns. -/
theorem recorded_silent_bind {x : Comp σ α} {g : α → Comp (σ × List ι) β} {a : α} {s' : σ}
    (hx : x s = .ok a s') (h : Recorded P (g a) s' C) : Recorded P (silent x >>= g) s C := by
  intro log
  rw [bind_of_ok (silent_of_ok hx log)]
  exact h log

/-- After a first part that is `x` without its record. -/
theorem recorded_bind {y : Comp (σ × List ι) α} {x : Comp σ α} {g : α → Comp (σ × List ι) β}
    {D : α → σ → Prop} (herase : Erases y x) (hy : Recorded P y s C)
    (hg : ∀ a s', x s = .ok a s' → Recorded P (g a) s' (D a s')) :
    Recorded P (y >>= g) s (C ∧ ∀ a s', x s = .ok a s' → D a s') := by
  intro log
  have hx := herase s log
  have hfirst := hy log
  simp only [Bind.bind, bind]
  cases hrun : y (s, log) with
  | ok a s' =>
    rw [hrun] at hx hfirst
    have hx : x s = .ok a s'.1 := hx.symm
    have hrest := hg a s'.1 hx s'.2
    simp only [hx, Result.ok.injEq, and_imp]
    rw [hrest, show (∀ i ∈ s'.2, P i) ↔ _ from hfirst, and_assoc]
    constructor
    · rintro ⟨h1, h2, h3⟩
      exact ⟨h1, h2, fun _ _ ha hs ↦ ha ▸ hs ▸ h3⟩
    · rintro ⟨h1, h2, h3⟩
      exact ⟨h1, h2, h3 a s'.1 rfl rfl⟩
  | exit s' =>
    rw [hrun] at hx hfirst
    have hx : x s = .exit s'.1 := hx.symm
    have hfirst : (∀ i ∈ s'.2, P i) ↔ (∀ i ∈ log, P i) ∧ C := hfirst
    change (∀ i ∈ s'.2, P i) ↔ _
    rw [hfirst]
    simp [hx]
  | wait s' =>
    rw [hrun] at hx hfirst
    have hx : x s = .wait s'.1 := hx.symm
    have hfirst : (∀ i ∈ s'.2, P i) ↔ (∀ i ∈ log, P i) ∧ C := hfirst
    change (∀ i ∈ s'.2, P i) ↔ _
    rw [hfirst]
    simp [hx]
  | fault s' =>
    rw [hrun] at hx hfirst
    have hx : x s = .fault s'.1 := hx.symm
    have hfirst : (∀ i ∈ s'.2, P i) ↔ (∀ i ∈ log, P i) ∧ C := hfirst
    change (∀ i ∈ s'.2, P i) ↔ _
    rw [hfirst]
    simp [hx]

/-- A silent part that is followed by returning. -/
theorem recorded_silent_pure (x : Comp σ α) (b : β) :
    Recorded P (silent x >>= fun _ ↦ (Pure.pure b : Comp (σ × List ι) β)) s True :=
  recorded_congr (recorded_bind (erases_silent x) (recorded_silent x)
    fun _ _ _ ↦ recorded_pure b) (by simp only [implies_true, and_true])

end Recorded

section Leads

variable {I : List ι → Prop}

/-- A property of the record alone is kept by what does not record. -/
theorem leads_silent (x : Comp σ α) :
    Leads (fun p : σ × List ι ↦ I p.2) (silent x) (fun p ↦ I p.2) := by
  intro p h
  rw [state_silent]
  exact h

theorem leads_record {items : List ι} (h : ∀ log, I log → I (items ++ log)) :
    Leads (fun p : σ × List ι ↦ I p.2) (record items) (fun p ↦ I p.2) :=
  fun p hp ↦ h p.2 hp

end Leads

end Comp

end Keow.Base
