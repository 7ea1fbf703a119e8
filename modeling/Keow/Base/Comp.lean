import Mathlib.Tactic.Common

/-!
# Computations that may end their thread

State passing with four ways to stop: a computation returns, ends the thread it runs on,
waits for an input that never comes, or steps into undefined behaviour. `Post` is its
weakest precondition for the first two, and `Within` bounds what it does to the state by an
`Effect` that sequencing respects.
-/

namespace Keow.Base

universe u v w

/-- How a computation stops. -/
inductive Result (σ : Type u) (α : Type v) where
  | ok (a : α) (s : σ)
  | exit (s : σ)
  | wait (s : σ)
  | fault (s : σ)

/-- The state a computation stops in. -/
def Result.state {σ : Type u} {α : Type v} : Result σ α → σ
  | .ok _ s => s
  | .exit s => s
  | .wait s => s
  | .fault s => s

/-- It returned. -/
def Result.returned {σ : Type u} {α : Type v} : Result σ α → Bool
  | .ok _ _ => true
  | _ => false

/-- What it returned. -/
def Result.value {σ : Type u} {α : Type v} : Result σ α → Option α
  | .ok a _ => some a
  | _ => none

theorem Result.ok_of_value {σ : Type u} {α : Type v} {r : Result σ α} {a : α}
    (h : r.value = some a) : ∃ s, r = .ok a s := by
  cases r with
  | ok b s =>
    cases h
    exact ⟨s, rfl⟩
  | exit s => cases h
  | wait s => cases h
  | fault s => cases h

/-- A computation over states `σ`. -/
def Comp (σ : Type u) (α : Type v) : Type (max u v) := σ → Result σ α

namespace Comp

variable {σ : Type u} {α : Type v} {β : Type v}

/-- Return at once. -/
def pure (a : α) : Comp σ α := fun s ↦ .ok a s

/-- Go on with the value, unless the first part has stopped otherwise. -/
def bind (x : Comp σ α) (f : α → Comp σ β) : Comp σ β := fun s ↦
  match x s with
  | .ok a s' => f a s'
  | .exit s' => .exit s'
  | .wait s' => .wait s'
  | .fault s' => .fault s'

instance : Monad (Comp σ) where
  pure := pure
  bind := bind

/-- Read the state. -/
def get : Comp σ σ := fun s ↦ .ok s s

/-- Change the state. -/
def modify (f : σ → σ) : Comp σ PUnit := fun s ↦ .ok ⟨⟩ (f s)

/-- End the thread. -/
def exit : Comp σ α := fun s ↦ .exit s

/-- Wait for ever. -/
def wait : Comp σ α := fun s ↦ .wait s

/-- Undefined behaviour. -/
def fault : Comp σ α := fun s ↦ .fault s

/-- Past a first part that returns. -/
theorem bind_of_ok {x : Comp σ α} {s s' : σ} {a : α} (h : x s = .ok a s') (f : α → Comp σ β) :
    (x >>= f) s = f a s' := by
  simp only [Bind.bind, bind, h]

/-- What holds of the result of a run that is known. -/
theorem exists_ok_iff {x : Comp σ α} {s s' : σ} {a : α} (h : x s = .ok a s')
    {Q : α → σ → Prop} : (∃ b t, x s = .ok b t ∧ Q b t) ↔ Q a s' := by
  constructor
  · rintro ⟨b, t, hrun, hQ⟩
    obtain ⟨rfl, rfl⟩ := Result.ok.inj (h.symm.trans hrun)
    exact hQ
  · exact fun hQ ↦ ⟨a, s', h, hQ⟩

theorem get_bind {τ : Type v} (f : τ → Comp τ β) (s : τ) : (get >>= f) s = f s s :=
  bind_of_ok rfl f

theorem bind_of_fault {x : Comp σ α} {s s' : σ} (h : x s = .fault s') (f : α → Comp σ β) :
    (x >>= f) s = .fault s' := by
  simp only [Bind.bind, bind, h]

/-- A sequence that returns has passed through a state between its parts. -/
theorem bind_eq_ok {x : Comp σ α} {f : α → Comp σ β} {s s' : σ} {b : β} :
    (x >>= f) s = .ok b s' ↔ ∃ a s₁, x s = .ok a s₁ ∧ f a s₁ = .ok b s' := by
  simp only [Bind.bind, bind]
  cases x s with
  | ok a s₁ =>
    constructor
    · exact fun h ↦ ⟨a, s₁, rfl, h⟩
    · rintro ⟨_, _, ⟨⟩, h⟩
      exact h
  | exit s₁ => simp
  | wait s₁ => simp
  | fault s₁ => simp

@[simp] theorem pure_eq_ok {s s' : σ} {a b : α} :
    (Pure.pure a : Comp σ α) s = .ok b s' ↔ a = b ∧ s = s' := by
  simp only [Pure.pure, pure, Result.ok.injEq]

@[simp] theorem get_eq_ok {s s' a : σ} : (get : Comp σ σ) s = .ok a s' ↔ s = a ∧ s = s' := by
  simp only [get, Result.ok.injEq]

@[simp] theorem modify_eq_ok {f : σ → σ} {s s' : σ} {u : PUnit} :
    modify f s = .ok u s' ↔ f s = s' := by
  simp only [modify, Result.ok.injEq, true_and]

@[simp] theorem fault_ne_ok {s s' : σ} {a : α} : ¬(fault : Comp σ α) s = .ok a s' := by
  simp only [fault, reduceCtorEq, not_false_eq_true]

@[simp] theorem wait_ne_ok {s s' : σ} {a : α} : ¬(wait : Comp σ α) s = .ok a s' := by
  simp only [wait, reduceCtorEq, not_false_eq_true]

/-- If `x` returns from `s` then with `Q`, and if it ends the thread then with `X`. -/
def Post (x : Comp σ α) (s : σ) (Q : α → σ → Prop) (X : σ → Prop) : Prop :=
  match x s with
  | .ok a s' => Q a s'
  | .exit s' => X s'
  | .wait _ => True
  | .fault _ => True

section Post

variable {x : Comp σ α} {s : σ} {Q Q' : α → σ → Prop} {X X' : σ → Prop}

@[simp] theorem post_pure (a : α) : Post (Pure.pure a : Comp σ α) s Q X ↔ Q a s := Iff.rfl

@[simp] theorem post_bind (f : α → Comp σ β) (Q : β → σ → Prop) :
    Post (x >>= f) s Q X ↔ Post x s (fun a s' ↦ Post (f a) s' Q X) X := by
  simp only [Bind.bind, bind, Post]
  cases x s <;> rfl

@[simp] theorem post_get (Q : σ → σ → Prop) : Post get s Q X ↔ Q s s := Iff.rfl

@[simp] theorem post_modify (f : σ → σ) (Q : PUnit → σ → Prop) :
    Post (modify f) s Q X ↔ Q ⟨⟩ (f s) := Iff.rfl

@[simp] theorem post_exit : Post (exit : Comp σ α) s Q X ↔ X s := Iff.rfl

@[simp] theorem post_wait : Post (wait : Comp σ α) s Q X ↔ True := Iff.rfl

@[simp] theorem post_fault : Post (fault : Comp σ α) s Q X ↔ True := Iff.rfl

theorem post_mono (h : Post x s Q X) (hQ : ∀ a s', Q a s' → Q' a s') (hX : ∀ s', X s' → X' s') :
    Post x s Q' X' := by
  unfold Post at h ⊢
  cases hx : x s with
  | ok a s' => exact hQ a s' (by simpa [hx] using h)
  | exit s' => exact hX s' (by simpa [hx] using h)
  | wait s' => trivial
  | fault s' => trivial

theorem post_of_forall (hQ : ∀ a s', Q a s') (hX : ∀ s', X s') : Post x s Q X := by
  unfold Post
  split
  · exact hQ _ _
  · exact hX _
  · trivial
  · trivial

/-- What a run that returned satisfies. -/
theorem of_post_ok (h : Post x s Q X) {a : α} {s' : σ} (hx : x s = .ok a s') : Q a s' := by
  simpa [Post, hx] using h

/-- What a run that ended the thread satisfies. -/
theorem of_post_exit (h : Post x s Q X) {s' : σ} (hx : x s = .exit s') : X s' := by
  simpa [Post, hx] using h

end Post

/-- From `s`, `x` returns with `Q` or stops otherwise with `W`; it never steps into undefined
behaviour. -/
def Safe (x : Comp σ α) (s : σ) (Q : α → σ → Prop) (W : σ → Prop) : Prop :=
  match x s with
  | .ok a s' => Q a s'
  | .exit s' => W s'
  | .wait s' => W s'
  | .fault _ => False

section Safe

variable {x : Comp σ α} {s : σ} {Q Q' : α → σ → Prop} {W W' : σ → Prop}

@[simp] theorem safe_pure (a : α) : Safe (Pure.pure a : Comp σ α) s Q W ↔ Q a s := Iff.rfl

@[simp] theorem safe_bind (f : α → Comp σ β) (Q : β → σ → Prop) :
    Safe (x >>= f) s Q W ↔ Safe x s (fun a s' ↦ Safe (f a) s' Q W) W := by
  simp only [Bind.bind, bind, Safe]
  cases x s <;> rfl

@[simp] theorem safe_get (Q : σ → σ → Prop) : Safe get s Q W ↔ Q s s := Iff.rfl

@[simp] theorem safe_modify (f : σ → σ) (Q : PUnit → σ → Prop) :
    Safe (modify f) s Q W ↔ Q ⟨⟩ (f s) := Iff.rfl

@[simp] theorem safe_exit : Safe (exit : Comp σ α) s Q W ↔ W s := Iff.rfl

@[simp] theorem safe_wait : Safe (wait : Comp σ α) s Q W ↔ W s := Iff.rfl

theorem safe_mono (h : Safe x s Q W) (hQ : ∀ a s', Q a s' → Q' a s') (hW : ∀ s', W s' → W' s') :
    Safe x s Q' W' := by
  unfold Safe at h ⊢
  cases hx : x s with
  | ok a s' => exact hQ a s' (by simpa [hx] using h)
  | exit s' => exact hW s' (by simpa [hx] using h)
  | wait s' => exact hW s' (by simpa [hx] using h)
  | fault s' => simp [hx] at h

/-- A run that is known. -/
theorem safe_of_eq_ok {a : α} {s' : σ} (hx : x s = .ok a s') (hQ : Q a s') : Safe x s Q W := by
  unfold Safe
  rwa [hx]

theorem ne_fault_of_safe (h : Safe x s Q W) (s' : σ) : x s ≠ .fault s' := by
  intro hx
  unfold Safe at h
  rwa [hx] at h

/-- What has no other way to stop returns. -/
theorem exists_ok_of_safe (h : Safe x s Q fun _ ↦ False) : ∃ a s', x s = .ok a s' ∧ Q a s' := by
  unfold Safe at h
  cases hx : x s with
  | ok a s' => exact ⟨a, s', rfl, by simpa [hx] using h⟩
  | exit s' => simp [hx] at h
  | wait s' => simp [hx] at h
  | fault s' => simp [hx] at h

/-- A safe computation that returned did so with its postcondition. -/
theorem safe_of_ok (h : Safe x s Q W) {a : α} {s' : σ} (hx : x s = .ok a s') : Q a s' := by
  unfold Safe at h
  rwa [hx] at h

/-- Where it stops, with or without a result, holds what both postconditions give. -/
theorem state_of_safe (P : σ → Prop) (h : Safe x s Q W) (hQ : ∀ a s', Q a s' → P s')
    (hW : ∀ s', W s' → P s') : P (x s).state := by
  unfold Safe at h
  cases hx : x s with
  | ok a s' => exact hQ a s' (by simpa [hx] using h)
  | exit s' => exact hW s' (by simpa [hx] using h)
  | wait s' => exact hW s' (by simpa [hx] using h)
  | fault s' => simp [hx] at h

end Safe

/-- However `x` stops, undefined behaviour included, it has only moved along `R`. -/
def Always (R : σ → σ → Prop) (x : Comp σ α) : Prop := ∀ s, R s (x s).state

section Always

variable {R : σ → σ → Prop}

theorem always_pure (hR : ∀ s, R s s) (a : α) : Always R (Pure.pure a : Comp σ α) := hR

theorem always_get (hR : ∀ s, R s s) : Always R (get : Comp σ σ) := hR

theorem always_exit (hR : ∀ s, R s s) : Always R (exit : Comp σ α) := hR

theorem always_fault (hR : ∀ s, R s s) : Always R (fault : Comp σ α) := hR

theorem always_modify {f : σ → σ} (h : ∀ s, R s (f s)) : Always R (modify f) := h

theorem always_ite {c : Prop} [Decidable c] {x y : Comp σ α} (hx : Always R x)
    (hy : Always R y) : Always R (if c then x else y) := by
  split
  · exact hx
  · exact hy

theorem always_bind (hR : ∀ a b c, R a b → R b c → R a c) {x : Comp σ α} {f : α → Comp σ β}
    (hx : Always R x) (hf : ∀ a, Always R (f a)) : Always R (x >>= f) := by
  intro s
  have hxs := hx s
  simp only [Bind.bind, bind]
  cases h : x s with
  | ok a s' =>
    rw [h] at hxs
    exact hR _ _ _ hxs (hf a s')
  | exit s' =>
    rw [h] at hxs
    exact hxs
  | wait s' =>
    rw [h] at hxs
    exact hxs
  | fault s' =>
    rw [h] at hxs
    exact hxs

end Always

/-- However `x` stops, it has moved along `R`, and not into undefined behaviour. -/
def SafeAlong (R : σ → σ → Prop) (x : Comp σ α) : Prop :=
  ∀ s, Safe x s (fun _ s' ↦ R s s') (R s)

section SafeAlong

variable {R : σ → σ → Prop}

theorem safeAlong_pure (hR : ∀ s, R s s) (a : α) : SafeAlong R (Pure.pure a : Comp σ α) := hR

theorem safeAlong_get (hR : ∀ s, R s s) : SafeAlong R (get : Comp σ σ) := hR

theorem safeAlong_exit (hR : ∀ s, R s s) : SafeAlong R (exit : Comp σ α) := hR

theorem safeAlong_wait (hR : ∀ s, R s s) : SafeAlong R (wait : Comp σ α) := hR

theorem safeAlong_modify {f : σ → σ} (h : ∀ s, R s (f s)) : SafeAlong R (modify f) := h

theorem safeAlong_ite {c : Prop} [Decidable c] {x y : Comp σ α} (hx : SafeAlong R x)
    (hy : SafeAlong R y) : SafeAlong R (if c then x else y) := by
  split
  · exact hx
  · exact hy

theorem safeAlong_bind (hR : ∀ a b c, R a b → R b c → R a c) {x : Comp σ α} {f : α → Comp σ β}
    (hx : SafeAlong R x) (hf : ∀ a, SafeAlong R (f a)) : SafeAlong R (x >>= f) := by
  intro s
  rw [safe_bind]
  apply safe_mono (hx s)
  · intro a s' h
    exact safe_mono (hf a s') (fun _ t ht ↦ hR s s' t h ht) (fun t ht ↦ hR s s' t h ht)
  · exact fun _ h ↦ h

end SafeAlong

/-- From a state with `I`, `x` stops in one with `K`, however it stops. -/
def Leads (I : σ → Prop) (x : Comp σ α) (K : σ → Prop) : Prop := ∀ s, I s → K (x s).state

section Leads

variable {I J K : σ → Prop}

theorem leads_pure (a : α) : Leads I (Pure.pure a : Comp σ α) I := fun _ h ↦ h

theorem leads_wait : Leads I (wait : Comp σ α) I := fun _ h ↦ h

theorem leads_fault : Leads I (fault : Comp σ α) I := fun _ h ↦ h

theorem leads_ite {c : Prop} [Decidable c] {x y : Comp σ α} (hx : Leads I x K)
    (hy : Leads I y K) : Leads I (if c then x else y) K := by
  split
  · exact hx
  · exact hy

/-- A sequence whose first part may also be the last. -/
theorem leads_bind {x : Comp σ α} {f : α → Comp σ β} (hx : Leads I x J)
    (hf : ∀ a, Leads J (f a) K) (hK : ∀ s, J s → K s) : Leads I (x >>= f) K := by
  intro s hs
  have hfirst := hx s hs
  simp only [Bind.bind, bind]
  cases h : x s with
  | ok a s' =>
    rw [h] at hfirst
    exact hf a s' hfirst
  | exit s' =>
    rw [h] at hfirst
    exact hK s' hfirst
  | wait s' =>
    rw [h] at hfirst
    exact hK s' hfirst
  | fault s' =>
    rw [h] at hfirst
    exact hK s' hfirst

end Leads

/-- What computations may do to the state when they return and when they end the thread,
closed under doing one after the other. -/
structure Effect (σ : Type u) where
  ok : σ → σ → Prop
  exit : σ → σ → Prop
  refl : ∀ s, ok s s
  trans : ∀ {a b c}, ok a b → ok b c → ok a c
  trans_exit : ∀ {a b c}, ok a b → exit b c → exit a c

/-- The computation does no more than the effect allows. -/
def Within (E : Effect σ) (x : Comp σ α) : Prop :=
  ∀ s, Post x s (fun _ s' ↦ E.ok s s') (fun s' ↦ E.exit s s')

section Within

variable {E : Effect σ}

theorem within_pure (a : α) : Within E (Pure.pure a : Comp σ α) := fun s ↦ E.refl s

theorem within_get : Within E (get : Comp σ σ) := fun s ↦ E.refl s

theorem within_wait : Within E (wait : Comp σ α) := fun _ ↦ trivial

theorem within_fault : Within E (fault : Comp σ α) := fun _ ↦ trivial

theorem within_modify {f : σ → σ} (h : ∀ s, E.ok s (f s)) : Within E (modify f) := h

theorem within_bind {x : Comp σ α} {f : α → Comp σ β} (hx : Within E x)
    (hf : ∀ a, Within E (f a)) : Within E (x >>= f) := by
  intro s
  rw [post_bind]
  apply post_mono (hx s)
  · intro a s' h
    exact post_mono (hf a s') (fun _ _ ht ↦ E.trans h ht) (fun _ ht ↦ E.trans_exit h ht)
  · exact fun _ h ↦ h

theorem within_ite {c : Prop} [Decidable c] {x y : Comp σ α} (hx : Within E x)
    (hy : Within E y) : Within E (if c then x else y) := by
  split
  · exact hx
  · exact hy

theorem within_mono {E' : Effect σ} {x : Comp σ α} (hx : Within E x)
    (hok : ∀ {a b}, E.ok a b → E'.ok a b) (hexit : ∀ {a b}, E.exit a b → E'.exit a b) :
    Within E' x :=
  fun s ↦ post_mono (hx s) (fun _ _ h ↦ hok h) (fun _ h ↦ hexit h)

end Within

/-- A computation on a part of the state. -/
def zoom {τ : Type w} (part : σ → τ) (put : τ → σ → σ) (x : Comp τ α) : Comp σ α := fun s ↦
  match x (part s) with
  | .ok a t => .ok a (put t s)
  | .exit t => .exit (put t s)
  | .wait t => .wait (put t s)
  | .fault t => .fault (put t s)

theorem zoom_of_ok {τ : Type w} (part : σ → τ) (put : τ → σ → σ) {x : Comp τ α} {s : σ} {a : α}
    {t : τ} (h : x (part s) = .ok a t) : zoom part put x s = .ok a (put t s) := by
  rw [zoom, h]

end Comp
end Keow.Base
