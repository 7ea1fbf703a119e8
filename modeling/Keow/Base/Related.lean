import Keow.Base.Comp

/-!
# Two runs side by side

What follows when two computations start from related states: `Alike` says that they stop in
the same way, with the same value and in related states again. The rules follow the ways in
which computations are put together; at `get` the two go on with different states.
-/

namespace Keow.Base

universe u v

variable {σ : Type u} {α β : Type v} {R : σ → σ → Prop}

/-- Two runs that stopped in the same way, with the same value. -/
inductive Result.Alike (R : σ → σ → Prop) : Result σ α → Result σ α → Prop
  | ok (a : α) {s t : σ} (h : R s t) : Alike R (.ok a s) (.ok a t)
  | exit {s t : σ} (h : R s t) : Alike R (.exit s) (.exit t)
  | wait {s t : σ} (h : R s t) : Alike R (.wait s) (.wait t)
  | fault {s t : σ} (h : R s t) : Alike R (.fault s) (.fault t)

/-- Both return or neither does. -/
theorem Result.Alike.returned {r r' : Result σ α} (h : Alike R r r') :
    r.returned = r'.returned := by
  cases h <;> rfl

namespace Comp

/-- From related states the two computations stop alike. -/
def Alike (R : σ → σ → Prop) (x y : Comp σ α) : Prop := ∀ s t, R s t → (x s).Alike R (y t)

theorem alike_pure (a : α) : Alike R (Pure.pure a : Comp σ α) (Pure.pure a) :=
  fun _ _ h ↦ .ok a h

theorem alike_wait : Alike R (wait : Comp σ α) wait := fun _ _ h ↦ .wait h

theorem alike_exit : Alike R (exit : Comp σ α) exit := fun _ _ h ↦ .exit h

theorem alike_fault : Alike R (fault : Comp σ α) fault := fun _ _ h ↦ .fault h

theorem alike_modify {f g : σ → σ} (h : ∀ s t, R s t → R (f s) (g t)) :
    Alike R (modify f) (modify g) :=
  fun s t hst ↦ .ok _ (h s t hst)

theorem alike_bind {x y : Comp σ α} {f g : α → Comp σ β} (hx : Alike R x y)
    (hf : ∀ a, Alike R (f a) (g a)) : Alike R (x >>= f) (y >>= g) := by
  intro s t h
  have hfirst := hx s t h
  simp only [Bind.bind, bind]
  generalize x s = r at hfirst
  generalize y t = r' at hfirst
  cases hfirst with
  | ok a h' => exact hf a _ _ h'
  | exit h' => exact .exit h'
  | wait h' => exact .wait h'
  | fault h' => exact .fault h'

/-- Each reads its own state. -/
theorem alike_get_bind {τ : Type v} {R : τ → τ → Prop} {f g : τ → Comp τ β}
    (hf : ∀ s t, R s t → Alike R (f s) (g t)) :
    Alike R (get >>= f) (get >>= g) :=
  fun s t h ↦ hf s t h s t h

theorem alike_ite {c d : Prop} [Decidable c] [Decidable d] {x x' y y' : Comp σ α} (hcd : c ↔ d)
    (hx : Alike R x y) (hx' : Alike R x' y') :
    Alike R (if c then x else x') (if d then y else y') := by
  by_cases hc : c
  · rwa [if_pos hc, if_pos (hcd.mp hc)]
  · rwa [if_neg hc, if_neg (mt hcd.mpr hc)]

end Comp

end Keow.Base
