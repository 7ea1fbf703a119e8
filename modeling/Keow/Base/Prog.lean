import Keow.Base.Comp

/-!
# Programs of calls

A program makes calls and goes on with what they return. An implementation of the calls runs it,
and a description of the calls says how it may come out; an implementation that does for one call
what the description says does so for a program, as long as its surroundings play their part.
-/

namespace Keow.Base

/-- A program that makes calls `ι`, which return `ρ`. -/
inductive Prog (ι ρ α : Type) where
  | done (a : α)
  | call (i : ι) (next : ρ → Prog ι ρ α)

/-- What calls may do to a state: return, or put an end to it all. -/
structure CallSpec (ι ρ τ ε : Type) where
  returns : ι → τ → ρ → τ → Prop
  ends : ι → τ → ε → Prop

namespace Prog

variable {ι ρ α τ ε σ : Type}

/-- Each call is carried out. -/
def run (step : ι → Comp σ ρ) : Prog ι ρ α → Comp σ α
  | done a => pure a
  | call i next => do
      let r ← step i
      (next r).run step

theorem within_run {E : Comp.Effect σ} {step : ι → Comp σ ρ} (h : ∀ i, Comp.Within E (step i))
    (p : Prog ι ρ α) : Comp.Within E (p.run step) := by
  induction p with
  | done a => exact Comp.within_pure a
  | call i next ih => exact Comp.within_bind (h i) ih

def makesCall : Prog ι ρ α → Bool
  | done _ => false
  | call _ _ => true

/-- How a program may come out. -/
inductive Comes (S : CallSpec ι ρ τ ε) : Prog ι ρ α → τ → Except ε (α × τ) → Prop
  | done (a : α) (t : τ) : Comes S (.done a) t (.ok (a, t))
  | returns {i : ι} {next : ρ → Prog ι ρ α} {t t' : τ} {r : ρ} {o : Except ε (α × τ)}
      (hcall : S.returns i t r t') (hnext : Comes S (next r) t' o) : Comes S (.call i next) t o
  | ends {i : ι} {next : ρ → Prog ι ρ α} {t : τ} {e : ε} (hcall : S.ends i t e) :
      Comes S (.call i next) t (.error e)

/-- What every call leaves behind holds after a program that makes one. -/
theorem Comes.of_returns {S : CallSpec ι ρ τ ε} {P : τ → Prop}
    (hP : ∀ i t r t', S.returns i t r t' → P t') {p : Prog ι ρ α} {t t' : τ} {a : α}
    (h : Comes S p t (.ok (a, t'))) (hp : p.makesCall = true) : P t' := by
  have hkeeps : ∀ (p : Prog ι ρ α) t, P t → Comes S p t (.ok (a, t')) → P t' := by
    intro p
    induction p with
    | done b =>
      intro t ht h
      cases h
      exact ht
    | call i next ih =>
      intro t _ h
      cases h with
      | returns hcall hnext => exact ih _ _ (hP _ _ _ _ hcall) hnext
  cases h with
  | done => cases hp
  | returns hcall hnext => exact hkeeps _ _ (hP _ _ _ _ hcall) hnext

/-- The surroundings of an implementation play their part in every call of a program. -/
def Answered (S : CallSpec ι ρ τ ε) (step : ι → Comp σ ρ) (Sim : τ → σ → Prop)
    (Answers : ι → τ → σ → Prop) : Prog ι ρ α → τ → σ → Prop
  | done _, _, _ => True
  | call i next, t, s => Answers i t s ∧ ∀ r t' s', step i s = .ok r s' → S.returns i t r t' →
      Sim t' s' → Answered S step Sim Answers (next r) t' s'

/-- A call of the implementation does what the description says. -/
def Simulates (S : CallSpec ι ρ τ ε) (step : ι → Comp σ ρ) (Sim : τ → σ → Prop)
    (Answers : ι → τ → σ → Prop) (Ended : ε → σ → Prop) : Prop :=
  ∀ i t s, Sim t s → Answers i t s →
    (∃ r t' s', step i s = .ok r s' ∧ S.returns i t r t' ∧ Sim t' s') ∨
      ∃ e s', step i s = .exit s' ∧ S.ends i t e ∧ Ended e s'

/-- And so does a program. -/
theorem Simulates.run {S : CallSpec ι ρ τ ε} {step : ι → Comp σ ρ} {Sim : τ → σ → Prop}
    {Answers : ι → τ → σ → Prop} {Ended : ε → σ → Prop}
    (h : Simulates S step Sim Answers Ended) (p : Prog ι ρ α) {t : τ} {s : σ} (hsim : Sim t s)
    (hanswered : p.Answered S step Sim Answers t s) :
    (∃ a t' s', p.run step s = .ok a s' ∧ Comes S p t (.ok (a, t')) ∧ Sim t' s') ∨
      ∃ e s', p.run step s = .exit s' ∧ Comes S p t (.error e) ∧ Ended e s' := by
  induction p generalizing t s with
  | done a => exact .inl ⟨a, t, s, rfl, .done a t, hsim⟩
  | call i next ih =>
    obtain ⟨hanswer, hlater⟩ := hanswered
    rcases h i t s hsim hanswer with
      ⟨r, t', s', hstep, hreturns, hsim'⟩ | ⟨e, s', hstep, hends, hended⟩
    · have hrun : (call i next).run step s = (next r).run step s' := Comp.bind_of_ok hstep _
      rw [hrun]
      rcases ih r hsim' (hlater r t' s' hstep hreturns hsim') with
        ⟨a, t'', s'', hrun', hcomes, hsim''⟩ | ⟨e, s'', hrun', hcomes, hended⟩
      · exact .inl ⟨a, t'', s'', hrun', .returns hreturns hcomes, hsim''⟩
      · exact .inr ⟨e, s'', hrun', .returns hreturns hcomes, hended⟩
    · refine .inr ⟨e, s', ?_, .ends hends, hended⟩
      change (step i >>= fun r ↦ (next r).run step) s = .exit s'
      simp only [Bind.bind, Comp.bind, hstep]

end Prog

end Keow.Base
