import Mathlib.Data.List.Basic
import Mathlib.Tactic.Common

/-!
# Lists read in chunks

A reader hands out a list over several calls, a chunk at a time, and says when there is no more.
What is left of the list in each state decides what a sequence of calls hands out.
-/

namespace Keow.Base

universe u v w

variable {σ : Type u} {ι : Type v} {α : Type w}

/-- What the calls hand out until one says that there is no more, and whether one did. -/
def listing (chunk : σ → ι → Option (List α)) (step : σ → ι → σ) : σ → List ι → List α × Bool
  | _, [] => ([], false)
  | s, i :: is =>
      match chunk s i with
      | none => ([], true)
      | some as =>
        (as ++ (listing chunk step (step s i) is).1, (listing chunk step (step s i) is).2)

section Listing

variable {chunk : σ → ι → Option (List α)} {step : σ → ι → σ} {left : σ → List α}
  {ok : ι → Prop} {s : σ} {i : ι} {is : List ι}

theorem listing_cons_of_none (h : chunk s i = none) :
    listing chunk step s (i :: is) = ([], true) := by
  rw [listing, h]

theorem listing_cons_of_some {as : List α} (h : chunk s i = some as) :
    listing chunk step s (i :: is) =
      (as ++ (listing chunk step (step s i) is).1, (listing chunk step (step s i) is).2) := by
  rw [listing, h]

/-- A call either takes a chunk off what is left, or there is nothing left. -/
structure ReadsOff (chunk : σ → ι → Option (List α)) (step : σ → ι → σ) (left : σ → List α)
    (Inv : σ → Prop) (ok : ι → Prop) : Prop where
  keeps : ∀ s i, Inv s → ok i → Inv (step s i)
  atEnd : ∀ s i, Inv s → ok i → chunk s i = none → left s = []
  takes : ∀ s i, Inv s → ok i → ∀ as, chunk s i = some as → left s = as ++ left (step s i)

variable {Inv : σ → Prop}

/-- What is handed out is a front part of what is left. -/
theorem ReadsOff.listing_prefix (h : ReadsOff chunk step left Inv ok) (hs : Inv s)
    (his : ∀ i ∈ is, ok i) : (listing chunk step s is).1 <+: left s := by
  induction is generalizing s with
  | nil => exact List.nil_prefix
  | cons i is ih =>
    obtain ⟨hi, his⟩ := List.forall_mem_cons.mp his
    cases hchunk : chunk s i with
    | none =>
      rw [listing_cons_of_none hchunk]
      exact List.nil_prefix
    | some as =>
      rw [listing_cons_of_some hchunk, h.takes s i hs hi as hchunk]
      exact (List.prefix_append_right_inj as).mpr (ih (h.keeps s i hs hi) his)

/-- Where a call has said that there is no more, all has been handed out. -/
theorem ReadsOff.listing_all (h : ReadsOff chunk step left Inv ok) (hs : Inv s)
    (his : ∀ i ∈ is, ok i) (hend : (listing chunk step s is).2 = true) :
    (listing chunk step s is).1 = left s := by
  induction is generalizing s with
  | nil => exact absurd hend Bool.false_ne_true
  | cons i is ih =>
    obtain ⟨hi, his⟩ := List.forall_mem_cons.mp his
    cases hchunk : chunk s i with
    | none => rw [listing_cons_of_none hchunk, h.atEnd s i hs hi hchunk]
    | some as =>
      rw [listing_cons_of_some hchunk] at hend ⊢
      rw [h.takes s i hs hi as hchunk]
      exact congrArg (as ++ ·) (ih (h.keeps s i hs hi) his hend)

/-- With more calls than there are elements left, one says that there is no more. -/
theorem ReadsOff.listing_ends (h : ReadsOff chunk step left Inv ok)
    (hne : ∀ s i, Inv s → ok i → chunk s i ≠ some []) (hs : Inv s) (his : ∀ i ∈ is, ok i)
    (hlen : (left s).length < is.length) : (listing chunk step s is).2 = true := by
  induction is generalizing s with
  | nil => exact absurd hlen (Nat.not_lt_zero _)
  | cons i is ih =>
    obtain ⟨hi, his⟩ := List.forall_mem_cons.mp his
    cases hchunk : chunk s i with
    | none => rw [listing_cons_of_none hchunk]
    | some as =>
      rw [listing_cons_of_some hchunk]
      apply ih (h.keeps s i hs hi) his
      have hpos : 0 < as.length := List.length_pos_of_ne_nil fun hnil ↦
        hne s i hs hi (hnil ▸ hchunk)
      rw [h.takes s i hs hi as hchunk, List.length_append, List.length_cons] at hlen
      omega

end Listing

end Keow.Base
