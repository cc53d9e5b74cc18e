/-
# How early the transitions of a history were

A pace is a lower bound on the time between two transitions of a kind. It is kept by the
deadlines that a program carries in its state, and each deadline says how early everything of
the kind has been so far: a new one of the kind is due at a deadline that is late enough.
-/

import Mathlib.Algebra.Order.Ring.Int
import Apsis.Library.System

namespace Apsis.Library

universe u v

variable {σ : Type u} {α : Type v} {clock : σ → ℤ} {p : Transition σ α → Prop}
  {h : History σ α} {t : Transition σ α} {limit limit' : ℤ}

/-- Every transition of the kind so far has led to a state at this time or earlier. -/
def History.DoneBy (clock : σ → ℤ) (p : Transition σ α → Prop) (h : History σ α) (limit : ℤ) :
    Prop :=
  ∀ t ∈ h, p t → clock t.target ≤ limit

theorem History.doneBy_nil : History.DoneBy clock p [] limit := by
  rintro _ ⟨⟩

theorem History.DoneBy.mono (hdone : h.DoneBy clock p limit) (hle : limit ≤ limit') :
    h.DoneBy clock p limit' :=
  fun t hmem ht => (hdone t hmem ht).trans hle

theorem History.DoneBy.cons (hdone : h.DoneBy clock p limit)
    (hlast : p t → clock t.target ≤ limit) : History.DoneBy clock p (t :: h) limit := by
  intro other hmem hother
  rcases List.mem_cons.mp hmem with rfl | hmem
  · exact hlast hother
  · exact hdone other hmem hother

end Apsis.Library
