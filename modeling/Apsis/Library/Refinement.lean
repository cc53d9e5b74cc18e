/-
# Refinement between systems

A view is what a system looks like from outside: a function on its states, and for
every transition the action that it stands for, or none if nothing is to be seen of it.
A system refines another one under a view if each of its steps is, in the view, a step
of the other or no step at all. Then the view of every run is a run, with the actions
in the same order, and what holds of the runs of the other system holds of the views.
-/

import Apsis.Library.System

namespace Apsis.Library

universe u v u' v'

variable {σ : Type u} {α : Type v} {τ : Type u'} {β : Type v'}

/-- A history as it is seen from outside. -/
def History.view (f : σ → τ) (act : Transition σ α → Option β) (h : History σ α) : History τ β :=
  h.filterMap fun t => (act t).map fun b => ⟨f t.source, b, f t.target⟩

theorem History.exists_of_mem_view {f : σ → τ} {act : Transition σ α → Option β}
    {h : History σ α} {seen : Transition τ β} (hmem : seen ∈ h.view f act) :
    ∃ t ∈ h, act t = some seen.action := by
  obtain ⟨t, ht, hseen⟩ := List.mem_filterMap.mp hmem
  obtain ⟨b, hact, rfl⟩ := Option.map_eq_some_iff.mp hseen
  exact ⟨t, ht, hact⟩

namespace System

/-- Seen from outside, the steps of the first system from states with the invariant are steps
of the second one. -/
structure Refines (M : System σ α) (N : System τ β) (I : σ → Prop) (f : σ → τ)
    (act : Transition σ α → Option β) : Prop where
  init : ∀ s, M.init s → N.init (f s)
  /-- What is seen is a step. -/
  seen : ∀ s a s' b, I s → M.step s a = some s' → act ⟨s, a, s'⟩ = some b →
    N.step (f s) b = some (f s')
  /-- Where nothing is seen, nothing has changed. -/
  unseen : ∀ s a s', I s → M.step s a = some s' → act ⟨s, a, s'⟩ = none → f s' = f s

variable {M : System σ α} {N : System τ β} {I : σ → Prop} {f : σ → τ}
  {act : Transition σ α → Option β} {h : History σ α} {s : σ}

/-- **The refinement rule.** The view of a run is a run. -/
theorem Refines.run (hrefines : M.Refines N I f act) (hinv : ∀ h s, M.Run h s → I s)
    (hrun : M.Run h s) : N.Run (h.view f act) (f s) := by
  induction hrun with
  | start hinit => exact .start (hrefines.init _ hinit)
  | @extend h s s' a prior hstep ih =>
      unfold History.view at ih ⊢
      cases hact : act ⟨s, a, s'⟩ with
      | none =>
          rw [List.filterMap_cons_none (by rw [hact]; rfl),
            hrefines.unseen s a s' (hinv h s prior) hstep hact]
          exact ih
      | some b =>
          rw [List.filterMap_cons_some (by rw [hact]; rfl)]
          exact ih.extend (hrefines.seen s a s' b (hinv h s prior) hstep hact)

end System

end Apsis.Library
