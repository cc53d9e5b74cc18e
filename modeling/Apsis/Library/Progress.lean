/-
# Goals that a run cannot put off

A potential is a natural number that no step raises and that some steps, those that count,
lower. As long as the goal has not been reached the potential is what is left of them, so a
run in which more steps count has reached the goal.

Nothing is assumed about the order of the steps, or that a step which counts is ever taken.
-/

import Mathlib.Data.Nat.Notation
import Apsis.Library.System

namespace Apsis.Library.System

universe u v

variable {σ : Type u} {α : Type v} {M : System σ α} {goal ok : Transition σ α → Prop}
  {counts : Transition σ α → Bool} {I : σ → Prop} {potential : σ → ℕ}

/-- One step reaches the goal, or it keeps the invariant and pays for itself. -/
def Approaches (M : System σ α) (goal ok : Transition σ α → Prop) (counts : Transition σ α → Bool)
    (I : σ → Prop) (potential : σ → ℕ) : Prop :=
  ∀ s a s', I s → M.step s a = some s' → ok ⟨s, a, s'⟩ → goal ⟨s, a, s'⟩ ∨
    I s' ∧ potential s' + (if counts ⟨s, a, s'⟩ then 1 else 0) ≤ potential s

/-- A step that counts can be taken. -/
def Enables (M : System σ α) (counts : Transition σ α → Bool) (s : σ) : Prop :=
  ∃ a s', M.step s a = some s' ∧ counts ⟨s, a, s'⟩ = true

/-- What holds of a continuation that has not reached the goal. -/
theorem Approaches.of_run (happroaches : M.Approaches goal ok counts I potential) {s s' : σ}
    {late : History σ α} (hstart : I s) (hrun : (M.startingIn s).Run late s')
    (hok : ∀ t ∈ late, ok t) (hnot : ∀ t ∈ late, ¬ goal t) :
    I s' ∧ potential s' + late.countP counts ≤ potential s := by
  induction hrun with
  | start hinit =>
      cases hinit
      exact ⟨hstart, Nat.le_refl _⟩
  | @extend late before after a prior hstep ih =>
      obtain ⟨hbefore, hspent⟩ := ih (fun t ht => hok t (List.mem_cons_of_mem _ ht))
        fun t ht => hnot t (List.mem_cons_of_mem _ ht)
      rcases happroaches before a after hbefore hstep (hok _ List.mem_cons_self) with
        hgoal | ⟨hafter, hpays⟩
      · exact absurd hgoal (hnot _ List.mem_cons_self)
      · rw [List.countP_cons]
        exact ⟨hafter, by omega⟩

/-- **The progress rule.** If more steps count than the potential allows, the goal has been
reached. -/
theorem Approaches.exists_goal (happroaches : M.Approaches goal ok counts I potential) {s s' : σ}
    {late : History σ α} (hstart : I s) (hrun : (M.startingIn s).Run late s')
    (hok : ∀ t ∈ late, ok t) (hlong : potential s < late.countP counts) :
    ∃ t ∈ late, goal t := by
  by_contra hnone
  obtain ⟨-, hspent⟩ := happroaches.of_run hstart hrun hok fun t ht hgoal => hnone ⟨t, ht, hgoal⟩
  omega

end Apsis.Library.System
