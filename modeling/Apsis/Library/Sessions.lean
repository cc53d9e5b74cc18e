/-
# Sessions on a table

Any number of sessions, each with at most one open transaction. Transactions are
numbered as they begin. `Sessions` is what then holds whatever the sessions do:
open transactions are apart from each other and from the committed ones, and
every mark in the table is that of a transaction which is open or has committed.
-/

import Mathlib.Logic.Function.Basic
import Apsis.Library.ReadCommitted

namespace Apsis.Library

universe u v

variable {ρ : Type u} {W : Type v}

/-- The transaction has committed, or a session has it open. -/
def IsLive (s : Store ρ ℕ) (opened : W → Option ℕ) (x : ℕ) : Prop :=
  x ∈ s.committed ∨ ∃ session, opened session = some x

/-- The sessions and the table. -/
structure Sessions (s : Store ρ ℕ) (next : ℕ) (opened : W → Option ℕ) : Prop where
  /-- Live transactions have been numbered. -/
  numbered : ∀ x, IsLive s opened x → x < next
  /-- An open transaction has not committed. -/
  uncommitted : ∀ session x, opened session = some x → x ∉ s.committed
  /-- It is that of one session. -/
  owner : ∀ first second x, opened first = some x → opened second = some x → first = second
  /-- There are no other marks. -/
  marked : s.MarkedBy (IsLive s opened)

namespace Sessions

variable {s s' : Store ρ ℕ} {next : ℕ} {opened : W → Option ℕ} {session : W} {x : ℕ}

/-- The next number is that of no live transaction. -/
theorem not_isLive (h : Sessions s next opened) : ¬ IsLive s opened next :=
  fun hlive => Nat.lt_irrefl next (h.numbered next hlive)

/-- Sessions before any of them has begun a transaction. -/
theorem initial (hfree : ∀ session, opened session = none) (hnumbered : ∀ x ∈ s.committed, x < next)
    (hmarked : s.MarkedBy (· ∈ s.committed)) : Sessions s next opened := by
  constructor
  · rintro x (hcommitted | ⟨session, hopen⟩)
    · exact hnumbered x hcommitted
    · rw [hfree] at hopen
      cases hopen
  · intro session x hopen
    rw [hfree] at hopen
    cases hopen
  · intro first second x hopen
    rw [hfree] at hopen
    cases hopen
  · exact hmarked.mono fun x hcommitted => Or.inl hcommitted

theorem deleteAt (h : Sessions s next opened) (hopen : opened session = some x)
    {snapshot : List ℕ} {p : ρ → Bool} {index : ℕ}
    (hdelete : s.deleteAt x snapshot p index = some s') : Sessions s' next opened := by
  have hcommitted := Store.deleteAt_committed hdelete
  have hlive : IsLive s' opened = IsLive s opened := by
    ext y
    rw [IsLive, IsLive, hcommitted]
  constructor
  · rw [hlive]
    exact h.numbered
  · rw [hcommitted]
    exact h.uncommitted
  · exact h.owner
  · rw [hlive]
    exact h.marked.deleteAt (Or.inr ⟨session, hopen⟩) hdelete

theorem insert (h : Sessions s next opened) (hopen : opened session = some x)
    {conflicts : ρ → ρ → Bool} {row : ρ} (hinsert : s.insert x conflicts row = .inserted s') :
    Sessions s' next opened := by
  have hcommitted : s'.committed = s.committed := by
    rw [Store.insert_eq_inserted hinsert]
  have hlive : IsLive s' opened = IsLive s opened := by
    ext y
    rw [IsLive, IsLive, hcommitted]
  constructor
  · rw [hlive]
    exact h.numbered
  · rw [hcommitted]
    exact h.uncommitted
  · exact h.owner
  · rw [hlive]
    exact h.marked.insert (Or.inr ⟨session, hopen⟩) hinsert

variable [DecidableEq W]

theorem isLive_update (hopen : opened session = none) {y : ℕ} (hlive : IsLive s opened y)
    (tx : Option ℕ) : IsLive s (Function.update opened session tx) y := by
  refine hlive.imp_right ?_
  rintro ⟨other, hother⟩
  refine ⟨other, ?_⟩
  rw [Function.update_of_ne, hother]
  rintro rfl
  rw [hopen] at hother
  cases hother

/-- A session begins a transaction. -/
theorem begin (h : Sessions s next opened) (hfree : opened session = none) :
    Sessions s (next + 1) (Function.update opened session (some next)) := by
  have hcases : ∀ other y, Function.update opened session (some next) other = some y →
      other = session ∧ y = next ∨ other ≠ session ∧ opened other = some y := by
    intro other y hother
    by_cases hsame : other = session
    · subst hsame
      rw [Function.update_self, Option.some.injEq] at hother
      exact Or.inl ⟨rfl, hother.symm⟩
    · rw [Function.update_of_ne hsame] at hother
      exact Or.inr ⟨hsame, hother⟩
  have hnew : ∀ other, opened other ≠ some next :=
    fun other hother => h.not_isLive (Or.inr ⟨other, hother⟩)
  constructor
  · rintro y (hcommitted | ⟨other, hother⟩)
    · exact Nat.lt_succ_of_lt (h.numbered y (Or.inl hcommitted))
    · rcases hcases other y hother with ⟨-, rfl⟩ | ⟨-, hother⟩
      · exact Nat.lt_succ_self y
      · exact Nat.lt_succ_of_lt (h.numbered y (Or.inr ⟨other, hother⟩))
  · intro other y hother hcommitted
    rcases hcases other y hother with ⟨-, rfl⟩ | ⟨-, hother⟩
    · exact h.not_isLive (Or.inl hcommitted)
    · exact h.uncommitted other y hother hcommitted
  · intro first second y hfirst hsecond
    rcases hcases first y hfirst with ⟨hself, hnext⟩ | ⟨-, hold⟩
    · rcases hcases second y hsecond with ⟨hself', -⟩ | ⟨-, hold'⟩
      · exact hself.trans hself'.symm
      · exact absurd (hnext ▸ hold') (hnew second)
    · rcases hcases second y hsecond with ⟨-, hnext⟩ | ⟨-, hold'⟩
      · exact absurd (hnext ▸ hold) (hnew first)
      · exact h.owner first second y hold hold'
  · exact h.marked.mono fun y hlive => isLive_update hfree hlive (some next)

/-- What is open after a session has ended its transaction was open before. -/
theorem opened_of_update {other : W} {y : ℕ}
    (hother : Function.update opened session none other = some y) :
    other ≠ session ∧ opened other = some y := by
  by_cases hsame : other = session
  · subst hsame
    rw [Function.update_self] at hother
    cases hother
  · rw [Function.update_of_ne hsame] at hother
    exact ⟨hsame, hother⟩

theorem commit (h : Sessions s next opened) (hopen : opened session = some x) :
    Sessions (s.commit x) next (Function.update opened session none) := by
  have hback : ∀ y, IsLive (s.commit x) (Function.update opened session none) y →
      IsLive s opened y := by
    rintro y (hcommitted | ⟨other, hother⟩)
    · rcases List.mem_cons.mp hcommitted with rfl | hcommitted
      · exact Or.inr ⟨session, hopen⟩
      · exact Or.inl hcommitted
    · exact Or.inr ⟨other, (opened_of_update hother).2⟩
  constructor
  · exact fun y hlive => h.numbered y (hback y hlive)
  · intro other y hother hcommitted
    obtain ⟨hne, hother⟩ := opened_of_update hother
    rcases List.mem_cons.mp hcommitted with rfl | hcommitted
    · exact hne (h.owner other session y hother hopen)
    · exact h.uncommitted other y hother hcommitted
  · intro first second y hfirst hsecond
    exact h.owner first second y (opened_of_update hfirst).2 (opened_of_update hsecond).2
  · apply h.marked.mono
    rintro y (hcommitted | ⟨other, hother⟩)
    · exact Or.inl (List.mem_cons_of_mem x hcommitted)
    · by_cases hsame : other = session
      · subst hsame
        rw [hopen, Option.some.injEq] at hother
        exact Or.inl (List.mem_cons.mpr (Or.inl hother.symm))
      · exact Or.inr ⟨other, by rw [Function.update_of_ne hsame, hother]⟩

theorem rollback (h : Sessions s next opened) (hopen : opened session = some x) :
    Sessions (s.rollback x) next (Function.update opened session none) := by
  constructor
  · rintro y (hcommitted | ⟨other, hother⟩)
    · exact h.numbered y (Or.inl hcommitted)
    · exact h.numbered y (Or.inr ⟨other, (opened_of_update hother).2⟩)
  · intro other y hother
    exact h.uncommitted other y (opened_of_update hother).2
  · intro first second y hfirst hsecond
    exact h.owner first second y (opened_of_update hfirst).2 (opened_of_update hsecond).2
  · apply (h.marked.rollback).mono
    rintro y ⟨hcommitted | ⟨other, hother⟩, hne⟩
    · exact Or.inl hcommitted
    · refine Or.inr ⟨other, ?_⟩
      rw [Function.update_of_ne, hother]
      rintro rfl
      rw [hopen, Option.some.injEq] at hother
      exact hne hother.symm

end Sessions

end Apsis.Library
