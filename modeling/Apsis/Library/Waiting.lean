/-
# Who waits for whom

A statement under READ COMMITTED is held up by a row that another transaction has
written and neither committed nor rolled back. This is the only thing that holds it
up: a `DELETE` that can mark no more rows ends, and an `INSERT` that finds no such
row is carried out or refused.

Sessions that wait for each other in a circle wait forever. Where every session
writes its rows in one common order, it only waits for sessions that have come as far
as itself. So a circle stands at one place of the order, and sessions at different
places never stop all at once.
-/

import Mathlib.Data.Fintype.Card
import Mathlib.Logic.Relation
import Mathlib.Order.WellFounded
import Apsis.Library.ReadCommitted

namespace Apsis.Library

universe u v

namespace Store

variable {ρ : Type u} {ξ : Type v} (s : Store ρ ξ) (x : ξ)

/-- A `DELETE` of `x` comes upon a row that `y` is about to delete. -/
def DeleteWaits (snapshot : List ξ) (p : ρ → Bool) (y : ξ) : Prop :=
  ∃ version ∈ s.versions, p version.row = true ∧ Sees snapshot x version.insertedBy ∧
    version.deletedBy = some y ∧ ¬ Sees s.committed x y

/-- An `INSERT` of `x` comes upon a row that `y` is about to insert or to delete. -/
def InsertWaits (p : ρ → Bool) (y : ξ) : Prop :=
  ∃ version ∈ s.versions, p version.row = true ∧
    (version.insertedBy = y ∨ version.deletedBy = some y) ∧ ¬ Sees s.committed x y

variable [DecidableEq ξ]

instance (snapshot : List ξ) (p : ρ → Bool) (y : ξ) : Decidable (s.DeleteWaits x snapshot p y) :=
  inferInstanceAs (Decidable (∃ _ ∈ s.versions, _))

instance (p : ρ → Bool) (y : ξ) : Decidable (s.InsertWaits x p y) :=
  inferInstanceAs (Decidable (∃ _ ∈ s.versions, _))

variable {s x}

omit [DecidableEq ξ] in
/-- Only the rows matter that are there. -/
theorem InsertWaits.mono {p q : ρ → Bool} {y : ξ} (hwaits : s.InsertWaits x p y)
    (hmono : ∀ version ∈ s.versions, p version.row = true → q version.row = true) :
    s.InsertWaits x q y := by
  obtain ⟨version, hmem, hrow, hmark⟩ := hwaits
  exact ⟨version, hmem, hmono version hmem hrow, hmark⟩

/-- A `DELETE` marks a row, or it ends, or it waits. -/
theorem delete_cases (snapshot : List ξ) (p : ρ → Bool) :
    (∃ index s', s.deleteAt x snapshot p index = some s') ∨ s.DeleteEnds x snapshot p ∨
      ∃ y, s.DeleteWaits x snapshot p y := by
  by_cases hends : s.DeleteEnds x snapshot p
  · exact Or.inr (Or.inl hends)
  · unfold DeleteEnds at hends
    push Not at hends
    obtain ⟨version, hmem, hrow, hinserted, hdeleted⟩ := hends
    cases hmark : version.deletedBy with
    | none =>
        obtain ⟨index, hindex⟩ := List.mem_iff_getElem?.mp hmem
        have hvisible : version.IsVisible snapshot x := by
          refine ⟨hinserted, ?_⟩
          rw [hmark]
          rintro _ ⟨⟩
        exact Or.inl ⟨index, _, deleteAt_eq_some.mpr ⟨version, hindex, hrow, hvisible, hmark, rfl⟩⟩
    | some y =>
        exact Or.inr (Or.inr ⟨y, version, hmem, hrow, hinserted, hmark, hdeleted y hmark⟩)

/-- An `INSERT` that waits has someone to wait for. -/
theorem exists_insertWaits {conflicts : ρ → ρ → Bool} {row : ρ}
    (hwaits : s.insert x conflicts row = .waits) :
    ∃ y, s.InsertWaits x (fun other => conflicts other row) y := by
  unfold insert at hwaits
  split at hwaits
  · cases hwaits
  · next hfree =>
      split at hwaits
      · next hheld =>
          obtain ⟨version, hmem, hconflict, halive⟩ := hheld
          by_cases hinserted : Sees s.committed x version.insertedBy
          · cases hmark : version.deletedBy with
            | none =>
                refine absurd ⟨version, hmem, hconflict, ⟨hinserted, ?_⟩, hmark⟩ hfree
                rw [hmark]
                rintro _ ⟨⟩
            | some y =>
                exact ⟨y, version, hmem, hconflict, Or.inr hmark,
                  fun hsees => halive ⟨hinserted, y, hmark, hsees⟩⟩
          · exact ⟨version.insertedBy, version, hmem, hconflict, Or.inl rfl, hinserted⟩
      · cases hwaits

end Store

/-! ## Circles -/

section Circles

variable {W : Type u} {κ : Type v} {waits : W → W → Prop} {place : W → κ}
  {before : κ → κ → Prop}

/-- Whoever is waited for stands at the same place or at a later one. -/
def Ascends (waits : W → W → Prop) (place : W → κ) (before : κ → κ → Prop) : Prop :=
  ∀ session other, waits session other →
    place session = place other ∨ before (place session) (place other)

variable [IsStrictOrder κ before]

theorem Ascends.of_transGen (h : Ascends waits place before) {session other : W}
    (hwaits : Relation.TransGen waits session other) :
    place session = place other ∨ before (place session) (place other) := by
  induction hwaits with
  | single hwaits => exact h _ _ hwaits
  | tail _ hwaits ih =>
      rcases ih with hsame | hbefore
      · rw [hsame]
        exact h _ _ hwaits
      · rcases h _ _ hwaits with hsame | hafter
        · rw [← hsame]
          exact Or.inr hbefore
        · exact Or.inr (IsTrans.trans _ _ _ hbefore hafter)

/-- **A circle stands at one place.** -/
theorem Ascends.place_eq (h : Ascends waits place before) {session other : W}
    (hthere : Relation.TransGen waits session other)
    (hback : Relation.TransGen waits other session) : place session = place other := by
  rcases h.of_transGen hthere with hsame | hbefore
  · exact hsame
  · rcases h.of_transGen hback with hsame | hafter
    · exact hsame.symm
    · exact absurd (IsTrans.trans _ _ _ hbefore hafter) (Std.Irrefl.irrefl _)

/-- **Somebody goes on.** Of finitely many sessions, each at a place of its own, there
is one that waits for none of them. -/
theorem Ascends.exists_not_waits [Finite W] (h : Ascends waits place before) {busy : W → Prop}
    (hbusy : ∃ session, busy session)
    (hapart : ∀ session other, busy session → busy other → waits session other →
      place session ≠ place other) :
    ∃ session, busy session ∧ ∀ other, busy other → ¬ waits session other := by
  have hwell : WellFounded (Function.onFun (Function.swap before) place) := by
    have htrans : IsTrans W (Function.onFun (Function.swap before) place) :=
      ⟨fun first second third hfirst hsecond =>
        IsTrans.trans (place third) (place second) (place first) hsecond hfirst⟩
    have hirrefl : Std.Irrefl (Function.onFun (Function.swap before) place) :=
      ⟨fun session => Std.Irrefl.irrefl (place session)⟩
    exact Finite.wellFounded_of_trans_of_irrefl _
  obtain ⟨session, hsession, hlast⟩ := hwell.has_min {session | busy session} hbusy
  refine ⟨session, hsession, fun other hother hwaits => ?_⟩
  rcases h session other hwaits with hsame | hbefore
  · exact hapart session other hsession hother hwaits hsame
  · exact hlast other hother hbefore

end Circles

end Apsis.Library
