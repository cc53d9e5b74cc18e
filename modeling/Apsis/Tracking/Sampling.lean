/-
# The samples of a track

`_sample_instants` divides the span of a pass by the number of steps, with the rounding
of `timedelta`: to the nearest microsecond, and half a microsecond to the even side.
What is needed about the division is in `divideAndRound_nearest` and
`divideAndRound_tie`; that it is monotone, exact where it can be, and strict over more
than one whole step follows from the first alone.
-/

import Mathlib.Algebra.Order.Ring.Abs
import Mathlib.Data.Rat.Cast.Order
import Mathlib.Tactic.FieldSimp
import Mathlib.Tactic.Linarith
import Mathlib.Tactic.Ring
import Apsis.Tracking.Passes

namespace Apsis.Tracking

open Apsis.Core

/-! ## Rounding half to even -/

section Division

variable {a a' b : ℤ}

/-- The rounded quotient is off by half the divisor at most. -/
theorem divideAndRound_nearest (hb : 0 < b) (a : ℤ) :
    -b ≤ 2 * (b * divideAndRound a b - a) ∧ 2 * (b * divideAndRound a b - a) ≤ b := by
  have hsplit := Int.emod_add_mul_ediv a b
  have hnonneg := Int.emod_nonneg a hb.ne'
  have hlt := Int.emod_lt_of_pos a hb
  unfold divideAndRound
  split
  · next hup =>
      rw [mul_add, mul_one]
      lia
  · next hdown =>
      rw [not_or, not_lt] at hdown
      lia

/-- Where two quotients are equally near, the even one is taken. -/
theorem divideAndRound_tie (hb : 0 < b) (htie : |2 * (b * divideAndRound a b - a)| = b) :
    divideAndRound a b % 2 = 0 := by
  have hsplit := Int.emod_add_mul_ediv a b
  have hnonneg := Int.emod_nonneg a hb.ne'
  have hlt := Int.emod_lt_of_pos a hb
  rcases (abs_eq hb.le).mp htie with hover | hunder
  · -- The quotient was rounded up.
    unfold divideAndRound at hover ⊢
    split at hover
    · next hup =>
        rw [if_pos hup]
        rw [mul_add, mul_one] at hover
        lia
    · lia
  · -- The quotient was rounded down.
    unfold divideAndRound at hunder ⊢
    split at hunder
    · next hup =>
        rw [mul_add, mul_one] at hunder
        lia
    · next hdown =>
        rw [if_neg hdown]
        lia

/-- A quotient that is a whole number is not rounded. -/
theorem divideAndRound_mul (hb : 0 < b) (k : ℤ) : divideAndRound (b * k) b = k := by
  rw [divideAndRound, Int.mul_emod_right, Int.mul_ediv_cancel_left k hb.ne', if_neg]
  lia

theorem divideAndRound_mono (hb : 0 < b) (hle : a ≤ a') :
    divideAndRound a b ≤ divideAndRound a' b := by
  rcases hle.eq_or_lt with rfl | hlt
  · exact le_rfl
  have hupper := (divideAndRound_nearest hb a).2
  have hlower := (divideAndRound_nearest hb a').1
  by_contra hnot
  have hgap : divideAndRound a' b + 1 ≤ divideAndRound a b := not_le.mp hnot
  have hprod := mul_le_mul_of_nonneg_left hgap hb.le
  rw [mul_add, mul_one] at hprod
  lia

/-- Over more than one whole divisor the rounded quotient grows. -/
theorem divideAndRound_strict (hb : 0 < b) (hlt : a + b < a') :
    divideAndRound a b < divideAndRound a' b := by
  have hupper := (divideAndRound_nearest hb a).2
  have hlower := (divideAndRound_nearest hb a').1
  by_contra hnot
  have hprod := mul_le_mul_of_nonneg_left (not_lt.mp hnot) hb.le
  lia

/-- The rounded quotient is within one half of the exact one. -/
theorem abs_divideAndRound_sub_le (hb : 0 < b) (a : ℤ) :
    |(divideAndRound a b : ℚ) - a / b| ≤ 1 / 2 := by
  obtain ⟨hlower, hupper⟩ := divideAndRound_nearest hb a
  have hbq : (0 : ℚ) < b := by exact_mod_cast hb
  have hlower' : -(b : ℚ) ≤ 2 * (b * divideAndRound a b - a) := by exact_mod_cast hlower
  have hupper' : 2 * (b * divideAndRound a b - a) ≤ (b : ℚ) := by exact_mod_cast hupper
  have hoff : (divideAndRound a b : ℚ) - a / b = (b * divideAndRound a b - a) / b := by
    field_simp
  rw [hoff, abs_le, le_div_iff₀ hbq, div_le_iff₀ hbq]
  constructor <;> linarith

/-- It is off by exactly one half where two quotients are equally near. -/
theorem abs_two_mul_eq (hb : 0 < b)
    (htie : |(divideAndRound a b : ℚ) - a / b| = 1 / 2) :
    |2 * (b * divideAndRound a b - a)| = b := by
  have hbq : (0 : ℚ) < b := by exact_mod_cast hb
  have hoff : (2 * (b * divideAndRound a b - a) : ℚ) =
      2 * b * ((divideAndRound a b : ℚ) - a / b) := by
    field_simp
  have habs : |(2 * (b * divideAndRound a b - a) : ℚ)| = b := by
    rw [hoff, abs_mul, htie, abs_of_pos (by linarith)]
    ring
  exact_mod_cast habs

end Division

/-! ## The samples -/

/-- The samples as they are before the last one is fixed. -/
def rawInstants (start stop : Time) (count : ℕ) : List Time :=
  (List.range count).map fun step : ℕ =>
    start + divideAndRound ((stop - start) * step) (count - 1)

/-- What a track needs of its samples. -/
structure CoversEvenly (start stop : Time) (count : ℕ) (instants : List Time) : Prop where
  length : instants.length = count
  first : instants.head? = some start
  last : instants.getLast? = some stop
  /-- Every sample is a rounded one, the last one included. -/
  rounded : ∀ step < count, instants[step]? =
    some (start + divideAndRound ((stop - start) * step) (count - 1))
  /-- It is within half a microsecond of the exact point. -/
  nearest : ∀ (step : ℕ) (instant : Time), instants[step]? = some instant →
    |(instant : ℚ) - (start + (stop - start) * step / (count - 1))| ≤ 1 / 2
  /-- Where two microseconds are equally near, the even offset is taken. -/
  even : ∀ (step : ℕ) (instant : Time), instants[step]? = some instant →
    |(instant : ℚ) - (start + (stop - start) * step / (count - 1))| = 1 / 2 →
      (instant - start) % 2 = 0
  inside : ∀ instant ∈ instants, start ≤ instant ∧ instant ≤ stop
  ordered : instants.Pairwise (· ≤ ·)
  /-- No two samples are the same if there is a microsecond for each step. -/
  strict : (count : ℤ) - 1 ≤ stop - start → instants.Pairwise (· < ·)

section Samples

variable {start stop : Time} {count : ℕ}

theorem getElem?_rawInstants {step : ℕ} (hstep : step < count) :
    (rawInstants start stop count)[step]? =
      some (start + divideAndRound ((stop - start) * step) (count - 1)) := by
  simp [rawInstants, hstep]

/-- The last sample is the end already, so that fixing it changes nothing. -/
theorem sampleInstants_eq_rawInstants (hcount : 2 ≤ count) :
    sampleInstants start stop count = rawInstants start stop count := by
  have hlast : (rawInstants start stop count)[count - 1]? = some stop := by
    have hcast : ((count - 1 : ℕ) : ℤ) = count - 1 := by lia
    rw [getElem?_rawInstants (by lia), hcast, mul_comm, divideAndRound_mul (by lia)]
    congr 1
    lia
  have hset : sampleInstants start stop count =
      (rawInstants start stop count).set (count - 1) stop := by
    have hcast : (do let step ← List.range count; pure (step : ℤ)) =
        (List.range count).map Nat.cast := List.map_eq_flatMap.symm
    rw [sampleInstants, hcast, List.map_map]
    rfl
  rw [hset]
  apply List.ext_getElem?
  intro step
  rw [List.getElem?_set]
  split
  · next hstep =>
      rw [← hstep, hlast, if_pos (by simp [rawInstants]; lia)]
  · rfl

/-- Later samples are later. -/
theorem rawInstants_pairwise {R : Time → Time → Prop}
    (hstep : ∀ i j : ℕ, i < j → j < count →
      R (start + divideAndRound ((stop - start) * i) (count - 1))
        (start + divideAndRound ((stop - start) * j) (count - 1))) :
    (rawInstants start stop count).Pairwise R := by
  rw [rawInstants, List.pairwise_map]
  apply (List.pairwise_lt_range (n := count)).imp_of_mem
  intro i j _ hj hlt
  exact hstep i j hlt (List.mem_range.mp hj)

theorem exists_step_of_mem {instant : Time} (hmem : instant ∈ rawInstants start stop count) :
    ∃ step < count, instant = start + divideAndRound ((stop - start) * step) (count - 1) := by
  obtain ⟨step, hstep, rfl⟩ := List.mem_map.mp hmem
  exact ⟨step, List.mem_range.mp hstep, rfl⟩

theorem eq_of_getElem?_rawInstants {step : ℕ} {instant : Time}
    (hinstant : (rawInstants start stop count)[step]? = some instant) :
    step < count ∧ start + divideAndRound ((stop - start) * step) (count - 1) = instant := by
  have hstep : step < count := by
    have hlength := (List.getElem?_eq_some_iff.mp hinstant).1
    simpa [rawInstants] using hlength
  rw [getElem?_rawInstants hstep] at hinstant
  exact ⟨hstep, Option.some.inj hinstant⟩

/-- How far a sample is from the exact point. -/
theorem offset_eq {step : ℕ} {instant : Time}
    (hinstant : (rawInstants start stop count)[step]? = some instant) :
    (instant : ℚ) - (start + (stop - start) * step / (count - 1)) =
      divideAndRound ((stop - start) * step) (count - 1) -
        ((stop - start) * step : ℤ) / ((count - 1 : ℤ) : ℚ) := by
  obtain ⟨_, rfl⟩ := eq_of_getElem?_rawInstants hinstant
  push_cast
  ring

theorem strict_of_le (hspan : start < stop) (hcount : 2 ≤ count)
    (hwide : (count : ℤ) - 1 ≤ stop - start) {i j : ℕ} (hlt : i < j) :
    start + divideAndRound ((stop - start) * i) (count - 1) <
      start + divideAndRound ((stop - start) * j) (count - 1) := by
  have hb : (0 : ℤ) < count - 1 := by lia
  apply add_lt_add_right
  rcases hwide.eq_or_lt with hsame | hwider
  · -- One microsecond a step: nothing is rounded.
    rw [← hsame, divideAndRound_mul hb, divideAndRound_mul hb]
    exact_mod_cast hlt
  · apply divideAndRound_strict hb
    have hnext : ((i : ℤ) + 1) ≤ j := by exact_mod_cast hlt
    have hspan' : (0 : ℤ) ≤ stop - start := by lia
    calc (stop - start) * i + (count - 1)
        < (stop - start) * i + (stop - start) := by lia
      _ = (stop - start) * (i + 1) := by ring
      _ ≤ (stop - start) * j := mul_le_mul_of_nonneg_left hnext hspan'

/-- **A track is sampled evenly.** This holds of any span and any number of samples. -/
theorem sampleInstants_covers (hspan : start < stop) (hcount : 2 ≤ count) :
    CoversEvenly start stop count (sampleInstants start stop count) := by
  have hb : (0 : ℤ) < count - 1 := by lia
  have hspan' : (0 : ℤ) ≤ stop - start := by lia
  have hraw : sampleInstants start stop count = rawInstants start stop count :=
    sampleInstants_eq_rawInstants hcount
  have hzero : divideAndRound ((stop - start) * (0 : ℕ)) ((count : ℤ) - 1) = 0 := by
    have hexact := divideAndRound_mul hb 0
    simpa using hexact
  have hall : divideAndRound ((stop - start) * (count - 1 : ℕ)) ((count : ℤ) - 1) =
      stop - start := by
    have hcast : ((count - 1 : ℕ) : ℤ) = count - 1 := by lia
    rw [hcast, mul_comm, divideAndRound_mul hb]
  have hmono : ∀ i j : ℕ, i ≤ j →
      start + divideAndRound ((stop - start) * i) (count - 1) ≤
        start + divideAndRound ((stop - start) * j) (count - 1) := by
    intro i j hle
    apply add_le_add_right
    apply divideAndRound_mono hb
    exact mul_le_mul_of_nonneg_left (by exact_mod_cast hle) hspan'
  rw [hraw]
  constructor
  · simp [rawInstants]
  · rw [List.head?_eq_getElem?, getElem?_rawInstants (by lia), hzero, add_zero]
  · rw [List.getLast?_eq_getElem?]
    have hlength : (rawInstants start stop count).length = count := by simp [rawInstants]
    rw [hlength, getElem?_rawInstants (by lia), hall]
    congr 1
    lia
  · exact fun step hstep => getElem?_rawInstants hstep
  · intro step instant hinstant
    rw [offset_eq hinstant]
    exact abs_divideAndRound_sub_le hb _
  · intro step instant hinstant htie
    rw [offset_eq hinstant] at htie
    obtain ⟨_, rfl⟩ := eq_of_getElem?_rawInstants hinstant
    rw [add_sub_cancel_left]
    exact divideAndRound_tie hb (abs_two_mul_eq hb htie)
  · intro instant hmem
    obtain ⟨step, hstep, rfl⟩ := exists_step_of_mem hmem
    have hlower := hmono 0 step (Nat.zero_le step)
    have hupper := hmono step (count - 1) (by lia)
    rw [hzero, add_zero] at hlower
    rw [hall, add_sub_cancel] at hupper
    exact ⟨hlower, hupper⟩
  · exact rawInstants_pairwise fun i j hlt _ => hmono i j hlt.le
  · exact fun hwide => rawInstants_pairwise fun i j hlt _ => strict_of_le hspan hcount hwide hlt

/-- Three microseconds in four steps: the halves go to the even side. -/
theorem short_track_covers :
    CoversEvenly 10 13 5 (sampleInstants 10 13 5) ∧
      sampleInstants 10 13 5 = [10, 11, 12, 12, 13] :=
  ⟨sampleInstants_covers (by decide) (by decide), by decide⟩

end Samples

end Apsis.Tracking
