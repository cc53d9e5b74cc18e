/-
# Segments and boxes in the plane

A segment meets a box if some point on the way from one end to the other lies in the box.
Along each axis the way is inside during an interval of time, so the question is whether
a few intervals overlap, and that can be computed. A segment is closed, so a point that is not on
it lies in boxes that it does not meet.
-/

import Mathlib.Algebra.Order.Field.Basic
import Mathlib.Analysis.Convex.Basic
import Mathlib.Tactic.Linarith
import Mathlib.Topology.Algebra.Order.Field

namespace Apsis.Library

universe u

variable {K : Type u} [Field K] [LinearOrder K] [IsStrictOrderedRing K]

/-! ## Segments -/

/-- Some point of the segment from `a` to `b` lies in the box with these corners. -/
def SegmentMeets (a b low high : K × K) : Prop :=
  ∃ t ∈ Set.Icc (0 : K) 1, AffineMap.lineMap a b t ∈ Set.Icc low high

/-- When the way from `x` to `y` comes into an interval. If the way does not move, the answer
is before or after the whole way. -/
def enters (x y low high : K) : K :=
  if x < y then (low - x) / (y - x)
  else if y < x then (high - x) / (y - x)
  else if low ≤ x ∧ x ≤ high then 0 else 2

/-- When it leaves the interval. -/
def leaves (x y low high : K) : K :=
  if x < y then (high - x) / (y - x)
  else if y < x then (low - x) / (y - x)
  else 1

variable {x y t low high : K} {a b c d p : K × K}

theorem lineMap_mem_Icc_iff (ht : t ∈ Set.Icc (0 : K) 1) :
    AffineMap.lineMap x y t ∈ Set.Icc low high ↔
      enters x y low high ≤ t ∧ t ≤ leaves x y low high := by
  rw [AffineMap.lineMap_apply_ring', Set.mem_Icc, enters, leaves]
  rcases lt_trichotomy x y with hlt | rfl | hgt
  · rw [if_pos hlt, if_pos hlt, div_le_iff₀ (sub_pos.mpr hlt), le_div_iff₀ (sub_pos.mpr hlt)]
    constructor <;> rintro ⟨hlow, hhigh⟩ <;> constructor <;> linarith
  · -- The way does not move.
    rw [sub_self, mul_zero, zero_add, if_neg (lt_irrefl x), if_neg (lt_irrefl x),
      if_neg (lt_irrefl x), if_neg (lt_irrefl x)]
    by_cases hinside : low ≤ x ∧ x ≤ high
    · rw [if_pos hinside]
      exact iff_of_true hinside ht
    · rw [if_neg hinside]
      refine iff_of_false hinside fun hall => ?_
      have hone := ht.2
      linarith [hall.1]
  · rw [if_neg hgt.not_gt, if_neg hgt.not_gt, if_pos hgt, if_pos hgt,
      div_le_iff_of_neg (sub_neg.mpr hgt), le_div_iff_of_neg (sub_neg.mpr hgt)]
    constructor <;> rintro ⟨hlow, hhigh⟩ <;> constructor <;> linarith

/-- A segment meets a box if it is there along both axes at one time. -/
theorem segmentMeets_iff : SegmentMeets a b c d ↔
    max 0 (max (enters a.1 b.1 c.1 d.1) (enters a.2 b.2 c.2 d.2)) ≤
      min 1 (min (leaves a.1 b.1 c.1 d.1) (leaves a.2 b.2 c.2 d.2)) := by
  have haxes : ∀ t ∈ Set.Icc (0 : K) 1, (AffineMap.lineMap a b t ∈ Set.Icc c d ↔
      (enters a.1 b.1 c.1 d.1 ≤ t ∧ t ≤ leaves a.1 b.1 c.1 d.1) ∧
        (enters a.2 b.2 c.2 d.2 ≤ t ∧ t ≤ leaves a.2 b.2 c.2 d.2)) := by
    intro t ht
    rw [← lineMap_mem_Icc_iff ht, ← lineMap_mem_Icc_iff ht, ← AffineMap.fst_lineMap,
      ← AffineMap.snd_lineMap]
    exact ⟨fun h => ⟨⟨h.1.1, h.2.1⟩, h.1.2, h.2.2⟩, fun h => ⟨⟨h.1.1, h.2.1⟩, h.1.2, h.2.2⟩⟩
  rw [← Set.nonempty_Icc]
  constructor
  · rintro ⟨t, ht, hmem⟩
    obtain ⟨⟨henter, hleave⟩, henter', hleave'⟩ := (haxes t ht).mp hmem
    exact ⟨t, max_le ht.1 (max_le henter henter'), le_min ht.2 (le_min hleave hleave')⟩
  · rintro ⟨t, hlow, hhigh⟩
    obtain ⟨hzero, hlow⟩ := max_le_iff.mp hlow
    obtain ⟨hone, hhigh⟩ := le_min_iff.mp hhigh
    obtain ⟨henter, henter'⟩ := max_le_iff.mp hlow
    obtain ⟨hleave, hleave'⟩ := le_min_iff.mp hhigh
    have ht : t ∈ Set.Icc (0 : K) 1 := ⟨hzero, hone⟩
    exact ⟨t, ht, (haxes t ht).mpr ⟨⟨henter, hleave⟩, henter', hleave'⟩⟩

instance : Decidable (SegmentMeets a b c d) := decidable_of_iff _ segmentMeets_iff.symm

/-- A point is on a segment if it is on its line and not beyond its ends. -/
theorem mem_segment_iff (hne : a ≠ b) : p ∈ segment K a b ↔
    (p.1 - a.1) * (b.2 - a.2) = (p.2 - a.2) * (b.1 - a.1) ∧
      (p.1 - a.1) * (b.1 - a.1) + (p.2 - a.2) * (b.2 - a.2) ∈
        Set.Icc 0 ((b.1 - a.1) ^ 2 + (b.2 - a.2) ^ 2) := by
  have hlength : 0 < (b.1 - a.1) ^ 2 + (b.2 - a.2) ^ 2 := by
    rcases Prod.ext_iff.not.mp hne |> not_and_or.mp with hfirst | hsecond
    · have hpos := sq_pos_of_ne_zero (sub_ne_zero.mpr (Ne.symm hfirst))
      linarith [sq_nonneg (b.2 - a.2)]
    · have hpos := sq_pos_of_ne_zero (sub_ne_zero.mpr (Ne.symm hsecond))
      linarith [sq_nonneg (b.1 - a.1)]
  rw [segment_eq_image_lineMap]
  constructor
  · rintro ⟨t, ⟨hzero, hone⟩, rfl⟩
    rw [AffineMap.fst_lineMap, AffineMap.snd_lineMap, AffineMap.lineMap_apply_ring',
      AffineMap.lineMap_apply_ring']
    refine ⟨by ring, ?_, ?_⟩
    · have hpos := mul_nonneg hzero hlength.le
      linarith
    · have hle := mul_le_mul_of_nonneg_right hone hlength.le
      linarith
  · rintro ⟨hline, hzero, hone⟩
    refine ⟨_, ⟨div_nonneg hzero hlength.le, (div_le_one hlength).mpr hone⟩, ?_⟩
    ext
    · rw [AffineMap.fst_lineMap, AffineMap.lineMap_apply_ring', div_mul_eq_mul_div,
        ← eq_sub_iff_add_eq, div_eq_iff hlength.ne']
      linear_combination (-(b.2 - a.2)) * hline
    · rw [AffineMap.snd_lineMap, AffineMap.lineMap_apply_ring', div_mul_eq_mul_div,
        ← eq_sub_iff_add_eq, div_eq_iff hlength.ne']
      linear_combination (b.1 - a.1) * hline

/-- A segment is closed. -/
theorem isClosed_segment [TopologicalSpace K] [OrderTopology K] (a b : K × K) :
    IsClosed (segment K a b) := by
  by_cases hne : a = b
  · rw [hne, segment_same]
    exact isClosed_singleton
  · have heq : segment K a b = {p | (p.1 - a.1) * (b.2 - a.2) = (p.2 - a.2) * (b.1 - a.1)} ∩
        {p | (p.1 - a.1) * (b.1 - a.1) + (p.2 - a.2) * (b.2 - a.2) ∈
          Set.Icc 0 ((b.1 - a.1) ^ 2 + (b.2 - a.2) ^ 2)} :=
      Set.ext fun _ => mem_segment_iff hne
    rw [heq]
    refine (isClosed_eq ?_ ?_).inter (isClosed_Icc.preimage ?_) <;> fun_prop

/-- So are finitely many together. -/
theorem isClosed_exists_segment [TopologicalSpace K] [OrderTopology K] {ι : Type*} (l : List ι)
    (a b : ι → K × K) : IsClosed {p | ∃ i ∈ l, p ∈ segment K (a i) (b i)} := by
  have heq : {p | ∃ i ∈ l, p ∈ segment K (a i) (b i)} =
      ⋃ i ∈ {i | i ∈ l}, segment K (a i) (b i) := by
    ext p
    simp
  rw [heq]
  exact (List.finite_toSet l).isClosed_biUnion fun i _ => isClosed_segment (a i) (b i)

/-! ## Polylines -/

section Edges

variable {α : Type u} {points : List α}

/-- The consecutive pairs of a list. -/
def edges (points : List α) : List (α × α) := points.zip points.tail

theorem mem_of_mem_edges {edge : α × α} (h : edge ∈ edges points) :
    edge.1 ∈ points ∧ edge.2 ∈ points := by
  obtain ⟨hfirst, hsecond⟩ := List.of_mem_zip h
  exact ⟨hfirst, List.mem_of_mem_tail hsecond⟩

/-- Every point of a line is an end of some edge. -/
theorem exists_mem_edges {point : α} (hmem : point ∈ points) (hlength : 2 ≤ points.length) :
    ∃ edge ∈ edges points, edge.1 = point ∨ edge.2 = point := by
  induction points with
  | nil => cases hmem
  | cons first rest ih =>
      match rest with
      | [] => simp at hlength
      | [second] =>
          refine ⟨(first, second), List.mem_singleton_self _, ?_⟩
          rcases List.mem_cons.mp hmem with rfl | hmem
          · exact Or.inl rfl
          · exact Or.inr (List.mem_singleton.mp hmem).symm
      | second :: third :: rest =>
          rcases List.mem_cons.mp hmem with rfl | hmem
          · exact ⟨(point, second), List.mem_cons_self, Or.inl rfl⟩
          · obtain ⟨edge, hedge, hend⟩ := ih hmem (by simp)
            exact ⟨edge, List.mem_cons_of_mem _ hedge, hend⟩

end Edges

/-- One of the segments of the polyline meets the box. -/
def PolylineMeets (points : List (K × K)) (low high : K × K) : Prop :=
  ∃ edge ∈ edges points, SegmentMeets edge.1 edge.2 low high

instance (points : List (K × K)) (low high : K × K) : Decidable (PolylineMeets points low high) :=
  inferInstanceAs (Decidable (∃ edge ∈ edges points, _))

end Apsis.Library
