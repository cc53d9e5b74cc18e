/-
# Boxes on the globe

`list_in_bbox` asks which stored tracks intersect a box. A track is stored as one planar
line through its samples, while the satellite goes from one sample to the next the
shorter way around. The two differ at the antimeridian: the line between two samples on
either side of it is drawn across the whole map.

The query is right for every box exactly if the two go through the same points of the map. That
is so if the track stays off the antimeridian, and only then unless there are samples on both
edges of the map.
-/

import Apsis.Library.Planar
import Apsis.Tracking.Tables
import Mathlib.Analysis.Normed.Field.Lemmas
import Mathlib.Analysis.Normed.Group.AddTorsor
import Mathlib.Order.CountableDenseLinearOrder

namespace Apsis.Tracking

open Apsis.Library

/-! ## Tracks and boxes -/

/-- The samples of a ground track, as `(lon, lat)` in degrees. -/
structure GroundTrack where
  points : List (ℚ × ℚ)
  length : 2 ≤ points.length
  range : ∀ point ∈ points, point ∈ Set.Icc ((-180 : ℚ), (-90 : ℚ)) (180, 90)
  /-- There is a shorter way between two samples. -/
  apart : ∀ edge ∈ edges points, |edge.2.1 - edge.1.1| ≠ 180

/-- The arguments of `list_in_bbox`. -/
structure Bbox where
  minLon : ℚ
  minLat : ℚ
  maxLon : ℚ
  maxLat : ℚ
  lon : minLon < maxLon
  lat : minLat < maxLat
  west : -180 ≤ minLon
  east : maxLon ≤ 180
  south : -90 ≤ minLat
  north : maxLat ≤ 90

/-- The south-western corner. -/
def Bbox.low (box : Bbox) : ℚ × ℚ := (box.minLon, box.minLat)

/-- The north-eastern corner. -/
def Bbox.high (box : Bbox) : ℚ × ℚ := (box.maxLon, box.maxLat)

/-- `track.ST_Intersects(ST_MakeEnvelope(...))` -/
def intersects (box : Bbox) (row : PassPrediction) : Bool :=
  decide (PolylineMeets row.track box.low box.high)

/-- `list_in_bbox` may return this, when these predictions are committed. -/
def ListInBbox (rows : List PassPrediction) (box : Bbox) (answer : List PassPrediction) : Prop :=
  IsSelection rows (intersects box) answer

/-! ## The way of the satellite -/

/-- The longitude of the next sample, counted on the shorter way from this one. -/
def unwrap (lon next : ℚ) : ℚ :=
  if 180 < next - lon then next - 360 else if next - lon < -180 then next + 360 else next

/-- The next sample, seen from this one. -/
def nextOf (point next : ℚ × ℚ) : ℚ × ℚ := (unwrap point.1 next.1, next.2)

/-- A point after some turns around the globe. -/
def turned (turns : ℤ) (point : ℚ × ℚ) : ℚ × ℚ := (point.1 + 360 * turns, point.2)

/-- The satellite passes over the box on its way between two samples. -/
def PassesOver (edge : (ℚ × ℚ) × (ℚ × ℚ)) (box : Bbox) : Prop :=
  ∃ turns : ℤ,
    SegmentMeets (turned turns edge.1) (turned turns (nextOf edge.1 edge.2)) box.low box.high

/-- The track passes over the box. -/
def GroundTrack.Meets (track : GroundTrack) (box : Bbox) : Prop :=
  ∃ edge ∈ edges track.points, PassesOver edge box

/-- The query returns the prediction of a track if and only if the track passes over the
box. -/
def FollowsIn (track : GroundTrack) (box : Bbox) : Prop :=
  ∀ rows answer row, row ∈ rows → linestringToWkb track.points = some row.track →
    ListInBbox rows box answer → (row ∈ answer ↔ track.Meets box)

/-! ## Where the stored line is right -/

/-- The two samples are more than half a turn apart on the map. -/
def IsLong (edge : (ℚ × ℚ) × (ℚ × ℚ)) : Prop := 180 < |edge.2.1 - edge.1.1|

instance (edge : (ℚ × ℚ) × (ℚ × ℚ)) : Decidable (IsLong edge) :=
  inferInstanceAs (Decidable (_ < _))

/-- The stored line between two samples. -/
def DrawnIn (edge : (ℚ × ℚ) × (ℚ × ℚ)) (box : Bbox) : Prop :=
  SegmentMeets edge.1 edge.2 box.low box.high

instance (edge : (ℚ × ℚ) × (ℚ × ℚ)) (box : Bbox) : Decidable (DrawnIn edge box) :=
  inferInstanceAs (Decidable (SegmentMeets _ _ _ _))

/-- The satellite gets into the box over the antimeridian: on a way that leaves the map, or
one turn further. -/
def WrapsInto (edge : (ℚ × ℚ) × (ℚ × ℚ)) (box : Bbox) : Prop :=
  (IsLong edge ∧ SegmentMeets edge.1 (nextOf edge.1 edge.2) box.low box.high) ∨
  SegmentMeets (turned 1 edge.1) (turned 1 (nextOf edge.1 edge.2)) box.low box.high ∨
  SegmentMeets (turned (-1) edge.1) (turned (-1) (nextOf edge.1 edge.2)) box.low box.high

instance (edge : (ℚ × ℚ) × (ℚ × ℚ)) (box : Bbox) : Decidable (WrapsInto edge box) :=
  inferInstanceAs (Decidable (_ ∨ _))

/-- The box is met by the line between two samples that are less than half a turn apart, or
the long lines meet it exactly if the satellite gets into it over the antimeridian. -/
def GroundTrack.AgreesIn (track : GroundTrack) (box : Bbox) : Prop :=
  (∃ edge ∈ edges track.points, ¬ IsLong edge ∧ DrawnIn edge box) ∨
  ((∃ edge ∈ edges track.points, IsLong edge ∧ DrawnIn edge box) ↔
    ∃ edge ∈ edges track.points, WrapsInto edge box)

/-- No sample is on the antimeridian, and no way between two samples crosses it. -/
def GroundTrack.StaysOff (track : GroundTrack) : Prop :=
  (∀ point ∈ track.points, point.1 ≠ 180 ∧ point.1 ≠ -180) ∧
  ∀ edge ∈ edges track.points, ¬ IsLong edge

instance (track : GroundTrack) : Decidable track.StaysOff := inferInstanceAs (Decidable (_ ∧ _))

/-- There are samples on both edges of the map. -/
def GroundTrack.SpansMap (track : GroundTrack) : Prop :=
  (∃ point ∈ track.points, point.1 = 180) ∧ ∃ point ∈ track.points, point.1 = -180

/-! ## In one box -/

section InOneBox

variable {track : GroundTrack} {box : Bbox} {edge : (ℚ × ℚ) × (ℚ × ℚ)} {t : ℚ}

theorem followsIn_iff_drawn :
    FollowsIn track box ↔ (PolylineMeets track.points box.low box.high ↔ track.Meets box) := by
  constructor
  · intro hfollows
    let row : PassPrediction := ⟨0, 0, 0, 0, 0, 0, 0, track.points⟩
    obtain ⟨answer, hanswer⟩ := exists_isSelection [row] (intersects box)
    have htrack : linestringToWkb track.points = some row.track := if_neg track.length.not_gt
    rw [← hfollows [row] answer row (List.mem_singleton_self row) htrack hanswer, hanswer.mem_iff]
    simp [intersects, row]
  · intro hagree rows answer row hmem htrack hanswer
    have hrow : row.track = track.points := by
      rw [linestringToWkb, if_neg track.length.not_gt] at htrack
      exact (Option.some.inj htrack).symm
    rw [hanswer.mem_iff, intersects, decide_eq_true_iff, hrow, hagree, and_iff_right hmem]

theorem nextOf_of_not_isLong (hshort : ¬ IsLong edge) : nextOf edge.1 edge.2 = edge.2 := by
  rw [IsLong, not_lt, abs_le] at hshort
  rw [nextOf, unwrap, if_neg hshort.2.not_gt, if_neg hshort.1.not_gt]

/-- The way to the next sample goes at most half a turn off the map. -/
theorem unwrap_mem_Ioo {lon next : ℚ} (hlon : lon ∈ Set.Icc (-180 : ℚ) 180)
    (hnext : next ∈ Set.Icc (-180 : ℚ) 180) : unwrap lon next ∈ Set.Ioo (-360 : ℚ) 360 := by
  obtain ⟨hlon, hlon'⟩ := hlon
  obtain ⟨hnext, hnext'⟩ := hnext
  unfold unwrap
  split
  · constructor <;> linarith
  · split <;> constructor <;> linarith

theorem lon_mem_of_mem_edges (hedge : edge ∈ edges track.points) :
    edge.1.1 ∈ Set.Icc (-180 : ℚ) 180 ∧ edge.2.1 ∈ Set.Icc (-180 : ℚ) 180 := by
  obtain ⟨hfirst, hsecond⟩ := mem_of_mem_edges hedge
  exact ⟨⟨(track.range _ hfirst).1.1, (track.range _ hfirst).2.1⟩,
    (track.range _ hsecond).1.1, (track.range _ hsecond).2.1⟩

/-- The longitude on the way, after some turns. -/
theorem lineMap_turned_fst (turns : ℤ) (a b : ℚ × ℚ) :
    (AffineMap.lineMap (turned turns a) (turned turns b) t).1 =
      AffineMap.lineMap a.1 b.1 t + 360 * turns := by
  rw [AffineMap.fst_lineMap, AffineMap.lineMap_apply_ring', AffineMap.lineMap_apply_ring', turned,
    turned]
  ring

theorem lineMap_turned_snd (turns : ℤ) (a b : ℚ × ℚ) :
    (AffineMap.lineMap (turned turns a) (turned turns b) t).2 = AffineMap.lineMap a.2 b.2 t := by
  rw [AffineMap.snd_lineMap, turned, turned]

theorem turned_zero (point : ℚ × ℚ) : turned 0 point = point := by
  simp [turned]

/-- A way that gets into a box on the map has been turned once at most. -/
theorem turns_of_mem (hedge : edge ∈ edges track.points) (ht : t ∈ Set.Icc (0 : ℚ) 1) {turns : ℤ}
    (hmem : AffineMap.lineMap (turned turns edge.1) (turned turns (nextOf edge.1 edge.2)) t ∈
      Set.Icc box.low box.high) : turns = 0 ∨ turns = 1 ∨ turns = -1 := by
  obtain ⟨hfirst, hsecond⟩ := lon_mem_of_mem_edges hedge
  have hstart : edge.1.1 ∈ Set.Ioo (-360 : ℚ) 360 :=
    ⟨lt_of_lt_of_le (by norm_num) hfirst.1, lt_of_le_of_lt hfirst.2 (by norm_num)⟩
  obtain ⟨hwest, heast⟩ := (convex_Ioo (-360 : ℚ) 360).lineMap_mem hstart
    (unwrap_mem_Ioo hfirst hsecond) ht
  have hlow := box.west.trans hmem.1.1
  have hhigh := hmem.2.1.trans box.east
  rw [lineMap_turned_fst] at hlow hhigh
  dsimp only [nextOf] at hlow hhigh
  have hless : (turns : ℚ) < 2 := by linarith
  have hmore : (-2 : ℚ) < turns := by linarith
  have hless' : turns < 2 := by exact_mod_cast hless
  have hmore' : -2 < turns := by exact_mod_cast hmore
  lia

/-- The map and one turn to either side are all that matters. -/
theorem passesOver_iff (hedge : edge ∈ edges track.points) :
    PassesOver edge box ↔ (¬ IsLong edge ∧ DrawnIn edge box) ∨ WrapsInto edge box := by
  have hzero : SegmentMeets (turned 0 edge.1) (turned 0 (nextOf edge.1 edge.2)) box.low box.high ↔
      (¬ IsLong edge ∧ DrawnIn edge box) ∨
        (IsLong edge ∧ SegmentMeets edge.1 (nextOf edge.1 edge.2) box.low box.high) := by
    rw [turned_zero, turned_zero]
    by_cases hlong : IsLong edge
    · simp [hlong]
    · simp [hlong, nextOf_of_not_isLong hlong, DrawnIn]
  rw [WrapsInto, ← or_assoc, ← hzero]
  constructor
  · rintro ⟨turns, t, ht, hmem⟩
    rcases turns_of_mem hedge ht hmem with rfl | rfl | rfl
    · exact Or.inl ⟨t, ht, hmem⟩
    · exact Or.inr (Or.inl ⟨t, ht, hmem⟩)
    · exact Or.inr (Or.inr ⟨t, ht, hmem⟩)
  · rintro (hmeets | hmeets | hmeets)
    · exact ⟨0, hmeets⟩
    · exact ⟨1, hmeets⟩
    · exact ⟨-1, hmeets⟩

instance (track : GroundTrack) (box : Bbox) : Decidable (track.Meets box) :=
  decidable_of_iff
    (∃ edge ∈ edges track.points, (¬ IsLong edge ∧ DrawnIn edge box) ∨ WrapsInto edge box)
    (exists_congr fun _ => and_congr_right fun hedge => (passesOver_iff hedge).symm)

/-- The query is right in a box exactly if the two lines agree there. -/
theorem followsIn_iff_agreesIn : FollowsIn track box ↔ track.AgreesIn box := by
  have hdrawn : PolylineMeets track.points box.low box.high ↔
      (∃ edge ∈ edges track.points, ¬ IsLong edge ∧ DrawnIn edge box) ∨
        ∃ edge ∈ edges track.points, IsLong edge ∧ DrawnIn edge box := by
    rw [← exists_or]
    refine exists_congr fun edge => ?_
    rw [← and_or_left, ← or_and_right, and_iff_right (em (IsLong edge)).symm]
    exact Iff.rfl
  have hreal : track.Meets box ↔
      (∃ edge ∈ edges track.points, ¬ IsLong edge ∧ DrawnIn edge box) ∨
        ∃ edge ∈ edges track.points, WrapsInto edge box := by
    rw [← exists_or]
    refine exists_congr fun edge => ?_
    rw [← and_or_left]
    exact and_congr_right passesOver_iff
  rw [followsIn_iff_drawn, hdrawn, hreal, GroundTrack.AgreesIn]
  by_cases hshort : ∃ edge ∈ edges track.points, ¬ IsLong edge ∧ DrawnIn edge box
  · simp only [hshort, true_or]
  · simp only [hshort, false_or]

/-- Off the antimeridian nothing wraps. -/
theorem agreesIn_of_staysOff (hoff : track.StaysOff) : track.AgreesIn box := by
  refine Or.inr (iff_of_false ?_ ?_)
  · rintro ⟨edge, hedge, hlong, -⟩
    exact hoff.2 edge hedge hlong
  · rintro ⟨edge, hedge, hwraps⟩
    have hshort := hoff.2 edge hedge
    have hinside : ∀ t ∈ Set.Icc (0 : ℚ) 1,
        AffineMap.lineMap edge.1.1 edge.2.1 t ∈ Set.Ioo (-180 : ℚ) 180 := by
      obtain ⟨hfirst, hsecond⟩ := mem_of_mem_edges hedge
      have hlon : ∀ point ∈ track.points, point.1 ∈ Set.Ioo (-180 : ℚ) 180 := fun point hmem =>
        ⟨lt_of_le_of_ne (track.range point hmem).1.1 (hoff.1 point hmem).2.symm,
          lt_of_le_of_ne (track.range point hmem).2.1 (hoff.1 point hmem).1⟩
      exact fun t => (convex_Ioo (-180 : ℚ) 180).lineMap_mem (hlon _ hfirst) (hlon _ hsecond)
    rw [WrapsInto, nextOf_of_not_isLong hshort] at hwraps
    rcases hwraps with ⟨hlong, -⟩ | ⟨t, ht, hmem⟩ | ⟨t, ht, hmem⟩
    · exact hshort hlong
    · have hhigh := hmem.2.1.trans box.east
      rw [lineMap_turned_fst] at hhigh
      have hwest := (hinside t ht).1
      push_cast at hhigh
      linarith
    · have hlow := box.west.trans hmem.1.1
      rw [lineMap_turned_fst] at hlow
      have heast := (hinside t ht).2
      push_cast at hlow
      linarith

end InOneBox

/-! ## In all boxes -/

section InAllBoxes

variable {track : GroundTrack} {point : ℚ × ℚ}

/-- All of the map. -/
def mapBox : Bbox := ⟨-180, -90, 180, 90, by norm_num, by norm_num, le_rfl, le_rfl, le_rfl, le_rfl⟩

/-- The stored line goes through this point. -/
def GroundTrack.DrawsAt (track : GroundTrack) (point : ℚ × ℚ) : Prop :=
  ∃ edge ∈ edges track.points, point ∈ segment ℚ edge.1 edge.2

/-- The satellite passes over this point, on a way that has been turned like this. -/
def GroundTrack.PassesAt (track : GroundTrack) (turns : ℤ) (point : ℚ × ℚ) : Prop :=
  ∃ edge ∈ edges track.points,
    point ∈ segment ℚ (turned turns edge.1) (turned turns (nextOf edge.1 edge.2))

/-- On the map, the stored line is the way of the satellite. -/
def GroundTrack.IsTraced (track : GroundTrack) : Prop :=
  ∀ point ∈ Set.Icc mapBox.low mapBox.high,
    track.DrawsAt point ↔ ∃ turns, track.PassesAt turns point

theorem Bbox.subset_map (box : Bbox) :
    Set.Icc box.low box.high ⊆ Set.Icc mapBox.low mapBox.high :=
  Set.Icc_subset_Icc ⟨box.west, box.south⟩ ⟨box.east, box.north⟩

theorem segmentMeets_iff_exists {a b low high : ℚ × ℚ} :
    SegmentMeets a b low high ↔ ∃ point ∈ Set.Icc low high, point ∈ segment ℚ a b := by
  rw [segment_eq_image_lineMap]
  constructor
  · rintro ⟨t, ht, hmem⟩
    exact ⟨_, hmem, t, ht, rfl⟩
  · rintro ⟨_, hmem, t, ht, rfl⟩
    exact ⟨t, ht, hmem⟩

theorem polylineMeets_iff {box : Bbox} : PolylineMeets track.points box.low box.high ↔
    ∃ point ∈ Set.Icc box.low box.high, track.DrawsAt point := by
  constructor
  · rintro ⟨edge, hedge, hmeets⟩
    obtain ⟨point, hmem, hsegment⟩ := segmentMeets_iff_exists.mp hmeets
    exact ⟨point, hmem, edge, hedge, hsegment⟩
  · rintro ⟨point, hmem, edge, hedge, hsegment⟩
    exact ⟨edge, hedge, segmentMeets_iff_exists.mpr ⟨point, hmem, hsegment⟩⟩

theorem meets_iff {box : Bbox} : track.Meets box ↔
    ∃ point ∈ Set.Icc box.low box.high, ∃ turns, track.PassesAt turns point := by
  constructor
  · rintro ⟨edge, hedge, turns, hmeets⟩
    obtain ⟨point, hmem, hsegment⟩ := segmentMeets_iff_exists.mp hmeets
    exact ⟨point, hmem, turns, edge, hedge, hsegment⟩
  · rintro ⟨point, hmem, turns, edge, hedge, hsegment⟩
    exact ⟨edge, hedge, turns, segmentMeets_iff_exists.mpr ⟨point, hmem, hsegment⟩⟩

/-- Around a point of the map there is a box that keeps clear of what does not get there. -/
theorem exists_box_disjoint (hpoint : point ∈ Set.Icc mapBox.low mapBox.high) {far : Set (ℚ × ℚ)}
    (hfar : IsClosed far) (hnot : point ∉ far) : ∃ box : Bbox,
      point ∈ Set.Icc box.low box.high ∧ ∀ other ∈ Set.Icc box.low box.high, other ∉ far := by
  have hnear : farᶜ ∈ nhds point := hfar.isOpen_compl.mem_nhds hnot
  obtain ⟨lons, hlons, lats, hlats, hsubset⟩ := mem_nhds_prod_iff.mp hnear
  obtain ⟨west, east, ⟨hwest, heast⟩, hlon⟩ := mem_nhds_iff_exists_Ioo_subset.mp hlons
  obtain ⟨south, north, ⟨hsouth, hnorth⟩, hlat⟩ := mem_nhds_iff_exists_Ioo_subset.mp hlats
  -- Half way to the ends of these intervals, or to the edge of the map.
  have hhalf : ∀ {low x high least most : ℚ}, low < x → x < high → least ≤ x → x ≤ most →
      least < most → ∃ first last : ℚ, first < last ∧ least ≤ first ∧ last ≤ most ∧
        x ∈ Set.Icc first last ∧ Set.Icc first last ⊆ Set.Ioo low high := by
    intro low x high least most hlow hhigh hleast hmost hlt
    refine ⟨max least ((low + x) / 2), min most ((x + high) / 2), ?_, le_max_left _ _,
      min_le_left _ _, ⟨max_le hleast (by linarith), le_min hmost (by linarith)⟩, ?_⟩
    · rw [max_lt_iff, lt_min_iff, lt_min_iff]
      exact ⟨⟨hlt, by linarith⟩, by linarith, by linarith⟩
    · rintro y ⟨hfirst, hlast⟩
      have hfirst' := (le_max_right _ _).trans hfirst
      have hlast' := hlast.trans (min_le_right _ _)
      constructor <;> linarith
  obtain ⟨minLon, maxLon, hltLon, hwest', heast', hmemLon, hinLon⟩ :=
    hhalf hwest heast hpoint.1.1 hpoint.2.1 (by norm_num [mapBox, Bbox.low, Bbox.high])
  obtain ⟨minLat, maxLat, hltLat, hsouth', hnorth', hmemLat, hinLat⟩ :=
    hhalf hsouth hnorth hpoint.1.2 hpoint.2.2 (by norm_num [mapBox, Bbox.low, Bbox.high])
  refine ⟨⟨minLon, minLat, maxLon, maxLat, hltLon, hltLat, hwest', heast', hsouth', hnorth'⟩,
    ⟨⟨hmemLon.1, hmemLat.1⟩, hmemLon.2, hmemLat.2⟩, fun other hother => ?_⟩
  exact hsubset ⟨hlon (hinLon ⟨hother.1.1, hother.2.1⟩), hlat (hinLat ⟨hother.1.2, hother.2.2⟩)⟩

theorem isClosed_drawsAt (track : GroundTrack) : IsClosed {point | track.DrawsAt point} :=
  isClosed_exists_segment (edges track.points) Prod.fst Prod.snd

theorem isClosed_passesAt (track : GroundTrack) (turns : ℤ) :
    IsClosed {point | track.PassesAt turns point} :=
  isClosed_exists_segment (edges track.points) (fun edge => turned turns edge.1)
    fun edge => turned turns (nextOf edge.1 edge.2)

/-- On the map, one turn to either side is all that matters. -/
theorem passesAt_turns (hpoint : point ∈ Set.Icc mapBox.low mapBox.high) {turns : ℤ}
    (hpasses : track.PassesAt turns point) : turns = 0 ∨ turns = 1 ∨ turns = -1 := by
  obtain ⟨edge, hedge, hsegment⟩ := hpasses
  rw [segment_eq_image_lineMap] at hsegment
  obtain ⟨t, ht, rfl⟩ := hsegment
  exact turns_of_mem hedge ht hpoint

/-- The query is right in every box exactly if the stored line is the way of the satellite. -/
theorem follows_iff_isTraced : (∀ box, FollowsIn track box) ↔ track.IsTraced := by
  simp only [followsIn_iff_drawn, polylineMeets_iff, meets_iff]
  constructor
  · intro hall point hpoint
    constructor
    · intro hdraws
      by_contra hnone
      have hclosed : IsClosed ({point | track.PassesAt 0 point} ∪
          ({point | track.PassesAt 1 point} ∪ {point | track.PassesAt (-1) point})) :=
        (isClosed_passesAt track 0).union
          ((isClosed_passesAt track 1).union (isClosed_passesAt track (-1)))
      obtain ⟨box, hmem, hclear⟩ := exists_box_disjoint hpoint hclosed (by
        rintro (hpasses | hpasses | hpasses) <;> exact hnone ⟨_, hpasses⟩)
      obtain ⟨other, hother, turns, hpasses⟩ := (hall box).mp ⟨point, hmem, hdraws⟩
      refine hclear other hother ?_
      rcases passesAt_turns (box.subset_map hother) hpasses with rfl | rfl | rfl
      · exact Or.inl hpasses
      · exact Or.inr (Or.inl hpasses)
      · exact Or.inr (Or.inr hpasses)
    · intro hpasses
      by_contra hnot
      obtain ⟨box, hmem, hclear⟩ := exists_box_disjoint hpoint (isClosed_drawsAt track) hnot
      obtain ⟨other, hother, hdraws⟩ := (hall box).mpr ⟨point, hmem, hpasses⟩
      exact hclear other hother hdraws
  · intro htraced box
    exact exists_congr fun point => and_congr_right fun hmem => htraced point (box.subset_map hmem)

end InAllBoxes

/-! ## Where the stored line is wrong -/

section Antimeridian

variable {track : GroundTrack} {edge : (ℚ × ℚ) × (ℚ × ℚ)}

/-- The way between two samples gets to the antimeridian. -/
def GetsThere (edge : (ℚ × ℚ) × (ℚ × ℚ)) : Prop :=
  ∃ t ∈ Set.Icc (0 : ℚ) 1, ∃ turns : ℤ,
    AffineMap.lineMap edge.1.1 (nextOf edge.1 edge.2).1 t = 180 + 360 * (turns : ℚ)

/-- A way between two points that lie on either side of a longitude gets there. -/
theorem exists_lineMap_eq {x y m : ℚ} (hm : m ∈ Set.uIcc x y) :
    ∃ t ∈ Set.Icc (0 : ℚ) 1, AffineMap.lineMap x y t = m := by
  rw [← segment_eq_uIcc, segment_eq_image_lineMap] at hm
  obtain ⟨t, ht, heq⟩ := hm
  exact ⟨t, ht, heq⟩

theorem getsThere_of_isLong (hedge : edge ∈ edges track.points) (hlong : IsLong edge) :
    GetsThere edge := by
  obtain ⟨hfirst, hsecond⟩ := lon_mem_of_mem_edges hedge
  rcases lt_abs.mp hlong with heast | hwest
  · have hm : (-180 : ℚ) ∈ Set.uIcc edge.1.1 (nextOf edge.1 edge.2).1 := by
      rw [nextOf, unwrap, if_pos heast]
      exact Set.mem_uIcc.mpr (Or.inr ⟨by linarith [hsecond.2], hfirst.1⟩)
    obtain ⟨t, ht, heq⟩ := exists_lineMap_eq hm
    exact ⟨t, ht, -1, by rw [heq]; norm_num⟩
  · have hm : (180 : ℚ) ∈ Set.uIcc edge.1.1 (nextOf edge.1 edge.2).1 := by
      rw [nextOf, unwrap, if_neg (by linarith), if_pos (by linarith)]
      exact Set.mem_uIcc.mpr (Or.inl ⟨hfirst.2, by linarith [hsecond.1]⟩)
    obtain ⟨t, ht, heq⟩ := exists_lineMap_eq hm
    exact ⟨t, ht, 0, by rw [heq]; norm_num⟩

/-- The longitude of the next sample is that of its way, up to whole turns. -/
theorem exists_unwrap_eq (lon next : ℚ) : ∃ turns : ℤ, unwrap lon next = next + 360 * turns := by
  unfold unwrap
  split
  · exact ⟨-1, by push_cast; ring⟩
  · split
    · exact ⟨1, by push_cast; ring⟩
    · exact ⟨0, by push_cast; ring⟩

/-- So does the way from or to a sample on the antimeridian. -/
theorem getsThere_of_sample {point : ℚ × ℚ} (hend : edge.1 = point ∨ edge.2 = point) (turns : ℤ)
    (hpoint : point.1 = 180 + 360 * (turns : ℚ)) : GetsThere edge := by
  rcases hend with rfl | rfl
  · exact ⟨0, ⟨le_rfl, zero_le_one⟩, turns, by rw [AffineMap.lineMap_apply_zero, hpoint]⟩
  · obtain ⟨more, hmore⟩ := exists_unwrap_eq edge.1.1 edge.2.1
    refine ⟨1, ⟨zero_le_one, le_rfl⟩, turns + more, ?_⟩
    rw [AffineMap.lineMap_apply_one, nextOf, hmore, hpoint]
    push_cast
    ring

theorem exists_getsThere (hoff : ¬ track.StaysOff) :
    ∃ edge ∈ edges track.points, GetsThere edge := by
  rw [GroundTrack.StaysOff, not_and_or] at hoff
  push Not at hoff
  rcases hoff with ⟨point, hmem, hpoint⟩ | ⟨edge, hedge, hlong⟩
  · obtain ⟨edge, hedge, hend⟩ := exists_mem_edges hmem track.length
    by_cases heast : point.1 = 180
    · exact ⟨edge, hedge, getsThere_of_sample hend 0 (by rw [heast]; norm_num)⟩
    · exact ⟨edge, hedge, getsThere_of_sample hend (-1) (by rw [hpoint heast]; norm_num)⟩
  · exact ⟨edge, hedge, getsThere_of_isLong hedge hlong⟩

/-- A track that gets to the antimeridian passes over every box that reaches from pole to
pole there. -/
theorem meets_of_getsThere (box : Bbox) (hedge : edge ∈ edges track.points)
    (hthere : GetsThere edge) (hlat : box.minLat = -90 ∧ box.maxLat = 90) (turns : ℤ)
    (hlon : 180 + 360 * (turns : ℚ) ∈ Set.Icc box.minLon box.maxLon) : track.Meets box := by
  obtain ⟨t, ht, more, heq⟩ := hthere
  obtain ⟨hfirst, hsecond⟩ := mem_of_mem_edges hedge
  have hinside : AffineMap.lineMap edge.1.2 (nextOf edge.1 edge.2).2 t ∈ Set.Icc (-90 : ℚ) 90 :=
    (convex_Icc (-90 : ℚ) 90).lineMap_mem ⟨(track.range _ hfirst).1.2, (track.range _ hfirst).2.2⟩
      ⟨(track.range _ hsecond).1.2, (track.range _ hsecond).2.2⟩ ht
  have hat : (AffineMap.lineMap (turned (turns - more) edge.1)
      (turned (turns - more) (nextOf edge.1 edge.2)) t).1 = 180 + 360 * (turns : ℚ) := by
    rw [lineMap_turned_fst, heq]
    push_cast
    ring
  refine ⟨edge, hedge, turns - more, t, ht, ⟨?_, ?_⟩, ?_, ?_⟩
  · exact hlon.1.trans_eq hat.symm
  · rw [lineMap_turned_snd, Bbox.low, hlat.1]
    exact hinside.1
  · exact hat.trans_le hlon.2
  · rw [lineMap_turned_snd, Bbox.high, hlat.2]
    exact hinside.2

/-- A line is only drawn between its samples. -/
theorem not_drawn_of_disjoint (box : Bbox) {lons : Set ℚ} (hconvex : Convex ℚ lons)
    (hlons : ∀ point ∈ track.points, point.1 ∈ lons)
    (hdisjoint : ∀ lon ∈ lons, lon ∉ Set.Icc box.minLon box.maxLon) :
    ¬ PolylineMeets track.points box.low box.high := by
  rintro ⟨edge, hedge, t, ht, hmem⟩
  obtain ⟨hfirst, hsecond⟩ := mem_of_mem_edges hedge
  have hlon := hconvex.lineMap_mem (hlons _ hfirst) (hlons _ hsecond) ht
  rw [← AffineMap.fst_lineMap] at hlon
  exact hdisjoint _ hlon ⟨hmem.1.1, hmem.2.1⟩

/-- Without samples on one edge of the map, a box along that edge is missed. -/
theorem exists_not_followsIn (hoff : ¬ track.StaysOff) (hspans : ¬ track.SpansMap) :
    ∃ box, ¬ FollowsIn track box := by
  obtain ⟨edge, hedge, hthere⟩ := exists_getsThere hoff
  let lons : Finset ℚ := (track.points.map Prod.fst).toFinset
  have hmem : ∀ {point : ℚ × ℚ}, point ∈ track.points → point.1 ∈ lons := fun hpoint =>
    List.mem_toFinset.mpr (List.mem_map_of_mem hpoint)
  have hof : ∀ {lon : ℚ}, lon ∈ lons → ∃ point ∈ track.points, point.1 = lon := fun hlon =>
    List.mem_map.mp (List.mem_toFinset.mp hlon)
  rw [GroundTrack.SpansMap, not_and_or] at hspans
  push Not at hspans
  rcases hspans with hnone | hnone
  · -- All samples are west of some longitude.
    obtain ⟨m, hwest, heast⟩ := Order.exists_between_finsets (insert (-180) lons) {180} (by
      intro lon hlon east heast
      rw [Finset.mem_singleton.mp heast]
      rcases Finset.mem_insert.mp hlon with rfl | hlon
      · norm_num
      · obtain ⟨point, hpoint, rfl⟩ := hof hlon
        exact lt_of_le_of_ne (track.range point hpoint).2.1 (hnone point hpoint))
    have hm := hwest _ (Finset.mem_insert_self _ _)
    have hm' := heast _ (Finset.mem_singleton_self _)
    let box : Bbox := ⟨m, -90, 180, 90, hm', by norm_num, hm.le, le_rfl, le_rfl, le_rfl⟩
    refine ⟨box, fun hfollows => ?_⟩
    have hmeets := meets_of_getsThere box hedge hthere ⟨rfl, rfl⟩ 0
      ⟨by simpa using hm'.le, by simp [box]⟩
    refine not_drawn_of_disjoint box (convex_Iio m) ?_ ?_
      ((followsIn_iff_drawn.mp hfollows).mpr hmeets)
    · exact fun point hpoint => hwest _ (Finset.mem_insert_of_mem (hmem hpoint))
    · exact fun lon hlon hinside => absurd hinside.1 (not_le.mpr hlon)
  · -- All samples are east of some longitude.
    obtain ⟨m, hwest, heast⟩ := Order.exists_between_finsets {-180} (insert 180 lons) (by
      intro west hwest lon hlon
      rw [Finset.mem_singleton.mp hwest]
      rcases Finset.mem_insert.mp hlon with rfl | hlon
      · norm_num
      · obtain ⟨point, hpoint, rfl⟩ := hof hlon
        exact lt_of_le_of_ne (track.range point hpoint).1.1 (hnone point hpoint).symm)
    have hm := hwest _ (Finset.mem_singleton_self _)
    have hm' := heast _ (Finset.mem_insert_self _ _)
    let box : Bbox := ⟨-180, -90, m, 90, hm, by norm_num, le_rfl, hm'.le, le_rfl, le_rfl⟩
    refine ⟨box, fun hfollows => ?_⟩
    have hmeets := meets_of_getsThere box hedge hthere ⟨rfl, rfl⟩ (-1)
      ⟨by norm_num [box], by norm_num [box]; exact hm.le⟩
    refine not_drawn_of_disjoint box (convex_Ioi m) ?_ ?_
      ((followsIn_iff_drawn.mp hfollows).mpr hmeets)
    · exact fun point hpoint => heast _ (Finset.mem_insert_of_mem (hmem hpoint))
    · exact fun lon hlon hinside => absurd hinside.2 (not_le.mpr hlon)

end Antimeridian

/-- **When the boxes follow the track.** For one box, exactly if the stored lines and the way
of the satellite agree there; for all boxes, exactly if they go through the same points of the
map. They do if the track stays off the antimeridian, and only then unless it has samples on both
edges of the map. -/
theorem followsTrack_iff (track : GroundTrack) :
    (∀ box, FollowsIn track box ↔ track.AgreesIn box) ∧
    ((∀ box, FollowsIn track box) ↔ track.IsTraced) ∧
    (track.StaysOff → ∀ box, FollowsIn track box) ∧
    (¬ track.SpansMap → (∀ box, FollowsIn track box) → track.StaysOff) := by
  refine ⟨fun box => followsIn_iff_agreesIn, follows_iff_isTraced, ?_, ?_⟩
  · exact fun hoff box => followsIn_iff_agreesIn.mpr (agreesIn_of_staysOff hoff)
  · intro hspans hall
    by_contra hoff
    obtain ⟨box, hnot⟩ := exists_not_followsIn hoff hspans
    exact hnot (hall box)

/-- Three samples over Spain. -/
def spanishTrack : GroundTrack where
  points := [(-37 / 10, 404 / 10), (-36 / 10, 405 / 10), (-35 / 10, 406 / 10)]
  length := by decide
  range := by decide +kernel
  apart := by decide +kernel

/-- The query is right about it in every box. -/
theorem spanish_follows (box : Bbox) : FollowsIn spanishTrack box :=
  (followsTrack_iff spanishTrack).2.2.1 (by decide +kernel) box

/-- A track over the Pacific, from 170° east to 170° west. -/
def pacificTrack : GroundTrack where
  points := [(170, 0), (-170, 0)]
  length := le_rfl
  range := by decide +kernel
  apart := by decide +kernel

/-- A box in the Gulf of Guinea. -/
def guineaBox : Bbox := ⟨-5, -5, 5, 5, by norm_num, by norm_num, by norm_num, by norm_num,
  by norm_num, by norm_num⟩

/-- A box along the antimeridian. -/
def fijiBox : Bbox := ⟨175, -5, 180, 5, by norm_num, by norm_num, by norm_num, by norm_num,
  by norm_num, by norm_num⟩

/-- The stored line meets the box in the Gulf of Guinea and not the one in the Pacific; with
the satellite it is the other way round. -/
theorem pacific_misdrawn :
    (PolylineMeets pacificTrack.points guineaBox.low guineaBox.high ∧
      ¬ pacificTrack.Meets guineaBox ∧ ¬ FollowsIn pacificTrack guineaBox) ∧
    (¬ PolylineMeets pacificTrack.points fijiBox.low fijiBox.high ∧
      pacificTrack.Meets fijiBox ∧ ¬ FollowsIn pacificTrack fijiBox) := by
  rw [followsIn_iff_drawn, followsIn_iff_drawn]
  decide +kernel

end Apsis.Tracking
