/-
# Computing the passes of a satellite over a station

`compute_passes` walks once through the rise, culmination and set events that
skyfield finds in a window and keeps the complete passes. What skyfield computes
is given: the events, the altitude at an instant and the point under the
satellite. Floats stand as rational numbers.
-/

import Mathlib.Data.Rat.Defs
import Mathlib.Data.List.Pairwise
import Apsis.Core.Config

namespace Apsis.Tracking

open Apsis.Library Apsis.Core

/-- `ObserverSite` -/
structure ObserverSite where
  latitude : ℚ
  longitude : ℚ
  elevationM : ℚ
  deriving DecidableEq

/-- `SatellitePass`; the points of the track are `(lon, lat)`. -/
structure SatellitePass where
  aosAt : Time
  losAt : Time
  peakAt : Time
  peakElevationDeg : ℚ
  groundTrack : List (ℚ × ℚ)
  deriving DecidableEq

/-- `_RISE`, `_CULMINATE`, `_SET` -/
inductive EventCode
  | rise
  | culminate
  | set
  deriving DecidableEq

/-- What skyfield computes from two lines. -/
structure Skyfield where
  /-- `find_events` over a window, above an altitude; `none` if it raises. -/
  findEvents : Text → Text → ObserverSite → Time × Time → ℚ → Option (List (Time × EventCode))
  /-- The altitude in degrees over a station. -/
  altitude : Text → Text → ObserverSite → Time → ℚ
  /-- Longitude and latitude of the point under the satellite. -/
  subpoint : Text → Text → Time → ℚ × ℚ

/-- `find_events` returns its events in order of time. -/
def Skyfield.IsChronological (sky : Skyfield) : Prop :=
  ∀ line1 line2 observer window altitude events,
    sky.findEvents line1 line2 observer window altitude = some events →
      events.Pairwise fun first second => first.1 < second.1

/-- The division of a `timedelta` by an `int`, which rounds half to even. -/
def divideAndRound (a b : ℤ) : ℤ :=
  if b < 2 * (a % b) ∨ 2 * (a % b) = b ∧ a / b % 2 = 1 then a / b + 1 else a / b

/-- `_sample_instants` -/
def sampleInstants (start stop : Time) (count : ℕ) : List Time :=
  let span := stop - start
  let instants := (List.range count).map fun step =>
    start + divideAndRound (span * step) (count - 1)
  instants.set (count - 1) stop

/-- Why `compute_passes` raises. -/
inductive PassError
  | valueError (message : Text)
  | skyfield
  deriving DecidableEq

section Compute

variable (sky : Skyfield) (line1 line2 : Text) (observer : ObserverSite)

/-- `_build_pass` -/
def buildPass (trackSamples : ℕ) (aosAt peakTime losAt : Time) : SatellitePass where
  aosAt := aosAt
  losAt := losAt
  peakAt := peakTime
  peakElevationDeg := sky.altitude line1 line2 observer peakTime
  groundTrack := (sampleInstants aosAt losAt trackSamples).map (sky.subpoint line1 line2)

/-- The loop over the events, with `aos_at` and `peak_time` as they are now. -/
def scanEvents (build : Time → Time → Time → SatellitePass) :
    List (Time × EventCode) → Option Time → Option Time → List SatellitePass
  | [], _, _ => []
  | (eventTime, .rise) :: events, _, _ => scanEvents build events (some eventTime) none
  | (eventTime, .culminate) :: events, some aosAt, _ =>
      scanEvents build events (some aosAt) (some eventTime)
  | (_, .culminate) :: events, none, peakTime => scanEvents build events none peakTime
  | (eventTime, .set) :: events, some aosAt, some peakTime =>
      build aosAt peakTime eventTime :: scanEvents build events none none
  | (_, .set) :: events, _, _ => scanEvents build events none none

/-- `compute_passes` -/
def computePasses (window : Time × Time) (minElevationDeg : ℚ) (trackSamples : ℕ) :
    Except PassError (List SatellitePass) :=
  if window.2 ≤ window.1 then
    .error (.valueError "window start must be earlier than end".toList)
  else if ¬ (0 < minElevationDeg ∧ minElevationDeg < 90) then
    .error (.valueError "min_elevation_deg must be in (0, 90)".toList)
  else if trackSamples < 2 then
    .error (.valueError "track_samples must be at least 2".toList)
  else
    match sky.findEvents line1 line2 observer window minElevationDeg with
    | none => .error .skyfield
    | some events =>
        .ok (scanEvents (buildPass sky line1 line2 observer trackSamples) events none none)

end Compute

/-! ## The passes are apart -/

/-- `[aos_at, los_at]` -/
def SatellitePass.interval (pass : SatellitePass) : Time × Time := (pass.aosAt, pass.losAt)

/-- One interval is over before the other begins. -/
def AreApart (first second : Time × Time) : Prop :=
  first.2 < second.1 ∨ second.2 < first.1

instance (first second : Time × Time) : Decidable (AreApart first second) :=
  inferInstanceAs (Decidable (_ ∨ _))

/-- A pass of the rest of the loop begins at the rise that is open, or at an event
still to come. -/
theorem aosAt_of_mem_scanEvents {build : Time → Time → Time → SatellitePass}
    (hbuild : ∀ aosAt peakTime losAt, (build aosAt peakTime losAt).aosAt = aosAt)
    {events : List (Time × EventCode)} {aosAt peakTime : Option Time} {pass : SatellitePass}
    (hmem : pass ∈ scanEvents build events aosAt peakTime) :
    aosAt = some pass.aosAt ∨ ∃ event ∈ events, event.1 = pass.aosAt := by
  fun_induction scanEvents build events aosAt peakTime with
  | case1 => cases hmem
  | case2 eventTime events _ _ ih =>
      rcases ih hmem with hopen | ⟨event, hevent, htime⟩
      · exact Or.inr ⟨_, List.mem_cons_self, Option.some.inj hopen⟩
      · exact Or.inr ⟨event, List.mem_cons_of_mem _ hevent, htime⟩
  | case5 eventTime events aosAt peakTime ih =>
      rcases List.mem_cons.mp hmem with rfl | hmem
      · exact Or.inl (congrArg some (hbuild aosAt peakTime eventTime).symm)
      · rcases ih hmem with hopen | ⟨event, hevent, htime⟩
        · cases hopen
        · exact Or.inr ⟨event, List.mem_cons_of_mem _ hevent, htime⟩
  | case3 eventTime events aosAt _ ih =>
      rcases ih hmem with hopen | ⟨event, hevent, htime⟩
      · exact Or.inl hopen
      · exact Or.inr ⟨event, List.mem_cons_of_mem _ hevent, htime⟩
  | case4 eventTime events _ ih =>
      rcases ih hmem with hopen | ⟨event, hevent, htime⟩
      · cases hopen
      · exact Or.inr ⟨event, List.mem_cons_of_mem _ hevent, htime⟩
  | case6 eventTime events _ _ _ ih =>
      rcases ih hmem with hopen | ⟨event, hevent, htime⟩
      · cases hopen
      · exact Or.inr ⟨event, List.mem_cons_of_mem _ hevent, htime⟩

/-- Events in order of time give passes of which each is over before the next
begins. -/
theorem scanEvents_sorted {build : Time → Time → Time → SatellitePass}
    (haos : ∀ aosAt peakTime losAt, (build aosAt peakTime losAt).aosAt = aosAt)
    (hlos : ∀ aosAt peakTime losAt, (build aosAt peakTime losAt).losAt = losAt)
    {events : List (Time × EventCode)} {aosAt peakTime : Option Time}
    (hordered : events.Pairwise fun first second => first.1 < second.1) :
    (scanEvents build events aosAt peakTime).Pairwise fun first second =>
      first.losAt < second.aosAt := by
  fun_induction scanEvents build events aosAt peakTime with
  | case1 => exact .nil
  | case5 eventTime events aosAt peakTime ih =>
      obtain ⟨hlater, hordered⟩ := List.pairwise_cons.mp hordered
      refine .cons (fun pass hmem => ?_) (ih hordered)
      rcases aosAt_of_mem_scanEvents haos hmem with hopen | ⟨event, hevent, htime⟩
      · cases hopen
      · rw [hlos, ← htime]
        exact hlater event hevent
  | case2 _ _ _ _ ih => exact ih hordered.of_cons
  | case3 _ _ _ _ ih => exact ih hordered.of_cons
  | case4 _ _ _ ih => exact ih hordered.of_cons
  | case6 _ _ _ _ _ ih => exact ih hordered.of_cons

/-- Valid arguments and events give passes. -/
theorem computePasses_eq_ok {sky : Skyfield} {line1 line2 : Text} {observer : ObserverSite}
    {window : Time × Time} {minElevationDeg : ℚ} {trackSamples : ℕ}
    {predicted : List SatellitePass} :
    computePasses sky line1 line2 observer window minElevationDeg trackSamples = .ok predicted ↔
      window.1 < window.2 ∧ (0 < minElevationDeg ∧ minElevationDeg < 90) ∧ 2 ≤ trackSamples ∧
        ∃ events, sky.findEvents line1 line2 observer window minElevationDeg = some events ∧
          predicted =
            scanEvents (buildPass sky line1 line2 observer trackSamples) events none none := by
  unfold computePasses
  split
  · next hwindow => simp [not_lt.mpr hwindow]
  split
  · next helevation => simp [helevation]
  split
  · next hsamples => simp [not_le.mpr hsamples]
  next hwindow helevation hsamples =>
  rw [not_le] at hwindow
  rw [not_not] at helevation
  rw [not_lt] at hsamples
  cases hevents : sky.findEvents line1 line2 observer window minElevationDeg with
  | none => simp
  | some events => simp [hwindow, helevation, hsamples, eq_comm]

/-- The passes that one call computes are apart. -/
theorem computePasses_pairwise {sky : Skyfield} (hsky : sky.IsChronological) {line1 line2 : Text}
    {observer : ObserverSite} {window : Time × Time} {minElevationDeg : ℚ} {trackSamples : ℕ}
    {predicted : List SatellitePass}
    (h : computePasses sky line1 line2 observer window minElevationDeg trackSamples =
      .ok predicted) : (predicted.map SatellitePass.interval).Pairwise AreApart := by
  obtain ⟨-, -, -, events, hevents, rfl⟩ := computePasses_eq_ok.mp h
  apply List.pairwise_map.mpr
  apply (scanEvents_sorted _ _ (hsky _ _ _ _ _ _ hevents)).imp
  · exact fun hbefore => Or.inl hbefore
  · exact fun _ _ _ => rfl
  · exact fun _ _ _ => rfl

/-- Three complete events and a set without a rise. -/
example (build : Time → Time → Time → SatellitePass) :
    scanEvents build [(1, .set), (2, .rise), (3, .culminate), (4, .set)] none none =
      [build 2 3 4] := rfl

end Apsis.Tracking
