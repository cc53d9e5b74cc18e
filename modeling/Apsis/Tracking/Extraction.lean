/-
# Which passes are extracted from the events

The loop of `compute_passes` is compared with what a complete pass is: a rise and
a later set with nothing but culminations in between, and at least one of them.
The loop finds all of these and nothing else, whatever the order of the events.

As the peak it keeps the last culmination before the set. Where a satellite
culminates more than once in a pass, that need not be the highest one.
-/

import Mathlib.Data.List.Basic
import Mathlib.Order.Bounds.Basic
import Mathlib.Algebra.Order.Ring.Rat
import Apsis.Tracking.Passes

namespace Apsis.Tracking

open Apsis.Library Apsis.Core

/-- The events that skyfield finds, in order of time. -/
abbrev EventList := List (Time × EventCode)

/-! ## Stretches of events -/

/-- The events have a rise at `aosAt`, then these culminations, then a set at
`losAt`. -/
structure Stretch (events : EventList) (aosAt losAt : Time) (between : EventList) : Prop where
  split : ∃ before after,
    events = before ++ (aosAt, .rise) :: (between ++ (losAt, .set) :: after)
  culminations : ∀ event ∈ between, event.2 = .culminate

/-- A rise event and a later set event with no rise or set between them and at
least one culmination between them, by their times. -/
def IsComplete (events : EventList) (interval : Time × Time) : Prop :=
  ∃ before between after,
    events = before ++ (interval.1, .rise) :: (between ++ (interval.2, .set) :: after) ∧
    (∀ event ∈ between, event.2 ≠ .rise ∧ event.2 ≠ .set) ∧
    ∃ event ∈ between, event.2 = .culminate

theorem isComplete_iff {events : EventList} {aosAt losAt : Time} :
    IsComplete events (aosAt, losAt) ↔
      ∃ between, Stretch events aosAt losAt between ∧ between ≠ [] := by
  constructor
  · rintro ⟨before, between, after, hsplit, hbetween, event, hmem, -⟩
    refine ⟨between, ⟨⟨before, after, hsplit⟩, fun event hevent => ?_⟩, List.ne_nil_of_mem hmem⟩
    obtain ⟨hrise, hset⟩ := hbetween event hevent
    cases hcode : event.2 with
    | rise => exact absurd hcode hrise
    | set => exact absurd hcode hset
    | culminate => rfl
  · rintro ⟨between, ⟨⟨before, after, hsplit⟩, hall⟩, hne⟩
    obtain ⟨event, hmem⟩ := List.exists_mem_of_ne_nil between hne
    refine ⟨before, between, after, hsplit, fun event hevent => ?_, event, hmem, hall event hmem⟩
    rw [hall event hevent]
    exact ⟨by decide, by decide⟩

/-- The rest of the events closes an open pass: the set comes at `losAt`, and the
last culmination by then was at `peak`. -/
def Closes (events : EventList) (peakTime : Option Time) (peak losAt : Time) : Prop :=
  ∃ between after, events = between ++ (losAt, .set) :: after ∧
    (∀ event ∈ between, event.2 = .culminate) ∧
    (between.getLast?.map Prod.fst).or peakTime = some peak

/-- The events have a complete pass with its last culmination at `peak`. -/
def HasPass (events : EventList) (aosAt peak losAt : Time) : Prop :=
  ∃ before after, events = before ++ (aosAt, .rise) :: after ∧ Closes after none peak losAt

theorem hasPass_iff {events : EventList} {aosAt peak losAt : Time} :
    HasPass events aosAt peak losAt ↔ ∃ between, Stretch events aosAt losAt between ∧
      between.getLast?.map Prod.fst = some peak := by
  simp only [HasPass, Closes, Option.or_none]
  constructor
  · rintro ⟨before, _, rfl, between, after, rfl, hall, hpeak⟩
    exact ⟨between, ⟨⟨before, after, rfl⟩, hall⟩, hpeak⟩
  · rintro ⟨between, ⟨⟨before, after, hsplit⟩, hall⟩, hpeak⟩
    exact ⟨before, _, hsplit, between, after, rfl, hall, hpeak⟩

section Cons

variable {events : EventList} {peakTime : Option Time} {time aosAt peak losAt : Time}

theorem closes_nil : ¬ Closes [] peakTime peak losAt := by
  rintro ⟨between, after, hsplit, -, -⟩
  cases between <;> cases hsplit

theorem closes_rise : ¬ Closes ((time, .rise) :: events) peakTime peak losAt := by
  rintro ⟨between, after, hsplit, hall, -⟩
  cases between with
  | nil => cases hsplit
  | cons event between =>
      cases hsplit
      cases hall _ List.mem_cons_self

theorem closes_set :
    Closes ((time, .set) :: events) peakTime peak losAt ↔ peakTime = some peak ∧ time = losAt := by
  constructor
  · rintro ⟨between, after, hsplit, hall, hpeak⟩
    cases between with
    | nil =>
        cases hsplit
        exact ⟨hpeak, rfl⟩
    | cons event between =>
        cases hsplit
        cases hall _ List.mem_cons_self
  · rintro ⟨hpeak, rfl⟩
    exact ⟨[], events, rfl, by simp, hpeak⟩

/-- A culmination replaces the one before it. -/
theorem closes_culminate :
    Closes ((time, .culminate) :: events) peakTime peak losAt ↔
      Closes events (some time) peak losAt := by
  have hlast : ∀ between : EventList,
      (((time, EventCode.culminate) :: between).getLast?.map Prod.fst).or peakTime =
        (between.getLast?.map Prod.fst).or (some time) := by
    intro between
    rw [List.getLast?_cons]
    cases between.getLast? <;> rfl
  constructor
  · rintro ⟨between, after, hsplit, hall, hpeak⟩
    cases between with
    | nil => cases hsplit
    | cons event between =>
        cases hsplit
        rw [hlast] at hpeak
        exact ⟨between, after, rfl, fun event hmem => hall event (List.mem_cons_of_mem _ hmem),
          hpeak⟩
  · rintro ⟨between, after, rfl, hall, hpeak⟩
    refine ⟨(time, .culminate) :: between, after, rfl, ?_, ?_⟩
    · intro event hmem
      rcases List.mem_cons.mp hmem with rfl | hmem
      · rfl
      · exact hall event hmem
    · rw [hlast]
      exact hpeak

theorem hasPass_nil : ¬ HasPass [] aosAt peak losAt := by
  rintro ⟨before, after, hsplit, -⟩
  cases before <;> cases hsplit

theorem hasPass_rise :
    HasPass ((time, .rise) :: events) aosAt peak losAt ↔
      time = aosAt ∧ Closes events none peak losAt ∨ HasPass events aosAt peak losAt := by
  constructor
  · rintro ⟨before, after, hsplit, hcloses⟩
    cases before with
    | nil =>
        cases hsplit
        exact Or.inl ⟨rfl, hcloses⟩
    | cons event before =>
        cases hsplit
        exact Or.inr ⟨before, after, rfl, hcloses⟩
  · rintro (⟨rfl, hcloses⟩ | ⟨before, after, rfl, hcloses⟩)
    · exact ⟨[], events, rfl, hcloses⟩
    · exact ⟨(time, .rise) :: before, after, rfl, hcloses⟩

theorem hasPass_cons_of_ne {code : EventCode} (hne : code ≠ .rise) :
    HasPass ((time, code) :: events) aosAt peak losAt ↔ HasPass events aosAt peak losAt := by
  constructor
  · rintro ⟨before, after, hsplit, hcloses⟩
    cases before with
    | nil =>
        cases hsplit
        exact absurd rfl hne
    | cons event before =>
        cases hsplit
        exact ⟨before, after, rfl, hcloses⟩
  · rintro ⟨before, after, rfl, hcloses⟩
    exact ⟨(time, code) :: before, after, rfl, hcloses⟩

theorem hasPass_culminate :
    HasPass ((time, .culminate) :: events) aosAt peak losAt ↔ HasPass events aosAt peak losAt :=
  hasPass_cons_of_ne (by decide)

theorem hasPass_set :
    HasPass ((time, .set) :: events) aosAt peak losAt ↔ HasPass events aosAt peak losAt :=
  hasPass_cons_of_ne (by decide)

end Cons

/-- **What the loop finds.** The pass that is open if the rest of the events closes
it, and every complete pass of the rest. -/
theorem mem_scanEvents {build : Time → Time → Time → SatellitePass} {events : EventList}
    {aosAt peakTime : Option Time} {pass : SatellitePass} :
    pass ∈ scanEvents build events aosAt peakTime ↔
      ∃ aos peak los, (aosAt = some aos ∧ Closes events peakTime peak los ∨
        HasPass events aos peak los) ∧ pass = build aos peak los := by
  fun_induction scanEvents build events aosAt peakTime with
  | case1 => simp [closes_nil, hasPass_nil]
  | case2 eventTime events _ _ ih =>
      simp only [ih, closes_rise, hasPass_rise, and_false, false_or, Option.some.injEq]
  | case3 eventTime events aosAt _ ih =>
      simp only [ih, closes_culminate, hasPass_culminate]
  | case4 eventTime events _ ih =>
      simp only [ih, hasPass_culminate, reduceCtorEq, false_and,
        false_or]
  | case5 eventTime events aosAt peakTime ih =>
      simp only [List.mem_cons, ih, closes_set, hasPass_set,
        reduceCtorEq, false_and, false_or, Option.some.injEq]
      constructor
      · rintro (rfl | ⟨aos, peak, los, hpass, rfl⟩)
        · exact ⟨aosAt, peakTime, eventTime, Or.inl ⟨rfl, rfl, rfl⟩, rfl⟩
        · exact ⟨aos, peak, los, Or.inr hpass, rfl⟩
      · rintro ⟨aos, peak, los, ⟨rfl, rfl, rfl⟩ | hpass, rfl⟩
        · exact Or.inl rfl
        · exact Or.inr ⟨aos, peak, los, hpass, rfl⟩
  | case6 eventTime events aosAt peakTime hnone ih =>
      simp only [ih, closes_set, hasPass_set, reduceCtorEq,
        false_and, false_or]
      constructor
      · rintro ⟨aos, peak, los, hpass, rfl⟩
        exact ⟨aos, peak, los, Or.inr hpass, rfl⟩
      · rintro ⟨aos, peak, los, ⟨hopen, hpeak, rfl⟩ | hpass, rfl⟩
        · exact absurd hpeak (hnone aos peak hopen)
        · exact ⟨aos, peak, los, hpass, rfl⟩

/-! ## Soundness and completeness -/

/-- The passes are those of the events, inside the window, in order and apart. -/
structure Extracts (events : EventList) (window : Time × Time) (passes : List SatellitePass) :
    Prop where
  /-- One pass for each complete pair of a rise and a set, and no other. -/
  exact : ∀ interval, interval ∈ passes.map SatellitePass.interval ↔ IsComplete events interval
  inside : ∀ pass ∈ passes, window.1 ≤ pass.aosAt ∧ pass.aosAt < pass.peakAt ∧
    pass.peakAt < pass.losAt ∧ pass.losAt ≤ window.2
  /-- Each pass is over before the next begins. -/
  ordered : passes.Pairwise fun first second => first.losAt < second.aosAt
  distinct : (passes.map SatellitePass.aosAt).Nodup

/-- The last culmination of a stretch is one of its events. -/
theorem mem_of_getLast?_map {between : EventList} {peak : Time}
    (hlast : between.getLast?.map Prod.fst = some peak) :
    ∃ event ∈ between, event.1 = peak := by
  obtain ⟨event, hevent, rfl⟩ := Option.map_eq_some_iff.mp hlast
  exact ⟨event, List.mem_of_getLast? hevent, rfl⟩

/-- The times of a pass are times of events, in order. -/
theorem HasPass.times {events : EventList} {aosAt peak losAt : Time}
    (hordered : events.Pairwise fun first second => first.1 < second.1)
    (hpass : HasPass events aosAt peak losAt) :
    aosAt < peak ∧ peak < losAt ∧ (aosAt, .rise) ∈ events ∧ (losAt, .set) ∈ events := by
  obtain ⟨between, ⟨⟨before, after, rfl⟩, -⟩, hlast⟩ := hasPass_iff.mp hpass
  obtain ⟨event, hevent, rfl⟩ := mem_of_getLast?_map hlast
  obtain ⟨hrise, hrest⟩ := List.pairwise_cons.mp (List.pairwise_append.mp hordered).2.1
  have hset := (List.pairwise_append.mp hrest).2.2 event hevent (losAt, .set) List.mem_cons_self
  exact ⟨hrise event (List.mem_append_left _ hevent), hset, by simp, by simp⟩

/-- **Pass extraction is sound and complete.** For any events in order of time in
the window, whatever their codes, valid arguments give exactly their complete
passes. -/
theorem computePasses_extracts {sky : Skyfield} {line1 line2 : Text} {observer : ObserverSite}
    {window : Time × Time} {minElevationDeg : ℚ} {trackSamples : ℕ} {events : EventList}
    (hwindow : window.1 < window.2) (helevation : 0 < minElevationDeg ∧ minElevationDeg < 90)
    (hsamples : 2 ≤ trackSamples)
    (hevents : sky.findEvents line1 line2 observer window minElevationDeg = some events)
    (hordered : events.Pairwise fun first second => first.1 < second.1)
    (hinside : ∀ event ∈ events, window.1 ≤ event.1 ∧ event.1 ≤ window.2) :
    ∃ passes, computePasses sky line1 line2 observer window minElevationDeg trackSamples =
      .ok passes ∧ Extracts events window passes := by
  refine ⟨_, computePasses_eq_ok.mpr ⟨hwindow, helevation, hsamples, events, hevents, rfl⟩, ?_⟩
  have hmem : ∀ pass, pass ∈ scanEvents (buildPass sky line1 line2 observer trackSamples) events
      none none ↔ ∃ aos peak los, HasPass events aos peak los ∧
        pass = buildPass sky line1 line2 observer trackSamples aos peak los := by
    intro pass
    simp only [mem_scanEvents, reduceCtorEq, false_and, false_or]
  have hsorted : (scanEvents (buildPass sky line1 line2 observer trackSamples) events none
      none).Pairwise fun first second => first.losAt < second.aosAt :=
    scanEvents_sorted (fun _ _ _ => rfl) (fun _ _ _ => rfl) hordered
  have htimes : ∀ pass ∈ scanEvents (buildPass sky line1 line2 observer trackSamples) events
      none none, window.1 ≤ pass.aosAt ∧ pass.aosAt < pass.peakAt ∧
        pass.peakAt < pass.losAt ∧ pass.losAt ≤ window.2 := by
    intro pass hpass
    obtain ⟨aos, peak, los, hhas, rfl⟩ := (hmem pass).mp hpass
    obtain ⟨hrising, hsetting, hrise, hset⟩ := hhas.times hordered
    exact ⟨(hinside _ hrise).1, hrising, hsetting, (hinside _ hset).2⟩
  refine { exact := ?_, inside := htimes, ordered := hsorted, distinct := ?_ }
  · rintro ⟨aosAt, losAt⟩
    rw [isComplete_iff, List.mem_map]
    constructor
    · rintro ⟨pass, hpass, hinterval⟩
      obtain ⟨aos, peak, los, hhas, rfl⟩ := (hmem pass).mp hpass
      obtain ⟨between, hstretch, hlast⟩ := hasPass_iff.mp hhas
      cases hinterval
      refine ⟨between, hstretch, ?_⟩
      rintro rfl
      cases hlast
    · rintro ⟨between, hstretch, hne⟩
      have hlast : between.getLast?.map Prod.fst = some (between.getLast hne).1 := by
        rw [List.getLast?_eq_some_getLast hne]
        rfl
      exact ⟨_, (hmem _).mpr ⟨_, _, _, hasPass_iff.mpr ⟨between, hstretch, hlast⟩, rfl⟩, rfl⟩
  · -- Each pass begins after the end, and so after the beginning, of those before it.
    apply List.pairwise_map.mpr
    apply hsorted.imp_of_mem
    intro first second hfirst _ hbefore hsame
    obtain ⟨-, hrising, hsetting, -⟩ := htimes first hfirst
    exact absurd hsame ((hrising.trans hsetting).trans hbefore).ne

/-- A sky in which every call finds these events, with these altitudes. -/
def skyOf (events : EventList) (altitude : Time → ℚ) : Skyfield where
  findEvents _ _ _ _ _ := some events
  altitude _ _ _ := altitude
  subpoint _ _ _ := (0, 0)

/-- The window begins in a pass; a rise without a set, a pass without a
culmination and one with two of them follow. -/
def mixedEvents : EventList :=
  [(1, .culminate), (2, .set), (3, .rise), (4, .rise), (5, .set), (6, .rise), (7, .culminate),
    (8, .culminate), (9, .set), (10, .rise)]

theorem mixedEvents_extracted :
    (∃ passes, computePasses (skyOf mixedEvents fun _ => 30) [] [] ⟨0, 0, 0⟩ (0, 10) 10 24 =
      .ok passes ∧ Extracts mixedEvents (0, 10) passes) ∧
    (scanEvents (buildPass (skyOf mixedEvents fun _ => 30) [] [] ⟨0, 0, 0⟩ 24) mixedEvents none
      none).map SatellitePass.interval = [(6, 9)] :=
  ⟨computePasses_extracts (by decide) (by decide) (by decide) rfl (by decide) (by decide), rfl⟩

/-! ## The peak -/

section Peak

variable (sky : Skyfield) (line1 line2 : Text) (observer : ObserverSite)

/-- The elevation of the pass is the maximum over the culminations between its rise
and its set, and its peak is at such a culmination. -/
def IsHighest (events : EventList) (pass : SatellitePass) : Prop :=
  ∀ between, Stretch events pass.aosAt pass.losAt between →
    IsGreatest {degrees | ∃ event ∈ between, sky.altitude line1 line2 observer event.1 = degrees}
      pass.peakElevationDeg ∧
    ∃ event ∈ between, event.1 = pass.peakAt ∧
      sky.altitude line1 line2 observer event.1 = pass.peakElevationDeg

/-- Between a rise and a set, no culmination is higher than the last one. -/
def LastIsHighest (events : EventList) : Prop :=
  ∀ aosAt losAt between last, Stretch events aosAt losAt (between ++ [last]) →
    ∀ event ∈ between,
      sky.altitude line1 line2 observer event.1 ≤ sky.altitude line1 line2 observer last.1

end Peak

/-- In events in order of time, the rise and the set determine what is between. -/
theorem Stretch.unique {events : EventList} {aosAt losAt : Time} {between between' : EventList}
    (hordered : events.Pairwise fun first second => first.1 < second.1)
    (hfirst : Stretch events aosAt losAt between)
    (hsecond : Stretch events aosAt losAt between') : between = between' := by
  -- An event occurs once, so it splits the list in one way.
  have hsplit : ∀ {events before after before' after' : EventList} {event : Time × EventCode},
      events.Pairwise (fun first second => first.1 < second.1) →
      events = before ++ event :: after → events = before' ++ event :: after' →
      before = before' ∧ after = after' := by
    rintro _ before after before' after' event hordered rfl hsame
    obtain ⟨-, hafter, hbefore⟩ := List.pairwise_append.mp hordered
    have hnotBefore : event ∉ before := fun hmem =>
      absurd (hbefore event hmem event List.mem_cons_self) (lt_irrefl _)
    have hnotAfter : event ∉ after := fun hmem =>
      absurd ((List.pairwise_cons.mp hafter).1 event hmem) (lt_irrefl _)
    obtain ⟨hb, -, ha⟩ := (List.append_cons_inj_of_notMem hnotBefore hnotAfter).mp hsame
    exact ⟨hb, ha⟩
  obtain ⟨⟨before, after, hevents⟩, -⟩ := hfirst
  obtain ⟨⟨before', after', hevents'⟩, -⟩ := hsecond
  have hrest := (hsplit hordered hevents hevents').2
  rw [hevents] at hordered
  exact (hsplit (List.pairwise_append.mp hordered).2.1.of_cons rfl hrest).1

/-- A pass whose peak is at the last culmination is highest exactly if none of the
culminations before it is higher. -/
theorem isHighest_iff {sky : Skyfield} {line1 line2 : Text} {observer : ObserverSite}
    {events before : EventList} {aosAt losAt : Time} {last : Time × EventCode} {samples : ℕ}
    (hordered : events.Pairwise fun first second => first.1 < second.1)
    (hstretch : Stretch events aosAt losAt (before ++ [last])) :
    IsHighest sky line1 line2 observer events
        (buildPass sky line1 line2 observer samples aosAt last.1 losAt) ↔
      ∀ event ∈ before,
        sky.altitude line1 line2 observer event.1 ≤ sky.altitude line1 line2 observer last.1 := by
  have hmem : last ∈ before ++ [last] := List.mem_append_right _ (List.mem_singleton.mpr rfl)
  constructor
  · intro hhighest event hevent
    exact (hhighest _ hstretch).1.2 ⟨event, List.mem_append_left _ hevent, rfl⟩
  · intro hlast between hbetween
    cases hstretch.unique hordered hbetween
    refine ⟨⟨⟨last, hmem, rfl⟩, ?_⟩, last, hmem, rfl, rfl⟩
    rintro _ ⟨event, hevent, rfl⟩
    rcases List.mem_append.mp hevent with hbefore | hsame
    · exact hlast event hbefore
    · rw [List.mem_singleton.mp hsame]
      exact le_rfl

/-- **When the peak is the highest point.** For events in order of time, every pass
has its highest culmination as its peak if and only if no complete pass has a
culmination that is higher than its last one. -/
theorem peaks_highest_iff {sky : Skyfield} {line1 line2 : Text} {observer : ObserverSite}
    {window : Time × Time} {minElevationDeg : ℚ} {trackSamples : ℕ} {events : EventList}
    {passes : List SatellitePass}
    (hevents : sky.findEvents line1 line2 observer window minElevationDeg = some events)
    (hordered : events.Pairwise fun first second => first.1 < second.1)
    (hpasses : computePasses sky line1 line2 observer window minElevationDeg trackSamples =
      .ok passes) :
    (∀ pass ∈ passes, IsHighest sky line1 line2 observer events pass) ↔
      LastIsHighest sky line1 line2 observer events := by
  obtain ⟨-, -, -, found, hfound, rfl⟩ := computePasses_eq_ok.mp hpasses
  cases hevents.symm.trans hfound
  constructor
  · intro hall aosAt losAt before last hstretch
    have hhas : HasPass events aosAt last.1 losAt :=
      hasPass_iff.mpr ⟨_, hstretch, by rw [List.getLast?_concat]; rfl⟩
    apply (isHighest_iff hordered hstretch).mp
    exact hall _ (mem_scanEvents.mpr ⟨_, _, _, Or.inr hhas, rfl⟩)
  · intro hlast pass hpass
    obtain ⟨aosAt, peak, losAt, ⟨hopen, -⟩ | hhas, rfl⟩ := mem_scanEvents.mp hpass
    · cases hopen
    obtain ⟨between, hstretch, hpeak⟩ := hasPass_iff.mp hhas
    obtain ⟨last, hsome, rfl⟩ := Option.map_eq_some_iff.mp hpeak
    obtain ⟨before, rfl⟩ := List.getLast?_eq_some_iff.mp hsome
    exact (isHighest_iff hordered hstretch).mpr (hlast _ _ _ _ hstretch)

/-- A satellite that sinks from one culmination to the next without setting. -/
def sinkingEvents : EventList := [(1, .rise), (2, .culminate), (3, .culminate), (4, .set)]

/-- Its altitude at these times. -/
def sinkingAltitude (time : Time) : ℚ := if time = 2 then 80 else 20

theorem sinking_peak_not_highest :
    (computePasses (skyOf sinkingEvents sinkingAltitude) [] [] ⟨0, 0, 0⟩ (0, 10) 10 24).toOption.map
      (List.map fun pass => (pass.peakAt, pass.peakElevationDeg)) = some [(3, 20)] ∧
    ¬ ∀ pass ∈ scanEvents (buildPass (skyOf sinkingEvents sinkingAltitude) [] [] ⟨0, 0, 0⟩ 24)
      sinkingEvents none none,
      IsHighest (skyOf sinkingEvents sinkingAltitude) [] [] ⟨0, 0, 0⟩ sinkingEvents pass := by
  refine ⟨by decide +kernel, fun hall => ?_⟩
  have hhighest := hall _ List.mem_cons_self [(2, .culminate), (3, .culminate)]
    ⟨⟨[], [], rfl⟩, by decide⟩
  have hle : sinkingAltitude 2 ≤ sinkingAltitude 3 :=
    hhighest.1.2 ⟨(2, .culminate), List.mem_cons_self, rfl⟩
  revert hle
  decide

/-- A satellite that climbs from one culmination to the next. -/
def climbingEvents : EventList :=
  [(1, .rise), (2, .culminate), (3, .culminate), (4, .culminate), (5, .set)]

/-- Its altitude at these times. -/
def climbingAltitude (time : Time) : ℚ := 15 * time

theorem climbing_peak_highest :
    (computePasses (skyOf climbingEvents climbingAltitude) [] [] ⟨0, 0, 0⟩ (0, 10) 10
        24).toOption.map
      (List.map fun pass => (pass.peakAt, pass.peakElevationDeg)) = some [(4, 60)] ∧
    ∀ pass ∈ scanEvents (buildPass (skyOf climbingEvents climbingAltitude) [] [] ⟨0, 0, 0⟩ 24)
      climbingEvents none none,
      IsHighest (skyOf climbingEvents climbingAltitude) [] [] ⟨0, 0, 0⟩ climbingEvents pass := by
  refine ⟨by decide +kernel, ?_⟩
  have hpasses : computePasses (skyOf climbingEvents climbingAltitude) [] [] ⟨0, 0, 0⟩ (0, 10) 10
      24 = .ok (scanEvents (buildPass (skyOf climbingEvents climbingAltitude) [] [] ⟨0, 0, 0⟩ 24)
        climbingEvents none none) :=
    computePasses_eq_ok.mpr ⟨by decide, by decide, by decide, climbingEvents, rfl, rfl⟩
  apply (peaks_highest_iff rfl (by decide) hpasses).mpr
  intro aosAt losAt before last hstretch event hmem
  -- The three culminations are between the only rise and the only set.
  have hknown : Stretch climbingEvents 1 5 ([(2, .culminate), (3, .culminate)] ++
      [(4, .culminate)]) := ⟨⟨[], [], rfl⟩, by decide⟩
  obtain ⟨earlier, later, hsplit⟩ := hstretch.split
  have haos : (aosAt, EventCode.rise) ∈ climbingEvents := by simp [hsplit]
  have hlos : (losAt, EventCode.set) ∈ climbingEvents := by simp [hsplit]
  obtain rfl : aosAt = 1 := by simpa [climbingEvents] using haos
  obtain rfl : losAt = 5 := by simpa [climbingEvents] using hlos
  obtain ⟨rfl, hlast⟩ := List.append_inj' (hstretch.unique (by decide) hknown) rfl
  cases hlast
  revert event
  decide +kernel

end Apsis.Tracking
