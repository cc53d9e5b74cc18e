/-
# Where the passes of a station come from

A view that `GetGroundStationPassesUseCase.execute` returns has come a long way. A call of
`recompute_passes` has fixed its window, listed the stations and read the two lines of its
satellite; it has computed the passes, deleted and inserted rows, and committed; and a
request has read the rows, in the middle of other calls that were doing the same.

On this way nothing is made up or mixed up. The coordinates are those of the station of the
row, the lines are some that the satellite has had since the call began, and the row stores a
pass that `compute_passes` has returned for these.
-/

import Apsis.Tracking.Extraction
import Apsis.Tracking.Readings
import Apsis.Tracking.Sampling
import Apsis.Tracking.StationPasses

namespace Apsis.Tracking

open Apsis.Library Apsis.Core

universe u

variable {W : Type u}

/-! ## Genuine readings -/

/-- The window of a call that begins at this time. -/
def callWindow (settings : Settings) (now : Time) : Time × Time :=
  (now, now + timedelta (settings.passPredictionHorizonHours * 3600))

section Invariant

variable (settings : Settings) (h : History (State W) (Action W)) (s : State W)

/-- The call was begun in this run, and fixed its window then. -/
def HasBegun (call : Recompute) : Prop :=
  call.window.1 ≤ s.outbox.clock ∧
    ∃ t ∈ h, ∃ worker, t.action = .call worker ∧
      t.target.handler worker = .running call .listing ∧
      call.window = callWindow settings t.source.outbox.clock

/-- The satellite had these lines at some moment of the run, and no earlier than this. -/
def HadLines (satelliteId : Uuid) (lines : Text × Text) (since : Time) : Prop :=
  ∃ t ∈ h, since ≤ t.source.outbox.clock ∧
    (t.source.satellite? satelliteId).map Satellite.lines = some lines

/-- What the reading of a call says of a station was so. -/
structure IsGenuine (call : Recompute) (stationId : Uuid) (reading : Reading) : Prop where
  begun : HasBegun settings h s call
  read : readingOf h call.tx (call.satelliteId, stationId) = some reading
  window : reading.window = call.window
  station : s.stations.find? stationId = some reading.station
  lines : HadLines h call.satelliteId reading.lines call.window.1

/-- The calls and their readings. -/
structure AllGenuine : Prop where
  calls : ∀ worker call place, s.handler worker = .running call place → HasBegun settings h s call
  readings : ∀ tx pair reading, readingOf h tx pair = some reading →
    ∃ call, call.tx = tx ∧ call.satelliteId = pair.1 ∧ IsGenuine settings h s call pair.2 reading

end Invariant

variable [DecidableEq W] {sky : Skyfield} {settings : Settings}
  {h : History (State W) (Action W)} {s s' : State W} {a : Action W}

omit [DecidableEq W] in
theorem HasBegun.cons {call : Recompute} (hbegun : HasBegun settings h s call)
    (t : Transition (State W) (Action W)) (hclock : s.outbox.clock ≤ s'.outbox.clock) :
    HasBegun settings (t :: h) s' call := by
  obtain ⟨hle, began, hmem, hbegan⟩ := hbegun
  exact ⟨hle.trans hclock, began, List.mem_cons_of_mem _ hmem, hbegan⟩

omit [DecidableEq W] in
theorem HadLines.cons {satelliteId : Uuid} {lines : Text × Text} {since : Time}
    (hlines : HadLines h satelliteId lines since) (t : Transition (State W) (Action W)) :
    HadLines (t :: h) satelliteId lines since := by
  obtain ⟨read, hmem, hread⟩ := hlines
  exact ⟨read, List.mem_cons_of_mem _ hmem, hread⟩

/-- Time does not run backwards. -/
theorem clock_le_of_effect (heffect : StepEffect sky settings s a s') :
    s.outbox.clock ≤ s'.outbox.clock := by
  have houtbox : ∀ {action : Events.Action W} {outbox : Events.State W},
      Events.step s.outbox action = some outbox → s.outbox.clock ≤ outbox.clock := by
    intro action outbox hstep
    cases Events.step_effect hstep with
    | tick elapsed => exact le_add_of_nonneg_right (Int.natCast_nonneg elapsed)
    | _ => exact le_rfl
  cases heffect with
  | outbox _ hstep _ => exact houtbox hstep
  | drop _ hstep _ =>
      rw [State.drop_outbox]
      exact houtbox hstep
  | raises _ _ _ _ => rw [State.drop_outbox]
  | _ => exact le_rfl

/-- The window of a call that has just begun. -/
theorem window_of_call {worker : W} (htaken : step sky settings s (.call worker) = some s')
    {call : Recompute} {place : Place} (hplace : s'.handler worker = .running call place) :
    call.window = callWindow settings s.outbox.clock := by
  simp only [step] at htaken
  unfold callStep at htaken
  split at htaken
  · split at htaken
    · split at htaken
      · cases htaken
        rw [State.enter_handler_self] at hplace
        cases hplace
      · cases htaken
        rw [State.enter_handler_self] at hplace
        cases hplace
        rfl
    · cases htaken
  · cases htaken

/-- A call goes on, or it has just begun. -/
theorem AllGenuine.calls_step (hinv : AllGenuine settings h s)
    (htaken : step sky settings s a = some s') {worker : W} {call : Recompute} {place : Place}
    (hplace : s'.handler worker = .running call place) :
    HasBegun settings (⟨s, a, s'⟩ :: h) s' call := by
  have heffect := step_effect htaken
  have hclock := clock_le_of_effect heffect
  rcases (continues_of_effect heffect).2 worker call place hplace with ⟨before, hbefore, -⟩ |
    ⟨-, rfl, rfl⟩
  · exact (hinv.calls worker call before hbefore).cons _ hclock
  · have hwindow := window_of_call htaken hplace
    refine ⟨?_, _, List.mem_cons_self, worker, rfl, hplace, hwindow⟩
    rw [hwindow]
    exact hclock

omit [DecidableEq W] in
/-- What the reading of a call says stays so, as long as it stays the reading. -/
theorem IsGenuine.cons {call : Recompute} {stationId : Uuid} {reading : Reading}
    (hgenuine : IsGenuine settings h s call stationId reading)
    {t : Transition (State W) (Action W)} (hclock : s.outbox.clock ≤ s'.outbox.clock)
    (hread : readingOf (t :: h) call.tx (call.satelliteId, stationId) = some reading)
    (hstation : s'.stations.find? stationId = some reading.station) :
    IsGenuine settings (t :: h) s' call stationId reading where
  begun := hgenuine.begun.cons t hclock
  read := hread
  window := hgenuine.window
  station := hstation
  lines := hgenuine.lines.cons t

/-- A new reading is what its call and the tables have. -/
theorem AllGenuine.readings_step (hinv : AllGenuine settings h s) (hbacked : Backed s)
    (heffect : StepEffect sky settings s a s') {tx : TxId} {pair : Pair} {reading : Reading}
    (hreading : readingOf (⟨s, a, s'⟩ :: h) tx pair = some reading) :
    ∃ call, call.tx = tx ∧ call.satelliteId = pair.1 ∧
      IsGenuine settings (⟨s, a, s'⟩ :: h) s' call pair.2 reading := by
  have hclock := clock_le_of_effect heffect
  have hold : readingOf h tx pair = some reading → ∃ call, call.tx = tx ∧
      call.satelliteId = pair.1 ∧
        IsGenuine settings (⟨s, a, s'⟩ :: h) s' call pair.2 reading := by
    intro hbefore
    obtain ⟨call, rfl, hsatellite, hgenuine⟩ := hinv.readings tx pair reading hbefore
    refine ⟨call, rfl, hsatellite, hgenuine.cons hclock ?_ ?_⟩
    · rwa [hsatellite]
    · exact stations_of_effect heffect hgenuine.station
  cases hnoted : readBy h ⟨s, a, s'⟩ with
  | none =>
      rw [readingOf_cons_of_none hnoted] at hreading
      exact hold hreading
  | some noted =>
      have hafter := hreading
      rw [readingOf_cons_of_some hnoted] at hreading
      split at hreading
      · next hsame =>
          obtain ⟨worker, call, station, stations, satellite, -, hplace, hfind, rfl⟩ :=
            readBy_eq_some hnoted
          cases hsame
          cases hreading
          have hbegun := hinv.calls worker call _ hplace
          have hthere := (hbacked.calls worker call _ hplace).stations station List.mem_cons_self
          have hlines : HadLines (⟨s, a, s'⟩ :: h) call.satelliteId satellite.lines
              call.window.1 :=
            ⟨_, List.mem_cons_self, hbegun.1, by rw [hfind, Option.map_some]⟩
          exact ⟨call, rfl, rfl, hbegun.cons _ hclock, hafter, rfl,
            stations_of_effect heffect hthere, hlines⟩
      · exact hold hreading

/-- The run lemma. -/
theorem allGenuine_of_run (hrun : (recomputation sky settings).Run h s) :
    AllGenuine settings h s := by
  apply hrun.invariant_of_step (I := fun h s => AllGenuine settings h s)
  · intro s hinit
    constructor
    · intro worker call place hplace
      rw [(atRest_of_init hinit).handlers] at hplace
      cases hplace
    · rintro tx pair reading ⟨⟩
  · intro h s a s' hprior hinv htaken
    exact ⟨fun _ _ _ hplace => hinv.calls_step htaken hplace,
      fun _ _ _ hreading => hinv.readings_step (backed_of_run hprior) (step_effect htaken)
        hreading⟩

/-! ## Rows -/

/-- The row stores one of the passes of the reading. -/
def Reading.Yields (sky : Skyfield) (reading : Reading) (pass : SatellitePass) : Prop :=
  ∃ passes, reading.passes sky = .ok passes ∧ pass ∈ passes

/-- A row that is there stores a pass of a genuine reading, which a call has made that is
committed. -/
theorem exists_reading_of_current (hrun : (recomputation sky settings).Run h s)
    {row : PassPrediction} (hcurrent : row ∈ s.predictions.current fun _ => true) :
    ∃ call reading, call.tx ∈ s.predictions.committed ∧ call.satelliteId = row.satelliteId ∧
      IsGenuine settings h s call row.groundStationId reading ∧ reading.Yields sky row.pass := by
  obtain ⟨start, hinit, hstart⟩ := hrun.exists_start
  have hrest := atRest_of_init hinit
  have hreads := reads_of_run hrest hstart
  have hcalls := (callsFrom_of_run hrest hstart).calls
  obtain ⟨version, hversion, rfl⟩ := List.mem_map.mp hcurrent
  obtain ⟨hmem, hthere⟩ := List.mem_filter.mp hversion
  have hcommitted : version.insertedBy ∈ s.predictions.committed := by
    rw [Bool.true_and, decide_eq_true_iff] at hthere
    exact hthere.1
  have hfirst : start.nextTx ≤ version.insertedBy := by
    rcases committed_of_run hrest hstart _ hcommitted with hbefore | hfirst
    · rw [hinit.2.2.2.1] at hbefore
      cases hbefore
    · exact hfirst
  obtain ⟨snapshot, hsnapshot⟩ := hcalls.inserted version hmem
  have hended : snapshotFrom start.nextTx h version.insertedBy version.row.pair ≠ none := by
    rw [hsnapshot]
    exact Option.some_ne_none snapshot
  have hsettles := hreads.settled _ hcommitted
  obtain ⟨reading, hreading⟩ := Option.ne_none_iff_exists'.mp (hsettles.read hfirst _ hended)
  have hstored := (hsettles.stored _ reading hreading (by rintro ⟨⟩)).2
  obtain ⟨call, htx, hsatellite, hgenuine⟩ :=
    (allGenuine_of_run hrun).readings _ _ reading hreading
  refine ⟨call, reading, htx ▸ hcommitted, hsatellite, hgenuine, _, hstored, ?_⟩
  apply List.mem_map_of_mem
  refine List.mem_map_of_mem (List.mem_filter.mpr ⟨hmem, ?_⟩)
  simp [isOf]

/-! ## Views -/

/-- `find_events` returns events of its window, in order of time. -/
structure Skyfield.FindsInWindow (sky : Skyfield) : Prop where
  ordered : sky.IsChronological
  inside : ∀ line1 line2 observer window altitude events,
    sky.findEvents line1 line2 observer window altitude = some events →
      ∀ event ∈ events, window.1 ≤ event.1 ∧ event.1 ≤ window.2

/-- `ObserverSite(latitude_deg, longitude_deg, elevation_m)` of a station. -/
def GroundStation.observer (station : GroundStation) : ObserverSite :=
  ⟨station.location.2, station.location.1, station.altitudeM⟩

/-- The pass is a whole one in the window of the reading, with its track. -/
structure IsWhole (sky : Skyfield) (reading : Reading) (pass : SatellitePass) : Prop where
  inside : reading.window.1 ≤ pass.aosAt ∧ pass.losAt ≤ reading.window.2
  times : pass.aosAt < pass.peakAt ∧ pass.peakAt < pass.losAt
  peak : pass.peakElevationDeg =
    sky.altitude reading.lines.1 reading.lines.2 reading.station.observer pass.peakAt
  /-- The points under the satellite at 24 instants from rise to set. -/
  track : ∃ instants, CoversEvenly pass.aosAt pass.losAt 24 instants ∧
    pass.groundTrack = instants.map (sky.subpoint reading.lines.1 reading.lines.2)

/-- A pass that is computed is inside the window, and its track covers it. -/
theorem Reading.Yields.isWhole (hsky : sky.FindsInWindow) {reading : Reading}
    {pass : SatellitePass} (hyields : reading.Yields sky pass) : IsWhole sky reading pass := by
  obtain ⟨passes, hpasses, hmem⟩ := hyields
  obtain ⟨-, -, -, events, hevents, rfl⟩ := computePasses_eq_ok.mp hpasses
  obtain ⟨aos, peak, los, ⟨⟨⟩, -⟩ | hhas, rfl⟩ := mem_scanEvents.mp hmem
  obtain ⟨hrising, hsetting, hrise, hset⟩ := hhas.times (hsky.ordered _ _ _ _ _ _ hevents)
  have hinside := hsky.inside _ _ _ _ _ _ hevents
  exact ⟨⟨(hinside _ hrise).1, (hinside _ hset).2⟩, ⟨hrising, hsetting⟩, rfl,
    _, sampleInstants_covers (hrising.trans hsetting) (by decide), rfl⟩

/-- Every view shows a row that was read, with a satellite that was read. -/
theorem exists_of_mem_viewsOf {satellites : List Satellite} {predictions : List PassPrediction}
    {views : List PassView} (hviews : viewsOf satellites predictions = .ok views)
    {view : PassView} (hmem : view ∈ views) :
    ∃ row ∈ predictions, ∃ satellite, lookupSatellite satellites row.satelliteId = some satellite ∧
      view = viewOf satellite row := by
  induction predictions generalizing views with
  | nil =>
      cases hviews
      cases hmem
  | cons row predictions ih =>
      unfold viewsOf at hviews
      split at hviews
      · cases hviews
      · next satellite hlookup =>
          split at hviews <;> cases hviews
          next rest hrest =>
          rcases List.mem_cons.mp hmem with rfl | hmem
          · exact ⟨row, List.mem_cons_self, satellite, hlookup, rfl⟩
          · obtain ⟨other, hother, hshown⟩ := ih hrest hmem
            exact ⟨other, List.mem_cons_of_mem row hother, hshown⟩

/-- What stands behind a view: a call, what it has read, and a pass that `compute_passes` has
returned for that. -/
structure ComesFrom (sky : Skyfield) (settings : Settings) (h : History (State W) (Action W))
    (s₁ s₂ : State W) (request : PassesRequest) (view : PassView) (call : Recompute)
    (reading : Reading) (pass : SatellitePass) : Prop where
  /-- The call is committed, and what it has read was so when the row was read. -/
  committed : call.tx ∈ s₁.predictions.committed
  genuine : IsGenuine settings h s₁ call request.groundStationId reading
  computed : reading.Yields sky pass
  whole : IsWhole sky reading pass
  shown : ∃ satellite, s₂.satellite? call.satelliteId = some satellite ∧
    view.TellsOf satellite pass
  upcoming : request.after ≤ view.aosAt

/-- **No pass is made up.** Whatever is committed before and between the reads of a request,
each pass that it is answered with has been computed by a call for its satellite, for the
coordinates of its station and from two lines that the satellite has had since that call
began. -/
theorem views_computed (hsky : sky.FindsInWindow) {s₀ s₁ s₂ : State W}
    (hrun : (recomputation sky settings).Run h s₁) {request : PassesRequest}
    (hsees : request.Sees s₀ s₁ s₂) {views : List PassView} (hviews : request.execute = .ok views)
    {view : PassView} (hmem : view ∈ views) :
    ∃ call reading pass, ComesFrom sky settings h s₁ s₂ request view call reading pass := by
  have hlist : viewsOf request.satellites request.predictions = .ok views := by
    unfold PassesRequest.execute at hviews
    split at hviews
    · cases hviews
    · exact hviews
  obtain ⟨row, hrow, satellite, hlookup, rfl⟩ := exists_of_mem_viewsOf hlist hmem
  obtain ⟨hcurrent, hupcoming⟩ := hsees.predictions.mem_iff.mp hrow
  rw [isUpcoming, Bool.and_eq_true, decide_eq_true_iff, decide_eq_true_iff] at hupcoming
  obtain ⟨call, reading, hcommitted, hsatellite, hgenuine, hyields⟩ :=
    exists_reading_of_current hrun hcurrent
  rw [hupcoming.1] at hgenuine
  refine ⟨call, reading, row.pass, hcommitted, hgenuine, hyields, hyields.isWhole hsky,
    ⟨satellite, ?_, viewOf_tellsOf satellite row⟩, hupcoming.2⟩
  rw [hsatellite, ← lookupSatellite_eq hsees.satellites]
  exact hlookup

/-! ## A pass over Madrid -/

/-- A sky in which the International Space Station passes once in a window of five minutes or
more, and not in a shorter one. -/
def patientSky : Skyfield where
  findEvents line1 line2 observer window altitude :=
    if window.1 + timedelta 300 ≤ window.2 then
      issSky.findEvents line1 line2 observer window altitude
    else some []
  altitude _ _ _ _ := 45
  subpoint _ _ _ := (0, 0)

theorem patientSky_findsInWindow : patientSky.FindsInWindow := by
  constructor
  · intro line1 line2 observer window altitude events hevents
    simp only [patientSky] at hevents
    split at hevents
    · exact issSky_isChronological _ _ _ _ _ _ hevents
    · cases hevents
      exact .nil
  · intro line1 line2 observer window altitude events hevents
    simp only [patientSky] at hevents
    split at hevents
    · next hlong =>
        cases hevents
        simp only [timedelta] at hlong ⊢
        simp only [List.mem_cons, List.not_mem_nil, or_false, forall_eq_or_imp, forall_eq]
        split <;> lia
    · cases hevents
      rintro _ ⟨⟩

/-- A request at this state for what is stored for Madrid. -/
def madridRequest (s : State (Fin 2)) : PassesRequest where
  groundStationId := madrid.id
  after := 0
  station := s.stations.find? madrid.id
  predictions := s.predictions.current fun _ => true
  satellites := s.satellites.rows

/-- A request for the stored pass is answered with one that was computed for Madrid. -/
theorem madrid_view_computed :
    ∃ h s views view call reading pass, (recomputation (W := Fin 2) patientSky {}).Run h s ∧
      (madridRequest s).execute = .ok views ∧ view ∈ views ∧
      ComesFrom patientSky {} h s s (madridRequest s) view call reading pass := by
  obtain ⟨h, s, hrun, hP⟩ := System.exists_run_of_play (idleCalls_init patientSky {})
    ([.register madrid, .refresh 0 8 [issChange]] ++ dispatchActions 0 [] (issChange.event 0 8) ++
      computeActions 0 ++ deleteActions 0 [] ++ storeActions 0 21)
    (fun p =>
      let request := madridRequest p.2
      decide (request.predictions.length = 1 ∧
        request.predictions.filter (isUpcoming madrid.id 0) = request.predictions ∧
        (request.execute.toOption.getD []).length = 1)) (by decide +kernel)
  obtain ⟨hcount, hupcoming, hanswer⟩ := of_decide_eq_true hP
  obtain ⟨row, hrow⟩ := List.length_eq_one_iff.mp hcount
  have hsees : (madridRequest s).Sees s s s := by
    refine ⟨rfl, ⟨?_, ?_⟩, List.Perm.refl _⟩
    · exact List.Perm.of_eq hupcoming.symm
    · rw [hrow]
      exact List.pairwise_singleton _ row
  cases hviews : (madridRequest s).execute with
  | error error =>
      rw [hviews] at hanswer
      cases hanswer
  | ok views =>
      rw [hviews] at hanswer
      obtain ⟨view, hview⟩ := List.length_eq_one_iff.mp hanswer
      have hmem : view ∈ views := by
        have hsame : views = [view] := hview
        rw [hsame]
        exact List.mem_singleton_self view
      obtain ⟨call, reading, pass, hfrom⟩ :=
        views_computed patientSky_findsInWindow hrun hsees hviews hmem
      exact ⟨h, s, views, view, call, reading, pass, hrun, hviews, hmem, hfrom⟩

end Apsis.Tracking
