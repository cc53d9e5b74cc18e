/-
# The passes of a station

`GetGroundStationPassesUseCase.execute` reads the station, then its predictions and then
all satellites, each time what is committed at that moment, and looks up the satellite of
every prediction. In between anything may be committed.

A prediction is only inserted by a call that has read its satellite, and satellites stay.
So whatever satellite a prediction of the first read names, the second read has it.
-/

import Apsis.Tracking.Dangling

namespace Apsis.Tracking

open Apsis.Library Apsis.Core

universe u

/-! ## The use case -/

/-- A GeoJSON geometry. -/
structure GeoJson where
  type : Text
  coordinates : List (List ℚ)
  deriving DecidableEq

/-- `wkb_to_geojson` -/
def wkbToGeojson (track : List (ℚ × ℚ)) : GeoJson where
  type := "LineString".toList
  coordinates := track.map fun point => [point.1, point.2]

/-- `PassView` -/
structure PassView where
  satelliteNoradId : ℤ
  satelliteName : Text
  aosAt : Time
  losAt : Time
  peakAt : Time
  peakElevationDeg : ℚ
  track : GeoJson
  deriving DecidableEq

/-- What `execute` may raise. -/
inductive PassesError
  | /-- `NotFoundError(entity, id)` -/
    notFound (entity : Text) (id : Uuid)
  | /-- `KeyError(id)` -/
    keyError (id : Uuid)
  deriving DecidableEq

/-- `satellites[id]`, in the dictionary of the satellites by id. -/
def lookupSatellite (satellites : List Satellite) (id : Uuid) : Option Satellite :=
  satellites.findRev? fun satellite => decide (satellite.id = id)

/-- The view of a prediction. -/
def viewOf (satellite : Satellite) (prediction : PassPrediction) : PassView where
  satelliteNoradId := satellite.noradId
  satelliteName := satellite.name
  aosAt := prediction.aosAt
  losAt := prediction.losAt
  peakAt := prediction.peakAt
  peakElevationDeg := prediction.peakElevationDeg
  track := wkbToGeojson prediction.track

/-- The list comprehension. -/
def viewsOf (satellites : List Satellite) :
    List PassPrediction → Except PassesError (List PassView)
  | [] => .ok []
  | prediction :: predictions =>
      match lookupSatellite satellites prediction.satelliteId with
      | none => .error (.keyError prediction.satelliteId)
      | some satellite =>
          match viewsOf satellites predictions with
          | .error error => .error error
          | .ok views => .ok (viewOf satellite prediction :: views)

/-- A request and what its three statements return. -/
structure PassesRequest where
  groundStationId : Uuid
  after : Time
  /-- `ground_station_repo.get_by_id` -/
  station : Option GroundStation
  /-- `pass_prediction_repo.list_for_ground_station` -/
  predictions : List PassPrediction
  /-- `satellite_repo.list_all` -/
  satellites : List Satellite

/-- `GetGroundStationPassesUseCase.execute` -/
def PassesRequest.execute (request : PassesRequest) : Except PassesError (List PassView) :=
  match request.station with
  | none => .error (.notFound "GroundStation".toList request.groundStationId)
  | some _ => viewsOf request.satellites request.predictions

/-- The `WHERE` of `list_for_ground_station`. -/
def isUpcoming (groundStationId : Uuid) (after : Time) (row : PassPrediction) : Bool :=
  decide (row.groundStationId = groundStationId) && decide (after ≤ row.aosAt)

variable {W : Type u}

/-- The statements of the request see what is committed in these three states. -/
structure PassesRequest.Sees (request : PassesRequest) (s₀ s₁ s₂ : State W) : Prop where
  station : request.station = s₀.stations.find? request.groundStationId
  predictions : IsSelection (s₁.predictions.current fun _ => true)
    (isUpcoming request.groundStationId request.after) request.predictions
  /-- Ordered by name. -/
  satellites : request.satellites.Perm s₂.satellites.rows

/-- The view tells of this pass, and of this satellite. -/
structure PassView.TellsOf (view : PassView) (satellite : Satellite) (pass : SatellitePass) :
    Prop where
  satellite : view.satelliteNoradId = satellite.noradId ∧ view.satelliteName = satellite.name
  times : view.aosAt = pass.aosAt ∧ view.peakAt = pass.peakAt ∧ view.losAt = pass.losAt
  peakElevationDeg : view.peakElevationDeg = pass.peakElevationDeg
  /-- A point of the track is a pair of a longitude and a latitude. -/
  track : view.track.type = "LineString".toList ∧
    view.track.coordinates = pass.groundTrack.map fun point => [point.1, point.2]

theorem viewOf_tellsOf (satellite : Satellite) (prediction : PassPrediction) :
    (viewOf satellite prediction).TellsOf satellite prediction.pass :=
  ⟨⟨rfl, rfl⟩, ⟨rfl, rfl, rfl⟩, rfl, ⟨rfl, rfl⟩⟩

/-- The view shows the prediction with its satellite. -/
def Shows (s : State W) (prediction : PassPrediction) (view : PassView) : Prop :=
  ∃ satellite, s.satellite? prediction.satelliteId = some satellite ∧
    view.TellsOf satellite prediction.pass

/-- The views show just the upcoming predictions of the station. -/
structure PassesRequest.Serves (request : PassesRequest) (s₁ s₂ : State W)
    (views : List PassView) : Prop where
  rows : ∀ row, row ∈ request.predictions ↔
    row ∈ s₁.predictions.current (fun _ => true) ∧
      row.groundStationId = request.groundStationId ∧ request.after ≤ row.aosAt
  /-- No row is shown twice. -/
  once : (request.predictions.map PassPrediction.id).Nodup
  ordered : request.predictions.Pairwise fun first second => first.aosAt ≤ second.aosAt
  views : List.Forall₂ (Shows s₂) request.predictions views

/-! ## What the predictions refer to -/

section Invariant

variable [DecidableEq W] {sky : Skyfield} {settings : Settings}

/-- The table of predictions satisfies its constraints. -/
structure Sound (s : State W) : Prop where
  /-- The foreign key to `satellites`. -/
  satellites : ∀ version ∈ s.predictions.versions,
    ∃ satellite, s.satellite? version.row.satelliteId = some satellite
  /-- The primary key and the unique constraint. -/
  apart : s.predictions.KeepsApart PassPrediction.conflicts

/-- A new row names the satellite of its call, which is there. -/
theorem Sound.satellites_step {s s' : State W} {a : Action W} (hinv : Sound s)
    (heffect : StepEffect sky settings s a s') (hbacked : Backed s') :
    ∀ version ∈ s'.predictions.versions,
      ∃ satellite, s'.satellite? version.row.satelliteId = some satellite := by
  intro version hmem
  rcases version_of_effect heffect hmem with ⟨before, hbefore, hrow, -⟩ |
    ⟨worker, call, station, stations, predicted, hplace, -, hpair⟩
  · rw [← hrow]
    exact satellite?_of_effect heffect (hinv.satellites before hbefore)
  · have hsatellite : version.row.satelliteId = call.satelliteId := congrArg Prod.fst hpair
    rw [hsatellite]
    exact (hbacked.calls worker call _ hplace).satellite

theorem Sound.apart_step {h : History (State W) (Action W)} {s s' : State W} {a : Action W}
    (hinv : Sound s) (hcalls : CallsOk h s) (heffect : StepEffect sky settings s a s') :
    s'.predictions.KeepsApart PassPrediction.conflicts := by
  have hdrop : ∀ (outbox : Events.State W) worker next,
      (({ s with outbox := outbox } : State W).drop worker next).predictions.KeepsApart
        PassPrediction.conflicts := by
    intro outbox worker next
    rcases State.drop_predictions { s with outbox := outbox } worker next with
      hsame | ⟨tx, hopen, hsame⟩
    · rw [hsame]
      exact hinv.apart
    · rw [hsame]
      exact hinv.apart.rollback (hcalls.sessions.uncommitted worker tx hopen)
  cases heffect with
  | drop _ _ _ => exact hdrop _ _ _
  | raises _ _ _ _ => exact hdrop s.outbox _ _
  | deleteRow _ hdelete => exact hinv.apart.deleteAt hdelete
  | create _ _ hinsert => exact hinv.apart.insert hinsert
  | commit _ => exact hinv.apart.commit
  | _ => exact hinv.apart

/-- The run lemma. -/
theorem sound_of_run {h : History (State W) (Action W)} {s : State W}
    (hrun : (recomputation sky settings).Run h s) : Sound s := by
  apply hrun.invariant_of_step (I := fun _ s => Sound s)
  · intro s hinit
    have hempty : s.predictions.versions = [] := by rw [hinit.2.2.2.1]
    constructor
    · intro version hmem
      rw [hempty] at hmem
      cases hmem
    · rw [Store.KeepsApart, hempty]
      exact List.Pairwise.nil
  · intro h s a s' hprior hinv hstep
    have heffect := step_effect hstep
    exact ⟨hinv.satellites_step heffect (backed_of_run (hprior.extend hstep)),
      hinv.apart_step (callsOk_of_run hprior) heffect⟩

/-- A satellite is there ever after. -/
theorem satellite?_stays {start s : State W} {h : History (State W) (Action W)}
    (hrun : ((recomputation sky settings).startingIn start).Run h s) {id : Uuid}
    (hthere : ∃ satellite, start.satellite? id = some satellite) :
    ∃ satellite, s.satellite? id = some satellite := by
  apply hrun.invariant_of_step (I := fun _ s => ∃ satellite, s.satellite? id = some satellite)
  · rintro _ rfl
    exact hthere
  · exact fun _ _ _ _ _ hinv hstep => satellite?_of_effect (step_effect hstep) hinv

end Invariant

/-! ## The lookup -/

/-- The dictionary has the satellite that the table has. -/
theorem lookupSatellite_eq {s : State W} {satellites : List Satellite}
    (hread : satellites.Perm s.satellites.rows) (id : Uuid) :
    lookupSatellite satellites id = s.satellite? id := by
  have hids : (satellites.reverse.map Satellite.id).Nodup :=
    (((List.reverse_perm satellites).trans hread).map Satellite.id).nodup_iff.mpr s.satellites.ids
  let dictionary : Table Satellite.id := ⟨satellites.reverse, hids⟩
  let table : Table Satellite.id := ⟨s.satellites.rows, s.satellites.ids⟩
  rw [lookupSatellite, List.findRev?_eq_find?_reverse]
  show dictionary.find? id = table.find? id
  ext satellite
  rw [Table.find?_eq_some_iff, Table.find?_eq_some_iff, List.mem_reverse, hread.mem_iff]

/-- If every satellite is there, every prediction is shown. -/
theorem viewsOf_eq_ok {s : State W} {satellites : List Satellite}
    (hread : satellites.Perm s.satellites.rows) {predictions : List PassPrediction}
    (hthere : ∀ prediction ∈ predictions,
      ∃ satellite, s.satellite? prediction.satelliteId = some satellite) :
    ∃ views, viewsOf satellites predictions = .ok views ∧
      List.Forall₂ (Shows s) predictions views := by
  induction predictions with
  | nil => exact ⟨[], rfl, .nil⟩
  | cons prediction predictions ih =>
      obtain ⟨satellite, hsome⟩ := hthere prediction List.mem_cons_self
      obtain ⟨views, hviews, hshown⟩ :=
        ih fun other hmem => hthere other (List.mem_cons_of_mem prediction hmem)
      refine ⟨viewOf satellite prediction :: views, ?_,
        .cons ⟨satellite, hsome, viewOf_tellsOf satellite prediction⟩ hshown⟩
      rw [viewsOf, lookupSatellite_eq hread, hsome]
      dsimp only
      rw [hviews]

/-! ## Every interleaving -/

section Reads

variable [DecidableEq W] {sky : Skyfield} {settings : Settings} {s₀ s₁ s₂ : State W}
  {h h₁ h₂ : History (State W) (Action W)}

/-- **No unknown satellite.** Whatever is committed before, between and after the three reads
of a request, it is answered with the upcoming predictions of its station that were there at
the second read, each once, in order and with its satellite. Only a station that does not
exist is an error. -/
theorem passes_served (hrun : (recomputation sky settings).Run h s₀)
    (hpredictions : ((recomputation sky settings).startingIn s₀).Run h₁ s₁)
    (hsatellites : ((recomputation sky settings).startingIn s₁).Run h₂ s₂)
    {request : PassesRequest} (hsees : request.Sees s₀ s₁ s₂) :
    (request.station = none ∧ request.execute =
      .error (.notFound "GroundStation".toList request.groundStationId)) ∨
    ∃ views, request.execute = .ok views ∧ request.Serves s₁ s₂ views := by
  have hsound := sound_of_run (hrun.append hpredictions)
  cases hstation : request.station with
  | none => exact Or.inl ⟨rfl, by rw [PassesRequest.execute, hstation]⟩
  | some station =>
      have hthere : ∀ prediction ∈ request.predictions,
          ∃ satellite, s₂.satellite? prediction.satelliteId = some satellite := by
        intro prediction hmem
        have hcurrent := (hsees.predictions.mem_iff.mp hmem).1
        obtain ⟨version, hversion, rfl⟩ := List.mem_map.mp hcurrent
        exact satellite?_stays hsatellites
          (hsound.satellites version (List.mem_filter.mp hversion).1)
      obtain ⟨views, hviews, hshown⟩ := viewsOf_eq_ok hsees.satellites hthere
      have hexecute : request.execute = .ok views := by
        rw [PassesRequest.execute, hstation]
        exact hviews
      refine Or.inr ⟨views, hexecute, ?_, ?_, ?_, hshown⟩
      · intro row
        rw [hsees.predictions.mem_iff, isUpcoming, Bool.and_eq_true, decide_eq_true_iff,
          decide_eq_true_iff]
      · -- The primary key tells the rows apart.
        have hids : ((s₁.predictions.current fun _ => true).map PassPrediction.id).Nodup := by
          refine List.pairwise_map.mpr ((hsound.apart.current _).imp ?_)
          intro first second hapart hsame
          simp [PassPrediction.conflicts, hsame] at hapart
        exact ((hsees.predictions.perm.map _).nodup_iff).mpr
          (hids.sublist (List.filter_sublist.map _))
      · exact hsees.predictions.sorted

end Reads

/-- A satellite that is new. -/
def hubbleChange : Change where
  isNew := true
  satellite := ⟨2, 20580, "HST".toList, "1 20580U".toList, "2 20580".toList, 1704110400000000⟩
  eventId := 12

/-- The passes over Madrid are stored, and then another satellite comes. -/
def growingActions : List (Action (Fin 2)) :=
  [.register madrid, .refresh 0 8 [issChange]] ++ dispatchActions 0 [] (issChange.event 0 8) ++
    computeActions 0 ++ deleteActions 0 [] ++ storeActions 0 21 ++ [.refresh 0 8 [hubbleChange]]

/-- A request that reads the predictions before that and the satellites after it is answered
with the pass over Madrid. -/
theorem madrid_passes_served :
    ∃ h t request views, (recomputation (W := Fin 2) issSky {}).Run (t :: h) t.target ∧
      t.source.satellites.rows.length = 1 ∧ t.target.satellites.rows.length = 2 ∧
      PassesRequest.Sees request t.source t.source t.target ∧ request.execute = .ok views ∧
      views.length = 1 := by
  obtain ⟨h, s, hrun, hP⟩ := System.exists_run_of_play (idleCalls_init issSky {}) growingActions
    (fun p => match p.1 with
      | [] => false
      | t :: _ => decide (t.source.stations.find? madrid.id = some madrid ∧
          ((t.source.predictions.current fun _ => true).filter
            (isUpcoming madrid.id 0)).length = 1 ∧
          t.source.satellites.rows.length = 1 ∧ t.target.satellites.rows.length = 2))
    (by decide +kernel)
  cases h with
  | nil => cases hP
  | cons t h =>
      obtain ⟨hstation, hcount, hbefore, hafter⟩ := of_decide_eq_true hP
      obtain ⟨hprior, hstep, rfl⟩ := hrun.of_cons
      obtain ⟨predictions, hselect⟩ := exists_isSelection
        (t.source.predictions.current fun _ => true) (isUpcoming madrid.id 0)
      let request : PassesRequest :=
        ⟨madrid.id, 0, some madrid, predictions, t.target.satellites.rows⟩
      have hsees : request.Sees t.source t.source t.target :=
        ⟨hstation.symm, hselect, List.Perm.refl _⟩
      have hlater : ((recomputation issSky {}).startingIn t.source).Run [t] t.target :=
        (System.Run.start rfl).extend hstep
      rcases passes_served hprior (.start rfl) hlater hsees with ⟨hnone, -⟩ | hserved
      · cases hnone
      · obtain ⟨views, hviews, hserves⟩ := hserved
        refine ⟨h, t, request, views, hrun, hbefore, hafter, hsees, hviews, ?_⟩
        rw [← hserves.views.length_eq, ← hcount]
        exact hselect.perm.length_eq

end Apsis.Tracking
