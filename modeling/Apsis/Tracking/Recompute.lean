/-
# Outbox workers that recompute passes

The whole of what a change of TLE sets off. A committing `tle_refresh` publishes
a `tle.refreshed` event. A worker of the outbox that dispatches it calls
`recompute_passes`, which opens a session of its own, calls
`ComputePassesUseCase.execute` for every station, and commits. Whatever one
transaction does between two statements, the others may move.

`pass_predictions` is the only table that such calls write, and it is kept with
all its versions. `satellites` and `ground_stations` are there with their
committed rows, which is what a `SELECT` returns under READ COMMITTED. The session
keeps no reference to the satellite at the end of `execute`, so each call of
`execute` reads its row anew.

A worker that crashes or is cancelled loses both of its transactions. An
exception, a timeout of the handler included, ends the call without a commit, and
even after the commit a call may be reported as failed.
-/

import Apsis.Core.Events.Exclusive
import Apsis.Tracking.Tables

namespace Apsis.Tracking

open Apsis.Library Apsis.Core
open Apsis.Core.Events (OutboxEvent Attempt EventDispatcher HandlerFunc)

universe u

/-! ## The handler -/

/-- `recompute_passes` -/
def recomputePasses : HandlerFunc := ⟨0, "recompute_passes".toList⟩

/-- The dispatcher of the application. -/
def dispatcher : EventDispatcher :=
  EventDispatcher.register "tle.refreshed".toList EventDispatcher.empty recomputePasses

/-- `uuid.UUID(payload["satellite_id"])`; `none` if this raises. -/
def payloadSatellite (event : OutboxEvent) : Option Uuid :=
  match event.payload.lookup "satellite_id".toList with
  | some (.uuid id) => some id
  | _ => none

/-- The local variables of a call of `recompute_passes`. -/
structure Recompute where
  /-- The transaction of its session. -/
  tx : TxId
  satelliteId : Uuid
  window : Time × Time
  deriving DecidableEq

/-- The place of a call in `ComputePassesUseCase.execute`. -/
inductive Execution
  | /-- The satellite is read. -/
    located (satellite : Satellite)
  | /-- The station is read as well; next is `run_blocking`. -/
    computing (satellite : Satellite)
  | /-- The passes are computed. -/
    computed (predicted : List SatellitePass)
  | /-- The `DELETE` is being executed. -/
    deleting (snapshot : List TxId) (predicted : List SatellitePass)
  | /-- In the loop over the passes that are left. -/
    inserting (predicted : List SatellitePass)
  deriving DecidableEq

/-- The place of a call in `recompute_passes`. -/
inductive Place
  | /-- Before `list_all`. -/
    listing
  | /-- At the top of the loop over the stations that are left. -/
    looping (stations : List GroundStation)
  | /-- In `execute` for a station, with others left. -/
    executing (station : GroundStation) (stations : List GroundStation) (execution : Execution)
  deriving DecidableEq

/-- What a worker has to do with `recompute_passes`. -/
inductive Handler
  | idle
  | running (call : Recompute) (place : Place)
  | /-- The call has returned, or it has raised. -/
    ended (returned : Bool)
  deriving DecidableEq

/-- What a call does next. -/
inductive Statement
  | /-- `list_all`, which orders by name. -/
    listAll (order : List GroundStation)
  | /-- `satellite_repo.get_by_id`, at the top of `execute` -/
    getSatellite
  | /-- `ground_station_repo.get_by_id` -/
    getStation
  | /-- `compute_passes` -/
    compute
  | /-- `DELETE` takes its snapshot. -/
    beginDelete
  | /-- `DELETE` marks the row at this place. -/
    deleteRow (index : ℕ)
  | /-- `DELETE` ends. -/
    endDelete
  | /-- `pass_prediction_repo.create`, with the id that the database generates -/
    create (id : Uuid)
  | /-- `execute` returns. -/
    leave
  | /-- `session.commit()`, after the last station -/
    commit
  | /-- An exception ends the call. -/
    raises

/-! ## The system -/

/-- The shared state. -/
structure State (W : Type u) where
  outbox : Events.State W
  satellites : SatelliteTable
  stations : StationTable
  predictions : PredictionStore
  /-- The transactions from this one on are still to come. -/
  nextTx : TxId
  handler : W → Handler

/-- The actions of the system. -/
inductive Action (W : Type u)
  | /-- A step of the outbox. -/
    outbox (action : Events.Action W)
  | /-- A worker calls the handler. -/
    call (worker : W)
  | /-- The call of a worker goes on. -/
    recompute (worker : W) (statement : Statement)
  | /-- A `tle_refresh` commits. -/
    refresh (startedAt : Time) (maxRetries : ℤ) (changes : List Change)
  | /-- A `POST /ground-stations` commits. -/
    register (station : GroundStation)

variable {W : Type u}

/-- `get_by_id` -/
def State.satellite? (s : State W) (id : Uuid) : Option Satellite :=
  s.satellites.rows.find? fun row => decide (row.id = id)

/-- The outcomes of an attempt are those of the calls that were made. -/
def Answers (event : OutboxEvent) (handler : Handler) (calls : List Events.Call) : Prop :=
  calls.map Events.Call.handler = dispatcher event.eventType ∧
    ∀ call ∈ calls, Events.completed event.handlerState call.handler.name = false →
      handler = .ended true ∨ handler = .ended false ∧ call.outcome ≠ .returns

instance (event : OutboxEvent) (handler : Handler) (calls : List Events.Call) :
    Decidable (Answers event handler calls) :=
  inferInstanceAs (Decidable (_ ∧ _))

/-- The outbox may do this: refreshed TLEs are announced by refreshes only, and an
attempt ends with the calls that it has made. -/
def State.permits (s : State W) : Events.Action W → Bool
  | .publish _ _ _ eventType _ _ => decide (eventType ≠ "tle.refreshed".toList)
  | .run worker (.attempt attempt) =>
      match s.outbox.phase worker with
      | .dispatching _ event => decide (Answers event (s.handler worker) attempt.calls)
      | _ => false
  | _ => true

/-- The worker whose call is over with this action. -/
def endsCallOf : Events.Action W → Option W
  | .crash worker => some worker
  | .abort worker => some worker
  | .run worker (.attempt _) => some worker
  | _ => none

/-- The transaction that a handler has open. -/
def Handler.tx? : Handler → Option TxId
  | .running call _ => some call.tx
  | _ => none

/-- The transaction of a call that is given up is rolled back. -/
def State.rollback (s : State W) (handler : Handler) : State W :=
  match handler.tx? with
  | some tx => { s with predictions := s.predictions.rollback tx }
  | none => s

variable [DecidableEq W]

/-- The worker goes on with another handler. -/
def State.enter (s : State W) (worker : W) (handler : Handler) : State W :=
  { s with handler := Function.update s.handler worker handler }

/-- The call of the worker, if there is one, is over. -/
def State.drop (s : State W) (worker : W) (handler : Handler) : State W :=
  (s.rollback (s.handler worker)).enter worker handler

section Step

variable (sky : Skyfield) (settings : Settings)

/-- The next step of a call. -/
def recomputeStep (s : State W) (worker : W) (call : Recompute) :
    Place → Statement → Option (State W)
  | .listing, .listAll order =>
      if order.Perm s.stations.rows then
        some (s.enter worker (.running call (.looping order)))
      else none
  | .looping (station :: stations), .getSatellite =>
      match s.satellite? call.satelliteId with
      | none => some (s.drop worker (.ended false))
      | some satellite =>
          some (s.enter worker (.running call (.executing station stations (.located satellite))))
  | .executing station stations (.located satellite), .getStation =>
      if s.stations.find? station.id = none then some (s.drop worker (.ended false))
      else
        some (s.enter worker (.running call (.executing station stations (.computing satellite))))
  | .executing station stations (.computing satellite), .compute =>
      match computePasses sky satellite.tleLine1 satellite.tleLine2
          ⟨station.location.2, station.location.1, station.altitudeM⟩ call.window 10 24 with
      | .error _ => some (s.drop worker (.ended false))
      | .ok predicted =>
          some (s.enter worker (.running call (.executing station stations (.computed predicted))))
  | .executing station stations (.computed predicted), .beginDelete =>
      some (s.enter worker (.running call
        (.executing station stations (.deleting s.predictions.committed predicted))))
  | .executing station _ (.deleting snapshot _), .deleteRow index =>
      (s.predictions.deleteAt call.tx snapshot (isOf (call.satelliteId, station.id)) index).map
        fun predictions => { s with predictions := predictions }
  | .executing station stations (.deleting snapshot predicted), .endDelete =>
      if s.predictions.DeleteEnds call.tx snapshot (isOf (call.satelliteId, station.id)) then
        some (s.enter worker (.running call
          (.executing station stations (.inserting predicted))))
      else none
  | .executing station stations (.inserting (pass :: predicted)), .create id =>
      match linestringToWkb pass.groundTrack with
      | none => some (s.drop worker (.ended false))
      | some track =>
          match s.predictions.insert call.tx PassPrediction.conflicts
              (predictionOf id (call.satelliteId, station.id) pass track) with
          | .waits => none
          | .refused => some (s.drop worker (.ended false))
          | .inserted predictions =>
              some (({ s with predictions := predictions } : State W).enter worker
                (.running call (.executing station stations (.inserting predicted))))
  | .executing _ stations (.inserting []), .leave =>
      some (s.enter worker (.running call (.looping stations)))
  | .looping [], .commit =>
      some (({ s with predictions := s.predictions.commit call.tx } : State W).enter worker
        (.ended true))
  | _, .raises => some (s.drop worker (.ended false))
  | _, _ => none

/-- A worker that has dispatched an event calls the handler. -/
def callStep (s : State W) (worker : W) : Events.Phase → Option (State W)
  | .dispatching _ event =>
      if event.eventType = "tle.refreshed".toList ∧
          Events.completed event.handlerState recomputePasses.name = false ∧
          s.handler worker = .idle then
        match payloadSatellite event with
        | none => some (s.enter worker (.ended false))
        | some satelliteId =>
            let now := s.outbox.clock
            let window := (now, now + timedelta (settings.passPredictionHorizonHours * 3600))
            some (({ s with nextTx := s.nextTx + 1 } : State W).enter worker
              (.running ⟨s.nextTx, satelliteId, window⟩ .listing))
      else none
  | _ => none

/-- One step of the system. -/
def step (s : State W) : Action W → Option (State W)
  | .outbox action =>
      if s.permits action then
        (Events.step s.outbox action).map fun outbox =>
          match endsCallOf action with
          | some worker => ({ s with outbox := outbox } : State W).drop worker .idle
          | none => { s with outbox := outbox }
      else none
  | .call worker => callStep settings s worker (s.outbox.phase worker)
  | .recompute worker statement =>
      match s.handler worker with
      | .running call place => recomputeStep sky s worker call place statement
      | _ => none
  | .refresh startedAt maxRetries changes =>
      if startedAt ≤ s.outbox.clock then
        (commitChanges startedAt maxRetries changes ⟨s.satellites, s.outbox.events⟩).map
          fun db =>
            { s with satellites := db.satellites, outbox := { s.outbox with events := db.events } }
      else none
  | .register station =>
      (registerStation station s.stations).map fun stations => { s with stations := stations }

/-- The workers start out stopped over empty tables. -/
def recomputation : System (State W) (Action W) where
  init s := Events.outbox.init s.outbox ∧ s.satellites.rows = [] ∧ s.stations.rows = [] ∧
    s.predictions = ⟨[], []⟩ ∧ ∀ worker, s.handler worker = .idle
  step := step sky settings

/-- However a `tle_refresh` ends, what it leaves of the committed tables is what a step of the
system leaves of them. -/
theorem exists_refresh_of_tleRefresh {tleEpoch : Text → Text → Option Time} {env : IngestEnv}
    {s : State W} (hstarted : env.startedAt ≤ s.outbox.clock)
    (fetched : Except Celestrak.CelestrakError (List Celestrak.TleRecord)) :
    let db := (tleRefresh tleEpoch env ⟨s.satellites, s.outbox.events⟩ fetched).1
    ∃ changes, step sky settings s (.refresh env.startedAt env.maxRetries changes) =
      some { s with
        satellites := db.satellites
        outbox := { s.outbox with events := db.events } } := by
  intro db
  obtain ⟨changes, hchanges⟩ : ∃ changes, commitChanges env.startedAt env.maxRetries changes
      ⟨s.satellites, s.outbox.events⟩ = some db := by
    simp only [db, tleRefresh]
    split
    · exact ⟨[], rfl⟩
    · exact ⟨[], rfl⟩
    · next progress hrun =>
        split
        · exact ⟨[], rfl⟩
        · cases fetched with
          | error error => cases hrun
          | ok feed => exact exists_changes_of_execute hrun
  refine ⟨changes, ?_⟩
  simp only [step]
  rw [if_pos hstarted, hchanges]
  rfl

end Step

section Projections

variable (s : State W) (worker : W) (handler : Handler)

@[simp] theorem State.enter_outbox : (s.enter worker handler).outbox = s.outbox := rfl
@[simp] theorem State.enter_satellites : (s.enter worker handler).satellites = s.satellites := rfl
@[simp] theorem State.enter_stations : (s.enter worker handler).stations = s.stations := rfl

@[simp]
theorem State.enter_predictions : (s.enter worker handler).predictions = s.predictions := rfl

@[simp] theorem State.enter_nextTx : (s.enter worker handler).nextTx = s.nextTx := rfl

@[simp]
theorem State.enter_handler_self : (s.enter worker handler).handler worker = handler := by
  simp [enter]

@[simp]
theorem State.enter_handler_of_ne {other : W} (hne : other ≠ worker) :
    (s.enter worker handler).handler other = s.handler other := by
  simp [enter, hne]

theorem State.drop_of_tx {tx : TxId} (htx : (s.handler worker).tx? = some tx) :
    s.drop worker handler =
      ({ s with predictions := s.predictions.rollback tx } : State W).enter worker handler := by
  rw [drop, rollback, htx]

theorem State.drop_of_none (hnone : (s.handler worker).tx? = none) :
    s.drop worker handler = s.enter worker handler := by
  rw [drop, rollback, hnone]

@[simp]
theorem State.drop_outbox : (s.drop worker handler).outbox = s.outbox := by
  unfold drop rollback
  split <;> rfl

@[simp]
theorem State.drop_satellites : (s.drop worker handler).satellites = s.satellites := by
  unfold drop rollback
  split <;> rfl

@[simp]
theorem State.drop_stations : (s.drop worker handler).stations = s.stations := by
  unfold drop rollback
  split <;> rfl

@[simp]
theorem State.drop_nextTx : (s.drop worker handler).nextTx = s.nextTx := by
  unfold drop rollback
  split <;> rfl

@[simp]
theorem State.drop_handler :
    (s.drop worker handler).handler = Function.update s.handler worker handler := by
  unfold drop rollback
  split <;> rfl

/-- What is left of the predictions when a call is dropped. -/
theorem State.drop_predictions : (s.drop worker handler).predictions = s.predictions ∨
    ∃ tx, (s.handler worker).tx? = some tx ∧
      (s.drop worker handler).predictions = s.predictions.rollback tx := by
  cases htx : (s.handler worker).tx? with
  | none =>
      rw [State.drop_of_none _ _ _ htx]
      exact Or.inl rfl
  | some tx =>
      rw [State.drop_of_tx _ _ _ htx]
      exact Or.inr ⟨tx, rfl, rfl⟩

end Projections

/-! ## What a step does -/

/-- The effect of a step, by kind. -/
inductive StepEffect (sky : Skyfield) (settings : Settings) (s : State W) :
    Action W → State W → Prop
  | /-- The outbox takes a step that ends no call. -/
    outbox {action : Events.Action W} {outbox : Events.State W} (hpermits : s.permits action = true)
      (hstep : Events.step s.outbox action = some outbox) (hends : endsCallOf action = none) :
      StepEffect sky settings s (.outbox action) { s with outbox := outbox }
  | /-- The outbox takes a step with which the call of a worker is over. -/
    drop {action : Events.Action W} {outbox : Events.State W} {worker : W}
      (hpermits : s.permits action = true) (hstep : Events.step s.outbox action = some outbox)
      (hends : endsCallOf action = some worker) :
      StepEffect sky settings s (.outbox action)
        (({ s with outbox := outbox } : State W).drop worker .idle)
  | /-- The payload cannot be read. -/
    unreadable {worker : W} (hidle : s.handler worker = .idle) :
      StepEffect sky settings s (.call worker) (s.enter worker (.ended false))
  | /-- A call begins. -/
    call {worker : W} {rounds : ℕ} {event : OutboxEvent} {satelliteId : Uuid}
      {window : Time × Time} (hphase : s.outbox.phase worker = .dispatching rounds event)
      (htype : event.eventType = "tle.refreshed".toList)
      (hpayload : payloadSatellite event = some satelliteId) (hidle : s.handler worker = .idle) :
      StepEffect sky settings s (.call worker)
        (({ s with nextTx := s.nextTx + 1 } : State W).enter worker
          (.running ⟨s.nextTx, satelliteId, window⟩ .listing))
  | /-- An exception ends a call. -/
    raises {worker : W} {call : Recompute} {place : Place} {statement : Statement}
      (hplace : s.handler worker = .running call place)
      (hdelete : statement ≠ .endDelete) (hcommit : statement ≠ .commit)
      (hread : statement = .getSatellite → s.satellite? call.satelliteId = none) :
      StepEffect sky settings s (.recompute worker statement) (s.drop worker (.ended false))
  | listAll {worker : W} {call : Recompute} {order : List GroundStation}
      (hplace : s.handler worker = .running call .listing)
      (horder : order.Perm s.stations.rows) :
      StepEffect sky settings s (.recompute worker (.listAll order))
        (s.enter worker (.running call (.looping order)))
  | getSatellite {worker : W} {call : Recompute} {station : GroundStation}
      {stations : List GroundStation} {satellite : Satellite}
      (hplace : s.handler worker = .running call (.looping (station :: stations)))
      (hfind : s.satellite? call.satelliteId = some satellite) :
      StepEffect sky settings s (.recompute worker .getSatellite)
        (s.enter worker (.running call (.executing station stations (.located satellite))))
  | getStation {worker : W} {call : Recompute} {station : GroundStation}
      {stations : List GroundStation} {satellite : Satellite}
      (hplace : s.handler worker = .running call (.executing station stations
        (.located satellite))) :
      StepEffect sky settings s (.recompute worker .getStation)
        (s.enter worker (.running call (.executing station stations (.computing satellite))))
  | compute {worker : W} {call : Recompute} {station : GroundStation}
      {stations : List GroundStation} {satellite : Satellite} {predicted : List SatellitePass}
      (hplace : s.handler worker = .running call (.executing station stations
        (.computing satellite)))
      (hcompute : computePasses sky satellite.tleLine1 satellite.tleLine2
        ⟨station.location.2, station.location.1, station.altitudeM⟩ call.window 10 24 =
          .ok predicted) :
      StepEffect sky settings s (.recompute worker .compute)
        (s.enter worker (.running call (.executing station stations (.computed predicted))))
  | beginDelete {worker : W} {call : Recompute} {station : GroundStation}
      {stations : List GroundStation} {predicted : List SatellitePass}
      (hplace : s.handler worker = .running call (.executing station stations
        (.computed predicted))) :
      StepEffect sky settings s (.recompute worker .beginDelete)
        (s.enter worker (.running call (.executing station stations
          (.deleting s.predictions.committed predicted))))
  | deleteRow {worker : W} {call : Recompute} {station : GroundStation}
      {stations : List GroundStation} {snapshot : List TxId} {predicted : List SatellitePass}
      {index : ℕ} {predictions : PredictionStore}
      (hplace : s.handler worker = .running call (.executing station stations
        (.deleting snapshot predicted)))
      (hdelete : s.predictions.deleteAt call.tx snapshot (isOf (call.satelliteId, station.id))
        index = some predictions) :
      StepEffect sky settings s (.recompute worker (.deleteRow index))
        { s with predictions := predictions }
  | endDelete {worker : W} {call : Recompute} {station : GroundStation}
      {stations : List GroundStation} {snapshot : List TxId} {predicted : List SatellitePass}
      (hplace : s.handler worker = .running call (.executing station stations
        (.deleting snapshot predicted)))
      (hends : s.predictions.DeleteEnds call.tx snapshot (isOf (call.satelliteId, station.id))) :
      StepEffect sky settings s (.recompute worker .endDelete)
        (s.enter worker (.running call (.executing station stations (.inserting predicted))))
  | create {worker : W} {call : Recompute} {station : GroundStation}
      {stations : List GroundStation} {pass : SatellitePass} {predicted : List SatellitePass}
      {id : Uuid} {track : List (ℚ × ℚ)} {predictions : PredictionStore}
      (hplace : s.handler worker = .running call (.executing station stations
        (.inserting (pass :: predicted))))
      (htrack : linestringToWkb pass.groundTrack = some track)
      (hinsert : s.predictions.insert call.tx PassPrediction.conflicts
        (predictionOf id (call.satelliteId, station.id) pass track) = .inserted predictions) :
      StepEffect sky settings s (.recompute worker (.create id))
        (({ s with predictions := predictions } : State W).enter worker
          (.running call (.executing station stations (.inserting predicted))))
  | leave {worker : W} {call : Recompute} {station : GroundStation}
      {stations : List GroundStation}
      (hplace : s.handler worker = .running call (.executing station stations (.inserting []))) :
      StepEffect sky settings s (.recompute worker .leave)
        (s.enter worker (.running call (.looping stations)))
  | commit {worker : W} {call : Recompute}
      (hplace : s.handler worker = .running call (.looping [])) :
      StepEffect sky settings s (.recompute worker .commit)
        (({ s with predictions := s.predictions.commit call.tx } : State W).enter worker
          (.ended true))
  | refresh {startedAt : Time} {maxRetries : ℤ} {changes : List Change} {db : Database}
      (hstarted : startedAt ≤ s.outbox.clock)
      (hcommit : commitChanges startedAt maxRetries changes ⟨s.satellites, s.outbox.events⟩ =
        some db) :
      StepEffect sky settings s (.refresh startedAt maxRetries changes)
        { s with satellites := db.satellites, outbox := { s.outbox with events := db.events } }
  | register {station : GroundStation} {stations : StationTable}
      (hregister : registerStation station s.stations = some stations) :
      StepEffect sky settings s (.register station) { s with stations := stations }

variable {sky : Skyfield} {settings : Settings}

theorem recomputeStep_effect {s s' : State W} {worker : W} {call : Recompute} {place : Place}
    {statement : Statement} (hplace : s.handler worker = .running call place)
    (h : recomputeStep sky s worker call place statement = some s') :
    StepEffect sky settings s (.recompute worker statement) s' := by
  unfold recomputeStep at h
  split at h
  · split at h <;> cases h
    next horder => exact .listAll hplace horder
  · split at h <;> cases h
    · next hnone => exact .raises hplace nofun nofun fun _ => hnone
    · next hfind => exact .getSatellite hplace hfind
  · split at h <;> cases h
    · exact .raises hplace nofun nofun nofun
    · exact .getStation hplace
  · split at h <;> cases h
    · exact .raises hplace nofun nofun nofun
    · next hcompute => exact .compute hplace hcompute
  · cases h
    exact .beginDelete hplace
  · obtain ⟨predictions, hdelete, rfl⟩ := Option.map_eq_some_iff.mp h
    exact .deleteRow hplace hdelete
  · split at h <;> cases h
    next hends => exact .endDelete hplace hends
  · split at h
    · cases h
      exact .raises hplace nofun nofun nofun
    · next htrack =>
        split at h <;> cases h
        · exact .raises hplace nofun nofun nofun
        · next hinsert => exact .create hplace htrack hinsert
  · cases h
    exact .leave hplace
  · cases h
    exact .commit hplace
  · cases h
    exact .raises hplace nofun nofun nofun
  · cases h

theorem step_effect {s s' : State W} {a : Action W} (h : step sky settings s a = some s') :
    StepEffect sky settings s a s' := by
  cases a with
  | outbox action =>
      simp only [step, Option.ite_none_right_eq_some, Option.map_eq_some_iff] at h
      obtain ⟨hpermits, outbox, hstep, rfl⟩ := h
      split
      · next worker hends => exact .drop hpermits hstep hends
      · next hends => exact .outbox hpermits hstep hends
  | call worker =>
      simp only [step] at h
      unfold callStep at h
      split at h
      · next rounds event hphase =>
          simp only [Option.ite_none_right_eq_some] at h
          obtain ⟨⟨htype, -, hidle⟩, h⟩ := h
          split at h <;> cases h
          · exact .unreadable hidle
          · next hpayload => exact .call hphase htype hpayload hidle
      · cases h
  | recompute worker statement =>
      simp only [step] at h
      split at h
      · next hplace => exact recomputeStep_effect hplace h
      · cases h
  | refresh startedAt maxRetries changes =>
      simp only [step, Option.ite_none_right_eq_some, Option.map_eq_some_iff] at h
      obtain ⟨hstarted, db, hcommit, rfl⟩ := h
      exact .refresh hstarted hcommit
  | register station =>
      simp only [step, Option.map_eq_some_iff] at h
      obtain ⟨stations, hregister, rfl⟩ := h
      exact .register hregister

/-! ## The outbox underneath -/

/-- The publication of a change's event, as an action of the outbox. -/
def Change.publication (startedAt : Time) (maxRetries : ℤ) (change : Change) : Events.Action W :=
  .publish change.eventId maxRetries startedAt "tle.refreshed".toList
    (refreshedPayload change.satellite.id change.satellite.noradId) (some change.satellite.id)

/-- Committing changes is a sequence of publications to the outbox. -/
theorem run_commitChanges {M : System (Events.State W) (Events.Action W)}
    (hM : M.step = Events.step) {startedAt : Time} {maxRetries : ℤ} {changes : List Change}
    {db db' : Database} (hcommit : commitChanges startedAt maxRetries changes db = some db')
    {h : History (Events.State W) (Events.Action W)} {outbox : Events.State W}
    (hrun : M.Run h outbox) (hevents : outbox.events = db.events)
    (hstarted : startedAt ≤ outbox.clock) :
    ∃ h', M.Run h' { outbox with events := db'.events } := by
  induction changes generalizing db h outbox with
  | nil =>
      cases hcommit
      rw [← hevents]
      exact ⟨h, hrun⟩
  | cons change changes ih =>
      unfold commitChanges at hcommit
      split at hcommit
      · next satellites events hwrite hinsert =>
          have hstep : M.step outbox (change.publication startedAt maxRetries) =
              some { outbox with events := events } := by
            rw [hM]
            simp only [Change.publication, Events.step, if_pos hstarted, hevents]
            exact congrArg (Option.map _) hinsert
          have hrest := ih hcommit (hrun.extend hstep) rfl hstarted
          exact hrest
      · cases hcommit

/-- **The outbox is not disturbed.** What the outbox does in a run of the system is
a run of the outbox. -/
theorem outbox_run {h : History (State W) (Action W)} {s : State W}
    (hrun : (recomputation sky settings).Run h s) : ∃ h', Events.outbox.Run h' s.outbox := by
  refine hrun.invariant_of_step (I := fun _ s => ∃ h', Events.outbox.Run h' s.outbox) ?_ ?_
  · intro s hinit
    exact ⟨[], .start hinit.1⟩
  · rintro h s a s' - ⟨h', hprior⟩ htaken
    cases step_effect htaken with
    | outbox _ hstep _ => exact ⟨_, hprior.extend hstep⟩
    | drop _ hstep _ =>
        rw [State.drop_outbox]
        exact ⟨_, hprior.extend hstep⟩
    | refresh hstarted hcommit => exact run_commitChanges rfl hcommit hprior rfl hstarted
    | raises _ _ _ _ =>
        rw [State.drop_outbox]
        exact ⟨h', hprior⟩
    | _ => exact ⟨h', hprior⟩

/-- Every worker with an event holds it, whatever the calls do. -/
theorem locksHeld_of_effect {s s' : State W} {a : Action W}
    (hlocks : Events.LocksHeld s.outbox) (heffect : StepEffect sky settings s a s') :
    Events.LocksHeld s'.outbox := by
  cases heffect with
  | outbox _ hstep _ => exact Events.locksHeld_step hlocks hstep
  | drop _ hstep _ =>
      rw [State.drop_outbox]
      exact Events.locksHeld_step hlocks hstep
  | refresh hstarted hcommit =>
      obtain ⟨h', hrun⟩ := run_commitChanges (M := Events.outbox.startingIn s.outbox) rfl hcommit
        (.start rfl) rfl hstarted
      apply hrun.invariant_of_step (I := fun _ outbox => Events.LocksHeld outbox)
      · rintro _ rfl
        exact hlocks
      · exact fun _ _ _ _ _ hinv hstep => Events.locksHeld_step hinv hstep
  | raises _ _ _ _ =>
      rw [State.drop_outbox]
      exact hlocks
  | _ => exact hlocks

/-- An event that announces a refresh was there before, or a worker that holds it has
committed an attempt of it, or a refresh has just published it with its satellite. -/
theorem refreshed_of_effect {s s' : State W} {a : Action W} (hlocks : Events.LocksHeld s.outbox)
    (heffect : StepEffect sky settings s a s') {event : OutboxEvent}
    (hmem : event ∈ s'.outbox.events.rows) (htype : event.eventType = "tle.refreshed".toList) :
    event ∈ s.outbox.events.rows ∨
    (∃ worker before attempt, Events.Holds s.outbox worker before ∧
      Events.Handled before attempt event) ∨
    ∃ startedAt maxRetries changes, a = .refresh startedAt maxRetries changes ∧
      ∃ change ∈ changes, event = change.event startedAt maxRetries ∧
        s'.satellite? change.satellite.id ≠ none := by
  have hstepped : ∀ action outbox, s.permits action = true →
      Events.step s.outbox action = some outbox → event ∈ outbox.events.rows →
        event ∈ s.outbox.events.rows ∨ ∃ worker before attempt,
          Events.Holds s.outbox worker before ∧ Events.Handled before attempt event := by
    intro action outbox hpermits hstep hmem
    rcases Events.row_of_step hlocks hstep hmem with hbefore | hpublished |
      ⟨worker, before, -, hcommit⟩
    · exact Or.inl hbefore
    · cases action with
      | publish _ _ _ eventType _ _ =>
          cases hpublished
          exact absurd htype (of_decide_eq_true hpermits)
      | _ => cases hpublished
    · obtain ⟨attempt, hhandle⟩ := hlocks.handled worker before event hcommit
      have hholds := hlocks.held worker before (Events.Phase.event?_of_commit? hcommit)
      exact Or.inr ⟨worker, before, attempt, hholds, Events.handleEvent_eq_ok.mp hhandle⟩
  cases heffect with
  | outbox hpermits hstep _ => exact (hstepped _ _ hpermits hstep hmem).imp_right Or.inl
  | drop hpermits hstep _ =>
      rw [State.drop_outbox] at hmem
      exact (hstepped _ _ hpermits hstep hmem).imp_right Or.inl
  | refresh _ hcommit =>
      refine (mem_commitChanges hcommit hmem).imp_right ?_
      exact fun hpublished => Or.inr ⟨_, _, _, rfl, hpublished⟩
  | raises _ _ _ _ =>
      rw [State.drop_outbox] at hmem
      exact Or.inl hmem
  | _ => exact Or.inl hmem

/-- The handler is called for an event that announces a refresh and does not have it
completed. -/
theorem dispatching_of_call {s s' : State W} {worker : W}
    (htaken : step sky settings s (.call worker) = some s') :
    ∃ rounds event, s.outbox.phase worker = .dispatching rounds event ∧
      event.eventType = "tle.refreshed".toList ∧
        Events.completed event.handlerState recomputePasses.name = false := by
  simp only [step] at htaken
  unfold callStep at htaken
  split at htaken
  · next rounds event hphase =>
      rw [Option.ite_none_right_eq_some] at htaken
      exact ⟨rounds, event, hphase, htaken.1.1, htaken.1.2.1⟩
  · cases htaken

/-- A call begins on behalf of a row that calls for the handler. -/
theorem row_of_call {s s' : State W} {worker : W} (hlocks : Events.LocksHeld s.outbox)
    (htaken : step sky settings s (.call worker) = some s') {call : Recompute} {place : Place}
    (hplace : s'.handler worker = .running call place) :
    ∃ event ∈ s.outbox.events.rows, event.eventType = "tle.refreshed".toList ∧
      event.status = .pending ∧
        Events.completed event.handlerState recomputePasses.name = false ∧
          payloadSatellite event = some call.satelliteId := by
  obtain ⟨rounds, event, hphase, htype, hincomplete⟩ := dispatching_of_call htaken
  have hholds := hlocks.held worker event (by rw [hphase]; rfl)
  refine ⟨event, ((Table.find?_eq_some_iff _).mp hholds.row).1, htype, hholds.pending,
    hincomplete, ?_⟩
  cases step_effect htaken with
  | unreadable _ =>
      rw [State.enter_handler_self] at hplace
      cases hplace
  | call hphase' _ hpayload _ =>
      rw [hphase] at hphase'
      cases hphase'
      rw [State.enter_handler_self] at hplace
      cases hplace
      exact hpayload

/-! ## Tables at rest -/

/-- Nobody is at work, and the tables are what has been committed. -/
structure AtRest (s : State W) : Prop where
  locks : ∀ id, s.outbox.locks id = none
  phases : ∀ worker, s.outbox.phase worker = .stopped
  handlers : ∀ worker, s.handler worker = .idle
  rows : ∀ version ∈ s.predictions.versions,
    version.insertedBy ∈ s.predictions.committed ∧ version.deletedBy = none
  numbered : ∀ tx ∈ s.predictions.committed, tx < s.nextTx

omit [DecidableEq W] in
theorem AtRest.locksHeld {s : State W} (hrest : AtRest s) : Events.LocksHeld s.outbox :=
  Events.locksHeld_of_stopped hrest.locks hrest.phases

theorem atRest_of_init {s : State W} (hinit : (recomputation sky settings).init s) : AtRest s := by
  obtain ⟨⟨-, hfree, hstopped⟩, -, -, hempty, hidle⟩ := hinit
  constructor
  · exact hfree
  · exact hstopped
  · exact hidle
  · rw [hempty]
    intro version hmem
    cases hmem
  · rw [hempty]
    intro tx hmem
    cases hmem

/-- The transition appends the row of a station or leaves the stations alone. -/
theorem stations_of_effect {s s' : State W} {a : Action W}
    (heffect : StepEffect sky settings s a s') {id : Uuid} {station : GroundStation}
    (hfind : s.stations.find? id = some station) : s'.stations.find? id = some station := by
  cases heffect with
  | @register registered _ hregister =>
      unfold registerStation at hregister
      split at hregister
      · cases hregister
      · rw [Table.find?_of_insert? hregister, if_neg, hfind]
        rintro rfl
        rw [(Table.insert?_eq_some hregister).1] at hfind
        cases hfind
  | drop _ _ _ | raises _ _ _ _ =>
      rw [State.drop_stations]
      exact hfind
  | _ => exact hfind

end Apsis.Tracking
