/-
# The tables of the tracking module

Stations, predictions, and what a committing `tle_refresh` brings into
`satellites` and `outbox_events`: a list of changes, each a row together with the
event that announces it. Two refreshes may overlap, and then the row that an
`UPDATE` leaves need not be the one that a refresh on its own would have left. A
change can therefore bring any content; only that it comes with its event is
fixed.
-/

import Apsis.Library.ReadCommitted
import Apsis.Tracking.Ingest
import Apsis.Tracking.Passes
import Mathlib.Data.List.Sort

namespace Apsis.Tracking

open Apsis.Library Apsis.Core
open Apsis.Core.Events (OutboxEvent)

/-! ## Stations and predictions -/

/-- A row of `ground_stations`; the location is `(lon, lat)`. -/
structure GroundStation where
  id : Uuid
  name : Text
  location : ℚ × ℚ
  altitudeM : ℚ
  deriving DecidableEq

/-- The table of stations. -/
abbrev StationTable := Table GroundStation.id

/-- The commit of a registered station, whose name is unique. -/
def registerStation (station : GroundStation) (stations : StationTable) : Option StationTable :=
  if station.name ∈ stations.rows.map GroundStation.name then none else stations.insert? station

/-- A row of `pass_predictions`. -/
structure PassPrediction where
  id : Uuid
  satelliteId : Uuid
  groundStationId : Uuid
  aosAt : Time
  losAt : Time
  peakAt : Time
  peakElevationDeg : ℚ
  track : List (ℚ × ℚ)
  deriving DecidableEq

/-- A satellite and a station, by their ids. -/
abbrev Pair := Uuid × Uuid

/-- The pair of a prediction. -/
def PassPrediction.pair (row : PassPrediction) : Pair := (row.satelliteId, row.groundStationId)

/-- The pass that a prediction stores. -/
def PassPrediction.pass (row : PassPrediction) : SatellitePass where
  aosAt := row.aosAt
  losAt := row.losAt
  peakAt := row.peakAt
  peakElevationDeg := row.peakElevationDeg
  groundTrack := row.track

/-- The interval of a prediction. -/
def PassPrediction.interval (row : PassPrediction) : Time × Time := (row.aosAt, row.losAt)

/-- The `WHERE` of `delete_for_satellite_and_station`. -/
def isOf (pair : Pair) (row : PassPrediction) : Bool := decide (row.pair = pair)

/-- The primary key and `uq_pass_predictions_sat_station_aos`. -/
def PassPrediction.conflicts (first second : PassPrediction) : Bool :=
  decide (first.id = second.id) ||
    (decide (first.pair = second.pair) && decide (first.aosAt = second.aosAt))

/-- A transaction of `recompute_passes`. -/
abbrev TxId := ℕ

/-- The table of predictions. -/
abbrev PredictionStore := Store PassPrediction TxId

/-- `linestring_to_wkb`; `none` is the `ValueError`. -/
def linestringToWkb (points : List (ℚ × ℚ)) : Option (List (ℚ × ℚ)) :=
  if points.length < 2 then none else some points

/-- The row that `execute` creates for a pass. -/
def predictionOf (id : Uuid) (pair : Pair) (pass : SatellitePass) (track : List (ℚ × ℚ)) :
    PassPrediction where
  id := id
  satelliteId := pair.1
  groundStationId := pair.2
  aosAt := pass.aosAt
  losAt := pass.losAt
  peakAt := pass.peakAt
  peakElevationDeg := pass.peakElevationDeg
  track := track

/-- The geometry keeps the points, so the row stores the pass. -/
theorem pass_predictionOf {id : Uuid} {pair : Pair} {pass : SatellitePass} {track : List (ℚ × ℚ)}
    (htrack : linestringToWkb pass.groundTrack = some track) :
    (predictionOf id pair pass track).pass = pass := by
  unfold linestringToWkb at htrack
  split at htrack <;> cases htrack
  rfl

/-- What a `select` of the predictions that meet a condition, ordered by `aos_at`, may
return. Rows with the same `aos_at` come in any order. -/
structure IsSelection (rows : List PassPrediction) (p : PassPrediction → Bool)
    (answer : List PassPrediction) : Prop where
  perm : answer.Perm (rows.filter p)
  sorted : answer.Pairwise fun first second => first.aosAt ≤ second.aosAt

theorem IsSelection.mem_iff {rows answer : List PassPrediction} {p : PassPrediction → Bool}
    (h : IsSelection rows p answer) {row : PassPrediction} :
    row ∈ answer ↔ row ∈ rows ∧ p row = true := by
  rw [h.perm.mem_iff, List.mem_filter]

theorem exists_isSelection (rows : List PassPrediction) (p : PassPrediction → Bool) :
    ∃ answer, IsSelection rows p answer :=
  ⟨(rows.filter p).insertionSort (Order.Preimage PassPrediction.aosAt (· ≤ ·)),
    List.perm_insertionSort _ _, List.pairwise_insertionSort _ _⟩

/-! ## What a refresh commits -/

/-- A satellite that a `tle_refresh` has created or updated: the row as it wrote
it, and the event that it published with it. -/
structure Change where
  isNew : Bool
  satellite : Satellite
  eventId : Uuid

/-- The event of a change. -/
def Change.event (startedAt : Time) (maxRetries : ℤ) (change : Change) : OutboxEvent :=
  Events.publish change.eventId maxRetries startedAt "tle.refreshed".toList
    (refreshedPayload change.satellite.id change.satellite.noradId) (some change.satellite.id)

/-- The row of a change gets into the table. -/
def Change.write (change : Change) (satellites : SatelliteTable) : Option SatelliteTable :=
  if change.isNew then satellites.create change.satellite
  else
    match satellites.find? change.satellite.noradId with
    | none => none
    | some existing =>
        if existing.id = change.satellite.id then
          some (satellites.update change.satellite.id change.satellite.name
            change.satellite.tleLine1 change.satellite.tleLine2 change.satellite.epoch)
        else none

/-- The commit of the changes, one after the other. -/
def commitChanges (startedAt : Time) (maxRetries : ℤ) : List Change → Database → Option Database
  | [], db => some db
  | change :: changes, db =>
      match change.write db.satellites, db.events.insert? (change.event startedAt maxRetries) with
      | some satellites, some events =>
          commitChanges startedAt maxRetries changes ⟨satellites, events⟩
      | _, _ => none

/-- `SatelliteRepo.get_by_id` -/
def SatelliteTable.getById (satellites : SatelliteTable) (id : Uuid) : Option Satellite :=
  satellites.rows.find? fun row => decide (row.id = id)

/-- The row that a change announces is the one that it leaves. -/
theorem getById_of_write {change : Change} {satellites satellites' : SatelliteTable}
    (hwrite : change.write satellites = some satellites') (id : Uuid) :
    satellites'.getById id =
      if change.satellite.id = id then some change.satellite else satellites.getById id := by
  unfold Change.write at hwrite
  split at hwrite
  · -- A new row has a new id.
    obtain ⟨hfresh, -, hrows⟩ := SatelliteTable.rows_of_create hwrite
    rw [SatelliteTable.getById, hrows, List.find?_append]
    by_cases hid : change.satellite.id = id
    · have hnone : satellites.rows.find? (fun row => decide (row.id = id)) = none := by
        simp only [List.find?_eq_none, decide_eq_true_eq]
        intro row hmem hrow
        apply hfresh
        rw [hid, ← hrow]
        exact List.mem_map_of_mem hmem
      rw [hnone]
      simp [hid]
    · simp [hid, SatelliteTable.getById]
  · split at hwrite
    · cases hwrite
    next existing hfind =>
    split at hwrite <;> cases hwrite
    next hexisting =>
    obtain ⟨hmem, hnorad⟩ := (Table.find?_eq_some_iff _).mp hfind
    have hrow : existing.refreshed change.satellite.name change.satellite.tleLine1
        change.satellite.tleLine2 change.satellite.epoch = change.satellite := by
      rw [Satellite.refreshed, hexisting, hnorad]
    have hfound : satellites.rows.find? (fun row => decide (row.id = change.satellite.id)) =
        some existing := by
      rw [← hexisting]
      exact Table.find?_key (t := ⟨satellites.rows, satellites.ids⟩) hmem
    have hsame : ((fun row => decide (row.id = id)) ∘ fun row =>
        if decide (row.id = change.satellite.id) = true then
          Satellite.refreshed change.satellite.name change.satellite.tleLine1
            change.satellite.tleLine2 change.satellite.epoch row
        else row) = fun row => decide (row.id = id) := by
      ext row
      by_cases hid : row.id = change.satellite.id <;> simp [hid, Satellite.refreshed]
    show (satellites.rows.map _).find? _ = _
    rw [List.find?_map, hsame]
    by_cases hid : change.satellite.id = id
    · rw [← hid, hfound]
      simp [hexisting, hrow]
    · rw [if_neg hid, SatelliteTable.getById]
      cases hother : satellites.rows.find? fun row => decide (row.id = id) with
      | none => rfl
      | some row =>
          have hrowId : row.id = id := by simpa using List.find?_some hother
          simp [hrowId, Ne.symm hid]

section Commit

variable {startedAt : Time} {maxRetries : ℤ} {changes : List Change} {db db' : Database}

/-- What holds of a row before the commit of changes, and of every change, holds of
the row after it. -/
theorem getById_commitChanges {P : Satellite → Prop} {id : Uuid}
    (hcommit : commitChanges startedAt maxRetries changes db = some db')
    (hchanges : ∀ change ∈ changes, change.satellite.id = id → P change.satellite)
    (hbefore : ∃ satellite, db.satellites.getById id = some satellite ∧ P satellite) :
    ∃ satellite, db'.satellites.getById id = some satellite ∧ P satellite := by
  induction changes generalizing db with
  | nil =>
      cases hcommit
      exact hbefore
  | cons change changes ih =>
      unfold commitChanges at hcommit
      split at hcommit
      · next satellites events hwrite _ =>
          apply ih hcommit fun other hmem => hchanges other (List.mem_cons_of_mem change hmem)
          show ∃ satellite, satellites.getById id = some satellite ∧ P satellite
          rw [getById_of_write hwrite]
          by_cases hid : change.satellite.id = id
          · rw [if_pos hid]
            exact ⟨change.satellite, rfl, hchanges change List.mem_cons_self hid⟩
          · rw [if_neg hid]
            exact hbefore
      · cases hcommit

/-- The event of every change is published, and its satellite is there. -/
theorem mem_commitChanges (hcommit : commitChanges startedAt maxRetries changes db = some db')
    {event : OutboxEvent} (hmem : event ∈ db'.events.rows) :
    event ∈ db.events.rows ∨ ∃ change ∈ changes, event = change.event startedAt maxRetries ∧
      db'.satellites.getById change.satellite.id ≠ none := by
  induction changes generalizing db with
  | nil =>
      cases hcommit
      exact Or.inl hmem
  | cons change changes ih =>
      unfold commitChanges at hcommit
      split at hcommit
      · next satellites events hwrite hinsert =>
          rcases ih hcommit with hold | ⟨other, hother, hevent, hthere⟩
          · rw [(Table.insert?_eq_some hinsert).2, List.mem_append, List.mem_singleton] at hold
            refine hold.imp_right fun hevent => ⟨change, List.mem_cons_self, hevent, ?_⟩
            obtain ⟨satellite, hsome, -⟩ := getById_commitChanges (P := fun _ => True) hcommit
              (fun _ _ _ => trivial)
              ⟨change.satellite, by rw [getById_of_write hwrite, if_pos rfl], trivial⟩
            rw [hsome]
            exact Option.some_ne_none satellite
          · exact Or.inr ⟨other, List.mem_cons_of_mem change hother, hevent, hthere⟩
      · cases hcommit

/-- Events that are there stay as they are, and the event of every change comes with
them. -/
theorem find?_commitChanges (hcommit : commitChanges startedAt maxRetries changes db = some db')
    {id : Uuid} {event : OutboxEvent}
    (hfind : db.events.find? id = some event ∨ ∃ change ∈ changes, change.eventId = id ∧
      change.event startedAt maxRetries = event) :
    db'.events.find? id = some event := by
  induction changes generalizing db with
  | nil =>
      cases hcommit
      rcases hfind with hfind | ⟨_, hmem, -⟩
      · exact hfind
      · cases hmem
  | cons change changes ih =>
      unfold commitChanges at hcommit
      split at hcommit
      · next satellites events _ hinsert =>
          apply ih hcommit
          have hinserted := Table.find?_of_insert? hinsert id
          rcases hfind with hfind | ⟨other, hmem, hid, hevent⟩
          · left
            rw [if_neg] at hinserted
            · exact hinserted.trans hfind
            · intro hsame
              have hfresh := (Table.insert?_eq_some hinsert).1
              rw [hsame, hfind] at hfresh
              cases hfresh
          · rcases List.mem_cons.mp hmem with rfl | hmem
            · left
              have hsame : (other.event startedAt maxRetries).id = id := hid
              rw [if_pos hsame] at hinserted
              exact hinserted.trans (congrArg some hevent)
            · exact Or.inr ⟨other, hmem, hid, hevent⟩
      · cases hcommit

/-- The event of a change is new. -/
theorem find?_eq_none_of_commitChanges
    (hcommit : commitChanges startedAt maxRetries changes db = some db') {change : Change}
    (hmem : change ∈ changes) : db.events.find? change.eventId = none := by
  induction changes generalizing db with
  | nil => cases hmem
  | cons first changes ih =>
      unfold commitChanges at hcommit
      split at hcommit
      · next satellites events _ hinsert =>
          rcases List.mem_cons.mp hmem with rfl | hmem
          · exact (Table.insert?_eq_some hinsert).1
          · have hlater := ih hcommit hmem
            rw [Table.find?_of_insert? hinsert] at hlater
            split at hlater
            · cases hlater
            · exact hlater
      · cases hcommit

end Commit

/-- What `IngestTlesUseCase.execute` leaves to commit is a list of changes. -/
theorem exists_changes_of_execute {tleEpoch : Text → Text → Option Time} {env : IngestEnv}
    {db : Database} {feed : List Celestrak.TleRecord} {progress : Progress}
    (hrun : execute tleEpoch env db (.ok feed) = .ok progress) :
    ∃ changes, commitChanges env.startedAt env.maxRetries changes db =
      some ⟨progress.satellites, progress.events⟩ := by
  suffices hloop : ∀ index rest before, ingestFrom tleEpoch env index rest before = .ok progress →
      ∃ changes, commitChanges env.startedAt env.maxRetries changes
        ⟨before.satellites, before.events⟩ = some ⟨progress.satellites, progress.events⟩ from
    hloop 0 feed ⟨db.satellites, db.events, 0⟩ hrun
  intro index rest
  induction rest generalizing index with
  | nil =>
      intro before hrest
      cases hrest
      exact ⟨[], rfl⟩
  | cons record rest ih =>
      intro before hrest
      unfold ingestFrom at hrest
      split at hrest
      · cases hrest
      next after hround =>
      obtain ⟨changes, hchanges⟩ := ih (index + 1) after hrest
      cases ingestRecord_effect hround with
      | @created noradId epoch satellites events _ _ _ hcreate hinsert =>
          refine ⟨⟨true, ⟨env.satelliteId index, noradId, record.name, record.line1, record.line2,
            epoch⟩, env.eventId index⟩ :: changes, ?_⟩
          have hwrite : before.events.insert? (Change.event env.startedAt env.maxRetries
              ⟨true, ⟨env.satelliteId index, noradId, record.name, record.line1, record.line2,
                epoch⟩, env.eventId index⟩) = some events := hinsert
          simp only [commitChanges, Change.write, if_true, hcreate, hwrite]
          exact hchanges
      | @updated noradId epoch existing events _ hfind _ _ hinsert =>
          have hnorad : existing.noradId = noradId := Table.key_of_find? hfind
          refine ⟨⟨false, existing.refreshed record.name record.line1 record.line2 epoch,
            env.eventId index⟩ :: changes, ?_⟩
          have hwrite : before.events.insert? (Change.event env.startedAt env.maxRetries
              ⟨false, existing.refreshed record.name record.line1 record.line2 epoch,
                env.eventId index⟩) = some events := by
            rw [← hinsert, refreshedEvent, ← hnorad]
            rfl
          have hrow : before.satellites.find?
              (existing.refreshed record.name record.line1 record.line2 epoch).noradId =
                some existing := by
            rw [Satellite.refreshed_noradId, hnorad, hfind]
          have hupdate : Change.write ⟨false, existing.refreshed record.name record.line1
              record.line2 epoch, env.eventId index⟩ before.satellites = some
                (before.satellites.update existing.id record.name record.line1 record.line2
                  epoch) := by
            unfold Change.write
            rw [if_neg Bool.false_ne_true]
            simp only [hrow]
            exact if_pos rfl
          simp only [commitChanges, hupdate, hwrite]
          exact hchanges
      | unchanged _ _ _ => exact ⟨changes, hchanges⟩

end Apsis.Tracking
