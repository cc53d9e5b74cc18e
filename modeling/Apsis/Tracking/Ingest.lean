/-
# Ingesting a feed of TLEs

`IngestTlesUseCase.execute` inside `tle_refresh`: one transaction over the tables
`satellites` and `outbox_events`. The loop works on its own copy of the two
tables, which replaces the committed one at the commit; an exception at any
point before it leaves the committed tables as they were.

What is not the program's own is given: the ids that the database generates, the
exceptions that its statements or a cancellation raise at any record, and the
epoch that skyfield reads from two lines.
-/

import Apsis.Core.Celestrak.Http
import Apsis.Core.Events.Worker

namespace Apsis.Tracking

open Apsis.Library Apsis.Core Apsis.Core.Celestrak Apsis.Core.Events

/-! ## The table of satellites -/

/-- A row of `satellites`, without its timestamps. -/
structure Satellite where
  id : Uuid
  noradId : ℤ
  name : Text
  tleLine1 : Text
  tleLine2 : Text
  epoch : Time
  deriving DecidableEq

/-- The row with the fields that `execute` sets on an update. -/
def Satellite.refreshed (name line1 line2 : Text) (epoch : Time) (row : Satellite) : Satellite :=
  { row with name := name, tleLine1 := line1, tleLine2 := line2, epoch := epoch }

theorem Satellite.refreshed_noradId (name line1 line2 : Text) (epoch : Time) (row : Satellite) :
    (row.refreshed name line1 line2 epoch).noradId = row.noradId := rfl

/-- The table: `norad_id` is unique, and so is the primary key. -/
structure SatelliteTable extends Table Satellite.noradId where
  ids : (rows.map Satellite.id).Nodup

theorem noSatellites_nodup : (([] : List Satellite).map Satellite.noradId).Nodup := List.nodup_nil

theorem noSatellites_ids : (([] : List Satellite).map Satellite.id).Nodup := List.nodup_nil

namespace SatelliteTable

/-- `SatelliteRepo.create`; `none` is the `IntegrityError`. -/
def create (satellites : SatelliteTable) (satellite : Satellite) : Option SatelliteTable :=
  if hid : satellite.id ∈ satellites.rows.map Satellite.id then none
  else if hnorad : satellite.noradId ∈ satellites.rows.map Satellite.noradId then none
  else some
    { rows := satellites.rows ++ [satellite]
      nodup := by
        rw [List.map_append, List.map_singleton, ← List.concat_eq_append]
        exact List.Nodup.concat hnorad satellites.nodup
      ids := by
        rw [List.map_append, List.map_singleton, ← List.concat_eq_append]
        exact List.Nodup.concat hid satellites.ids }

/-- `SatelliteRepo.update` of the row with this id. -/
def update (satellites : SatelliteTable) (id : Uuid) (name line1 line2 : Text) (epoch : Time) :
    SatelliteTable where
  toTable := satellites.toTable.update (fun row => decide (row.id = id))
    (Satellite.refreshed name line1 line2 epoch)
    (Satellite.refreshed_noradId name line1 line2 epoch)
  ids := by
    have hsame : (Satellite.id ∘ fun row => if decide (row.id = id) then
        Satellite.refreshed name line1 line2 epoch row else row) = Satellite.id := by
      ext row
      by_cases hid : row.id = id <;> simp [hid, Satellite.refreshed]
    show ((satellites.rows.map _).map Satellite.id).Nodup
    rw [List.map_map, hsame]
    exact satellites.ids

/-- What a creation does: the satellite goes to the end of the table, under a new id and a new
catalog number. -/
theorem rows_of_create {satellites satellites' : SatelliteTable} {satellite : Satellite}
    (h : satellites.create satellite = some satellites') :
    satellite.id ∉ satellites.rows.map Satellite.id ∧
      satellite.noradId ∉ satellites.rows.map Satellite.noradId ∧
      satellites'.rows = satellites.rows ++ [satellite] := by
  unfold create at h
  split at h
  · cases h
  next hid =>
  split at h <;> cases h
  next hnorad => exact ⟨hid, hnorad, rfl⟩

/-- A satellite with a new id and a new catalog number is created. -/
theorem exists_create {satellites : SatelliteTable} (satellite : Satellite)
    (hid : satellite.id ∉ satellites.rows.map Satellite.id)
    (hnone : satellites.find? satellite.noradId = none) :
    ∃ satellites', satellites.create satellite = some satellites' ∧
      satellites'.rows = satellites.rows ++ [satellite] :=
  ⟨_, (dif_neg hid).trans (dif_neg (satellites.find?_eq_none_iff.mp hnone)), rfl⟩

theorem find?_create {satellites satellites' : SatelliteTable} {satellite : Satellite}
    (h : satellites.create satellite = some satellites') (noradId : ℤ) :
    satellites'.find? noradId =
      if satellite.noradId = noradId then some satellite else satellites.find? noradId := by
  unfold create at h
  split at h
  · cases h
  · split at h
    · cases h
    · next hnorad =>
        cases h
        exact Table.find?_of_insert? (t := satellites.toTable) (dif_neg hnorad) noradId

theorem find?_update {satellites : SatelliteTable} {row : Satellite}
    (hrow : satellites.find? row.noradId = some row) (name line1 line2 : Text) (epoch : Time)
    (noradId : ℤ) :
    (satellites.update row.id name line1 line2 epoch).find? noradId =
      if row.noradId = noradId then
        some (row.refreshed name line1 line2 epoch)
      else satellites.find? noradId := by
  rw [update, Table.find?_update]
  by_cases hnorad : row.noradId = noradId
  · rw [← hnorad, hrow]
    simp
  · rw [if_neg hnorad]
    cases hfind : satellites.find? noradId with
    | none => rfl
    | some other =>
        -- The primary key tells the two rows apart.
        have hne : other.id ≠ row.id := by
          intro hid
          have hsame : other = row := List.inj_on_of_nodup_map satellites.ids
            ((Table.find?_eq_some_iff _).mp hfind).1 ((Table.find?_eq_some_iff _).mp hrow).1 hid
          rw [← hsame] at hnorad
          exact hnorad (Table.key_of_find? hfind)
        simp [hne]

end SatelliteTable

/-! ## The use case -/

/-- `tle_norad_id`; `none` is the `ValueError`. -/
def tleNoradId (line1 : Text) : Option ℤ := Text.toInt (Text.slice 2 7 line1)

/-- Where the handling of a record may meet an exception of the database, or a
cancellation. -/
inductive Stage
  | /-- `get_by_norad_id` -/
    lookup
  | /-- `create` or `update` -/
    write
  | /-- `publish` -/
    publish
  deriving DecidableEq

/-- Why a run ends without its commit. -/
inductive IngestError
  | driver (error : CelestrakError)
  | /-- The catalog field is not a number. -/
    catalogNumber
  | /-- `tle_epoch` raises. -/
    epoch
  | database
  | /-- The timeout of the job, or a cancellation of its worker. -/
    cancelled
  deriving DecidableEq

/-- What one run meets: the exceptions that are raised at its records, the ids
that the database generates, its `now()`, and the default of `max_retries`. -/
structure IngestEnv where
  raises : ℕ → Stage → Option IngestError
  raisesAtCommit : Option IngestError
  satelliteId : ℕ → Uuid
  eventId : ℕ → Uuid
  startedAt : Time
  maxRetries : ℤ

/-- The tables as the open transaction sees them, and the counter. -/
structure Progress where
  satellites : SatelliteTable
  events : EventTable
  changed : ℕ

/-- `{"satellite_id": str(satellite.id), "norad_id": norad_id}` -/
def refreshedPayload (satelliteId : Uuid) (noradId : ℤ) : List (Text × PayloadValue) :=
  [("satellite_id".toList, .uuid satelliteId), ("norad_id".toList, .int noradId)]

/-- The event that announces a new TLE. -/
def refreshedEvent (env : IngestEnv) (index : ℕ) (satelliteId : Uuid) (noradId : ℤ) :
    OutboxEvent :=
  publish (env.eventId index) env.maxRetries env.startedAt "tle.refreshed".toList
    (refreshedPayload satelliteId noradId) (some satelliteId)

/-- The end of a round of the loop: publish and count. -/
def announce (env : IngestEnv) (index : ℕ) (satelliteId : Uuid) (noradId : ℤ)
    (satellites : SatelliteTable) (progress : Progress) : Except IngestError Progress :=
  match env.raises index .publish with
  | some error => .error error
  | none =>
      match progress.events.insert? (refreshedEvent env index satelliteId noradId) with
      | none => .error .database
      | some events => .ok ⟨satellites, events, progress.changed + 1⟩

section Run

variable (tleEpoch : Text → Text → Option Time) (env : IngestEnv)

/-- One round of the loop. -/
def ingestRecord (index : ℕ) (record : TleRecord) (progress : Progress) :
    Except IngestError Progress :=
  match tleNoradId record.line1 with
  | none => .error .catalogNumber
  | some noradId =>
      match env.raises index .lookup with
      | some error => .error error
      | none =>
          match progress.satellites.find? noradId with
          | none =>
              match tleEpoch record.line1 record.line2 with
              | none => .error .epoch
              | some epoch =>
                  match env.raises index .write with
                  | some error => .error error
                  | none =>
                      match progress.satellites.create ⟨env.satelliteId index, noradId,
                          record.name, record.line1, record.line2, epoch⟩ with
                      | none => .error .database
                      | some satellites =>
                          announce env index (env.satelliteId index) noradId satellites progress
          | some existing =>
              if existing.tleLine1 ≠ record.line1 ∨ existing.tleLine2 ≠ record.line2 then
                match tleEpoch record.line1 record.line2 with
                | none => .error .epoch
                | some epoch =>
                    match env.raises index .write with
                    | some error => .error error
                    | none =>
                        announce env index existing.id noradId
                          (progress.satellites.update existing.id record.name record.line1
                            record.line2 epoch) progress
              else .ok progress

/-- The loop over the records, from a position on. -/
def ingestFrom (index : ℕ) : List TleRecord → Progress → Except IngestError Progress
  | [], progress => .ok progress
  | record :: records, progress =>
      match ingestRecord tleEpoch env index record progress with
      | .error error => .error error
      | .ok progress' => ingestFrom (index + 1) records progress'

/-- The tables. -/
structure Database where
  satellites : SatelliteTable
  events : EventTable

/-- `IngestTlesUseCase.execute`, on what `fetch_group` returned or raised. -/
def execute (db : Database) (fetched : Except CelestrakError (List TleRecord)) :
    Except IngestError Progress :=
  match fetched with
  | .error error => .error (.driver error)
  | .ok records => ingestFrom tleEpoch env 0 records ⟨db.satellites, db.events, 0⟩

/-- `tle_refresh`: the tables it leaves, and the count of a committed run, `none`
if CelesTrak limited the rate, or the exception it raises. -/
def tleRefresh (db : Database) (fetched : Except CelestrakError (List TleRecord)) :
    Database × Except IngestError (Option ℕ) :=
  match execute tleEpoch env db fetched with
  | .error (.driver (.rateLimited _)) => (db, .ok none)
  | .error error => (db, .error error)
  | .ok progress =>
      match env.raisesAtCommit with
      | some error => (db, .error error)
      | none => (⟨progress.satellites, progress.events⟩, .ok (some progress.changed))

/-! ## What a round does -/

/-- The effect of a round that raises nothing, by its branch. -/
inductive RoundEffect (index : ℕ) (record : TleRecord) (progress : Progress) : Progress → Prop
  | /-- The catalog number had no row. -/
    created {noradId : ℤ} {epoch : Time} {satellites : SatelliteTable} {events : EventTable}
      (hnorad : tleNoradId record.line1 = some noradId)
      (hfind : progress.satellites.find? noradId = none)
      (hepoch : tleEpoch record.line1 record.line2 = some epoch)
      (hcreate : progress.satellites.create ⟨env.satelliteId index, noradId, record.name,
        record.line1, record.line2, epoch⟩ = some satellites)
      (hinsert : progress.events.insert?
        (refreshedEvent env index (env.satelliteId index) noradId) = some events) :
      RoundEffect index record progress ⟨satellites, events, progress.changed + 1⟩
  | /-- The row had other lines. -/
    updated {noradId : ℤ} {epoch : Time} {existing : Satellite} {events : EventTable}
      (hnorad : tleNoradId record.line1 = some noradId)
      (hfind : progress.satellites.find? noradId = some existing)
      (hlines : (existing.tleLine1, existing.tleLine2) ≠ (record.line1, record.line2))
      (hepoch : tleEpoch record.line1 record.line2 = some epoch)
      (hinsert : progress.events.insert?
        (refreshedEvent env index existing.id noradId) = some events) :
      RoundEffect index record progress
        ⟨progress.satellites.update existing.id record.name record.line1 record.line2 epoch,
          events, progress.changed + 1⟩
  | /-- The row had these lines. -/
    unchanged {noradId : ℤ} {existing : Satellite}
      (hnorad : tleNoradId record.line1 = some noradId)
      (hfind : progress.satellites.find? noradId = some existing)
      (hlines : (existing.tleLine1, existing.tleLine2) = (record.line1, record.line2)) :
      RoundEffect index record progress progress

variable {tleEpoch env}

omit tleEpoch in
theorem announce_eq_ok {index : ℕ} {satelliteId : Uuid} {noradId : ℤ}
    {satellites : SatelliteTable} {progress progress' : Progress}
    (h : announce env index satelliteId noradId satellites progress = .ok progress') :
    ∃ events, progress.events.insert? (refreshedEvent env index satelliteId noradId) =
      some events ∧ progress' = ⟨satellites, events, progress.changed + 1⟩ := by
  unfold announce at h
  split at h
  · cases h
  · split at h
    · cases h
    · next events hinsert =>
        cases h
        exact ⟨events, hinsert, rfl⟩

theorem ingestRecord_effect {index : ℕ} {record : TleRecord} {progress progress' : Progress}
    (h : ingestRecord tleEpoch env index record progress = .ok progress') :
    RoundEffect tleEpoch env index record progress progress' := by
  unfold ingestRecord at h
  split at h
  · cases h
  next noradId hnorad =>
  split at h
  · cases h
  split at h
  · next hfind =>
      split at h
      · cases h
      next epoch hepoch =>
      split at h
      · cases h
      split at h
      · cases h
      next satellites hcreate =>
      obtain ⟨events, hinsert, rfl⟩ := announce_eq_ok h
      exact .created hnorad hfind hepoch hcreate hinsert
  · next existing hfind =>
      split at h
      · next hlines =>
          split at h
          · cases h
          next epoch hepoch =>
          split at h
          · cases h
          obtain ⟨events, hinsert, rfl⟩ := announce_eq_ok h
          refine .updated hnorad hfind ?_ hepoch hinsert
          rintro hsame
          obtain ⟨hline1, hline2⟩ := Prod.mk.inj hsame
          exact hlines.elim (fun hne => hne hline1) fun hne => hne hline2
      · next hlines =>
          cases h
          refine .unchanged hnorad hfind ?_
          simpa [not_or, Prod.ext_iff] using hlines

end Run

end Apsis.Tracking
