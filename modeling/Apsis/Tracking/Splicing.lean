/-
# Lines of two satellites in one row

`_parse_records` takes the lines of a body in groups of three and looks at how they
begin. If a body has lost lines, line 1 of one satellite may come to stand before line 2
of another; as long as the count is right, the two become one record, and the ingest
stores them under the number in line 1.

A body is safe exactly if the two lines of its groups carry the same number, as far as
the ingest gets: a group whose line 1 has no number ends the run.
-/

import Apsis.Core.Celestrak.RoundTrip
import Apsis.Tracking.Feed

namespace Apsis.Tracking

open Apsis.Library Apsis.Core Apsis.Core.Celestrak Apsis.Core.Events

/-! ## Rows that are written -/

/-- Both lines of the row carry the catalog number of the row in columns 3 to 7. -/
def Satellite.IsWhole (row : Satellite) : Prop :=
  tleNoradId row.tleLine1 = some row.noradId ∧ tleNoradId row.tleLine2 = some row.noradId

instance (row : Satellite) : Decidable row.IsWhole := inferInstanceAs (Decidable (_ ∧ _))

/-- The ingest of these records writes this row, in one of its rounds. -/
def Writes (tleEpoch : Text → Text → Option Time) (env : IngestEnv) (db : Database)
    (records : List TleRecord) (row : Satellite) : Prop :=
  ∃ earlier record later before after, records = earlier ++ record :: later ∧
    ingestFrom tleEpoch env 0 earlier ⟨db.satellites, db.events, 0⟩ = .ok before ∧
    ingestRecord tleEpoch env earlier.length record before = .ok after ∧
    row ∈ after.satellites.rows ∧ row ∉ before.satellites.rows

/-- Whatever the tables are, whatever the run meets, and whichever epochs are read from
the lines 1, the ingest of these records writes no row of two satellites. -/
def NotSpliced (records : List TleRecord) : Prop :=
  ∀ (epochOf : Text → Option Time) (env : IngestEnv) (db : Database) (row : Satellite),
    Writes (fun line1 _ => epochOf line1) env db records row → row.IsWhole

/-- In groups of three lines, line 2 carries the number of line 1, up to the first group
whose line 1 carries none. -/
def CarriesMatching : List Text → Prop
  | _ :: line1 :: line2 :: lines =>
      match tleNoradId line1 with
      | none => True
      | some noradId => tleNoradId line2 = some noradId ∧ CarriesMatching lines
  | _ => True

instance CarriesMatching.decidable : (lines : List Text) → Decidable (CarriesMatching lines)
  | _ :: line1 :: line2 :: lines =>
      match h : tleNoradId line1 with
      | none => isTrue (by simp [CarriesMatching, h])
      | some noradId =>
          have := CarriesMatching.decidable lines
          decidable_of_iff (tleNoradId line2 = some noradId ∧ CarriesMatching lines)
            (by simp [CarriesMatching, h])
  | [] => isTrue trivial
  | [_] => isTrue trivial
  | [_, _] => isTrue trivial

/-- The same, of the records. -/
def Matching : List TleRecord → Prop
  | [] => True
  | record :: records =>
      match tleNoradId record.line1 with
      | none => True
      | some noradId => tleNoradId record.line2 = some noradId ∧ Matching records

theorem matching_iff {lines : List Text} {records : List TleRecord} (h : Groups lines records) :
    CarriesMatching lines ↔ Matching records := by
  induction h with
  | nil => exact Iff.rfl
  | @cons name line1 line2 lines records _ _ _ ih =>
      rw [CarriesMatching, Matching]
      cases tleNoradId line1 with
      | none => exact Iff.rfl
      | some noradId => simp only [ih]

section Rounds

variable {tleEpoch : Text → Text → Option Time} {env : IngestEnv} {index : ℕ}
  {record : TleRecord} {before after : Progress}

/-- A row after a round is one from before, or it has the lines of the record. -/
theorem mem_of_roundEffect (heffect : RoundEffect tleEpoch env index record before after)
    {row : Satellite} (hmem : row ∈ after.satellites.rows) :
    row ∈ before.satellites.rows ∨ tleNoradId record.line1 = some row.noradId ∧
      row.tleLine1 = record.line1 ∧ row.tleLine2 = record.line2 := by
  cases heffect with
  | created hnorad _ _ hcreate _ =>
      rw [(SatelliteTable.rows_of_create hcreate).2.2] at hmem
      rcases List.mem_append.mp hmem with hold | hnew
      · exact Or.inl hold
      · rw [List.mem_singleton.mp hnew]
        exact Or.inr ⟨hnorad, rfl, rfl⟩
  | @updated noradId epoch existing events hnorad hfind _ _ _ =>
      obtain ⟨other, hother, rfl⟩ := List.mem_map.mp hmem
      by_cases hid : other.id = existing.id
      · -- The primary key names the row that was found.
        have hsame : other = existing := List.inj_on_of_nodup_map before.satellites.ids hother
          ((Table.find?_eq_some_iff _).mp hfind).1 hid
        rw [if_pos (by simp [hid]), hsame]
        refine Or.inr ⟨?_, rfl, rfl⟩
        rw [hnorad, Satellite.refreshed_noradId, Table.key_of_find? hfind]
      · rw [if_neg (by simp [hid])]
        exact Or.inl hother
  | unchanged _ _ _ => exact Or.inl hmem

/-- A round needs a number in line 1. -/
theorem exists_noradId_of_roundEffect
    (heffect : RoundEffect tleEpoch env index record before after) :
    ∃ noradId, tleNoradId record.line1 = some noradId := by
  cases heffect with
  | created hnorad _ _ _ _ => exact ⟨_, hnorad⟩
  | updated hnorad _ _ _ _ => exact ⟨_, hnorad⟩
  | unchanged hnorad _ _ => exact ⟨_, hnorad⟩

/-- What the loop has got through has numbers, so a later record matches as well. -/
theorem matching_of_ingestFrom {earlier later : List TleRecord}
    (hrun : ingestFrom tleEpoch env index earlier before = .ok after)
    (hmatching : Matching (earlier ++ later)) : Matching later := by
  induction earlier generalizing index before with
  | nil => exact hmatching
  | cons record earlier ih =>
      unfold ingestFrom at hrun
      split at hrun
      · cases hrun
      next next hround =>
      obtain ⟨noradId, hnorad⟩ := exists_noradId_of_roundEffect (ingestRecord_effect hround)
      rw [List.cons_append, Matching, hnorad] at hmatching
      exact ih hrun hmatching.2

/-- Matching records make whole rows. -/
theorem isWhole_of_roundEffect (heffect : RoundEffect tleEpoch env index record before after)
    {later : List TleRecord} (hmatching : Matching (record :: later)) {row : Satellite}
    (hmem : row ∈ after.satellites.rows) (hnew : row ∉ before.satellites.rows) : row.IsWhole := by
  obtain ⟨hnorad, hline1, hline2⟩ := (mem_of_roundEffect heffect hmem).resolve_left hnew
  rw [Matching, hnorad] at hmatching
  rw [Satellite.IsWhole, hline1, hline2]
  exact ⟨hnorad, hmatching.1⟩

theorem notSpliced_of_matching {records : List TleRecord} (hmatching : Matching records) :
    NotSpliced records := by
  rintro epochOf env db row ⟨earlier, record, later, before, after, rfl, hrun, hround, hmem, hnew⟩
  have hlater := matching_of_ingestFrom hrun hmatching
  exact isWhole_of_roundEffect (ingestRecord_effect hround) hlater hmem hnew

end Rounds

/-! ## A run that writes every record -/

/-- Every line 1 has an epoch. -/
def plainEpoch (_ : Text) : Option Time := some 0

/-- The ids from this index on are still to come. -/
structure Fresh (index : ℕ) (progress : Progress) : Prop where
  satellites : ∀ row ∈ progress.satellites.rows, row.id < index
  events : ∀ event ∈ progress.events.rows, event.id < index

section Plain

variable {index : ℕ} {record : TleRecord} {before : Progress} {noradId : ℤ}

/-- The event of a round is inserted. -/
theorem exists_announce (hfresh : Fresh index before) (satelliteId : Uuid) (noradId : ℤ)
    (satellites : SatelliteTable) :
    ∃ events : EventTable, (∀ event ∈ events.rows, event.id < index + 1) ∧
      announce (calmEnv 0) index satelliteId noradId satellites before =
        .ok ⟨satellites, events, before.changed + 1⟩ := by
  have hid : (refreshedEvent (calmEnv 0) index satelliteId noradId).id = index := Nat.zero_add index
  have hnew : before.events.find? (refreshedEvent (calmEnv 0) index satelliteId noradId).id =
      none := by
    rw [hid, Table.find?_eq_none_iff]
    intro hmem
    obtain ⟨event, hevent, hsame⟩ := List.mem_map.mp hmem
    exact absurd (hfresh.events event hevent) (hsame ▸ lt_irrefl index)
  obtain ⟨events, hinsert⟩ := Table.exists_insert? hnew
  refine ⟨events, ?_, ?_⟩
  · rw [(Table.insert?_eq_some hinsert).2]
    intro event hmem
    rcases List.mem_append.mp hmem with hold | hone
    · exact Nat.lt_succ_of_lt (hfresh.events event hold)
    · rw [List.mem_singleton.mp hone, hid]
      exact Nat.lt_succ_self index
  · unfold announce
    rw [hinsert]
    rfl

/-- The round gets through a record that has a number, and leaves a row with its lines. -/
theorem exists_ingestRecord (hfresh : Fresh index before)
    (hnorad : tleNoradId record.line1 = some noradId) :
    ∃ after, ingestRecord (fun line1 _ => plainEpoch line1) (calmEnv 0) index record before =
        .ok after ∧ Fresh (index + 1) after ∧
      ∃ row ∈ after.satellites.rows, row.tleLine1 = record.line1 ∧
        row.tleLine2 = record.line2 := by
  cases hfind : before.satellites.find? noradId with
  | none =>
      have hnew : index ∉ before.satellites.rows.map Satellite.id := by
        intro hmem
        obtain ⟨row, hrow, hid⟩ := List.mem_map.mp hmem
        exact absurd (hfresh.satellites row hrow) (hid ▸ lt_irrefl index)
      obtain ⟨satellites, hcreate, hrows⟩ := SatelliteTable.exists_create
        ⟨index, noradId, record.name, record.line1, record.line2, 0⟩ hnew hfind
      obtain ⟨events, hevents, hannounce⟩ := exists_announce hfresh index noradId satellites
      refine ⟨⟨satellites, events, before.changed + 1⟩, ?_, ⟨?_, hevents⟩, ?_⟩
      · unfold ingestRecord
        simpa [hnorad, hfind, calmEnv, plainEpoch, hcreate] using hannounce
      · show ∀ row ∈ satellites.rows, row.id < index + 1
        intro row hmem
        rw [hrows, List.mem_append, List.mem_singleton] at hmem
        rcases hmem with hold | rfl
        · exact Nat.lt_succ_of_lt (hfresh.satellites row hold)
        · exact Nat.lt_succ_self index
      · exact ⟨_, hrows ▸ List.mem_append_right _ (List.mem_singleton_self _), rfl, rfl⟩
  | some existing =>
      have hexisting := ((Table.find?_eq_some_iff _).mp hfind).1
      by_cases hlines : existing.tleLine1 ≠ record.line1 ∨ existing.tleLine2 ≠ record.line2
      · obtain ⟨events, hevents, hannounce⟩ := exists_announce hfresh existing.id noradId
          (before.satellites.update existing.id record.name record.line1 record.line2 0)
        refine ⟨⟨before.satellites.update existing.id record.name record.line1 record.line2 0,
          events, before.changed + 1⟩, ?_, ⟨?_, hevents⟩, ?_⟩
        · unfold ingestRecord
          simp only [hnorad, hfind, if_pos hlines]
          exact hannounce
        · intro row hmem
          obtain ⟨other, hother, rfl⟩ := List.mem_map.mp hmem
          have hlt := hfresh.satellites other hother
          split
          · exact Nat.lt_succ_of_lt hlt
          · exact Nat.lt_succ_of_lt hlt
        · exact ⟨_, List.mem_map_of_mem hexisting, by simp [Satellite.refreshed],
            by simp [Satellite.refreshed]⟩
      · refine ⟨before, ?_, ⟨?_, ?_⟩, existing, hexisting, ?_⟩
        · unfold ingestRecord
          simp only [hnorad, hfind, calmEnv, if_neg hlines]
        · exact fun row hmem => Nat.lt_succ_of_lt (hfresh.satellites row hmem)
        · exact fun event hmem => Nat.lt_succ_of_lt (hfresh.events event hmem)
        · rwa [not_or, not_not, not_not] at hlines

/-- If the records do not match, a run over them meets the first one that does not while all
rows are whole, and gets through it. -/
theorem exists_round_of_not_matching {records : List TleRecord} (hfresh : Fresh index before)
    (hwhole : ∀ row ∈ before.satellites.rows, row.IsWhole) (hnot : ¬ Matching records) :
    ∃ earlier record later middle after, records = earlier ++ record :: later ∧
      ingestFrom (fun line1 _ => plainEpoch line1) (calmEnv 0) index earlier before = .ok middle ∧
      ingestRecord (fun line1 _ => plainEpoch line1) (calmEnv 0) (index + earlier.length) record
        middle = .ok after ∧
      ∃ row ∈ after.satellites.rows, row ∉ middle.satellites.rows ∧ ¬ row.IsWhole := by
  induction records generalizing index before with
  | nil => exact absurd trivial hnot
  | cons record records ih =>
      cases hnorad : tleNoradId record.line1 with
      | none =>
          rw [Matching, hnorad] at hnot
          exact absurd trivial hnot
      | some noradId =>
          obtain ⟨after, hround, hfresh', row, hmem, hline1, hline2⟩ :=
            exists_ingestRecord hfresh hnorad
          by_cases hsame : tleNoradId record.line2 = some noradId
          · have hrest : ¬ Matching records := by
              rw [Matching, hnorad] at hnot
              exact fun hall => hnot ⟨hsame, hall⟩
            have hwhole' : ∀ row ∈ after.satellites.rows, row.IsWhole := by
              intro row hmem
              rcases mem_of_roundEffect (ingestRecord_effect hround) hmem with hold | hlines
              · exact hwhole row hold
              · obtain ⟨hrow, hline1, hline2⟩ := hlines
                rw [Satellite.IsWhole, hline1, hline2, hsame, ← hnorad]
                exact ⟨hrow, hrow⟩
            obtain ⟨earlier, next, later, middle, last, rfl, hrun, hlast, hspliced⟩ :=
              ih hfresh' hwhole' hrest
            refine ⟨record :: earlier, next, later, middle, last, rfl, ?_, ?_, hspliced⟩
            · rw [ingestFrom, hround]
              exact hrun
            · rwa [List.length_cons, Nat.add_comm earlier.length, ← Nat.add_assoc]
          · refine ⟨[], record, records, before, after, rfl, rfl, hround, row, hmem, ?_⟩
            have hspliced : ¬ row.IsWhole := by
              rw [Satellite.IsWhole, hline1, hline2, hnorad]
              rintro ⟨hfirst, hsecond⟩
              exact hsame (hsecond.trans hfirst.symm)
            exact ⟨fun hold => hspliced (hwhole row hold), hspliced⟩

end Plain

/-- The records of a feed are safe exactly if their lines match. -/
theorem notSpliced_iff_matching {records : List TleRecord} :
    NotSpliced records ↔ Matching records := by
  refine ⟨fun hnever => ?_, notSpliced_of_matching⟩
  by_contra hnot
  have hfresh : Fresh 0 ⟨emptyDatabase.satellites, emptyDatabase.events, 0⟩ :=
    ⟨fun _ hmem => (by cases hmem), fun _ hmem => (by cases hmem)⟩
  obtain ⟨earlier, record, later, middle, after, hrecords, hrun, hround, row, hmem, hnew,
    hspliced⟩ := exists_round_of_not_matching hfresh (fun _ hmem => (by cases hmem)) hnot
  rw [Nat.zero_add] at hround
  exact hspliced (hnever plainEpoch (calmEnv 0) emptyDatabase row
    ⟨earlier, record, later, middle, after, hrecords, hrun, hround, hmem, hnew⟩)

/-! ## The bodies that are safe -/

/-- **Which bodies are safe.** No row of two satellites is ever written from an accepted body
if and only if the lines 1 and 2 of its groups carry the same number. -/
theorem notSpliced_iff {body : Text} {records : List TleRecord}
    (hfetch : fetchGroup (.received 200 body) = .ok records) :
    NotSpliced records ↔ CarriesMatching ((Text.content body).map Text.rstrip) := by
  obtain ⟨same, hsame, -, hgroups⟩ := fetchGroup_eq_ok.mp hfetch
  cases hsame
  rw [matching_iff hgroups]
  exact notSpliced_iff_matching

/-- A row that the ingest of a feed with matching lines never splices. -/
theorem iss_notSpliced :
    fetchGroup (.received 200 issBody) = .ok [issRecord, issRecordLater] ∧
    NotSpliced [issRecord, issRecordLater] := by
  obtain ⟨body, hsame, -, hgroups⟩ := fetchGroup_eq_ok.mp fetchGroup_issBody
  cases hsame
  have hfirst : tleNoradId issRecord.line1 = some 25544 ∧
      tleNoradId issRecord.line2 = some 25544 := by decide +kernel
  have hlater : tleNoradId issRecordLater.line1 = some 25544 ∧
      tleNoradId issRecordLater.line2 = some 25544 := by decide +kernel
  have hmatching : Matching [issRecord, issRecordLater] := by
    simp [Matching, hfirst, hlater]
  exact ⟨fetchGroup_issBody,
    (notSpliced_iff fetchGroup_issBody).mpr ((matching_iff hgroups).mpr hmatching)⟩

/-- Line 2 of the Hubble Space Telescope. -/
def hubbleLine2 : Text :=
  "2 20580  28.4699 254.9161 0002424 130.0000 325.0000 15.15000000    09".toList

/-- What is left of a feed of the station and the telescope when the three lines between
line 1 of the one and line 2 of the other are lost. -/
def brokenBody : Text :=
  issRecord.name ++ "             \r\n".toList ++ issRecord.line1 ++ "\r\n".toList ++
    hubbleLine2 ++ "\r\n".toList

/-- The record that is read from it. -/
def brokenRecord : TleRecord := { issRecord with line2 := hubbleLine2 }

/-- The driver accepts the broken feed, and the row of the station gets the orbit of the
telescope. -/
theorem broken_written :
    fetchGroup (.received 200 brokenBody) = .ok [brokenRecord] ∧
    (tleRefresh issEpoch (calmEnv 10) emptyDatabase (.ok [brokenRecord])).2 = .ok (some 1) ∧
    (tleRefresh issEpoch (calmEnv 10) emptyDatabase (.ok [brokenRecord])).1.satellites.rows =
      [⟨10, 25544, issRecord.name, issRecord.line1, hubbleLine2, 1704110400000000⟩] ∧
    tleNoradId hubbleLine2 = some 20580 ∧ ¬ NotSpliced [brokenRecord] := by
  refine ⟨by decide +kernel, by decide +kernel, by decide +kernel, by decide +kernel, ?_⟩
  rw [notSpliced_iff_matching]
  exact fun hmatching => absurd hmatching.1 (by decide +kernel)

end Apsis.Tracking
