/-
# What a feed does to the tables

The loop of the ingest reads its own writes: the second record of a satellite
meets the row that the first one left. This module says what the loop does
without mentioning the evolving table. The lines that a catalog number has at
some point of the feed are those of its last record so far or, where there is
none, those of its row, and a record counts as a change if its own lines are
different ones.

From this description follow the exactness of a committed run, and when the
ingest is idempotent.
-/

import Apsis.Tracking.Ingest

namespace Apsis.Tracking

open Apsis.Library Apsis.Core Apsis.Core.Celestrak Apsis.Core.Events

/-! ## The description -/

/-- The record is one of this catalog number. -/
def IsRecordOf (noradId : ℤ) (record : TleRecord) : Prop :=
  tleNoradId record.line1 = some noradId

instance (noradId : ℤ) (record : TleRecord) : Decidable (IsRecordOf noradId record) :=
  inferInstanceAs (Decidable (_ = _))

/-- The two lines of a record. -/
def TleRecord.lines (record : TleRecord) : Text × Text := (record.line1, record.line2)

/-- The two lines in a row. -/
def Satellite.lines (row : Satellite) : Text × Text := (row.tleLine1, row.tleLine2)

/-- The last record of a catalog number in a feed. -/
def lastRecord (feed : List TleRecord) (noradId : ℤ) : Option TleRecord :=
  feed.findRev? fun record => decide (IsRecordOf noradId record)

/-- The lines that a catalog number has after a feed. -/
def linesAfter (satellites : SatelliteTable) (feed : List TleRecord) (noradId : ℤ) :
    Option (Text × Text) :=
  match lastRecord feed noradId with
  | some record => some (TleRecord.lines record)
  | none => (satellites.find? noradId).map Satellite.lines

/-- After the records before it, the record has other lines than its catalog
number. -/
def IsChange (satellites : SatelliteTable) (earlier : List TleRecord) (record : TleRecord) :
    Prop :=
  ∀ noradId, IsRecordOf noradId record →
    linesAfter satellites earlier noradId ≠ some (TleRecord.lines record)

instance (satellites : SatelliteTable) (earlier : List TleRecord) (record : TleRecord) :
    Decidable (IsChange satellites earlier record) :=
  decidable_of_iff
    ((tleNoradId record.line1).all fun noradId =>
      decide (linesAfter satellites earlier noradId ≠ some (TleRecord.lines record)))
    (by simp [IsChange, IsRecordOf, Option.all_eq_true])

/-- The records of a feed that are changes, given those before it. -/
def changesFrom (satellites : SatelliteTable) (earlier : List TleRecord) :
    List TleRecord → List TleRecord
  | [] => []
  | record :: rest =>
      if IsChange satellites earlier record then
        record :: changesFrom satellites (earlier ++ [record]) rest
      else changesFrom satellites (earlier ++ [record]) rest

/-- The records of a feed that are changes. -/
def changes (satellites : SatelliteTable) (feed : List TleRecord) : List TleRecord :=
  changesFrom satellites [] feed

theorem lastRecord_concat (feed : List TleRecord) (record : TleRecord) (noradId : ℤ) :
    lastRecord (feed ++ [record]) noradId =
      if IsRecordOf noradId record then some record else lastRecord feed noradId := by
  simp only [lastRecord, List.findRev?_eq_find?_reverse, List.reverse_append,
    List.reverse_singleton, List.singleton_append, List.find?_cons]
  by_cases hrecord : IsRecordOf noradId record <;> simp [hrecord]

theorem linesAfter_concat (satellites : SatelliteTable) (feed : List TleRecord)
    (record : TleRecord) (noradId : ℤ) :
    linesAfter satellites (feed ++ [record]) noradId =
      if IsRecordOf noradId record then some (TleRecord.lines record)
      else linesAfter satellites feed noradId := by
  rw [linesAfter, lastRecord_concat]
  by_cases hrecord : IsRecordOf noradId record
  · rw [if_pos hrecord, if_pos hrecord]
  · rw [if_neg hrecord, if_neg hrecord]
    rfl

theorem changesFrom_concat (satellites : SatelliteTable) (earlier rest : List TleRecord)
    (record : TleRecord) :
    changesFrom satellites earlier (rest ++ [record]) = changesFrom satellites earlier rest ++
      if IsChange satellites (earlier ++ rest) record then [record] else [] := by
  induction rest generalizing earlier with
  | nil =>
      by_cases hchange : IsChange satellites earlier record <;> simp [changesFrom, hchange]
  | cons first rest ih =>
      by_cases hchange : IsChange satellites earlier first <;>
        simp [changesFrom, hchange, ih, List.append_assoc]

theorem changes_concat (satellites : SatelliteTable) (feed : List TleRecord)
    (record : TleRecord) :
    changes satellites (feed ++ [record]) = changes satellites feed ++
      if IsChange satellites feed record then [record] else [] :=
  changesFrom_concat satellites [] feed record

theorem isChange_iff {satellites : SatelliteTable} {earlier : List TleRecord}
    {record : TleRecord} {noradId : ℤ} (hnorad : IsRecordOf noradId record) :
    IsChange satellites earlier record ↔
      linesAfter satellites earlier noradId ≠ some (TleRecord.lines record) := by
  constructor
  · exact fun hchange => hchange noradId hnorad
  · intro hlines other hother
    rw [IsRecordOf, hnorad] at hother
    cases hother
    exact hlines

/-! ## The loop follows the description -/

/-- The event announces the record: it is a fresh `tle.refreshed` event that
carries the id of the record's row. -/
def Announces (satellites : SatelliteTable) (record : TleRecord) (event : OutboxEvent) : Prop :=
  ∃ noradId row id maxRetries now, IsRecordOf noradId record ∧
    satellites.find? noradId = some row ∧
    event = publish id maxRetries now "tle.refreshed".toList (refreshedPayload row.id noradId)
      (some row.id)

/-- The tables after the records so far. -/
structure Follows (tleEpoch : Text → Text → Option Time) (db : Database)
    (feed : List TleRecord) (progress : Progress) : Prop where
  /-- Every row has the lines of the description. -/
  lines : ∀ noradId, (progress.satellites.find? noradId).map Satellite.lines =
    linesAfter db.satellites feed noradId
  /-- A row whose catalog number has had no change is as it was. -/
  kept : ∀ noradId, (∀ record ∈ changes db.satellites feed, ¬ IsRecordOf noradId record) →
    progress.satellites.find? noradId = db.satellites.find? noradId
  /-- A row whose catalog number has had a change has the epoch of its lines. -/
  epoch : ∀ noradId, (∃ record ∈ changes db.satellites feed, IsRecordOf noradId record) →
    ∀ row, progress.satellites.find? noradId = some row →
      tleEpoch row.tleLine1 row.tleLine2 = some row.epoch
  /-- The new events announce the changes, in order, and are counted. -/
  events : ∃ published, progress.events.rows = db.events.rows ++ published ∧
    progress.changed = published.length ∧
    List.Forall₂ (Announces progress.satellites) (changes db.satellites feed) published

/-- Announcements stay valid while rows keep their ids. -/
theorem Announces.of_ids {satellites satellites' : SatelliteTable} {record : TleRecord}
    {event : OutboxEvent} (h : Announces satellites record event)
    (hids : ∀ noradId row, satellites.find? noradId = some row →
      ∃ row', satellites'.find? noradId = some row' ∧ row'.id = row.id) :
    Announces satellites' record event := by
  obtain ⟨noradId, row, id, maxRetries, now, hnorad, hfind, rfl⟩ := h
  obtain ⟨row', hfind', hid⟩ := hids noradId row hfind
  exact ⟨noradId, row', id, maxRetries, now, hnorad, hfind', by rw [hid]⟩

variable {tleEpoch : Text → Text → Option Time} {env : IngestEnv}

/-- A round that writes a row of a catalog number, and announces it. -/
theorem Follows.of_write {db : Database} {feed : List TleRecord} {record : TleRecord}
    {progress progress' : Progress} {noradId : ℤ} {row : Satellite} {event : OutboxEvent}
    (hfollows : Follows tleEpoch db feed progress) (hnorad : IsRecordOf noradId record)
    (hchange : (progress.satellites.find? noradId).map Satellite.lines ≠
      some (TleRecord.lines record))
    (hfind : ∀ other, progress'.satellites.find? other =
      if noradId = other then some row else progress.satellites.find? other)
    (hids : ∀ before, progress.satellites.find? noradId = some before → row.id = before.id)
    (hlines : Satellite.lines row = TleRecord.lines record)
    (hepoch : tleEpoch row.tleLine1 row.tleLine2 = some row.epoch)
    (hevents : progress'.events.rows = progress.events.rows ++ [event])
    (hcount : progress'.changed = progress.changed + 1)
    (hannounces : Announces progress'.satellites record event) :
    Follows tleEpoch db (feed ++ [record]) progress' := by
  have hisChange : IsChange db.satellites feed record := by
    rw [isChange_iff hnorad, ← hfollows.lines]
    exact hchange
  have hchanges : changes db.satellites (feed ++ [record]) =
      changes db.satellites feed ++ [record] := by
    rw [changes_concat, if_pos hisChange]
  have hother : ∀ other, IsRecordOf other record ↔ noradId = other := by
    intro other
    rw [IsRecordOf, hnorad, Option.some.injEq]
  constructor
  · intro other
    rw [linesAfter_concat, hfind]
    by_cases hsame : noradId = other
    · rw [if_pos hsame, if_pos ((hother other).mpr hsame), Option.map_some, hlines]
    · rw [if_neg hsame, if_neg fun h => hsame ((hother other).mp h)]
      exact hfollows.lines other
  · intro other hnone
    rw [hchanges] at hnone
    have hne : noradId ≠ other := fun hsame =>
      hnone record (by simp) ((hother other).mpr hsame)
    rw [hfind, if_neg hne]
    exact hfollows.kept other fun r hr => hnone r (List.mem_append_left _ hr)
  · intro other hsome after hafter
    rw [hfind] at hafter
    by_cases hsame : noradId = other
    · rw [if_pos hsame] at hafter
      cases hafter
      exact hepoch
    · rw [if_neg hsame] at hafter
      obtain ⟨r, hr, hrecord⟩ := hsome
      rw [hchanges, List.mem_append, List.mem_singleton] at hr
      rcases hr with hr | rfl
      · exact hfollows.epoch other ⟨r, hr, hrecord⟩ after hafter
      · exact absurd ((hother other).mp hrecord) hsame
  · obtain ⟨published, hrows, hlength, hforall⟩ := hfollows.events
    refine ⟨published ++ [event], ?_, ?_, ?_⟩
    · rw [hevents, hrows, List.append_assoc]
    · rw [hcount, hlength, List.length_append, List.length_singleton]
    · rw [hchanges]
      apply List.rel_append
      · apply hforall.imp
        intro r e hre
        apply hre.of_ids
        intro other before hbefore
        by_cases hsame : noradId = other
        · subst hsame
          exact ⟨row, by rw [hfind, if_pos rfl], hids before hbefore⟩
        · exact ⟨before, by rw [hfind, if_neg hsame, hbefore], rfl⟩
      · exact .cons hannounces .nil

/-- A round that leaves the row of a catalog number alone. -/
theorem Follows.of_same {db : Database} {feed : List TleRecord} {record : TleRecord}
    {progress : Progress} {noradId : ℤ} (hfollows : Follows tleEpoch db feed progress)
    (hnorad : IsRecordOf noradId record)
    (hsame : (progress.satellites.find? noradId).map Satellite.lines =
      some (TleRecord.lines record)) : Follows tleEpoch db (feed ++ [record]) progress := by
  have hnotChange : ¬ IsChange db.satellites feed record := by
    rw [isChange_iff hnorad, ← hfollows.lines]
    exact not_not.mpr hsame
  have hchanges : changes db.satellites (feed ++ [record]) = changes db.satellites feed := by
    rw [changes_concat, if_neg hnotChange, List.append_nil]
  constructor
  · intro other
    rw [linesAfter_concat]
    by_cases hother : IsRecordOf other record
    · have hid : noradId = other := Option.some.inj (hnorad.symm.trans hother)
      rw [if_pos hother, ← hid, hsame]
    · rw [if_neg hother]
      exact hfollows.lines other
  · rw [hchanges]
    exact hfollows.kept
  · rw [hchanges]
    exact hfollows.epoch
  · rw [hchanges]
    exact hfollows.events

/-- The step lemma: a round of the loop appends its record to the description. -/
theorem follows_step {db : Database} {feed : List TleRecord} {index : ℕ} {record : TleRecord}
    {progress progress' : Progress} (hfollows : Follows tleEpoch db feed progress)
    (hround : ingestRecord tleEpoch env index record progress = .ok progress') :
    Follows tleEpoch db (feed ++ [record]) progress' := by
  cases ingestRecord_effect hround with
  | @created noradId epoch satellites events hnorad hfind hepoch hcreate hinsert =>
      have hrows := SatelliteTable.find?_create hcreate
      refine hfollows.of_write hnorad ?_ hrows ?_ rfl hepoch
        (Table.insert?_eq_some hinsert).2 rfl ?_
      · rw [hfind]
        simp
      · intro before hbefore
        rw [hfind] at hbefore
        cases hbefore
      · exact ⟨noradId, _, _, _, _, hnorad, by rw [hrows, if_pos rfl], rfl⟩
  | @updated noradId epoch existing events hnorad hfind hlines hepoch hinsert =>
      have hid : existing.noradId = noradId := Table.key_of_find? hfind
      have hrows := SatelliteTable.find?_update (hid ▸ hfind) record.name record.line1
        record.line2 epoch
      rw [hid] at hrows
      refine hfollows.of_write hnorad ?_ hrows ?_ rfl hepoch (Table.insert?_eq_some hinsert).2
        rfl ?_
      · rw [hfind]
        exact fun hsame => hlines (Option.some.inj hsame)
      · intro before hbefore
        rw [hfind] at hbefore
        cases hbefore
        rfl
      · exact ⟨noradId, existing.refreshed record.name record.line1 record.line2 epoch, _, _, _,
          hnorad, by rw [hrows, if_pos rfl], rfl⟩
  | @unchanged noradId existing hnorad hfind hlines =>
      apply hfollows.of_same hnorad
      rw [hfind]
      exact congrArg some hlines

/-- The run lemma. -/
theorem follows_of_ingestFrom {db : Database} {feed rest : List TleRecord} {index : ℕ}
    {progress progress' : Progress} (hfollows : Follows tleEpoch db feed progress)
    (hrun : ingestFrom tleEpoch env index rest progress = .ok progress') :
    Follows tleEpoch db (feed ++ rest) progress' := by
  induction rest generalizing feed index progress with
  | nil =>
      cases hrun
      rw [List.append_nil]
      exact hfollows
  | cons record rest ih =>
      unfold ingestFrom at hrun
      split at hrun
      · cases hrun
      · next next hround =>
          rw [List.append_cons]
          exact ih (follows_step hfollows hround) hrun

/-- A run that raises nothing follows the description of its feed. -/
theorem follows_of_execute {db : Database} {feed : List TleRecord} {progress : Progress}
    (hrun : execute tleEpoch env db (.ok feed) = .ok progress) :
    Follows tleEpoch db feed progress := by
  have hstart : Follows tleEpoch db [] ⟨db.satellites, db.events, 0⟩ := by
    constructor
    · exact fun _ => rfl
    · exact fun _ _ => rfl
    · rintro noradId ⟨record, hmem, -⟩
      cases hmem
    · exact ⟨[], (List.append_nil _).symm, rfl, .nil⟩
  exact follows_of_ingestFrom hstart hrun

/-! ## Exactness -/

/-- What a committed run has done: it has appended one announcement for each
change, in order, and counted them; a catalog number of the feed has its row,
with the lines of its last record, and with their epoch if one of its records was
a change; and every other row is as it was. -/
structure IngestedExactly (tleEpoch : Text → Text → Option Time) (db db' : Database)
    (feed : List TleRecord) (changed : ℕ) : Prop where
  events : ∃ published, db'.events.rows = db.events.rows ++ published ∧
    changed = published.length ∧
    List.Forall₂ (Announces db'.satellites) (changes db.satellites feed) published
  row : ∀ noradId record, lastRecord feed noradId = some record →
    ∃ row, db'.satellites.find? noradId = some row ∧
      row.tleLine1 = record.line1 ∧ row.tleLine2 = record.line2 ∧
      ((∃ r ∈ changes db.satellites feed, IsRecordOf noradId r) →
        tleEpoch record.line1 record.line2 = some row.epoch) ∧
      ((∀ r ∈ changes db.satellites feed, ¬ IsRecordOf noradId r) →
        db.satellites.find? noradId = some row)
  other : ∀ noradId, lastRecord feed noradId = none →
    db'.satellites.find? noradId = db.satellites.find? noradId

theorem mem_of_mem_changesFrom {satellites : SatelliteTable} {earlier rest : List TleRecord}
    {record : TleRecord} (h : record ∈ changesFrom satellites earlier rest) : record ∈ rest := by
  induction rest generalizing earlier with
  | nil => cases h
  | cons first rest ih =>
      unfold changesFrom at h
      split at h
      · rcases List.mem_cons.mp h with rfl | h
        · exact List.mem_cons_self
        · exact List.mem_cons_of_mem first (ih h)
      · exact List.mem_cons_of_mem first (ih h)

theorem lastRecord_eq_none {feed : List TleRecord} {noradId : ℤ} :
    lastRecord feed noradId = none ↔ ∀ record ∈ feed, ¬ IsRecordOf noradId record := by
  simp [lastRecord, List.findRev?_eq_find?_reverse, List.find?_eq_none]

/-- **Exact and all-or-nothing.** A run of `tle_refresh` either leaves both tables
as they were, or it commits what `IngestedExactly` says. -/
theorem tleRefresh_exact (tleEpoch : Text → Text → Option Time) (env : IngestEnv)
    (db : Database) (fetched : Except CelestrakError (List TleRecord)) :
    ((tleRefresh tleEpoch env db fetched).1 = db ∧
      ∀ changed, (tleRefresh tleEpoch env db fetched).2 ≠ .ok (some changed)) ∨
    ∃ feed changed, fetched = .ok feed ∧
      (tleRefresh tleEpoch env db fetched).2 = .ok (some changed) ∧
      IngestedExactly tleEpoch db (tleRefresh tleEpoch env db fetched).1 feed changed := by
  unfold tleRefresh
  split
  · exact Or.inl ⟨rfl, by simp⟩
  · exact Or.inl ⟨rfl, by simp⟩
  next progress hrun =>
  split
  · exact Or.inl ⟨rfl, by simp⟩
  obtain ⟨feed, rfl⟩ : ∃ feed, fetched = .ok feed := by
    cases fetched with
    | ok feed => exact ⟨feed, rfl⟩
    | error error => cases hrun
  have hfollows := follows_of_execute hrun
  refine Or.inr ⟨feed, progress.changed, rfl, rfl, hfollows.events, ?_, ?_⟩
  · intro noradId record hlast
    have hlines := hfollows.lines noradId
    rw [linesAfter, hlast] at hlines
    obtain ⟨row, hfind, hrow⟩ := Option.map_eq_some_iff.mp hlines
    obtain ⟨hline1, hline2⟩ := Prod.mk.inj hrow
    refine ⟨row, hfind, hline1, hline2, fun hsome => ?_, fun hnone => ?_⟩
    · rw [← hline1, ← hline2]
      exact hfollows.epoch noradId hsome row hfind
    · rw [← hfollows.kept noradId hnone, hfind]
  · intro noradId hlast
    apply hfollows.kept
    intro record hmem
    exact lastRecord_eq_none.mp hlast record (mem_of_mem_changesFrom hmem)

/-! ## Idempotence -/

/-- Any two records of one catalog number have the same lines. -/
def IsConsistent (feed : List TleRecord) : Prop :=
  ∀ noradId, ∀ first ∈ feed, ∀ second ∈ feed, IsRecordOf noradId first →
    IsRecordOf noradId second → TleRecord.lines first = TleRecord.lines second

/-- Executing the feed on these tables returns zero and leaves them as they are. -/
def RunsQuietly (tleEpoch : Text → Text → Option Time) (env : IngestEnv) (db : Database)
    (feed : List TleRecord) : Prop :=
  execute tleEpoch env db (.ok feed) = .ok ⟨db.satellites, db.events, 0⟩

/-- A round whose record has the lines of its row does nothing. -/
theorem ingestRecord_of_same {index : ℕ} {record : TleRecord} {progress : Progress}
    {noradId : ℤ} (hnorad : IsRecordOf noradId record)
    (hlookup : env.raises index .lookup = none)
    (hsame : (progress.satellites.find? noradId).map Satellite.lines =
      some (TleRecord.lines record)) :
    ingestRecord tleEpoch env index record progress = .ok progress := by
  obtain ⟨row, hfind, hlines⟩ := Option.map_eq_some_iff.mp hsame
  obtain ⟨hline1, hline2⟩ := Prod.mk.inj hlines
  unfold ingestRecord
  rw [hnorad]
  simp only [hlookup, hfind]
  rw [if_neg]
  simp [hline1, hline2]

/-- A loop whose records all have the lines of their rows does nothing. -/
theorem ingestFrom_of_same {index : ℕ} {rest : List TleRecord} {progress : Progress}
    (hlookup : ∀ position, env.raises position .lookup = none)
    (hsame : ∀ record ∈ rest, ∃ noradId, IsRecordOf noradId record ∧
      (progress.satellites.find? noradId).map Satellite.lines = some (TleRecord.lines record)) :
    ingestFrom tleEpoch env index rest progress = .ok progress := by
  induction rest generalizing index with
  | nil => rfl
  | cons record rest ih =>
      obtain ⟨noradId, hnorad, hlines⟩ := hsame record List.mem_cons_self
      unfold ingestFrom
      rw [ingestRecord_of_same hnorad (hlookup index) hlines]
      exact ih fun r hr => hsame r (List.mem_cons_of_mem record hr)

/-- Every record of a run that raises nothing has a catalog number. -/
theorem exists_isRecordOf_of_ingestFrom {index : ℕ} {rest : List TleRecord}
    {progress progress' : Progress}
    (hrun : ingestFrom tleEpoch env index rest progress = .ok progress') :
    ∀ record ∈ rest, ∃ noradId, IsRecordOf noradId record := by
  induction rest generalizing index progress with
  | nil => simp
  | cons record rest ih =>
      unfold ingestFrom at hrun
      split at hrun
      · cases hrun
      · next next hround =>
          intro r hr
          rcases List.mem_cons.mp hr with rfl | hr
          · cases ingestRecord_effect hround with
            | created hnorad _ _ _ _ => exact ⟨_, hnorad⟩
            | updated hnorad _ _ _ _ => exact ⟨_, hnorad⟩
            | unchanged hnorad _ _ => exact ⟨_, hnorad⟩
          · exact ih hrun r hr

/-- In a feed without changes every record has the lines of its row. -/
theorem lines_eq_of_changesFrom_eq_nil {satellites : SatelliteTable}
    {earlier rest : List TleRecord} (hnone : changesFrom satellites earlier rest = [])
    (hearlier : ∀ noradId, linesAfter satellites earlier noradId =
      (satellites.find? noradId).map Satellite.lines) :
    ∀ record ∈ rest, ∀ noradId, IsRecordOf noradId record →
      (satellites.find? noradId).map Satellite.lines = some (TleRecord.lines record) := by
  induction rest generalizing earlier with
  | nil => simp
  | cons first rest ih =>
      unfold changesFrom at hnone
      split at hnone
      · cases hnone
      · next hsame =>
          have hfirst : ∀ noradId, IsRecordOf noradId first →
              (satellites.find? noradId).map Satellite.lines = some (TleRecord.lines first) := by
            intro noradId hnorad
            rw [isChange_iff hnorad, not_not, hearlier] at hsame
            exact hsame
          intro record hmem
          rcases List.mem_cons.mp hmem with rfl | hmem
          · exact hfirst
          · apply ih hnone _ record hmem
            intro noradId
            rw [linesAfter_concat]
            by_cases hnorad : IsRecordOf noradId first
            · rw [if_pos hnorad, hfirst noradId hnorad]
            · rw [if_neg hnorad, hearlier]

/-- **When the ingest is idempotent.** After a committed run over a feed, running
over the same feed again returns zero, publishes nothing and changes no row if
and only if any two records of one catalog number have the same lines. -/
theorem runsQuietly_iff {db : Database} {feed : List TleRecord} {progress : Progress}
    (hfirst : execute tleEpoch env db (.ok feed) = .ok progress) {env' : IngestEnv}
    (hlookup : ∀ position, env'.raises position .lookup = none) :
    RunsQuietly tleEpoch env' ⟨progress.satellites, progress.events⟩ feed ↔
      IsConsistent feed := by
  constructor
  · intro hquiet noradId first hfirstMem second hsecondMem hnorad hnorad'
    obtain ⟨published, -, hcount, hforall⟩ := (follows_of_execute hquiet).events
    have hnone : changes progress.satellites feed = [] := by
      rw [List.length_eq_zero_iff.mp hcount.symm] at hforall
      exact List.forall₂_nil_right_iff.mp hforall
    have hlines := lines_eq_of_changesFrom_eq_nil hnone fun _ => rfl
    have hsame := (hlines first hfirstMem noradId hnorad).symm.trans
      (hlines second hsecondMem noradId hnorad')
    exact Option.some.inj hsame
  · intro hconsistent
    apply ingestFrom_of_same hlookup
    intro record hmem
    obtain ⟨noradId, hnorad⟩ := exists_isRecordOf_of_ingestFrom hfirst record hmem
    refine ⟨noradId, hnorad, ?_⟩
    show (progress.satellites.find? noradId).map Satellite.lines = _
    rw [(follows_of_execute hfirst).lines, linesAfter]
    cases hlast : lastRecord feed noradId with
    | none => exact absurd hnorad (lastRecord_eq_none.mp hlast record hmem)
    | some last =>
        rw [lastRecord, List.findRev?_eq_find?_reverse] at hlast
        have hlastMem : last ∈ feed := List.mem_reverse.mp (List.mem_of_find?_eq_some hlast)
        have hlastNorad : IsRecordOf noradId last := by simpa using List.find?_some hlast
        exact congrArg some (hconsistent noradId last hlastMem record hmem hlastNorad hnorad)

/-! ## The International Space Station -/

/-- A record of the station. -/
def issRecord : TleRecord where
  name := "ISS (ZARYA)".toList
  line1 := "1 25544U 98067A   24001.50000000  .00016717  00000-0  10270-3 0  9000".toList
  line2 := "2 25544  51.6400 208.0000 0006703 130.0000 325.0000 15.50000000    07".toList

/-- A record of the station one day later. -/
def issRecordLater : TleRecord where
  name := "ISS (ZARYA)".toList
  line1 := "1 25544U 98067A   24002.50000000  .00016717  00000-0  10270-3 0  9001".toList
  line2 := "2 25544  51.6400 203.0000 0006703 131.0000 325.0000 15.50000000    08".toList

/-- A body with both records, in the format of CelesTrak. -/
def issBody : Text :=
  issRecord.name ++ "             \r\n".toList ++ issRecord.line1 ++ "\r\n".toList ++
    issRecord.line2 ++ "\r\n".toList ++ issRecordLater.name ++ "             \r\n".toList ++
    issRecordLater.line1 ++ "\r\n".toList ++ issRecordLater.line2 ++ "\r\n".toList

/-- The epochs of the two records: noon of the first two days of 2024. -/
def issEpoch (line1 _line2 : Text) : Option Time :=
  if line1 = issRecord.line1 then some 1704110400000000
  else if line1 = issRecordLater.line1 then some 1704196800000000
  else none

/-- A run that meets no exception, with ids from a number on. -/
def calmEnv (base : ℕ) : IngestEnv where
  raises _ _ := none
  raisesAtCommit := none
  satelliteId index := base + index
  eventId index := base + index
  startedAt := 0
  maxRetries := 8

/-- Empty tables. -/
def emptyDatabase : Database where
  satellites := { rows := [], nodup := noSatellites_nodup, ids := noSatellites_ids }
  events := ⟨[], noEvents_nodup⟩

/-- A table with the lines of `issRecord` and another epoch. -/
def otherEpochDatabase : Database where
  satellites :=
    { rows := [⟨1, 25544, "ISS".toList, issRecord.line1, issRecord.line2, 1704067200000000⟩]
      nodup := by decide
      ids := by decide }
  events := ⟨[], noEvents_nodup⟩

/-- A committed run leaves the row with an epoch that is not that of the last
record of its catalog number. -/
theorem epoch_kept :
    (tleRefresh issEpoch (calmEnv 10) otherEpochDatabase (.ok [issRecord])).2 = .ok (some 0) ∧
    lastRecord [issRecord] 25544 = some issRecord ∧
    ((tleRefresh issEpoch (calmEnv 10) otherEpochDatabase (.ok [issRecord])).1.satellites.find?
      25544).map Satellite.epoch = some 1704067200000000 ∧
    issEpoch issRecord.line1 issRecord.line2 ≠ some 1704067200000000 := by
  decide +kernel

theorem fetchGroup_issBody :
    fetchGroup (.received 200 issBody) = .ok [issRecord, issRecordLater] := by
  decide +kernel

/-- A feed that the driver accepts, after which a second run is not quiet: it
counts and announces both records again. -/
theorem iss_not_idempotent :
    fetchGroup (.received 200 issBody) = .ok [issRecord, issRecordLater] ∧
    (tleRefresh issEpoch (calmEnv 10) emptyDatabase (.ok [issRecord, issRecordLater])).2 =
      .ok (some 2) ∧
    (tleRefresh issEpoch (calmEnv 20)
      (tleRefresh issEpoch (calmEnv 10) emptyDatabase (.ok [issRecord, issRecordLater])).1
      (.ok [issRecord, issRecordLater])).2 = .ok (some 2) ∧
    (tleRefresh issEpoch (calmEnv 20)
      (tleRefresh issEpoch (calmEnv 10) emptyDatabase (.ok [issRecord, issRecordLater])).1
      (.ok [issRecord, issRecordLater])).1.events.rows.length = 4 := by
  refine ⟨fetchGroup_issBody, ?_⟩
  decide +kernel

/-- A record of the space telescope. -/
def hstRecord : TleRecord where
  name := "HST".toList
  line1 := "1 20580U 90037B   24001.50000000  .00001700  00000-0  84000-4 0  9000".toList
  line2 := "2 20580  28.4700 120.0000 0002500 300.0000  60.0000 15.15000000    05".toList

/-- Two satellites, and the first one again under another name. -/
def stationsFeed : List TleRecord :=
  [issRecord, hstRecord, { issRecord with name := "ISS (NAUKA)".toList }]

/-- The epochs of its records. -/
def stationsEpoch (line1 line2 : Text) : Option Time :=
  if line1 = hstRecord.line1 then some 1704110400000000 else issEpoch line1 line2

/-- A run over that feed inserts two rows, and can be repeated. -/
theorem iss_runsQuietly :
    ∃ progress, execute stationsEpoch (calmEnv 10) emptyDatabase (.ok stationsFeed) = .ok progress ∧
      progress.changed = 2 ∧
      RunsQuietly stationsEpoch (calmEnv 20) ⟨progress.satellites, progress.events⟩
        stationsFeed := by
  have hcount : (execute stationsEpoch (calmEnv 10) emptyDatabase (.ok stationsFeed)).toOption.map
      Progress.changed = some 2 := by
    decide +kernel
  cases hrun : execute stationsEpoch (calmEnv 10) emptyDatabase (.ok stationsFeed) with
  | error error =>
      rw [hrun] at hcount
      cases hcount
  | ok progress =>
      rw [hrun] at hcount
      have hlines : ∀ first ∈ stationsFeed, ∀ second ∈ stationsFeed,
          tleNoradId first.line1 = tleNoradId second.line1 →
            TleRecord.lines first = TleRecord.lines second := by
        decide +kernel
      have hconsistent : IsConsistent stationsFeed :=
        fun noradId first hfirst second hsecond hnorad hnorad' =>
          hlines first hfirst second hsecond (hnorad.trans hnorad'.symm)
      have hlookup : ∀ position, (calmEnv 20).raises position .lookup = none := fun _ => rfl
      exact ⟨progress, rfl, Option.some.inj hcount,
        (runsQuietly_iff hrun hlookup).mpr hconsistent⟩

end Apsis.Tracking
