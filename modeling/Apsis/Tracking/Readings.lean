/-
# What calls of `recompute_passes` have read

The revision of a satellite counts the changes that refreshes have committed to
its row. A call notes the stations that it has listed and, for each of them, the
two lines that it has read and the revision that they were. The rows that it has
stored for a station when it leaves it are exactly the passes of this reading.
-/

import Apsis.Tracking.Apart
import Apsis.Tracking.Feed

namespace Apsis.Tracking

open Apsis.Library Apsis.Core

universe u

variable {W : Type u}

/-! ## Revisions, listings and readings -/

/-- The changes that a transition commits. -/
def changesBy (t : Transition (State W) (Action W)) : List Change :=
  match t.action with
  | .refresh _ _ changes => changes
  | _ => []

/-- The number of changes of a satellite so far. -/
def revision : History (State W) (Action W) → Uuid → ℕ
  | [], _ => 0
  | t :: earlier, satelliteId =>
      revision earlier satelliteId +
        (changesBy t).countP fun change => decide (change.satellite.id = satelliteId)

/-- The stations that a transition lists, under its transaction. -/
def listingBy (t : Transition (State W) (Action W)) : Option (TxId × List GroundStation) :=
  match t.action with
  | .recompute worker (.listAll order) =>
      ((t.source.handler worker).tx?).map fun tx => (tx, order)
  | _ => none

/-- The stations that a transaction has listed. -/
def listingOf (h : History (State W) (Action W)) (tx : TxId) : Option (List GroundStation) :=
  h.recorded (fun _ => listingBy) tx

/-- What `execute` has read for a station. -/
structure Reading where
  lines : Text × Text
  station : GroundStation
  window : Time × Time
  revision : ℕ
  deriving DecidableEq

/-- The passes that `compute_passes` returns for a reading. -/
def Reading.passes (sky : Skyfield) (reading : Reading) : Except PassError (List SatellitePass) :=
  computePasses sky reading.lines.1 reading.lines.2
    ⟨reading.station.location.2, reading.station.location.1, reading.station.altitudeM⟩
    reading.window 10 24

/-- The reading that a transition makes: its transaction, its pair and what is
read. -/
def readBy (earlier : History (State W) (Action W)) (t : Transition (State W) (Action W)) :
    Option ((TxId × Pair) × Reading) :=
  match t.action with
  | .recompute worker .getSatellite =>
      match t.source.handler worker with
      | .running call (.looping (station :: _)) =>
          (t.source.satellite? call.satelliteId).map fun satellite =>
            ((call.tx, (call.satelliteId, station.id)),
              ⟨satellite.lines, station, call.window, revision earlier call.satelliteId⟩)
      | _ => none
  | _ => none

/-- The reading that a transaction has made for a pair. -/
def readingOf (h : History (State W) (Action W)) (tx : TxId) (pair : Pair) : Option Reading :=
  h.recorded readBy (tx, pair)

section Cons

variable {t : Transition (State W) (Action W)} {h : History (State W) (Action W)}

theorem listingOf_cons_of_none (hnone : listingBy t = none) :
    listingOf (t :: h) = listingOf h := by
  ext1 tx
  exact History.recorded_cons_of_none hnone tx

theorem listingOf_cons_of_some {noted : TxId × List GroundStation}
    (hsome : listingBy t = some noted) (tx : TxId) : listingOf (t :: h) tx =
      if noted.1 = tx then some noted.2 else listingOf h tx :=
  History.recorded_cons_of_some hsome tx

theorem readingOf_cons_of_none (hnone : readBy h t = none) :
    readingOf (t :: h) = readingOf h := by
  ext1 tx
  ext1 pair
  exact History.recorded_cons_of_none hnone (tx, pair)

theorem readingOf_cons_of_some {noted : (TxId × Pair) × Reading} (hsome : readBy h t = some noted)
    (tx : TxId) (pair : Pair) : readingOf (t :: h) tx pair =
      if noted.1 = (tx, pair) then some noted.2 else readingOf h tx pair :=
  History.recorded_cons_of_some hsome (tx, pair)

theorem readBy_eq_some {noted : (TxId × Pair) × Reading} (hsome : readBy h t = some noted) :
    ∃ worker call station stations satellite, t.action = .recompute worker .getSatellite ∧
      t.source.handler worker = .running call (.looping (station :: stations)) ∧
        t.source.satellite? call.satelliteId = some satellite ∧
          noted = ((call.tx, (call.satelliteId, station.id)),
            ⟨satellite.lines, station, call.window, revision h call.satelliteId⟩) := by
  unfold readBy at hsome
  split at hsome
  · next worker haction =>
      split at hsome
      · next call station stations hplace =>
          obtain ⟨satellite, hfind, hnoted⟩ := Option.map_eq_some_iff.mp hsome
          exact ⟨worker, call, station, stations, satellite, haction, hplace, hfind, hnoted.symm⟩
      · cases hsome
  · cases hsome

theorem revision_cons_of_nil (hnone : changesBy t = []) : revision (t :: h) = revision h := by
  ext1 satelliteId
  rw [revision, hnone]
  rfl

theorem revision_le_cons (satelliteId : Uuid) :
    revision h satelliteId ≤ revision (t :: h) satelliteId :=
  Nat.le_add_right _ _

end Cons

/-! ## The invariant of the calls -/

section Invariant

variable (sky : Skyfield) (first : TxId) (h : History (State W) (Action W))
  (predictions : PredictionStore)

/-- What a transaction has read for a pair, with one exception, it has stored. -/
structure Settles (tx : TxId) (current : Option Pair) : Prop where
  read : first ≤ tx → ∀ pair, snapshotFrom first h tx pair ≠ none → readingOf h tx pair ≠ none
  stored : ∀ pair reading, readingOf h tx pair = some reading → current ≠ some pair →
    snapshotFrom first h tx pair ≠ none ∧
      reading.passes sky =
        .ok ((predictions.written tx (isOf pair)).map PassPrediction.pass)

/-- The stations that a call has listed: these are still to be read, and the others
have been read. -/
structure Visits (call : Recompute) (order stations : List GroundStation) : Prop where
  listing : listingOf h call.tx = some order
  remaining : ∀ station ∈ stations, station ∈ order
  visited : ∀ station ∈ order, station ∈ stations ∨
    ∃ reading, readingOf h call.tx (call.satelliteId, station.id) = some reading ∧
      reading.station = station
  readings : ∀ pair reading, readingOf h call.tx pair = some reading →
    reading.station ∈ order ∧ pair = (call.satelliteId, reading.station.id) ∧
      reading.window = call.window

/-- What a call has in its hands in `execute` comes from what it has read, with the
rows that it has written so far. -/
def ExecutionReads (reading : Reading) (written : List PassPrediction) : Execution → Prop
  | .located satellite => satellite.lines = reading.lines
  | .computing satellite => satellite.lines = reading.lines
  | .computed predicted => reading.passes sky = .ok predicted
  | .deleting _ predicted => reading.passes sky = .ok predicted
  | .inserting predicted =>
      reading.passes sky = .ok (written.map PassPrediction.pass ++ predicted)

/-- What a call has read at its place. -/
def PlaceReads (call : Recompute) : Place → Prop
  | .listing => (∀ pair, readingOf h call.tx pair = none) ∧
      Settles sky first h predictions call.tx none
  | .looping stations =>
      (∃ order, Visits h call order stations) ∧ Untouched (readingOf h call.tx) call stations ∧
        Settles sky first h predictions call.tx none
  | .executing station stations execution =>
      (∃ order, Visits h call order stations) ∧ Untouched (readingOf h call.tx) call stations ∧
        Settles sky first h predictions call.tx (some (call.satelliteId, station.id)) ∧
          ∃ reading, readingOf h call.tx (call.satelliteId, station.id) = some reading ∧
            reading.station = station ∧ ExecutionReads sky reading
              (predictions.written call.tx (isOf (call.satelliteId, station.id))) execution

end Invariant

/-- The readings of the calls, and the rows stored from them. -/
structure Reads (sky : Skyfield) (first : TxId) (h : History (State W) (Action W)) (s : State W) :
    Prop where
  numbered : ∀ tx pair, readingOf h tx pair ≠ none → first ≤ tx ∧ tx < s.nextTx
  settled : ∀ tx ∈ s.predictions.committed, Settles sky first h s.predictions tx none
  places : ∀ worker call place, s.handler worker = .running call place →
    PlaceReads sky first h s.predictions call place

/-! ## Transactions that a step leaves alone -/

/-- A transition lists no stations, reads no satellite and ends no `DELETE`. -/
structure NotesNothing (h : History (State W) (Action W)) (t : Transition (State W) (Action W)) :
    Prop where
  listing : listingBy t = none
  read : readBy h t = none
  delete : deleteBy t = none

/-- A step has noted nothing of a transaction, and its rows are the same. -/
structure LeavesAlone (first : TxId) (h h' : History (State W) (Action W))
    (predictions predictions' : PredictionStore) (tx : TxId) : Prop where
  listing : listingOf h' tx = listingOf h tx
  readings : readingOf h' tx = readingOf h tx
  snapshots : snapshotFrom first h' tx = snapshotFrom first h tx
  written : ∀ pair, predictions'.written tx (isOf pair) = predictions.written tx (isOf pair)

section Frame

variable {sky : Skyfield} {first : TxId} {h h' : History (State W) (Action W)}
  {predictions predictions' : PredictionStore} {call : Recompute}

theorem Settles.frame {tx : TxId} {current : Option Pair}
    (hsettles : Settles sky first h predictions tx current)
    (hframe : LeavesAlone first h h' predictions predictions' tx) :
    Settles sky first h' predictions' tx current := by
  constructor
  · rw [hframe.readings, hframe.snapshots]
    exact hsettles.read
  · rw [hframe.readings, hframe.snapshots]
    intro pair reading hreading hcurrent
    rw [hframe.written]
    exact hsettles.stored pair reading hreading hcurrent

theorem Visits.frame {order stations : List GroundStation} (hvisits : Visits h call order stations)
    (hlisting : listingOf h' call.tx = listingOf h call.tx)
    (hreadings : readingOf h' call.tx = readingOf h call.tx) : Visits h' call order stations := by
  obtain ⟨hlisted, hremaining, hvisited, hread⟩ := hvisits
  rw [← hreadings] at hvisited hread
  exact ⟨hlisting.trans hlisted, hremaining, hvisited, hread⟩

theorem PlaceReads.frame {place : Place} (hplace : PlaceReads sky first h predictions call place)
    (hframe : LeavesAlone first h h' predictions predictions' call.tx) :
    PlaceReads sky first h' predictions' call place := by
  cases place with
  | listing =>
      obtain ⟨hnone, hsettles⟩ := hplace
      rw [← hframe.readings] at hnone
      exact ⟨hnone, hsettles.frame hframe⟩
  | looping stations =>
      obtain ⟨⟨order, hvisits⟩, huntouched, hsettles⟩ := hplace
      rw [← hframe.readings] at huntouched
      exact ⟨⟨order, hvisits.frame hframe.listing hframe.readings⟩, huntouched,
        hsettles.frame hframe⟩
  | executing station stations execution =>
      obtain ⟨⟨order, hvisits⟩, huntouched, hsettles, hrest⟩ := hplace
      rw [← hframe.readings] at huntouched hrest
      rw [← hframe.written] at hrest
      exact ⟨⟨order, hvisits.frame hframe.listing hframe.readings⟩, huntouched,
        hsettles.frame hframe, hrest⟩

end Frame

/-! ## Steps -/

section Steps

variable [DecidableEq W] {sky : Skyfield} {settings : Settings} {first : TxId}
  {h : History (State W) (Action W)} {s s' : State W} {t : Transition (State W) (Action W)}
  {worker : W} {call : Recompute} {next : Handler}

omit [DecidableEq W] in
/-- A step that notes nothing leaves alone every transaction whose rows are the same. -/
theorem leavesAlone_of_none (hnothing : NotesNothing h t)
    {predictions predictions' : PredictionStore} {tx : TxId}
    (hwritten : ∀ pair, predictions'.written tx (isOf pair) = predictions.written tx (isOf pair)) :
    LeavesAlone first h (t :: h) predictions predictions' tx where
  listing := by rw [listingOf_cons_of_none hnothing.listing]
  readings := by rw [readingOf_cons_of_none hnothing.read]
  snapshots := by rw [snapshotFrom_cons_of_none hnothing.delete]
  written := hwritten

/-- A worker goes on, and no one commits. -/
theorem Reads.enter (hinv : Reads sky first h s) (hok : CallsFrom first h s)
    (hhandler : s'.handler = Function.update s.handler worker next)
    (hcommitted : s'.predictions.committed = s.predictions.committed)
    (hcount : s.nextTx ≤ s'.nextTx)
    (hnumbered : ∀ tx pair, readingOf (t :: h) tx pair ≠ none →
      readingOf h tx pair ≠ none ∨ first ≤ tx ∧ tx < s.nextTx)
    (hothers : ∀ tx, (s.handler worker).tx? ≠ some tx →
      LeavesAlone first h (t :: h) s.predictions s'.predictions tx)
    (hplace : ∀ call place, next = .running call place →
      PlaceReads sky first (t :: h) s'.predictions call place) :
    Reads sky first (t :: h) s' := by
  constructor
  · intro tx pair hsome
    have hbounds : first ≤ tx ∧ tx < s.nextTx :=
      (hnumbered tx pair hsome).elim (hinv.numbered tx pair) id
    exact ⟨hbounds.1, hbounds.2.trans_le hcount⟩
  · rw [hcommitted]
    intro tx hmem
    refine (hinv.settled tx hmem).frame (hothers tx ?_)
    intro hopen
    exact hok.sessions.uncommitted worker tx hopen hmem
  · intro other call place hother
    rw [hhandler] at hother
    by_cases hsame : other = worker
    · rw [hsame, Function.update_self] at hother
      exact hplace call place hother
    · rw [Function.update_of_ne hsame] at hother
      refine (hinv.places other call place hother).frame (hothers call.tx ?_)
      intro hopen
      exact hsame (hok.sessions.owner other worker call.tx (congrArg Handler.tx? hother) hopen)

/-- A worker goes on without writing, and nothing is noted. -/
theorem Reads.move (hinv : Reads sky first h s) (hok : CallsFrom first h s)
    (hnothing : NotesNothing h t)
    (hhandler : s'.handler = Function.update s.handler worker next)
    (hpredictions : s'.predictions = s.predictions) (hcount : s.nextTx ≤ s'.nextTx)
    (hplace : ∀ call place, next = .running call place →
      PlaceReads sky first h s.predictions call place) :
    Reads sky first (t :: h) s' := by
  have halone : ∀ tx, LeavesAlone first h (t :: h) s.predictions s'.predictions tx := by
    intro tx
    apply leavesAlone_of_none hnothing
    intro pair
    rw [hpredictions]
  apply hinv.enter hok hhandler
  · rw [hpredictions]
  · exact hcount
  · rw [readingOf_cons_of_none hnothing.read]
    exact fun _ _ hsome => Or.inl hsome
  · exact fun tx _ => halone tx
  · exact fun call place hnext => (hplace call place hnext).frame (halone call.tx)

/-- A worker drops its call, if it has one. -/
theorem Reads.drop (hinv : Reads sky first h s) (hok : CallsFrom first h s)
    (hlisting : ∀ noted, listingBy t = some noted → (s.handler worker).tx? = some noted.1)
    (hread : readBy h t = none) (hdelete : deleteBy t = none) (hnext : next.tx? = none) :
    Reads sky first (t :: h) (s.drop worker next) := by
  have hothers : ∀ predictions : PredictionStore, ∀ tx, (s.handler worker).tx? ≠ some tx →
      (∀ pair, predictions.written tx (isOf pair) = s.predictions.written tx (isOf pair)) →
        LeavesAlone first h (t :: h) s.predictions predictions tx := by
    intro predictions tx hother hwritten
    constructor
    · cases hnoted : listingBy t with
      | none => rw [listingOf_cons_of_none hnoted]
      | some noted =>
          rw [listingOf_cons_of_some hnoted, if_neg]
          rintro rfl
          exact hother (hlisting noted hnoted)
    · rw [readingOf_cons_of_none hread]
    · rw [snapshotFrom_cons_of_none hdelete]
    · exact hwritten
  have hnumbered : ∀ tx pair, readingOf (t :: h) tx pair ≠ none →
      readingOf h tx pair ≠ none ∨ first ≤ tx ∧ tx < s.nextTx := by
    rw [readingOf_cons_of_none hread]
    exact fun _ _ hsome => Or.inl hsome
  cases hopen : (s.handler worker).tx? with
  | none =>
      rw [State.drop_of_none _ _ _ hopen]
      apply hinv.enter hok
      · exact rfl
      · exact rfl
      · exact le_rfl
      · exact hnumbered
      · exact fun tx hother => hothers _ tx hother fun _ => rfl
      · exact not_running hnext
  | some tx =>
      rw [State.drop_of_tx _ _ _ hopen]
      apply hinv.enter hok
      · exact rfl
      · exact rfl
      · exact le_rfl
      · exact hnumbered
      · intro other hother
        apply hothers _ other hother
        intro pair
        apply Store.written_rollback
        rintro rfl
        exact hother hopen
      · exact not_running hnext

/-- A call begins. -/
theorem Reads.begin (hinv : Reads sky first h s) (hok : CallsFrom first h s) {satelliteId : Uuid}
    {window : Time × Time} (hnothing : NotesNothing h t) :
    Reads sky first (t :: h) (({ s with nextTx := s.nextTx + 1 } : State W).enter worker
      (.running ⟨s.nextTx, satelliteId, window⟩ .listing)) := by
  have hnew : ∀ pair, readingOf h s.nextTx pair = none := by
    intro pair
    by_contra hsome
    exact Nat.lt_irrefl _ (hinv.numbered s.nextTx pair hsome).2
  apply hinv.move hok hnothing
  · exact rfl
  · exact rfl
  · exact Nat.le_succ _
  · rintro _ _ hplace
    cases hplace
    refine ⟨hnew, ?_, ?_⟩
    · intro _ pair hsome
      obtain ⟨snapshot, hsnapshot⟩ := Option.ne_none_iff_exists'.mp hsome
      exact absurd (hok.calls.noted _ _ _ hsnapshot).1 (Nat.lt_irrefl _)
    · intro pair reading hreading
      rw [hnew] at hreading
      cases hreading

/-- A call lists the stations. -/
theorem Reads.listAll (hinv : Reads sky first h s) (hok : CallsFrom first h s)
    {order : List GroundStation} (hplace : s.handler worker = .running call .listing)
    (horder : order.Perm s.stations.rows)
    (ht : t = ⟨s, .recompute worker (.listAll order), s'⟩) :
    Reads sky first (t :: h) (s.enter worker (.running call (.looping order))) := by
  have hopen : (s.handler worker).tx? = some call.tx := congrArg Handler.tx? hplace
  have hnoted : listingBy t = some (call.tx, order) := by
    rw [ht]
    simp only [listingBy, hopen, Option.map_some]
  have hread : readBy h t = none := by rw [ht]; rfl
  have hdelete : deleteBy t = none := by rw [ht]; rfl
  obtain ⟨hnone, hsettles⟩ := hinv.places worker call _ hplace
  apply hinv.enter hok
  · exact rfl
  · exact rfl
  · exact le_rfl
  · rw [readingOf_cons_of_none hread]
    exact fun _ _ hsome => Or.inl hsome
  · intro tx hother
    constructor
    · rw [listingOf_cons_of_some hnoted, if_neg]
      rintro rfl
      exact hother hopen
    · rw [readingOf_cons_of_none hread]
    · rw [snapshotFrom_cons_of_none hdelete]
    · exact fun _ => rfl
  · rintro _ _ hnext
    cases hnext
    refine ⟨⟨order, ?_⟩, ?_, ?_⟩
    · constructor
      · rw [listingOf_cons_of_some hnoted, if_pos rfl]
      · exact fun _ => id
      · exact fun station hmem => Or.inl hmem
      · rw [readingOf_cons_of_none hread]
        intro pair reading hreading
        rw [hnone] at hreading
        cases hreading
    · rw [readingOf_cons_of_none hread]
      refine ⟨(horder.map GroundStation.id).nodup_iff.mpr s.stations.nodup, fun station _ => ?_⟩
      exact hnone (call.satelliteId, station.id)
    · constructor
      · rw [readingOf_cons_of_none hread, snapshotFrom_cons_of_none hdelete]
        exact hsettles.read
      · rw [readingOf_cons_of_none hread, snapshotFrom_cons_of_none hdelete]
        exact hsettles.stored

/-- A call reads its satellite for the next station. -/
theorem Reads.getSatellite (hinv : Reads sky first h s) (hok : CallsFrom first h s)
    {station : GroundStation} {stations : List GroundStation} {satellite : Satellite}
    (hplace : s.handler worker = .running call (.looping (station :: stations)))
    (hfind : s.satellite? call.satelliteId = some satellite)
    (ht : t = ⟨s, .recompute worker .getSatellite, s'⟩) :
    Reads sky first (t :: h)
      (s.enter worker (.running call (.executing station stations (.located satellite)))) := by
  let reading : Reading :=
    ⟨satellite.lines, station, call.window, revision h call.satelliteId⟩
  have hopen : (s.handler worker).tx? = some call.tx := congrArg Handler.tx? hplace
  have hlisting : listingBy t = none := by rw [ht]; rfl
  have hdelete : deleteBy t = none := by rw [ht]; rfl
  have hnoted : readBy h t = some ((call.tx, (call.satelliteId, station.id)), reading) := by
    rw [ht]
    simp only [readBy, hplace, hfind, Option.map_some]
    rfl
  obtain ⟨⟨order, hvisits⟩, ⟨hnodup, hnone⟩, hsettles⟩ := hinv.places worker call _ hplace
  obtain ⟨hnotMem, hnodup⟩ := List.nodup_cons.mp hnodup
  have hself : readingOf (t :: h) call.tx (call.satelliteId, station.id) = some reading := by
    rw [readingOf_cons_of_some hnoted, if_pos rfl]
  have hkept : ∀ pair, pair ≠ (call.satelliteId, station.id) →
      readingOf (t :: h) call.tx pair = readingOf h call.tx pair := by
    intro pair hne
    rw [readingOf_cons_of_some hnoted, if_neg]
    rintro hsame
    exact hne (Prod.mk.inj hsame).2.symm
  have hfirst : first ≤ call.tx := first_le_of_snapshotFrom
    ((hok.calls.places worker call _ hplace).2 station List.mem_cons_self)
  apply hinv.enter hok
  · exact rfl
  · exact rfl
  · exact le_rfl
  · intro tx pair hsome
    rw [readingOf_cons_of_some hnoted] at hsome
    split at hsome
    · next hsame =>
        cases hsame
        exact Or.inr ⟨hfirst, hok.sessions.numbered _ (Or.inr ⟨worker, hopen⟩)⟩
    · exact Or.inl hsome
  · intro tx hother
    constructor
    · rw [listingOf_cons_of_none hlisting]
    · ext1 pair
      rw [readingOf_cons_of_some hnoted, if_neg]
      rintro hsame
      cases hsame
      exact hother hopen
    · rw [snapshotFrom_cons_of_none hdelete]
    · exact fun _ => rfl
  · rintro _ _ hnext
    cases hnext
    refine ⟨⟨order, ?_⟩, ⟨hnodup, ?_⟩, ?_, reading, hself, rfl, rfl⟩
    · constructor
      · rw [listingOf_cons_of_none hlisting]
        exact hvisits.listing
      · exact fun other hmem => hvisits.remaining other (List.mem_cons_of_mem station hmem)
      · intro other hmem
        by_cases hsame : other = station
        · rw [hsame]
          exact Or.inr ⟨reading, hself, rfl⟩
        · rcases hvisits.visited other hmem with hremains | ⟨noted, hsome, hstation⟩
          · exact Or.inl ((List.mem_cons.mp hremains).resolve_left hsame)
          · refine Or.inr ⟨noted, ?_, hstation⟩
            rw [hkept, hsome]
            rintro hpair
            rw [hpair, hnone station List.mem_cons_self] at hsome
            cases hsome
      · intro pair noted hsome
        by_cases hpair : pair = (call.satelliteId, station.id)
        · rw [hpair, hself] at hsome
          cases hsome
          exact ⟨hvisits.remaining station List.mem_cons_self, hpair, rfl⟩
        · rw [hkept pair hpair] at hsome
          exact hvisits.readings pair noted hsome
    · intro other hmem
      rw [hkept, hnone other (List.mem_cons_of_mem station hmem)]
      rintro hpair
      apply hnotMem
      rw [← (Prod.mk.inj hpair).2]
      exact List.mem_map_of_mem hmem
    · constructor
      · rw [snapshotFrom_cons_of_none hdelete]
        intro _ pair hsome
        by_cases hpair : pair = (call.satelliteId, station.id)
        · rw [hpair, hself]
          exact Option.some_ne_none reading
        · rw [hkept pair hpair]
          exact hsettles.read hfirst pair hsome
      · rw [snapshotFrom_cons_of_none hdelete]
        intro pair noted hsome hcurrent
        have hpair : pair ≠ (call.satelliteId, station.id) := fun hsame => hcurrent (hsame ▸ rfl)
        rw [hkept pair hpair] at hsome
        exact hsettles.stored pair noted hsome (Option.some_ne_none pair).symm

/-- A call goes on in `execute`, without writing. -/
theorem Reads.proceed (hinv : Reads sky first h s) (hok : CallsFrom first h s)
    {station : GroundStation} {stations : List GroundStation} {execution execution' : Execution}
    (hnothing : NotesNothing h t)
    (hplace : s.handler worker = .running call (.executing station stations execution))
    (hreads : ∀ reading : Reading, reading.station = station → reading.window = call.window →
      ExecutionReads sky reading
        (s.predictions.written call.tx (isOf (call.satelliteId, station.id))) execution →
      ExecutionReads sky reading
        (s.predictions.written call.tx (isOf (call.satelliteId, station.id))) execution') :
    Reads sky first (t :: h)
      (s.enter worker (.running call (.executing station stations execution'))) := by
  obtain ⟨⟨order, hvisits⟩, huntouched, hsettles, reading, hsome, hstation, hexecution⟩ :=
    hinv.places worker call _ hplace
  have hwindow := (hvisits.readings _ reading hsome).2.2
  apply hinv.move hok hnothing
  · exact rfl
  · exact rfl
  · exact le_rfl
  · rintro _ _ hnext
    cases hnext
    exact ⟨⟨order, hvisits⟩, huntouched, hsettles, reading, hsome, hstation,
      hreads reading hstation hwindow hexecution⟩

omit [DecidableEq W] in
/-- Nobody goes on, and what everyone has written is the same. -/
theorem Reads.stay (hinv : Reads sky first h s) (hnothing : NotesNothing h t)
    (hhandler : s'.handler = s.handler)
    (hcommitted : s'.predictions.committed = s.predictions.committed)
    (hwritten : ∀ tx pair,
      s'.predictions.written tx (isOf pair) = s.predictions.written tx (isOf pair))
    (hcount : s.nextTx ≤ s'.nextTx) : Reads sky first (t :: h) s' := by
  have halone : ∀ tx, LeavesAlone first h (t :: h) s.predictions s'.predictions tx :=
    fun tx => leavesAlone_of_none hnothing (hwritten tx)
  constructor
  · rw [readingOf_cons_of_none hnothing.read]
    intro tx pair hsome
    obtain ⟨hfirst, hlt⟩ := hinv.numbered tx pair hsome
    exact ⟨hfirst, hlt.trans_le hcount⟩
  · intro tx hmem
    rw [hcommitted] at hmem
    exact (hinv.settled tx hmem).frame (halone tx)
  · rw [hhandler]
    exact fun worker call place hplace =>
      (hinv.places worker call place hplace).frame (halone call.tx)

/-- A `DELETE` ends. The call has no rows of the pair so far. -/
theorem Reads.endDelete (hinv : Reads sky first h s) (hok : CallsFrom first h s)
    {station : GroundStation} {stations : List GroundStation} {snapshot : List TxId}
    {predicted : List SatellitePass}
    (hplace : s.handler worker = .running call (.executing station stations
      (.deleting snapshot predicted)))
    (ht : t = ⟨s, .recompute worker .endDelete, s'⟩) :
    Reads sky first (t :: h)
      (s.enter worker (.running call (.executing station stations (.inserting predicted)))) := by
  have hopen : (s.handler worker).tx? = some call.tx := congrArg Handler.tx? hplace
  have hlisting : listingBy t = none := by rw [ht]; rfl
  have hread : readBy h t = none := by rw [ht]; rfl
  have hnoted : deleteBy t = some ((call.tx, (call.satelliteId, station.id)), snapshot) := by
    rw [ht]
    simp only [deleteBy, hplace]
  have hnone := (hok.calls.places worker call _ hplace).1.2 station List.mem_cons_self
  have hfirst := first_le_of_snapshotFrom hnone
  have hsnapshot := snapshotFrom_cons_of_some hnoted hfirst h
  obtain ⟨⟨order, hvisits⟩, huntouched, hsettles, reading, hsome, hstation, hpasses⟩ :=
    hinv.places worker call _ hplace
  apply hinv.enter hok
  · exact rfl
  · exact rfl
  · exact le_rfl
  · rw [readingOf_cons_of_none hread]
    exact fun _ _ hsome => Or.inl hsome
  · intro tx hother
    constructor
    · rw [listingOf_cons_of_none hlisting]
    · rw [readingOf_cons_of_none hread]
    · ext1 pair
      rw [hsnapshot, if_neg]
      rintro hsame
      cases hsame
      exact hother hopen
    · exact fun _ => rfl
  · rintro _ _ hnext
    cases hnext
    have hreadings := readingOf_cons_of_none hread
    refine ⟨⟨order, hvisits.frame (by rw [listingOf_cons_of_none hlisting]) (by rw [hreadings])⟩,
      by rw [hreadings]; exact huntouched, ?_, reading, by rw [hreadings]; exact hsome,
      hstation, ?_⟩
    · constructor
      · rw [hreadings]
        intro hle pair hnotNone
        rw [hsnapshot] at hnotNone
        split at hnotNone
        · next hsame =>
            rw [← (Prod.mk.inj hsame).2, hsome]
            exact Option.some_ne_none reading
        · exact hsettles.read hle pair hnotNone
      · rw [hreadings]
        intro pair noted hnotedPair hcurrent
        rw [hsnapshot, if_neg]
        · exact hsettles.stored pair noted hnotedPair hcurrent
        · rintro hsame
          exact hcurrent (congrArg some (Prod.mk.inj hsame).2)
    · show reading.passes sky =
        .ok ((s.predictions.written call.tx _).map PassPrediction.pass ++ predicted)
      rw [written_eq_nil (hok.calls.not_inserted hnone)]
      exact hpasses

/-- A call creates a row. -/
theorem Reads.create (hinv : Reads sky first h s) (hok : CallsFrom first h s)
    {station : GroundStation} {stations : List GroundStation} {pass : SatellitePass}
    {predicted : List SatellitePass} {id : Uuid} {track : List (ℚ × ℚ)}
    {predictions : PredictionStore}
    (hnothing : NotesNothing h t)
    (hplace : s.handler worker = .running call (.executing station stations
      (.inserting (pass :: predicted))))
    (htrack : linestringToWkb pass.groundTrack = some track)
    (hinsert : s.predictions.insert call.tx PassPrediction.conflicts
      (predictionOf id (call.satelliteId, station.id) pass track) = .inserted predictions) :
    Reads sky first (t :: h) (({ s with predictions := predictions } : State W).enter worker
      (.running call (.executing station stations (.inserting predicted)))) := by
  have hopen : (s.handler worker).tx? = some call.tx := congrArg Handler.tx? hplace
  have hwritten := Store.written_insert hinsert
  have hkept : ∀ tx pair, (call.tx, (call.satelliteId, station.id)) ≠ (tx, pair) →
      predictions.written tx (isOf pair) = s.predictions.written tx (isOf pair) := by
    intro tx pair hne
    rw [hwritten, if_neg, List.append_nil]
    rintro ⟨rfl, hpair⟩
    rw [← of_decide_eq_true hpair] at hne
    exact hne rfl
  obtain ⟨⟨order, hvisits⟩, huntouched, hsettles, reading, hsome, hstation, hpasses⟩ :=
    hinv.places worker call _ hplace
  have hreadings := readingOf_cons_of_none hnothing.read
  apply hinv.enter hok
  · exact rfl
  · rw [Store.insert_eq_inserted hinsert]
    rfl
  · exact le_rfl
  · rw [hreadings]
    exact fun _ _ hsome => Or.inl hsome
  · intro tx hother
    apply leavesAlone_of_none hnothing
    intro pair
    apply hkept
    rintro hsame
    cases hsame
    exact hother hopen
  · rintro _ _ hnext
    cases hnext
    have hlistings : listingOf (t :: h) = listingOf h := listingOf_cons_of_none hnothing.listing
    refine ⟨⟨order, hvisits.frame (by rw [hlistings]) (by rw [hreadings])⟩,
      by rw [hreadings]; exact huntouched, ?_, reading, by rw [hreadings]; exact hsome,
      hstation, ?_⟩
    · constructor
      · rw [hreadings, snapshotFrom_cons_of_none hnothing.delete]
        exact hsettles.read
      · rw [hreadings, snapshotFrom_cons_of_none hnothing.delete]
        intro pair noted hnoted hcurrent
        show _ ∧ noted.passes sky =
          .ok ((predictions.written call.tx (isOf pair)).map PassPrediction.pass)
        rw [hkept]
        · exact hsettles.stored pair noted hnoted hcurrent
        · rintro hsame
          exact hcurrent (congrArg some (Prod.mk.inj hsame).2)
    · show reading.passes sky = .ok ((predictions.written call.tx
        (isOf (call.satelliteId, station.id))).map PassPrediction.pass ++ predicted)
      rw [hwritten, if_pos ⟨rfl, decide_eq_true rfl⟩, List.map_append, List.append_assoc,
        List.map_singleton, pass_predictionOf htrack]
      exact hpasses

/-- A call leaves a station, whose passes it has stored. -/
theorem Reads.leave (hinv : Reads sky first h s) (hok : CallsFrom first h s)
    {station : GroundStation} {stations : List GroundStation}
    (hnothing : NotesNothing h t)
    (hplace : s.handler worker = .running call (.executing station stations (.inserting []))) :
    Reads sky first (t :: h) (s.enter worker (.running call (.looping stations))) := by
  obtain ⟨hvisits, huntouched, hsettles, reading, hsome, -, hpasses⟩ :=
    hinv.places worker call _ hplace
  obtain ⟨-, -, snapshot, hsnapshot⟩ := hok.calls.places worker call _ hplace
  apply hinv.move hok hnothing
  · exact rfl
  · exact rfl
  · exact le_rfl
  · rintro _ _ hnext
    cases hnext
    refine ⟨hvisits, huntouched, hsettles.read, fun pair noted hnoted _ => ?_⟩
    by_cases hpair : pair = (call.satelliteId, station.id)
    · rw [hpair, hsome] at hnoted
      cases hnoted
      rw [hpair, hsnapshot]
      refine ⟨Option.some_ne_none snapshot, ?_⟩
      rw [ExecutionReads, List.append_nil] at hpasses
      exact hpasses
    · apply hsettles.stored pair noted hnoted
      exact fun hsame => hpair (Option.some.inj hsame).symm

/-- A call commits. -/
theorem Reads.commit (hinv : Reads sky first h s)
    (hnothing : NotesNothing h t)
    (hplace : s.handler worker = .running call (.looping [])) :
    Reads sky first (t :: h)
      (({ s with predictions := s.predictions.commit call.tx } : State W).enter worker
        (.ended true)) := by
  have halone : ∀ tx, LeavesAlone first h (t :: h) s.predictions
      (s.predictions.commit call.tx) tx := by
    intro tx
    apply leavesAlone_of_none hnothing
    exact fun _ => rfl
  constructor
  · rw [readingOf_cons_of_none hnothing.read]
    exact hinv.numbered
  · intro tx hmem
    rcases List.mem_cons.mp hmem with rfl | hmem
    · exact (hinv.places worker call _ hplace).2.2.frame (halone _)
    · exact (hinv.settled tx hmem).frame (halone tx)
  · apply places_update
    · exact fun other call place hother =>
        (hinv.places other call place hother).frame (halone call.tx)
    · exact not_running rfl

/-- The step lemma. -/
theorem reads_step {a : Action W} (hinv : Reads sky first h s) (hok : CallsFrom first h s)
    (heffect : StepEffect sky settings s a s') : Reads sky first (⟨s, a, s'⟩ :: h) s' := by
  cases heffect with
  | outbox _ _ _ => exact hinv.stay ⟨rfl, rfl, rfl⟩ rfl rfl (fun _ _ => rfl) le_rfl
  | refresh _ _ => exact hinv.stay ⟨rfl, rfl, rfl⟩ rfl rfl (fun _ _ => rfl) le_rfl
  | register _ => exact hinv.stay ⟨rfl, rfl, rfl⟩ rfl rfl (fun _ _ => rfl) le_rfl
  | @drop _ outbox worker _ _ _ =>
      have hinv' : Reads sky first h ({ s with outbox := outbox } : State W) :=
        ⟨hinv.numbered, hinv.settled, hinv.places⟩
      have hok' : CallsFrom first h ({ s with outbox := outbox } : State W) :=
        ⟨hok.sessions, hok.calls⟩
      exact hinv'.drop hok' (by rintro _ ⟨⟩) rfl rfl rfl
  | unreadable _ => exact hinv.move hok ⟨rfl, rfl, rfl⟩ rfl rfl le_rfl (not_running rfl)
  | call _ _ _ _ => exact hinv.begin hok ⟨rfl, rfl, rfl⟩
  | @raises worker call place statement hplace hdelete hcommit hread =>
      have hopen : (s.handler worker).tx? = some call.tx := congrArg Handler.tx? hplace
      cases statement with
      | listAll order =>
          refine hinv.drop hok (fun noted hnoted => ?_) rfl rfl rfl
          simp only [listingBy, hopen, Option.map_some, Option.some.injEq] at hnoted
          rw [hopen, ← hnoted]
      | getSatellite =>
          apply hinv.drop hok (by rintro _ ⟨⟩) _ rfl rfl
          simp only [readBy, hplace]
          split
          · next hsame =>
              cases hsame
              rw [hread rfl]
              rfl
          · rfl
      | endDelete => exact absurd rfl hdelete
      | _ => exact hinv.drop hok (by rintro _ ⟨⟩) rfl rfl rfl
  | listAll hplace horder => exact hinv.listAll hok hplace horder rfl
  | getSatellite hplace hfind => exact hinv.getSatellite hok hplace hfind rfl
  | getStation hplace =>
      exact hinv.proceed hok ⟨rfl, rfl, rfl⟩ hplace fun _ _ _ hlines => hlines
  | @compute _ _ _ _ satellite predicted hplace hcompute =>
      apply hinv.proceed hok ⟨rfl, rfl, rfl⟩ hplace
      rintro reading rfl hwindow hlines
      unfold ExecutionReads at hlines
      show reading.passes sky = .ok predicted
      unfold Reading.passes
      rw [← hlines, hwindow]
      exact hcompute
  | beginDelete hplace =>
      exact hinv.proceed hok ⟨rfl, rfl, rfl⟩ hplace fun _ _ _ hpasses => hpasses
  | deleteRow _ hdelete =>
      exact hinv.stay ⟨rfl, rfl, rfl⟩ rfl (Store.deleteAt_committed hdelete)
        (fun tx pair => Store.written_deleteAt hdelete tx (isOf pair)) le_rfl
  | endDelete hplace _ => exact hinv.endDelete hok hplace rfl
  | create hplace htrack hinsert => exact hinv.create hok ⟨rfl, rfl, rfl⟩ hplace htrack hinsert
  | leave hplace => exact hinv.leave hok ⟨rfl, rfl, rfl⟩ hplace
  | commit hplace => exact hinv.commit ⟨rfl, rfl, rfl⟩ hplace

/-- The run lemma. -/
theorem reads_of_run {start : State W} (hrest : AtRest start)
    (hrun : ((recomputation sky settings).startingIn start).Run h s) :
    Reads sky start.nextTx h s := by
  apply hrun.invariant_of_step (I := fun h s => Reads sky start.nextTx h s)
  · rintro s rfl
    constructor
    · exact fun tx pair hsome => absurd rfl hsome
    · intro tx hmem
      constructor
      · intro hfirst
        exact absurd (hrest.numbered tx hmem) (Nat.not_lt.mpr hfirst)
      · intro pair reading hreading
        cases hreading
    · intro worker call place hplace
      rw [hrest.handlers] at hplace
      cases hplace
  · intro h s a s' hprior hinv hstep
    exact reads_step hinv (callsFrom_of_run hrest hprior) (step_effect hstep)

omit [DecidableEq W] in
/-- A call ends no `DELETE`s but those of the stations that it has listed. -/
theorem PlaceReads.listed {place : Place} {predictions : PredictionStore}
    (hplace : PlaceReads sky first h predictions call place) (hfirst : first ≤ call.tx)
    {pair : Pair} (hended : snapshotFrom first h call.tx pair ≠ none) :
    ∃ order, listingOf h call.tx = some order ∧
      ∃ station ∈ order, pair = (call.satelliteId, station.id) := by
  have hvisits : ∀ order stations current, Visits h call order stations →
      Settles sky first h predictions call.tx current →
        ∃ order, listingOf h call.tx = some order ∧
          ∃ station ∈ order, pair = (call.satelliteId, station.id) := by
    intro order stations current hvisits hsettles
    obtain ⟨reading, hreading⟩ := Option.ne_none_iff_exists'.mp (hsettles.read hfirst pair hended)
    obtain ⟨hmem, hpair, -⟩ := hvisits.readings pair reading hreading
    exact ⟨order, hvisits.listing, reading.station, hmem, hpair⟩
  cases place with
  | listing => exact absurd (hplace.1 pair) (hplace.2.read hfirst pair hended)
  | looping stations =>
      obtain ⟨⟨order, hvisited⟩, -, hsettles⟩ := hplace
      exact hvisits order stations none hvisited hsettles
  | executing station stations execution =>
      obtain ⟨⟨order, hvisited⟩, -, hsettles, -⟩ := hplace
      exact hvisits order stations _ hvisited hsettles

/-! ## Revisions along a run -/

/-- What a transaction has read is no later than the row, and if it is of the same
revision it is what the row has. -/
def IsUpToDate (h : History (State W) (Action W)) (s : State W) : Prop :=
  ∀ tx pair reading, readingOf h tx pair = some reading → reading.revision ≤ revision h pair.1 ∧
    (reading.revision = revision h pair.1 →
      (s.satellite? pair.1).map Satellite.lines = some reading.lines)

/-- A satellite without a change among them keeps its lines. -/
theorem lines_of_effect {a : Action W} (heffect : StepEffect sky settings s a s')
    {id : Uuid} (hnone : revision (⟨s, a, s'⟩ :: h) id = revision h id) {lines : Text × Text}
    (hlines : (s.satellite? id).map Satellite.lines = some lines) :
    (s'.satellite? id).map Satellite.lines = some lines := by
  cases heffect with
  | @refresh _ _ changes db _ hcommit =>
      obtain ⟨satellite, hfind, hsame⟩ := Option.map_eq_some_iff.mp hlines
      have hcount : changes.countP (fun change => decide (change.satellite.id = id)) = 0 :=
        Nat.left_eq_add.mp hnone.symm
      obtain ⟨satellite', hfind', hsame'⟩ := getById_commitChanges
        (P := fun satellite => satellite.lines = lines) hcommit
        (fun change hmem hid => by simpa [hid] using List.countP_eq_zero.mp hcount change hmem)
        ⟨satellite, hfind, hsame⟩
      exact Option.map_eq_some_iff.mpr ⟨satellite', hfind', hsame'⟩
  | drop _ _ _ | raises _ _ _ _ =>
      rw [State.satellite?, State.drop_satellites]
      exact hlines
  | _ => exact hlines

theorem isUpToDate_step {a : Action W} (hinv : IsUpToDate h s)
    (heffect : StepEffect sky settings s a s') : IsUpToDate (⟨s, a, s'⟩ :: h) s' := by
  have hold : ∀ tx pair reading, readingOf h tx pair = some reading →
      reading.revision ≤ revision (⟨s, a, s'⟩ :: h) pair.1 ∧
        (reading.revision = revision (⟨s, a, s'⟩ :: h) pair.1 →
          (s'.satellite? pair.1).map Satellite.lines = some reading.lines) := by
    intro tx pair reading hreading
    obtain ⟨hle, hlines⟩ := hinv tx pair reading hreading
    have hgrows := revision_le_cons (t := ⟨s, a, s'⟩) (h := h) pair.1
    refine ⟨hle.trans hgrows, fun hsame => ?_⟩
    have hnone : revision (⟨s, a, s'⟩ :: h) pair.1 = revision h pair.1 := by lia
    exact lines_of_effect heffect hnone (hlines (hsame.trans hnone))
  intro tx pair reading hreading
  cases hnoted : readBy h ⟨s, a, s'⟩ with
  | none =>
      rw [readingOf_cons_of_none hnoted] at hreading
      exact hold tx pair reading hreading
  | some noted =>
      rw [readingOf_cons_of_some hnoted] at hreading
      split at hreading
      · next hsame =>
          obtain ⟨worker, call, station, stations, satellite, rfl, -, hfind, rfl⟩ :=
            readBy_eq_some hnoted
          cases hsame
          cases hreading
          have hnone : revision (⟨s, .recompute worker .getSatellite, s'⟩ :: h) call.satelliteId =
              revision h call.satelliteId := by
            rw [revision_cons_of_nil rfl]
          refine ⟨hnone.ge, fun _ => lines_of_effect heffect hnone ?_⟩
          rw [hfind]
          rfl
      · exact hold tx pair reading hreading

theorem isUpToDate_of_run {start : State W}
    (hrun : ((recomputation sky settings).startingIn start).Run h s) : IsUpToDate h s := by
  apply hrun.invariant_of_step (I := fun h s => IsUpToDate h s)
  · rintro s - tx pair reading ⟨⟩
  · intro h s a s' _ hinv hstep
    exact isUpToDate_step hinv (step_effect hstep)

end Steps

end Apsis.Tracking
