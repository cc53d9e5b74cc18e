/-
# Delivery order and redelivery do not matter

With one worker, calls of `recompute_passes` come one after the other, and the last
one that commits for a satellite decides its predictions. Which satellites are called
for is decided by the events, and what the last call has read are the lines that the
ingests have left. So a run that has processed everything ends with predictions that
are a function of the tables at the start, of the ingests and of the windows of the
last calls. The order of the events, the attempts that failed and the redeliveries
have no part in it.
-/

import Apsis.Core.Events.Lifecycle
import Apsis.Tracking.Dangling
import Apsis.Tracking.Freshness

namespace Apsis.Tracking

open Apsis.Library Apsis.Core
open Apsis.Core.Events (OutboxEvent)

universe u

variable {W : Type u}

/-! ## Ingests, calls and notices -/

/-- The rows of satellites that ingests have committed, in order. -/
def ingested : History (State W) (Action W) → List Satellite
  | [] => []
  | t :: earlier => ingested earlier ++ (changesBy t).map Change.satellite

/-- Those among them that are of one satellite. -/
def ingestedFor (h : History (State W) (Action W)) (satelliteId : Uuid) : List Satellite :=
  (ingested h).filter fun row => decide (row.id = satelliteId)

/-- The row of a satellite after these rows have been written, from the one before. -/
def rowAfter (satelliteId : Uuid) (rows : List Satellite) (found : Option Satellite) :
    Option Satellite :=
  rows.foldl (fun found row => if row.id = satelliteId then some row else found) found

/-- The call that a transition commits, under its satellite. -/
def callBy (t : Transition (State W) (Action W)) : Option (Uuid × Recompute) :=
  match t.action with
  | .recompute worker .commit =>
      match t.source.handler worker with
      | .running call _ => some (call.satelliteId, call)
      | _ => none
  | _ => none

/-- The last call for a satellite that has committed. -/
def lastCallOf (h : History (State W) (Action W)) (satelliteId : Uuid) : Option Recompute :=
  h.recorded (fun _ => callBy) satelliteId

/-- A call for the satellite is due: among these events there is one that still calls
for it, or the satellite has been ingested since. -/
def IsDue (events : Events.EventTable) (rows : List Satellite) (satelliteId : Uuid) : Prop :=
  (∃ event ∈ events.rows, event.eventType = "tle.refreshed".toList ∧ event.status = .pending ∧
    Events.completed event.handlerState recomputePasses.name = false ∧
      payloadSatellite event = some satelliteId) ∨
  ∃ row ∈ rows, row.id = satelliteId

/-- No station is registered. -/
def KeepsStations (_ : History (State W) (Action W)) (t : Transition (State W) (Action W)) : Prop :=
  ∀ station, t.action ≠ .register station

instance (earlier : History (State W) (Action W)) (t : Transition (State W) (Action W)) :
    Decidable (KeepsStations earlier t) :=
  match haction : t.action with
  | .register station => isFalse fun hkeeps => hkeeps station haction
  | .outbox _ | .call _ | .recompute _ _ | .refresh _ _ _ =>
      isTrue fun station hregister => by
        rw [haction] at hregister
        cases hregister

/-- Every event that announces a refresh has been processed. -/
def AllProcessed (s : State W) : Prop :=
  ∀ event ∈ s.outbox.events.rows, event.eventType = "tle.refreshed".toList →
    event.status = .processed

/-- A run over fixed stations, from tables at rest until everything has been processed. -/
structure IsDrained [DecidableEq W] (sky : Skyfield) (settings : Settings) (start : State W)
    (h : History (State W) (Action W)) (s : State W) : Prop where
  rest : AtRest start
  run : ((recomputation sky settings).startingIn start).Run h s
  keeps : h.Meets KeepsStations
  processed : AllProcessed s

/-- Two systems have the same tables. -/
structure SameTables (s s' : State W) : Prop where
  satellites : s.satellites = s'.satellites
  stations : s.stations = s'.stations
  predictions : s.predictions = s'.predictions
  events : s.outbox.events = s'.outbox.events

section Cons

variable {t : Transition (State W) (Action W)} {h : History (State W) (Action W)}

theorem lastCallOf_cons_of_none (hnone : callBy t = none) : lastCallOf (t :: h) = lastCallOf h := by
  ext1 satelliteId
  exact History.recorded_cons_of_none hnone satelliteId

theorem lastCallOf_cons_of_some {noted : Uuid × Recompute} (hsome : callBy t = some noted)
    (satelliteId : Uuid) : lastCallOf (t :: h) satelliteId =
      if noted.1 = satelliteId then some noted.2 else lastCallOf h satelliteId :=
  History.recorded_cons_of_some hsome satelliteId

theorem callBy_eq_none (hnone : commitBy t = none) : callBy t = none := by
  unfold commitBy at hnone
  unfold callBy
  split
  · next worker haction =>
      rw [haction] at hnone
      cases hhandler : t.source.handler worker with
      | running call place =>
          simp only [hhandler] at hnone
          cases hnone
      | _ => rfl
  · rfl

theorem callBy_of_commitsCall {worker : W} {call : Recompute}
    (hcommits : CommitsCall t worker call) : callBy t = some (call.satelliteId, call) := by
  obtain ⟨haction, hplace⟩ := hcommits
  unfold callBy
  rw [haction]
  simp only [hplace]

theorem IsDue.cons {events : Events.EventTable} {satelliteId : Uuid}
    (hdue : IsDue events (ingested h) satelliteId) :
    IsDue events (ingested (t :: h)) satelliteId := by
  refine hdue.imp_right ?_
  rintro ⟨row, hmem, hid⟩
  exact ⟨row, List.mem_append_left _ hmem, hid⟩

/-- Rows of other satellites do not count. -/
theorem rowAfter_ingestedFor (h : History (State W) (Action W)) (satelliteId : Uuid)
    (found : Option Satellite) :
    rowAfter satelliteId (ingestedFor h satelliteId) found =
      rowAfter satelliteId (ingested h) found := by
  rw [rowAfter, ingestedFor, List.foldl_filter, rowAfter]
  congr 1
  funext found row
  by_cases hid : row.id = satelliteId <;> simp [hid]

theorem isDue_iff_ingestedFor {events : Events.EventTable} {satelliteId : Uuid} :
    IsDue events (ingested h) satelliteId ↔
      IsDue events (ingestedFor h satelliteId) satelliteId := by
  simp [IsDue, ingestedFor]

/-- The revision counts the rows that have been ingested. -/
theorem revision_eq_countP (h : History (State W) (Action W)) (satelliteId : Uuid) :
    revision h satelliteId = (ingested h).countP fun row => decide (row.id = satelliteId) := by
  induction h with
  | nil => rfl
  | cons t earlier ih =>
      rw [revision, ingested, List.countP_append, List.countP_map, ih]
      rfl

end Cons

/-! ## Satellites and stations along a run -/

section Tables

variable [DecidableEq W] {sky : Skyfield} {settings : Settings} {start s s' : State W}
  {h : History (State W) (Action W)} {a : Action W}

theorem getById_rowAfter {startedAt : Time} {maxRetries : ℤ} {changes : List Change}
    {db db' : Database} (hcommit : commitChanges startedAt maxRetries changes db = some db')
    (satelliteId : Uuid) : db'.satellites.getById satelliteId =
      rowAfter satelliteId (changes.map Change.satellite) (db.satellites.getById satelliteId) := by
  induction changes generalizing db with
  | nil =>
      cases hcommit
      rfl
  | cons change changes ih =>
      unfold commitChanges at hcommit
      split at hcommit
      · next satellites events hwrite _ =>
          rw [ih hcommit, getById_of_write hwrite]
          rfl
      · cases hcommit

theorem satellite?_step (heffect : StepEffect sky settings s a s') (satelliteId : Uuid) :
    s'.satellite? satelliteId =
      rowAfter satelliteId ((changesBy ⟨s, a, s'⟩).map Change.satellite)
        (s.satellite? satelliteId) := by
  cases heffect with
  | refresh _ hcommit => exact getById_rowAfter hcommit satelliteId
  | drop _ _ _ =>
      rw [State.satellite?, State.drop_satellites]
      rfl
  | raises _ _ _ _ =>
      rw [State.satellite?, State.drop_satellites]
      rfl
  | _ => rfl

/-- The rows of satellites are decided by the start and by the ingests. -/
theorem satellite?_of_run (hrun : ((recomputation sky settings).startingIn start).Run h s)
    (satelliteId : Uuid) : s.satellite? satelliteId =
      rowAfter satelliteId (ingested h) (start.satellite? satelliteId) := by
  apply hrun.invariant_of_step (I := fun h s => s.satellite? satelliteId =
    rowAfter satelliteId (ingested h) (start.satellite? satelliteId))
  · rintro _ rfl
    rfl
  · intro h s a s' _ hinv hstep
    rw [satellite?_step (step_effect hstep), hinv, rowAfter, rowAfter, ← List.foldl_append]
    rfl

/-- Stations stay as they are if none is registered. -/
theorem stations_of_run (hrun : ((recomputation sky settings).startingIn start).Run h s)
    (hkeeps : h.Meets KeepsStations) : s.stations = start.stations := by
  apply hrun.invariant (I := fun _ s => s.stations = start.stations) _ _ hkeeps
  · rintro _ rfl
    rfl
  · intro h s a s' _ _ hinv hstep hkept
    cases step_effect hstep with
    | register _ => exact absurd rfl (hkept _)
    | drop _ _ _ => rw [State.drop_stations, hinv]
    | raises _ _ _ _ => rw [State.drop_stations, hinv]
    | _ => exact hinv

/-- Then every call has listed the stations that there were at the start. -/
theorem listing_of_run (hrun : ((recomputation sky settings).startingIn start).Run h s)
    (hkeeps : h.Meets KeepsStations) {tx : TxId} {order : List GroundStation}
    (hlisting : listingOf h tx = some order) : order.Perm start.stations.rows := by
  induction hrun with
  | start _ => cases hlisting
  | @extend h s s' a hprior hstep ih =>
      cases hnoted : listingBy ⟨s, a, s'⟩ with
      | none =>
          rw [listingOf_cons_of_none hnoted] at hlisting
          exact ih hkeeps.2 hlisting
      | some noted =>
          rw [listingOf_cons_of_some hnoted] at hlisting
          split at hlisting
          · cases hlisting
            have htaken : step sky settings s a = some s' := hstep
            unfold listingBy at hnoted
            split at hnoted
            · next worker order haction =>
                obtain rfl : a = .recompute worker (.listAll order) := haction
                obtain ⟨tx', -, rfl⟩ := Option.map_eq_some_iff.mp hnoted
                rw [← stations_of_run hprior hkeeps.2]
                exact perm_of_listAll htaken
            · cases hnoted
          · exact ih hkeeps.2 hlisting

end Tables

/-! ## Which satellites are called for -/

/-- Whatever is called for, or may be, is due. -/
structure OnlyDue (events : Events.EventTable) (h : History (State W) (Action W)) (s : State W) :
    Prop where
  rows : ∀ event ∈ s.outbox.events.rows, event.eventType = "tle.refreshed".toList →
    event.status = .pending →
      Events.completed event.handlerState recomputePasses.name = false →
        ∀ satelliteId, payloadSatellite event = some satelliteId →
          IsDue events (ingested h) satelliteId
  running : ∀ worker call place, s.handler worker = .running call place →
    IsDue events (ingested h) call.satelliteId
  last : ∀ satelliteId call, lastCallOf h satelliteId = some call →
    IsDue events (ingested h) satelliteId

section Due

variable [DecidableEq W] {sky : Skyfield} {settings : Settings} {start s s' : State W}
  {h : History (State W) (Action W)} {a : Action W} {events : Events.EventTable}

/-- The rows of the outbox. -/
theorem OnlyDue.rows_step (hinv : OnlyDue events h s) (hlocks : Events.LocksHeld s.outbox)
    (heffect : StepEffect sky settings s a s') {event : OutboxEvent}
    (hmem : event ∈ s'.outbox.events.rows) (htype : event.eventType = "tle.refreshed".toList)
    (hpending : event.status = .pending)
    (hincomplete : Events.completed event.handlerState recomputePasses.name = false)
    {satelliteId : Uuid} (hpayload : payloadSatellite event = some satelliteId) :
    IsDue events (ingested (⟨s, a, s'⟩ :: h)) satelliteId := by
  rcases refreshed_of_effect hlocks heffect hmem htype with hbefore |
    ⟨worker, before, attempt, hholds, hhandled⟩ |
    ⟨startedAt, maxRetries, changes, rfl, change, hchange, rfl, -⟩
  · exact (hinv.rows event hbefore htype hpending hincomplete _ hpayload).cons
  · -- The attempt began on a row that called for the handler as well.
    obtain ⟨hsameType, hsamePayload⟩ := hhandled.content_eq
    have hcalls : Events.completed before.handlerState recomputePasses.name = false := by
      by_contra hcompleted
      rw [hhandled.completed_of_completed (Bool.not_eq_false _ ▸ hcompleted)] at hincomplete
      cases hincomplete
    have hbefore := ((Table.find?_eq_some_iff _).mp hholds.row).1
    refine (hinv.rows before hbefore (hsameType ▸ htype) hholds.pending hcalls _ ?_).cons
    unfold payloadSatellite at hpayload ⊢
    rw [← hsamePayload]
    exact hpayload
  · refine Or.inr ⟨change.satellite, ?_, Option.some.inj hpayload⟩
    exact List.mem_append_right _ (List.mem_map_of_mem hchange)

theorem onlyDue_step (hinv : OnlyDue events h s) (hlocks : Events.LocksHeld s.outbox)
    (htaken : step sky settings s a = some s') : OnlyDue events (⟨s, a, s'⟩ :: h) s' := by
  have heffect := step_effect htaken
  constructor
  · intro event hmem htype hpending hincomplete satelliteId hpayload
    exact hinv.rows_step hlocks heffect hmem htype hpending hincomplete hpayload
  · intro worker call place hplace
    rcases (continues_of_effect heffect).2 worker call place hplace with ⟨before, hbefore, -⟩ |
      ⟨-, rfl, rfl⟩
    · exact (hinv.running worker call before hbefore).cons
    · obtain ⟨event, hmem, htype, hpending, hincomplete, hpayload⟩ :=
        row_of_call hlocks htaken hplace
      exact (hinv.rows event hmem htype hpending hincomplete _ hpayload).cons
  · intro satelliteId call hlast
    cases hcommit : commitBy ⟨s, a, s'⟩ with
    | none =>
        rw [lastCallOf_cons_of_none (callBy_eq_none hcommit)] at hlast
        exact (hinv.last satelliteId call hlast).cons
    | some tx =>
        obtain ⟨worker, call', hcommits, -⟩ := commitsCall_of_commitBy htaken hcommit
        rw [lastCallOf_cons_of_some (callBy_of_commitsCall hcommits)] at hlast
        split at hlast
        · next hsame =>
            rw [← hsame]
            exact (hinv.running worker call' _ hcommits.2).cons
        · exact (hinv.last satelliteId call hlast).cons

theorem onlyDue_of_run (hrest : AtRest start)
    (hrun : ((recomputation sky settings).startingIn start).Run h s) :
    OnlyDue start.outbox.events h s := by
  apply hrun.invariant_of_step (I := fun h s => OnlyDue start.outbox.events h s)
  · rintro _ rfl
    constructor
    · intro event hmem htype hpending hincomplete satelliteId hpayload
      exact Or.inl ⟨event, hmem, htype, hpending, hincomplete, hpayload⟩
    · intro worker call place hplace
      rw [hrest.handlers] at hplace
      cases hplace
    · intro satelliteId call hlast
      cases hlast
  · exact fun _ _ _ _ hprior hinv hstep =>
      onlyDue_step hinv (attached_of_run hrest hprior).1 hstep

end Due

/-! ## What the last call has left -/

/-- The last call for a satellite has left the passes of what it has read, and no one
has read the satellite later for a pair and committed. -/
structure IsLast (sky : Skyfield) (stations : List GroundStation)
    (h : History (State W) (Action W)) (predictions : PredictionStore) (satelliteId : Uuid)
    (call : Recompute) : Prop where
  committed : call.tx ∈ predictions.committed
  stored : ∀ station ∈ stations, ∃ reading,
    readingOf h call.tx (satelliteId, station.id) = some reading ∧ reading.station = station ∧
      reading.window = call.window ∧
        reading.passes sky = .ok (storedPasses predictions (satelliteId, station.id))
  latest : ∀ tx ∈ predictions.committed, ∀ pair : Pair, pair.1 = satelliteId →
    ∀ reading reading', readingOf h tx pair = some reading →
      readingOf h call.tx pair = some reading' → reading.revision ≤ reading'.revision

/-- The last calls decide the predictions. -/
structure LastDecides (sky : Skyfield) (start : State W) (h : History (State W) (Action W))
    (s : State W) : Prop where
  last : ∀ satelliteId call, lastCallOf h satelliteId = some call →
    IsLast sky start.stations.rows h s.predictions satelliteId call
  unread : ∀ satelliteId, lastCallOf h satelliteId = none →
    ∀ tx ∈ s.predictions.committed, ∀ pair : Pair, pair.1 = satelliteId →
      readingOf h tx pair = none
  kept : ∀ pair : Pair, lastCallOf h pair.1 = none ∨
    (∀ station ∈ start.stations.rows, station.id ≠ pair.2) →
      storedPasses s.predictions pair = storedPasses start.predictions pair
  running : ∀ worker call place, s.handler worker = .running call place →
    ∀ tx ∈ s.predictions.committed, ∀ pair reading reading', readingOf h tx pair = some reading →
      readingOf h call.tx pair = some reading' → reading.revision ≤ reading'.revision

section Last

variable [DecidableEq W] {sky : Skyfield} {settings : Settings} {start s s' : State W}
  {h : History (State W) (Action W)} {a : Action W} (hrest : AtRest start)
  (hrun : ((recomputation sky settings).startingIn start).Run h s)
include hrest hrun

/-- What a call in progress has read is no earlier than what others have committed. -/
theorem LastDecides.running_step (hinv : LastDecides sky start h s)
    (htaken : step sky settings s a = some s') {worker : W} {call : Recompute} {place : Place}
    (hplace : s'.handler worker = .running call place) {tx : TxId}
    (hmem : tx ∈ s.predictions.committed) {pair : Pair} {reading reading' : Reading}
    (hreading : readingOf (⟨s, a, s'⟩ :: h) tx pair = some reading)
    (hreading' : readingOf (⟨s, a, s'⟩ :: h) call.tx pair = some reading') :
    reading.revision ≤ reading'.revision := by
  have hok := callsFrom_of_run hrest hrun
  rw [(notes_of_committed hok.sessions hmem).1] at hreading
  have hold : readingOf h call.tx pair = some reading' → reading.revision ≤ reading'.revision := by
    intro hbefore
    rcases (continues_of_effect (step_effect htaken)).2 worker call place hplace with
      ⟨before, hplace', -⟩ | ⟨hnew, -, -⟩
    · exact hinv.running worker call before hplace' tx hmem pair reading reading' hreading hbefore
    · -- A call that has just begun has read nothing.
      have hlt := ((reads_of_run hrest hrun).numbered call.tx pair (by
        rw [hbefore]
        exact Option.some_ne_none reading')).2
      rw [hnew] at hlt
      exact absurd hlt (Nat.lt_irrefl _)
  cases hnoted : readBy h ⟨s, a, s'⟩ with
  | none =>
      rw [readingOf_cons_of_none hnoted] at hreading'
      exact hold hreading'
  | some noted =>
      rw [readingOf_cons_of_some hnoted] at hreading'
      split at hreading'
      · next hsame =>
          cases hreading'
          obtain ⟨_, call', _, _, _, -, -, -, rfl⟩ := readBy_eq_some hnoted
          obtain ⟨-, rfl⟩ := Prod.mk.inj hsame
          exact (isUpToDate_of_run hrun tx _ reading hreading).1
      · exact hold hreading'

/-- A step without a commit. -/
theorem LastDecides.quiet (hinv : LastDecides sky start h s)
    (htaken : step sky settings s a = some s') (hnone : commitBy ⟨s, a, s'⟩ = none) :
    LastDecides sky start (⟨s, a, s'⟩ :: h) s' := by
  have hok := callsFrom_of_run hrest hrun
  have hcommitted : s'.predictions.committed = s.predictions.committed := by
    rw [committed_of_effect (step_effect htaken), hnone]
    rfl
  have hstored : ∀ pair, storedPasses s'.predictions pair = storedPasses s.predictions pair := by
    intro pair
    rw [storedPasses, current_of_effect hok (step_effect htaken) hnone]
    rfl
  have hreadings : ∀ tx ∈ s.predictions.committed,
      readingOf (⟨s, a, s'⟩ :: h) tx = readingOf h tx :=
    fun tx hmem => (notes_of_committed hok.sessions hmem).1
  constructor
  · intro satelliteId call hlast
    rw [lastCallOf_cons_of_none (callBy_eq_none hnone)] at hlast
    obtain ⟨hmem, hprior, hlatest⟩ := hinv.last satelliteId call hlast
    constructor
    · rw [hcommitted]
      exact hmem
    · intro station hstation
      rw [hreadings _ hmem, hstored]
      exact hprior station hstation
    · intro tx htx
      rw [hcommitted] at htx
      rw [hreadings _ hmem, hreadings tx htx]
      exact hlatest tx htx
  · rw [lastCallOf_cons_of_none (callBy_eq_none hnone), hcommitted]
    intro satelliteId hlast tx hmem
    rw [hreadings tx hmem]
    exact hinv.unread satelliteId hlast tx hmem
  · rw [lastCallOf_cons_of_none (callBy_eq_none hnone)]
    intro pair hcase
    rw [hstored]
    exact hinv.kept pair hcase
  · rw [hcommitted]
    intro worker call place hplace tx hmem pair reading reading' hreading hreading'
    exact hinv.running_step hrest hrun htaken hplace hmem hreading hreading'

/-- A commit. -/
theorem LastDecides.commit [Subsingleton W] (hkeeps : h.Meets KeepsStations)
    (hinv : LastDecides sky start h s) {worker : W} {call : Recompute}
    (htaken : step sky settings s a = some s') (hcommits : CommitsCall ⟨s, a, s'⟩ worker call) :
    LastDecides sky start (⟨s, a, s'⟩ :: h) s' := by
  have hplace : s.handler worker = .running call (.looping []) := hcommits.2
  obtain rfl : a = .recompute worker .commit := hcommits.1
  have hlastCall := lastCallOf_cons_of_some (h := h) (callBy_of_commitsCall hcommits)
  have hreadings : readingOf (⟨s, .recompute worker .commit, s'⟩ :: h) = readingOf h :=
    readingOf_cons_of_none rfl
  have hpredictions := predictions_of_commitsCall htaken hcommits
  obtain ⟨order, hvisits, -⟩ := visits_of_commit hrest hrun hplace
  have horder := listing_of_run hrun hkeeps hvisits.listing
  have halone : RunsAlone h worker call :=
    fun _ _ _ other _ _ hother => absurd (Subsingleton.elim other worker) hother
  -- The call has read nothing of another satellite, and leaves its rows alone.
  have hothers : ∀ pair : Pair, pair.1 ≠ call.satelliteId → readingOf h call.tx pair = none := by
    intro pair hne
    by_contra hread
    obtain ⟨reading, hreading⟩ := Option.ne_none_iff_exists'.mp hread
    obtain ⟨-, rfl, -⟩ := hvisits.readings pair reading hreading
    exact hne rfl
  have hframe : ∀ pair : Pair, pair.1 ≠ call.satelliteId ∨
      (∀ station ∈ start.stations.rows, station.id ≠ pair.2) →
        storedPasses s'.predictions pair = storedPasses s.predictions pair := by
    intro pair hcase
    rw [hpredictions, storedPasses,
      current_commit_of_not_listed hrest hrun hplace hvisits.listing]
    · rfl
    · intro row hrow station hstation hpair
      rw [of_decide_eq_true hrow] at hpair
      rcases hcase with hother | hnot
      · exact hother (congrArg Prod.fst hpair)
      · exact hnot station (horder.mem_iff.mp hstation) (congrArg Prod.snd hpair).symm
  have hcommitted : s'.predictions.committed = call.tx :: s.predictions.committed := by
    rw [hpredictions]
    rfl
  constructor
  · intro satelliteId last hlast
    rw [hlastCall] at hlast
    split at hlast
    · next hsame =>
        obtain rfl : call.satelliteId = satelliteId := hsame
        obtain rfl : call = last := Option.some.inj hlast
        constructor
        · rw [hcommitted]
          exact List.mem_cons_self
        · intro station hstation
          obtain ⟨reading, hreading, hstationRead⟩ :=
            (hvisits.visited station (horder.mem_iff.mpr hstation)).resolve_left List.not_mem_nil
          refine ⟨reading, ?_, hstationRead, (hvisits.readings _ reading hreading).2.2, ?_⟩
          · rw [hreadings, hreading]
          · rw [hpredictions]
            exact storedPasses_commit_of_runsAlone hrest hrun hplace halone hreading
        · rw [hreadings, hcommitted]
          intro tx hmem pair _ reading reading' hreading hreading'
          rcases List.mem_cons.mp hmem with rfl | hmem
          · rw [hreading] at hreading'
            exact (congrArg Reading.revision (Option.some.inj hreading')).le
          · exact hinv.running worker call _ hplace tx hmem pair reading reading' hreading
              hreading'
    · next hother =>
        obtain ⟨hmem, hprior, hlatest⟩ := hinv.last satelliteId last hlast
        constructor
        · rw [hcommitted]
          exact List.mem_cons_of_mem _ hmem
        · intro station hstation
          rw [hreadings, hframe _ (Or.inl (Ne.symm hother))]
          exact hprior station hstation
        · rw [hreadings, hcommitted]
          intro tx htx pair hpair reading reading' hreading hreading'
          rcases List.mem_cons.mp htx with rfl | htx
          · rw [hothers pair (hpair.trans_ne (Ne.symm hother))] at hreading
            cases hreading
          · exact hlatest tx htx pair hpair reading reading' hreading hreading'
  · intro satelliteId hlast tx hmem pair hpair
    rw [hlastCall] at hlast
    split at hlast
    · cases hlast
    · next hother =>
        rw [hcommitted] at hmem
        rw [hreadings]
        rcases List.mem_cons.mp hmem with rfl | hmem
        · exact hothers pair (hpair.trans_ne (Ne.symm hother))
        · exact hinv.unread satelliteId hlast tx hmem pair hpair
  · intro pair hcase
    rw [hlastCall] at hcase
    split at hcase
    · next hsame =>
        have hnot := hcase.resolve_left (Option.some_ne_none _)
        rw [hframe pair (Or.inr hnot)]
        exact hinv.kept pair (Or.inr hnot)
    · next hother =>
        rw [hframe pair (Or.inl (Ne.symm hother))]
        exact hinv.kept pair hcase
  · intro other call' place hother
    rw [Subsingleton.elim other worker] at hother
    have hended : s'.handler worker = .ended true := by
      simp only [step, hplace, recomputeStep, Option.some.injEq] at htaken
      rw [← htaken, State.enter_handler_self]
    rw [hended] at hother
    cases hother

omit hrest in
/-- The last change of a satellite was under the stations that there were at the start. -/
theorem stationsAtLastChange_of_run (hkeeps : h.Meets KeepsStations) {satelliteId : Uuid}
    (hchanged : 0 < revision h satelliteId) :
    stationsAtLastChange h satelliteId = start.stations.rows := by
  induction hrun with
  | start _ => exact absurd hchanged (Nat.lt_irrefl 0)
  | @extend h s s' a hprior hstep ih =>
      rw [stationsAtLastChange]
      split
      · rw [stations_of_run hprior hkeeps.2]
      · next hnot =>
          rw [revision_cons_of_not hnot] at hchanged
          exact ih hkeeps.2 hchanged

end Last

/-! ## One run, and two -/

section Drained

variable [DecidableEq W] [Subsingleton W] {sky : Skyfield} {settings : Settings}

theorem lastDecides_of_run {start s : State W} (hrest : AtRest start)
    {h : History (State W) (Action W)}
    (hrun : ((recomputation sky settings).startingIn start).Run h s)
    (hkeeps : h.Meets KeepsStations) : LastDecides sky start h s := by
  apply hrun.invariant (I := fun h s => LastDecides sky start h s) _ _ hkeeps
  · rintro s rfl
    constructor
    · intro satelliteId call hlast
      cases hlast
    · exact fun _ _ _ _ _ _ => rfl
    · exact fun _ _ => rfl
    · intro worker call place hplace
      rw [hrest.handlers] at hplace
      cases hplace
  · intro h s a s' hprior hmeets hinv hstep _
    cases hcommit : commitBy ⟨s, a, s'⟩ with
    | none => exact hinv.quiet hrest hprior hstep hcommit
    | some tx =>
        obtain ⟨worker, call, hcommits, -⟩ := commitsCall_of_commitBy hstep hcommit
        exact hinv.commit hrest hprior hmeets hstep hcommits

omit [Subsingleton W] in
/-- Where a call is due, one has been made that has read the last revision. -/
theorem IsDrained.covered {start s : State W} {h : History (State W) (Action W)}
    (hdrained : IsDrained sky settings start h s) {satelliteId : Uuid}
    (hdue : IsDue start.outbox.events (ingested h) satelliteId) :
    ∃ tx ∈ s.predictions.committed, ∀ station ∈ start.stations.rows,
      HasRead h tx (satelliteId, station.id) (revision h satelliteId) := by
  obtain ⟨hrest, hrun, hkeeps, hprocessed⟩ := hdrained
  by_cases hchanged : 0 < revision h satelliteId
  · obtain ⟨eventId, hpursued⟩ := pursued_lastNotice hrest hrun satelliteId hchanged
    have hcovered := hpursued.covered fun event hmem htype _ => hprocessed event hmem htype
    unfold IsCovered lastNotice at hcovered
    rw [stationsAtLastChange_of_run hrun hkeeps hchanged] at hcovered
    exact hcovered
  · -- Without an ingest of the satellite, the call was due at the start.
    have hzero := Nat.eq_zero_of_not_pos hchanged
    rcases hdue with ⟨event, hmem, htype, hpending, hincomplete, hpayload⟩ | ⟨row, hmem, hid⟩
    · have hunsettled : ¬ IsSettled event := by
        rintro (hstatus | hcompleted)
        · rw [hpending] at hstatus
          cases hstatus
        · rw [hincomplete] at hcompleted
          cases hcompleted
      rw [hzero]
      exact (pursued_of_start hrest hrun hmem htype hpayload hunsettled).covered
        fun event hmem htype _ => hprocessed event hmem htype
    · rw [revision_eq_countP, List.countP_eq_zero] at hzero
      exact absurd (decide_eq_true hid) (hzero row hmem)

/-- **What a run ends with.** At every station, the predictions of a satellite for which
a call was due are the passes of its lines over the window of the last call. -/
theorem IsDrained.storedPasses_of_due {start s : State W} {h : History (State W) (Action W)}
    (hdrained : IsDrained sky settings start h s) {satelliteId : Uuid}
    (hdue : IsDue start.outbox.events (ingested h) satelliteId) {station : GroundStation}
    (hstation : station ∈ start.stations.rows) :
    ∃ call satellite, ∃ reading : Reading, lastCallOf h satelliteId = some call ∧
      s.satellite? satelliteId = some satellite ∧
        reading.input = (satellite.lines, station, call.window) ∧
          reading.passes sky = .ok (storedPasses s.predictions (satelliteId, station.id)) := by
  obtain ⟨tx, hmem, hcovers⟩ := hdrained.covered hdue
  obtain ⟨reading, hreading, hsince⟩ := hcovers station hstation
  have hdecides := lastDecides_of_run hdrained.rest hdrained.run hdrained.keeps
  cases hlast : lastCallOf h satelliteId with
  | none =>
      rw [hdecides.unread satelliteId hlast tx hmem _ rfl] at hreading
      cases hreading
  | some call =>
      obtain ⟨-, hstored, hlatest⟩ := hdecides.last satelliteId call hlast
      obtain ⟨reading', hreading', hsame, hwindow, hpasses⟩ := hstored station hstation
      -- The last call has read what no ingest has changed since.
      have hle := hlatest tx hmem _ rfl reading reading' hreading hreading'
      obtain ⟨hbound, hlines⟩ := isUpToDate_of_run hdrained.run call.tx _ reading' hreading'
      obtain ⟨satellite, hfind, hsameLines⟩ :=
        Option.map_eq_some_iff.mp (hlines (Nat.le_antisymm hbound (hsince.trans hle)))
      refine ⟨call, satellite, reading', rfl, hfind, ?_, hpasses⟩
      rw [Reading.input, hsame, hwindow, hsameLines]

/-- The predictions of all other pairs are those of the start. -/
theorem IsDrained.storedPasses_of_not {start s : State W} {h : History (State W) (Action W)}
    (hdrained : IsDrained sky settings start h s) {pair : Pair}
    (hnot : ¬ IsDue start.outbox.events (ingested h) pair.1 ∨
      ∀ station ∈ start.stations.rows, station.id ≠ pair.2) :
    storedPasses s.predictions pair = storedPasses start.predictions pair := by
  have hdecides := lastDecides_of_run hdrained.rest hdrained.run hdrained.keeps
  refine hdecides.kept pair (hnot.imp_left fun hundue => ?_)
  cases hlast : lastCallOf h pair.1 with
  | none => rfl
  | some call => exact absurd ((onlyDue_of_run hdrained.rest hdrained.run).last _ call hlast) hundue

/-- **Delivery order and redelivery do not matter.** Two runs of one worker from the
same tables, over the same stations and with the same ingests of each satellite, that have
processed everything end with the same predictions, if the last calls for each satellite had the
same window. -/
theorem storedPasses_eq_of_drained {start₁ start₂ s₁ s₂ : State W}
    {h₁ h₂ : History (State W) (Action W)} (hdrained₁ : IsDrained sky settings start₁ h₁ s₁)
    (hdrained₂ : IsDrained sky settings start₂ h₂ s₂) (htables : SameTables start₁ start₂)
    (hingested : ∀ satelliteId, ingestedFor h₁ satelliteId = ingestedFor h₂ satelliteId)
    (hwindows : ∀ satelliteId, ∀ call₁ ∈ lastCallOf h₁ satelliteId,
      ∀ call₂ ∈ lastCallOf h₂ satelliteId, call₁.window = call₂.window) (pair : Pair) :
    storedPasses s₁.predictions pair = storedPasses s₂.predictions pair := by
  by_cases hdue : IsDue start₁.outbox.events (ingested h₁) pair.1 ∧
      ∃ station ∈ start₁.stations.rows, station.id = pair.2
  · obtain ⟨satelliteId, stationId⟩ := pair
    obtain ⟨hdue₁, station, hstation₁, rfl⟩ := hdue
    have hdue₂ := hdue₁
    have hstation₂ := hstation₁
    rw [htables.events, isDue_iff_ingestedFor, hingested, ← isDue_iff_ingestedFor] at hdue₂
    rw [htables.stations] at hstation₂
    obtain ⟨call₁, satellite₁, reading₁, hlast₁, hfind₁, hinput₁, hpasses₁⟩ :=
      hdrained₁.storedPasses_of_due hdue₁ hstation₁
    obtain ⟨call₂, satellite₂, reading₂, hlast₂, hfind₂, hinput₂, hpasses₂⟩ :=
      hdrained₂.storedPasses_of_due hdue₂ hstation₂
    -- The lines are those of the same rows, and the windows are the same.
    have hrows : s₁.satellite? satelliteId = s₂.satellite? satelliteId := by
      rw [satellite?_of_run hdrained₁.run, satellite?_of_run hdrained₂.run,
        ← rowAfter_ingestedFor, hingested, rowAfter_ingestedFor, State.satellite?,
        State.satellite?, htables.satellites]
    rw [hfind₁, hfind₂] at hrows
    rw [Option.some.inj hrows, hwindows satelliteId call₁ hlast₁ call₂ hlast₂, ← hinput₂] at hinput₁
    rw [Reading.passes_of_input hinput₁, hpasses₂] at hpasses₁
    exact (Except.ok.inj hpasses₁).symm
  · have hnot₁ : ¬ IsDue start₁.outbox.events (ingested h₁) pair.1 ∨
        ∀ station ∈ start₁.stations.rows, station.id ≠ pair.2 := by
      rw [not_and_or] at hdue
      exact hdue.imp_right fun hnone station hmem hid => hnone ⟨station, hmem, hid⟩
    have hnot₂ := hnot₁
    rw [htables.events, isDue_iff_ingestedFor, hingested, ← isDue_iff_ingestedFor,
      htables.stations] at hnot₂
    rw [hdrained₁.storedPasses_of_not hnot₁, hdrained₂.storedPasses_of_not hnot₂,
      htables.predictions]

end Drained

/-! ## One worker, two orders -/

/-- A worker before it starts, with one station and no satellites. -/
def loneCalls : State Unit where
  outbox := { clock := 0, events := ⟨[], Events.noEvents_nodup⟩, locks := fun _ => none,
              phase := fun _ => .stopped }
  satellites := { rows := [], nodup := noSatellites_nodup, ids := noSatellites_ids }
  stations := ⟨[madrid], by decide⟩
  predictions := ⟨[], []⟩
  nextTx := 0
  handler _ := .idle

theorem loneCalls_atRest : AtRest loneCalls where
  locks _ := rfl
  phases _ := rfl
  handlers _ := rfl
  rows _ hmem := by cases hmem
  numbered _ hmem := by cases hmem

/-- The worker starts and begins a batch. -/
def awakenActions : List (Action Unit) := [.outbox (.start ()), .outbox (.run () .proceed)]

/-- The call for the first of these events, which deletes these rows and creates one. -/
def deliverActions (order : List OutboxEvent) (rows : List ℕ) (id : Uuid) : List (Action Unit) :=
  [.outbox (.run () .proceed), .outbox (.run () (.order order)), .outbox (.run () .proceed),
    .call (), .recompute () (.listAll [madrid]), .recompute () .getSatellite,
    .recompute () .getStation, .recompute () .compute, .recompute () .beginDelete] ++
  rows.map (fun index => .recompute () (.deleteRow index)) ++
  [.recompute () .endDelete, .recompute () (.create id), .recompute () .leave,
    .recompute () .commit]

/-- The attempt succeeds and commits. -/
def acknowledgeActions : List (Action Unit) :=
  [.outbox (.run () (.attempt returningAttempt)), .outbox (.run () .proceed)]

/-- Each event is processed before the next ingest. -/
def promptActions : List (Action Unit) :=
  let first := issChange.event 0 8
  let second := issChangeLater.event 0 8
  [.refresh 0 8 [issChange]] ++ awakenActions ++ deliverActions [first] [] 21 ++
    acknowledgeActions ++ [.refresh 0 8 [issChangeLater]] ++ deliverActions [second] [0] 22 ++
    acknowledgeActions

/-- Both ingests come first. The worker takes the second event, crashes after the commit
of its call, takes it again, and then the first one. -/
def belatedActions : List (Action Unit) :=
  let first := issChange.event 0 8
  let second := issChangeLater.event 0 8
  [.refresh 0 8 [issChange], .refresh 0 8 [issChangeLater]] ++ awakenActions ++
    deliverActions [second, first] [] 31 ++ [.outbox (.crash ())] ++ awakenActions ++
    deliverActions [second, first] [0] 32 ++ acknowledgeActions ++
    deliverActions [first] [1] 33 ++ acknowledgeActions

/-- What both runs have to end with. -/
def EndsAlike (h : History (State Unit) (Action Unit)) (s : State Unit) : Prop :=
  h.Meets KeepsStations ∧
    (∀ event ∈ s.outbox.events.rows, event.eventType = "tle.refreshed".toList →
      event.status = .processed) ∧
    ingested h = [issChange.satellite, issChangeLater.satellite] ∧
      ∀ noted ∈ h.notes (fun _ => callBy), noted.2.window = (0, timedelta (48 * 3600))

instance (h : History (State Unit) (Action Unit)) (s : State Unit) : Decidable (EndsAlike h s) :=
  inferInstanceAs (Decidable (_ ∧ _))

/-- The order of the events and a redelivery make no difference. -/
theorem belated_run_converges :
    ∃ h₁ s₁ h₂ s₂, IsDrained issSky {} loneCalls h₁ s₁ ∧ IsDrained issSky {} loneCalls h₂ s₂ ∧
      h₁.countP (fun t => (commitBy t).isSome) = 2 ∧
      h₂.countP (fun t => (commitBy t).isSome) = 3 ∧ storedPasses s₁.predictions (1, 7) ≠ [] ∧
        storedPasses s₁.predictions (1, 7) = storedPasses s₂.predictions (1, 7) := by
  obtain ⟨h₁, s₁, hrun₁, hP₁⟩ := System.exists_run_of_play
    (M := (recomputation (W := Unit) issSky {}).startingIn loneCalls) rfl promptActions
    (fun p => decide (EndsAlike p.1 p.2 ∧ p.1.countP (fun t => (commitBy t).isSome) = 2 ∧
      storedPasses p.2.predictions (1, 7) ≠ [])) (by decide +kernel)
  obtain ⟨h₂, s₂, hrun₂, hP₂⟩ := System.exists_run_of_play
    (M := (recomputation (W := Unit) issSky {}).startingIn loneCalls) rfl belatedActions
    (fun p => decide (EndsAlike p.1 p.2 ∧ p.1.countP (fun t => (commitBy t).isSome) = 3))
    (by decide +kernel)
  obtain ⟨⟨hkeeps₁, hprocessed₁, hingested₁, hwindows₁⟩, hcommits₁, hstored⟩ :=
    of_decide_eq_true hP₁
  obtain ⟨⟨hkeeps₂, hprocessed₂, hingested₂, hwindows₂⟩, hcommits₂⟩ := of_decide_eq_true hP₂
  have hdrained₁ : IsDrained issSky {} loneCalls h₁ s₁ :=
    ⟨loneCalls_atRest, hrun₁, hkeeps₁, hprocessed₁⟩
  have hdrained₂ : IsDrained issSky {} loneCalls h₂ s₂ :=
    ⟨loneCalls_atRest, hrun₂, hkeeps₂, hprocessed₂⟩
  refine ⟨h₁, s₁, h₂, s₂, hdrained₁, hdrained₂, hcommits₁, hcommits₂, hstored, ?_⟩
  apply storedPasses_eq_of_drained hdrained₁ hdrained₂ ⟨rfl, rfl, rfl, rfl⟩
    fun satelliteId => by rw [ingestedFor, ingestedFor, hingested₁, hingested₂]
  intro satelliteId call₁ hlast₁ call₂ hlast₂
  rw [hwindows₁ _ (History.mem_notes_of_recorded hlast₁),
    hwindows₂ _ (History.mem_notes_of_recorded hlast₂)]

end Apsis.Tracking
