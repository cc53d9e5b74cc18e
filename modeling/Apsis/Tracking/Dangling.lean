/-
# Dispatched events do not dangle

A `tle.refreshed` event is committed together with the row of its satellite, and
rows of satellites and of stations stay. So a call of `recompute_passes` finds the
satellite of its event, and every station that it has listed, as often as it looks.
-/

import Apsis.Tracking.Mixing

namespace Apsis.Tracking

open Apsis.Library Apsis.Core
open Apsis.Core.Events (OutboxEvent)

universe u

variable {W : Type u}

/-! ## The property -/

/-- The payload of the event names a satellite that is there. -/
def IsBacked (s : State W) (event : OutboxEvent) : Prop :=
  ∃ satelliteId satellite, payloadSatellite event = some satelliteId ∧
    s.satellite? satelliteId = some satellite

/-- Neither `NotFoundError` of `execute` is raised on behalf of an event. -/
structure NeverDangles (h : History (State W) (Action W)) (s : State W) : Prop where
  /-- An event in the hands of a worker names a satellite that is there. -/
  dispatched : ∀ worker rounds event, s.outbox.phase worker = .dispatching rounds event →
    event.eventType = "tle.refreshed".toList → IsBacked s event
  /-- The satellite of a call is there. -/
  running : ∀ worker call place, s.handler worker = .running call place →
    ∃ satellite, s.satellite? call.satelliteId = some satellite
  /-- A station that has been listed is there ever after. -/
  listed : ∀ t ∈ h, ∀ worker order, t.action = .recompute worker (.listAll order) →
    ∀ station ∈ order, s.stations.find? station.id = some station
  /-- Both `get_by_id` find their row. -/
  found : ∀ t ∈ h, ∀ worker,
    t.action = .recompute worker .getSatellite ∨ t.action = .recompute worker .getStation →
      ∃ call station stations execution,
        t.target.handler worker = .running call (.executing station stations execution)

/-! ## The invariant -/

/-- The stations that a call has still before it. -/
def Place.stations : Place → List GroundStation
  | .listing => []
  | .looping stations => stations
  | .executing station stations _ => station :: stations

/-- What a call refers to is there. -/
structure IsServed (s : State W) (call : Recompute) (place : Place) : Prop where
  satellite : ∃ satellite, s.satellite? call.satelliteId = some satellite
  stations : ∀ station ∈ place.stations, s.stations.find? station.id = some station

/-- What events and calls refer to is there. -/
structure Backed (s : State W) : Prop where
  locks : Events.LocksHeld s.outbox
  events : ∀ event ∈ s.outbox.events.rows, event.eventType = "tle.refreshed".toList →
    IsBacked s event
  calls : ∀ worker call place, s.handler worker = .running call place → IsServed s call place

variable [DecidableEq W] {sky : Skyfield} {settings : Settings}

/-- A satellite that is there stays. -/
theorem satellite?_of_effect {s s' : State W} {a : Action W}
    (heffect : StepEffect sky settings s a s') {id : Uuid}
    (hthere : ∃ satellite, s.satellite? id = some satellite) :
    ∃ satellite, s'.satellite? id = some satellite := by
  cases heffect with
  | refresh _ hcommit =>
      obtain ⟨before, hbefore⟩ := hthere
      obtain ⟨satellite, hsome, -⟩ := getById_commitChanges (P := fun _ => True) hcommit
        (fun _ _ _ => trivial) ⟨before, hbefore, trivial⟩
      exact ⟨satellite, hsome⟩
  | drop _ _ _ | raises _ _ _ _ =>
      simpa only [State.satellite?, State.drop_satellites] using hthere
  | _ => exact hthere

theorem IsBacked.of_effect {s s' : State W} {a : Action W} {event : OutboxEvent}
    (hbacked : IsBacked s event) (heffect : StepEffect sky settings s a s') :
    IsBacked s' event := by
  obtain ⟨satelliteId, satellite, hpayload, hsome⟩ := hbacked
  obtain ⟨satellite', hsome'⟩ := satellite?_of_effect heffect ⟨satellite, hsome⟩
  exact ⟨satelliteId, satellite', hpayload, hsome'⟩

/-- Events that announce a refresh are published by refreshes only. -/
theorem Backed.row {s s' : State W} {a : Action W} (hinv : Backed s)
    (heffect : StepEffect sky settings s a s') {event : OutboxEvent}
    (hmem : event ∈ s'.outbox.events.rows) (htype : event.eventType = "tle.refreshed".toList) :
    IsBacked s' event := by
  rcases refreshed_of_effect hinv.locks heffect hmem htype with hbefore |
    ⟨worker, before, attempt, hholds, hhandled⟩ |
    ⟨startedAt, maxRetries, changes, rfl, change, hchange, rfl, hthere⟩
  · exact (hinv.events event hbefore htype).of_effect heffect
  · obtain ⟨hsameType, hpayload⟩ := hhandled.content_eq
    have hbefore := ((Table.find?_eq_some_iff _).mp hholds.row).1
    have hbacked := (hinv.events before hbefore (hsameType ▸ htype)).of_effect heffect
    unfold IsBacked payloadSatellite at hbacked ⊢
    rw [hpayload]
    exact hbacked
  · obtain ⟨satellite, hsome⟩ := Option.ne_none_iff_exists'.mp hthere
    exact ⟨change.satellite.id, satellite, rfl, hsome⟩

omit [DecidableEq W] in
/-- What a call comes to have before it, it had before it or it has just listed. -/
theorem PlaceStep.mem_stations {s : State W} {call : Recompute} {place place' : Place}
    (hmoves : PlaceStep s call place place') {station : GroundStation}
    (hmem : station ∈ place'.stations) : station ∈ place.stations ∨ station ∈ s.stations.rows := by
  cases hmoves with
  | listAll horder => exact Or.inr (horder.mem_iff.mp hmem)
  | leave => exact Or.inl (List.mem_cons_of_mem _ hmem)
  | _ => exact Or.inl hmem

/-- The step lemma. -/
theorem backed_step {s s' : State W} {a : Action W} (hinv : Backed s)
    (htaken : step sky settings s a = some s') : Backed s' := by
  have heffect := step_effect htaken
  refine ⟨locksHeld_of_effect hinv.locks heffect,
    fun event hmem htype => hinv.row heffect hmem htype, fun worker call place hplace => ?_⟩
  rcases (continues_of_effect heffect).2 worker call place hplace with ⟨before, hbefore, hmoves⟩ |
    ⟨-, rfl, rfl⟩
  · obtain ⟨hsatellite, hstations⟩ := hinv.calls worker call before hbefore
    refine ⟨satellite?_of_effect heffect hsatellite, fun station hmem => ?_⟩
    apply stations_of_effect heffect
    rcases hmoves with rfl | hmoves
    · exact hstations station hmem
    · rcases hmoves.mem_stations hmem with hold | hrow
      · exact hstations station hold
      · exact Table.find?_key hrow
  · -- The event is in the table, so its satellite is there.
    obtain ⟨event, hmem, htype, -, -, hpayload⟩ := row_of_call hinv.locks htaken hplace
    obtain ⟨satelliteId, satellite, hsame, hsome⟩ := hinv.events event hmem htype
    rw [hpayload] at hsame
    cases hsame
    exact ⟨satellite?_of_effect heffect ⟨satellite, hsome⟩, nofun⟩

/-- The run lemma. -/
theorem backed_of_run {h : History (State W) (Action W)} {s : State W}
    (hrun : (recomputation sky settings).Run h s) : Backed s := by
  apply hrun.invariant_of_step (I := fun _ s => Backed s)
  · intro s hinit
    have hrest := atRest_of_init hinit
    constructor
    · exact hrest.locksHeld
    · intro event hmem
      rw [hinit.1.1] at hmem
      cases hmem
    · intro worker call place hplace
      rw [hrest.handlers] at hplace
      cases hplace
  · exact fun _ _ _ _ _ hinv hstep => backed_step hinv hstep

/-- Where everything is there, both `get_by_id` find their row. -/
theorem Backed.found {s s' : State W} {worker : W} {statement : Statement} (hinv : Backed s)
    (hstep : step sky settings s (.recompute worker statement) = some s')
    (hget : statement = .getSatellite ∨ statement = .getStation) :
    ∃ call station stations execution,
      s'.handler worker = .running call (.executing station stations execution) := by
  simp only [step] at hstep
  split at hstep
  · next call place hplace =>
      unfold recomputeStep at hstep
      split at hstep
      case h_2 station stations =>
        split at hstep
        · next hnone =>
            obtain ⟨satellite, hsome⟩ := (hinv.calls worker call _ hplace).satellite
            rw [hnone] at hsome
            cases hsome
        · next satellite _ =>
            cases hstep
            exact ⟨call, station, stations, .located satellite, State.enter_handler_self _ _ _⟩
      case h_3 station stations satellite =>
        split at hstep
        · next hnone =>
            rw [(hinv.calls worker call _ hplace).stations station List.mem_cons_self] at hnone
            cases hnone
        · cases hstep
          exact ⟨call, station, stations, .computing satellite, State.enter_handler_self _ _ _⟩
      case h_12 => cases hstep
      all_goals simp at hget
  · cases hstep

theorem perm_of_listAll {s s' : State W} {worker : W} {order : List GroundStation}
    (hstep : step sky settings s (.recompute worker (.listAll order)) = some s') :
    order.Perm s.stations.rows := by
  simp only [step] at hstep
  split at hstep
  · next call place hplace =>
      cases place with
      | listing =>
          simp only [recomputeStep, Option.ite_none_right_eq_some] at hstep
          exact hstep.1
      | looping stations => cases stations <;> cases hstep
      | executing station stations execution =>
          cases execution with
          | inserting predicted => cases predicted <;> cases hstep
          | _ => cases hstep
  · cases hstep

/-- **Dispatched events do not dangle.** In every run, whatever refreshes commit or
roll back, whatever stations are registered and whatever the workers do, the
satellite of a dispatched event is there, and so are the stations of its call, as
long as the call goes on. -/
theorem neverDangles_of_run {h : History (State W) (Action W)} {s : State W}
    (hrun : (recomputation sky settings).Run h s) : NeverDangles h s := by
  have hbacked := backed_of_run hrun
  constructor
  · intro worker rounds event hphase htype
    have hholds := hbacked.locks.held worker event (by rw [hphase]; rfl)
    exact hbacked.events event ((Table.find?_eq_some_iff _).mp hholds.row).1 htype
  · exact fun worker call place hplace => (hbacked.calls worker call place hplace).satellite
  · intro t ht worker order haction station hstation
    induction hrun with
    | start _ => cases ht
    | @extend h s s' a hprior hstep ih =>
        have heffect := step_effect hstep
        rcases List.mem_cons.mp ht with rfl | ht
        · subst haction
          have htaken : step sky settings s (.recompute worker (.listAll order)) = some s' := hstep
          have hlisted := (perm_of_listAll htaken).mem_iff.mp hstation
          exact stations_of_effect heffect (Table.find?_key hlisted)
        · exact stations_of_effect heffect (ih (backed_of_run hprior) ht)
  · intro t ht worker hget
    clear hbacked
    induction hrun with
    | start _ => cases ht
    | @extend h s s' a hprior hstep ih =>
        rcases List.mem_cons.mp ht with rfl | ht
        · obtain ⟨statement, rfl, hstatement⟩ : ∃ statement,
              a = .recompute worker statement ∧
                (statement = .getSatellite ∨ statement = .getStation) := by
            rcases hget with haction | haction
            · exact ⟨_, haction, Or.inl rfl⟩
            · exact ⟨_, haction, Or.inr rfl⟩
          have htaken : step sky settings s (.recompute worker statement) = some s' := hstep
          exact (backed_of_run hprior).found htaken hstatement
        · exact ih ht

/-- A call has read exactly these stations. -/
def lists (stations : List GroundStation) (t : Transition (State W) (Action W)) : Bool :=
  match t.action with
  | .recompute _ (.listAll order) => decide (order = stations)
  | _ => false

/-- The event of the first record is in the hands of a worker, whose call has computed
the passes over Madrid. -/
theorem iss_event_backed :
    ∃ h s rounds event, (recomputation (W := Fin 2) issSky {}).Run h s ∧
      s.outbox.phase 0 = .dispatching rounds event ∧ event.id = issChange.eventId ∧
      IsBacked s event ∧ s.stations.find? madrid.id = some madrid := by
  let first := issChange.event 0 8
  obtain ⟨h, s, hrun, hP⟩ := System.exists_run_of_play (idleCalls_init issSky {})
    ([.register madrid, .refresh 0 8 [issChange]] ++ dispatchActions 0 [] first ++
      computeActions 0)
    (fun p => decide (p.2.outbox.phase 0 = .dispatching 49 first ∧
      p.1.any (lists [madrid]) = true)) (by decide +kernel)
  obtain ⟨hphase, hlists⟩ := of_decide_eq_true hP
  have hdangles := neverDangles_of_run hrun
  refine ⟨h, s, 49, first, hrun, hphase, rfl, hdangles.dispatched 0 49 first hphase rfl, ?_⟩
  obtain ⟨t, hmem, ht⟩ := List.any_eq_true.mp hlists
  unfold lists at ht
  split at ht
  · next worker order haction =>
      apply hdangles.listed t hmem worker order haction
      rw [of_decide_eq_true ht]
      exact List.mem_singleton_self madrid
  · cases ht

end Apsis.Tracking
