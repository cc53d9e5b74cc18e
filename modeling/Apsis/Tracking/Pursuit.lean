/-
# From an event to its recomputation

A `tle.refreshed` event is a notice: the TLE of this satellite has changed, and so
have its passes over the stations that there are. As long as its row is not settled,
the notice stands. It settles only after a call of `recompute_passes`, made for this
very event, has committed, and such a call has read the satellite for every one of
the stations, no earlier than the change.
-/

import Apsis.Tracking.Readings

namespace Apsis.Tracking

open Apsis.Library Apsis.Core
open Apsis.Core.Events (OutboxEvent Attempt)

universe u

variable {W : Type u}

/-! ## Notices -/

/-- An event of a satellite, with the stations and the revision of the satellite that
there were when it was published. -/
structure Notice where
  eventId : Uuid
  satelliteId : Uuid
  stations : List GroundStation
  since : ℕ

/-- The event does not call for the handler any more. -/
def IsSettled (event : OutboxEvent) : Prop :=
  event.status = .processed ∨
    Events.completed event.handlerState recomputePasses.name = true

/-- The transaction has read the satellite for the pair, at this revision or later. -/
def HasRead (h : History (State W) (Action W)) (tx : TxId) (pair : Pair) (since : ℕ) : Prop :=
  ∃ reading, readingOf h tx pair = some reading ∧ since ≤ reading.revision

section Notice

variable (h : History (State W) (Action W)) (committed : List TxId) (s : State W)
  (notice : Notice)

/-- A committed transaction has read the satellite for all stations of the notice. -/
def IsCovered : Prop :=
  ∃ tx ∈ committed, ∀ station ∈ notice.stations,
    HasRead h tx (notice.satelliteId, station.id) notice.since

/-- A call has the station still before it, or it has read the satellite for it. -/
def Reaches (call : Recompute) (station : GroundStation) : Place → Prop
  | .listing => True
  | .looping stations =>
      station ∈ stations ∨ HasRead h call.tx (notice.satelliteId, station.id) notice.since
  | .executing _ stations _ =>
      station ∈ stations ∨ HasRead h call.tx (notice.satelliteId, station.id) notice.since

/-- What the handler of a worker with the event does about the notice. -/
def Pursues : Handler → Prop
  | .running call place => call.satelliteId = notice.satelliteId ∧
      ∀ station ∈ notice.stations, Reaches h notice call station place
  | .ended true => IsCovered h committed notice
  | _ => True

/-- The notice stands until it is covered. -/
structure Pursued : Prop where
  known : ∀ station ∈ notice.stations, s.stations.find? station.id = some station
  reached : notice.since ≤ revision h notice.satelliteId
  row : ∃ event, s.outbox.events.find? notice.eventId = some event ∧
    event.eventType = "tle.refreshed".toList ∧
      payloadSatellite event = some notice.satelliteId ∧
        (IsSettled event → IsCovered h s.predictions.committed notice)
  flushed : ∀ worker before after, (s.outbox.phase worker).commit? = some (before, after) →
    before.id = notice.eventId → IsSettled after → IsCovered h s.predictions.committed notice
  handlers : ∀ worker rounds event, s.outbox.phase worker = .dispatching rounds event →
    event.id = notice.eventId → Pursues h s.predictions.committed notice (s.handler worker)

end Notice

/-- A worker with a call, or with one that is over, has an event dispatched. -/
def Attached (s : State W) : Prop :=
  ∀ worker, s.handler worker ≠ .idle →
    ∃ rounds event, s.outbox.phase worker = .dispatching rounds event

/-! ## Readings stay -/

section Frame

variable {t : Transition (State W) (Action W)} {h : History (State W) (Action W)}
  {committed committed' : List TxId} {notice : Notice}

/-- A transaction that reads a pair again reads a later revision. -/
theorem HasRead.cons {tx : TxId} {pair : Pair} {since : ℕ} (hread : HasRead h tx pair since)
    (hreached : since ≤ revision h pair.1) : HasRead (t :: h) tx pair since := by
  obtain ⟨reading, hreading, hsince⟩ := hread
  cases hnoted : readBy h t with
  | none => exact ⟨reading, by rw [readingOf_cons_of_none hnoted, hreading], hsince⟩
  | some noted =>
      have hcons := readingOf_cons_of_some hnoted tx pair
      split at hcons
      · next hsame =>
          refine ⟨noted.2, hcons, ?_⟩
          obtain ⟨_, call, _, _, _, -, -, -, rfl⟩ := readBy_eq_some hnoted
          cases hsame
          exact hreached
      · exact ⟨reading, hcons.trans hreading, hsince⟩

theorem IsCovered.cons (hcovered : IsCovered h committed notice)
    (hreached : notice.since ≤ revision h notice.satelliteId)
    (hmono : ∀ tx ∈ committed, tx ∈ committed') : IsCovered (t :: h) committed' notice := by
  obtain ⟨tx, hmem, hread⟩ := hcovered
  exact ⟨tx, hmono tx hmem, fun station hstation => (hread station hstation).cons hreached⟩

theorem Reaches.cons {call : Recompute} {station : GroundStation} {place : Place}
    (hreaches : Reaches h notice call station place)
    (hreached : notice.since ≤ revision h notice.satelliteId) :
    Reaches (t :: h) notice call station place := by
  cases place with
  | listing => trivial
  | looping stations => exact hreaches.imp_right fun hread => hread.cons hreached
  | executing _ stations _ => exact hreaches.imp_right fun hread => hread.cons hreached

theorem Pursues.cons {handler : Handler} (hpursues : Pursues h committed notice handler)
    (hreached : notice.since ≤ revision h notice.satelliteId)
    (hmono : ∀ tx ∈ committed, tx ∈ committed') : Pursues (t :: h) committed' notice handler := by
  cases handler with
  | idle => trivial
  | running call place =>
      exact ⟨hpursues.1, fun station hmem => (hpursues.2 station hmem).cons hreached⟩
  | ended returned =>
      cases returned with
      | false => trivial
      | true => exact IsCovered.cons hpursues hreached hmono

end Frame

/-! ## How an event settles -/

theorem dispatcher_refreshed : dispatcher "tle.refreshed".toList = [recomputePasses] := by
  unfold dispatcher Events.EventDispatcher.register
  rw [Function.update_self]
  rfl

/-- An attempt settles its event only after the call has returned. -/
theorem handler_of_isSettled {event after : OutboxEvent} {attempt : Attempt} {handler : Handler}
    (htype : event.eventType = "tle.refreshed".toList)
    (hanswers : Answers event handler attempt.calls)
    (hhandle : Events.handleEvent event attempt = .ok after) (hbefore : ¬ IsSettled event)
    (hafter : IsSettled after) : handler = .ended true := by
  obtain ⟨hunprocessed, hincomplete⟩ := not_or.mp hbefore
  rw [Bool.not_eq_true] at hincomplete
  obtain ⟨hcalls, houtcomes⟩ := hanswers
  rw [htype, dispatcher_refreshed, List.map_eq_singleton_iff] at hcalls
  obtain ⟨call, hcalls, hcall⟩ := hcalls
  have hmem : call ∈ attempt.calls := by rw [hcalls]; exact List.mem_singleton_self call
  rw [← hcall] at hincomplete
  refine (houtcomes call hmem hincomplete).resolve_right ?_
  rintro ⟨-, hraises⟩
  -- The only call has failed, so the attempt has, and the entry says so.
  have hfails : (Events.dispatchResult event attempt).allSucceeded = false := by
    rw [← Bool.not_eq_true, Events.allSucceeded_dispatch]
    intro hall
    rcases hall call hmem with hcompleted | hreturns
    · rw [hincomplete] at hcompleted
      cases hcompleted
    · exact hraises hreturns
  have hentry : Events.completed (Events.newState event attempt) recomputePasses.name = false := by
    rw [Events.completed_recordResults]
    split
    · next result hlast =>
        obtain ⟨hresult, -⟩ := Events.lastResult_eq_some hlast
        rw [Events.dispatchResult, Events.dispatch, hcalls, List.map_singleton,
          List.mem_singleton] at hresult
        rw [hresult, ← Bool.not_eq_true, Events.Call.result_success, not_or, hincomplete]
        exact ⟨Bool.false_ne_true, hraises⟩
    · rw [← hcall]
      exact hincomplete
  cases Events.handleEvent_eq_ok.mp hhandle with
  | processed hall _ =>
      rw [hfails] at hall
      cases hall
  | failed _ _ _ =>
      rcases hafter with hstatus | hcompleted
      · cases hstatus
      · rw [hentry] at hcompleted
        cases hcompleted
  | retry _ _ _ _ _ =>
      rcases hafter with hstatus | hcompleted
      · exact hunprocessed hstatus
      · rw [hentry] at hcompleted
        cases hcompleted

/-! ## The outbox under a step -/

section Outbox

variable [DecidableEq W] {sky : Skyfield} {settings : Settings} {s s' : State W} {a : Action W}

/-- A row stays as it is, or a worker commits an attempt of it. -/
theorem event_of_effect (hlocks : Events.LocksHeld s.outbox)
    (heffect : StepEffect sky settings s a s') {id : Uuid} {event : OutboxEvent}
    (hfind : s.outbox.events.find? id = some event) :
    s'.outbox.events.find? id = some event ∨ ∃ worker after,
      (s.outbox.phase worker).commit? = some (event, after) ∧
        s'.outbox.events.find? id = some after := by
  cases heffect with
  | outbox _ hstep _ => exact Events.find?_of_step hlocks hstep hfind
  | drop _ hstep _ =>
      rw [State.drop_outbox]
      exact Events.find?_of_step hlocks hstep hfind
  | refresh _ hcommit => exact Or.inl (find?_commitChanges hcommit (Or.inl hfind))
  | raises _ _ _ _ =>
      rw [State.drop_outbox]
      exact Or.inl hfind
  | _ => exact Or.inl hfind

/-- An attempt that is about to be committed was so before the step, or it has just
ended, with what the handler has answered. -/
theorem flushed_of_effect (heffect : StepEffect sky settings s a s') {worker : W}
    {before after : OutboxEvent}
    (hcommit : (s'.outbox.phase worker).commit? = some (before, after)) :
    (s.outbox.phase worker).commit? = some (before, after) ∨ ∃ rounds attempt,
      s.outbox.phase worker = .dispatching rounds before ∧
        Events.handleEvent before attempt = .ok after ∧
          Answers before (s.handler worker) attempt.calls := by
  have hstepped : ∀ action outbox, s.permits action = true →
      Events.step s.outbox action = some outbox →
        (outbox.phase worker).commit? = some (before, after) →
          (s.outbox.phase worker).commit? = some (before, after) ∨ ∃ rounds attempt,
            s.outbox.phase worker = .dispatching rounds before ∧
              Events.handleEvent before attempt = .ok after ∧
                Answers before (s.handler worker) attempt.calls := by
    intro action outbox hpermits hstep hcommit
    refine (Events.commit?_of_step hstep hcommit).imp_right ?_
    rintro ⟨rounds, attempt, rfl, hphase, hhandle⟩
    refine ⟨rounds, attempt, hphase, hhandle, ?_⟩
    simp only [State.permits, hphase] at hpermits
    exact of_decide_eq_true hpermits
  cases heffect with
  | outbox hpermits hstep _ => exact hstepped _ _ hpermits hstep hcommit
  | drop hpermits hstep _ =>
      rw [State.drop_outbox] at hcommit
      exact hstepped _ _ hpermits hstep hcommit
  | raises _ _ _ _ =>
      rw [State.drop_outbox] at hcommit
      exact Or.inl hcommit
  | _ => exact Or.inl hcommit

/-- Only a worker with an event dispatched has to do with the handler, and the step has
left it the event. -/
theorem dispatching_of_attached (hattached : Attached s)
    (htaken : step sky settings s a = some s') {worker : W} (hbusy : s'.handler worker ≠ .idle) :
    ∃ rounds event, s.outbox.phase worker = .dispatching rounds event ∧
      s'.outbox.phase worker = .dispatching rounds event := by
  have hkept : s'.outbox.phase = s.outbox.phase → s.handler worker ≠ .idle →
      ∃ rounds event, s.outbox.phase worker = .dispatching rounds event ∧
        s'.outbox.phase worker = .dispatching rounds event := by
    intro hphases hbefore
    obtain ⟨rounds, event, hphase⟩ := hattached worker hbefore
    exact ⟨rounds, event, hphase, by rw [hphases, hphase]⟩
  have hupdate : ∀ actor next, s'.outbox.phase = s.outbox.phase →
      s'.handler = Function.update s.handler actor next →
        (∃ rounds event, s.outbox.phase actor = .dispatching rounds event) →
          ∃ rounds event, s.outbox.phase worker = .dispatching rounds event ∧
            s'.outbox.phase worker = .dispatching rounds event := by
    rintro actor next hphases hhandler ⟨rounds, event, hphase⟩
    by_cases hsame : worker = actor
    · subst hsame
      exact ⟨rounds, event, hphase, by rw [hphases, hphase]⟩
    · rw [hhandler, Function.update_of_ne hsame] at hbusy
      exact hkept hphases hbusy
  have hrunning : ∀ actor call place, s.handler actor = .running call place →
      ∃ rounds event, s.outbox.phase actor = .dispatching rounds event := by
    intro actor call place hplace
    apply hattached
    rw [hplace]
    rintro ⟨⟩
  cases step_effect htaken with
  | @outbox action _ _ hstep hends =>
      obtain ⟨rounds, event, hphase⟩ := hattached worker hbusy
      refine ⟨rounds, event, hphase, ?_⟩
      rcases Events.dispatching_of_step hstep hphase with hphase' | rfl | rfl | ⟨attempt, rfl⟩
      · exact hphase'
      all_goals cases hends
  | @drop action _ actor _ hstep hends =>
      rw [State.drop_handler] at hbusy
      have hother : worker ≠ actor := by
        rintro rfl
        rw [Function.update_self] at hbusy
        exact hbusy rfl
      rw [Function.update_of_ne hother] at hbusy
      obtain ⟨rounds, event, hphase⟩ := hattached worker hbusy
      refine ⟨rounds, event, hphase, ?_⟩
      rw [State.drop_outbox]
      rcases Events.dispatching_of_step hstep hphase with hphase' | rfl | rfl | ⟨attempt, rfl⟩
      · exact hphase'
      all_goals
        cases hends
        exact absurd rfl hother
  | unreadable _ =>
      obtain ⟨rounds, event, hphase, -⟩ := dispatching_of_call htaken
      exact hupdate _ _ rfl rfl ⟨rounds, event, hphase⟩
  | call hphase _ _ _ => exact hupdate _ _ rfl rfl ⟨_, _, hphase⟩
  | raises hplace _ _ _ =>
      exact hupdate _ _ (by rw [State.drop_outbox]) (State.drop_handler _ _ _)
        (hrunning _ _ _ hplace)
  | listAll hplace _ | getSatellite hplace _ | getStation hplace | compute hplace _
  | beginDelete hplace | endDelete hplace _ | create hplace _ _ | leave hplace
  | commit hplace => exact hupdate _ _ rfl rfl (hrunning _ _ _ hplace)
  | deleteRow _ _ | refresh _ _ | register _ => exact hkept rfl hbusy

theorem attached_step (hattached : Attached s) (htaken : step sky settings s a = some s') :
    Attached s' := by
  intro worker hbusy
  obtain ⟨rounds, event, -, hphase⟩ := dispatching_of_attached hattached htaken hbusy
  exact ⟨rounds, event, hphase⟩

end Outbox

/-! ## The invariant -/

section Steps

variable [DecidableEq W] {sky : Skyfield} {settings : Settings}
  {h : History (State W) (Action W)} {s s' : State W} {a : Action W} {notice : Notice}

theorem committed_mono (heffect : StepEffect sky settings s a s') :
    ∀ tx ∈ s.predictions.committed, tx ∈ s'.predictions.committed := by
  intro tx hmem
  rw [committed_of_effect heffect]
  exact List.mem_append_right _ hmem

omit [DecidableEq W] in
/-- A call that moves on without reading the satellite. -/
theorem Pursues.move {committed : List TxId} {call : Recompute} {place place' : Place}
    (hpursues : Pursues h committed notice (.running call place))
    (hreaches : ∀ station ∈ notice.stations,
      Reaches h notice call station place → Reaches h notice call station place') :
    Pursues h committed notice (.running call place') :=
  ⟨hpursues.1, fun station hmem => hreaches station hmem (hpursues.2 station hmem)⟩

/-- The handlers of the workers with the event. -/
theorem Pursued.handlers_step (hinv : Pursued h s notice) (hlocks : Events.LocksHeld s.outbox)
    (hattached : Attached s) (htaken : step sky settings s a = some s') {worker : W} {rounds : ℕ}
    {event : OutboxEvent} (hphase : s'.outbox.phase worker = .dispatching rounds event)
    (hid : event.id = notice.eventId) :
    Pursues (⟨s, a, s'⟩ :: h) s'.predictions.committed notice (s'.handler worker) := by
  have heffect := step_effect htaken
  by_cases hidle : s'.handler worker = .idle
  · rw [hidle]
    trivial
  obtain ⟨rounds', event', hbefore, hafter⟩ := dispatching_of_attached hattached htaken hidle
  rw [hphase] at hafter
  cases hafter
  have hprior := (hinv.handlers worker rounds event hbefore hid).cons (t := ⟨s, a, s'⟩)
    hinv.reached (committed_mono heffect)
  have hkept : s'.handler = s.handler → Pursues (⟨s, a, s'⟩ :: h) s'.predictions.committed notice
      (s'.handler worker) := by
    intro hhandler
    rw [hhandler]
    exact hprior
  have hupdate : ∀ actor next, s'.handler = Function.update s.handler actor next →
      (worker = actor → Pursues (⟨s, a, s'⟩ :: h) s'.predictions.committed notice next) →
        Pursues (⟨s, a, s'⟩ :: h) s'.predictions.committed notice (s'.handler worker) := by
    intro actor next hhandler hnext
    rw [hhandler]
    by_cases hsame : worker = actor
    · rw [hsame, Function.update_self]
      exact hnext hsame
    · rw [Function.update_of_ne hsame]
      exact hprior
  have hmove : ∀ actor call place place', s.handler actor = .running call place →
      s'.handler = Function.update s.handler actor (.running call place') →
        (∀ station ∈ notice.stations, Reaches (⟨s, a, s'⟩ :: h) notice call station place →
          Reaches (⟨s, a, s'⟩ :: h) notice call station place') →
          Pursues (⟨s, a, s'⟩ :: h) s'.predictions.committed notice (s'.handler worker) := by
    intro actor call place place' hplace hhandler hreaches
    apply hupdate actor _ hhandler
    rintro rfl
    rw [hplace] at hprior
    exact hprior.move hreaches
  cases heffect with
  | outbox _ _ _ | refresh _ _ | register _ | deleteRow _ _ => exact hkept rfl
  | drop _ _ _ => exact hupdate _ _ (State.drop_handler _ _ _) fun _ => trivial
  | raises _ _ _ _ => exact hupdate _ _ (State.drop_handler _ _ _) fun _ => trivial
  | unreadable _ => exact hupdate _ _ rfl fun _ => trivial
  | @call actor _ event' satelliteId _ hphase' _ hpayload _ =>
      apply hupdate actor _ rfl
      rintro rfl
      rw [hbefore] at hphase'
      cases hphase'
      -- The worker holds the row of the event, whose payload names the satellite.
      obtain ⟨row, hrow, -, hnamed, -⟩ := hinv.row
      have hholds := hlocks.held worker event (by rw [hbefore]; rfl)
      rw [← hid, hholds.row] at hrow
      cases hrow
      rw [hpayload] at hnamed
      exact ⟨Option.some.inj hnamed, fun _ _ => trivial⟩
  | listAll hplace horder =>
      apply hmove _ _ _ _ hplace rfl
      intro station hmem _
      have hrow := ((Table.find?_eq_some_iff _).mp (hinv.known station hmem)).1
      exact Or.inl (horder.mem_iff.mpr hrow)
  | @getSatellite actor call station stations satellite hplace hfind =>
      apply hupdate _ _ rfl
      rintro rfl
      rw [hplace] at hprior
      refine ⟨hprior.1, fun sought hmem => ?_⟩
      rcases hprior.2 sought hmem with hremains | hread
      · rcases List.mem_cons.mp hremains with rfl | hremains
        · -- This is the station for which the satellite has just been read.
          right
          have hnoted : readBy h ⟨s, .recompute worker .getSatellite, s.enter worker
              (.running call (.executing sought stations (.located satellite)))⟩ =
              some ((call.tx, (call.satelliteId, sought.id)),
                ⟨satellite.lines, sought, call.window, revision h call.satelliteId⟩) := by
            simp only [readBy, hplace, hfind, Option.map_some]
          rw [← hprior.1]
          refine ⟨_, (readingOf_cons_of_some hnoted _ _).trans (if_pos rfl), ?_⟩
          show notice.since ≤ revision h call.satelliteId
          rw [hprior.1]
          exact hinv.reached
        · exact Or.inl hremains
      · exact Or.inr hread
  | getStation hplace => exact hmove _ _ _ _ hplace rfl fun _ _ hreaches => hreaches
  | compute hplace _ => exact hmove _ _ _ _ hplace rfl fun _ _ hreaches => hreaches
  | beginDelete hplace => exact hmove _ _ _ _ hplace rfl fun _ _ hreaches => hreaches
  | endDelete hplace _ => exact hmove _ _ _ _ hplace rfl fun _ _ hreaches => hreaches
  | create hplace _ _ => exact hmove _ _ _ _ hplace rfl fun _ _ hreaches => hreaches
  | leave hplace => exact hmove _ _ _ _ hplace rfl fun _ _ hreaches => hreaches
  | @commit actor call hplace =>
      apply hupdate _ _ rfl
      rintro rfl
      rw [hplace] at hprior
      refine ⟨call.tx, List.mem_cons_self, fun station hmem => ?_⟩
      exact (hprior.2 station hmem).resolve_left List.not_mem_nil

/-- The step lemma. -/
theorem pursued_step (hinv : Pursued h s notice) (hlocks : Events.LocksHeld s.outbox)
    (hattached : Attached s) (htaken : step sky settings s a = some s') :
    Pursued (⟨s, a, s'⟩ :: h) s' notice := by
  have heffect := step_effect htaken
  have hcovered : IsCovered h s.predictions.committed notice →
      IsCovered (⟨s, a, s'⟩ :: h) s'.predictions.committed notice :=
    fun hprior => hprior.cons hinv.reached (committed_mono heffect)
  obtain ⟨row, hrow, htype, hpayload, hsettled⟩ := hinv.row
  constructor
  · exact fun station hmem => stations_of_effect heffect (hinv.known station hmem)
  · exact hinv.reached.trans (revision_le_cons _)
  · rcases event_of_effect hlocks heffect hrow with hrow' | ⟨worker, after, hcommit, hafter⟩
    · exact ⟨row, hrow', htype, hpayload, fun hdone => hcovered (hsettled hdone)⟩
    · obtain ⟨attempt, hhandle⟩ := hlocks.handled worker row after hcommit
      obtain ⟨hsameType, hsamePayload⟩ := (Events.handleEvent_eq_ok.mp hhandle).content_eq
      refine ⟨after, hafter, hsameType.trans htype, ?_, fun hdone => ?_⟩
      · unfold payloadSatellite at hpayload ⊢
        rw [hsamePayload]
        exact hpayload
      · exact hcovered (hinv.flushed worker row after hcommit (Table.key_of_find? hrow) hdone)
  · intro worker before after hcommit hid hdone
    apply hcovered
    rcases flushed_of_effect heffect hcommit with hbefore |
      ⟨rounds, attempt, hphase, hhandle, hanswers⟩
    · exact hinv.flushed worker before after hbefore hid hdone
    · have hholds := hlocks.held worker before (by rw [hphase]; rfl)
      have hsame := hholds.row
      rw [hid, hrow] at hsame
      cases hsame
      by_cases hunsettled : IsSettled row
      · exact hsettled hunsettled
      · -- The attempt settles the event, so the call for it has returned.
        have hended := handler_of_isSettled htype hanswers hhandle hunsettled hdone
        have hpursues := hinv.handlers worker rounds row hphase hid
        rw [hended] at hpursues
        exact hpursues
  · exact fun worker rounds event hphase hid =>
      hinv.handlers_step hlocks hattached htaken hphase hid

/-- A change that is being committed is pursued from then on, over all stations. -/
theorem Pursued.of_change (hlocks : Events.LocksHeld s.outbox) {startedAt : Time} {maxRetries : ℤ}
    {changes : List Change}
    (heffect : StepEffect sky settings s (.refresh startedAt maxRetries changes) s')
    {change : Change} (hmem : change ∈ changes) :
    Pursued (⟨s, .refresh startedAt maxRetries changes, s'⟩ :: h) s'
      ⟨change.eventId, change.satellite.id, s.stations.rows,
        revision (⟨s, .refresh startedAt maxRetries changes, s'⟩ :: h) change.satellite.id⟩ := by
  cases heffect with
  | refresh hstarted hcommit =>
      have hfresh := find?_eq_none_of_commitChanges hcommit hmem
      have hnew : ∀ worker event, (s.outbox.phase worker).event? = some event →
          event.id ≠ change.eventId := by
        intro worker event hevent hid
        have hrow := (hlocks.held worker event hevent).row
        rw [hid, hfresh] at hrow
        cases hrow
      constructor
      · exact fun station hstation => Table.find?_key hstation
      · exact le_rfl
      · refine ⟨change.event startedAt maxRetries, ?_, rfl, rfl, ?_⟩
        · exact find?_commitChanges hcommit (Or.inr ⟨change, hmem, rfl, rfl⟩)
        · rintro (hprocessed | hcompleted)
          · cases hprocessed
          · cases hcompleted
      · intro worker before after hbefore hid
        exact absurd hid (hnew worker before (Events.Phase.event?_of_commit? hbefore))
      · intro worker rounds event hphase hid
        exact absurd hid (hnew worker event (congrArg Events.Phase.event? hphase))

omit [DecidableEq W] in
/-- So is an unsettled event among tables at rest. -/
theorem AtRest.pursued (hrest : AtRest s) {event : OutboxEvent}
    (hmem : event ∈ s.outbox.events.rows) (htype : event.eventType = "tle.refreshed".toList)
    {satelliteId : Uuid} (hpayload : payloadSatellite event = some satelliteId)
    (hunsettled : ¬ IsSettled event) :
    Pursued [] s ⟨event.id, satelliteId, s.stations.rows, 0⟩ := by
  constructor
  · exact fun station hstation => Table.find?_key hstation
  · exact le_rfl
  · exact ⟨event, Table.find?_key hmem, htype, hpayload, fun hsettled => absurd hsettled hunsettled⟩
  · intro worker before after hbefore
    rw [hrest.phases] at hbefore
    cases hbefore
  · intro worker rounds event' hphase
    rw [hrest.phases] at hphase
    cases hphase

/-! ## Along a run -/

/-- The stations that there were when the satellite last changed. -/
def stationsAtLastChange : History (State W) (Action W) → Uuid → List GroundStation
  | [], _ => []
  | t :: earlier, satelliteId =>
      if ∃ change ∈ changesBy t, change.satellite.id = satelliteId then t.source.stations.rows
      else stationsAtLastChange earlier satelliteId

/-- The latest change of the satellite, with the event that has announced it. -/
def lastNotice (h : History (State W) (Action W)) (eventId satelliteId : Uuid) : Notice :=
  ⟨eventId, satelliteId, stationsAtLastChange h satelliteId, revision h satelliteId⟩

omit [DecidableEq W] in
theorem revision_cons_of_not {t : Transition (State W) (Action W)} {satelliteId : Uuid}
    (hnot : ¬ ∃ change ∈ changesBy t, change.satellite.id = satelliteId) :
    revision (t :: h) satelliteId = revision h satelliteId := by
  rw [revision, Nat.add_eq_left, List.countP_eq_zero]
  intro change hmem hid
  exact hnot ⟨change, hmem, of_decide_eq_true hid⟩

omit [DecidableEq W] in
theorem lastNotice_cons_of_not {t : Transition (State W) (Action W)} {satelliteId : Uuid}
    (hnot : ¬ ∃ change ∈ changesBy t, change.satellite.id = satelliteId) (eventId : Uuid) :
    lastNotice (t :: h) eventId satelliteId = lastNotice h eventId satelliteId := by
  rw [lastNotice, revision_cons_of_not hnot, stationsAtLastChange, if_neg hnot]
  rfl

/-- Every worker with an event holds it, and every handler is at work on one. -/
theorem attached_of_run {start : State W} (hrest : AtRest start)
    (hrun : ((recomputation sky settings).startingIn start).Run h s) :
    Events.LocksHeld s.outbox ∧ Attached s := by
  apply hrun.invariant_of_step (I := fun _ s => Events.LocksHeld s.outbox ∧ Attached s)
  · rintro _ rfl
    exact ⟨hrest.locksHeld, fun worker hbusy => absurd (hrest.handlers worker) hbusy⟩
  · rintro h s a s' - ⟨hlocks, hattached⟩ hstep
    exact ⟨locksHeld_of_effect hlocks (step_effect hstep), attached_step hattached hstep⟩

/-- The latest change of every satellite is pursued. -/
theorem pursued_lastNotice {start : State W} (hrest : AtRest start)
    (hrun : ((recomputation sky settings).startingIn start).Run h s) (satelliteId : Uuid)
    (hchanged : 0 < revision h satelliteId) :
    ∃ eventId, Pursued h s (lastNotice h eventId satelliteId) := by
  revert hchanged
  refine hrun.invariant_of_step (I := fun h s => 0 < revision h satelliteId →
    ∃ eventId, Pursued h s (lastNotice h eventId satelliteId)) ?_ ?_
  · exact fun _ _ hchanged => absurd hchanged (Nat.lt_irrefl 0)
  · intro h s a s' hprior ih hstep hchanged
    obtain ⟨hlocks, hattached⟩ := attached_of_run hrest hprior
    have htaken : step sky settings s a = some s' := hstep
    by_cases hchanges : ∃ change ∈ changesBy ⟨s, a, s'⟩, change.satellite.id = satelliteId
    · obtain ⟨change, hmem, rfl⟩ := hchanges
      refine ⟨change.eventId, ?_⟩
      rw [lastNotice, stationsAtLastChange, if_pos ⟨change, hmem, rfl⟩]
      cases a with
      | refresh startedAt maxRetries changes =>
          exact Pursued.of_change hlocks (step_effect htaken) hmem
      | _ => cases hmem
    · rw [revision_cons_of_not hchanges] at hchanged
      obtain ⟨eventId, hpursued⟩ := ih hchanged
      refine ⟨eventId, ?_⟩
      rw [lastNotice_cons_of_not hchanges]
      exact pursued_step hpursued hlocks hattached htaken

/-- So is what has not been settled at the start. -/
theorem pursued_of_start {start : State W} (hrest : AtRest start)
    (hrun : ((recomputation sky settings).startingIn start).Run h s) {event : OutboxEvent}
    (hmem : event ∈ start.outbox.events.rows) (htype : event.eventType = "tle.refreshed".toList)
    {satelliteId : Uuid} (hpayload : payloadSatellite event = some satelliteId)
    (hunsettled : ¬ IsSettled event) :
    Pursued h s ⟨event.id, satelliteId, start.stations.rows, 0⟩ := by
  apply hrun.invariant_of_step
    (I := fun h s => Pursued h s ⟨event.id, satelliteId, start.stations.rows, 0⟩)
  · rintro _ rfl
    exact hrest.pursued hmem htype hpayload hunsettled
  · intro h s a s' hprior hinv hstep
    obtain ⟨hlocks, hattached⟩ := attached_of_run hrest hprior
    exact pursued_step hinv hlocks hattached hstep

omit [DecidableEq W] in
/-- Where the event has been processed, its notice is covered. -/
theorem Pursued.covered (hpursued : Pursued h s notice)
    (hprocessed : ∀ event ∈ s.outbox.events.rows, event.eventType = "tle.refreshed".toList →
      payloadSatellite event = some notice.satelliteId → event.status = .processed) :
    IsCovered h s.predictions.committed notice := by
  obtain ⟨event, hfind, htype, hpayload, hcovered⟩ := hpursued.row
  have hmem := ((Table.find?_eq_some_iff _).mp hfind).1
  exact hcovered (Or.inl (hprocessed event hmem htype hpayload))

end Steps

end Apsis.Tracking
