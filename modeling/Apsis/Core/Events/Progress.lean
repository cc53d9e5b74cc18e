/-
# How soon an event is dispatched

The locking `SELECT` takes the earliest due event, and an attempt leaves its event final or
scheduled later than everything that was due when it ended. So a worker on its own moves one
event after the other out of the way of an event that waits, fifty in each batch, whatever is
published meanwhile: a new event is due no earlier than the transaction that publishes it
began.

That an attempt gets to its commit is a condition. An event whose failure cannot be recorded
is rolled back to where it was, and the worker meets it again as the earliest one.
-/

import Apsis.Core.Events.Overtaking
import Apsis.Library.Progress

namespace Apsis.Core.Events

open Apsis.Library

universe u

variable {W : Type u}

/-! ## What is ahead of an event -/

/-- Another pending event that is scheduled no later. -/
def OutboxEvent.isAhead (event other : OutboxEvent) : Bool :=
  decide (other.id ≠ event.id) && decide (other.status = .pending) &&
    decide (other.scheduledAt ≤ event.scheduledAt)

theorem OutboxEvent.isAhead_iff {event other : OutboxEvent} :
    event.isAhead other = true ↔ other.id ≠ event.id ∧ other.status = .pending ∧
      other.scheduledAt ≤ event.scheduledAt := by
  simp [isAhead, and_assoc]

/-- The transition hands the event to its handlers. -/
def dispatches (id : Uuid) (t : Transition (State W) (Action W)) : Prop :=
  ∃ event, dispatchBy t = some event ∧ event.id = id

variable [DecidableEq W]

/-- No other worker has locked the row. -/
def State.isOpenTo (s : State W) (worker : W) (id : Uuid) : Bool :=
  (s.locks id).all fun holder => decide (holder = worker)

/-- The number of events ahead that the worker can lock. -/
def ahead (worker : W) (event : OutboxEvent) (s : State W) : ℕ :=
  s.events.rows.countP fun other => event.isAhead other && s.isOpenTo worker other.id

/-- The attempt of the phase gets to its commit. -/
def Phase.records (phase : Phase) (attempt : Attempt) : Bool :=
  match phase with
  | .dispatching _ event => (handleEvent event attempt).toOption.isSome
  | _ => true

/-- Only this worker moves, and its attempts get to their commits. What is published comes
from transactions that began after the event was due. -/
def IsAlone (worker : W) (event : OutboxEvent) (t : Transition (State W) (Action W)) : Prop :=
  match t.action with
  | .tick _ => True
  | .publish _ _ now _ _ _ => event.scheduledAt < now
  | .run actor (.attempt attempt) =>
      actor = worker ∧ (t.source.phase worker).records attempt = true
  | .run actor _ => actor = worker
  | _ => False

instance (worker : W) (event : OutboxEvent) (t : Transition (State W) (Action W)) :
    Decidable (IsAlone worker event t) := by
  unfold IsAlone
  split <;> infer_instance

/-- The transition is a step of the worker. -/
def isStepOf (worker : W) (t : Transition (State W) (Action W)) : Bool :=
  match t.action with
  | .run actor _ => decide (actor = worker)
  | _ => false

/-- The transition ends a batch of the worker. -/
def endsBatch (worker : W) (t : Transition (State W) (Action W)) : Bool :=
  isStepOf worker t && decide (t.target.phase worker = .polling)

/-! ## How far the worker has come -/

section Invariant

variable (worker : W) (event : OutboxEvent) (s : State W)

/-- The worker has another event in its hands, one that is ahead. -/
structure Clears (other : OutboxEvent) : Prop where
  isAhead : event.isAhead other = true
  row : s.events.find? other.id = some other
  lock : s.locks other.id = some worker

/-- The event is among the candidates, behind such as are scheduled no later. -/
def IsListed (candidates : List Uuid) : Prop :=
  ∃ before after, candidates = before ++ event.id :: after ∧ ∀ id ∈ before,
    ∃ other, s.events.find? id = some other ∧ other.scheduledAt ≤ event.scheduledAt

/-- What the phase of the worker says about its way to the event. -/
def ComesTo : Phase → Prop
  | .stopped => False
  | .polling => True
  | .starting _ => True
  | .selecting _ now => event.scheduledAt ≤ now
  | .scanning _ now candidates => event.scheduledAt ≤ now ∧ IsListed event s candidates
  | .dispatching _ other => Clears worker event s other
  | .flushed _ other after => Clears worker event s other ∧ after.id = other.id ∧
      event.isAhead after = false

/-- The event waits, and the worker is on its way to it. -/
structure OnTheWay : Prop where
  row : s.events.find? event.id = some event
  due : event.isDue s.clock = true
  free : s.locks event.id = none
  way : ComesTo worker event s (s.phase worker)

/-- The batches that the worker may still end before it comes to the event. -/
def batchesLeft : ℕ :=
  match s.phase worker with
  | .stopped => 0
  | .polling => ahead worker event s / 50
  | .starting rounds => (ahead worker event s + 50 - rounds) / 50
  | .selecting rounds _ => (ahead worker event s + 49 - rounds) / 50
  | .scanning rounds _ _ => (ahead worker event s + 49 - rounds) / 50
  | .dispatching rounds _ => (ahead worker event s + 49 - rounds) / 50
  | .flushed rounds _ _ => (ahead worker event s + 49 - rounds) / 50

/-- The steps that the worker may still take, if no more than `rows` rows are due at a time:
for each event ahead four and one for every candidate, and two for each batch. -/
def stepsLeft (rows : ℕ) : ℕ :=
  2 * batchesLeft worker event s + ahead worker event s * (rows + 4) +
    match s.phase worker with
    | .stopped => 0
    | .polling => rows + 5
    | .starting _ => rows + 4
    | .selecting _ _ => rows + 3
    | .scanning _ _ candidates => candidates.length + 2
    | .dispatching _ _ => 2
    | .flushed _ _ _ => 1

end Invariant

variable {worker : W} {event : OutboxEvent} {s s' : State W}

/-! ## Statements -/

theorem isOpenTo_release (s : State W) (worker : W) (id : Uuid) :
    (s.release worker).isOpenTo worker id = s.isOpenTo worker id := by
  unfold State.isOpenTo State.release
  dsimp only
  by_cases hown : s.locks id = some worker
  · simp [hown]
  · simp [hown]

theorem isOpenTo_lock (s : State W) (worker : W) {id : Uuid} (hfree : s.locks id = none)
    (other : Uuid) : (s.lock worker id).isOpenTo worker other = s.isOpenTo worker other := by
  unfold State.isOpenTo
  by_cases hid : other = id
  · subst hid
    rw [State.lock_locks_self, hfree]
    simp
  · rw [State.lock_locks_of_ne s worker id hid]

@[simp]
theorem ahead_enter (s : State W) (worker : W) (event : OutboxEvent) (phase : Phase) :
    ahead worker event (s.enter worker phase) = ahead worker event s := rfl

theorem ahead_lock {id : Uuid} (hfree : s.locks id = none) :
    ahead worker event (s.lock worker id) = ahead worker event s := by
  unfold ahead
  simp only [isOpenTo_lock s worker hfree, State.lock_events]

/-- A published event is not ahead. -/
theorem ahead_publish {events : EventTable} {new : OutboxEvent}
    (hinsert : s.events.insert? new = some events)
    (hlater : event.scheduledAt < new.scheduledAt) :
    ahead worker event { s with events := events } = ahead worker event s := by
  have hnot : event.isAhead new = false := by
    simp [OutboxEvent.isAhead, not_le.mpr hlater]
  unfold ahead
  rw [(Table.insert?_eq_some hinsert).2, List.countP_append, List.countP_singleton]
  simp [hnot, State.isOpenTo]

/-- The commit of an attempt leaves one event less ahead. -/
theorem ahead_commit {other after : OutboxEvent} (hclears : Clears worker event s other)
    (hid : after.id = other.id) (hlater : event.isAhead after = false) :
    ahead worker event (({ s with events := commitEvent after s.events } : State W).release
      worker) + 1 = ahead worker event s := by
  have hopen : ∀ id, (({ s with events := commitEvent after s.events } : State W).release
      worker).isOpenTo worker id = s.isOpenTo worker id := fun id => isOpenTo_release _ worker id
  have hbefore : (event.isAhead other && s.isOpenTo worker other.id) = true := by
    simp [hclears.isAhead, State.isOpenTo, hclears.lock]
  have hafter : (event.isAhead { after with id := other.id } &&
      s.isOpenTo worker other.id) = false := by
    rw [← hid, hlater, Bool.false_and]
  unfold ahead
  simp only [hopen]
  have hrow := hclears.row
  rw [← hid] at hrow
  exact s.events.countP_update_key (f := fun row => { after with id := row.id }) (fun _ => rfl)
    (q := fun other => event.isAhead other && s.isOpenTo worker other.id) hrow hbefore hafter

/-- The row that an attempt leaves is not ahead of an event that was due when it ended. -/
theorem isAhead_of_handled {other after : OutboxEvent} {attempt : Attempt} {now : Time}
    (hhandle : handleEvent other attempt = .ok after) (hended : attempt.endedAt = now)
    (hdue : event.isDue now = true) : event.isAhead after = false := by
  rw [← Bool.not_eq_true, OutboxEvent.isAhead_iff]
  rintro ⟨-, hpending, hle⟩
  have hscheduled := (OutboxEvent.isDue_iff.mp hdue).2
  cases handleEvent_eq_ok.mp hhandle with
  | processed _ _ => cases hpending
  | failed _ _ _ => cases hpending
  | retry delay _ _ hdelay _ =>
      have hpos := backoff_pos hdelay
      dsimp only at hle
      lia

omit [DecidableEq W] in
/-- In the order of a `SELECT`, what comes before the event is scheduled no later. -/
theorem isListed_of_isDueOrder {now : Time} {rows : List OutboxEvent}
    (horder : IsDueOrder now s.events rows) (hrow : s.events.find? event.id = some event)
    (hdue : event.isDue now = true) : IsListed event s (rows.map OutboxEvent.id) := by
  have hmem : event ∈ rows := by
    rw [horder.1.mem_iff, List.mem_filter]
    exact ⟨(s.events.find?_eq_some_iff.mp hrow).1, hdue⟩
  obtain ⟨before, after, rfl⟩ := List.append_of_mem hmem
  refine ⟨before.map OutboxEvent.id, after.map OutboxEvent.id, by simp, fun id hid => ?_⟩
  obtain ⟨other, hother, rfl⟩ := List.mem_map.mp hid
  have hall := horder.1.mem_iff.mp (List.mem_append_left _ hother)
  have hle := (List.pairwise_append.mp horder.2).2.2 other hother event List.mem_cons_self
  exact ⟨other, Table.find?_key (List.mem_filter.mp hall).1, hle⟩

theorem length_of_isDueOrder {now : Time} {events : EventTable} {rows : List OutboxEvent}
    (horder : IsDueOrder now events rows) : rows.length ≤ events.rows.length := by
  rw [horder.1.length_eq]
  exact List.length_filter_le _ _

omit [DecidableEq W] in
/-- What is listed stays listed when the table goes on to have the rows that it has. -/
theorem IsListed.congr {candidates : List Uuid} (hlisted : IsListed event s candidates)
    (hrows : ∀ id other, s.events.find? id = some other → s'.events.find? id = some other) :
    IsListed event s' candidates := by
  obtain ⟨before, after, rfl, hbefore⟩ := hlisted
  refine ⟨before, after, rfl, fun id hid => ?_⟩
  obtain ⟨other, hother, hle⟩ := hbefore id hid
  exact ⟨other, hrows id other hother, hle⟩

omit [DecidableEq W] in
theorem Clears.congr {other : OutboxEvent} (hclears : Clears worker event s other)
    (hlocks : s'.locks = s.locks)
    (hrows : ∀ id other, s.events.find? id = some other → s'.events.find? id = some other) :
    Clears worker event s' other where
  isAhead := hclears.isAhead
  row := hrows other.id other hclears.row
  lock := by
    rw [hlocks]
    exact hclears.lock

omit [DecidableEq W] in
theorem ComesTo.congr {phase : Phase} (hcomes : ComesTo worker event s phase)
    (hlocks : s'.locks = s.locks)
    (hrows : ∀ id other, s.events.find? id = some other → s'.events.find? id = some other) :
    ComesTo worker event s' phase := by
  cases phase with
  | stopped => exact hcomes
  | polling => trivial
  | starting rounds => trivial
  | selecting rounds now => exact hcomes
  | scanning rounds now candidates => exact ⟨hcomes.1, hcomes.2.congr hrows⟩
  | dispatching rounds other => exact Clears.congr hcomes hlocks hrows
  | flushed rounds other after => exact ⟨hcomes.1.congr hlocks hrows, hcomes.2⟩

/-! ## Steps -/

omit [DecidableEq W] in
/-- Time passes, or another event is published. -/
theorem OnTheWay.of_outside (hway : OnTheWay worker event s) (hphase : s'.phase = s.phase)
    (hlocks : s'.locks = s.locks) (hclock : s.clock ≤ s'.clock)
    (hrows : ∀ id other, s.events.find? id = some other → s'.events.find? id = some other) :
    OnTheWay worker event s' where
  row := hrows event.id event hway.row
  due := by
    obtain ⟨hpending, hle⟩ := OutboxEvent.isDue_iff.mp hway.due
    exact OutboxEvent.isDue_iff.mpr ⟨hpending, hle.trans hclock⟩
  free := by
    rw [hlocks]
    exact hway.free
  way := by
    rw [hphase]
    exact hway.way.congr hlocks hrows

/-- The worker goes on to a phase from which it still comes to the event. -/
theorem OnTheWay.enter (hway : OnTheWay worker event s) {phase : Phase}
    (hcomes : ComesTo worker event s phase) : OnTheWay worker event (s.enter worker phase) where
  row := hway.row
  due := hway.due
  free := hway.free
  way := by
    rw [State.enter_phase_self]
    exact hcomes.congr rfl fun _ _ hfind => hfind

/-- The worker locks an event that is ahead. -/
theorem OnTheWay.lock (hway : OnTheWay worker event s) {other : OutboxEvent} {rounds : ℕ}
    (hahead : event.isAhead other = true) (hrow : s.events.find? other.id = some other) :
    OnTheWay worker event ((s.lock worker other.id).enter worker (.dispatching rounds other)) where
  row := hway.row
  due := hway.due
  free := by
    have hne := (OutboxEvent.isAhead_iff.mp hahead).1
    rw [State.enter_locks, State.lock_locks_of_ne s worker other.id hne.symm]
    exact hway.free
  way := by
    rw [State.enter_phase_self]
    exact ⟨hahead, hrow, State.lock_locks_self s worker other.id⟩

/-- The worker commits an attempt of an event that was ahead. -/
theorem OnTheWay.commit (hway : OnTheWay worker event s) {other after : OutboxEvent} {rounds : ℕ}
    (hphase : s.phase worker = .flushed rounds other after) :
    OnTheWay worker event ((({ s with events := commitEvent after s.events } : State W).release
      worker).enter worker (.starting rounds)) where
  row := by
    have hcomes := hway.way
    rw [hphase] at hcomes
    obtain ⟨hclears, hid, -⟩ := hcomes
    have hne := (OutboxEvent.isAhead_iff.mp hclears.isAhead).1
    show (commitEvent after s.events).find? event.id = some event
    rw [find?_commitEvent, if_neg (by rw [hid]; exact hne.symm), hway.row]
  due := hway.due
  free := release_locks_eq_none hway.free
  way := by
    rw [State.enter_phase_self]
    trivial

/-! ## What a step brings -/

/-- The worker is still on its way after the transition, and has paid for it. -/
structure Advances (worker : W) (event : OutboxEvent) (rows : ℕ)
    (t : Transition (State W) (Action W)) : Prop where
  way : OnTheWay worker event t.target
  steps : stepsLeft worker event t.target rows + (if isStepOf worker t then 1 else 0) ≤
    stepsLeft worker event t.source rows
  batches : batchesLeft worker event t.target + (if endsBatch worker t then 1 else 0) ≤
    batchesLeft worker event t.source
  commits : ahead worker event t.target + (if (commitBy t).isSome then 1 else 0) ≤
    ahead worker event t.source

/-- The worker goes on without a commit, in the same batch. -/
theorem Advances.of_enter {choice : Choice} {phase : Phase} {rows : ℕ}
    (hway : OnTheWay worker event s) (hcomes : ComesTo worker event s phase)
    (hcommit : (s.phase worker).commit? = none) (hpolling : phase ≠ .polling)
    (hbatches : batchesLeft worker event (s.enter worker phase) ≤ batchesLeft worker event s)
    (hsteps : stepsLeft worker event (s.enter worker phase) rows + 1 ≤
      stepsLeft worker event s rows) :
    Advances worker event rows ⟨s, .run worker choice, s.enter worker phase⟩ where
  way := hway.enter hcomes
  steps := by simpa [isStepOf] using hsteps
  batches := by simpa [endsBatch, hpolling] using hbatches
  commits := by simp [commitBy, State.commit?, hcommit]

/-- The step lemma for the worker. -/
theorem advances_of_runStep {phase : Phase} {choice : Choice} {rows : ℕ}
    (hway : OnTheWay worker event s) (hphase : s.phase worker = phase)
    (hstep : runStep s worker phase choice = some s')
    (hrecords : ∀ attempt, choice = .attempt attempt → phase.records attempt = true)
    (hrows : s.events.rows.length ≤ rows) :
    dispatches event.id ⟨s, .run worker choice, s'⟩ ∨
      Advances worker event rows ⟨s, .run worker choice, s'⟩ := by
  have hcomes := hway.way
  rw [hphase] at hcomes
  unfold runStep at hstep
  split at hstep
  case h_1 =>
      cases hstep
      refine Or.inr (.of_enter hway trivial (by rw [hphase]; rfl) Phase.noConfusion ?_ ?_)
      · simp [batchesLeft, hphase, batchSize]
      · simp only [stepsLeft, batchesLeft, hphase, batchSize, State.enter_phase_self, ahead_enter]
        lia
  case h_2 =>
      cases hstep
      refine Or.inr ⟨hway.enter trivial, ?_, ?_, ?_⟩
      · simp only [isStepOf, stepsLeft, batchesLeft, hphase, State.enter_phase_self, ahead_enter,
          decide_true, if_true]
        lia
      · simp [endsBatch, isStepOf, batchesLeft, hphase]
      · simp [commitBy, State.commit?, hphase, Phase.commit?]
  case h_3 rounds =>
      cases hstep
      have hdue := (OutboxEvent.isDue_iff.mp hway.due).2
      refine Or.inr (.of_enter hway hdue (by rw [hphase]; rfl) Phase.noConfusion ?_ ?_)
      · simp [batchesLeft, hphase]
      · simp only [stepsLeft, batchesLeft, hphase, State.enter_phase_self, ahead_enter]
        lia
  case h_4 rounds now order =>
      split at hstep <;> cases hstep
      next horder =>
      have hpending := (OutboxEvent.isDue_iff.mp hway.due).1
      have hlisted := isListed_of_isDueOrder horder hway.row
        (OutboxEvent.isDue_iff.mpr ⟨hpending, hcomes⟩)
      have hlength := (length_of_isDueOrder horder).trans hrows
      refine Or.inr (.of_enter hway ⟨hcomes, hlisted⟩ (by rw [hphase]; rfl)
        Phase.noConfusion ?_ ?_)
      · simp [batchesLeft, hphase]
      · simp only [stepsLeft, batchesLeft, hphase, State.enter_phase_self, ahead_enter,
          List.length_map]
        lia
  case h_5 =>
      -- The event is among the candidates, so there are some.
      obtain ⟨-, before, after, hempty, -⟩ := hcomes
      cases before <;> cases hempty
  case h_6 rounds now id candidates =>
      obtain ⟨hdue, before, after, hcandidates, hbefore⟩ := hcomes
      have hpending := (OutboxEvent.isDue_iff.mp hway.due).1
      by_cases hid : id = event.id
      · left
        have hlock : s.lockable now id = some event := by
          rw [hid]
          exact State.lockable_eq_some.mpr ⟨hway.free, hway.row, hpending, hdue⟩
        rw [hlock] at hstep
        cases hstep
        refine ⟨event, ?_, rfl⟩
        simp [dispatchBy, hphase, Phase.event?]
      · right
        cases before with
        | nil =>
            cases hcandidates
            exact absurd rfl hid
        | cons first before =>
            cases hcandidates
            split at hstep
            · cases hstep
              refine .of_enter hway ⟨hdue, before, after, rfl, fun other hother =>
                hbefore other (List.mem_cons_of_mem _ hother)⟩ (by rw [hphase]; rfl)
                Phase.noConfusion ?_ ?_
              · simp [batchesLeft, hphase]
              · simp only [stepsLeft, batchesLeft, hphase, State.enter_phase_self, ahead_enter,
                  List.length_cons]
                lia
            · next other hlock =>
                cases hstep
                obtain ⟨hfree, hrow, hstatus, -⟩ := State.lockable_eq_some.mp hlock
                obtain ⟨other', hother', hle⟩ := hbefore _ List.mem_cons_self
                rw [hrow] at hother'
                cases hother'
                cases Table.key_of_find? hrow
                have hahead := OutboxEvent.isAhead_iff.mpr ⟨hid, hstatus, hle⟩
                refine ⟨hway.lock hahead hrow, ?_, ?_, ?_⟩
                · simp only [isStepOf, stepsLeft, batchesLeft, hphase, State.enter_phase_self,
                    ahead_enter, ahead_lock hfree, List.length_cons, decide_true, if_true]
                  lia
                · simp [endsBatch, batchesLeft, hphase, ahead_lock hfree]
                · simp [commitBy, State.commit?, hphase, Phase.commit?, ahead_lock hfree]
  case h_7 rounds other attempt =>
      split at hstep
      · next htimes =>
          split at hstep
          · next after hhandle =>
              cases hstep
              have hlater := isAhead_of_handled hhandle htimes.2 hway.due
              have hid := (handleEvent_eq_ok.mp hhandle).id_eq
              refine Or.inr (.of_enter hway ⟨hcomes, hid, hlater⟩ (by rw [hphase]; rfl)
                Phase.noConfusion ?_ ?_)
              · simp [batchesLeft, hphase]
              · simp [stepsLeft, batchesLeft, hphase]
          · next error hhandle =>
              have hok := hrecords attempt rfl
              simp [Phase.records, hhandle, Except.toOption] at hok
      · cases hstep
  case h_8 rounds other after =>
      cases hstep
      obtain ⟨hclears, hid, hlater⟩ := hcomes
      have hless := ahead_commit hclears hid hlater
      refine Or.inr ⟨hway.commit hphase, ?_, ?_, ?_⟩
      · simp [isStepOf, stepsLeft, batchesLeft, hphase, ← hless, Nat.add_mul]
        lia
      · simp [endsBatch, batchesLeft, hphase, ← hless]
      · simp [commitBy, State.commit?, hphase, Phase.commit?, ← hless]
  case h_9 => cases hstep

/-- A step that is not the worker's own, and that leaves what is there. -/
theorem Advances.of_outside {a : Action W} {rows : ℕ} (hway : OnTheWay worker event s')
    (hphase : s'.phase = s.phase) (hahead : ahead worker event s' = ahead worker event s)
    (hrun : ∀ actor choice, a ≠ .run actor choice) : Advances worker event rows ⟨s, a, s'⟩ := by
  have hstep : isStepOf worker ⟨s, a, s'⟩ = false := by
    cases a with
    | run actor choice => exact absurd rfl (hrun actor choice)
    | _ => rfl
  have hcommit : commitBy ⟨s, a, s'⟩ = none := by
    cases a with
    | run actor choice => exact absurd rfl (hrun actor choice)
    | _ => rfl
  have hbatches : batchesLeft worker event s' = batchesLeft worker event s := by
    rw [batchesLeft, batchesLeft, hphase, hahead]
  constructor
  · exact hway
  · simp [hstep, stepsLeft, hbatches, hphase, hahead]
  · simp [endsBatch, hstep, hbatches]
  · simp [hcommit, hahead]

/-- The step lemma: the event is dispatched, or the worker has come closer. -/
theorem advances_of_step {a : Action W} {rows : ℕ} (hway : OnTheWay worker event s)
    (hstep : step s a = some s') (halone : IsAlone worker event ⟨s, a, s'⟩)
    (hrows : s.events.rows.length ≤ rows) :
    dispatches event.id ⟨s, a, s'⟩ ∨ Advances worker event rows ⟨s, a, s'⟩ := by
  cases a with
  | tick elapsed =>
      cases hstep
      refine Or.inr (.of_outside (hway.of_outside rfl rfl ?_ fun _ _ hfind => hfind) rfl rfl
        (by rintro _ _ ⟨⟩))
      exact le_add_of_nonneg_right (Int.natCast_nonneg elapsed)
  | publish id maxRetries now eventType payload aggregateId =>
      simp only [step, Option.ite_none_right_eq_some, Option.map_eq_some_iff] at hstep
      obtain ⟨-, events, hinsert, rfl⟩ := hstep
      refine Or.inr (.of_outside (hway.of_outside rfl rfl le_rfl ?_) rfl
        (ahead_publish hinsert halone) (by rintro _ _ ⟨⟩))
      intro other row hrow
      show events.find? other = some row
      rw [Table.find?_of_insert? hinsert, if_neg, hrow]
      rintro rfl
      rw [(Table.insert?_eq_some hinsert).1] at hrow
      cases hrow
  | start _ | crash _ | abort _ => exact halone.elim
  | run actor choice =>
      have hactor : actor = worker ∧ ∀ attempt, choice = .attempt attempt →
          (s.phase worker).records attempt = true := by
        cases choice with
        | attempt attempt =>
            refine ⟨halone.1, ?_⟩
            rintro _ ⟨⟩
            exact halone.2
        | _ => exact ⟨halone, by rintro _ ⟨⟩⟩
      obtain ⟨rfl, hrecords⟩ := hactor
      exact advances_of_runStep hway rfl hstep hrecords hrows

/-! ## No event is stranded -/

omit [DecidableEq W] in
theorem exists_isDueOrder (now : Time) (events : EventTable) :
    ∃ rows, IsDueOrder now events rows := by
  let earlier (first second : OutboxEvent) : Bool :=
    decide (first.scheduledAt ≤ second.scheduledAt)
  have htrans : ∀ a b c, earlier a b = true → earlier b c = true → earlier a c = true :=
    fun a b c hab hbc => decide_eq_true ((of_decide_eq_true hab).trans (of_decide_eq_true hbc))
  have htotal : ∀ a b, (earlier a b || earlier b a) = true :=
    fun a b => by simpa [earlier] using le_total a.scheduledAt b.scheduledAt
  have hsorted := List.pairwise_mergeSort htrans htotal
    (events.rows.filter (OutboxEvent.isDue now))
  exact ⟨(events.rows.filter (OutboxEvent.isDue now)).mergeSort earlier,
    List.mergeSort_perm _ _, hsorted.imp fun hle => of_decide_eq_true hle⟩

/-- A worker that has been started can take its next step. -/
theorem exists_runStep (s : State W) {worker : W} (hlive : s.phase worker ≠ .stopped) :
    ∃ choice s', runStep s worker (s.phase worker) choice = some s' := by
  generalize s.phase worker = phase at hlive
  cases phase with
  | stopped => exact absurd rfl hlive
  | polling => exact ⟨.proceed, _, rfl⟩
  | starting rounds => cases rounds <;> exact ⟨.proceed, _, rfl⟩
  | selecting rounds now =>
      obtain ⟨rows, horder⟩ := exists_isDueOrder now s.events
      exact ⟨.order rows, _, if_pos horder⟩
  | scanning rounds now candidates =>
      cases candidates with
      | nil => exact ⟨.proceed, _, rfl⟩
      | cons id candidates =>
          refine ⟨.proceed, ?_⟩
          simp only [runStep]
          split <;> exact ⟨_, rfl⟩
  | dispatching rounds event =>
      refine ⟨.attempt ⟨[], s.clock, s.clock, 0, noJitter_le⟩, ?_⟩
      simp only [runStep, le_refl, and_self, if_true]
      split <;> exact ⟨_, rfl⟩
  | flushed rounds before after => exact ⟨.proceed, _, rfl⟩

/-- A step does not stop its worker. -/
theorem ne_stopped_of_runStep {phase : Phase} {choice : Choice}
    (hstep : runStep s worker phase choice = some s') : s'.phase worker ≠ .stopped := by
  unfold runStep at hstep
  split at hstep
  case h_4 =>
      split at hstep <;> cases hstep
      simp
  case h_6 =>
      split at hstep <;> cases hstep <;> simp
  case h_7 =>
      split at hstep
      · split at hstep <;> cases hstep <;> simp
      · cases hstep
  case h_9 => cases hstep
  all_goals
    cases hstep
    simp

/-- A worker on its own is not stopped. -/
theorem ne_stopped_of_step {a : Action W} (hlive : s.phase worker ≠ .stopped)
    (hstep : step s a = some s') (halone : IsAlone worker event ⟨s, a, s'⟩) :
    s'.phase worker ≠ .stopped := by
  cases a with
  | tick elapsed =>
      cases hstep
      exact hlive
  | publish id maxRetries now eventType payload aggregateId =>
      simp only [step, Option.ite_none_right_eq_some, Option.map_eq_some_iff] at hstep
      obtain ⟨-, events, -, rfl⟩ := hstep
      exact hlive
  | start _ | crash _ | abort _ => exact halone.elim
  | run actor choice =>
      have hactor : actor = worker := by
        cases choice with
        | attempt attempt => exact halone.1
        | _ => exact halone
      subst hactor
      exact ne_stopped_of_runStep hstep

/-- Rows are not deleted. -/
theorem length_le_of_step {a : Action W} (hstep : step s a = some s') :
    s.events.rows.length ≤ s'.events.rows.length := by
  cases step_effect hstep with
  | publish hnow hinsert =>
      show _ ≤ List.length (Table.rows _)
      rw [(Table.insert?_eq_some hinsert).2, List.length_append]
      exact Nat.le_add_right _ _
  | commit hphase => simp [commitEvent, Table.update]
  | _ => exact le_rfl

theorem length_le_of_run {late : History (State W) (Action W)}
    (hrun : ((outbox (W := W)).startingIn s).Run late s') (t : Transition (State W) (Action W))
    (ht : t ∈ late) : t.source.events.rows.length ≤ s'.events.rows.length := by
  induction hrun with
  | start => cases ht
  | extend _ hstep ih =>
      have hle := length_le_of_step hstep
      rcases List.mem_cons.mp ht with rfl | hearlier
      · exact hle
      · exact (ih hearlier).trans hle

theorem ne_stopped_of_run {late : History (State W) (Action W)}
    (hlive : s.phase worker ≠ .stopped) (hrun : ((outbox (W := W)).startingIn s).Run late s')
    (halone : ∀ t ∈ late, IsAlone worker event t) : s'.phase worker ≠ .stopped := by
  induction hrun with
  | start hinit =>
      cases hinit
      exact hlive
  | extend _ hstep ih =>
      have hbefore := ih fun t ht => halone t (List.mem_cons_of_mem _ ht)
      exact ne_stopped_of_step hbefore hstep (halone _ List.mem_cons_self)

/-- **No event is stranded.** A worker that is on its own between two batches dispatches an
event that is due and not locked, before it has ended the batches, or taken the steps, or
committed the attempts that the events ahead of it need. It can always take its next step. -/
theorem dispatched_by_worker_alone (hphase : s.phase worker = .polling)
    (hrow : s.events.find? event.id = some event) (hdue : event.isDue s.clock = true)
    (hfree : s.locks event.id = none) {late : History (State W) (Action W)}
    (hrun : ((outbox (W := W)).startingIn s).Run late s')
    (halone : ∀ t ∈ late, IsAlone worker event t) :
    (ahead worker event s / batchSize < late.countP (endsBatch worker) ∨
        ahead worker event s < late.countP (fun t => (commitBy t).isSome) ∨
        2 * (ahead worker event s / batchSize) +
            (ahead worker event s + 1) * (s'.events.rows.length + 4) + 1 <
          late.countP (isStepOf worker) →
      ∃ t ∈ late, dispatches event.id t) ∧
    ∃ choice after, step s' (.run worker choice) = some after := by
  have hway : OnTheWay worker event s := ⟨hrow, hdue, hfree, by rw [hphase]; trivial⟩
  have hlength := length_le_of_run hrun
  let ok (t : Transition (State W) (Action W)) : Prop :=
    IsAlone worker event t ∧ t.source.events.rows.length ≤ s'.events.rows.length
  have hok : ∀ t ∈ late, ok t := fun t ht => ⟨halone t ht, hlength t ht⟩
  have hadvances := fun (before : State W) a after (hway : OnTheWay worker event before)
    (hstep : step before a = some after) (hok : ok ⟨before, a, after⟩) =>
    advances_of_step hway hstep hok.1 hok.2
  have hbatches : (outbox (W := W)).Approaches (dispatches event.id) ok (endsBatch worker)
      (OnTheWay worker event) (batchesLeft worker event) := fun before a after hway hstep hok =>
    (hadvances before a after hway hstep hok).imp_right fun h => ⟨h.way, h.batches⟩
  have hcommits : (outbox (W := W)).Approaches (dispatches event.id) ok
      (fun t => (commitBy t).isSome) (OnTheWay worker event) (ahead worker event) :=
    fun before a after hway hstep hok =>
      (hadvances before a after hway hstep hok).imp_right fun h => ⟨h.way, h.commits⟩
  have hsteps : (outbox (W := W)).Approaches (dispatches event.id) ok (isStepOf worker)
      (OnTheWay worker event) (stepsLeft worker event · s'.events.rows.length) :=
    fun before a after hway hstep hok =>
      (hadvances before a after hway hstep hok).imp_right fun h => ⟨h.way, h.steps⟩
  constructor
  · rintro (hmany | hmany | hmany)
    · refine hbatches.exists_goal hway hrun hok ?_
      simpa [batchesLeft, hphase, batchSize] using hmany
    · exact hcommits.exists_goal hway hrun hok hmany
    · refine hsteps.exists_goal hway hrun hok ?_
      simp only [stepsLeft, batchesLeft, hphase]
      simp only [batchSize] at hmany
      lia
  · exact exists_runStep s' (ne_stopped_of_run (by simp [hphase]) hrun halone)

/-- Worker 0 is between two batches, and two events are due. -/
def twoDue : State (Fin 2) where
  clock := 1000000
  events := ⟨[publish 3 8 0 "tle.refreshed".toList [] none,
    publish 4 8 1000000 "tle.refreshed".toList [] none], by decide⟩
  locks _ := none
  phase worker := if worker = 0 then .polling else .stopped

/-- Worker 0 commits a failed attempt of the earlier event and takes the other one. -/
def twoDueActions : List (Action (Fin 2)) :=
  let earlier := publish 3 8 0 "tle.refreshed".toList [] none
  let later := publish 4 8 1000000 "tle.refreshed".toList [] none
  [.run 0 .proceed, .run 0 .proceed, .run 0 (.order [earlier, later]), .run 0 .proceed,
    .run 0 (.attempt (raisingAttemptAt 1000000)), .run 0 .proceed, .run 0 .proceed,
    .run 0 (.order [later]), .run 0 .proceed, .run 0 (.attempt (raisingAttemptAt 1000000)),
    .run 0 .proceed]

/-- Two attempts are committed and one event was ahead, so the later one was dispatched. -/
theorem later_event_dispatched :
    ∃ late s, ((outbox (W := Fin 2)).startingIn twoDue).Run late s ∧
      ∃ t ∈ late, dispatches 4 t := by
  let later := publish 4 8 1000000 "tle.refreshed".toList [] none
  obtain ⟨late, s, hrun, hP⟩ := System.exists_run_of_play (M := outbox.startingIn twoDue) rfl
    twoDueActions (fun p => decide ((∀ t ∈ p.1, IsAlone 0 later t) ∧
      ahead 0 later twoDue < p.1.countP fun t => (commitBy t).isSome)) (by decide +kernel)
  obtain ⟨halone, hcommits⟩ := of_decide_eq_true hP
  have hrow : twoDue.events.find? later.id = some later := by decide
  exact ⟨late, s, hrun, (dispatched_by_worker_alone rfl hrow (by decide) rfl hrun halone).1
    (Or.inr (Or.inl hcommits))⟩

end Apsis.Core.Events
