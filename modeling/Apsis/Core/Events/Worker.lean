/-
# Any number of `OutboxWorker`s on one table

Every worker runs `_process_batch`: up to fifty times it opens a transaction,
locks one due event with `SELECT .. FOR UPDATE SKIP LOCKED`, handles it, and
commits. The table holds the committed rows; what an open transaction has
written is in the phase of its worker until the commit.

The locking `SELECT` is taken apart. A snapshot fixes the candidates and their
order. Then one candidate after the other is tried: it is skipped while another
transaction holds its lock, and otherwise the condition is checked again on the
row as it is now, since the row may have changed after the snapshot. A worker
that crashes, is cancelled or meets an exception loses its transaction and with
it the lock.
-/

import Apsis.Core.Events.Attempt
import Apsis.Library.System
import Apsis.Library.Table

namespace Apsis.Core.Events

open Apsis.Library

universe u

/-- `BATCH_SIZE` -/
def batchSize : ℕ := 50

/-- The table, with its primary key. -/
abbrev EventTable := Table OutboxEvent.id

theorem noEvents_nodup : (([] : List OutboxEvent).map OutboxEvent.id).Nodup := List.nodup_nil

/-! ## Statements -/

/-- The `WHERE` of the locking `SELECT`. -/
def OutboxEvent.isDue (now : Time) (event : OutboxEvent) : Bool :=
  decide (event.status = .pending) && decide (event.scheduledAt ≤ now)

theorem OutboxEvent.isDue_iff {now : Time} {event : OutboxEvent} :
    event.isDue now = true ↔ event.status = .pending ∧ event.scheduledAt ≤ now := by
  simp [isDue]

/-- The candidates that the `SELECT` may meet, in order. `ORDER BY scheduled_at`
leaves the order of equal rows open. -/
def IsDueOrder (now : Time) (events : EventTable) (order : List OutboxEvent) : Prop :=
  order.Perm (events.rows.filter (OutboxEvent.isDue now)) ∧
    order.Pairwise fun first second => first.scheduledAt ≤ second.scheduledAt

instance (now : Time) (events : EventTable) (order : List OutboxEvent) :
    Decidable (IsDueOrder now events order) :=
  inferInstanceAs (Decidable (_ ∧ _))

/-- The flushed row becomes the committed one. -/
def commitEvent (after : OutboxEvent) (events : EventTable) : EventTable :=
  events.update (fun event => decide (event.id = after.id))
    (fun event => { after with id := event.id }) fun _ => rfl

theorem find?_commitEvent (after : OutboxEvent) (events : EventTable) (id : Uuid) :
    (commitEvent after events).find? id =
      if id = after.id then (events.find? id).map fun _ => after else events.find? id := by
  rw [commitEvent, Table.find?_update]
  cases hfind : events.find? id with
  | none => simp
  | some event =>
      have hid : event.id = id := Table.key_of_find? hfind
      by_cases hafter : id = after.id
      · simp [hid, hafter]
      · simp [hid, hafter]

/-! ## The system -/

/-- The place of a worker in `_process_batch`. `rounds` is what is left of the
loop over the batch. -/
inductive Phase
  | /-- Not started, crashed or cancelled. -/
    stopped
  | /-- In the loop of `_run`, between two batches. -/
    polling
  | /-- At the top of the loop over the batch. -/
    starting (rounds : ℕ)
  | /-- The `SELECT` is built from `now` and not yet executed. -/
    selecting (rounds : ℕ) (now : Time)
  | /-- The `SELECT` is being executed; these candidates are still to be tried. -/
    scanning (rounds : ℕ) (now : Time) (candidates : List Uuid)
  | /-- The row is locked and handed to its handlers. -/
    dispatching (rounds : ℕ) (event : OutboxEvent)
  | /-- `_handle_event` has returned; the transaction is still open. -/
    flushed (rounds : ℕ) (before after : OutboxEvent)
  deriving DecidableEq

/-- The row that the transaction of a worker has locked, as it was then. -/
def Phase.event? : Phase → Option OutboxEvent
  | .dispatching _ event => some event
  | .flushed _ before _ => some before
  | _ => none

/-- The attempt that is about to be committed: the row before and after it. -/
def Phase.commit? : Phase → Option (OutboxEvent × OutboxEvent)
  | .flushed _ before after => some (before, after)
  | _ => none

/-- The reading that a `SELECT` is built from. -/
def Phase.reading? : Phase → Option Time
  | .selecting _ now => some now
  | .scanning _ now _ => some now
  | _ => none

/-- What is not the worker's own doing in its next step. -/
inductive Choice
  | /-- The step leaves nothing open. -/
    proceed
  | /-- The order in which the database meets the due rows. -/
    order (rows : List OutboxEvent)
  | /-- What the attempt meets. -/
    attempt (attempt : Attempt)

/-- The shared state. -/
structure State (W : Type u) where
  clock : Time
  events : EventTable
  locks : Uuid → Option W
  phase : W → Phase

/-- The actions of the system. -/
inductive Action (W : Type u)
  | /-- Time passes. -/
    tick (elapsed : ℕ)
  | /-- A transaction that published this event commits. -/
    publish (id : Uuid) (maxRetries : ℤ) (now : Time) (eventType : Text)
      (payload : List (Text × PayloadValue)) (aggregateId : Option Uuid)
  | /-- `start` -/
    start (worker : W)
  | /-- A crash, or a cancellation by `stop`. -/
    crash (worker : W)
  | /-- An exception reaches the loop of `_run`. -/
    abort (worker : W)
  | /-- The worker takes its next step. -/
    run (worker : W) (choice : Choice)

variable {W : Type u}

/-- The worker locks a row. -/
def State.lock (s : State W) (worker : W) (id : Uuid) : State W :=
  { s with locks := Function.update s.locks id (some worker) }

/-- The row as it is now, if it can be locked and still meets the condition. -/
def State.lockable (s : State W) (now : Time) (id : Uuid) : Option OutboxEvent :=
  if s.locks id = none then (s.events.find? id).filter (OutboxEvent.isDue now) else none

theorem State.lockable_eq_some {s : State W} {now : Time} {id : Uuid} {event : OutboxEvent} :
    s.lockable now id = some event ↔ s.locks id = none ∧ s.events.find? id = some event ∧
      event.status = .pending ∧ event.scheduledAt ≤ now := by
  unfold lockable
  split
  · next hfree =>
      rw [Option.filter_eq_some_iff, OutboxEvent.isDue_iff]
      exact ⟨fun h => ⟨hfree, h⟩, And.right⟩
  · next hfree => simp [hfree]

/-- The attempt that an action commits: the row before and after it. -/
def State.commit? (s : State W) : Action W → Option (OutboxEvent × OutboxEvent)
  | .run worker _ => (s.phase worker).commit?
  | _ => none

section Lock

variable (s : State W) (worker : W) (id : Uuid)

@[simp] theorem State.lock_clock : (s.lock worker id).clock = s.clock := rfl
@[simp] theorem State.lock_events : (s.lock worker id).events = s.events := rfl
@[simp] theorem State.lock_phase : (s.lock worker id).phase = s.phase := rfl

@[simp]
theorem State.lock_locks_self : (s.lock worker id).locks id = some worker := by
  simp [lock]

@[simp]
theorem State.lock_locks_of_ne {other : Uuid} (hne : other ≠ id) :
    (s.lock worker id).locks other = s.locks other := by
  simp [lock, hne]

end Lock

variable [DecidableEq W]

/-- The worker goes on to another phase. -/
def State.enter (s : State W) (worker : W) (phase : Phase) : State W :=
  { s with phase := Function.update s.phase worker phase }

/-- The end of the worker's transaction releases its locks. -/
def State.release (s : State W) (worker : W) : State W :=
  { s with locks := fun id => if s.locks id = some worker then none else s.locks id }

/-- The next step of a worker. -/
def runStep (s : State W) (worker : W) : Phase → Choice → Option (State W)
  | .polling, .proceed => some (s.enter worker (.starting batchSize))
  | .starting 0, .proceed => some (s.enter worker .polling)
  | .starting (rounds + 1), .proceed => some (s.enter worker (.selecting rounds s.clock))
  | .selecting rounds now, .order rows =>
      if IsDueOrder now s.events rows then
        some (s.enter worker (.scanning rounds now (rows.map OutboxEvent.id)))
      else none
  | .scanning _ _ [], .proceed => some (s.enter worker .polling)
  | .scanning rounds now (id :: candidates), .proceed =>
      match s.lockable now id with
      | none => some (s.enter worker (.scanning rounds now candidates))
      | some event => some ((s.lock worker id).enter worker (.dispatching rounds event))
  | .dispatching rounds event, .attempt attempt =>
      if attempt.notedAt ≤ attempt.endedAt ∧ attempt.endedAt = s.clock then
        match handleEvent event attempt with
        | .ok after => some (s.enter worker (.flushed rounds event after))
        | .error _ => some ((s.release worker).enter worker .polling)
      else none
  | .flushed rounds _ after, .proceed =>
      some ((({ s with events := commitEvent after s.events } : State W).release worker).enter
        worker (.starting rounds))
  | _, _ => none

/-- One step of the system. -/
def step (s : State W) : Action W → Option (State W)
  | .tick elapsed => some { s with clock := s.clock + elapsed }
  | .publish id maxRetries now eventType payload aggregateId =>
      if now ≤ s.clock then
        (s.events.insert? (publish id maxRetries now eventType payload aggregateId)).map
          fun events => { s with events := events }
      else none
  | .start worker =>
      if s.phase worker = .stopped then some (s.enter worker .polling) else none
  | .crash worker =>
      if s.phase worker = .stopped then none
      else some ((s.release worker).enter worker .stopped)
  | .abort worker =>
      if s.phase worker = .stopped then none
      else some ((s.release worker).enter worker .polling)
  | .run worker choice => runStep s worker (s.phase worker) choice

/-- The workers start out stopped over an empty table. -/
def outbox : System (State W) (Action W) where
  init s := s.events.rows = [] ∧ (∀ id, s.locks id = none) ∧ ∀ worker, s.phase worker = .stopped
  step := step

section Projections

variable (s : State W) (worker : W) (phase : Phase) (id : Uuid)

@[simp] theorem State.enter_clock : (s.enter worker phase).clock = s.clock := rfl
@[simp] theorem State.enter_events : (s.enter worker phase).events = s.events := rfl
@[simp] theorem State.enter_locks : (s.enter worker phase).locks = s.locks := rfl
@[simp] theorem State.release_clock : (s.release worker).clock = s.clock := rfl
@[simp] theorem State.release_events : (s.release worker).events = s.events := rfl
@[simp] theorem State.release_phase : (s.release worker).phase = s.phase := rfl

@[simp]
theorem State.enter_phase_self : (s.enter worker phase).phase worker = phase := by
  simp [enter]

@[simp]
theorem State.enter_phase_of_ne {other : W} (hne : other ≠ worker) :
    (s.enter worker phase).phase other = s.phase other := by
  simp [enter, hne]

/-- What a phase says was said before, or it is the new phase of the worker that says so. -/
theorem State.enter_phase_eq_some {β : Type} {f : Phase → Option β} {x : β} {other : W}
    (h : f ((s.enter worker phase).phase other) = some x) :
    f (s.phase other) = some x ∨ other = worker ∧ f phase = some x := by
  by_cases hother : other = worker
  · rw [hother, enter_phase_self] at h
    exact Or.inr ⟨hother, h⟩
  · rw [enter_phase_of_ne s worker phase hother] at h
    exact Or.inl h

theorem State.release_locks_eq_some {holder : W} :
    (s.release worker).locks id = some holder ↔ s.locks id = some holder ∧ holder ≠ worker := by
  unfold release
  dsimp only
  split
  · next hlock =>
      constructor
      · intro hholder
        cases hholder
      · rintro ⟨hholder, hne⟩
        rw [hlock] at hholder
        exact absurd (Option.some.inj hholder).symm hne
  · next hlock =>
      constructor
      · intro hholder
        refine ⟨hholder, ?_⟩
        rintro rfl
        exact hlock hholder
      · exact And.left

end Projections

/-! ## What a step does -/

/-- The effect of a step, by kind. -/
inductive StepEffect (s : State W) : Action W → State W → Prop
  | /-- Time passes. -/
    tick (elapsed : ℕ) : StepEffect s (.tick elapsed) { s with clock := s.clock + elapsed }
  | /-- An event is inserted. -/
    publish {id : Uuid} {maxRetries : ℤ} {now : Time} {eventType : Text}
      {payload : List (Text × PayloadValue)} {aggregateId : Option Uuid} {events : EventTable}
      (hnow : now ≤ s.clock)
      (hinsert : s.events.insert?
        (publish id maxRetries now eventType payload aggregateId) = some events) :
      StepEffect s (.publish id maxRetries now eventType payload aggregateId)
        { s with events := events }
  | /-- A worker without a transaction goes on. -/
    move {a : Action W} {worker : W} {phase : Phase} (hfree : (s.phase worker).event? = none)
      (hnext : phase.event? = none)
      (hreading : ∀ now, phase.reading? = some now → now = s.clock ∨
        (s.phase worker).reading? = some now) (hcommit : s.commit? a = none)
      (hcause : a = .start worker ∨ ∃ choice, a = .run worker choice) :
      StepEffect s a (s.enter worker phase)
  | /-- A worker loses its transaction, if it has one. -/
    rollback {a : Action W} {worker : W} {phase : Phase} (hnext : phase.event? = none)
      (hreading : phase.reading? = none) (hcommit : s.commit? a = none)
      (hcause : a = .crash worker ∨ a = .abort worker ∨ ∃ rounds event attempt,
        a = .run worker (.attempt attempt) ∧ s.phase worker = .dispatching rounds event ∧
          ∀ after, handleEvent event attempt ≠ .ok after) :
      StepEffect s a ((s.release worker).enter worker phase)
  | /-- A worker locks an event. -/
    lock {worker : W} {rounds : ℕ} {now : Time} {id : Uuid} {candidates : List Uuid}
      {event : OutboxEvent} (hphase : s.phase worker = .scanning rounds now (id :: candidates))
      (hlock : s.lockable now id = some event) :
      StepEffect s (.run worker .proceed)
        ((s.lock worker id).enter worker (.dispatching rounds event))
  | /-- A worker ends `_handle_event`. -/
    flush {worker : W} {rounds : ℕ} {event after : OutboxEvent} {attempt : Attempt}
      (hphase : s.phase worker = .dispatching rounds event)
      (hended : attempt.endedAt = s.clock) (hhandle : handleEvent event attempt = .ok after) :
      StepEffect s (.run worker (.attempt attempt))
        (s.enter worker (.flushed rounds event after))
  | /-- A worker commits. -/
    commit {worker : W} {rounds : ℕ} {before after : OutboxEvent}
      (hphase : s.phase worker = .flushed rounds before after) :
      StepEffect s (.run worker .proceed)
        ((({ s with events := commitEvent after s.events } : State W).release worker).enter
          worker (.starting rounds))

theorem step_effect {s s' : State W} {a : Action W} (h : step s a = some s') :
    StepEffect s a s' := by
  cases a with
  | tick elapsed =>
      cases h
      exact .tick elapsed
  | publish id maxRetries now eventType payload aggregateId =>
      simp only [step, Option.ite_none_right_eq_some, Option.map_eq_some_iff] at h
      obtain ⟨hnow, events, hinsert, rfl⟩ := h
      exact .publish hnow hinsert
  | start worker =>
      simp only [step, Option.ite_none_right_eq_some, Option.some.injEq] at h
      obtain ⟨hstopped, rfl⟩ := h
      exact .move (by rw [hstopped]; rfl) rfl (by simp [Phase.reading?]) rfl (Or.inl rfl)
  | crash worker =>
      simp only [step, Option.ite_none_left_eq_some, Option.some.injEq] at h
      obtain ⟨-, rfl⟩ := h
      exact .rollback rfl rfl rfl (Or.inl rfl)
  | abort worker =>
      simp only [step, Option.ite_none_left_eq_some, Option.some.injEq] at h
      obtain ⟨-, rfl⟩ := h
      exact .rollback rfl rfl rfl (Or.inr (Or.inl rfl))
  | run worker choice =>
      simp only [step] at h
      generalize hphase : s.phase worker = phase at h
      have hquiet : phase.event? = none → (s.phase worker).event? = none := by
        rw [hphase]
        exact id
      have hcommit : s.commit? (.run worker choice) = phase.commit? := by
        rw [State.commit?, hphase]
      unfold runStep at h
      split at h
      case h_4 rounds now rows =>
          split at h <;> cases h
          refine .move (hquiet rfl) rfl (fun now' hnow' => Or.inr ?_) hcommit (Or.inr ⟨_, rfl⟩)
          rw [hphase]
          exact hnow'
      case h_6 rounds now id candidates =>
          split at h
          · cases h
            refine .move (hquiet rfl) rfl (fun now' hnow' => Or.inr ?_) hcommit (Or.inr ⟨_, rfl⟩)
            rw [hphase]
            exact hnow'
          · next event hlock =>
              cases h
              exact .lock hphase hlock
      case h_7 rounds event attempt =>
          split at h
          · next htimes =>
              split at h
              · next after hhandle =>
                  cases h
                  exact .flush hphase htimes.2 hhandle
              · next error hhandle =>
                  cases h
                  refine .rollback rfl rfl (by rw [hcommit]; rfl) (Or.inr (Or.inr ?_))
                  exact ⟨rounds, event, attempt, rfl, hphase, by simp [hhandle]⟩
          · cases h
      case h_8 rounds before after =>
          cases h
          exact .commit hphase
      case h_9 => cases h
      case h_3 rounds =>
          cases h
          refine .move (hquiet rfl) rfl (fun now' hnow' => Or.inl ?_) hcommit (Or.inr ⟨_, rfl⟩)
          cases hnow'
          rfl
      all_goals
        cases h
        exact .move (hquiet rfl) rfl (by simp [Phase.reading?]) hcommit (Or.inr ⟨_, rfl⟩)

end Apsis.Core.Events
