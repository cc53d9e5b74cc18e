/-
# The loop of the outbox worker and its connection

`OutboxWorker._run` keeps one raw connection for `LISTEN`. Its loop goes from one `await` to
the next: `connect`, `add_listener`, the wait for the poll, the heartbeat, the batch. Each may
return or raise, and where `stop` has cancelled the task each may raise `CancelledError`. An
exception counts as a failure, and the loop sleeps before it connects again. A failed
heartbeat is no failure in this sense: the loop connects again at once.

What is awaited may also raise a `CancelledError` that nobody has asked for, above all a handler
in the batch. `except Exception` lets it pass, in `dispatch` as in `_run`, and it ends the task
as one that `stop` has caused. Of the exceptions that are no `Exception` it is the only one here:
`KeyboardInterrupt` and `SystemExit` end the process, and no other is expected of a handler.

The `finally` removes the listener and closes the connection, whichever way it is reached.
Both are awaits themselves. What `remove_listener` raises is suppressed, what `close` raises
is not, and a `CancelledError` in either of them ends the task there.

Between two awaits nothing else runs, so one step of the loop leads from one await to the
next. What happens in a batch is the subject of `Worker`.
-/

import Mathlib.Data.List.Basic
import Apsis.Core.Config
import Apsis.Library.Progress
import Apsis.Library.Timing

namespace Apsis.Core.Events.Connection

open Apsis.Library

/-! ## The loop -/

/-- A connection, numbered in the order in which they are made. -/
abbrev ConnId := ℕ

/-- How the task of `_run` ends. -/
inductive Ending
  | /-- The loop sees that the shutdown event is set. -/
    returned
  | /-- A `CancelledError` gets out of it. -/
    cancelled
  | /-- Another exception gets out of it. -/
    raised
  deriving DecidableEq

/-- The await at which the task stands. In the `finally`, `cancelled` says that a
`CancelledError` is on its way out. -/
inductive Place
  | /-- Before `start`. -/
    idle
  | /-- The task has been created and has not yet run. -/
    created
  | /-- `asyncpg.connect` -/
    connecting
  | /-- `add_listener` -/
    listening (conn : ConnId)
  | /-- The `wait_for` of the poll. -/
    waiting (conn : ConnId) (deadline : Time)
  | /-- `SELECT 1` -/
    checking (conn : ConnId)
  | /-- `_process_batch` -/
    processing (conn : ConnId)
  | /-- The sleep after a failure. -/
    sleeping (conn : Option ConnId) (deadline : Time)
  | /-- `remove_listener` -/
    removing (conn : ConnId) (cancelled : Bool)
  | /-- `close` -/
    closing (conn : ConnId) (cancelled : Bool)
  | /-- The task is done. -/
    ended (ending : Ending)
  deriving DecidableEq

/-- How an await ends. A `TimeoutError` is raised, too. -/
inductive Outcome
  | returns
  | raises
  | /-- With a `CancelledError`, because the task has been cancelled. -/
    cancelled
  | /-- With a `CancelledError` of what is awaited. -/
    strays
  deriving DecidableEq

/-- The worker and its connections. -/
structure State where
  clock : Time
  /-- `_shutdown_event` -/
  shutdown : Bool
  /-- The task has been cancelled, and no await has raised that yet. -/
  cancelling : Bool
  /-- `reconnect_attempt` -/
  attempts : ℕ
  /-- The number of connections made so far. -/
  made : ℕ
  /-- The connections that are not closed. -/
  alive : List ConnId
  place : Place
  deriving DecidableEq

/-- The actions. -/
inductive Action
  | /-- Time passes. -/
    tick (elapsed : ℕ)
  | start
  | stop
  | /-- The other side closes a connection. -/
    lose (conn : ConnId)
  | /-- The await at which the task stands ends in this way. -/
    resume (outcome : Outcome)
  deriving DecidableEq

/-- `min(2**reconnect_attempt, MAX_RECONNECT_DELAY)` -/
def reconnectDelay (attempts : ℕ) : ℤ := timedelta (min (2 ^ attempts) 60)

/-- The test of the outer loop. -/
def State.again (s : State) : State :=
  { s with place := if s.shutdown then .ended .returned else .connecting }

/-- The end of the `finally`. -/
def State.leave (s : State) (cancelled : Bool) : State :=
  if cancelled then { s with place := .ended .cancelled } else s.again

/-- The `finally`, up to its first await. -/
def State.cleanUp (s : State) (conn : Option ConnId) (cancelled : Bool) : State :=
  match conn with
  | none => s.leave cancelled
  | some conn =>
      if conn ∈ s.alive then { s with place := .removing conn cancelled } else s.leave cancelled

/-- The `except Exception`, up to its sleep. -/
def State.fail (s : State) (conn : Option ConnId) : State :=
  { s with
    attempts := s.attempts + 1
    place := .sleeping conn (s.clock + reconnectDelay (s.attempts + 1)) }

/-- The connection in the hands of the loop. -/
def Place.conn? : Place → Option ConnId
  | .listening conn => some conn
  | .waiting conn _ => some conn
  | .checking conn => some conn
  | .processing conn => some conn
  | .sleeping conn _ => conn
  | .removing conn _ => some conn
  | .closing conn _ => some conn
  | _ => none

section Step

variable (poll : ℤ)

/-- The test of the inner loop. -/
def State.await (s : State) (conn : ConnId) : State :=
  if s.shutdown then s.cleanUp (some conn) false
  else { s with place := .waiting conn (s.clock + poll) }

/-- The await at this place returns. -/
def returnStep (s : State) : Place → Option State
  | .created => some s.again
  | .connecting =>
      some { s with made := s.made + 1, alive := s.made :: s.alive, place := .listening s.made }
  | .listening conn => some (({ s with attempts := 0 } : State).await poll conn)
  | .waiting conn _ => if s.shutdown then some (s.cleanUp (some conn) false) else none
  | .checking conn => some { s with place := .processing conn }
  | .processing conn => some (s.await poll conn)
  | .sleeping conn deadline => if deadline ≤ s.clock then some (s.cleanUp conn false) else none
  | .removing conn cancelled => some { s with place := .closing conn cancelled }
  | .closing conn cancelled =>
      some (({ s with alive := s.alive.erase conn } : State).leave cancelled)
  | _ => none

/-- The await at this place raises, but not a `CancelledError`. -/
def raiseStep (s : State) : Place → Option State
  | .connecting => some (s.fail none)
  | .listening conn => some (s.fail (some conn))
  | .waiting conn deadline =>
      if deadline ≤ s.clock then some { s with place := .checking conn } else none
  | .checking conn => some (s.cleanUp (some conn) false)
  | .processing conn => some (s.fail (some conn))
  | .removing conn cancelled => some { s with place := .closing conn cancelled }
  | .closing _ _ => some { s with place := .ended .raised }
  | _ => none

/-- The await at this place raises a `CancelledError`. -/
def cancelStep (s : State) : Place → Option State
  | .idle => none
  | .ended _ => none
  | .created => some { s with place := .ended .cancelled }
  | .removing _ _ => some { s with place := .ended .cancelled }
  | .closing _ _ => some { s with place := .ended .cancelled }
  | place => some (s.cleanUp place.conn? true)

/-- The task is not done. -/
def Place.isLive : Place → Bool
  | .idle => false
  | .ended _ => false
  | _ => true

/-- Something is awaited that may raise a `CancelledError` of its own. A sleep and the wait for
an event do not. -/
def Place.mayStray : Place → Bool
  | .idle => false
  | .created => false
  | .waiting _ _ => false
  | .sleeping _ _ => false
  | .ended _ => false
  | _ => true

/-- One step. -/
def step (s : State) : Action → Option State
  | .tick elapsed => some { s with clock := s.clock + elapsed }
  | .start =>
      if s.place = .idle then some { s with shutdown := false, place := .created } else none
  | .stop => some { s with shutdown := true, cancelling := s.cancelling || s.place.isLive }
  | .lose conn => if conn ∈ s.alive then some { s with alive := s.alive.erase conn } else none
  | .resume .returns => returnStep poll s s.place
  | .resume .raises => raiseStep s s.place
  | .resume .cancelled =>
      if s.cancelling then cancelStep { s with cancelling := false } s.place else none
  | .resume .strays => if s.place.mayStray then cancelStep s s.place else none

/-- A new worker. -/
def loop : System State Action where
  init s := s.shutdown = false ∧ s.cancelling = false ∧ s.attempts = 0 ∧ s.made = 0 ∧
    s.alive = [] ∧ s.place = .idle
  step := step poll

end Step

/-! ## What a step does -/

/-- The places at which an exception counts as a failure. -/
def Place.mayFail : Place → Bool
  | .connecting => true
  | .listening _ => true
  | .processing _ => true
  | _ => false

/-- The places in the `finally`. -/
def Place.isCleanUp : Place → Bool
  | .removing _ _ => true
  | .closing _ _ => true
  | _ => false

/-- Why the loop comes to the `finally` without a `CancelledError`. -/
inductive ToCleanUp (s : State) : Outcome → Prop
  | shutdown {conn : ConnId} {deadline : Time} (hplace : s.place = .waiting conn deadline)
      (hshutdown : s.shutdown = true) : ToCleanUp s .returns
  | heartbeat {conn : ConnId} (hplace : s.place = .checking conn) : ToCleanUp s .raises
  | slept {conn : Option ConnId} {deadline : Time} (hplace : s.place = .sleeping conn deadline)
      (hdeadline : deadline ≤ s.clock) : ToCleanUp s .returns

/-- Where the end of the `finally` leads. -/
inductive LeavesTo (s : State) : Bool → Place → Prop
  | cancelled : LeavesTo s true (.ended .cancelled)
  | returned (hshutdown : s.shutdown = true) : LeavesTo s false (.ended .returned)
  | again (hshutdown : s.shutdown = false) : LeavesTo s false .connecting

/-- Where the `finally` leads. -/
inductive CleansTo (s : State) (conn? : Option ConnId) (cancelled : Bool) : Place → Prop
  | remove {conn : ConnId} (hconn : conn? = some conn) (halive : conn ∈ s.alive) :
      CleansTo s conn? cancelled (.removing conn cancelled)
  | leave {place : Place} (hclosed : ∀ conn, conn? = some conn → conn ∉ s.alive)
      (hnext : LeavesTo s cancelled place) : CleansTo s conn? cancelled place

/-- Where the test of the inner loop leads. -/
inductive AwaitsTo (poll : ℤ) (s : State) (conn : ConnId) : Place → Prop
  | wait (hshutdown : s.shutdown = false) : AwaitsTo poll s conn (.waiting conn (s.clock + poll))
  | cleanUp {place : Place} (hshutdown : s.shutdown = true)
      (hnext : CleansTo s (some conn) false place) : AwaitsTo poll s conn place

section Places

variable (poll : ℤ) (s : State)

theorem State.again_eq : ∃ place, s.again = { s with place := place } ∧ LeavesTo s false place := by
  refine ⟨_, rfl, ?_⟩
  cases hshutdown : s.shutdown with
  | true => exact .returned hshutdown
  | false => exact .again hshutdown

theorem State.leave_eq (cancelled : Bool) :
    ∃ place, s.leave cancelled = { s with place := place } ∧ LeavesTo s cancelled place := by
  cases cancelled with
  | true => exact ⟨_, rfl, .cancelled⟩
  | false => exact s.again_eq

theorem State.cleanUp_eq (conn? : Option ConnId) (cancelled : Bool) :
    ∃ place, s.cleanUp conn? cancelled = { s with place := place } ∧
      CleansTo s conn? cancelled place := by
  obtain ⟨place, hleave, hnext⟩ := s.leave_eq cancelled
  cases conn? with
  | none => exact ⟨place, hleave, .leave (by rintro _ ⟨⟩) hnext⟩
  | some conn =>
      by_cases halive : conn ∈ s.alive
      · exact ⟨_, if_pos halive, .remove rfl halive⟩
      · refine ⟨place, (if_neg halive).trans hleave, .leave ?_ hnext⟩
        rintro _ ⟨⟩
        exact halive

theorem State.await_eq (conn : ConnId) :
    ∃ place, s.await poll conn = { s with place := place } ∧ AwaitsTo poll s conn place := by
  by_cases hshutdown : s.shutdown = true
  · obtain ⟨place, hcleanUp, hnext⟩ := s.cleanUp_eq (some conn) false
    exact ⟨place, (if_pos hshutdown).trans hcleanUp, .cleanUp hshutdown hnext⟩
  · exact ⟨_, if_neg hshutdown, .wait (Bool.eq_false_iff.mpr hshutdown)⟩

end Places

/-- Why an await raises a `CancelledError`, and whether the task is to be cancelled after that. -/
inductive Cancels (s : State) : Outcome → Bool → Prop
  | told (hcancelling : s.cancelling = true) : Cancels s .cancelled false
  | stray (hplace : s.place.mayStray = true) : Cancels s .strays s.cancelling

theorem Cancels.outcome {s : State} {outcome : Outcome} {cancelling : Bool}
    (hcause : Cancels s outcome cancelling) : outcome ≠ .raises ∧ outcome ≠ .returns := by
  cases hcause <;> exact ⟨by rintro ⟨⟩, by rintro ⟨⟩⟩

/-- The effect of a step, by kind. -/
inductive StepEffect (poll : ℤ) (s : State) : Action → State → Prop
  | tick (elapsed : ℕ) : StepEffect poll s (.tick elapsed) { s with clock := s.clock + elapsed }
  | start (hplace : s.place = .idle) :
      StepEffect poll s .start { s with shutdown := false, place := .created }
  | stop : StepEffect poll s .stop
      { s with shutdown := true, cancelling := s.cancelling || s.place.isLive }
  | lose (conn : ConnId) :
      StepEffect poll s (.lose conn) { s with alive := s.alive.erase conn }
  | begin {place : Place} (hplace : s.place = .created) (hnext : LeavesTo s false place) :
      StepEffect poll s (.resume .returns) { s with place := place }
  | connect (hplace : s.place = .connecting) : StepEffect poll s (.resume .returns)
      { s with made := s.made + 1, alive := s.made :: s.alive, place := .listening s.made }
  | listen {conn : ConnId} {place : Place} (hplace : s.place = .listening conn)
      (hnext : AwaitsTo poll { s with attempts := 0 } conn place) :
      StepEffect poll s (.resume .returns) { s with attempts := 0, place := place }
  | timeout {conn : ConnId} {deadline : Time} (hplace : s.place = .waiting conn deadline)
      (hdeadline : deadline ≤ s.clock) :
      StepEffect poll s (.resume .raises) { s with place := .checking conn }
  | check {conn : ConnId} (hplace : s.place = .checking conn) :
      StepEffect poll s (.resume .returns) { s with place := .processing conn }
  | process {conn : ConnId} {place : Place} (hplace : s.place = .processing conn)
      (hnext : AwaitsTo poll s conn place) :
      StepEffect poll s (.resume .returns) { s with place := place }
  | fail (hplace : s.place.mayFail = true) : StepEffect poll s (.resume .raises)
      { s with
        attempts := s.attempts + 1
        place := .sleeping s.place.conn? (s.clock + reconnectDelay (s.attempts + 1)) }
  | cleanUp {outcome : Outcome} {place : Place} (hcause : ToCleanUp s outcome)
      (hnext : CleansTo s s.place.conn? false place) :
      StepEffect poll s (.resume outcome) { s with place := place }
  | remove {conn : ConnId} {cancelled : Bool} {outcome : Outcome}
      (hplace : s.place = .removing conn cancelled) :
      StepEffect poll s (.resume outcome) { s with place := .closing conn cancelled }
  | close {conn : ConnId} {cancelled : Bool} {place : Place}
      (hplace : s.place = .closing conn cancelled)
      (hnext : LeavesTo { s with alive := s.alive.erase conn } cancelled place) :
      StepEffect poll s (.resume .returns) { s with alive := s.alive.erase conn, place := place }
  | raise {conn : ConnId} {cancelled : Bool} (hplace : s.place = .closing conn cancelled) :
      StepEffect poll s (.resume .raises) { s with place := .ended .raised }
  | cancel {outcome : Outcome} {cancelling : Bool} {place : Place}
      (hcause : Cancels s outcome cancelling) (hlive : s.place.isLive = true)
      (hplace : s.place.isCleanUp = false)
      (hnext : CleansTo { s with cancelling := cancelling } s.place.conn? true place) :
      StepEffect poll s (.resume outcome) { s with cancelling := cancelling, place := place }
  | cancelCleanUp {outcome : Outcome} {cancelling : Bool} (hcause : Cancels s outcome cancelling)
      (hplace : s.place.isCleanUp = true) : StepEffect poll s (.resume outcome)
        { s with cancelling := cancelling, place := .ended .cancelled }

theorem step_effect {poll : ℤ} {s s' : State} {a : Action} (h : step poll s a = some s') :
    StepEffect poll s a s' := by
  cases a with
  | tick elapsed =>
      cases h
      exact .tick elapsed
  | start =>
      simp only [step, Option.ite_none_right_eq_some, Option.some.injEq] at h
      obtain ⟨hplace, rfl⟩ := h
      exact .start hplace
  | stop =>
      cases h
      exact .stop
  | lose conn =>
      simp only [step, Option.ite_none_right_eq_some, Option.some.injEq] at h
      obtain ⟨-, rfl⟩ := h
      exact .lose conn
  | resume outcome =>
      have hcleanUp : ∀ {conn? : Option ConnId} {outcome : Outcome}, ToCleanUp s outcome →
          s.place.conn? = conn? → StepEffect poll s (.resume outcome) (s.cleanUp conn? false) := by
        rintro _ _ hcause rfl
        obtain ⟨place, heq, hnext⟩ := s.cleanUp_eq s.place.conn? false
        rw [heq]
        exact .cleanUp hcause hnext
      have hfail : ∀ {conn? : Option ConnId}, s.place.mayFail = true → s.place.conn? = conn? →
          StepEffect poll s (.resume .raises) (s.fail conn?) := by
        rintro _ hplace rfl
        exact .fail hplace
      have hcancel : ∀ {outcome : Outcome} {cancelling : Bool}, Cancels s outcome cancelling →
          cancelStep { s with cancelling := cancelling } s.place = some s' →
            StepEffect poll s (.resume outcome) s' := by
        intro outcome cancelling hcause h
        obtain ⟨place, heq, hnext⟩ :=
          ({ s with cancelling := cancelling } : State).cleanUp_eq s.place.conn? true
        cases hplace : s.place with
        | idle | ended _ =>
            rw [hplace] at h
            cases h
        | removing _ _ | closing _ _ =>
            rw [hplace] at h
            cases h
            exact .cancelCleanUp hcause (by rw [hplace]; rfl)
        | created =>
            rw [hplace] at h
            cases h
            have hnone : ∀ conn, s.place.conn? = some conn → conn ∉ s.alive := by
              simp [hplace, Place.conn?]
            exact .cancel hcause (by rw [hplace]; rfl) (by rw [hplace]; rfl)
              (.leave hnone .cancelled)
        | _ =>
            simp only [hplace, cancelStep, Option.some.injEq] at h heq
            rw [← h, heq]
            exact .cancel hcause (by rw [hplace]; rfl) (by rw [hplace]; rfl) hnext
      cases outcome with
      | returns =>
          simp only [step] at h
          generalize hplace : s.place = place at h
          cases place with
          | idle | ended _ => cases h
          | created =>
              obtain ⟨place, heq, hnext⟩ := s.again_eq
              simp only [returnStep, Option.some.injEq, heq] at h
              exact h ▸ .begin hplace hnext
          | connecting =>
              cases h
              exact .connect hplace
          | listening conn =>
              obtain ⟨place, heq, hnext⟩ := ({ s with attempts := 0 } : State).await_eq poll conn
              simp only [returnStep, Option.some.injEq, heq] at h
              exact h ▸ .listen hplace hnext
          | waiting conn deadline =>
              simp only [returnStep, Option.ite_none_right_eq_some, Option.some.injEq] at h
              obtain ⟨hshutdown, rfl⟩ := h
              exact hcleanUp (.shutdown hplace hshutdown) (by rw [hplace]; rfl)
          | checking conn =>
              cases h
              exact .check hplace
          | processing conn =>
              obtain ⟨place, heq, hnext⟩ := s.await_eq poll conn
              simp only [returnStep, Option.some.injEq, heq] at h
              exact h ▸ .process hplace hnext
          | sleeping conn deadline =>
              simp only [returnStep, Option.ite_none_right_eq_some, Option.some.injEq] at h
              obtain ⟨hdeadline, rfl⟩ := h
              exact hcleanUp (.slept hplace hdeadline) (by rw [hplace]; rfl)
          | removing conn cancelled =>
              cases h
              exact .remove hplace
          | closing conn cancelled =>
              obtain ⟨place, heq, hnext⟩ :=
                ({ s with alive := s.alive.erase conn } : State).leave_eq cancelled
              simp only [returnStep, Option.some.injEq, heq] at h
              exact h ▸ .close hplace hnext
      | raises =>
          simp only [step] at h
          generalize hplace : s.place = place at h
          cases place with
          | idle | ended _ | created | sleeping _ _ => cases h
          | waiting conn deadline =>
              simp only [raiseStep, Option.ite_none_right_eq_some, Option.some.injEq] at h
              obtain ⟨hdeadline, rfl⟩ := h
              exact .timeout hplace hdeadline
          | checking conn =>
              cases h
              exact hcleanUp (.heartbeat hplace) (by rw [hplace]; rfl)
          | removing conn cancelled =>
              cases h
              exact .remove hplace
          | closing conn cancelled =>
              cases h
              exact .raise hplace
          | connecting | listening _ | processing _ =>
              cases h
              exact hfail (by rw [hplace]; rfl) (by rw [hplace]; rfl)
      | cancelled =>
          simp only [step, Option.ite_none_right_eq_some] at h
          exact hcancel (.told h.1) h.2
      | strays =>
          simp only [step, Option.ite_none_right_eq_some] at h
          exact hcancel (.stray h.1) h.2

/-! ## One connection at a time -/

/-- There is no open connection but the one in the hands of the loop, or the one that a task
has left behind that was cut short. -/
def Tidy (s : State) : Prop :=
  s.alive = [] ∨ ∃ conn, s.alive = [conn] ∧
    (s.place.conn? = some conn ∨ s.place = .ended .cancelled ∨ s.place = .ended .raised)

section Tidy

variable {poll : ℤ} {s s' : State} {a : Action}

/-- A connection that is not the loop's own does not exist. -/
theorem Tidy.alive_eq_nil (htidy : Tidy s) (hlive : ∀ ending, s.place ≠ .ended ending)
    (hclosed : ∀ conn, s.place.conn? = some conn → conn ∉ s.alive) : s.alive = [] := by
  rcases htidy with hnil | ⟨conn, halive, hown | hended | hended⟩
  · exact hnil
  · exact absurd (halive ▸ List.mem_singleton_self conn) (hclosed conn hown)
  · exact absurd hended (hlive _)
  · exact absurd hended (hlive _)

/-- Nothing is left when the loop has closed its connection. -/
theorem Tidy.erase_eq_nil (htidy : Tidy s) (hlive : ∀ ending, s.place ≠ .ended ending)
    {conn : ConnId} (hconn : s.place.conn? = some conn) : s.alive.erase conn = [] := by
  rcases htidy with hnil | ⟨conn', hsingle, hown | hended | hended⟩
  · simp [hnil]
  · rw [hconn] at hown
    cases hown
    simp [hsingle]
  · exact absurd hended (hlive _)
  · exact absurd hended (hlive _)

theorem Tidy.of_conn (htidy : Tidy s) (halive : s'.alive = s.alive)
    (hlive : ∀ ending, s.place ≠ .ended ending) (hconn : s'.place.conn? = s.place.conn?) :
    Tidy s' := by
  rcases htidy with hnil | ⟨conn, hsingle, hown | hended | hended⟩
  · exact Or.inl (halive.trans hnil)
  · exact Or.inr ⟨conn, halive.trans hsingle, Or.inl (hconn.trans hown)⟩
  · exact absurd hended (hlive _)
  · exact absurd hended (hlive _)

theorem Tidy.of_cleansTo (htidy : Tidy s) (halive : s'.alive = s.alive)
    (hlive : ∀ ending, s.place ≠ .ended ending) {conn? : Option ConnId} {cancelled : Bool}
    {before : State} (hnext : CleansTo before conn? cancelled s'.place)
    (hconn : s.place.conn? = conn?) (hbefore : before.alive = s.alive) : Tidy s' := by
  generalize hplace : s'.place = place at hnext
  cases hnext with
  | remove hsome _ => exact htidy.of_conn halive hlive (by rw [hplace, hconn, hsome]; rfl)
  | leave hclosed _ =>
      rw [hbefore, ← hconn] at hclosed
      exact Or.inl (halive.trans (htidy.alive_eq_nil hlive hclosed))

/-- The step lemma. -/
theorem tidy_step (htidy : Tidy s) (hstep : step poll s a = some s') : Tidy s' := by
  have hlive : ∀ {place : Place}, s.place = place → place.isLive = true →
      ∀ ending, s.place ≠ .ended ending := by
    rintro _ rfl hlive ending hended
    rw [hended] at hlive
    cases hlive
  cases step_effect hstep with
  | tick elapsed => exact htidy
  | stop => exact htidy
  | start hplace =>
      refine Or.inl (htidy.alive_eq_nil ?_ ?_)
      · rintro _ hended
        cases hplace.symm.trans hended
      · rw [hplace]
        rintro _ ⟨⟩
  | lose conn =>
      rcases htidy with hnil | ⟨conn', hsingle, hown⟩
      · exact Or.inl (by simp [hnil])
      · by_cases hsame : conn' = conn
        · exact Or.inl (by simp [hsingle, hsame])
        · exact Or.inr ⟨conn', by simp [hsingle, hsame], hown⟩
  | begin hplace hnext =>
      refine Or.inl (htidy.alive_eq_nil (hlive hplace rfl) ?_)
      rw [hplace]
      rintro _ ⟨⟩
  | connect hplace =>
      have hnil : s.alive = [] := by
        refine htidy.alive_eq_nil (hlive hplace rfl) ?_
        rw [hplace]
        rintro _ ⟨⟩
      exact Or.inr ⟨s.made, by rw [hnil], Or.inl rfl⟩
  | listen hplace hnext | process hplace hnext =>
      cases hnext with
      | wait _ => exact htidy.of_conn rfl (hlive hplace rfl) (by rw [hplace]; rfl)
      | cleanUp _ hnext =>
          exact htidy.of_cleansTo rfl (hlive hplace rfl) hnext (by rw [hplace]; rfl) rfl
  | timeout hplace _ | check hplace | remove hplace =>
      exact htidy.of_conn rfl (hlive hplace rfl) (by rw [hplace]; rfl)
  | fail hplace =>
      refine htidy.of_conn rfl ?_ rfl
      intro ending hended
      rw [hended] at hplace
      cases hplace
  | cleanUp hcause hnext =>
      refine htidy.of_cleansTo rfl ?_ hnext rfl rfl
      cases hcause with
      | shutdown hplace _ => exact hlive hplace rfl
      | heartbeat hplace => exact hlive hplace rfl
      | slept hplace _ => exact hlive hplace rfl
  | close hplace hnext =>
      exact Or.inl (htidy.erase_eq_nil (hlive hplace rfl) (by rw [hplace]; rfl))
  | raise hplace =>
      exact htidy.imp_right fun ⟨conn, hsingle, _⟩ => ⟨conn, hsingle, Or.inr (Or.inr rfl)⟩
  | cancel _ hisLive _ hnext =>
      exact htidy.of_cleansTo rfl (hlive rfl hisLive) hnext rfl rfl
  | cancelCleanUp _ _ =>
      exact htidy.imp_right fun ⟨conn, hsingle, _⟩ => ⟨conn, hsingle, Or.inr (Or.inl rfl)⟩

end Tidy

/-- What the task awaited has raised a `CancelledError` of its own. -/
def HasStrayed (h : History State Action) : Prop := ∃ t ∈ h, t.action = .resume .strays

/-- How a transition that ends the task came to that. -/
structure EndsFor (h : History State Action) (t : Transition State Action) (ending : Ending) :
    Prop where
  /-- The worker has been told to stop, or it was `close` that raised, or something that was
  awaited has raised a `CancelledError` unasked. -/
  cause : (∃ earlier ∈ h, earlier.action = .stop) ∨ ending = .raised ∨ HasStrayed (t :: h)
  raised : ending = .raised → t.action = .resume .raises ∧
    ∃ conn cancelled, t.source.place = .closing conn cancelled
  /-- A connection is only left open if an await of the `finally` has not returned. -/
  left : t.target.alive ≠ [] → t.source.place.isCleanUp = true ∧ t.action ≠ .resume .returns

section Ending

variable {poll : ℤ} {h : History State Action} {s s' : State} {a : Action}

/-- Only `stop` sets the event. -/
theorem stop_of_run (hrun : (loop poll).Run h s) (hset : s.shutdown = true) :
    ∃ t ∈ h, t.action = .stop := by
  revert hset
  apply hrun.invariant_of_step (I := fun h s => s.shutdown = true → ∃ t ∈ h, t.action = .stop)
  · rintro s ⟨hshutdown, -⟩ hset
    rw [hshutdown] at hset
    cases hset
  · intro h s a s' _ hinv hstep hset
    have hkept : s.shutdown = true →
        ∃ t ∈ (⟨s, a, s'⟩ :: h : History State Action), t.action = .stop := by
      intro hbefore
      exact List.exists_mem_cons_of_exists (hinv hbefore)
    cases step_effect hstep with
    | stop => exact ⟨_, List.mem_cons_self, rfl⟩
    | start _ => cases hset
    | _ => exact hkept hset

/-- A `CancelledError` is on its way out. -/
def Place.isCancelled : Place → Bool
  | .removing _ cancelled => cancelled
  | .closing _ cancelled => cancelled
  | _ => false

theorem LeavesTo.place {cancelled : Bool} {place : Place} (hnext : LeavesTo s cancelled place) :
    place.isCancelled = false ∧ place ≠ .idle := by
  cases hnext <;> exact ⟨rfl, by rintro ⟨⟩⟩

theorem CleansTo.place {conn? : Option ConnId} {cancelled : Bool} {place : Place}
    (hnext : CleansTo s conn? cancelled place) :
    (place.isCancelled = true → cancelled = true) ∧ place ≠ .idle := by
  cases hnext with
  | remove _ _ => exact ⟨id, by rintro ⟨⟩⟩
  | leave _ hnext => exact ⟨fun h => absurd h (by simp [hnext.place.1]), hnext.place.2⟩

theorem AwaitsTo.place {conn : ConnId} {place : Place} (hnext : AwaitsTo poll s conn place) :
    place.isCancelled = false ∧ place ≠ .idle := by
  cases hnext with
  | wait _ => exact ⟨rfl, by rintro ⟨⟩⟩
  | cleanUp _ hnext =>
      exact ⟨Bool.eq_false_iff.mpr fun h => Bool.false_ne_true (hnext.place.1 h), hnext.place.2⟩

/-- If the `finally` ends without an await, no connection is open. -/
theorem CleansTo.ended {conn? : Option ConnId} {cancelled : Bool} {ending : Ending}
    (hnext : CleansTo s conn? cancelled (.ended ending)) :
    (∀ conn, conn? = some conn → conn ∉ s.alive) ∧ LeavesTo s cancelled (.ended ending) := by
  generalize hplace : Place.ended ending = place at hnext
  cases hnext with
  | remove _ _ => cases hplace
  | leave hclosed hnext => exact ⟨hclosed, hnext⟩

theorem LeavesTo.ended {cancelled : Bool} {ending : Ending}
    (hnext : LeavesTo s cancelled (.ended ending)) :
    ending ≠ .raised ∧ (cancelled = false → s.shutdown = true) := by
  cases hnext with
  | cancelled => exact ⟨by rintro ⟨⟩, by rintro ⟨⟩⟩
  | returned hshutdown => exact ⟨by rintro ⟨⟩, fun _ => hshutdown⟩

/-- The inner loop ends the task only where it sees that the shutdown event is set. -/
theorem AwaitsTo.ended {conn : ConnId} {ending : Ending}
    (hnext : AwaitsTo poll s conn (.ended ending)) : s.shutdown = true := by
  cases hnext with
  | cleanUp hshutdown _ => exact hshutdown

theorem HasStrayed.cons {t : Transition State Action} (hstrayed : HasStrayed h) :
    HasStrayed (t :: h) :=
  List.exists_mem_cons_of_exists hstrayed

/-- A task is cancelled by `stop` only, which has set the event before. A `CancelledError` that is
on its way out comes from that, or it has strayed. -/
structure Told (h : History State Action) (s : State) : Prop where
  cancelling : s.cancelling = true → s.shutdown = true
  cancelled : s.place.isCancelled = true → s.shutdown = true ∨ HasStrayed h
  ended : ∀ ending, s.place = .ended ending →
    s.shutdown = true ∨ ending = .raised ∨ HasStrayed h
  idle : s.place = .idle → s.cancelling = false

/-- An await that raises a `CancelledError` does so because of `stop`, or it strays. -/
theorem Told.of_cancels (htold : Told h s) {outcome : Outcome} {cancelling : Bool}
    (hcause : Cancels s outcome cancelling) :
    (cancelling = true → s.shutdown = true) ∧
      (s.shutdown = true ∨ HasStrayed (⟨s, .resume outcome, s'⟩ :: h)) := by
  cases hcause with
  | told hcancelling => exact ⟨by rintro ⟨⟩, Or.inl (htold.cancelling hcancelling)⟩
  | stray _ => exact ⟨htold.cancelling, Or.inr ⟨_, List.mem_cons_self, rfl⟩⟩

theorem told_of_run (hrun : (loop poll).Run h s) : Told h s := by
  apply hrun.invariant_of_step (I := fun h s => Told h s)
  · rintro s ⟨-, hcancelling, -, -, -, hplace⟩
    refine ⟨fun hset => ?_, fun hset => ?_, fun ending hended => ?_, fun _ => hcancelling⟩
    · rw [hcancelling] at hset
      cases hset
    · rw [hplace] at hset
      cases hset
    · rw [hplace] at hended
      cases hended
  · intro h s a s' _ htold hstep
    have hstill : s.place.isCancelled = true →
        s.shutdown = true ∨ HasStrayed (⟨s, a, s'⟩ :: h) :=
      fun hset => (htold.cancelled hset).imp_right HasStrayed.cons
    have hdone : ∀ ending, s.place = .ended ending →
        s.shutdown = true ∨ ending = .raised ∨ HasStrayed (⟨s, a, s'⟩ :: h) :=
      fun ending hended => (htold.ended ending hended).imp_right (Or.imp_right HasStrayed.cons)
    have hfalse : ∀ {place : Place}, place.isCancelled = false → place.isCancelled = true →
        s.shutdown = true ∨ HasStrayed (⟨s, a, s'⟩ :: h) := by
      intro place hnot hset
      rw [hnot] at hset
      cases hset
    cases step_effect hstep with
    | tick _ => exact ⟨htold.cancelling, hstill, hdone, htold.idle⟩
    | lose _ => exact ⟨htold.cancelling, hstill, hdone, htold.idle⟩
    | start hplace =>
        refine ⟨fun hset => ?_, by rintro ⟨⟩, by rintro _ ⟨⟩, by rintro ⟨⟩⟩
        have hset' : s.cancelling = true := hset
        rw [htold.idle hplace] at hset'
        cases hset'
    | stop =>
        refine ⟨fun _ => rfl, fun _ => Or.inl rfl, fun _ _ => Or.inl rfl, fun hidle => ?_⟩
        have hidle' : s.place = .idle := hidle
        show (s.cancelling || s.place.isLive) = false
        rw [htold.idle hidle', hidle']
        rfl
    | begin _ hnext =>
        refine ⟨htold.cancelling, hfalse hnext.place.1, ?_, fun hidle => absurd hidle hnext.place.2⟩
        rintro ending rfl
        exact Or.inl (hnext.ended.2 rfl)
    | listen _ hnext | process _ hnext =>
        refine ⟨htold.cancelling, hfalse hnext.place.1, ?_, fun hidle => absurd hidle hnext.place.2⟩
        rintro ending rfl
        exact Or.inl hnext.ended
    | connect _ | timeout _ _ | check _ | fail _ =>
        exact ⟨htold.cancelling, hfalse rfl, by rintro _ ⟨⟩, by rintro ⟨⟩⟩
    | cleanUp _ hnext =>
        refine ⟨htold.cancelling, fun hset => ?_, ?_, fun hidle => absurd hidle hnext.place.2⟩
        · cases hnext.place.1 hset
        · rintro ending rfl
          exact Or.inl (hnext.ended.2.ended.2 rfl)
    | remove hplace =>
        refine ⟨htold.cancelling, fun hset => hstill ?_, by rintro _ ⟨⟩, by rintro ⟨⟩⟩
        rw [hplace]
        exact hset
    | @close _ cancelled _ hplace hnext =>
        refine ⟨htold.cancelling, hfalse hnext.place.1, ?_, fun hidle => absurd hidle hnext.place.2⟩
        rintro ending rfl
        cases cancelled with
        | true => exact (hstill (by rw [hplace]; rfl)).imp_right Or.inr
        | false => exact Or.inl (hnext.ended.2 rfl)
    | raise _ =>
        refine ⟨htold.cancelling, hfalse rfl, ?_, by rintro ⟨⟩⟩
        rintro _ ⟨⟩
        exact Or.inr (Or.inl rfl)
    | cancel hcause _ _ hnext =>
        obtain ⟨hkept, hset⟩ := htold.of_cancels hcause
        exact ⟨hkept, fun _ => hset, fun _ _ => hset.imp_right Or.inr,
          fun hidle => absurd hidle hnext.place.2⟩
    | cancelCleanUp hcause _ =>
        obtain ⟨hkept, hset⟩ := htold.of_cancels hcause
        exact ⟨hkept, by rintro ⟨⟩, fun _ _ => hset.imp_right Or.inr, by rintro ⟨⟩⟩

/-- A task that takes a step is not done, and is not told anything by it. -/
theorem of_resume {outcome : Outcome} (hstep : step poll s (.resume outcome) = some s') :
    s.place.isLive = true ∧ s'.shutdown = s.shutdown ∧ s'.place ≠ .idle := by
  cases step_effect hstep with
  | begin hplace hnext => exact ⟨by rw [hplace]; rfl, rfl, hnext.place.2⟩
  | connect hplace => exact ⟨by rw [hplace]; rfl, rfl, by rintro ⟨⟩⟩
  | listen hplace hnext => exact ⟨by rw [hplace]; rfl, rfl, hnext.place.2⟩
  | timeout hplace _ => exact ⟨by rw [hplace]; rfl, rfl, by rintro ⟨⟩⟩
  | check hplace => exact ⟨by rw [hplace]; rfl, rfl, by rintro ⟨⟩⟩
  | process hplace hnext => exact ⟨by rw [hplace]; rfl, rfl, hnext.place.2⟩
  | fail hplace =>
      refine ⟨?_, rfl, by rintro ⟨⟩⟩
      cases hlive : s.place with
      | connecting | listening _ | processing _ => rfl
      | _ =>
          rw [hlive] at hplace
          cases hplace
  | cleanUp hcause hnext =>
      refine ⟨?_, rfl, hnext.place.2⟩
      cases hcause with
      | shutdown hplace _ | heartbeat hplace | slept hplace _ => rw [hplace]; rfl
  | remove hplace => exact ⟨by rw [hplace]; rfl, rfl, by rintro ⟨⟩⟩
  | close hplace hnext => exact ⟨by rw [hplace]; rfl, rfl, hnext.place.2⟩
  | raise hplace => exact ⟨by rw [hplace]; rfl, rfl, by rintro ⟨⟩⟩
  | cancel _ hlive _ hnext => exact ⟨hlive, rfl, hnext.place.2⟩
  | cancelCleanUp _ hplace =>
      refine ⟨?_, rfl, by rintro ⟨⟩⟩
      cases hlive : s.place with
      | removing _ _ | closing _ _ => rfl
      | _ =>
          rw [hlive] at hplace
          cases hplace

/-- What ends the task. -/
theorem endsFor_of_step (hrun : (loop poll).Run h s) (htidy : Tidy s)
    (hstep : step poll s a = some s') {ending : Ending} (hended : s'.place = .ended ending)
    (hbefore : ∀ ending, s.place ≠ .ended ending) : EndsFor h ⟨s, a, s'⟩ ending := by
  obtain ⟨outcome, rfl⟩ : ∃ outcome, a = .resume outcome := by
    cases step_effect hstep with
    | tick _ | stop | lose _ => exact absurd hended (hbefore ending)
    | start _ => cases hended
    | _ => exact ⟨_, rfl⟩
  have hcause := (told_of_run (hrun.extend hstep)).ended ending hended
  rw [(of_resume hstep).2.1] at hcause
  have hcause' := hcause.imp_left (stop_of_run hrun)
  have hleave : ∀ {before : State} {conn? : Option ConnId} {cancelled : Bool},
      CleansTo before conn? cancelled (.ended ending) → before.alive = s.alive →
        s'.alive = s.alive → s.place.conn? = conn? →
          EndsFor h ⟨s, .resume outcome, s'⟩ ending := by
    rintro before _ cancelled hnext halive halive' rfl
    obtain ⟨hclosed, hnext⟩ := hnext.ended
    refine ⟨hcause', fun hsame => absurd hsame hnext.ended.1, fun hopen => ?_⟩
    rw [halive] at hclosed
    exact absurd (halive'.trans (htidy.alive_eq_nil hbefore hclosed)) hopen
  cases step_effect hstep with
  | connect _ => cases hended
  | timeout _ _ => cases hended
  | check _ => cases hended
  | fail _ => cases hended
  | remove _ => cases hended
  | begin hplace hnext =>
      cases hended
      exact hleave (.leave (by rintro _ ⟨⟩) hnext) rfl rfl (congrArg Place.conn? hplace)
  | listen hplace hnext | process hplace hnext =>
      cases hended
      cases hnext with
      | cleanUp _ hnext => exact hleave hnext rfl rfl (congrArg Place.conn? hplace)
  | cleanUp _ hnext =>
      cases hended
      exact hleave hnext rfl rfl rfl
  | cancel _ _ _ hnext =>
      cases hended
      exact hleave hnext rfl rfl rfl
  | close hplace hnext =>
      cases hended
      have hclosed := htidy.erase_eq_nil hbefore (congrArg Place.conn? hplace)
      exact ⟨hcause', fun hsame => absurd hsame hnext.ended.1, fun hopen => absurd hclosed hopen⟩
  | raise hplace =>
      cases hended
      exact ⟨hcause', fun _ => ⟨rfl, _, _, hplace⟩, fun _ => ⟨by rw [hplace]; rfl, by rintro ⟨⟩⟩⟩
  | cancelCleanUp hcancels hplace =>
      cases hended
      refine ⟨hcause', by rintro ⟨⟩, fun _ => ⟨hplace, ?_⟩⟩
      exact fun hreturns => hcancels.outcome.2 (Action.resume.inj hreturns)

/-- What leaves the `finally` with a `CancelledError` ends the task. -/
theorem CleansTo.of_cancelled {conn? : Option ConnId} {place : Place}
    (hnext : CleansTo s conn? true place) : place.isLive = false ∨ place.isCancelled = true := by
  cases hnext with
  | remove _ _ => exact Or.inr rfl
  | leave _ hnext =>
      cases hnext with
      | cancelled => exact Or.inl rfl

/-- There is no way back from a `CancelledError` that is on its way out. -/
theorem isCancelled_of_resume {outcome : Outcome} (hstep : step poll s (.resume outcome) = some s')
    (hcancelled : s.place.isCancelled = true) :
    s'.place.isLive = false ∨ s'.place.isCancelled = true := by
  cases step_effect hstep with
  | @remove _ cancelled _ hplace =>
      rw [hplace] at hcancelled
      exact Or.inr hcancelled
  | @close _ cancelled _ hplace hnext =>
      rw [hplace] at hcancelled
      cases hcancelled
      cases hnext with
      | cancelled => exact Or.inl rfl
  | raise _ => exact Or.inl rfl
  | cancelCleanUp _ _ => exact Or.inl rfl
  | cancel _ _ _ hnext => exact hnext.of_cancelled
  | begin hplace _ | connect hplace | listen hplace _ | timeout hplace _ | check hplace
  | process hplace _ =>
      rw [hplace] at hcancelled
      cases hcancelled
  | fail hplace =>
      cases hlive : s.place with
      | removing _ _ | closing _ _ =>
          rw [hlive] at hplace
          cases hplace
      | _ =>
          rw [hlive] at hcancelled
          cases hcancelled
  | cleanUp hcause _ =>
      cases hcause with
      | shutdown hplace _ | heartbeat hplace | slept hplace _ =>
          rw [hplace] at hcancelled
          cases hcancelled

theorem tidy_of_run (hrun : (loop poll).Run h s) : Tidy s := by
  apply hrun.invariant_of_step (I := fun _ s => Tidy s)
  · exact fun s hinit => Or.inl hinit.2.2.2.2.1
  · exact fun h s a s' _ htidy hstep => tidy_step htidy hstep

/-- **One connection, and no silent end.** Whatever connections do and however awaits end, the
worker has no more than one connection open, and none when it makes another. Its task ends
only when it has been told to stop, when `close` raises, or when something that it awaits raises
a `CancelledError` of its own, and it leaves a connection open only if an await of the `finally`
does not return. -/
theorem one_connection (hrun : (loop poll).Run h s) :
    s.alive.length ≤ 1 ∧ (s.place = .connecting → s.alive = []) ∧
      ∀ t early late, h = late ++ t :: early → ∀ ending, t.target.place = .ended ending →
        (∀ ending, t.source.place ≠ .ended ending) → EndsFor early t ending := by
  have htidy := tidy_of_run hrun
  refine ⟨?_, fun hplace => ?_, ?_⟩
  · rcases htidy with hnil | ⟨conn, hsingle, -⟩
    · simp [hnil]
    · simp [hsingle]
  · refine htidy.alive_eq_nil ?_ ?_
    · intro ending hended
      rw [hplace] at hended
      cases hended
    · rw [hplace]
      rintro _ ⟨⟩
  · rintro t early late rfl ending hended hbefore
    obtain ⟨s', hprior⟩ := hrun.of_append
    obtain ⟨hearly, hstep, -⟩ := hprior.of_cons
    exact endsFor_of_step hearly (tidy_of_run hearly) hstep hended hbefore

end Ending

/-! ## A worker that is stopped twice -/

/-- Nothing has happened yet. -/
def newWorker : State where
  clock := 0
  shutdown := false
  cancelling := false
  attempts := 0
  made := 0
  alive := []
  place := .idle

theorem newWorker_init (poll : ℤ) : (loop poll).init newWorker := ⟨rfl, rfl, rfl, rfl, rfl, rfl⟩

/-- The first connection fails, the second one is made two seconds later. -/
def connectActions : List Action :=
  [.start, .resume .returns, .resume .raises, .tick 2000000, .resume .returns, .resume .returns,
    .resume .returns]

/-- The second `stop` meets the task in `remove_listener`, and the connection is left open. -/
theorem stopped_twice_leaves_connection :
    ∃ t early s, (loop 5000000).Run (t :: early) s ∧ s.alive = [0] ∧
      s.place = .ended .cancelled ∧ EndsFor early t .cancelled := by
  obtain ⟨h, s, hrun, hP⟩ := System.exists_run_of_play (newWorker_init 5000000)
    (connectActions ++ [.stop, .resume .cancelled, .stop, .resume .cancelled])
    (fun p => match p.1 with
      | [] => false
      | t :: _ => decide (t.target.place = .ended .cancelled ∧ t.source.place = .removing 0 true ∧
          p.2.alive = [0])) (by decide)
  cases h with
  | nil => cases hP
  | cons t early =>
      obtain ⟨hended, hsource, halive⟩ := of_decide_eq_true hP
      obtain ⟨-, -, rfl⟩ := hrun.of_cons
      refine ⟨t, early, t.target, hrun, halive, hended, ?_⟩
      refine (one_connection hrun).2.2 t early [] rfl .cancelled hended ?_
      rw [hsource]
      rintro _ ⟨⟩

end Apsis.Core.Events.Connection
