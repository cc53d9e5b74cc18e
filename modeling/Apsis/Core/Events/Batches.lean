/-
# Outbox workers in their loops

`Worker` has any number of workers on one table, and says what they do in their batches.
`Connection` has one worker, and says when its loop begins a batch. Here every worker of the
table runs in its loop: it takes steps in a batch only while its loop stands at
`_process_batch`, and what the batch ends with is what the await ends with.

Seen from the table such a run is one of `Worker`, and seen from a worker it is one of
`Connection`. So a worker has a transaction, and a lock, only while its loop is in a batch. One
that waits for its poll or for a connection, or that is done, keeps no event from the others.
-/

import Apsis.Core.Events.Progress
import Apsis.Core.Events.Reconnection
import Apsis.Library.Hosting

namespace Apsis.Core.Events.Batches

open Apsis.Library

universe u

/-! ## The system -/

variable {W : Type u}

/-- The workers on the table, and their loops. -/
abbrev State (W : Type u) := Parts (Events.State W) Connection.State W

abbrev Action (W : Type u) := Joint (Events.Action W) Connection.Action W

/-- What the last step of a batch ends it with. -/
def batchOutcome : Phase → Connection.Outcome
  | .dispatching _ _ => .raises
  | _ => .returns

variable [DecidableEq W]

/-- What the parts may do. The loop goes on by itself outside of a batch; a batch begins and goes
on without the loop, and what ends it ends the await of the loop. -/
def turn (s : State W) : Action W → Events.State W → Bool
  | .body (.publish ..), _ => true
  | .body (.run worker _), base =>
      (s.loop worker).place.isProcessing && decide (base.phase worker ≠ .polling)
  | .both worker (.run actor _) own, base =>
      decide (actor = worker) && (s.loop worker).place.isProcessing &&
        decide (base.phase worker = .polling) &&
          decide (own = .resume (batchOutcome (s.body.phase worker)))
  | .both worker (.abort actor) own, _ =>
      decide (actor = worker) && (s.loop worker).place.isProcessing &&
        decide (own = .resume .raises)
  | .both worker (.crash actor) own, _ =>
      decide (actor = worker) && (s.loop worker).place.isProcessing &&
        (decide (own = .resume .cancelled) || decide (own = .resume .strays))
  | .both worker (.start actor) own, _ => decide (actor = worker) && decide (own = .start)
  | .loop _ .stop, _ => true
  | .loop _ (.lose _), _ => true
  | .loop worker (.resume _), _ => !(s.loop worker).place.isProcessing
  | _, _ => false

def tableClock : (outbox (W := W)).Clocked where
  tick := .tick
  pass elapsed s := { s with clock := s.clock + elapsed }
  step_tick _ _ := rfl

def loopClock (poll : ℤ) : (Connection.loop poll).Clocked where
  tick := .tick
  pass elapsed s := { s with clock := s.clock + elapsed }
  step_tick _ _ := rfl

/-- New workers over an empty table, and one clock. -/
def batches (poll : ℤ) : Host (outbox (W := W)) (Connection.loop poll) W where
  bodyClock := tableClock
  loopClock := loopClock poll
  start s := ∀ worker, (s.loop worker).clock = s.body.clock
  turn := turn

/-! ## What a step does -/

/-- The worker that takes a step. -/
def actor? : Events.Action W → Option W
  | .start worker => some worker
  | .crash worker => some worker
  | .abort worker => some worker
  | .run worker _ => some worker
  | _ => none

section Steps

variable {poll : ℤ} {b b' : Events.State W} {own : Events.Action W} {worker : W}
  {loop loop' : Connection.State}

/-- A step of one worker leaves the others where they are. -/
theorem phase_of_table (hstep : Events.step b own = some b') (hactor : actor? own ≠ some worker) :
    b'.phase worker = b.phase worker := by
  have hne : ∀ {actor : W}, actor? own = some actor → worker ≠ actor := by
    rintro _ hown rfl
    exact hactor hown
  cases Events.step_effect hstep with
  | tick _ => rfl
  | publish _ _ => rfl
  | move _ _ _ _ hcause =>
      rcases hcause with rfl | ⟨_, rfl⟩ <;> exact b.enter_phase_of_ne _ _ (hne rfl)
  | rollback _ _ _ hcause =>
      rcases hcause with rfl | rfl | ⟨_, _, _, rfl, -⟩ <;>
        exact Events.State.enter_phase_of_ne _ _ _ (hne rfl)
  | lock _ _ => exact Events.State.enter_phase_of_ne _ _ _ (hne rfl)
  | flush _ _ _ => exact Events.State.enter_phase_of_ne _ _ _ (hne rfl)
  | commit _ => exact Events.State.enter_phase_of_ne _ _ _ (hne rfl)

theorem clock_of_table (hstep : Events.step b own = some b')
    (hown : ∀ elapsed, own ≠ .tick elapsed) : b'.clock = b.clock := by
  cases Events.step_effect hstep with
  | tick elapsed => exact absurd rfl (hown elapsed)
  | _ => rfl

theorem clock_of_loop {own : Connection.Action} (hstep : Connection.step poll loop own = some loop')
    (hown : ∀ elapsed, own ≠ .tick elapsed) : loop'.clock = loop.clock := by
  cases Connection.step_effect hstep with
  | tick elapsed => exact absurd rfl (hown elapsed)
  | _ => rfl

theorem polling_of_start (hstep : Events.step b (.start worker) = some b') :
    b'.phase worker = .polling := by
  simp only [Events.step, Option.ite_none_right_eq_some, Option.some.injEq] at hstep
  obtain ⟨-, rfl⟩ := hstep
  exact b.enter_phase_self _ _

theorem polling_of_abort (hstep : Events.step b (.abort worker) = some b') :
    b'.phase worker = .polling := by
  simp only [Events.step, Option.ite_none_left_eq_some, Option.some.injEq] at hstep
  obtain ⟨-, rfl⟩ := hstep
  exact Events.State.enter_phase_self _ _ _

theorem stopped_of_crash (hstep : Events.step b (.crash worker) = some b') :
    b'.phase worker = .stopped := by
  simp only [Events.step, Option.ite_none_left_eq_some, Option.some.injEq] at hstep
  obtain ⟨-, rfl⟩ := hstep
  exact Events.State.enter_phase_self _ _ _

/-- A loop whose batch raises a `CancelledError` does not go on. -/
theorem not_live_of_cancel {outcome : Connection.Outcome} (hplace : loop.place.isProcessing = true)
    (houtcome : outcome = .cancelled ∨ outcome = .strays)
    (hstep : Connection.step poll loop (.resume outcome) = some loop') :
    loop'.place.isLive = false ∨ loop'.place.isCancelled = true := by
  have hnot : outcome ≠ .returns ∧ outcome ≠ .raises := by
    rcases houtcome with rfl | rfl <;> exact ⟨by rintro ⟨⟩, by rintro ⟨⟩⟩
  cases Connection.step_effect hstep with
  | cleanUp hcause _ =>
      cases hcause with
      | shutdown _ _ | slept _ _ => exact absurd rfl hnot.1
      | heartbeat _ => exact absurd rfl hnot.2
  | remove hremoving =>
      rw [hremoving] at hplace
      cases hplace
  | cancel _ _ _ hnext => exact hnext.of_cancelled
  | cancelCleanUp _ _ => exact Or.inl rfl
  | begin _ _ | connect _ | listen _ _ | check _ | process _ _ | close _ _ =>
      exact absurd rfl hnot.1
  | timeout _ _ | fail _ | raise _ => exact absurd rfl hnot.2

/-- Whatever a batch ends with, the loop does, too. -/
theorem exists_resume_of_processing (hplace : loop.place.isProcessing = true)
    {outcome : Connection.Outcome} (hnot : outcome ≠ .cancelled) :
    ∃ loop', Connection.step poll loop (.resume outcome) = some loop' := by
  cases hprocessing : loop.place with
  | processing conn =>
      cases outcome with
      | returns =>
          simp only [Connection.step, hprocessing]
          exact ⟨_, rfl⟩
      | raises =>
          simp only [Connection.step, hprocessing]
          exact ⟨_, rfl⟩
      | strays =>
          simp only [Connection.step, hprocessing]
          exact ⟨_, rfl⟩
      | cancelled => exact absurd rfl hnot
  | _ =>
      rw [hprocessing] at hplace
      cases hplace

end Steps

theorem batchOutcome_ne (phase : Phase) : batchOutcome phase ≠ .cancelled := by
  cases phase <;> rintro ⟨⟩

/-! ## Batches and loops -/

/-- The invariant: a worker is in a batch only where its loop is. -/
structure InStep (worker : W) (base : Events.State W) (loop : Connection.State) : Prop where
  idle : loop.place.isProcessing = false →
    base.phase worker = .polling ∨ base.phase worker = .stopped
  /-- The table takes a worker for stopped when its batch has been cancelled, at the earliest. -/
  started : loop.place.isLive = true → loop.place.isCancelled = false →
    base.phase worker ≠ .stopped
  clock : loop.clock = base.clock

section InStep

variable {poll : ℤ} {worker : W} {base base' : Events.State W} {loop loop' : Connection.State}
  {own : Events.Action W}

/-- A step of another worker, or one of the table. -/
theorem InStep.of_table (hinv : InStep worker base loop)
    (hstep : Events.step base own = some base') (hactor : actor? own ≠ some worker)
    (hown : ∀ elapsed, own ≠ .tick elapsed) : InStep worker base' loop := by
  have hphase := phase_of_table hstep hactor
  constructor
  · exact fun hplace => hphase ▸ hinv.idle hplace
  · exact fun hlive hnot => hphase ▸ hinv.started hlive hnot
  · exact hinv.clock.trans (clock_of_table hstep hown).symm

omit [DecidableEq W] in
/-- The worker is between two batches. -/
theorem InStep.of_polling (hphase : base.phase worker = .polling)
    (hclock : loop.clock = base.clock) : InStep worker base loop := by
  refine ⟨fun _ => Or.inl hphase, fun _ _ => ?_, hclock⟩
  rw [hphase]
  rintro ⟨⟩

omit [DecidableEq W] in
/-- A step of the loop on its own. -/
theorem InStep.of_loop (hinv : InStep worker base loop) {a : Connection.Action}
    (hstep : Connection.step poll loop a = some loop')
    (hturn : (∃ outcome, a = .resume outcome ∧ loop.place.isProcessing = false) ∨ a = .stop ∨
      ∃ conn, a = .lose conn) : InStep worker base loop' := by
  have hclock : loop'.clock = base.clock := by
    refine (clock_of_loop hstep ?_).trans hinv.clock
    rcases hturn with ⟨_, rfl, -⟩ | rfl | ⟨_, rfl⟩ <;> rintro _ ⟨⟩
  rcases hturn with ⟨outcome, rfl, hplace⟩ | rfl | ⟨conn, rfl⟩
  · refine ⟨fun _ => hinv.idle hplace, fun hlive hnot => ?_, hclock⟩
    refine hinv.started (Connection.of_resume hstep).1 (Bool.eq_false_iff.mpr fun hcancelled => ?_)
    rcases Connection.isCancelled_of_resume hstep hcancelled with hdead | hstill
    · cases hdead.symm.trans hlive
    · cases hstill.symm.trans hnot
  · cases hstep
    exact ⟨hinv.idle, hinv.started, hclock⟩
  · simp only [Connection.step, Option.ite_none_right_eq_some, Option.some.injEq] at hstep
    obtain ⟨-, rfl⟩ := hstep
    exact ⟨hinv.idle, hinv.started, hclock⟩

theorem keeps_inStep (poll : ℤ) : (batches (W := W) poll).Keeps InStep := by
  constructor
  · rintro s worker ⟨⟨-, -, hstopped⟩, hloops, hclock⟩
    obtain ⟨-, -, -, -, -, hidle⟩ := hloops worker
    refine ⟨fun _ => Or.inr (hstopped worker), fun hlive => ?_, hclock worker⟩
    rw [hidle] at hlive
    cases hlive
  · intro worker base loop elapsed hinv
    exact ⟨hinv.idle, hinv.started, congrArg (· + (elapsed : ℤ)) hinv.clock⟩
  · intro s own base worker hinv hstep hturn
    have htable : Events.step s.body own = some base := hstep
    cases own with
    | publish id maxRetries now eventType payload aggregateId =>
        exact hinv.of_table htable (by rintro ⟨⟩) (by rintro _ ⟨⟩)
    | run actor choice =>
        by_cases hactor : actor = worker
        · subst hactor
          simp only [batches, turn, Bool.and_eq_true] at hturn
          refine ⟨fun hnot => ?_, fun _ _ => ne_stopped_of_runStep htable, ?_⟩
          · cases hturn.1.symm.trans hnot
          · exact hinv.clock.trans (clock_of_table htable (by rintro _ ⟨⟩)).symm
        · exact hinv.of_table htable (fun hsame => hactor (Option.some.inj hsame)) (by rintro _ ⟨⟩)
    | _ => cases hturn
  · intro s own loop worker hinv hstep hturn
    refine hinv.of_loop hstep ?_
    cases own with
    | resume outcome =>
        simp only [batches, turn, Bool.not_eq_true'] at hturn
        exact Or.inl ⟨outcome, rfl, hturn⟩
    | stop => exact Or.inr (Or.inl rfl)
    | lose conn => exact Or.inr (Or.inr ⟨conn, rfl⟩)
    | _ => cases hturn
  · intro s own a base loop worker hinv hstep hloop hturn
    have hclock : (∀ elapsed, own ≠ .tick elapsed) → (∀ elapsed, a ≠ .tick elapsed) →
        loop.clock = base.clock := by
      intro hown ha
      rw [clock_of_loop hloop ha, clock_of_table hstep hown, hinv.clock]
    cases own with
    | tick _ => cases hturn
    | publish _ _ _ _ _ _ => cases hturn
    | start actor =>
        simp only [batches, turn, Bool.and_eq_true, decide_eq_true_eq] at hturn
        obtain ⟨rfl, rfl⟩ := hturn
        exact .of_polling (polling_of_start hstep) (hclock (by rintro _ ⟨⟩) (by rintro _ ⟨⟩))
    | crash actor =>
        simp only [batches, turn, Bool.and_eq_true, Bool.or_eq_true, decide_eq_true_eq] at hturn
        obtain ⟨⟨rfl, hplace⟩, hown⟩ := hturn
        obtain ⟨outcome, rfl, houtcome⟩ : ∃ outcome, a = .resume outcome ∧
            (outcome = .cancelled ∨ outcome = .strays) := by
          rcases hown with rfl | rfl
          · exact ⟨.cancelled, rfl, Or.inl rfl⟩
          · exact ⟨.strays, rfl, Or.inr rfl⟩
        refine ⟨fun _ => Or.inr (stopped_of_crash hstep), fun hlive hnot => ?_,
          hclock (by rintro _ ⟨⟩) (by rintro _ ⟨⟩)⟩
        have hcancel : Connection.step poll (s.loop actor) (.resume outcome) = some loop := hloop
        rcases not_live_of_cancel hplace houtcome hcancel with hdead | hcancelled
        · cases hdead.symm.trans hlive
        · cases hcancelled.symm.trans hnot
    | abort actor =>
        simp only [batches, turn, Bool.and_eq_true, decide_eq_true_eq] at hturn
        obtain ⟨⟨rfl, -⟩, rfl⟩ := hturn
        exact .of_polling (polling_of_abort hstep) (hclock (by rintro _ ⟨⟩) (by rintro _ ⟨⟩))
    | run actor choice =>
        simp only [batches, turn, Bool.and_eq_true, decide_eq_true_eq] at hturn
        obtain ⟨⟨⟨rfl, -⟩, hphase⟩, rfl⟩ := hturn
        exact .of_polling hphase (hclock (by rintro _ ⟨⟩) (by rintro _ ⟨⟩))
  · intro s actor own a base worker hinv hstep hturn hne
    refine hinv.of_table hstep ?_ ?_
    · cases own with
      | tick _ => cases hturn
      | publish _ _ _ _ _ _ => cases hturn
      | start other | crash other | abort other | run other _ =>
          simp only [batches, turn, Bool.and_eq_true, decide_eq_true_eq, and_assoc] at hturn
          obtain ⟨rfl, -⟩ := hturn
          exact fun hsame => hne (Option.some.inj hsame).symm
    · rintro elapsed rfl
      cases hturn

omit [DecidableEq W] in
/-- Only a worker in a batch has a transaction. -/
theorem InStep.isProcessing (hinv : InStep worker base loop) {event : OutboxEvent}
    (hevent : (base.phase worker).event? = some event) : loop.place.isProcessing = true := by
  rw [← Bool.not_eq_false]
  intro hplace
  rcases hinv.idle hplace with hphase | hphase
  · rw [hphase] at hevent
    cases hevent
  · rw [hphase] at hevent
    cases hevent

omit [DecidableEq W] in
theorem InStep.ne_stopped (hinv : InStep worker base loop)
    (hplace : loop.place.isProcessing = true) : base.phase worker ≠ .stopped := by
  cases hprocessing : loop.place with
  | processing conn => exact hinv.started (by rw [hprocessing]; rfl) (by rw [hprocessing]; rfl)
  | _ =>
      rw [hprocessing] at hplace
      cases hplace

end InStep

variable {poll : ℤ} {h : History (State W) (Action W)} {s : State W}

/-- A batch that has begun can go on. -/
theorem exists_step_of_processing {worker : W} (hinv : InStep worker s.body (s.loop worker))
    (hplace : (s.loop worker).place.isProcessing = true) : ∃ choice s',
      (batches poll).step s (.body (.run worker choice)) = some s' ∨
        ∃ own, (batches poll).step s (.both worker (.run worker choice) own) = some s' := by
  obtain ⟨choice, base, hbase⟩ := exists_runStep s.body (hinv.ne_stopped hplace)
  have hstep : (outbox (W := W)).step s.body (.run worker choice) = some base := hbase
  by_cases hphase : base.phase worker = .polling
  · have hresume : ∃ loop, (Connection.loop poll).step (s.loop worker)
        (.resume (batchOutcome (s.body.phase worker))) = some loop :=
      exists_resume_of_processing hplace (batchOutcome_ne (s.body.phase worker))
    obtain ⟨loop, hown⟩ := hresume
    refine ⟨choice, { body := base, loop := Function.update s.loop worker loop },
      Or.inr ⟨.resume (batchOutcome (s.body.phase worker)), ?_⟩⟩
    simp only [Host.step, hstep, hown, Option.bind_some, Option.map_some]
    exact if_pos (by simp [batches, turn, hplace, hphase])
  · refine ⟨choice, { s with body := base }, Or.inl ?_⟩
    simp only [Host.step, hstep, Option.bind_some]
    exact if_pos (by simp [batches, turn, hplace, hphase])

/-- A run of workers in their loops. -/
structure Hosted (poll : ℤ) (h : History (State W) (Action W)) (s : State W) : Prop where
  /-- Seen from the table, it is a run of workers that have no loops. -/
  table : outbox.Run (h.view Parts.body (batches poll).bodyView) s.body
  /-- Seen from a worker, it is a run of its loop. -/
  loop : ∀ worker, (Connection.loop poll).Run
    (h.view (fun s => s.loop worker) ((batches poll).loopView worker)) (s.loop worker)
  /-- There is one clock. -/
  clock : ∀ worker, (s.loop worker).clock = s.body.clock
  /-- A worker holds a lock only while its loop is in a batch. -/
  locked : ∀ id worker, s.body.locks id = some worker →
    (s.loop worker).place.isProcessing = true
  /-- Where a loop is in a batch, the batch can go on, and end if it is at its end. -/
  goesOn : ∀ worker, (s.loop worker).place.isProcessing = true → ∃ choice s',
    (batches poll).step s (.body (.run worker choice)) = some s' ∨
      ∃ own, (batches poll).step s (.both worker (.run worker choice) own) = some s'

/-- **Workers keep nothing outside of their batches.** What holds of the table under workers
without loops holds under workers with loops, and what holds of a loop holds of every worker's.
Whatever goes wrong in a loop or in its batches, a worker holds locks only in a batch. -/
theorem hosted_of_run (hrun : (batches poll).system.Run h s) : Hosted poll h s := by
  have hinv := (keeps_inStep poll).of_run hrun
  refine ⟨Host.body_run hrun, Host.loop_run hrun, fun worker => (hinv worker).clock, ?_,
    fun worker hplace => exists_step_of_processing (hinv worker) hplace⟩
  intro id worker hlock
  obtain ⟨event, hevent, -⟩ := (locksHeld_of_run (Host.body_run hrun)).owned id worker hlock
  exact (hinv worker).isProcessing hevent

/-! ## A worker with a lock -/

/-- Two new workers over an empty table. -/
def newWorkers : State (Fin 2) where
  body := idleWorkers
  loop _ := Connection.newWorker

theorem newWorkers_init : (batches 5000000).system.init newWorkers :=
  ⟨⟨rfl, fun _ => rfl, fun _ => rfl⟩, fun _ => Connection.newWorker_init _, fun _ => rfl⟩

/-- Worker 0 connects, waits for its poll, and locks the event that has been published. -/
def lockingActions : List (Action (Fin 2)) :=
  [.body (.publish 3 8 0 "tle.refreshed".toList [] none), .both 0 (.start 0) .start,
    .loop 0 (.resume .returns), .loop 0 (.resume .returns), .loop 0 (.resume .returns),
    .tick 5000000, .loop 0 (.resume .raises), .loop 0 (.resume .returns)] ++
  ((lockActions 0 (publish 3 8 0 "tle.refreshed".toList [] none)).drop 1).map .body

/-- The worker with the lock is in its batch. -/
theorem locking_worker_processes :
    ∃ h, ∃ s : State (Fin 2), (batches 5000000).system.Run h s ∧ s.body.locks 3 = some 0 ∧
      (s.loop 0).place.isProcessing = true := by
  obtain ⟨h, s, hrun, hP⟩ := System.exists_run_of_play newWorkers_init lockingActions
    (fun p => decide (p.2.body.locks 3 = some 0)) (by decide)
  have hlock := of_decide_eq_true hP
  exact ⟨h, s, hrun, hlock, (hosted_of_run hrun).locked 3 0 hlock⟩

end Apsis.Core.Events.Batches
