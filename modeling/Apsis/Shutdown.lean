/-
# The end of a shutdown

Stopping a worker sets its event before it cancels its task. That matters where the task does
not notice the `CancelledError`: what a pass or a batch raises may take its place, and is logged
as a failure. The loop goes on then, but only to its next test of the event.

So whatever the awaits end with, the tasks of the workers have a bounded number of them left
once they have been told, and the task of `lifespan`, which waits for the one and then for the
other, comes to its end. It may take a minute: the sleep before the outbox worker connects again
does not look at the event.
-/

import Apsis.Main

namespace Apsis.Main

open Apsis.Core Apsis.Library
open Apsis.Core.Events Apsis.Core.Jobs
open Apsis.Core.Events.Connection (Ending)

variable {config : Config} {h : History State Action} {s s' : State} {a : Action}

/-! ## What is left of a shutdown -/

/-- The application is being shut down. -/
def Place.isStopping : Place → Bool
  | .stoppingJobs => true
  | .stoppingOutbox => true
  | .disposing => true
  | _ => false

/-- An await ends that the shutdown waits for, or will. -/
def ends (t : Transition State Action) : Bool :=
  match t.action with
  | .main _ => true
  | .jobs _ => true
  | .outbox _ => t.source.outbox.shutdown
  | _ => false

/-- The awaits left to the task of `lifespan`, in a shutdown. -/
def Place.awaitsLeft : Place → ℕ
  | .stoppingJobs => 3
  | .stoppingOutbox => 2
  | .disposing => 1
  | _ => 0

/-- The awaits left to the job worker that has been told to stop. -/
def jobsLeft : Loop.Place → ℕ
  | .recovering => 3
  | .processing => 2
  | .waiting _ => 1
  | .created => 1
  | .idle => 0
  | .ended _ => 0

/-- The awaits left to the outbox worker that has been told to stop. -/
def outboxLeft : Connection.Place → ℕ
  | .waiting _ _ => 6
  | .connecting => 5
  | .checking _ => 5
  | .listening _ => 4
  | .processing _ => 4
  | .sleeping _ _ => 3
  | .removing _ _ => 2
  | .closing _ _ => 1
  | .created => 1
  | .idle => 0
  | .ended _ => 0

/-- The awaits left to the outbox worker in a shutdown. -/
def awaitsOf (outbox : Connection.State) : ℕ :=
  if outbox.shutdown then outboxLeft outbox.place else 6

/-- The awaits left in a shutdown. -/
def State.awaitsLeft (s : State) : ℕ :=
  s.place.awaitsLeft + jobsLeft s.jobs.place + awaitsOf s.outbox

theorem outboxLeft_le (place : Connection.Place) : outboxLeft place ≤ 6 := by
  cases place <;> simp [outboxLeft]

theorem jobsLeft_le (place : Loop.Place) : jobsLeft place ≤ 3 := by
  cases place <;> simp [jobsLeft]

theorem awaitsOf_le (outbox : Connection.State) : awaitsOf outbox ≤ 6 := by
  unfold awaitsOf
  split
  · exact outboxLeft_le _
  · exact le_rfl

theorem State.awaitsLeft_le (s : State) : s.awaitsLeft ≤ 12 := by
  have hmain : s.place.awaitsLeft ≤ 3 := by
    cases s.place <;> simp [Place.awaitsLeft]
  have hjobs := jobsLeft_le s.jobs.place
  have houtbox := awaitsOf_le s.outbox
  unfold awaitsLeft
  omega

/-- The worker that has been told to stop does not make another pass. -/
theorem jobsLeft_step {poll : ℤ} {jobs jobs' : Loop.State} {outcome : Connection.Outcome}
    (hshutdown : jobs.shutdown = true)
    (hstep : Loop.step poll jobs (.resume outcome) = some jobs') :
    jobsLeft jobs'.place < jobsLeft jobs.place := by
  cases Loop.step_effect hstep with
  | again _ hnot => cases hshutdown.symm.trans hnot
  | process hplace =>
      rw [hplace]
      exact Nat.lt_add_one 2
  | leave hlive _ _ | cancel _ hlive =>
      cases hplace : jobs.place with
      | idle | ended _ =>
          rw [hplace] at hlive
          cases hlive
      | _ => simp [jobsLeft]
  | await hpass =>
      cases hplace : jobs.place with
      | recovering | processing => simp [jobsLeft]
      | _ =>
          rw [hplace] at hpass
          cases hpass

theorem outboxLeft_of_leavesTo {outbox : Connection.State} {cancelled : Bool}
    {place : Connection.Place} (hshutdown : outbox.shutdown = true)
    (hnext : Connection.LeavesTo outbox cancelled place) : outboxLeft place = 0 := by
  cases hnext with
  | cancelled | returned _ => rfl
  | again hnot => cases hshutdown.symm.trans hnot

theorem outboxLeft_of_cleansTo {outbox : Connection.State} {conn? : Option Connection.ConnId}
    {cancelled : Bool} {place : Connection.Place} (hshutdown : outbox.shutdown = true)
    (hnext : Connection.CleansTo outbox conn? cancelled place) :
    outboxLeft place ≤ if conn? = none then 0 else 2 := by
  cases hnext with
  | remove hconn _ => simp [hconn, outboxLeft]
  | leave _ hnext => simp [outboxLeft_of_leavesTo hshutdown hnext]

theorem outboxLeft_of_awaitsTo {poll : ℤ} {outbox : Connection.State} {conn : Connection.ConnId}
    {place : Connection.Place} (hshutdown : outbox.shutdown = true)
    (hnext : Connection.AwaitsTo poll outbox conn place) : outboxLeft place ≤ 2 := by
  cases hnext with
  | wait hnot => cases hshutdown.symm.trans hnot
  | cleanUp _ hnext => exact outboxLeft_of_cleansTo hshutdown hnext

/-- Outside the `finally`, the awaits of the `finally` are still to come. -/
theorem lt_outboxLeft {place : Connection.Place} (hlive : place.isLive = true)
    (hnot : place.isCleanUp = false) :
    (if place.conn? = none then 0 else 2) < outboxLeft place := by
  cases place with
  | idle | ended _ => cases hlive
  | removing _ _ | closing _ _ => cases hnot
  | sleeping conn? _ => cases conn? <;> simp [outboxLeft, Connection.Place.conn?]
  | _ => simp [outboxLeft, Connection.Place.conn?]

/-- The worker that has been told to stop does not connect again. -/
theorem outboxLeft_step {poll : ℤ} {outbox outbox' : Connection.State}
    {outcome : Connection.Outcome} (hshutdown : outbox.shutdown = true)
    (hstep : Connection.step poll outbox (.resume outcome) = some outbox') :
    outboxLeft outbox'.place < outboxLeft outbox.place := by
  cases Connection.step_effect hstep with
  | begin hplace hnext =>
      rw [hplace]
      exact (outboxLeft_of_leavesTo hshutdown hnext).trans_lt (by decide)
  | connect hplace | timeout hplace _ | check hplace | remove hplace | raise hplace =>
      rw [hplace]
      simp [outboxLeft]
  | listen hplace hnext =>
      rw [hplace]
      refine (outboxLeft_of_awaitsTo ?_ hnext).trans_lt (by simp [outboxLeft])
      exact hshutdown
  | process hplace hnext =>
      rw [hplace]
      exact (outboxLeft_of_awaitsTo hshutdown hnext).trans_lt (by simp [outboxLeft])
  | fail hplace =>
      cases hsource : outbox.place with
      | connecting | listening _ | processing _ => simp [outboxLeft]
      | _ =>
          rw [hsource] at hplace
          cases hplace
  | cleanUp hcause hnext =>
      refine (outboxLeft_of_cleansTo hshutdown hnext).trans_lt (lt_outboxLeft ?_ ?_)
      · exact (Connection.of_resume hstep).1
      · cases hcause with
        | shutdown hplace _ | heartbeat hplace | slept hplace _ => rw [hplace]; rfl
  | close hplace hnext =>
      rw [hplace]
      refine (outboxLeft_of_leavesTo ?_ hnext).trans_lt (by simp [outboxLeft])
      exact hshutdown
  | cancel _ hlive hnot hnext =>
      refine (outboxLeft_of_cleansTo ?_ hnext).trans_lt (lt_outboxLeft hlive hnot)
      exact hshutdown
  | cancelCleanUp _ hplace =>
      cases hsource : outbox.place with
      | removing _ _ | closing _ _ => simp [outboxLeft]
      | _ =>
          rw [hsource] at hplace
          cases hplace

theorem awaitsOf_tellOutbox (s : State) :
    awaitsOf s.tellOutbox.outbox ≤ awaitsOf s.outbox := by
  show outboxLeft s.outbox.place ≤ awaitsOf s.outbox
  unfold awaitsOf
  split
  · exact le_rfl
  · exact outboxLeft_le _

theorem awaitsLeft_stopOutbox (s : State) :
    s.stopOutbox.awaitsLeft ≤ 2 + jobsLeft s.jobs.place + awaitsOf s.outbox := by
  have houtbox := awaitsOf_tellOutbox s
  unfold State.stopOutbox
  split
  · show 2 + jobsLeft s.jobs.place + awaitsOf s.tellOutbox.outbox ≤ _
    omega
  · show 1 + jobsLeft s.jobs.place + awaitsOf s.tellOutbox.outbox ≤ _
    omega

/-- The shutdown has begun, and the job worker has been told. -/
structure Stopping (s : State) : Prop where
  place : s.place.isStopping = true ∨ ∃ ending, s.place = .ended ending
  jobs : s.jobs.place.isLive = true → s.jobs.shutdown = true

theorem Stopping.ne (hstopping : Stopping s) :
    s.place ≠ .idle ∧ s.place ≠ .checking ∧ s.place ≠ .serving := by
  rcases hstopping.place with hplace | ⟨ending, hplace⟩
  · refine ⟨?_, ?_, ?_⟩ <;>
      · intro hother
        rw [hother] at hplace
        cases hplace
  · rw [hplace]
    exact ⟨by rintro ⟨⟩, by rintro ⟨⟩, by rintro ⟨⟩⟩

theorem isStopping_stopOutbox (s : State) : s.stopOutbox.place.isStopping = true := by
  unfold State.stopOutbox
  split <;> rfl

/-- Whatever an await ends with, it leads to the end of the shutdown. -/
theorem approaches_end (config : Config) : (application config).Approaches (fun _ => False)
    (fun _ => True) ends Stopping State.awaitsLeft := by
  intro s a s' hstopping hstep _
  refine Or.inr ?_
  obtain ⟨hidle, hchecking, hserving⟩ := hstopping.ne
  cases step_effect hstep with
  | startup _ hplace => exact absurd hplace hidle
  | refuse hplace _ => exact absurd hplace hidle
  | available hplace _ _ => exact absurd hplace hchecking
  | unavailable hplace => exact absurd hplace hchecking
  | stopJobs hplace => exact absurd hplace hserving
  | tick _ => exact ⟨⟨hstopping.place, hstopping.jobs⟩, le_rfl⟩
  | lose _ => exact ⟨⟨hstopping.place, hstopping.jobs⟩, le_rfl⟩
  | @outbox _ outbox' hown =>
      refine ⟨⟨hstopping.place, hstopping.jobs⟩, ?_⟩
      obtain ⟨-, hshutdown, -⟩ := Connection.of_resume hown
      have hleft : awaitsOf outbox' + (if s.outbox.shutdown then 1 else 0) ≤ awaitsOf s.outbox := by
        unfold awaitsOf
        rw [hshutdown]
        split
        · next hset => exact outboxLeft_step hset hown
        · exact le_rfl
      show s.place.awaitsLeft + jobsLeft s.jobs.place + awaitsOf outbox' +
        (if s.outbox.shutdown then 1 else 0) ≤ s.awaitsLeft
      unfold State.awaitsLeft
      omega
  | @jobs _ jobs' hown =>
      obtain ⟨hlive, hshutdown, -⟩ := Loop.of_resume hown
      have hset := hstopping.jobs hlive
      refine ⟨⟨hstopping.place, fun _ => hshutdown.trans hset⟩, ?_⟩
      have hleft := jobsLeft_step hset hown
      show s.place.awaitsLeft + jobsLeft jobs'.place + awaitsOf s.outbox + 1 ≤
        s.place.awaitsLeft + jobsLeft s.jobs.place + awaitsOf s.outbox
      omega
  | leave hplace _ _ =>
      refine ⟨⟨Or.inr ⟨_, rfl⟩, hstopping.jobs⟩, ?_⟩
      rcases hplace with ⟨hplace, -⟩ | hplace | hplace
      · exact absurd hplace hchecking
      · exact absurd hplace hserving
      · show 0 + jobsLeft s.jobs.place + awaitsOf s.outbox + 1 ≤ s.awaitsLeft
        simp only [State.awaitsLeft, hplace, Place.awaitsLeft]
        omega
  | stopOutbox hplace hended _ =>
      refine ⟨⟨Or.inl (isStopping_stopOutbox s), ?_⟩, ?_⟩
      · rw [State.stopOutbox_jobs]
        exact hstopping.jobs
      · have hleft := awaitsLeft_stopOutbox s
        show s.stopOutbox.awaitsLeft + 1 ≤ s.place.awaitsLeft + _ + _
        rw [hplace]
        show _ ≤ 3 + _ + _
        omega
  | dispose hplace _ =>
      refine ⟨⟨Or.inl rfl, hstopping.jobs⟩, ?_⟩
      show 1 + jobsLeft s.jobs.place + awaitsOf s.outbox + 1 ≤ s.awaitsLeft
      simp only [State.awaitsLeft, hplace, Place.awaitsLeft]
      omega
  | fail hplace =>
      refine ⟨⟨Or.inr ⟨_, rfl⟩, hstopping.jobs⟩, ?_⟩
      show 0 + jobsLeft s.jobs.place + awaitsOf s.outbox + 1 ≤ s.awaitsLeft
      rcases hplace with ⟨hplace, -⟩ | ⟨hplace, -⟩
      · simp only [State.awaitsLeft, hplace, Place.awaitsLeft]
        omega
      · simp only [State.awaitsLeft, hplace, Place.awaitsLeft]
        omega
  | finish hplace =>
      refine ⟨⟨Or.inr ⟨_, rfl⟩, hstopping.jobs⟩, ?_⟩
      show 0 + jobsLeft s.jobs.place + awaitsOf s.outbox + 1 ≤ s.awaitsLeft
      simp only [State.awaitsLeft, hplace, Place.awaitsLeft]
      omega
  | cancelJobs hplace => exact ⟨⟨hstopping.place, fun _ => rfl⟩, le_rfl⟩
  | cancelOutbox hplace =>
      refine ⟨⟨hstopping.place, hstopping.jobs⟩, ?_⟩
      have hleft := awaitsOf_tellOutbox s
      show s.place.awaitsLeft + jobsLeft s.jobs.place + awaitsOf s.tellOutbox.outbox ≤ s.awaitsLeft
      unfold State.awaitsLeft
      omega

theorem Orderly.stopping (horderly : Orderly s) (hplace : s.place.isStopping = true) :
    Stopping s := by
  refine ⟨Or.inl hplace, fun hlive => ?_⟩
  cases hstopping : s.place with
  | stoppingJobs => exact (horderly.stoppingJobs hstopping).1
  | stoppingOutbox =>
      rw [(horderly.stoppingOutbox hstopping).1] at hlive
      cases hlive
  | disposing =>
      rw [(horderly.unready (horderly.disposed (Or.inl hstopping))).1] at hlive
      cases hlive
  | _ =>
      rw [hstopping] at hplace
      cases hplace

/-- It is not a `CancelledError` that a worker gets. -/
def Action.isCalm : Action → Bool
  | .outbox .cancelled => false
  | .outbox .strays => false
  | .jobs .cancelled => false
  | .jobs .strays => false
  | _ => true

/-- An await that the shutdown waits for can end in this state. -/
def CanEnd (config : Config) (s : State) : Prop :=
  ∃ a s', step config s a = some s' ∧ ends ⟨s, a, s'⟩ = true ∧ a.isCalm = true

theorem canEnd_of_jobs_ended {ending : Ending} (hended : s.jobs.place = .ended ending)
    (hplace : s.place = .stoppingJobs) : CanEnd config s := by
  cases ending with
  | returned =>
      exact ⟨.main .returns, s.stopOutbox, by simp [step, mainStep, hplace, hended, passes], rfl,
        rfl⟩
  | cancelled =>
      exact ⟨.main .cancelled, s.stopOutbox, by simp [step, mainStep, hplace, hended, passes], rfl,
        rfl⟩
  | raised =>
      exact ⟨.main .raises, { s with place := .ended .raised },
        by simp [step, mainStep, hplace, hended, passes], rfl, rfl⟩

theorem canEnd_of_outbox_ended {ending : Ending} (hended : s.outbox.place = .ended ending)
    (hplace : s.place = .stoppingOutbox) : CanEnd config s := by
  cases ending with
  | returned =>
      exact ⟨.main .returns, s.dispose, by simp [step, mainStep, hplace, hended, passes], rfl, rfl⟩
  | cancelled =>
      exact ⟨.main .cancelled, s.dispose, by simp [step, mainStep, hplace, hended, passes], rfl,
        rfl⟩
  | raised =>
      exact ⟨.main .raises, { s with place := .ended .raised },
        by simp [step, mainStep, hplace, hended, passes], rfl, rfl⟩

/-- As long as the shutdown has not come to its end, an await can end when the deadlines have
come. -/
theorem canEnd_after (hrun : (application config).Run h s) (hplace : s.place.isStopping = true)
    {elapsed : ℕ} (hlong : max (max config.outboxPoll config.jobPoll) (timedelta 60) ≤ elapsed) :
    CanEnd config (s.after elapsed) := by
  have horderly := orderly_of_run hrun
  cases hstopping : s.place with
  | stoppingJobs =>
      by_cases hlive : s.jobs.place.isLive = true
      · have hpoll : config.jobPoll ≤ elapsed := by lia
        obtain ⟨outcome, next, hcalm, hstep⟩ :=
          Loop.exists_resume hlive (Loop.waitsShortly_of_run (jobs_run hrun)) hpoll
        refine ⟨.jobs outcome, { s.after elapsed with jobs := next }, ?_, rfl, ?_⟩
        · exact congrArg (Option.map _) hstep
        · cases outcome with
          | cancelled => exact absurd rfl hcalm.1
          | strays => exact absurd rfl hcalm.2
          | _ => rfl
      · cases hended : s.jobs.place with
        | idle => exact absurd hended (horderly.stoppingJobs hstopping).2
        | ended ending => exact canEnd_of_jobs_ended (s := s.after elapsed) hended hstopping
        | _ => exact absurd (by rw [hended]; rfl) hlive
  | stoppingOutbox =>
      by_cases hlive : s.outbox.place.isLive = true
      · have hpoll : max config.outboxPoll (timedelta 60) ≤ elapsed := by lia
        obtain ⟨outcome, next, hstep, hwell⟩ :=
          Connection.exists_resume hlive (Connection.waitsShortly_of_run (outbox_run hrun)) hpoll
        refine ⟨.outbox outcome, { s.after elapsed with outbox := next }, ?_, ?_, ?_⟩
        · exact congrArg (Option.map _) hstep
        · exact (horderly.stoppingOutbox hstopping).2.1
        · cases outcome with
          | cancelled | strays => cases hwell
          | _ => rfl
      · cases hended : s.outbox.place with
        | idle => exact absurd hended (horderly.stoppingOutbox hstopping).2.2
        | ended ending => exact canEnd_of_outbox_ended (s := s.after elapsed) hended hstopping
        | _ => exact absurd (by rw [hended]; rfl) hlive
  | disposing =>
      refine ⟨.main .returns, { s.after elapsed with place := .ended .returned }, ?_, rfl, rfl⟩
      show mainStep config (s.after elapsed) s.place .returns = _
      rw [hstopping]
      rfl
  | _ =>
      rw [hstopping] at hplace
      cases hplace

/-- **A shutdown comes to its end.** Whatever the awaits end with that it waits for, there are
no more than twelve. As long as it has not come to its end, one of them can end within a minute
or a poll, without a `CancelledError` getting to a worker. -/
theorem shutdown_ends (hrun : (application config).Run h s) (hplace : s.place.isStopping = true)
    {late : History State Action} {s' : State}
    (hlate : ((application config).startingIn s).Run late s') :
    late.countP ends ≤ 12 ∧ ((∃ ending, s'.place = .ended ending) ∨
      ∀ elapsed : ℕ, max (max config.outboxPoll config.jobPoll) (timedelta 60) ≤ elapsed →
        CanEnd config (s'.after elapsed)) := by
  have hstopping := (orderly_of_run hrun).stopping hplace
  obtain ⟨hafter, hspent⟩ := (approaches_end config).of_run hstopping hlate
    (fun _ _ => trivial) (fun _ _ => id)
  have hleft := s.awaitsLeft_le
  refine ⟨by omega, ?_⟩
  rcases hafter.place with hplace' | hended
  · exact Or.inr fun elapsed hlong => canEnd_after (hrun.append hlate) hplace' hlong
  · exact Or.inl hended

/-- The job worker waits for its poll, although it is being stopped. -/
def waitsOn (p : History State Action × State) : Bool :=
  decide (p.2.place = .stoppingJobs ∧ p.2.jobs.place = .waiting 5000000)

/-- The `CancelledError` gets to the job worker in a pass that raises something else, and the
worker waits for its poll. The shutdown goes on all the same within a minute. -/
theorem begun_shutdown_goes_on :
    ∃ h s, (application defaults).Run h s ∧ s.place = .stoppingJobs ∧ s.jobs.cancelling = true ∧
      ∃ late s', ((application defaults).startingIn s).Run late s' ∧
        s'.jobs.place = .waiting 5000000 ∧ late.countP ends ≤ 12 ∧
        ∀ elapsed : ℕ, timedelta 60 ≤ elapsed → CanEnd defaults (s'.after elapsed) := by
  obtain ⟨h, s, hrun, hP⟩ := System.exists_run_of_play (newApplication_init defaults)
    (shutdownActions.take 6)
    (fun p => decide (p.2.place = .stoppingJobs ∧ p.2.jobs.cancelling = true) &&
      (((application defaults).startingIn p.2).play ([], p.2) [.jobs .raises]).any waitsOn)
    (by decide)
  rw [Bool.and_eq_true, decide_eq_true_eq] at hP
  obtain ⟨⟨hplace, hcancelling⟩, hplay⟩ := hP
  obtain ⟨late, s', hlate, hP⟩ := System.exists_run_of_play
    (M := (application defaults).startingIn s) rfl [.jobs .raises] waitsOn hplay
  obtain ⟨hplace', hwaiting⟩ := of_decide_eq_true hP
  obtain ⟨hcount, ⟨ending, hended⟩ | hgoes⟩ := shutdown_ends hrun (by rw [hplace]; rfl) hlate
  · cases hplace'.symm.trans hended
  · exact ⟨h, s, hrun, hplace, hcancelling, late, s', hlate, hwaiting, hcount, hgoes⟩

end Apsis.Main
