/-
# The application and its workers

`lifespan` checks the database, starts the two workers if it is there, and stops them when the
server shuts down: first the job worker, then the outbox worker, and only then the connection
pool of the engine. Stopping a worker means to set its event, to cancel its task, and to wait
until the task is done.

The system has three tasks, those of `lifespan` and of the two workers. As in `Connection` and
in `Loop`, one step leads a task from one await to the next, and between two steps anything may
happen. The steps of the workers are those of their loops, so that everything that holds of a
loop holds of it here.
-/

import Apsis.Core.Events.Reconnection
import Apsis.Core.Jobs.Loop
import Apsis.Library.Refinement

namespace Apsis.Main

open Apsis.Core Apsis.Library
open Apsis.Core.Events Apsis.Core.Jobs
open Apsis.Core.Events.Connection (Ending)

/-! ## The tasks -/

/-- The settings that the application and the loops of its workers read. -/
structure Config where
  /-- `ENVIRONMENT` -/
  environment : Text
  /-- `OUTBOX_POLL_INTERVAL_SECONDS` -/
  outboxPoll : ℤ
  /-- `JOB_POLL_INTERVAL_SECONDS` -/
  jobPoll : ℤ

/-- The await at which the task of `lifespan` stands. -/
inductive Place
  | /-- Nothing has happened yet. -/
    idle
  | /-- `check_database` -/
    checking
  | /-- The `yield`. -/
    serving
  | /-- The task of the job worker, in `job_worker.stop`. -/
    stoppingJobs
  | /-- The task of the outbox worker, in `outbox_worker.stop`. -/
    stoppingOutbox
  | /-- `engine.dispose` -/
    disposing
  | /-- The task is done. -/
    ended (ending : Ending)
  deriving DecidableEq

/-- The application. -/
structure State where
  outbox : Connection.State
  jobs : Loop.State
  /-- `app.state.ready`, which is read as `False` where it is not set. -/
  ready : Bool
  place : Place
  deriving DecidableEq

/-- The actions. -/
inductive Action
  | /-- Time passes. -/
    tick (elapsed : ℕ)
  | /-- `lifespan` is begun, in a process that operates in UTC or does not. -/
    startup (isUtc : Bool)
  | /-- The task of `lifespan` is cancelled while it waits for the task of a worker. It is that
    task that is cancelled then. -/
    cancel
  | /-- The other side closes a connection of the outbox worker. -/
    lose (conn : Connection.ConnId)
  | /-- The await of `lifespan` ends in this way. -/
    main (outcome : Connection.Outcome)
  | /-- The await of the outbox worker ends in this way. -/
    outbox (outcome : Connection.Outcome)
  | /-- The await of the job worker ends in this way. -/
    jobs (outcome : Connection.Outcome)
  deriving DecidableEq

/-- The outcomes with which `stop` gets past the task that it waits for: a `CancelledError` is
suppressed, whether it is the task's or its own. -/
def passes : Ending → Connection.Outcome → Bool
  | _, .cancelled => true
  | .returned, .returns => true
  | _, _ => false

/-- `stop`, up to its await. -/
def State.tellOutbox (s : State) : State :=
  { s with outbox :=
    { s.outbox with
      shutdown := true, cancelling := s.outbox.cancelling || s.outbox.place.isLive } }

/-- `stop`, up to its await. -/
def State.tellJobs (s : State) : State :=
  { s with jobs :=
    { s.jobs with shutdown := true, cancelling := s.jobs.cancelling || s.jobs.place.isLive } }

/-- After `outbox_worker.stop`. -/
def State.dispose (s : State) : State := { s with ready := false, place := .disposing }

/-- After `job_worker.stop`. Where the task is done, `stop` does not wait for it. -/
def State.stopOutbox (s : State) : State :=
  if s.outbox.place.isLive then { s.tellOutbox with place := .stoppingOutbox }
  else s.tellOutbox.dispose

/-- After the `yield`. -/
def State.stopJobs (s : State) : State :=
  if s.jobs.place.isLive then { s.tellJobs with place := .stoppingJobs }
  else s.tellJobs.stopOutbox

variable (config : Config)

/-- A step of the outbox worker. -/
def State.outboxStep (s : State) (a : Connection.Action) : Option State :=
  (Connection.step config.outboxPoll s.outbox a).map fun outbox => { s with outbox := outbox }

/-- A step of the job worker. -/
def State.jobsStep (s : State) (a : Loop.Action) : Option State :=
  (Loop.step config.jobPoll s.jobs a).map fun jobs => { s with jobs := jobs }

/-- The await of `lifespan` at this place ends in this way. -/
def mainStep (s : State) : Place → Connection.Outcome → Option State
  | .checking, .returns =>
      (({ s with ready := true, place := .serving } : State).outboxStep config .start).bind
        fun s => s.jobsStep config .start
  | .checking, .raises => some { s with ready := false, place := .serving }
  | .serving, .returns => some s.stopJobs
  | .stoppingJobs, outcome =>
      match s.jobs.place with
      | .ended ending =>
          if passes ending outcome then some s.stopOutbox
          else if ending = .raised ∧ outcome = .raises then some { s with place := .ended .raised }
          else none
      | _ => none
  | .stoppingOutbox, outcome =>
      match s.outbox.place with
      | .ended ending =>
          if passes ending outcome then some s.dispose
          else if ending = .raised ∧ outcome = .raises then some { s with place := .ended .raised }
          else none
      | _ => none
  | .disposing, .returns => some { s with place := .ended .returned }
  | .idle, _ => none
  | .ended _, _ => none
  | _, .raises => some { s with place := .ended .raised }
  -- Nothing here depends on who has caused it.
  | _, .cancelled => some { s with place := .ended .cancelled }
  | _, .strays => some { s with place := .ended .cancelled }

/-- One step. -/
def step (s : State) : Action → Option State
  | .tick elapsed => (s.outboxStep config (.tick elapsed)).bind fun s =>
      s.jobsStep config (.tick elapsed)
  | .startup isUtc =>
      if s.place ≠ .idle then none
      -- `check_utc_timezone` only warns where it is not production.
      else if !isUtc && config.environment = "prod".toList then
        some { s with place := .ended .raised }
      else some { s with place := .checking }
  | .cancel =>
      match s.place with
      | .stoppingJobs => some s.tellJobs
      | .stoppingOutbox => some s.tellOutbox
      | _ => none
  | .lose conn => s.outboxStep config (.lose conn)
  | .main outcome => mainStep config s s.place outcome
  | .outbox outcome => s.outboxStep config (.resume outcome)
  | .jobs outcome => s.jobsStep config (.resume outcome)

/-- The application, before it is started. -/
def application : System State Action where
  init s := (Connection.loop config.outboxPoll).init s.outbox ∧
    (Loop.loop config.jobPoll).init s.jobs ∧ s.outbox.clock = s.jobs.clock ∧
    s.ready = false ∧ s.place = .idle
  step := step config

/-- `readiness`: the code and the status of the answer, where `SELECT 1` returns or raises. -/
def State.readiness (s : State) (selects : Bool) : ℕ × Text :=
  if s.ready then
    if selects then (200, "ready".toList) else (503, "database unavailable".toList)
  else (503, "not ready".toList)

/-! ## What a step does -/

/-- Time has passed. -/
def State.after (s : State) (elapsed : ℕ) : State :=
  { s with
    outbox := { s.outbox with clock := s.outbox.clock + elapsed }
    jobs := { s.jobs with clock := s.jobs.clock + elapsed } }

/-- The effect of a step, by kind. -/
inductive StepEffect (s : State) : Action → State → Prop
  | tick (elapsed : ℕ) : StepEffect s (.tick elapsed) (s.after elapsed)
  | lose {conn : Connection.ConnId} (hconn : conn ∈ s.outbox.alive) : StepEffect s (.lose conn)
      { s with outbox := { s.outbox with alive := s.outbox.alive.erase conn } }
  | outbox {outcome : Connection.Outcome} {outbox' : Connection.State}
      (hstep : Connection.step config.outboxPoll s.outbox (.resume outcome) = some outbox') :
      StepEffect s (.outbox outcome) { s with outbox := outbox' }
  | jobs {outcome : Connection.Outcome} {jobs' : Loop.State}
      (hstep : Loop.step config.jobPoll s.jobs (.resume outcome) = some jobs') :
      StepEffect s (.jobs outcome) { s with jobs := jobs' }
  | startup (isUtc : Bool) (hplace : s.place = .idle) :
      StepEffect s (.startup isUtc) { s with place := .checking }
  | refuse (hplace : s.place = .idle) (hprod : config.environment = "prod".toList) :
      StepEffect s (.startup false) { s with place := .ended .raised }
  | available (hplace : s.place = .checking) (houtbox : s.outbox.place = .idle)
      (hjobs : s.jobs.place = .idle) : StepEffect s (.main .returns)
        { s with
          outbox := { s.outbox with shutdown := false, place := .created }
          jobs := { s.jobs with shutdown := false, place := .created }
          ready := true
          place := .serving }
  | unavailable (hplace : s.place = .checking) :
      StepEffect s (.main .raises) { s with ready := false, place := .serving }
  | leave {outcome : Connection.Outcome} {ending : Ending}
      (hplace : s.place = .checking ∧ ending = .cancelled ∨ s.place = .serving ∨
        s.place = .disposing)
      (houtcome : outcome ≠ .returns) (hending : ending ≠ .returned) :
      StepEffect s (.main outcome) { s with place := .ended ending }
  | stopJobs (hplace : s.place = .serving) : StepEffect s (.main .returns) s.stopJobs
  | stopOutbox {outcome : Connection.Outcome} {ending : Ending} (hplace : s.place = .stoppingJobs)
      (hended : s.jobs.place = .ended ending) (hpasses : passes ending outcome = true) :
      StepEffect s (.main outcome) s.stopOutbox
  | dispose {outcome : Connection.Outcome} {ending : Ending} (hplace : s.place = .stoppingOutbox)
      (hended : s.outbox.place = .ended ending) : StepEffect s (.main outcome) s.dispose
  | fail (hplace : s.place = .stoppingJobs ∧ s.jobs.place = .ended .raised ∨
        s.place = .stoppingOutbox ∧ s.outbox.place = .ended .raised) :
      StepEffect s (.main .raises) { s with place := .ended .raised }
  | finish (hplace : s.place = .disposing) :
      StepEffect s (.main .returns) { s with place := .ended .returned }
  | cancelJobs (hplace : s.place = .stoppingJobs) : StepEffect s .cancel s.tellJobs
  | cancelOutbox (hplace : s.place = .stoppingOutbox) : StepEffect s .cancel s.tellOutbox

variable {config} {h : History State Action} {s s' : State} {a : Action}

theorem mainStep_effect {outcome : Connection.Outcome}
    (h : mainStep config s s.place outcome = some s') :
    StepEffect config s (.main outcome) s' := by
  generalize hplace : s.place = place at h
  cases place with
  | idle | ended _ => cases h
  | checking =>
      cases outcome with
      | returns =>
          simp only [mainStep, State.outboxStep, State.jobsStep, Connection.step, Loop.step,
            Option.bind_eq_some_iff, Option.map_eq_some_iff, Option.ite_none_right_eq_some,
            Option.some.injEq] at h
          obtain ⟨_, ⟨_, ⟨houtbox, rfl⟩, rfl⟩, _, ⟨hjobs, rfl⟩, rfl⟩ := h
          exact .available hplace houtbox hjobs
      | raises =>
          cases h
          exact .unavailable hplace
      | cancelled | strays =>
          cases h
          exact .leave (Or.inl ⟨hplace, rfl⟩) (by rintro ⟨⟩) (by rintro ⟨⟩)
  | serving =>
      cases outcome with
      | returns =>
          cases h
          exact .stopJobs hplace
      | raises | cancelled | strays =>
          cases h
          exact .leave (Or.inr (Or.inl hplace)) (by rintro ⟨⟩) (by rintro ⟨⟩)
  | stoppingJobs =>
      simp only [mainStep] at h
      cases hended : s.jobs.place with
      | ended ending =>
          simp only [hended] at h
          split at h
          · next hpasses =>
              cases h
              exact .stopOutbox hplace hended hpasses
          · simp only [Option.ite_none_right_eq_some, Option.some.injEq] at h
            obtain ⟨⟨rfl, rfl⟩, rfl⟩ := h
            exact .fail (Or.inl ⟨hplace, hended⟩)
      | _ =>
          simp only [hended] at h
          cases h
  | stoppingOutbox =>
      simp only [mainStep] at h
      cases hended : s.outbox.place with
      | ended ending =>
          simp only [hended] at h
          split at h
          · cases h
            exact .dispose hplace hended
          · simp only [Option.ite_none_right_eq_some, Option.some.injEq] at h
            obtain ⟨⟨rfl, rfl⟩, rfl⟩ := h
            exact .fail (Or.inr ⟨hplace, hended⟩)
      | _ =>
          simp only [hended] at h
          cases h
  | disposing =>
      cases outcome with
      | returns =>
          cases h
          exact .finish hplace
      | raises | cancelled | strays =>
          cases h
          exact .leave (Or.inr (Or.inr hplace)) (by rintro ⟨⟩) (by rintro ⟨⟩)

theorem step_effect (h : step config s a = some s') : StepEffect config s a s' := by
  cases a with
  | tick elapsed =>
      cases h
      exact .tick elapsed
  | startup isUtc =>
      simp only [step, Option.ite_none_left_eq_some, not_not] at h
      obtain ⟨hplace, h⟩ := h
      split at h
      · next hprod =>
          cases h
          simp only [Bool.and_eq_true, Bool.not_eq_true', decide_eq_true_eq] at hprod
          obtain ⟨rfl, hprod⟩ := hprod
          exact .refuse hplace hprod
      · cases h
        exact .startup isUtc hplace
  | cancel =>
      simp only [step] at h
      split at h
      · next hplace =>
          cases h
          exact .cancelJobs hplace
      · next hplace =>
          cases h
          exact .cancelOutbox hplace
      · cases h
  | lose conn =>
      simp only [step, State.outboxStep, Connection.step, Option.map_eq_some_iff,
        Option.ite_none_right_eq_some, Option.some.injEq] at h
      obtain ⟨_, ⟨hconn, rfl⟩, rfl⟩ := h
      exact .lose hconn
  | main outcome => exact mainStep_effect h
  | outbox outcome =>
      rw [step, State.outboxStep, Option.map_eq_some_iff] at h
      obtain ⟨outbox', hstep, rfl⟩ := h
      exact .outbox hstep
  | jobs outcome =>
      rw [step, State.jobsStep, Option.map_eq_some_iff] at h
      obtain ⟨jobs', hstep, rfl⟩ := h
      exact .jobs hstep

/-! ## The workers within the application -/

/-- What the outbox worker sees of a transition. -/
def outboxView (t : Transition State Action) : Option Connection.Action :=
  match t.action, t.source.place with
  | .tick elapsed, _ => some (.tick elapsed)
  | .lose conn, _ => some (.lose conn)
  | .outbox outcome, _ => some (.resume outcome)
  | .cancel, .stoppingOutbox => some .stop
  | .main .returns, .checking => some .start
  | .main .returns, .serving => if t.source.jobs.place.isLive then none else some .stop
  | .main outcome, .stoppingJobs =>
      match t.source.jobs.place with
      | .ended ending => if passes ending outcome then some .stop else none
      | _ => none
  | _, _ => none

/-- What the job worker sees of a transition. -/
def jobsView (t : Transition State Action) : Option Loop.Action :=
  match t.action, t.source.place with
  | .tick elapsed, _ => some (.tick elapsed)
  | .jobs outcome, _ => some (.resume outcome)
  | .cancel, .stoppingJobs => some .stop
  | .main .returns, .checking => some .start
  | .main .returns, .serving => some .stop
  | _, _ => none

/-- Only the end of an await of its own is one for the outbox worker. -/
theorem action_of_outboxView {t : Transition State Action} {outcome : Connection.Outcome}
    (hview : outboxView t = some (.resume outcome)) : t.action = .outbox outcome := by
  unfold outboxView at hview
  split at hview
  case h_3 haction =>
      cases hview
      exact haction
  case h_6 =>
      split at hview <;> cases hview
  case h_7 =>
      split at hview
      · split at hview <;> cases hview
      · cases hview
  all_goals cases hview

/-- Only the end of an await of its own is one for the job worker. -/
theorem action_of_jobsView {t : Transition State Action} {outcome : Connection.Outcome}
    (hview : jobsView t = some (.resume outcome)) : t.action = .jobs outcome := by
  unfold jobsView at hview
  split at hview
  case h_2 haction =>
      cases hview
      exact haction
  all_goals cases hview

theorem State.stopOutbox_outbox (s : State) : s.stopOutbox.outbox = s.tellOutbox.outbox := by
  unfold stopOutbox
  split <;> rfl

theorem State.stopOutbox_jobs (s : State) : s.stopOutbox.jobs = s.jobs := by
  unfold stopOutbox
  split <;> rfl

theorem State.stopJobs_jobs (s : State) : s.stopJobs.jobs = s.tellJobs.jobs := by
  unfold stopJobs
  split
  · rfl
  · exact s.tellJobs.stopOutbox_jobs

/-- What a transition does to the outbox worker. -/
theorem outbox_of_step (hstep : step config s a = some s') :
    match outboxView ⟨s, a, s'⟩ with
    | none => s'.outbox = s.outbox
    | some own => Connection.step config.outboxPoll s.outbox own = some s'.outbox := by
  cases step_effect hstep with
  | tick elapsed => rfl
  | lose hconn => exact if_pos hconn
  | outbox hown => exact hown
  | jobs _ => rfl
  | startup _ _ => rfl
  | refuse _ _ => rfl
  | available hplace houtbox _ =>
      simp only [outboxView, hplace]
      exact if_pos houtbox
  | unavailable hplace =>
      simp only [outboxView, hplace]
  | @leave outcome _ hplace houtcome _ =>
      cases outcome with
      | returns => exact absurd rfl houtcome
      | raises | cancelled | strays =>
          rcases hplace with ⟨hplace, -⟩ | hplace | hplace <;> simp only [outboxView, hplace]
  | stopJobs hplace =>
      simp only [outboxView, hplace, State.stopJobs]
      by_cases hlive : s.jobs.place.isLive = true
      · simp only [if_pos hlive]
        rfl
      · simp only [if_neg hlive, State.stopOutbox_outbox]
        rfl
  | @stopOutbox outcome _ hplace hended hpasses =>
      have hview : outboxView ⟨s, .main outcome, s.stopOutbox⟩ = some .stop := by
        cases outcome <;> simp [outboxView, hplace, hended, hpasses]
      rw [hview, State.stopOutbox_outbox]
      rfl
  | @dispose outcome _ hplace _ => cases outcome <;> simp [outboxView, hplace, State.dispose]
  | fail hplace =>
      rcases hplace with ⟨hplace, hended⟩ | ⟨hplace, -⟩
      · simp [outboxView, hplace, hended, passes]
      · simp [outboxView, hplace]
  | finish hplace => simp [outboxView, hplace]
  | cancelJobs hplace => simp [outboxView, hplace, State.tellJobs]
  | cancelOutbox hplace =>
      simp only [outboxView, hplace]
      rfl

/-- What a transition does to the job worker. -/
theorem jobs_of_step (hstep : step config s a = some s') :
    match jobsView ⟨s, a, s'⟩ with
    | none => s'.jobs = s.jobs
    | some own => Loop.step config.jobPoll s.jobs own = some s'.jobs := by
  cases step_effect hstep with
  | tick elapsed => rfl
  | lose hconn => rfl
  | outbox _ => rfl
  | jobs hown => exact hown
  | startup _ _ => rfl
  | refuse _ _ => rfl
  | available hplace _ hjobs =>
      simp only [jobsView, hplace]
      exact if_pos hjobs
  | unavailable _ => rfl
  | @leave outcome _ _ houtcome _ =>
      cases outcome with
      | returns => exact absurd rfl houtcome
      | raises | cancelled | strays => rfl
  | stopJobs hplace =>
      simp only [jobsView, hplace, State.stopJobs_jobs]
      rfl
  | @stopOutbox outcome _ hplace _ _ =>
      cases outcome <;> simp [jobsView, hplace, State.stopOutbox_jobs]
  | @dispose outcome _ hplace _ => cases outcome <;> simp [jobsView, hplace, State.dispose]
  | fail _ => rfl
  | finish hplace => simp [jobsView, hplace]
  | cancelJobs hplace =>
      simp only [jobsView, hplace]
      rfl
  | cancelOutbox hplace => simp [jobsView, hplace, State.tellOutbox]

/-- The outbox worker runs the loop of `Connection`. -/
theorem refines_outbox (config : Config) : (application config).Refines
    (Connection.loop config.outboxPoll) (fun _ => True) State.outbox outboxView := by
  constructor
  · exact fun s hinit => hinit.1
  · intro s a s' own _ hstep hview
    have houtbox := outbox_of_step hstep
    rw [hview] at houtbox
    exact houtbox
  · intro s a s' _ hstep hview
    have houtbox := outbox_of_step hstep
    rw [hview] at houtbox
    exact houtbox

/-- The job worker runs the loop of `Loop`. -/
theorem refines_jobs (config : Config) : (application config).Refines
    (Loop.loop config.jobPoll) (fun _ => True) State.jobs jobsView := by
  constructor
  · exact fun s hinit => hinit.2.1
  · intro s a s' own _ hstep hview
    have hjobs := jobs_of_step hstep
    rw [hview] at hjobs
    exact hjobs
  · intro s a s' _ hstep hview
    have hjobs := jobs_of_step hstep
    rw [hview] at hjobs
    exact hjobs

theorem outbox_run (hrun : (application config).Run h s) :
    (Connection.loop config.outboxPoll).Run (h.view State.outbox outboxView) s.outbox :=
  (refines_outbox config).run (fun _ _ _ => trivial) hrun

theorem jobs_run (hrun : (application config).Run h s) :
    (Loop.loop config.jobPoll).Run (h.view State.jobs jobsView) s.jobs :=
  (refines_jobs config).run (fun _ _ _ => trivial) hrun

/-! ## The order of things -/

/-- The shutdown has not begun. -/
def Place.isOpen : Place → Bool
  | .idle => true
  | .checking => true
  | .serving => true
  | _ => false

/-- The invariant. -/
structure Orderly (s : State) : Prop where
  unstarted : s.place = .idle ∨ s.place = .checking → s.ready = false
  /-- Where the application is not ready, no worker runs. -/
  unready : s.ready = false → s.jobs.place.isLive = false ∧ s.outbox.place.isLive = false
  started : s.ready = true → s.jobs.place ≠ .idle ∧ s.outbox.place ≠ .idle
  untold : s.place.isOpen = true → s.jobs.shutdown = false ∧ s.outbox.shutdown = false
  /-- The outbox worker is stopped when the job worker is done. -/
  order : s.outbox.shutdown = true → s.jobs.place.isLive = false
  stoppingJobs : s.place = .stoppingJobs → s.jobs.shutdown = true ∧ s.jobs.place ≠ .idle
  stoppingOutbox : s.place = .stoppingOutbox →
    s.jobs.place.isLive = false ∧ s.outbox.shutdown = true ∧ s.outbox.place ≠ .idle
  /-- The pool is disposed of when no worker runs. -/
  disposed : s.place = .disposing ∨ s.place = .ended .returned → s.ready = false

theorem orderly_stopOutbox (hjobs : s.jobs.place.isLive = false)
    (hunready : s.ready = false → s.outbox.place.isLive = false)
    (hstarted : s.ready = true → s.jobs.place ≠ .idle ∧ s.outbox.place ≠ .idle) :
    Orderly s.stopOutbox := by
  unfold State.stopOutbox
  split
  · next hlive =>
      refine ⟨by rintro (⟨⟨⟩⟩ | ⟨⟨⟩⟩), fun hready => ?_, hstarted, by rintro ⟨⟩, fun _ => hjobs,
        by rintro ⟨⟩, fun _ => ⟨hjobs, rfl, fun hidle => ?_⟩, by rintro (⟨⟨⟩⟩ | ⟨⟨⟩⟩)⟩
      · rw [hunready hready] at hlive
        cases hlive
      · have hidle' : s.outbox.place = .idle := hidle
        rw [hidle'] at hlive
        cases hlive
  · next hlive =>
      exact ⟨fun _ => rfl, fun _ => ⟨hjobs, Bool.eq_false_iff.mpr hlive⟩, by rintro ⟨⟩,
        by rintro ⟨⟩, fun _ => hjobs, by rintro ⟨⟩, by rintro ⟨⟩, fun _ => rfl⟩

/-- The step lemma. -/
theorem orderly_step (horderly : Orderly s) (hstep : step config s a = some s') :
    Orderly s' := by
  obtain ⟨hunstarted, hunready, hstarted, huntold, horder, hstoppingJobs, hstoppingOutbox,
    hdisposed⟩ := horderly
  cases step_effect hstep with
  | tick _ | lose _ =>
      exact ⟨hunstarted, hunready, hstarted, huntold, horder, hstoppingJobs, hstoppingOutbox,
        hdisposed⟩
  | outbox hown =>
      obtain ⟨hlive, hshutdown, hidle⟩ := Connection.of_resume hown
      refine ⟨hunstarted, fun hready => ?_, fun hready => ⟨(hstarted hready).1, hidle⟩,
        fun hopen => ⟨(huntold hopen).1, hshutdown.trans (huntold hopen).2⟩,
        fun hset => horder (hshutdown ▸ hset), hstoppingJobs, fun hplace => ?_, hdisposed⟩
      · rw [(hunready hready).2] at hlive
        cases hlive
      · obtain ⟨hjobs, hset, -⟩ := hstoppingOutbox hplace
        exact ⟨hjobs, hshutdown.trans hset, hidle⟩
  | jobs hown =>
      obtain ⟨hlive, hshutdown, hidle⟩ := Loop.of_resume hown
      have hdead : ∀ {p : Prop}, s.jobs.place.isLive = false → p := by
        intro p hdead
        rw [hdead] at hlive
        cases hlive
      exact ⟨hunstarted, fun hready => hdead (hunready hready).1,
        fun hready => ⟨hidle, (hstarted hready).2⟩,
        fun hopen => ⟨hshutdown.trans (huntold hopen).1, (huntold hopen).2⟩,
        fun hset => hdead (horder hset),
        fun hplace => ⟨hshutdown.trans (hstoppingJobs hplace).1, hidle⟩,
        fun hplace => hdead (hstoppingOutbox hplace).1, hdisposed⟩
  | startup _ hplace =>
      exact ⟨fun _ => hunstarted (Or.inl hplace), hunready, hstarted,
        fun _ => huntold (by rw [hplace]; rfl), horder, by rintro ⟨⟩, by rintro ⟨⟩,
        by rintro (⟨⟨⟩⟩ | ⟨⟨⟩⟩)⟩
  | refuse hplace _ =>
      exact ⟨by rintro (⟨⟨⟩⟩ | ⟨⟨⟩⟩), hunready, hstarted, by rintro ⟨⟩, horder, by rintro ⟨⟩,
        by rintro ⟨⟩, by rintro (⟨⟨⟩⟩ | ⟨⟨⟩⟩)⟩
  | available _ _ _ =>
      exact ⟨by rintro (⟨⟨⟩⟩ | ⟨⟨⟩⟩), by rintro ⟨⟩, fun _ => ⟨by rintro ⟨⟩, by rintro ⟨⟩⟩,
        fun _ => ⟨rfl, rfl⟩, by rintro ⟨⟩, by rintro ⟨⟩, by rintro ⟨⟩, by rintro (⟨⟨⟩⟩ | ⟨⟨⟩⟩)⟩
  | unavailable hplace =>
      have hready := hunstarted (Or.inr hplace)
      exact ⟨by rintro (⟨⟨⟩⟩ | ⟨⟨⟩⟩), fun _ => hunready hready, by rintro ⟨⟩,
        fun _ => huntold (by rw [hplace]; rfl), horder, by rintro ⟨⟩, by rintro ⟨⟩,
        by rintro (⟨⟨⟩⟩ | ⟨⟨⟩⟩)⟩
  | leave _ _ hending =>
      refine ⟨by rintro (⟨⟨⟩⟩ | ⟨⟨⟩⟩), hunready, hstarted, by rintro ⟨⟩, horder, by rintro ⟨⟩,
        by rintro ⟨⟩, ?_⟩
      rintro (⟨⟨⟩⟩ | hended)
      cases hended
      exact absurd rfl hending
  | stopJobs hplace =>
      unfold State.stopJobs
      split
      · next hlive =>
          refine ⟨by rintro (⟨⟨⟩⟩ | ⟨⟨⟩⟩), fun hready => ?_, hstarted, by rintro ⟨⟩, horder,
            fun _ => ⟨rfl, fun hidle => ?_⟩, by rintro ⟨⟩, by rintro (⟨⟨⟩⟩ | ⟨⟨⟩⟩)⟩
          · rw [(hunready hready).1] at hlive
            cases hlive
          · have hidle' : s.jobs.place = .idle := hidle
            rw [hidle'] at hlive
            cases hlive
      · next hlive =>
          exact orderly_stopOutbox (s := s.tellJobs) (Bool.eq_false_iff.mpr hlive)
            (fun hready => (hunready hready).2) hstarted
  | stopOutbox _ hended _ =>
      exact orderly_stopOutbox (by rw [hended]; rfl) (fun hready => (hunready hready).2) hstarted
  | dispose hplace hended =>
      have hjobs := (hstoppingOutbox hplace).1
      exact ⟨fun _ => rfl, fun _ => ⟨hjobs, by simp [State.dispose, hended]; rfl⟩, by rintro ⟨⟩,
        by rintro ⟨⟩, fun _ => hjobs, by rintro ⟨⟩, by rintro ⟨⟩, fun _ => rfl⟩
  | fail _ =>
      exact ⟨by rintro (⟨⟨⟩⟩ | ⟨⟨⟩⟩), hunready, hstarted, by rintro ⟨⟩, horder, by rintro ⟨⟩,
        by rintro ⟨⟩, by rintro (⟨⟨⟩⟩ | ⟨⟨⟩⟩)⟩
  | finish hplace =>
      exact ⟨by rintro (⟨⟨⟩⟩ | ⟨⟨⟩⟩), hunready, hstarted, by rintro ⟨⟩, horder, by rintro ⟨⟩,
        by rintro ⟨⟩, fun _ => hdisposed (Or.inl hplace)⟩
  | cancelJobs hplace =>
      refine ⟨hunstarted, hunready, hstarted, fun hopen => ?_, horder,
        fun _ => ⟨rfl, (hstoppingJobs hplace).2⟩, hstoppingOutbox, hdisposed⟩
      have hopen' : s.place.isOpen = true := hopen
      rw [hplace] at hopen'
      cases hopen'
  | cancelOutbox hplace =>
      obtain ⟨hjobs, -, hidle⟩ := hstoppingOutbox hplace
      refine ⟨hunstarted, hunready, hstarted, fun hopen => ?_, fun _ => hjobs, hstoppingJobs,
        fun _ => ⟨hjobs, rfl, hidle⟩, hdisposed⟩
      have hopen' : s.place.isOpen = true := hopen
      rw [hplace] at hopen'
      cases hopen'

theorem orderly_of_run (hrun : (application config).Run h s) : Orderly s := by
  apply hrun.invariant_of_step (I := fun _ s => Orderly s)
  · rintro s ⟨⟨houtbox, -, -, -, -, hidle⟩, ⟨hset, -, hjobs⟩, -, hready, hplace⟩
    have hnot : ∀ {place : Place}, place ≠ .idle → s.place ≠ place :=
      fun hne hsame => hne (hsame.symm.trans hplace)
    refine ⟨fun _ => hready, fun _ => ⟨by rw [hjobs]; rfl, by rw [hidle]; rfl⟩, ?_,
      fun _ => ⟨hset, houtbox⟩, ?_, fun h => absurd h (hnot (by rintro ⟨⟩)),
      fun h => absurd h (hnot (by rintro ⟨⟩)), ?_⟩
    · intro hset
      cases hready.symm.trans hset
    · intro hset
      cases houtbox.symm.trans hset
    · exact fun h => absurd h (not_or.mpr ⟨hnot (by rintro ⟨⟩), hnot (by rintro ⟨⟩)⟩)
  · exact fun h s a s' _ horderly hstep => orderly_step horderly hstep

/-- `lifespan` has come to `engine.dispose`. -/
def HasDisposed (h : History State Action) : Prop := ∃ t ∈ h, t.target.place = .disposing

/-- There is no way back from `engine.dispose`. -/
theorem disposed_of_run (hrun : (application config).Run h s) : HasDisposed h →
    s.ready = false ∧ (s.place = .disposing ∨ ∃ ending, s.place = .ended ending) := by
  apply hrun.invariant_of_step (I := fun h s => HasDisposed h →
    s.ready = false ∧ (s.place = .disposing ∨ ∃ ending, s.place = .ended ending))
  · rintro s _ ⟨_, hmem, -⟩
    cases hmem
  · rintro h s a s' hprior hinv hstep ⟨t, hmem, hplace⟩
    rcases List.mem_cons.mp hmem with rfl | hearlier
    · have horderly : Orderly s' := orderly_step (orderly_of_run hprior) hstep
      exact ⟨horderly.disposed (Or.inl hplace), Or.inl hplace⟩
    · obtain ⟨hready, hover⟩ := hinv ⟨t, hearlier, hplace⟩
      have hnot : ∀ {place : Place}, s.place = place → place ≠ .disposing →
          (∀ ending, place ≠ .ended ending) → False := by
        rintro _ rfl hdisposing hended
        exact hover.elim hdisposing fun ⟨ending, h⟩ => hended ending h
      cases step_effect hstep with
      | tick _ | lose _ | outbox _ | jobs _ => exact ⟨hready, hover⟩
      | leave _ _ _ | finish _ => exact ⟨hready, Or.inr ⟨_, rfl⟩⟩
      | fail _ => exact ⟨hready, Or.inr ⟨_, rfl⟩⟩
      | dispose _ _ => exact ⟨rfl, Or.inl rfl⟩
      | startup _ hplace | refuse hplace _ | available hplace _ _ | unavailable hplace
      | stopJobs hplace | stopOutbox hplace _ _ | cancelJobs hplace | cancelOutbox hplace =>
          exact (hnot hplace (by rintro ⟨⟩) (by rintro _ ⟨⟩)).elim

/-- `lifespan` returns from `engine.dispose` only. -/
theorem hasDisposed_of_returned (hrun : (application config).Run h s) :
    s.place = .disposing ∨ s.place = .ended .returned → HasDisposed h := by
  apply hrun.invariant_of_step (I := fun h s =>
    s.place = .disposing ∨ s.place = .ended .returned → HasDisposed h)
  · rintro s ⟨-, -, -, -, hplace⟩ (hdisposing | hended)
    · cases hplace.symm.trans hdisposing
    · cases hplace.symm.trans hended
  · intro h s a s' _ hinv hstep hplace
    have hkept : s.place = .disposing ∨ s.place = .ended .returned →
        HasDisposed (⟨s, a, s'⟩ :: h) := by
      intro hbefore
      exact List.exists_mem_cons_of_exists (hinv hbefore)
    rcases hplace with hdisposing | hended
    · exact ⟨_, List.mem_cons_self, hdisposing⟩
    · cases step_effect hstep with
      | tick _ | lose _ | outbox _ | jobs _ => exact hkept (Or.inr hended)
      | finish hplace => exact hkept (Or.inl hplace)
      | leave _ _ hending =>
          cases hended
          exact absurd rfl hending
      | cancelJobs hplace | cancelOutbox hplace => cases hplace.symm.trans hended
      | stopJobs _ =>
          unfold State.stopJobs State.stopOutbox at hended
          split at hended
          · cases hended
          · split at hended <;> cases hended
      | stopOutbox _ _ _ =>
          unfold State.stopOutbox at hended
          split at hended <;> cases hended
      | _ => cases hended

/-- The job worker has been started. It runs, or it has been told to stop, or a `CancelledError`
that nobody has caused has ended it. -/
structure JobsUp (h : History State Action) (s : State) : Prop where
  started : s.jobs.place ≠ .idle
  runs : s.jobs.place.isLive = true ∨ s.jobs.shutdown = true ∨ ∃ t ∈ h, t.action = .jobs .strays

/-- The outbox worker has been started. It runs, or it has been told to stop, or `close` has
raised or a `CancelledError` that nobody has caused has ended it. -/
structure OutboxUp (h : History State Action) (s : State) : Prop where
  started : s.outbox.place ≠ .idle
  runs : s.outbox.place.isLive = true ∨ s.outbox.shutdown = true ∨
    s.outbox.place = .ended .raised ∨ ∃ t ∈ h, t.action = .outbox .strays

/-- What holds of a run in this state. -/
structure InOrder (config : Config) (h : History State Action) (s : State) : Prop where
  answers : ∀ selects, s.readiness selects = (200, "ready".toList) → JobsUp h s ∧ OutboxUp h s
  /-- No worker is told to stop before the shutdown begins. -/
  untold : s.place.isOpen = true → s.jobs.shutdown = false ∧ s.outbox.shutdown = false
  /-- Where the application is not ready, no worker runs. -/
  unready : s.ready = false → s.jobs.place.isLive = false ∧ s.outbox.place.isLive = false
  /-- The outbox worker is told to stop when the job worker is done. -/
  order : s.outbox.shutdown = true → s.jobs.place.isLive = false
  /-- No worker runs when the pool is disposed of, and none ever after. -/
  disposed : HasDisposed h →
    s.ready = false ∧ s.jobs.place.isLive = false ∧ s.outbox.place.isLive = false
  returned : s.place = .ended .returned → HasDisposed h
  /-- An exception gets out of `lifespan` if the process is not in UTC in production, if one is
  thrown in at the `yield`, or if `close` or `dispose` raise. Stopping the job worker never
  raises. -/
  raises : ∀ a s', step config s a = some s' → s'.place = .ended .raised →
    s.place ≠ .ended .raised →
      (s.place = .idle ∧ a = .startup false ∧ config.environment = "prod".toList) ∨
        s.place = .serving ∨ s.place = .stoppingOutbox ∧ s.outbox.place = .ended .raised ∨
          s.place = .disposing

theorem raises_of_step (hjobs : s.jobs.place ≠ .ended .raised) (hstep : step config s a = some s')
    (hraised : s'.place = .ended .raised) (hbefore : s.place ≠ .ended .raised) :
    (s.place = .idle ∧ a = .startup false ∧ config.environment = "prod".toList) ∨
      s.place = .serving ∨ s.place = .stoppingOutbox ∧ s.outbox.place = .ended .raised ∨
        s.place = .disposing := by
  have hstopOutbox : ∀ {s : State}, s.stopOutbox.place ≠ .ended .raised := by
    intro s
    unfold State.stopOutbox
    split <;> rintro ⟨⟩
  cases step_effect hstep with
  | tick _ => exact absurd hraised hbefore
  | lose _ => exact absurd hraised hbefore
  | outbox _ => exact absurd hraised hbefore
  | jobs _ => exact absurd hraised hbefore
  | cancelJobs _ => exact absurd hraised hbefore
  | cancelOutbox _ => exact absurd hraised hbefore
  | refuse hplace hprod => exact Or.inl ⟨hplace, rfl, hprod⟩
  | leave hplace _ _ =>
      rcases hplace with ⟨-, rfl⟩ | hserving | hdisposing
      · cases hraised
      · exact Or.inr (Or.inl hserving)
      · exact Or.inr (Or.inr (Or.inr hdisposing))
  | stopJobs _ =>
      unfold State.stopJobs at hraised
      split at hraised
      · cases hraised
      · exact absurd hraised hstopOutbox
  | stopOutbox _ _ _ => exact absurd hraised hstopOutbox
  | fail hplace =>
      rcases hplace with ⟨-, hended⟩ | hended
      · exact absurd hended hjobs
      · exact Or.inr (Or.inr (Or.inl hended))
  | _ => cases hraised

theorem ready_of_readiness {selects : Bool}
    (hanswer : s.readiness selects = (200, "ready".toList)) : s.ready = true := by
  unfold State.readiness at hanswer
  split at hanswer
  · assumption
  · cases hanswer

theorem jobsUp_of_run (hrun : (application config).Run h s) (hready : s.ready = true) :
    JobsUp h s := by
  have hstarted := ((orderly_of_run hrun).started hready).1
  refine ⟨hstarted, ?_⟩
  cases hlive : s.jobs.place with
  | idle => exact absurd hlive hstarted
  | ended ending =>
      refine Or.inr (((Loop.told_of_run (jobs_run hrun)).ended ending hlive).1.imp_right ?_)
      rintro ⟨seen, hmem, hstrays⟩
      obtain ⟨t, ht, hview⟩ := History.exists_of_mem_view hmem
      exact ⟨t, ht, action_of_jobsView (hview.trans (congrArg some hstrays))⟩
  | _ => exact Or.inl rfl

theorem outboxUp_of_run (hrun : (application config).Run h s) (hready : s.ready = true) :
    OutboxUp h s := by
  have hstarted := ((orderly_of_run hrun).started hready).2
  refine ⟨hstarted, ?_⟩
  cases hlive : s.outbox.place with
  | idle => exact absurd hlive hstarted
  | ended ending =>
      refine Or.inr (((Connection.told_of_run (outbox_run hrun)).ended ending hlive).imp_right
        (Or.imp (congrArg _) ?_))
      rintro ⟨seen, hmem, hstrays⟩
      obtain ⟨t, ht, hview⟩ := History.exists_of_mem_view hmem
      exact ⟨t, ht, action_of_outboxView (hview.trans (congrArg some hstrays))⟩
  | _ => exact Or.inl rfl

/-- **The workers run when they should.** Whatever the awaits of the three tasks end with, and in
whichever order, the application is ready only while its workers run or are being stopped, as far
as they have not ended by themselves, and it stops them one after the other before it gives up
the connections that they use. -/
theorem workers_run_in_order (hrun : (application config).Run h s) : InOrder config h s := by
  have horderly := orderly_of_run hrun
  have hjobs := Loop.told_of_run (jobs_run hrun)
  constructor
  · intro selects hanswer
    have hready := ready_of_readiness hanswer
    exact ⟨jobsUp_of_run hrun hready, outboxUp_of_run hrun hready⟩
  · exact horderly.untold
  · exact horderly.unready
  · exact horderly.order
  · intro hdisposed
    have hready := (disposed_of_run hrun hdisposed).1
    exact ⟨hready, horderly.unready hready⟩
  · exact fun hplace => hasDisposed_of_returned hrun (Or.inr hplace)
  · intro a s' hstep hraised hbefore
    exact raises_of_step (fun hended => (hjobs.ended .raised hended).2 rfl) hstep hraised hbefore

/-! ## A shutdown -/

/-- The settings by default. -/
def defaults : Config := ⟨"local".toList, 5000000, 5000000⟩

/-- Nothing has happened yet. -/
def newApplication : State := ⟨Connection.newWorker, Loop.newWorker, false, .idle⟩

theorem newApplication_init (config : Config) : (application config).init newApplication :=
  ⟨Connection.newWorker_init _, ⟨rfl, rfl, rfl⟩, rfl, rfl, rfl⟩

/-- The workers are started, and the application is told to shut down while the job worker makes
a pass. What the pass raises then swallows the `CancelledError`. -/
def shutdownActions : List Action :=
  [.startup true, .main .returns, .jobs .returns, .outbox .returns, .outbox .returns,
    .main .returns, .jobs .raises, .jobs .returns, .main .returns]

/-- The job worker is done when the outbox worker is stopped. -/
theorem job_worker_stopped_first :
    ∃ h s, (application defaults).Run h s ∧ s.place = .stoppingOutbox ∧
      s.outbox.place = .listening 0 ∧ s.jobs.place.isLive = false := by
  obtain ⟨h, s, hrun, hP⟩ := System.exists_run_of_play (newApplication_init defaults)
    shutdownActions (fun p => decide (p.2.place = .stoppingOutbox ∧
      p.2.outbox.place = .listening 0 ∧ p.2.outbox.shutdown = true)) (by decide)
  obtain ⟨hplace, houtbox, hset⟩ := of_decide_eq_true hP
  exact ⟨h, s, hrun, hplace, houtbox, (workers_run_in_order hrun).order hset⟩

end Apsis.Main
