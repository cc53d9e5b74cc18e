/-
# Any number of `JobWorker`s on one table

Every worker runs the loop of `JobWorker._run`: recover stale rows, select up to
ten candidates, and for each of them claim, run the handler and reschedule. The
phase of a worker is its place in that loop with the local values it carries,
among them every clock reading that a later statement was built from. Reading
the clock and executing a statement are separate steps, so other workers, and
the clock, may move in between.

The workers share the table and one monotone clock. A worker may crash or be
cancelled in any phase, and an exception that escapes into the loop of `_run`
(a database error, a rejected text) takes it back to the top of the loop.
-/

import Apsis.Core.Jobs.Statements
import Apsis.Library.System

namespace Apsis.Core.Jobs

open Apsis.Library

universe u

/-- What a worker remembers of a successful claim. `leasedAt` is the clock
reading that `lease_until` was computed from. -/
structure Claim where
  jobId : Uuid
  jobName : Text
  intervalSeconds : ℤ
  leasedAt : Time
  leaseUntil : Time
  deriving DecidableEq

/-- The place of a worker in its loop. `rest` is what is left of the candidate
list. -/
inductive Phase
  | /-- Not started, crashed or cancelled. -/
    stopped
  | /-- At the top of the loop of `_run`. -/
    polling
  | /-- The recovery is built from `now` and not yet executed. -/
    recovering (now : Time)
  | /-- Before `_process_due_jobs`. -/
    recovered
  | /-- The selection is built from `now` and not yet executed. -/
    selecting (now : Time)
  | /-- In the loop over the candidates. -/
    executing (rest : List Uuid)
  | /-- `lease_until` is computed, the claim is not yet built. -/
    leasing (jobId : Uuid) (leasedAt : Time) (rest : List Uuid)
  | /-- The claim is built and not yet executed. -/
    claiming (jobId : Uuid) (leasedAt now : Time) (rest : List Uuid)
  | /-- The claim returned a row. -/
    claimed (claim : Claim) (rest : List Uuid)
  | /-- The handler is running. -/
    handling (claim : Claim) (startedAt : Time) (rest : List Uuid)
  | /-- The handler has ended, or there is none. -/
    handled (claim : Claim) (startedAt finishedAt : Time) (error : Option Text)
      (rest : List Uuid)
  | /-- The reschedule is built from `now` and not yet executed. -/
    rescheduling (claim : Claim) (startedAt finishedAt : Time) (error : Option Text)
      (now : Time) (rest : List Uuid)
  deriving DecidableEq

/-- The claim a worker is working on: it has claimed the row and has not yet
rescheduled it. -/
def Phase.claim? : Phase → Option Claim
  | .claimed claim _ => some claim
  | .handling claim _ _ => some claim
  | .handled claim _ _ _ _ => some claim
  | .rescheduling claim _ _ _ _ _ => some claim
  | _ => none

/-- What is not the worker's own doing in its next step. -/
inductive Choice
  | /-- The step leaves nothing open. -/
    proceed
  | /-- The order in which the database returns the due rows. -/
    order (rows : List ScheduledJob)
  | /-- The handler returns, or raises (a timeout included) with a traceback. -/
    outcome (error : Option Text)

/-- What the workers are configured with. -/
structure Config (W : Type u) where
  settings : Settings
  /-- `hostname:pid`; two workers may share one. -/
  workerId : W → Text
  /-- The names in `job_registry`. -/
  isRegistered : Text → Bool

/-- The shared state. -/
structure State (W : Type u) where
  clock : Time
  jobs : JobTable
  phase : W → Phase

/-- The actions of the system. -/
inductive Action (W : Type u)
  | /-- Time passes. -/
    tick (elapsed : ℕ)
  | /-- `start` -/
    start (worker : W)
  | /-- A crash, or a cancellation by `stop`. -/
    crash (worker : W)
  | /-- An exception reaches the loop of `_run` and is logged there. -/
    abort (worker : W)
  | /-- The worker takes its next step. -/
    run (worker : W) (choice : Choice)

/-- `f"No handler registered for job '{job_name}'"` -/
def noHandlerError (jobName : Text) : Text :=
  "No handler registered for job '".toList ++ jobName ++ "'".toList

variable {W : Type u} (config : Config W)

/-- The next step of a worker: the table it leaves and the phase it enters. -/
def runStep (worker : W) (clock : Time) (jobs : JobTable) :
    Phase → Choice → Option (JobTable × Phase)
  | .polling, .proceed => some (jobs, .recovering clock)
  | .recovering now, .proceed => some (recoverStaleJobs now jobs, .recovered)
  | .recovered, .proceed => some (jobs, .selecting clock)
  | .selecting now, .order rows =>
      if IsDueOrder now jobs rows then some (jobs, .executing (candidateIds rows)) else none
  | .executing [], .proceed => some (jobs, .polling)
  | .executing (jobId :: rest), .proceed => some (jobs, .leasing jobId clock rest)
  | .leasing jobId leasedAt rest, .proceed => some (jobs, .claiming jobId leasedAt clock rest)
  | .claiming jobId leasedAt now rest, .proceed =>
      let leaseUntil := leasedAt + timedelta config.settings.jobLeaseSeconds
      let result := claimJob jobId (config.workerId worker) leaseUntil now jobs
      match result.2 with
      | none => some (result.1, .executing rest)
      | some (jobName, intervalSeconds) =>
          some (result.1, .claimed ⟨jobId, jobName, intervalSeconds, leasedAt, leaseUntil⟩ rest)
  | .claimed claim rest, .proceed =>
      if config.isRegistered claim.jobName then some (jobs, .handling claim clock rest)
      else some (jobs, .handled claim clock clock (some (noHandlerError claim.jobName)) rest)
  | .handling claim startedAt rest, .outcome error =>
      some (jobs, .handled claim startedAt clock error rest)
  | .handled claim startedAt finishedAt error rest, .proceed =>
      some (jobs, .rescheduling claim startedAt finishedAt error clock rest)
  | .rescheduling claim _ _ error now rest, .proceed =>
      match rescheduleJob claim.jobId claim.intervalSeconds now error jobs with
      | none => some (jobs, .polling)
      | some jobs' => some (jobs', .executing rest)
  | _, _ => none

/-! ## What a worker's step can do to the table

Only three phases write: `recovering`, `claiming` and `rescheduling`. The
lemmas below say once what each of them does, and that every other step leaves
the rows alone and gives no worker a claim it did not have.
-/

/-- The clock reading of a recovery that is about to be executed. -/
def Phase.recovery? : Phase → Option Time
  | .recovering now => some now
  | _ => none

/-- The claim and the completion time of a reschedule that is about to be
executed and that the database accepts. -/
def Phase.reschedule? : Phase → Option (Claim × Time)
  | .rescheduling claim _ _ error now _ =>
      if storable (lastErrorOf error) then some (claim, now) else none
  | _ => none

theorem Phase.claim?_of_reschedule? {phase : Phase} {claim : Claim} {now : Time}
    (h : phase.reschedule? = some (claim, now)) : phase.claim? = some claim := by
  cases phase with
  | rescheduling c startedAt finishedAt error now' rest =>
      simp only [reschedule?] at h
      split at h
      · cases h
        rfl
      · cases h
  | _ => simp [reschedule?] at h

/-- The effect of a worker's own step, by kind. -/
inductive RunEffect (worker : W) (jobs : JobTable) : Phase → JobTable → Phase → Prop
  | /-- No row changes and no claim is won. -/
    quiet {phase phase' : Phase} {jobs' : JobTable}
      (hrows : ∀ id, jobs'.find? id = jobs.find? id)
      (hclaim : ∀ claim, phase'.claim? = some claim → phase.claim? = some claim)
      (hrecovery : phase.recovery? = none) (hreschedule : phase.reschedule? = none) :
      RunEffect worker jobs phase jobs' phase'
  | /-- `_recover_stale_jobs` is executed. -/
    recover (now : Time) :
      RunEffect worker jobs (.recovering now) (recoverStaleJobs now jobs) .recovered
  | /-- The claim wins the row. -/
    claim {jobId : Uuid} {leasedAt now : Time} {rest : List Uuid} {job : ScheduledJob}
      {leaseUntil : Time} (hfind : jobs.find? jobId = some job)
      (hpending : job.status = .pending) (hdue : job.nextRunAt ≤ now)
      (hlease : leaseUntil = leasedAt + timedelta config.settings.jobLeaseSeconds) :
      RunEffect worker jobs (.claiming jobId leasedAt now rest)
        (claimJob jobId (config.workerId worker) leaseUntil now jobs).1
        (.claimed ⟨jobId, job.jobName, job.intervalSeconds, leasedAt, leaseUntil⟩ rest)
  | /-- The reschedule is executed. -/
    reschedule {claim : Claim} {startedAt finishedAt now : Time} {error : Option Text}
      {rest : List Uuid} {jobs' : JobTable}
      (hstored : (Phase.rescheduling claim startedAt finishedAt error now rest).reschedule? =
        some (claim, now))
      (hwrite : rescheduleJob claim.jobId claim.intervalSeconds now error jobs = some jobs') :
      RunEffect worker jobs (.rescheduling claim startedAt finishedAt error now rest) jobs'
        (.executing rest)

theorem runStep_effect {worker : W} {clock : Time} {jobs jobs' : JobTable}
    {phase phase' : Phase} {choice : Choice}
    (h : runStep config worker clock jobs phase choice = some (jobs', phase')) :
    RunEffect config worker jobs phase jobs' phase' := by
  unfold runStep at h
  split at h
  case h_2 now =>
      cases h
      exact .recover now
  case h_8 jobId leasedAt now rest =>
      dsimp only at h
      split at h
      · next hnone =>
          cases h
          exact .quiet (find?_claimJob_of_none hnone) (by simp [Phase.claim?]) rfl rfl
      · next jobName intervalSeconds hsome =>
          obtain ⟨job, hfind, hpending, hdue, rfl, rfl⟩ := claimJob_eq_some hsome
          cases h
          exact .claim hfind hpending hdue rfl
  case h_12 claim startedAt finishedAt error now rest =>
      split at h
      · next hrejected =>
          cases h
          refine .quiet (fun _ => rfl) (by simp [Phase.claim?]) rfl ?_
          simp [Phase.reschedule?, rescheduleJob_eq_none_iff.mp hrejected]
      · next jobs'' hwrite =>
          cases h
          refine .reschedule ?_ hwrite
          simp [Phase.reschedule?, storable_of_rescheduleJob hwrite]
  case h_4 =>
      split at h <;> cases h
      exact .quiet (fun _ => rfl) (by simp [Phase.claim?]) rfl rfl
  case h_9 =>
      split at h <;> cases h <;> exact .quiet (fun _ => rfl) (by simp [Phase.claim?]) rfl rfl
  case h_13 => cases h
  all_goals
    cases h
    exact .quiet (fun _ => rfl) (by simp [Phase.claim?]) rfl rfl

/-! ## The system -/

variable [DecidableEq W]

/-- One worker enters another phase and leaves the table as given. -/
def State.perform (s : State W) (worker : W) (jobs : JobTable) (phase : Phase) : State W :=
  { s with jobs := jobs, phase := Function.update s.phase worker phase }

@[simp]
theorem State.perform_clock (s : State W) (worker : W) (jobs : JobTable) (phase : Phase) :
    (s.perform worker jobs phase).clock = s.clock := rfl

@[simp]
theorem State.perform_jobs (s : State W) (worker : W) (jobs : JobTable) (phase : Phase) :
    (s.perform worker jobs phase).jobs = jobs := rfl

@[simp]
theorem State.perform_phase_self (s : State W) (worker : W) (jobs : JobTable)
    (phase : Phase) : (s.perform worker jobs phase).phase worker = phase := by
  simp [perform]

@[simp]
theorem State.perform_phase_of_ne (s : State W) {worker other : W} (jobs : JobTable)
    (phase : Phase) (hne : other ≠ worker) :
    (s.perform worker jobs phase).phase other = s.phase other := by
  simp [perform, hne]

/-- One step of the system. -/
def step (s : State W) : Action W → Option (State W)
  | .tick elapsed => some { s with clock := s.clock + elapsed }
  | .start worker =>
      if s.phase worker = .stopped then some (s.perform worker s.jobs .polling) else none
  | .crash worker =>
      if s.phase worker = .stopped then none else some (s.perform worker s.jobs .stopped)
  | .abort worker =>
      if s.phase worker = .stopped then none else some (s.perform worker s.jobs .polling)
  | .run worker choice =>
      (runStep config worker s.clock s.jobs (s.phase worker) choice).map fun result =>
        s.perform worker result.1 result.2

/-- Workers start out stopped, over any table. -/
def workers : System (State W) (Action W) where
  init s := ∀ worker, s.phase worker = .stopped
  step := step config

/-- The effect of a step of the system: a worker's own step, or one that only
moves the clock or takes a worker to the start of its loop or out of it. -/
inductive StepEffect (s : State W) : Action W → State W → Prop
  | outside {a : Action W} {s' : State W} (hclock : s.clock ≤ s'.clock)
      (hjobs : s'.jobs = s.jobs)
      (hphase : ∀ worker, s'.phase worker = s.phase worker ∨
        s'.phase worker = .polling ∨ s'.phase worker = .stopped)
      (hrun : ∀ worker choice, a ≠ .run worker choice) : StepEffect s a s'
  | run (worker : W) (choice : Choice) {phase phase' : Phase} {jobs' : JobTable}
      (hphase : s.phase worker = phase)
      (hstep : runStep config worker s.clock s.jobs phase choice = some (jobs', phase'))
      (heffect : RunEffect config worker s.jobs phase jobs' phase') :
      StepEffect s (.run worker choice) (s.perform worker jobs' phase')

theorem State.perform_phase_eq_or (s : State W) (worker other : W)
    (phase : Phase) :
    (s.perform worker s.jobs phase).phase other = s.phase other ∨
      (s.perform worker s.jobs phase).phase other = phase := by
  by_cases h : other = worker
  · subst h
    exact Or.inr (s.perform_phase_self other s.jobs phase)
  · exact Or.inl (s.perform_phase_of_ne s.jobs phase h)

theorem step_effect {s s' : State W} {a : Action W} (h : step config s a = some s') :
    StepEffect config s a s' := by
  cases a with
  | tick elapsed =>
      cases h
      exact .outside (by simp) rfl (fun _ => Or.inl rfl) (by simp)
  | start worker =>
      simp only [step, Option.ite_none_right_eq_some, Option.some.injEq] at h
      obtain ⟨-, rfl⟩ := h
      refine .outside (by simp) rfl (fun other => ?_) (by simp)
      exact (State.perform_phase_eq_or s worker other .polling).imp_right Or.inl
  | crash worker =>
      simp only [step, Option.ite_none_left_eq_some, Option.some.injEq] at h
      obtain ⟨-, rfl⟩ := h
      refine .outside (by simp) rfl (fun other => ?_) (by simp)
      exact (State.perform_phase_eq_or s worker other .stopped).imp_right Or.inr
  | abort worker =>
      simp only [step, Option.ite_none_left_eq_some, Option.some.injEq] at h
      obtain ⟨-, rfl⟩ := h
      refine .outside (by simp) rfl (fun other => ?_) (by simp)
      exact (State.perform_phase_eq_or s worker other .polling).imp_right Or.inl
  | run worker choice =>
      simp only [step, Option.map_eq_some_iff] at h
      obtain ⟨⟨jobs', phase'⟩, hrun, rfl⟩ := h
      exact .run worker choice rfl hrun (runStep_effect config hrun)

/-! ## Clock readings

The clock is monotone, so the readings a worker carries lie in the past and in
the order in which they were taken.
-/

/-- The readings of a phase are in order and not later than `clock`, and the
lease of a claim was computed from its first reading. -/
def Phase.InOrder (lease : ℤ) (clock : Time) : Phase → Prop
  | .recovering now => now ≤ clock
  | .selecting now => now ≤ clock
  | .leasing _ leasedAt _ => leasedAt ≤ clock
  | .claiming _ leasedAt now _ => leasedAt ≤ now ∧ now ≤ clock
  | .claimed claim _ => claim.leaseUntil = claim.leasedAt + lease ∧ claim.leasedAt ≤ clock
  | .handling claim startedAt _ =>
      claim.leaseUntil = claim.leasedAt + lease ∧ claim.leasedAt ≤ startedAt ∧
        startedAt ≤ clock
  | .handled claim startedAt finishedAt _ _ =>
      claim.leaseUntil = claim.leasedAt + lease ∧ claim.leasedAt ≤ startedAt ∧
        startedAt ≤ finishedAt ∧ finishedAt ≤ clock
  | .rescheduling claim startedAt finishedAt _ now _ =>
      claim.leaseUntil = claim.leasedAt + lease ∧ claim.leasedAt ≤ startedAt ∧
        startedAt ≤ finishedAt ∧ finishedAt ≤ now ∧ now ≤ clock
  | _ => True

theorem Phase.InOrder.mono {lease : ℤ} {clock clock' : Time} {phase : Phase}
    (h : phase.InOrder lease clock) (hle : clock ≤ clock') : phase.InOrder lease clock' := by
  cases phase <;> simp only [InOrder] at h ⊢ <;> lia

omit [DecidableEq W] in
theorem runStep_inOrder {worker : W} {clock : Time} {jobs jobs' : JobTable}
    {phase phase' : Phase} {choice : Choice}
    (h : runStep config worker clock jobs phase choice = some (jobs', phase'))
    (horder : phase.InOrder (timedelta config.settings.jobLeaseSeconds) clock) :
    phase'.InOrder (timedelta config.settings.jobLeaseSeconds) clock := by
  unfold runStep at h
  split at h
  case h_4 | h_9 => split at h <;> cases h <;> simp_all [Phase.InOrder]
  case h_8 =>
      dsimp only at h
      split at h <;> cases h <;> simp only [Phase.InOrder] at horder ⊢
      lia
  case h_12 => split at h <;> cases h <;> trivial
  case h_13 => cases h
  all_goals
    cases h
    simp only [Phase.InOrder] at horder ⊢ <;> lia

/-- Along every run the readings of every worker are in order. -/
theorem inOrder_of_run {h : History (State W) (Action W)} {s : State W}
    (hrun : (workers config).Run h s) (worker : W) :
    (s.phase worker).InOrder (timedelta config.settings.jobLeaseSeconds) s.clock := by
  refine System.Run.invariant_of_step (I := fun _ s => ∀ worker,
    (s.phase worker).InOrder (timedelta config.settings.jobLeaseSeconds) s.clock)
    ?_ ?_ hrun worker
  · intro s hinit worker
    rw [hinit worker]
    trivial
  · intro h s a s' _ hinv hstep worker
    cases step_effect config hstep with
    | outside hclock _ hphase _ =>
        rcases hphase worker with heq | heq | heq
        · rw [heq]
          exact (hinv worker).mono hclock
        · rw [heq]
          trivial
        · rw [heq]
          trivial
    | run actor choice hphase hrunStep _ =>
        by_cases hactor : worker = actor
        · subst hactor
          rw [State.perform_phase_self]
          exact runStep_inOrder config hrunStep (hphase ▸ hinv worker)
        · rw [State.perform_phase_of_ne s _ _ hactor]
          exact hinv worker

end Apsis.Core.Jobs
