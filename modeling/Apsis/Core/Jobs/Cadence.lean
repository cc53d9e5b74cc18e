/-
# How far apart the handlers of a job run

The interval of a job is there to spare others: `tle_refresh` asks CelesTrak for its data.
`next_run_at` only spaces claims from completions. That the handlers themselves are spaced
takes more: that no two of them run at a time, and that no row is given back with the
`next_run_at` of a run that has already begun.

The latter happens when a worker crashes, or loses its claim to an exception, after the
handler has begun. A recovery then makes the row due at once. In runs without that, a handler
begins one interval after every moment at which a handler of its job was running.
-/

import Apsis.Core.Jobs.Exclusion
import Apsis.Core.Jobs.Spacing
import Apsis.Library.Timing

namespace Apsis.Core.Jobs

open Apsis.Library

universe u

variable {W : Type u}

/-! ## Running handlers -/

/-- The handler of the job is running. -/
def Phase.runs (jobId : Uuid) : Phase → Bool
  | .handling claim _ _ => decide (claim.jobId = jobId)
  | _ => false

/-- Some worker runs a handler of the job. -/
def IsBusy (s : State W) (jobId : Uuid) : Prop := ∃ worker, (s.phase worker).runs jobId = true

/-- When the handler of a claim has ended, from then on. -/
def Phase.finishedAt? : Phase → Option (Claim × Time)
  | .handled claim _ finishedAt _ _ => some (claim, finishedAt)
  | .rescheduling claim _ finishedAt _ _ _ => some (claim, finishedAt)
  | _ => none

/-- The claim whose handler a transition starts. -/
def startBy (t : Transition (State W) (Action W)) : Option Claim :=
  match t.action with
  | .run worker _ =>
      match t.source.phase worker, t.target.phase worker with
      | .claimed claim _, .handling _ _ _ => some claim
      | _, _ => none
  | _ => none

variable [DecidableEq W] (config : Config W)

/-- A claim ends with its reschedule only. -/
def KeepsClaims (_earlier : History (State W) (Action W))
    (t : Transition (State W) (Action W)) : Prop :=
  ∀ worker, (t.source.phase worker).claim?.all fun claim =>
    decide ((t.target.phase worker).claim? = some claim) ||
      (rescheduleBy t).any fun r => decide (r.1 = worker ∧ r.2.1 = claim)

/-- At every moment so far at which a handler of the job was running, it was this early. -/
abbrev BusyBefore (h : History (State W) (Action W)) (jobId : Uuid) (limit : Time) : Prop :=
  h.DoneBy State.clock (fun t => IsBusy t.target jobId) limit

/-- The invariant: what keeps the next handler from running too early. -/
structure Paced (h : History (State W) (Action W)) (s : State W) : Prop where
  past : ∀ jobId, BusyBefore h jobId s.clock
  /-- A row that waits is due one interval after the handlers so far. -/
  pending : ∀ jobId job, s.jobs.find? jobId = some job → job.status = .pending →
    BusyBefore h jobId (job.nextRunAt - timedelta job.intervalSeconds)
  /-- A handler that is about to begin is late enough. -/
  claimed : ∀ worker claim rest, s.phase worker = .claimed claim rest →
    BusyBefore h claim.jobId (s.clock - timedelta claim.intervalSeconds)
  /-- When a handler has ended, no other has run since. -/
  finished : ∀ worker claim finishedAt, (s.phase worker).finishedAt? = some (claim, finishedAt) →
    BusyBefore h claim.jobId finishedAt
  /-- A row that is claimed has a claimant. -/
  owned : ∀ jobId job, s.jobs.find? jobId = some job → job.status = .running →
    ∃ worker claim, (s.phase worker).claim? = some claim ∧ claim.jobId = jobId

variable {config} {h : History (State W) (Action W)} {s s' : State W} {a : Action W}

/-- What is known of the state of a run in which time is kept. -/
structure OnTime (config : Config W) (h : History (State W) (Action W)) (s : State W) : Prop where
  held : ∀ worker claim, (s.phase worker).claim? = some claim → IsHeldBy config s worker claim
  unique : ∀ first second claim claim', (s.phase first).claim? = some claim →
    (s.phase second).claim? = some claim' → claim.jobId = claim'.jobId → first = second
  records : TableRecords h s
  inOrder : ∀ worker,
    (s.phase worker).InOrder (timedelta config.settings.jobLeaseSeconds) s.clock
  /-- A recovery takes no row from its claimant. -/
  kept : ∀ worker claim a s', (s.phase worker).claim? = some claim →
    releases ⟨s, a, s'⟩ claim.jobId = false

theorem onTime_of_run (hvalid : config.settings.validateLeaseInvariant = .ok config.settings)
    (hrun : (freshWorkers config).Run h s) (htime : h.Meets (KeepsTime config)) :
    OnTime config h s := by
  have hworkers : (workers config).Run h s :=
    System.Run.mono (M := freshWorkers config) (N := workers config)
      (fun _ hinit => hinit.1) rfl hrun
  have hinv := claimsUnreleased_of_run config hvalid hworkers htime
  have hheld := claimsHeld_of_run config hworkers hinv.meets
  constructor
  · exact fun worker claim hclaim => hheld.held worker claim hclaim (hinv.unreleased _ _ hclaim)
  · exact fun first second claim claim' hfirst hsecond hid =>
      hheld.unique first second claim claim' hfirst hsecond (hinv.unreleased _ _ hfirst)
        (hinv.unreleased _ _ hsecond) hid
  · exact tableRecords_of_run config hrun
  · exact inOrder_of_run config hworkers
  · exact fun worker claim a s' hclaim =>
      releases_eq_false_of_claim config hvalid hworkers hinv hclaim a s'

omit [DecidableEq W] in
theorem IsBusy.exists_claim {jobId : Uuid} (hbusy : IsBusy s jobId) :
    ∃ worker claim, (s.phase worker).claim? = some claim ∧ claim.jobId = jobId ∧
      ∃ startedAt rest, s.phase worker = .handling claim startedAt rest := by
  obtain ⟨worker, hruns⟩ := hbusy
  cases hphase : s.phase worker with
  | handling claim startedAt rest =>
      rw [hphase] at hruns
      exact ⟨worker, claim, by rw [hphase]; rfl, of_decide_eq_true hruns, startedAt, rest, hphase⟩
  | _ =>
      rw [hphase] at hruns
      cases hruns

omit [DecidableEq W] in
/-- The row of a running handler is not pending. -/
theorem OnTime.not_busy_of_pending (htime : OnTime config h s) {jobId : Uuid} {job : ScheduledJob}
    (hfind : s.jobs.find? jobId = some job) (hpending : job.status = .pending) :
    ¬ IsBusy s jobId := by
  intro hbusy
  obtain ⟨worker, claim, hclaim, rfl, -⟩ := hbusy.exists_claim
  obtain ⟨row, hrow, hrunning, -⟩ := htime.held worker claim hclaim
  rw [hfind] at hrow
  cases hrow
  rw [hpending] at hrunning
  cases hrunning

omit [DecidableEq W] in
/-- While a worker holds a claim and is not in its handler, no handler of the job runs. -/
theorem OnTime.not_busy_of_claim (htime : OnTime config h s) {worker : W} {claim : Claim}
    (hclaim : (s.phase worker).claim? = some claim)
    (hnot : ∀ startedAt rest, s.phase worker ≠ .handling claim startedAt rest) :
    ¬ IsBusy s claim.jobId := by
  intro hbusy
  obtain ⟨other, claim', hclaim', hid, startedAt, rest, hphase⟩ := hbusy.exists_claim
  obtain rfl := htime.unique other worker claim' claim hclaim' hclaim hid
  rw [hclaim] at hclaim'
  cases hclaim'
  exact hnot startedAt rest hphase

/-! ## What a step does -/

/-- What a step does to a row. -/
inductive RowEffect (s s' : State W) (a : Action W) (job : ScheduledJob) : ScheduledJob → Prop
  | /-- The row stays as it is. -/
    same (hnot : ∀ worker claim now, rescheduleBy ⟨s, a, s'⟩ = some (worker, claim, now) →
      claim.jobId ≠ job.id) : RowEffect s s' a job job
  | /-- A recovery releases the row. -/
    released (hrunning : job.status = .running) (hreleases : releases ⟨s, a, s'⟩ job.id = true) :
      RowEffect s s' a job job.recovered
  | /-- A worker claims the row. -/
    claimed {worker : W} {claim : Claim} {leaseUntil : Time} {workerId : Text}
      (hclaim : (s'.phase worker).claim? = some claim) (hid : claim.jobId = job.id) :
      RowEffect s s' a job (job.claimed workerId leaseUntil)
  | /-- A worker reschedules the row. -/
    rescheduled {worker : W} {claim : Claim} {now : Time} (error : Option Text)
      (hby : rescheduleBy ⟨s, a, s'⟩ = some (worker, claim, now)) (hid : claim.jobId = job.id) :
      RowEffect s s' a job (job.rescheduled claim.intervalSeconds now error)

theorem row_of_step (hstep : step config s a = some s') {id : Uuid} {after : ScheduledJob}
    (hfind : s'.jobs.find? id = some after) :
    ∃ job, s.jobs.find? id = some job ∧ RowEffect s s' a job after := by
  have hnone : (∀ worker choice, a = .run worker choice →
      (s.phase worker).reschedule? = none) → ∀ job, RowEffect s s' a job job := by
    refine fun hphase job => .same fun worker claim now hby => ?_
    cases a with
    | run actor choice => simp [rescheduleBy, hphase actor choice rfl] at hby
    | _ => cases hby
  cases step_effect config hstep with
  | outside _ hjobs _ hnotRun =>
      rw [hjobs] at hfind
      exact ⟨after, hfind, hnone (fun worker choice hrun => absurd hrun (hnotRun _ _)) after⟩
  | @run worker choice _ phase' jobs' hphase _ heffect =>
      rw [State.perform_jobs] at hfind
      have hquiet : (s.phase worker).reschedule? = none →
          ∀ job, RowEffect s (s.perform worker jobs' phase') (.run worker choice) job job := by
        refine fun hnot => hnone fun actor choice' hsame => ?_
        cases hsame
        exact hnot
      cases heffect with
      | quiet hrows _ _ hreschedule =>
          rw [hrows] at hfind
          exact ⟨after, hfind, hquiet (hphase ▸ hreschedule) after⟩
      | recover now =>
          rw [find?_recoverStaleJobs, Option.map_eq_some_iff] at hfind
          obtain ⟨job, hjob, rfl⟩ := hfind
          refine ⟨job, hjob, ?_⟩
          split
          · next hstale =>
              have hrunning : job.status = .running := by
                rw [ScheduledJob.isStale, Bool.and_eq_true, decide_eq_true_iff] at hstale
                exact hstale.1
              refine .released hrunning ?_
              cases Table.key_of_find? hjob
              simp [releases, recoveryAt, hphase, Phase.recovery?, hjob, hstale]
          · exact hquiet (by rw [hphase]; rfl) job
      | @claim jobId leasedAt now rest row leaseUntil _ _ _ _ =>
          have hclaim := congrArg Phase.claim? (s.perform_phase_self worker
            (claimJob jobId (config.workerId worker) leaseUntil now s.jobs).1
            (.claimed ⟨jobId, row.jobName, row.intervalSeconds, leasedAt, leaseUntil⟩ rest))
          rw [find?_claimJob, Option.map_eq_some_iff] at hfind
          obtain ⟨job, hjob, rfl⟩ := hfind
          refine ⟨job, hjob, ?_⟩
          split
          · next hclaimable =>
              rw [ScheduledJob.isClaimable, Bool.and_eq_true, decide_eq_true_iff] at hclaimable
              exact .claimed hclaim hclaimable.1.symm
          · exact hquiet (by rw [hphase]; rfl) job
      | @reschedule claim startedAt finishedAt now error rest _ hstored hwrite =>
          have hby : rescheduleBy ⟨s, .run worker choice, s.perform worker jobs'
              (.executing rest)⟩ = some (worker, claim, now) := by
            simp [rescheduleBy, hphase, hstored]
          rw [find?_rescheduleJob hwrite, Option.map_eq_some_iff] at hfind
          obtain ⟨job, hjob, rfl⟩ := hfind
          refine ⟨job, hjob, ?_⟩
          split
          · next hid => exact .rescheduled error hby hid.symm
          · next hid =>
              refine .same fun actor claim' now' hsame => ?_
              rw [hby] at hsame
              cases hsame
              exact Ne.symm hid

omit [DecidableEq W] in
/-- Only a claim that finds the row due leads to the phase `claimed`. -/
theorem claiming_of_runStep {worker : W} {clock : Time} {jobs jobs' : JobTable} {phase : Phase}
    {choice : Choice} {claim : Claim} {rest : List Uuid}
    (hstep : runStep config worker clock jobs phase choice = some (jobs', .claimed claim rest)) :
    ∃ leasedAt now job, phase = .claiming claim.jobId leasedAt now rest ∧
      jobs.find? claim.jobId = some job ∧ job.status = .pending ∧ job.nextRunAt ≤ now ∧
      claim.intervalSeconds = job.intervalSeconds := by
  unfold runStep at hstep
  split at hstep
  case h_8 jobId leasedAt now rest' =>
      dsimp only at hstep
      split at hstep
      · cases hstep
      · next jobName intervalSeconds hsome =>
          obtain ⟨job, hfind, hpending, hdue, rfl, rfl⟩ := claimJob_eq_some hsome
          cases hstep
          exact ⟨leasedAt, now, job, rfl, hfind, hpending, hdue, rfl⟩
  case h_4 | h_9 | h_12 => split at hstep <;> cases hstep
  all_goals cases hstep

omit [DecidableEq W] in
/-- A handler that has ended had ended before, or it ends now. -/
theorem finishedAt_of_runStep {worker : W} {clock : Time} {jobs jobs' : JobTable}
    {phase phase' : Phase} {choice : Choice} {claim : Claim} {finishedAt : Time}
    (hstep : runStep config worker clock jobs phase choice = some (jobs', phase'))
    (hfinished : phase'.finishedAt? = some (claim, finishedAt)) :
    phase.finishedAt? = some (claim, finishedAt) ∨ finishedAt = clock := by
  unfold runStep at hstep
  split at hstep
  case h_4 | h_12 => split at hstep <;> cases hstep <;> cases hfinished
  case h_8 =>
      dsimp only at hstep
      split at hstep <;> cases hstep <;> cases hfinished
  case h_9 =>
      split at hstep <;> cases hstep <;> cases hfinished
      exact Or.inr rfl
  case h_10 =>
      cases hstep
      cases hfinished
      exact Or.inr rfl
  case h_11 =>
      cases hstep
      exact Or.inl hfinished
  all_goals
    cases hstep
    try cases hfinished

/-- Where claims end with their reschedule only. -/
theorem KeepsClaims.claim? {earlier : History (State W) (Action W)} {worker : W} {claim : Claim}
    (hkeeps : KeepsClaims earlier ⟨s, a, s'⟩) (hclaim : (s.phase worker).claim? = some claim) :
    (s'.phase worker).claim? = some claim ∨
      ∃ now, rescheduleBy ⟨s, a, s'⟩ = some (worker, claim, now) := by
  have hall := hkeeps worker
  rw [hclaim, Option.all_some, Bool.or_eq_true, decide_eq_true_iff] at hall
  refine hall.imp_right fun hany => ?_
  obtain ⟨⟨actor, claim', now⟩, hby, hsame⟩ := (Option.any_eq_true _ _).mp hany
  obtain ⟨rfl, rfl⟩ := of_decide_eq_true hsame
  exact ⟨now, hby⟩

omit [DecidableEq W] in
theorem phase_of_rescheduleBy {worker : W} {claim : Claim} {now : Time}
    (hby : rescheduleBy ⟨s, a, s'⟩ = some (worker, claim, now)) :
    ∃ startedAt finishedAt error rest,
      s.phase worker = .rescheduling claim startedAt finishedAt error now rest := by
  unfold rescheduleBy at hby
  split at hby
  · next actor choice _ =>
      obtain ⟨⟨claim', now'⟩, hreschedule, hsame⟩ := Option.map_eq_some_iff.mp hby
      cases hsame
      cases hphase : s.phase worker with
      | rescheduling claim' startedAt finishedAt error now' rest =>
          rw [hphase] at hreschedule
          simp only [Phase.reschedule?] at hreschedule
          split at hreschedule <;> cases hreschedule
          exact ⟨startedAt, finishedAt, error, rest, rfl⟩
      | _ =>
          rw [hphase] at hreschedule
          cases hreschedule
  · cases hby

/-- Of the phases of a worker after a step, those that are its own doing. -/
theorem phase_of_step (hstep : step config s a = some s') (worker : W) :
    s'.phase worker = s.phase worker ∨ (s'.phase worker).claim? = none ∨
      ∃ choice jobs', runStep config worker s.clock s.jobs (s.phase worker) choice =
        some (jobs', s'.phase worker) := by
  cases step_effect config hstep with
  | outside _ _ hphase _ =>
      rcases hphase worker with hsame | hpolling | hstopped
      · exact Or.inl hsame
      · rw [hpolling]
        exact Or.inr (Or.inl rfl)
      · rw [hstopped]
        exact Or.inr (Or.inl rfl)
  | run actor choice hphase hrun _ =>
      by_cases hactor : worker = actor
      · subst hactor
        rw [State.perform_phase_self, hphase]
        exact Or.inr (Or.inr ⟨choice, _, hrun⟩)
      · exact Or.inl (State.perform_phase_of_ne s _ _ hactor)

theorem clock_le_of_step (hstep : step config s a = some s') : s.clock ≤ s'.clock := by
  cases step_effect config hstep with
  | outside hclock _ _ _ => exact hclock
  | run _ _ _ _ _ => exact le_rfl

/-! ## The invariant -/

section Step

variable (hpaced : Paced h s) (htime : OnTime config h s)
  (htime' : OnTime config (⟨s, a, s'⟩ :: h) s') (hstep : step config s a = some s')

include hpaced hstep in
theorem Paced.past_step (jobId : Uuid) : BusyBefore (⟨s, a, s'⟩ :: h) jobId s'.clock :=
  ((hpaced.past jobId).mono (clock_le_of_step hstep)).cons fun _ => le_rfl

include hpaced htime htime' hstep in
/-- A row that waits has not been given back by a recovery. -/
theorem Paced.pending_step {jobId : Uuid} {after : ScheduledJob}
    (hfind : s'.jobs.find? jobId = some after) (hpending : after.status = .pending) :
    BusyBefore (⟨s, a, s'⟩ :: h) jobId (after.nextRunAt - timedelta after.intervalSeconds) := by
  refine History.DoneBy.cons ?_ fun hbusy =>
    absurd hbusy (htime'.not_busy_of_pending hfind hpending)
  obtain ⟨job, hjob, heffect⟩ := row_of_step hstep hfind
  cases heffect with
  | same _ => exact hpaced.pending jobId _ hjob hpending
  | released hrunning hreleases =>
      obtain ⟨worker, claim, hclaim, hid⟩ := hpaced.owned jobId job hjob hrunning
      have hkept := htime.kept worker claim a s' hclaim
      rw [hid, ← Table.key_of_find? hjob, hreleases] at hkept
      cases hkept
  | claimed _ _ => cases hpending
  | @rescheduled worker claim now error hby hid =>
      obtain ⟨startedAt, finishedAt, _, rest, hphase⟩ := phase_of_rescheduleBy hby
      have hjobId : claim.jobId = jobId := hid.trans (Table.key_of_find? hjob)
      have horder := htime.inOrder worker
      rw [hphase] at horder
      have hinterval := htime.records.claims worker claim (by rw [hphase]; rfl) job (hjobId ▸ hjob)
      have hfinished := hpaced.finished worker claim finishedAt (by rw [hphase]; rfl)
      have hlimit : (job.rescheduled claim.intervalSeconds now error).nextRunAt -
          timedelta (job.rescheduled claim.intervalSeconds now error).intervalSeconds = now := by
        simp [ScheduledJob.rescheduled, hinterval]
      rw [hlimit, ← hjobId]
      exact hfinished.mono horder.2.2.2.1

include hpaced htime htime' hstep in
/-- A claim takes a row that waits and is due. -/
theorem Paced.claimed_step {worker : W} {claim : Claim} {rest : List Uuid}
    (hphase : s'.phase worker = .claimed claim rest) :
    BusyBefore (⟨s, a, s'⟩ :: h) claim.jobId (s'.clock - timedelta claim.intervalSeconds) := by
  have hclock := clock_le_of_step hstep
  have hclaim : (s'.phase worker).claim? = some claim := by rw [hphase]; rfl
  refine History.DoneBy.cons ?_ fun hbusy =>
    absurd hbusy (htime'.not_busy_of_claim hclaim (by rw [hphase]; rintro _ _ ⟨⟩))
  rcases phase_of_step hstep worker with hsame | hnone | ⟨choice, jobs', hrun⟩
  · refine (hpaced.claimed worker claim rest (hsame ▸ hphase)).mono ?_
    lia
  · rw [hclaim] at hnone
    cases hnone
  · rw [hphase] at hrun
    obtain ⟨leasedAt, now, job, hbefore, hfind, hpending, hdue, hinterval⟩ :=
      claiming_of_runStep hrun
    have horder := htime.inOrder worker
    rw [hbefore] at horder
    refine (hpaced.pending claim.jobId job hfind hpending).mono ?_
    rw [hinterval]
    have hnow : now ≤ s.clock := horder.2
    lia

include hpaced htime' hstep in
theorem Paced.finished_step {worker : W} {claim : Claim} {finishedAt : Time}
    (hfinished : (s'.phase worker).finishedAt? = some (claim, finishedAt)) :
    BusyBefore (⟨s, a, s'⟩ :: h) claim.jobId finishedAt := by
  have hphase : (s'.phase worker).claim? = some claim ∧
      ∀ startedAt rest, s'.phase worker ≠ .handling claim startedAt rest := by
    cases hphase : s'.phase worker with
    | handled _ _ _ _ _ | rescheduling _ _ _ _ _ _ =>
        rw [hphase] at hfinished
        cases hfinished
        exact ⟨rfl, by rintro _ _ ⟨⟩⟩
    | _ =>
        rw [hphase] at hfinished
        cases hfinished
  refine History.DoneBy.cons ?_ fun hbusy =>
    absurd hbusy (htime'.not_busy_of_claim hphase.1 hphase.2)
  rcases phase_of_step hstep worker with hsame | hnone | ⟨choice, jobs', hrun⟩
  · exact hpaced.finished worker claim finishedAt (hsame ▸ hfinished)
  · rw [hphase.1] at hnone
    cases hnone
  · rcases finishedAt_of_runStep hrun hfinished with hbefore | rfl
    · exact hpaced.finished worker claim finishedAt hbefore
    · exact hpaced.past claim.jobId

include hpaced hstep in
theorem Paced.owned_step {earlier : History (State W) (Action W)}
    (hkeeps : KeepsClaims earlier ⟨s, a, s'⟩) {jobId : Uuid} {after : ScheduledJob}
    (hfind : s'.jobs.find? jobId = some after) (hrunning : after.status = .running) :
    ∃ worker claim, (s'.phase worker).claim? = some claim ∧ claim.jobId = jobId := by
  obtain ⟨job, hjob, heffect⟩ := row_of_step hstep hfind
  cases heffect with
  | same hnot =>
      obtain ⟨worker, claim, hclaim, hid⟩ := hpaced.owned jobId _ hjob hrunning
      rcases hkeeps.claim? hclaim with hkept | ⟨now, hby⟩
      · exact ⟨worker, claim, hkept, hid⟩
      · exact absurd (hid.trans (Table.key_of_find? hjob).symm) (hnot worker claim now hby)
  | released _ _ => cases hrunning
  | claimed hclaim hid => exact ⟨_, _, hclaim, hid.trans (Table.key_of_find? hjob)⟩
  | rescheduled _ _ _ => cases hrunning

end Step

variable (config) in
/-- The conditions on a run. -/
def IsOrderly (earlier : History (State W) (Action W)) (t : Transition (State W) (Action W)) :
    Prop :=
  KeepsTime config earlier t ∧ KeepsClaims earlier t

/-- The run lemma. -/
theorem paced_of_run (hvalid : config.settings.validateLeaseInvariant = .ok config.settings)
    (hrun : (freshWorkers config).Run h s) (hmeets : h.Meets (IsOrderly config)) : Paced h s := by
  refine hrun.invariant (I := Paced) ?_ ?_ hmeets
  · rintro s ⟨hstopped, hinserted⟩
    constructor
    · rintro _ _ ⟨⟩
    · rintro _ _ _ _ _ ⟨⟩
    · rintro _ _ _ _ _ ⟨⟩
    · rintro _ _ _ _ _ ⟨⟩
    · intro jobId job hfind hrunning
      have hpending := (hinserted job (s.jobs.find?_eq_some_iff.mp hfind).1).pending
      rw [hrunning] at hpending
      cases hpending
  · intro h s a s' hprior hmeets hpaced hstep horderly
    have hearlier : h.Meets (KeepsTime config) := hmeets.mono fun _ _ => And.left
    have htime := onTime_of_run hvalid hprior hearlier
    have htime' := onTime_of_run hvalid (hprior.extend hstep) ⟨horderly.1, hearlier⟩
    constructor
    · exact hpaced.past_step hstep
    · exact fun _ _ => hpaced.pending_step htime htime' hstep
    · exact fun _ _ _ => hpaced.claimed_step htime htime' hstep
    · exact fun _ _ _ => hpaced.finished_step htime' hstep
    · exact fun _ _ => hpaced.owned_step hstep horderly.2

omit [DecidableEq W] in
theorem claimed_of_startBy {t : Transition (State W) (Action W)} {claim : Claim}
    (hstart : startBy t = some claim) :
    ∃ worker rest, t.source.phase worker = .claimed claim rest := by
  unfold startBy at hstart
  split at hstart
  · next worker choice _ =>
      split at hstart
      · next rest _ _ _ hphase _ =>
          cases hstart
          exact ⟨worker, rest, hphase⟩
      · cases hstart
  · cases hstart

/-- **Handlers keep their distance.** In every run that keeps to the timing assumption and in
which claims end with their reschedule, a handler begins one interval after every moment at
which a handler of its job was running. -/
theorem handlers_spaced (hvalid : config.settings.validateLeaseInvariant = .ok config.settings)
    {t : Transition (State W) (Action W)} (hrun : (freshWorkers config).Run (t :: h) s)
    (hmeets : h.Meets (IsOrderly config)) {claim : Claim} (hstart : startBy t = some claim) :
    ∃ job, t.source.jobs.find? claim.jobId = some job ∧
      ∀ earlier ∈ h, IsBusy earlier.target claim.jobId →
        earlier.target.clock + timedelta job.intervalSeconds ≤ t.source.clock := by
  obtain ⟨hprior, -, -⟩ := hrun.of_cons
  obtain ⟨worker, rest, hphase⟩ := claimed_of_startBy hstart
  have hclaim : (t.source.phase worker).claim? = some claim := by rw [hphase]; rfl
  have htime := onTime_of_run hvalid hprior (hmeets.mono fun _ _ => And.left)
  obtain ⟨job, hfind, -⟩ := htime.held worker claim hclaim
  refine ⟨job, hfind, fun earlier hmem hbusy => ?_⟩
  have hearly := (paced_of_run hvalid hprior hmeets).claimed worker claim rest hphase earlier hmem
    hbusy
  rw [htime.records.claims worker claim hclaim job hfind] at hearly
  lia

/-! ## A job that runs twice -/

instance (earlier : History (State (Fin 2)) (Action (Fin 2)))
    (t : Transition (State (Fin 2)) (Action (Fin 2))) :
    Decidable (IsOrderly twoWorkers earlier t) :=
  inferInstanceAs (Decidable (_ ∧ ∀ _ : Fin 2, _ = true))

/-- The handler runs for five seconds and fails; the other worker claims the row when it is
due and starts the handler again. -/
def secondHandlerActions : List (Action (Fin 2)) :=
  claimActions 0 dueJob ++ [.run 0 .proceed, .tick 5000000,
    .run 0 (.outcome (some "timeout".toList)), .run 0 .proceed, .run 0 .proceed] ++
    [.tick 7200000000] ++
    claimActions 1 (dueJob.rescheduled 7200 5000000 (some "timeout".toList)) ++ [.run 1 .proceed]

/-- The second run of the handler begins two hours after the first one. -/
theorem second_handler_spaced :
    ∃ t h s earlier, (freshWorkers twoWorkers).Run (t :: h) s ∧ startBy t ≠ none ∧ earlier ∈ h ∧
      IsBusy earlier.target 7 ∧ earlier.target.clock = 5000000 ∧
      earlier.target.clock + timedelta 7200 ≤ t.source.clock := by
  have hinit : (freshWorkers twoWorkers).init twoWorkersStart := by
    refine ⟨fun _ => rfl, fun job hjob => ?_⟩
    cases List.mem_singleton.mp hjob
    exact ⟨rfl, rfl, rfl, rfl, rfl⟩
  obtain ⟨h, s, hrun, hP⟩ := System.exists_run_of_play hinit secondHandlerActions
    (fun p => match p.1 with
      | [] => false
      | t :: h => decide (History.Meets (IsOrderly twoWorkers) h ∧
          (startBy t).map Claim.jobId = some 7 ∧
          (t.source.jobs.find? 7).map ScheduledJob.intervalSeconds = some 7200 ∧
          ∃ earlier ∈ h, (earlier.target.phase 0).runs 7 = true ∧
            earlier.target.clock = 5000000))
    (by decide +kernel)
  cases h with
  | nil => cases hP
  | cons t h =>
      obtain ⟨hmeets, hstart, hinterval, earlier, hmem, hruns, hclock⟩ := of_decide_eq_true hP
      obtain ⟨claim, hclaim, hid⟩ := Option.map_eq_some_iff.mp hstart
      obtain ⟨job, hfind, hspaced⟩ :=
        handlers_spaced Settings.validateLeaseInvariant_default hrun hmeets hclaim
      rw [hid] at hfind hspaced
      rw [hfind, Option.map_some, Option.some.injEq] at hinterval
      have hbusy : IsBusy earlier.target 7 := ⟨0, hruns⟩
      refine ⟨t, h, s, earlier, hrun, ?_, hmem, hbusy, hclock, ?_⟩
      · rw [hclaim]
        exact Option.some_ne_none claim
      · rw [← hinterval]
        exact hspaced earlier hmem hbusy

end Apsis.Core.Jobs
