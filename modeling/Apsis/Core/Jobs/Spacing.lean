/-
# What a row records, and how far apart its runs are

Each of the three `UPDATE`s writes the status together with the claim columns,
and the reschedule also writes the completion columns. Nothing else is needed
for a row to stay consistent: whichever worker issues them, in whatever order,
a row says how often it was rescheduled and when last, and it is next due one
interval after that.

This holds along every run that starts from rows as inserted, late reschedules
included, and a claim only takes a row that is due. So a claim keeps one
interval from the completion that the row records, which is the one that was
written last.

It need not be the latest one. The reschedule writes its own clock reading over
a later one as readily as over an earlier one, and the row is then due early,
seen from the run it has forgotten. `ReschedulesInOrder` asks that this does not
happen; it is exactly what keeps every row due one interval after every
completion.
-/

import Apsis.Core.Jobs.Fencing

namespace Apsis.Core.Jobs

open Apsis.Library

universe u

variable {W : Type u}

/-! ## The completions of a history -/

/-- The completion time that a transition records in the row. -/
def completionAt (jobId : Uuid) (t : Transition (State W) (Action W)) : Option Time :=
  (rescheduleBy t).bind fun r => if r.2.1.jobId = jobId then some r.2.2 else none

/-- The completion times of the row that have been committed, the last one first. -/
def completedAt (h : History (State W) (Action W)) (jobId : Uuid) : List Time :=
  h.filterMap (completionAt jobId)

/-- How often the row was rescheduled. -/
def completions (h : History (State W) (Action W)) (jobId : Uuid) : ℕ :=
  h.countP fun t => (completionAt jobId t).isSome

/-- The completion time recorded last. -/
def lastCompletion (h : History (State W) (Action W)) (jobId : Uuid) : Option Time :=
  h.findSome? (completionAt jobId)

theorem completions_cons_of_none {t : Transition (State W) (Action W)} {jobId : Uuid}
    (hnone : completionAt jobId t = none) (h : History (State W) (Action W)) :
    completions (t :: h) jobId = completions h jobId := by
  simp [completions, hnone]

theorem completions_cons_of_some {t : Transition (State W) (Action W)} {jobId : Uuid}
    {now : Time} (hsome : completionAt jobId t = some now)
    (h : History (State W) (Action W)) :
    completions (t :: h) jobId = completions h jobId + 1 := by
  simp [completions, hsome]

theorem lastCompletion_cons_of_none {t : Transition (State W) (Action W)} {jobId : Uuid}
    (hnone : completionAt jobId t = none) (h : History (State W) (Action W)) :
    lastCompletion (t :: h) jobId = lastCompletion h jobId := by
  simp [lastCompletion, hnone]

theorem lastCompletion_cons_of_some {t : Transition (State W) (Action W)} {jobId : Uuid}
    {now : Time} (hsome : completionAt jobId t = some now)
    (h : History (State W) (Action W)) :
    lastCompletion (t :: h) jobId = some now := by
  simp [lastCompletion, hsome]

theorem mem_completedAt_of_lastCompletion {h : History (State W) (Action W)} {jobId : Uuid}
    {now : Time} (hlast : lastCompletion h jobId = some now) : now ∈ completedAt h jobId := by
  obtain ⟨t, hmem, hsome⟩ := List.exists_of_findSome?_eq_some hlast
  exact List.mem_filterMap.mpr ⟨t, hmem, hsome⟩

theorem mem_completedAt_cons {t : Transition (State W) (Action W)}
    {h : History (State W) (Action W)} {jobId : Uuid} {now : Time} :
    now ∈ completedAt (t :: h) jobId ↔
      completionAt jobId t = some now ∨ now ∈ completedAt h jobId := by
  simp [completedAt, List.mem_filterMap]

/-! ## The row invariant -/

/-- A row as inserted: pending, not claimed, never run. -/
structure ScheduledJob.IsInserted (job : ScheduledJob) : Prop where
  pending : job.status = .pending
  claimedBy : job.claimedBy = none
  leaseUntil : job.leaseUntil = none
  lastRunAt : job.lastRunAt = none
  runCount : job.runCount = 0

/-- `PENDING` without a claim and a lease, or `RUNNING` with both. -/
def ScheduledJob.ClaimConsistent (job : ScheduledJob) : Prop :=
  (job.status = .pending ∧ job.claimedBy = none ∧ job.leaseUntil = none) ∨
    (job.status = .running ∧ job.claimedBy.isSome ∧ job.leaseUntil.isSome)

/-- What a row says about the history. -/
structure ScheduledJob.Records (job : ScheduledJob) (h : History (State W) (Action W)) :
    Prop where
  claim : job.ClaimConsistent
  runCount : job.runCount = completions h job.id
  lastRunAt : job.lastRunAt = lastCompletion h job.id
  nextRunAt : ∀ completed, job.lastRunAt = some completed →
    job.nextRunAt = completed + timedelta job.intervalSeconds

/-- A row as inserted records the empty history. -/
theorem ScheduledJob.IsInserted.records {job : ScheduledJob} (hinserted : job.IsInserted) :
    job.Records ([] : History (State W) (Action W)) where
  claim := Or.inl ⟨hinserted.pending, hinserted.claimedBy, hinserted.leaseUntil⟩
  runCount := hinserted.runCount
  lastRunAt := hinserted.lastRunAt
  nextRunAt completed hlast := by
    rw [hinserted.lastRunAt] at hlast
    cases hlast

/-- The recovery keeps a row's record. -/
theorem ScheduledJob.Records.recovered {job : ScheduledJob}
    {h : History (State W) (Action W)} (hrec : job.Records h) : job.recovered.Records h :=
  { hrec with claim := Or.inl ⟨rfl, rfl, rfl⟩ }

/-- The claim keeps a row's record. -/
theorem ScheduledJob.Records.claimed {job : ScheduledJob} {h : History (State W) (Action W)}
    (hrec : job.Records h) (workerId : Text) (leaseUntil : Time) :
    (job.claimed workerId leaseUntil).Records h :=
  { hrec with claim := Or.inr ⟨rfl, rfl, rfl⟩ }

/-- A transition that does not reschedule the row keeps its record. -/
theorem ScheduledJob.Records.cons {job : ScheduledJob} {h : History (State W) (Action W)}
    (hrec : job.Records h) {t : Transition (State W) (Action W)}
    (hnone : completionAt job.id t = none) : job.Records (t :: h) where
  claim := hrec.claim
  runCount := by rw [completions_cons_of_none hnone, hrec.runCount]
  lastRunAt := by rw [lastCompletion_cons_of_none hnone, hrec.lastRunAt]
  nextRunAt := hrec.nextRunAt

/-- The reschedule adds the completion to the record. -/
theorem ScheduledJob.Records.rescheduled {job : ScheduledJob}
    {h : History (State W) (Action W)} (hrec : job.Records h)
    {t : Transition (State W) (Action W)} {now : Time}
    (hsome : completionAt job.id t = some now) (error : Option Text) :
    (job.rescheduled job.intervalSeconds now error).Records (t :: h) where
  claim := Or.inl ⟨rfl, rfl, rfl⟩
  runCount := by
    simp only [ScheduledJob.rescheduled]
    rw [completions_cons_of_some hsome, hrec.runCount]
  lastRunAt := (lastCompletion_cons_of_some hsome h).symm
  nextRunAt completed hlast := by
    cases hlast
    rfl

variable [DecidableEq W] (config : Config W)

/-- The workers over a table of rows as inserted. -/
def freshWorkers : System (State W) (Action W) where
  init s := (∀ worker, s.phase worker = .stopped) ∧ ∀ job ∈ s.jobs.rows, job.IsInserted
  step := step config

/-- Every row records the history, and every claim carries the interval of its
row. -/
structure TableRecords (h : History (State W) (Action W)) (s : State W) : Prop where
  rows : ∀ id job, s.jobs.find? id = some job → job.Records h
  claims : ∀ worker claim, (s.phase worker).claim? = some claim → ∀ job,
    s.jobs.find? claim.jobId = some job → claim.intervalSeconds = job.intervalSeconds

omit [DecidableEq W] in
/-- A transition that leaves the rows alone, wins no claim and executes no
reschedule keeps the table's record. -/
theorem TableRecords.of_quiet {h : History (State W) (Action W)}
    {t : Transition (State W) (Action W)} (hinv : TableRecords h t.source)
    (hrows : ∀ id, t.target.jobs.find? id = t.source.jobs.find? id)
    (hclaim : ∀ worker claim, (t.target.phase worker).claim? = some claim →
      (t.source.phase worker).claim? = some claim)
    (hnone : rescheduleBy t = none) : TableRecords (t :: h) t.target where
  rows id job hfind := by
    rw [hrows] at hfind
    exact (hinv.rows id job hfind).cons (by simp [completionAt, hnone])
  claims worker claim htarget job hfind := by
    rw [hrows] at hfind
    exact hinv.claims worker claim (hclaim worker claim htarget) job hfind

/-- A worker's own step keeps the table's record when every row it leaves comes
from a row with the same interval and keeps that row's record, and the claim
the worker goes on with carries the interval of its row. -/
theorem TableRecords.of_perform {h : History (State W) (Action W)} {s : State W}
    {actor : W} {choice : Choice} {jobs' : JobTable} {phase' : Phase}
    {f : ScheduledJob → ScheduledJob}
    (hinv : TableRecords h s) (hrows : ∀ id, jobs'.find? id = (s.jobs.find? id).map f)
    (hinterval : ∀ job, (f job).intervalSeconds = job.intervalSeconds)
    (hrec : ∀ id job, s.jobs.find? id = some job → job.Records h →
      (f job).Records (⟨s, .run actor choice, s.perform actor jobs' phase'⟩ :: h))
    (hown : ∀ claim, phase'.claim? = some claim → ∀ job,
      s.jobs.find? claim.jobId = some job → claim.intervalSeconds = job.intervalSeconds) :
    TableRecords (⟨s, .run actor choice, s.perform actor jobs' phase'⟩ :: h)
      (s.perform actor jobs' phase') where
  rows id job hfind := by
    rw [State.perform_jobs, hrows, Option.map_eq_some_iff] at hfind
    obtain ⟨row, hrow, rfl⟩ := hfind
    exact hrec id row hrow (hinv.rows id row hrow)
  claims worker claim hclaim job hfind := by
    rw [State.perform_jobs, hrows, Option.map_eq_some_iff] at hfind
    obtain ⟨row, hrow, rfl⟩ := hfind
    rw [hinterval]
    by_cases hactor : worker = actor
    · subst hactor
      rw [State.perform_phase_self] at hclaim
      exact hown claim hclaim row hrow
    · rw [State.perform_phase_of_ne s _ _ hactor] at hclaim
      exact hinv.claims worker claim hclaim row hrow

/-- The step lemma: every statement, in whatever state of the workers, keeps the
table's record. -/
theorem tableRecords_step {h : History (State W) (Action W)} {s s' : State W} {a : Action W}
    (hinv : TableRecords h s) (hstep : step config s a = some s') :
    TableRecords (⟨s, a, s'⟩ :: h) s' := by
  cases step_effect config hstep with
  | outside _ hjobs hphase hnotRun =>
      refine TableRecords.of_quiet (t := ⟨s, a, s'⟩) hinv (fun _ => by rw [hjobs]) ?_ ?_
      · intro worker claim htarget
        rcases hphase worker with heq | heq | heq
        · rwa [heq] at htarget
        · rw [heq] at htarget
          cases htarget
        · rw [heq] at htarget
          cases htarget
      · cases a with
        | run actor choice => exact absurd rfl (hnotRun actor choice)
        | _ => rfl
  | run actor choice hphase _ heffect =>
      cases heffect with
      | quiet hrows hclaim _ hreschedule =>
          refine TableRecords.of_quiet (t := ⟨s, _, s.perform actor _ _⟩) hinv hrows ?_ ?_
          · intro worker claim htarget
            by_cases hactor : worker = actor
            · subst hactor
              rw [State.perform_phase_self] at htarget
              rw [hphase]
              exact hclaim claim htarget
            · rwa [State.perform_phase_of_ne s _ _ hactor] at htarget
          · simp [rescheduleBy, hphase, hreschedule]
      | recover now =>
          have hnone : ∀ s', rescheduleBy ⟨s, .run actor choice, s'⟩ = none := by
            simp [rescheduleBy, hphase, Phase.reschedule?]
          refine TableRecords.of_perform hinv (find?_recoverStaleJobs now s.jobs) ?_ ?_
            (fun claim hclaim => by cases hclaim)
          · intro job
            by_cases hstale : job.isStale now <;> simp [hstale, ScheduledJob.recovered]
          · intro id job _ hrec
            have hkept := hrec.cons (t := ⟨s, .run actor choice, s.perform actor
              (recoverStaleJobs now s.jobs) .recovered⟩) (by simp [completionAt, hnone])
            by_cases hstale : job.isStale now
            · rw [if_pos hstale]
              exact hkept.recovered
            · rw [if_neg hstale]
              exact hkept
      | @claim jobId leasedAt now rest job leaseUntil hfind hpending hdue hlease =>
          have hnone : ∀ s', rescheduleBy ⟨s, .run actor choice, s'⟩ = none := by
            simp [rescheduleBy, hphase, Phase.reschedule?]
          refine TableRecords.of_perform hinv
            (find?_claimJob jobId (config.workerId actor) leaseUntil now s.jobs) ?_ ?_ ?_
          · intro row
            by_cases hclaimable : row.isClaimable jobId now <;>
              simp [hclaimable, ScheduledJob.claimed]
          · intro id row _ hrec
            have hkept := hrec.cons (t := ⟨s, .run actor choice, s.perform actor
              (claimJob jobId (config.workerId actor) leaseUntil now s.jobs).1
              (.claimed ⟨jobId, job.jobName, job.intervalSeconds, leasedAt, leaseUntil⟩ rest)⟩)
              (by simp [completionAt, hnone])
            by_cases hclaimable : row.isClaimable jobId now
            · rw [if_pos hclaimable]
              exact hkept.claimed _ _
            · rw [if_neg hclaimable]
              exact hkept
          · intro claim hclaim row hrow
            cases hclaim
            rw [hfind] at hrow
            cases hrow
            rfl
      | @reschedule claim startedAt finishedAt now error rest jobs' hstored hwrite =>
          have hby : ∀ s', rescheduleBy ⟨s, .run actor choice, s'⟩ =
              some (actor, claim, now) := by
            simp [rescheduleBy, hphase, hstored]
          have hclaim : (s.phase actor).claim? = some claim := by
            rw [hphase]
            rfl
          refine TableRecords.of_perform hinv (find?_rescheduleJob hwrite) ?_ ?_
            (fun claim hnone => by cases hnone)
          · intro row
            by_cases hid : row.id = claim.jobId
            · rw [if_pos hid]
              rfl
            · rw [if_neg hid]
          · intro id row hrow hrec
            by_cases hid : row.id = claim.jobId
            · -- The interval the worker carries is the interval of this row.
              have hinterval : claim.intervalSeconds = row.intervalSeconds := by
                refine hinv.claims actor claim hclaim row ?_
                rw [← hid, Table.key_of_find? hrow, hrow]
              rw [if_pos hid, hinterval]
              exact hrec.rescheduled (by simp [completionAt, hby, hid]) error
            · rw [if_neg hid]
              exact hrec.cons (by simp [completionAt, hby, Ne.symm hid])

/-- Along every run from rows as inserted, the table records the history. -/
theorem tableRecords_of_run {h : History (State W) (Action W)} {s : State W}
    (hrun : (freshWorkers config).Run h s) : TableRecords h s := by
  refine hrun.invariant_of_step (I := TableRecords) ?_ ?_
  · intro s ⟨hstopped, hinserted⟩
    constructor
    · intro id job hfind
      exact (hinserted job (s.jobs.find?_eq_some_iff.mp hfind).1).records
    · intro worker claim hclaim
      rw [hstopped worker] at hclaim
      cases hclaim
  · intro h s a s' _ hinv hstep
    exact tableRecords_step config hinv hstep

/-! ## Reschedules in order -/

/-- The condition on a run: a reschedule is not executed on a row that records a
later completion than its own. -/
def ReschedulesInOrder (_ : History (State W) (Action W)) (t : Transition (State W) (Action W)) :
    Prop :=
  ∀ worker claim now, rescheduleBy t = some (worker, claim, now) →
    ∀ job, t.source.jobs.find? claim.jobId = some job →
      ∀ recorded, job.lastRunAt = some recorded → recorded ≤ now

instance (earlier : History (State W) (Action W)) (t : Transition (State W) (Action W)) :
    Decidable (ReschedulesInOrder earlier t) :=
  decidable_of_iff ((rescheduleBy t).all fun r =>
      (t.source.jobs.find? r.2.1.jobId).all fun job =>
        job.lastRunAt.all fun recorded => decide (recorded ≤ r.2.2)) (by
    simp only [Option.all_eq_true, decide_eq_true_eq]
    constructor
    · intro hall worker claim now hby job hfind recorded hlast
      exact hall _ hby job hfind recorded hlast
    · rintro hok ⟨worker, claim, now⟩ hby job hfind recorded hlast
      exact hok worker claim now hby job hfind recorded hlast)

/-- Every row is due one interval after every completion that was committed. -/
def DueSpaced (h : History (State W) (Action W)) (s : State W) : Prop :=
  ∀ id job, s.jobs.find? id = some job → ∀ completed ∈ completedAt h id,
    completed + timedelta job.intervalSeconds ≤ job.nextRunAt

/-- A step leaves the rows where they are, with the intervals they had. -/
theorem rows_of_step {s s' : State W} {a : Action W} (hstep : step config s a = some s') :
    ∃ f : ScheduledJob → ScheduledJob, (∀ job, (f job).intervalSeconds = job.intervalSeconds) ∧
      ∀ id, s'.jobs.find? id = (s.jobs.find? id).map f := by
  cases step_effect config hstep with
  | outside _ hjobs _ _ => exact ⟨fun job => job, fun _ => rfl, fun id => by simp [hjobs]⟩
  | run actor choice _ _ heffect =>
      cases heffect with
      | quiet hrows _ _ _ => exact ⟨fun job => job, fun _ => rfl, fun id => by simp [hrows]⟩
      | recover now =>
          refine ⟨_, fun job => ?_, find?_recoverStaleJobs now s.jobs⟩
          split <;> rfl
      | claim _ _ _ _ =>
          refine ⟨_, fun job => ?_, find?_claimJob _ _ _ _ s.jobs⟩
          split <;> rfl
      | reschedule _ hwrite =>
          refine ⟨_, fun job => ?_, find?_rescheduleJob hwrite⟩
          split <;> rfl

omit [DecidableEq W] in
/-- A row that has been rescheduled records a completion, and is due one interval after it. -/
theorem ScheduledJob.Records.recorded {job : ScheduledJob} {h : History (State W) (Action W)}
    (hrec : job.Records h) {completed : Time} (hmem : completed ∈ completedAt h job.id) :
    ∃ recorded, job.lastRunAt = some recorded ∧
      job.nextRunAt = recorded + timedelta job.intervalSeconds := by
  cases hlast : job.lastRunAt with
  | some recorded => exact ⟨recorded, rfl, hrec.nextRunAt recorded hlast⟩
  | none =>
      obtain ⟨t, ht, hsome⟩ := List.mem_filterMap.mp hmem
      rw [hrec.lastRunAt, lastCompletion, List.findSome?_eq_none_iff] at hlast
      rw [hlast t ht] at hsome
      cases hsome

omit [DecidableEq W] in
/-- A transition that records a completion executes a reschedule. -/
theorem rescheduleBy_of_completionAt {t : Transition (State W) (Action W)} {jobId : Uuid}
    {now : Time} (hsome : completionAt jobId t = some now) :
    ∃ worker claim, rescheduleBy t = some (worker, claim, now) ∧ claim.jobId = jobId := by
  obtain ⟨⟨worker, claim, now'⟩, hby, hnow⟩ := Option.bind_eq_some_iff.mp hsome
  rw [Option.ite_none_right_eq_some, Option.some.injEq] at hnow
  obtain ⟨hid, rfl⟩ := hnow
  exact ⟨worker, claim, hby, hid⟩

/-- The step lemma: where every row is due one interval after every completion, a step that
meets the condition leaves it so. -/
theorem dueSpaced_step {h : History (State W) (Action W)} {s s' : State W} {a : Action W}
    (hinv : TableRecords h s) (hspaced : DueSpaced h s) (hstep : step config s a = some s')
    (hok : ReschedulesInOrder h ⟨s, a, s'⟩) : DueSpaced (⟨s, a, s'⟩ :: h) s' := by
  intro id job' hfind' completed hmem
  obtain ⟨f, hinterval, hrows⟩ := rows_of_step config hstep
  obtain ⟨job, hfind, rfl⟩ := Option.map_eq_some_iff.mp ((hrows id).symm.trans hfind')
  have hid : job.id = id := Table.key_of_find? hfind
  have hid' : (f job).id = id := Table.key_of_find? hfind'
  have hrec := hinv.rows id job hfind
  have hrec' := (tableRecords_step config hinv hstep).rows id (f job) hfind'
  obtain ⟨recorded', hlast', hnext'⟩ := hrec'.recorded (hid' ▸ hmem)
  -- The row was due one interval after the completion it recorded.
  have hbefore : completed ∈ completedAt h id →
      ∃ recorded, job.lastRunAt = some recorded ∧ completed ≤ recorded := by
    intro hmem
    obtain ⟨recorded, hlast, hnext⟩ := hrec.recorded (hid ▸ hmem)
    have hdue := hspaced id job hfind completed hmem
    exact ⟨recorded, hlast, by lia⟩
  suffices hle : completed ≤ recorded' by
    rw [hnext']
    lia
  rw [hrec'.lastRunAt, hid'] at hlast'
  cases hat : completionAt id (⟨s, a, s'⟩ : Transition (State W) (Action W)) with
  | none =>
      rw [lastCompletion_cons_of_none hat] at hlast'
      obtain ⟨recorded, hlast, hle⟩ := hbefore ((mem_completedAt_cons.mp hmem).resolve_left
        (by simp [hat]))
      rw [hrec.lastRunAt, hid, hlast', Option.some.injEq] at hlast
      exact hlast ▸ hle
  | some now =>
      rw [lastCompletion_cons_of_some hat, Option.some.injEq] at hlast'
      subst hlast'
      rcases mem_completedAt_cons.mp hmem with hnow | hmem
      · rw [hat, Option.some.injEq] at hnow
        exact hnow.ge
      · obtain ⟨worker, claim, hby, hclaim⟩ := rescheduleBy_of_completionAt hat
        obtain ⟨recorded, hlast, hle⟩ := hbefore hmem
        exact hle.trans (hok worker claim now hby job (hclaim ▸ hfind) recorded hlast)

/-- A step that breaks the condition leaves a row due less than one interval after a
completion. -/
theorem inOrder_of_dueSpaced {h : History (State W) (Action W)} {s s' : State W} {a : Action W}
    (hinv : TableRecords h s) (hstep : step config s a = some s')
    (hspaced : DueSpaced (⟨s, a, s'⟩ :: h) s') : ReschedulesInOrder h ⟨s, a, s'⟩ := by
  intro worker claim now hby job hfind recorded hlast
  have hat : completionAt claim.jobId (⟨s, a, s'⟩ : Transition (State W) (Action W)) =
      some now := by
    simp [completionAt, hby]
  obtain ⟨f, hinterval, hrows⟩ := rows_of_step config hstep
  have hfind' : s'.jobs.find? claim.jobId = some (f job) := by rw [hrows, hfind, Option.map_some]
  have hid : job.id = claim.jobId := Table.key_of_find? hfind
  have hid' : (f job).id = claim.jobId := Table.key_of_find? hfind'
  have hrec' := (tableRecords_step config hinv hstep).rows _ _ hfind'
  have hlast' : (f job).lastRunAt = some now := by
    rw [hrec'.lastRunAt, hid', lastCompletion_cons_of_some hat]
  have hmem : recorded ∈ completedAt h claim.jobId := by
    rw [(hinv.rows _ _ hfind).lastRunAt, hid] at hlast
    exact mem_completedAt_of_lastCompletion hlast
  have hdue := hspaced _ _ hfind' recorded (mem_completedAt_cons.mpr (Or.inr hmem))
  rw [hrec'.nextRunAt now hlast'] at hdue
  lia

/-- Along a run that meets the condition, every row is due one interval after every
completion. -/
theorem dueSpaced_of_run {h : History (State W) (Action W)} {s : State W}
    (hrun : (freshWorkers config).Run h s) (hmeets : h.Meets ReschedulesInOrder) :
    DueSpaced h s := by
  refine hrun.invariant (I := DueSpaced) ?_ ?_ hmeets
  · intro s _ id job _ completed hmem
    cases hmem
  · intro h s a s' hprior _ hspaced hstep hok
    exact dueSpaced_step config (tableRecords_of_run config hprior) hspaced hstep hok

/-- No other run keeps its rows due one interval after every completion. -/
theorem meets_iff_dueSpaced {h : History (State W) (Action W)} {s : State W}
    (hrun : (freshWorkers config).Run h s) :
    h.Meets ReschedulesInOrder ↔
      h.Meets fun earlier t => DueSpaced (t :: earlier) t.target := by
  induction hrun with
  | start _ => exact Iff.rfl
  | @extend h s s' a prior hstep ih =>
      rw [History.meets_cons, History.meets_cons, ← ih]
      refine and_congr_left fun hmeets => ⟨fun hok => ?_, fun hspaced => ?_⟩
      · exact dueSpaced_step config (tableRecords_of_run config prior)
          (dueSpaced_of_run config prior hmeets) hstep hok
      · exact inOrder_of_dueSpaced config (tableRecords_of_run config prior) hstep hspaced

/-! ## Spacing -/

/-- A step that wins a claim finds the row due by the clock. -/
theorem due_of_claim {h : History (State W) (Action W)} {s s' : State W} {worker : W}
    {choice : Choice} {claim : Claim} (hrun : (workers config).Run h s)
    (hstep : step config s (.run worker choice) = some s')
    (hsource : (s.phase worker).claim? = none)
    (htarget : (s'.phase worker).claim? = some claim) :
    ∃ job, s.jobs.find? claim.jobId = some job ∧ job.status = .pending ∧
      job.nextRunAt ≤ s.clock := by
  have horder := inOrder_of_run config hrun worker
  cases step_effect config hstep with
  | outside _ _ _ hnotRun => exact absurd rfl (hnotRun worker choice)
  | run _ _ hphase _ heffect =>
      rw [State.perform_phase_self] at htarget
      rw [hphase] at hsource horder
      cases heffect with
      | quiet _ hclaim _ _ =>
          rw [hclaim claim htarget] at hsource
          cases hsource
      | claim hfind hpending hdue _ =>
          cases htarget
          exact ⟨_, hfind, hpending, hdue.trans horder.2⟩
      | recover _ => cases htarget
      | reschedule _ _ => cases htarget

/-- Whoever wins a claim now, one interval has passed since each of these completions. -/
def ClaimsSpaced (completions : Uuid → List Time) (s : State W) : Prop :=
  ∀ worker choice s' claim, step config s (.run worker choice) = some s' →
    (s.phase worker).claim? = none → (s'.phase worker).claim? = some claim →
    ∃ job, s.jobs.find? claim.jobId = some job ∧ job.status = .pending ∧
      ∀ completed ∈ completions claim.jobId,
        completed + timedelta job.intervalSeconds ≤ s.clock

/-- A claim comes no earlier than its row is due. -/
theorem claimsSpaced_of_due {h : History (State W) (Action W)} {s : State W}
    (hrun : (freshWorkers config).Run h s) {completions : Uuid → List Time}
    (hdue : ∀ id job, s.jobs.find? id = some job → ∀ completed ∈ completions id,
      completed + timedelta job.intervalSeconds ≤ job.nextRunAt) :
    ClaimsSpaced config completions s := by
  intro worker choice s' claim hstep hsource htarget
  have hworkers : (workers config).Run h s :=
    System.Run.mono (M := freshWorkers config) (N := workers config)
      (fun _ hinit => hinit.1) rfl hrun
  obtain ⟨job, hfind, hpending, hnext⟩ := due_of_claim config hworkers hstep hsource htarget
  exact ⟨job, hfind, hpending, fun completed hmem => (hdue _ job hfind completed hmem).trans hnext⟩

/-- **Rows and spacing.** Along every run from rows as inserted, every row records the
history, and every claim comes one interval after the completion that was recorded last. If
the reschedules are executed in order, every claim comes one interval after every completion
that was committed; and that is exactly when every row has, after every step, been due one
interval after every completion. -/
theorem spaced_of_run {h : History (State W) (Action W)} {s : State W}
    (hrun : (freshWorkers config).Run h s) :
    (∀ id job, s.jobs.find? id = some job → job.Records h) ∧
      ClaimsSpaced config (fun jobId => (lastCompletion h jobId).toList) s ∧
      (h.Meets ReschedulesInOrder → ClaimsSpaced config (completedAt h) s) ∧
      (h.Meets ReschedulesInOrder ↔
        h.Meets fun earlier t => DueSpaced (t :: earlier) t.target) := by
  have hinv := tableRecords_of_run config hrun
  refine ⟨hinv.rows, ?_, fun hmeets => ?_, meets_iff_dueSpaced config hrun⟩
  · refine claimsSpaced_of_due config hrun fun id job hfind completed hmem => ?_
    have hrec := hinv.rows id job hfind
    rw [Option.mem_toList, ← Table.key_of_find? hfind, ← hrec.lastRunAt] at hmem
    exact (hrec.nextRunAt completed hmem).ge
  · exact claimsSpaced_of_due config hrun (dueSpaced_of_run config hrun hmeets)

/-! ## Two workers, one of them late -/

/-- The workers start over a table of rows as inserted. -/
theorem twoWorkersStart_init : (freshWorkers twoWorkers).init twoWorkersStart := by
  refine ⟨fun _ => rfl, fun job hjob => ?_⟩
  cases List.mem_singleton.mp hjob
  exact ⟨rfl, rfl, rfl, rfl, rfl⟩

/-- A worker goes round its loop once more, to the point where its claim of this row is
executed. -/
def claimAgainActions (worker : Fin 2) (row : ScheduledJob) : List (Action (Fin 2)) :=
  [.run worker .proceed, .run worker .proceed, .run worker .proceed, .run worker .proceed,
    .run worker (.order [row]), .run worker .proceed, .run worker .proceed]

/-- Worker 0 claims the job and builds its reschedule; 121 seconds later worker 1 releases the
claim, claims the job, runs it and reschedules it; then the reschedule of worker 0 is
executed, and it claims the job as soon as that is due. -/
def earlyActions : List (Action (Fin 2)) :=
  claimActions 0 dueJob ++ handleActions 0 ++ [.tick 121000000] ++ claimActions 1 dueJob ++
    handleActions 1 ++ [.run 1 .proceed, .run 0 .proceed, .tick 7079000000] ++
    claimAgainActions 0 ((dueJob.rescheduled 7200 121000000 none).rescheduled 7200 0 none)

/-- The late reschedule: it is executed on a row that records a later completion, and the job
is claimed 7079 seconds after that completion, although its interval is 7200. -/
theorem late_reschedule_forgets_run :
    ∃ h s s' claim, (freshWorkers twoWorkers).Run h s ∧
      step twoWorkers s (.run 0 .proceed) = some s' ∧ (s'.phase 0).claim? = some claim ∧
      121000000 ∈ completedAt h claim.jobId ∧ claim.intervalSeconds = 7200 ∧
      s.clock = 121000000 + timedelta 7079 ∧ ¬ ClaimsSpaced twoWorkers (completedAt h) s := by
  let claim : Claim := ⟨7, "tle_refresh".toList, 7200, 7200000000, 7320000000⟩
  obtain ⟨h, s, hrun, hP⟩ := System.exists_run_of_play twoWorkersStart_init earlyActions
    (fun p => decide ((p.2.phase 0).claim? = none ∧
      ((step twoWorkers p.2 (.run 0 .proceed)).bind fun s' => (s'.phase 0).claim?) =
        some claim ∧ 121000000 ∈ completedAt p.1 7 ∧ p.2.clock = 121000000 + timedelta 7079 ∧
      (p.2.jobs.find? 7).map ScheduledJob.intervalSeconds = some 7200))
    (by decide)
  obtain ⟨hsource, hwon, hmem, hclock, hinterval⟩ := of_decide_eq_true hP
  obtain ⟨s', hstep, htarget⟩ := Option.bind_eq_some_iff.mp hwon
  refine ⟨h, s, s', claim, hrun, hstep, htarget, hmem, rfl, hclock, fun hspaced => ?_⟩
  obtain ⟨job, hfind, -, hdue⟩ := hspaced 0 .proceed s' claim hstep hsource htarget
  have hle := hdue _ hmem
  rw [show s.jobs.find? 7 = some job from hfind, Option.map_some, Option.some.injEq] at hinterval
  rw [hinterval, hclock] at hle
  exact absurd hle (by decide)

/-- The same two runs of the job overlap, but the late reschedule is executed before the
other one. -/
def overlappingActions : List (Action (Fin 2)) :=
  lateActions ++ handleActions 1 ++ [.run 1 .proceed, .tick 7200000000] ++
    claimAgainActions 0 ((dueJob.rescheduled 7200 0 none).rescheduled 7200 121000000 none)

/-- Then the next claim keeps one interval from both. -/
theorem overlapping_runs_spaced :
    ∃ h s s' claim job, (freshWorkers twoWorkers).Run h s ∧ h.Meets ReschedulesInOrder ∧
      step twoWorkers s (.run 0 .proceed) = some s' ∧ (s'.phase 0).claim? = some claim ∧
      s.jobs.find? claim.jobId = some job ∧ job.runCount = 2 ∧ job.Records h ∧
      (0 : Time) + timedelta job.intervalSeconds ≤ s.clock ∧
      (121000000 : Time) + timedelta job.intervalSeconds ≤ s.clock := by
  let claim : Claim := ⟨7, "tle_refresh".toList, 7200, 7321000000, 7441000000⟩
  obtain ⟨h, s, hrun, hP⟩ := System.exists_run_of_play twoWorkersStart_init overlappingActions
    (fun p => decide (completedAt p.1 7 = [121000000, 0] ∧ p.1.Meets ReschedulesInOrder ∧
      (p.2.phase 0).claim? = none ∧
      ((step twoWorkers p.2 (.run 0 .proceed)).bind fun s' => (s'.phase 0).claim?) =
        some claim ∧ (p.2.jobs.find? 7).map ScheduledJob.runCount = some 2))
    (by decide)
  obtain ⟨hcompleted, hmeets, hsource, hwon, hcount⟩ := of_decide_eq_true hP
  obtain ⟨s', hstep, htarget⟩ := Option.bind_eq_some_iff.mp hwon
  obtain ⟨hrows, -, hspaced, -⟩ := spaced_of_run twoWorkers hrun
  obtain ⟨job, hfind, -, hdue⟩ := hspaced hmeets 0 .proceed s' claim hstep hsource htarget
  rw [show s.jobs.find? 7 = some job from hfind, Option.map_some, Option.some.injEq] at hcount
  rw [show completedAt h claim.jobId = _ from hcompleted] at hdue
  exact ⟨h, s, s', claim, job, hrun, hmeets, hstep, htarget, hfind, hcount, hrows _ job hfind,
    hdue 0 (by decide), hdue 121000000 (by decide)⟩

end Apsis.Core.Jobs
