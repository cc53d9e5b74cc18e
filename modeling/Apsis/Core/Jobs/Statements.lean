/-
# The `scheduled_jobs` table and the statements on it

The row of `ScheduledJobORM` and the four SQL statements that `JobWorker` issues:
the recovery of stale rows, the selection of candidates, the claim and the
reschedule. Each is a function of the table and of the Python values that were
bound into it, and each is atomic. The columns that no statement reads
(`description`, `created_at`, `updated_at`) are left out.
-/

import Apsis.Core.Config
import Apsis.Library.Table

namespace Apsis.Core.Jobs

open Apsis.Library

/-- `status`, which only takes the values `'PENDING'` and `'RUNNING'`. -/
inductive Status
  | pending
  | running
  deriving DecidableEq

/-- A row of `scheduled_jobs`. -/
structure ScheduledJob where
  id : Uuid
  jobName : Text
  intervalSeconds : ℤ
  status : Status
  lastRunAt : Option Time
  nextRunAt : Time
  lastError : Option Text
  runCount : ℕ
  claimedBy : Option Text
  leaseUntil : Option Time
  deriving DecidableEq

/-- The table, with its primary key. -/
abbrev JobTable := Table ScheduledJob.id

/-! ## Recovery -/

/-- `lease_until IS NULL OR lease_until < now` -/
def leaseEnded (now : Time) : Option Time → Bool
  | none => true
  | some lease => decide (lease < now)

/-- The `WHERE` of `_recover_stale_jobs`. -/
def ScheduledJob.isStale (now : Time) (job : ScheduledJob) : Bool :=
  decide (job.status = .running) && leaseEnded now job.leaseUntil

/-- The `SET` of `_recover_stale_jobs`. -/
def ScheduledJob.recovered (job : ScheduledJob) : ScheduledJob :=
  { job with status := .pending, claimedBy := none, leaseUntil := none }

theorem ScheduledJob.recovered_id (job : ScheduledJob) : job.recovered.id = job.id := rfl

/-- The statement of `_recover_stale_jobs`. -/
def recoverStaleJobs (now : Time) (jobs : JobTable) : JobTable :=
  jobs.update (ScheduledJob.isStale now) ScheduledJob.recovered ScheduledJob.recovered_id

theorem find?_recoverStaleJobs (now : Time) (jobs : JobTable) (id : Uuid) :
    (recoverStaleJobs now jobs).find? id =
      (jobs.find? id).map fun job => if job.isStale now then job.recovered else job :=
  jobs.find?_update _ _ _ id

/-! ## Selection of candidates -/

/-- `BATCH_SIZE` -/
def batchSize : ℕ := 10

/-- `status = 'PENDING' AND next_run_at <= now`, the condition shared by the
selection and the claim. -/
def ScheduledJob.isDue (now : Time) (job : ScheduledJob) : Bool :=
  decide (job.status = .pending) && decide (job.nextRunAt ≤ now)

theorem ScheduledJob.isDue_iff {now : Time} {job : ScheduledJob} :
    job.isDue now = true ↔ job.status = .pending ∧ job.nextRunAt ≤ now := by
  simp [isDue]

/-- The rows that the `SELECT` of `_process_due_jobs` may sort into `order`.
`ORDER BY next_run_at` leaves the order of equal rows open. -/
def IsDueOrder (now : Time) (jobs : JobTable) (order : List ScheduledJob) : Prop :=
  order.Perm (jobs.rows.filter (ScheduledJob.isDue now)) ∧
    order.Pairwise fun first second => first.nextRunAt ≤ second.nextRunAt

instance (now : Time) (jobs : JobTable) (order : List ScheduledJob) :
    Decidable (IsDueOrder now jobs order) :=
  inferInstanceAs (Decidable (_ ∧ _))

/-- The ids returned by the `SELECT`, given the order the database chose. -/
def candidateIds (order : List ScheduledJob) : List Uuid :=
  (order.take batchSize).map ScheduledJob.id

/-! ## Claim -/

/-- The `WHERE` of the claim. -/
def ScheduledJob.isClaimable (jobId : Uuid) (now : Time) (job : ScheduledJob) : Bool :=
  decide (job.id = jobId) && job.isDue now

/-- The `SET` of the claim. -/
def ScheduledJob.claimed (workerId : Text) (leaseUntil : Time) (job : ScheduledJob) :
    ScheduledJob :=
  { job with status := .running, claimedBy := some workerId, leaseUntil := some leaseUntil }

theorem ScheduledJob.claimed_id (workerId : Text) (leaseUntil : Time) (job : ScheduledJob) :
    (job.claimed workerId leaseUntil).id = job.id := rfl

/-- Phase 1 of `_execute_job`: the conditional `UPDATE .. RETURNING job_name,
interval_seconds`. The second component is the returned row. -/
def claimJob (jobId : Uuid) (workerId : Text) (leaseUntil now : Time) (jobs : JobTable) :
    JobTable × Option (Text × ℤ) :=
  (jobs.update (ScheduledJob.isClaimable jobId now) (ScheduledJob.claimed workerId leaseUntil)
      (ScheduledJob.claimed_id workerId leaseUntil),
    ((jobs.find? jobId).filter (ScheduledJob.isDue now)).map fun job =>
      (job.jobName, job.intervalSeconds))

theorem find?_claimJob (jobId : Uuid) (workerId : Text) (leaseUntil now : Time)
    (jobs : JobTable) (id : Uuid) :
    (claimJob jobId workerId leaseUntil now jobs).1.find? id =
      (jobs.find? id).map fun job =>
        if job.isClaimable jobId now then job.claimed workerId leaseUntil else job :=
  jobs.find?_update _ _ (ScheduledJob.claimed_id workerId leaseUntil) id

/-- A claim returns a row exactly when the row is pending and due. -/
theorem claimJob_eq_some {jobId : Uuid} {workerId : Text} {leaseUntil now : Time}
    {jobs : JobTable} {name : Text} {interval : ℤ}
    (h : (claimJob jobId workerId leaseUntil now jobs).2 = some (name, interval)) :
    ∃ job, jobs.find? jobId = some job ∧ job.status = .pending ∧ job.nextRunAt ≤ now ∧
      job.jobName = name ∧ job.intervalSeconds = interval := by
  simp only [claimJob, Option.map_eq_some_iff, Option.filter_eq_some_iff, Prod.mk.injEq] at h
  obtain ⟨job, ⟨hfind, hdue⟩, hname, hinterval⟩ := h
  obtain ⟨hpending, hnext⟩ := ScheduledJob.isDue_iff.mp hdue
  exact ⟨job, hfind, hpending, hnext, hname, hinterval⟩

/-- A claim that returns no row has changed none. -/
theorem find?_claimJob_of_none {jobId : Uuid} {workerId : Text} {leaseUntil now : Time}
    {jobs : JobTable} (h : (claimJob jobId workerId leaseUntil now jobs).2 = none)
    (id : Uuid) :
    (claimJob jobId workerId leaseUntil now jobs).1.find? id = jobs.find? id := by
  rw [find?_claimJob]
  cases hfind : jobs.find? id with
  | none => rfl
  | some job =>
      have hid : job.id = id := Table.key_of_find? hfind
      have hnot : job.isClaimable jobId now = false := by
        by_cases hjob : job.id = jobId
        · have hlookup : jobs.find? jobId = some job := by rw [← hjob, hid, hfind]
          simp only [claimJob, hlookup, Option.map_eq_none_iff, Option.filter_eq_none_iff] at h
          simpa [ScheduledJob.isClaimable, hjob] using h
        · simp [ScheduledJob.isClaimable, hjob]
      simp [hnot]

/-! ## Reschedule -/

/-- `error[-500:] if error else None` -/
def lastErrorOf : Option Text → Option Text
  | none => none
  | some error => if error.isEmpty then none else some (Text.lastChars 500 error)

/-- The `SET` of the reschedule. -/
def ScheduledJob.rescheduled (intervalSeconds : ℤ) (now : Time) (error : Option Text)
    (job : ScheduledJob) : ScheduledJob :=
  { job with
    status := .pending
    claimedBy := none
    leaseUntil := none
    nextRunAt := now + timedelta intervalSeconds
    lastRunAt := some now
    runCount := job.runCount + 1
    lastError := lastErrorOf error }

theorem ScheduledJob.rescheduled_id (intervalSeconds : ℤ) (now : Time)
    (error : Option Text) (job : ScheduledJob) :
    (job.rescheduled intervalSeconds now error).id = job.id := rfl

/-- Whether PostgreSQL accepts the text bound to `last_error`. -/
def storable : Option Text → Bool
  | none => true
  | some text => !Text.hasNul text

/-- Phase 3 of `_execute_job`: the `UPDATE .. WHERE id = job_id`. A text that
cannot be stored raises, and nothing is written. -/
def rescheduleJob (jobId : Uuid) (intervalSeconds : ℤ) (now : Time) (error : Option Text)
    (jobs : JobTable) : Option JobTable :=
  if storable (lastErrorOf error) then
    some (jobs.update (fun job => decide (job.id = jobId))
      (ScheduledJob.rescheduled intervalSeconds now error)
      (ScheduledJob.rescheduled_id intervalSeconds now error))
  else none

/-- Nothing else than a text it cannot store keeps the reschedule from its row. -/
theorem rescheduleJob_eq_none_iff {jobId : Uuid} {intervalSeconds : ℤ} {now : Time}
    {error : Option Text} {jobs : JobTable} :
    rescheduleJob jobId intervalSeconds now error jobs = none ↔
      storable (lastErrorOf error) = false := by
  unfold rescheduleJob
  split
  · next hstored => simp [hstored]
  · next hnot => simpa using hnot

theorem storable_of_rescheduleJob {jobId : Uuid} {intervalSeconds : ℤ} {now : Time}
    {error : Option Text} {jobs jobs' : JobTable}
    (h : rescheduleJob jobId intervalSeconds now error jobs = some jobs') :
    storable (lastErrorOf error) = true := by
  by_contra hnot
  rw [Bool.not_eq_true] at hnot
  rw [rescheduleJob_eq_none_iff.mpr hnot] at h
  cases h

theorem find?_rescheduleJob {jobId : Uuid} {intervalSeconds : ℤ} {now : Time}
    {error : Option Text} {jobs jobs' : JobTable}
    (h : rescheduleJob jobId intervalSeconds now error jobs = some jobs') (id : Uuid) :
    jobs'.find? id = (jobs.find? id).map fun job =>
      if job.id = jobId then job.rescheduled intervalSeconds now error else job := by
  unfold rescheduleJob at h
  split at h
  · cases h
    simp only [Table.find?_update, decide_eq_true_eq]
  · cases h

end Apsis.Core.Jobs
