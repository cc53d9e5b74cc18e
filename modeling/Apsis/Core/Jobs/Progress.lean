/-
# How soon a job is claimed

A worker on its own takes the ten earliest due rows in each iteration and moves
every one of them behind the rows that were due before. So the rows ahead of a
job become ten fewer with each iteration in which it is not among those taken.
-/

import Apsis.Core.Jobs.Fencing

namespace Apsis.Core.Jobs

open Apsis.Library

universe u

variable {W : Type u}

/-! ## What is ahead of a job -/

/-- Another row that is due no later than the job. -/
def ScheduledJob.isAhead (job other : ScheduledJob) : Bool :=
  decide (other.id ≠ job.id) && decide (other.nextRunAt ≤ job.nextRunAt)

/-- The number of these rows. -/
def ahead (job : ScheduledJob) (jobs : JobTable) : ℕ := jobs.rows.countP job.isAhead

/-- The claim that a transition wins. -/
def claimBy [DecidableEq W] (t : Transition (State W) (Action W)) : Option Claim :=
  match t.action with
  | .run worker _ =>
      if (t.source.phase worker).claim? = none then (t.target.phase worker).claim? else none
  | _ => none

/-- The transition ends an iteration of the worker. -/
def endsIteration [DecidableEq W] (worker : W) (t : Transition (State W) (Action W)) : Bool :=
  match t.action with
  | .run actor _ => decide (actor = worker) && decide (t.source.phase worker = .executing [])
  | _ => false

/-- The transition is a step of the worker. -/
def isStepOf [DecidableEq W] (worker : W) (t : Transition (State W) (Action W)) : Bool :=
  match t.action with
  | .run actor _ => decide (actor = worker)
  | _ => false

/-- The database accepts what the phase is about to write. -/
def Phase.isStorable : Phase → Bool
  | .rescheduling _ _ _ error _ _ => storable (lastErrorOf error)
  | _ => true

/-- Only this worker moves, and the database accepts what it writes. -/
def IsAlone [DecidableEq W] (worker : W) (t : Transition (State W) (Action W)) : Prop :=
  match t.action with
  | .tick _ => True
  | .run actor _ => actor = worker ∧ (t.source.phase worker).isStorable = true
  | _ => False

instance [DecidableEq W] (worker : W) (t : Transition (State W) (Action W)) :
    Decidable (IsAlone worker t) := by
  unfold IsAlone
  split <;> infer_instance

theorem ahead_recoverStaleJobs (job : ScheduledJob) (now : Time) (jobs : JobTable) :
    ahead job (recoverStaleJobs now jobs) = ahead job jobs :=
  jobs.countP_update _ ScheduledJob.recovered_id fun _ => rfl

theorem ahead_claimJob (job : ScheduledJob) (jobId : Uuid) (workerId : Text)
    (leaseUntil now : Time) (jobs : JobTable) :
    ahead job (claimJob jobId workerId leaseUntil now jobs).1 = ahead job jobs :=
  jobs.countP_update _ (ScheduledJob.claimed_id workerId leaseUntil) fun _ => rfl

/-- A reschedule takes its row out of those that are ahead. -/
theorem ahead_rescheduleJob {job row : ScheduledJob} {intervalSeconds : ℤ} {now : Time}
    {error : Option Text} {jobs jobs' : JobTable} (hinterval : 1 ≤ intervalSeconds)
    (hnow : job.nextRunAt ≤ now) (hfind : jobs.find? row.id = some row)
    (hahead : job.isAhead row = true)
    (hwrite : rescheduleJob row.id intervalSeconds now error jobs = some jobs') :
    ahead job jobs' + 1 = ahead job jobs := by
  unfold rescheduleJob at hwrite
  split at hwrite
  · cases hwrite
    apply jobs.countP_update_key (ScheduledJob.rescheduled_id _ _ _) hfind hahead
    have hlater : ¬ now + timedelta intervalSeconds ≤ job.nextRunAt := by
      simp only [timedelta]
      lia
    simp [ScheduledJob.isAhead, ScheduledJob.rescheduled, hlater]
  · cases hwrite

/-! ## The job and those ahead of it in an iteration -/

section Invariant

variable (job : ScheduledJob) (start : Time) (k iterations : ℕ)

/-- The row of the job can be claimed, once a recovery built after `start` has been
executed. -/
def IsFree (jobs : JobTable) : Prop :=
  ∃ row, jobs.find? job.id = some row ∧ row.nextRunAt = job.nextRunAt ∧
    (row.status = .pending ∨ leaseEnded start row.leaseUntil = true)

/-- The row of the job can be claimed. -/
def IsWaiting (jobs : JobTable) : Prop :=
  ∃ row, jobs.find? job.id = some row ∧ row.nextRunAt = job.nextRunAt ∧ row.status = .pending

/-- These rows are different ones and can be claimed since the reading. -/
def Listed (since : Time) (ids : List Uuid) (jobs : JobTable) : Prop :=
  ids.Nodup ∧ ∀ id ∈ ids, ∃ row, jobs.find? id = some row ∧ row.status = .pending ∧
    row.nextRunAt ≤ since

/-- The rows that the iteration has still to reschedule: the job is one of them, or
they are ten, less those already behind the job, and all of them ahead. -/
def Owed (ids : List Uuid) (jobs : JobTable) : Prop :=
  ids.length ≤ 10 ∧ (job.id ∈ ids ∨
    (∀ id ∈ ids, ∀ row, jobs.find? id = some row → row.nextRunAt ≤ job.nextRunAt) ∧
      ahead job jobs + 10 * iterations + 10 ≤ k + ids.length)

/-- A worker with a claim of another row. -/
def IsWorking (clock : Time) (claim : Claim) (rest : List Uuid) (jobs : JobTable) : Prop :=
  claim.jobId ≠ job.id ∧ 1 ≤ claim.intervalSeconds ∧ claim.jobId ∉ rest ∧
    (∃ row, jobs.find? claim.jobId = some row) ∧ Listed clock rest jobs ∧
      Owed job k iterations (claim.jobId :: rest) jobs

/-- How far the worker has come towards the job, which it has not yet claimed. -/
def OnTheWay (jobs : JobTable) (clock : Time) : Phase → Prop
  | .stopped => False
  | .polling => IsFree job start jobs ∧ ahead job jobs + 10 * iterations ≤ k
  | .recovering now =>
      start ≤ now ∧ IsFree job start jobs ∧ ahead job jobs + 10 * iterations ≤ k
  | .recovered => IsWaiting job jobs ∧ ahead job jobs + 10 * iterations ≤ k
  | .selecting now =>
      job.nextRunAt ≤ now ∧ now ≤ clock ∧ IsWaiting job jobs ∧
        ahead job jobs + 10 * iterations ≤ k
  | .executing rest =>
      IsWaiting job jobs ∧ Listed clock rest jobs ∧ Owed job k iterations rest jobs
  | .leasing jobId _ rest =>
      IsWaiting job jobs ∧ Listed clock (jobId :: rest) jobs ∧
        Owed job k iterations (jobId :: rest) jobs
  | .claiming jobId _ now rest =>
      now ≤ clock ∧ IsWaiting job jobs ∧ Listed now (jobId :: rest) jobs ∧
        Owed job k iterations (jobId :: rest) jobs
  | .claimed claim rest => IsWaiting job jobs ∧ IsWorking job k iterations clock claim rest jobs
  | .handling claim _ rest =>
      IsWaiting job jobs ∧ IsWorking job k iterations clock claim rest jobs
  | .handled claim _ _ _ rest =>
      IsWaiting job jobs ∧ IsWorking job k iterations clock claim rest jobs
  | .rescheduling claim _ _ _ now rest =>
      job.nextRunAt ≤ now ∧ IsWaiting job jobs ∧
        IsWorking job k iterations clock claim rest jobs

end Invariant

/-- Every job is to be repeated after a second or more. -/
def HasIntervals (jobs : JobTable) : Prop :=
  ∀ id row, jobs.find? id = some row → 1 ≤ row.intervalSeconds

variable {job : ScheduledJob} {start : Time} {k iterations : ℕ} {jobs jobs' : JobTable}

theorem leaseEnded_mono {now : Time} (hle : start ≤ now) {lease : Option Time}
    (hended : leaseEnded start lease = true) : leaseEnded now lease = true := by
  cases lease with
  | none => rfl
  | some until_ =>
      simp only [leaseEnded, decide_eq_true_eq] at hended ⊢
      exact hended.trans_le hle

theorem IsWaiting.isFree (hwaits : IsWaiting job jobs) : IsFree job start jobs := by
  obtain ⟨row, hfind, hnext, hpending⟩ := hwaits
  exact ⟨row, hfind, hnext, Or.inl hpending⟩

/-- The recovery makes a free row claimable. -/
theorem IsFree.recover (hfree : IsFree job start jobs) {now : Time} (hnow : start ≤ now) :
    IsWaiting job (recoverStaleJobs now jobs) := by
  obtain ⟨row, hfind, hnext, hstatus⟩ := hfree
  refine ⟨_, by rw [find?_recoverStaleJobs, hfind]; rfl, ?_⟩
  dsimp only
  split
  · exact ⟨hnext, rfl⟩
  · next hnot =>
      refine ⟨hnext, ?_⟩
      rcases hstatus with hpending | hended
      · exact hpending
      · cases hrow : row.status with
        | pending => rfl
        | running => simp [ScheduledJob.isStale, hrow, leaseEnded_mono hnow hended] at hnot

theorem IsWaiting.congr (hwaits : IsWaiting job jobs)
    (hsame : jobs'.find? job.id = jobs.find? job.id) : IsWaiting job jobs' := by
  unfold IsWaiting
  rw [hsame]
  exact hwaits

theorem Listed.congr {since : Time} {ids : List Uuid} (hlisted : Listed since ids jobs)
    (hsame : ∀ id ∈ ids, jobs'.find? id = jobs.find? id) : Listed since ids jobs' := by
  refine ⟨hlisted.1, fun id hid => ?_⟩
  rw [hsame id hid]
  exact hlisted.2 id hid

theorem Listed.mono {since since' : Time} {ids : List Uuid} (hlisted : Listed since ids jobs)
    (hle : since ≤ since') : Listed since' ids jobs := by
  refine ⟨hlisted.1, fun id hid => ?_⟩
  obtain ⟨row, hfind, hpending, hdue⟩ := hlisted.2 id hid
  exact ⟨row, hfind, hpending, hdue.trans hle⟩

theorem Listed.tail {since : Time} {id : Uuid} {ids : List Uuid}
    (hlisted : Listed since (id :: ids) jobs) : id ∉ ids ∧ Listed since ids jobs := by
  obtain ⟨hnot, hnodup⟩ := List.nodup_cons.mp hlisted.1
  exact ⟨hnot, hnodup, fun other hmem => hlisted.2 other (List.mem_cons_of_mem id hmem)⟩

/-- A statement that leaves the due times alone keeps what is owed. -/
theorem Owed.congr {ids : List Uuid} (howed : Owed job k iterations ids jobs)
    (hahead : ahead job jobs' = ahead job jobs)
    (hnext : ∀ id row', jobs'.find? id = some row' → ∃ row, jobs.find? id = some row ∧
      row'.nextRunAt = row.nextRunAt) : Owed job k iterations ids jobs' := by
  refine ⟨howed.1, howed.2.imp_right fun ⟨hall, hcount⟩ => ⟨fun id hid row' hfind => ?_, ?_⟩⟩
  · obtain ⟨row, hrow, hsame⟩ := hnext id row' hfind
    rw [hsame]
    exact hall id hid row hrow
  · rw [hahead]
    exact hcount

theorem find?_claimJob_of_ne {jobId id : Uuid} (hne : id ≠ jobId) (workerId : Text)
    (leaseUntil now : Time) :
    (claimJob jobId workerId leaseUntil now jobs).1.find? id = jobs.find? id := by
  rw [find?_claimJob]
  cases hfind : jobs.find? id with
  | none => rfl
  | some row =>
      have hid : row.id ≠ jobId := by
        rw [Table.key_of_find? hfind]
        exact hne
      simp [ScheduledJob.isClaimable, hid]

theorem find?_rescheduleJob_of_ne {jobId id : Uuid} (hne : id ≠ jobId) {intervalSeconds : ℤ}
    {now : Time} {error : Option Text}
    (hwrite : rescheduleJob jobId intervalSeconds now error jobs = some jobs') :
    jobs'.find? id = jobs.find? id := by
  rw [find?_rescheduleJob hwrite]
  cases hfind : jobs.find? id with
  | none => rfl
  | some row =>
      have hid : row.id ≠ jobId := by
        rw [Table.key_of_find? hfind]
        exact hne
      simp [hid]

/-- The ten earliest due rows: the job is one of them, or they are all ahead. -/
theorem owed_of_isDueOrder {now : Time} {rows : List ScheduledJob}
    (horder : IsDueOrder now jobs rows) (hnow : job.nextRunAt ≤ now)
    (hwaits : IsWaiting job jobs) (hahead : ahead job jobs + 10 * iterations ≤ k) :
    Listed now (candidateIds rows) jobs ∧ Owed job k iterations (candidateIds rows) jobs := by
  obtain ⟨own, hfind, hnext, hpending⟩ := hwaits
  have hrows : ∀ row ∈ rows, row ∈ jobs.rows ∧ row.isDue now = true := by
    intro row hmem
    exact List.mem_filter.mp (horder.1.mem_iff.mp hmem)
  have hnodup : (rows.map ScheduledJob.id).Nodup := by
    rw [(horder.1.map ScheduledJob.id).nodup_iff]
    exact jobs.nodup.sublist (List.filter_sublist.map ScheduledJob.id)
  have hlength : (candidateIds rows).length ≤ 10 := by
    rw [candidateIds, List.length_map, List.length_take]
    exact min_le_left _ _
  refine ⟨⟨?_, ?_⟩, hlength, ?_⟩
  · rw [candidateIds, List.map_take]
    exact hnodup.sublist (List.take_sublist _ _)
  · intro id hid
    obtain ⟨row, hmem, rfl⟩ := List.mem_map.mp hid
    obtain ⟨hrow, hdue⟩ := hrows row (List.mem_of_mem_take hmem)
    obtain ⟨hstatus, hnextRow⟩ := ScheduledJob.isDue_iff.mp hdue
    exact ⟨row, Table.find?_key hrow, hstatus, hnextRow⟩
  · obtain ⟨hown, hownId⟩ := jobs.find?_eq_some_iff.mp hfind
    have hmem : own ∈ rows := by
      rw [horder.1.mem_iff, List.mem_filter]
      exact ⟨hown, ScheduledJob.isDue_iff.mpr ⟨hpending, hnext ▸ hnow⟩⟩
    rw [← List.take_append_drop batchSize rows, List.mem_append] at hmem
    rcases hmem with hfirst | hlater
    · left
      rw [← hownId]
      exact List.mem_map_of_mem hfirst
    · -- The job comes after ten others, which are due no later.
      right
      have hpairwise := horder.2
      rw [← List.take_append_drop batchSize rows] at hpairwise
      constructor
      · intro id hid row hrow
        obtain ⟨other, hother, rfl⟩ := List.mem_map.mp hid
        have hsame : row = other := by
          have hotherRow := Table.find?_key (hrows other (List.mem_of_mem_take hother)).1
          rw [hrow] at hotherRow
          exact Option.some.inj hotherRow
        rw [hsame, ← hnext]
        exact (List.pairwise_append.mp hpairwise).2.2 other hother own hlater
      · have hpos := List.length_pos_of_mem hlater
        rw [List.length_drop] at hpos
        have hten : (candidateIds rows).length = 10 := by
          rw [candidateIds, List.length_map, List.length_take]
          simp only [batchSize] at hpos ⊢
          lia
        lia

/-! ## Steps of the worker -/

/-- The claim of another row. -/
theorem working_of_claim {jobId : Uuid} {workerId : Text} {leaseUntil now clock leasedAt : Time}
    {rest : List Uuid} {row : ScheduledJob} (hne : jobId ≠ job.id)
    (hfind : jobs.find? jobId = some row) (hinterval : 1 ≤ row.intervalSeconds)
    (hnow : now ≤ clock) (hlisted : Listed now (jobId :: rest) jobs)
    (howed : Owed job k iterations (jobId :: rest) jobs) :
    IsWorking job k iterations clock
      ⟨jobId, row.jobName, row.intervalSeconds, leasedAt, leaseUntil⟩ rest
      (claimJob jobId workerId leaseUntil now jobs).1 := by
  obtain ⟨hnot, hrest⟩ := hlisted.tail
  refine ⟨hne, hinterval, hnot, ⟨_, by rw [find?_claimJob, hfind]; rfl⟩, ?_, ?_⟩
  · apply (hrest.mono hnow).congr
    intro id hid
    apply find?_claimJob_of_ne
    rintro rfl
    exact hnot hid
  · apply howed.congr (ahead_claimJob job jobId workerId leaseUntil now jobs)
    intro id row' hrow'
    rw [find?_claimJob, Option.map_eq_some_iff] at hrow'
    obtain ⟨before, hbefore, rfl⟩ := hrow'
    refine ⟨before, hbefore, ?_⟩
    split <;> rfl

/-- The reschedule of another row. -/
theorem executing_of_reschedule {claim : Claim} {now clock : Time} {error : Option Text}
    {rest : List Uuid} (hnow : job.nextRunAt ≤ now)
    (hworking : IsWorking job k iterations clock claim rest jobs)
    (hwrite : rescheduleJob claim.jobId claim.intervalSeconds now error jobs = some jobs') :
    Listed clock rest jobs' ∧ Owed job k iterations rest jobs' := by
  obtain ⟨hne, hinterval, hnot, ⟨row, hrow⟩, hlisted, hlength, howed⟩ := hworking
  have hkept : ∀ id ∈ rest, jobs'.find? id = jobs.find? id := by
    intro id hid
    apply find?_rescheduleJob_of_ne _ hwrite
    rintro rfl
    exact hnot hid
  refine ⟨hlisted.congr hkept, ?_, ?_⟩
  · simp only [List.length_cons] at hlength
    lia
  · rcases howed with hmem | ⟨hall, hcount⟩
    · exact Or.inl ((List.mem_cons.mp hmem).resolve_left (Ne.symm hne))
    · right
      constructor
      · intro id hid other hother
        rw [hkept id hid] at hother
        exact hall id (List.mem_cons_of_mem _ hid) other hother
      · have hid : row.id = claim.jobId := Table.key_of_find? hrow
        have hrowAhead : job.isAhead row = true := by
          have hnext := hall claim.jobId List.mem_cons_self row hrow
          simp [ScheduledJob.isAhead, hid, hne, hnext]
        rw [← hid] at hrow hwrite
        have hfewer := ahead_rescheduleJob hinterval hnow hrow hrowAhead hwrite
        simp only [List.length_cons] at hcount
        lia

/-- No statement changes an interval. -/
theorem HasIntervals.congr (hintervals : HasIntervals jobs)
    (hsame : ∀ id row', jobs'.find? id = some row' → ∃ row, jobs.find? id = some row ∧
      row'.intervalSeconds = row.intervalSeconds) : HasIntervals jobs' := by
  intro id row' hfind
  obtain ⟨row, hrow, hinterval⟩ := hsame id row' hfind
  rw [hinterval]
  exact hintervals id row hrow

variable (config : Config W)

theorem hasIntervals_runStep {worker : W} {clock : Time} {phase phase' : Phase} {choice : Choice}
    (h : runStep config worker clock jobs phase choice = some (jobs', phase'))
    (hintervals : HasIntervals jobs) : HasIntervals jobs' := by
  apply hintervals.congr
  cases runStep_effect config h with
  | quiet hrows _ _ _ =>
      intro id row' hfind
      rw [hrows] at hfind
      exact ⟨row', hfind, rfl⟩
  | recover now =>
      intro id row' hfind
      rw [find?_recoverStaleJobs, Option.map_eq_some_iff] at hfind
      obtain ⟨row, hrow, rfl⟩ := hfind
      refine ⟨row, hrow, ?_⟩
      split <;> rfl
  | claim _ _ _ _ =>
      intro id row' hfind
      rw [find?_claimJob, Option.map_eq_some_iff] at hfind
      obtain ⟨row, hrow, rfl⟩ := hfind
      refine ⟨row, hrow, ?_⟩
      split <;> rfl
  | reschedule _ hwrite =>
      intro id row' hfind
      rw [find?_rescheduleJob hwrite, Option.map_eq_some_iff] at hfind
      obtain ⟨row, hrow, rfl⟩ := hfind
      refine ⟨row, hrow, ?_⟩
      split <;> rfl

/-- The step lemma: a step of the worker claims the job or leaves it on its way. -/
theorem onTheWay_runStep {worker : W} {clock : Time} {phase phase' : Phase} {choice : Choice}
    (h : runStep config worker clock jobs phase choice = some (jobs', phase'))
    (hstorable : phase.isStorable = true) (hstart : start ≤ clock) (hdue : job.nextRunAt ≤ start)
    (hintervals : HasIntervals jobs)
    (hway : OnTheWay job start k iterations jobs clock phase) :
    (phase.claim? = none ∧ ∃ claim, phase'.claim? = some claim ∧ claim.jobId = job.id) ∨
      OnTheWay job start k (if phase = .executing [] then iterations + 1 else iterations) jobs'
        clock phase' := by
  unfold runStep at h
  split at h
  case h_1 =>
      cases h
      exact Or.inr ⟨hstart, hway⟩
  case h_2 now =>
      cases h
      obtain ⟨hnow, hfree, hahead⟩ := hway
      exact Or.inr ⟨hfree.recover hnow, by rw [ahead_recoverStaleJobs]; exact hahead⟩
  case h_3 =>
      cases h
      exact Or.inr ⟨hdue.trans hstart, le_rfl, hway⟩
  case h_4 now rows =>
      split at h <;> cases h
      next horder =>
      obtain ⟨hnow, hclock, hwaits, hahead⟩ := hway
      obtain ⟨hlisted, howed⟩ := owed_of_isDueOrder horder hnow hwaits hahead
      exact Or.inr ⟨hwaits, hlisted.mono hclock, howed⟩
  case h_5 =>
      cases h
      obtain ⟨hwaits, -, -, howed⟩ := hway
      rcases howed with hmem | ⟨-, hcount⟩
      · cases hmem
      · refine Or.inr ⟨hwaits.isFree, ?_⟩
        simp only [List.length_nil] at hcount
        rw [if_pos rfl]
        lia
  case h_6 jobId rest =>
      cases h
      exact Or.inr hway
  case h_7 jobId leasedAt rest =>
      cases h
      exact Or.inr ⟨le_rfl, hway⟩
  case h_8 jobId leasedAt now rest =>
      obtain ⟨hnow, hwaits, hlisted, howed⟩ := hway
      obtain ⟨row, hrow, hpending, hnext⟩ := hlisted.2 jobId List.mem_cons_self
      dsimp only at h
      split at h
      · next hnone =>
          -- Nobody else has taken the row since it was selected.
          exfalso
          simp only [claimJob, hrow, Option.map_eq_none_iff, Option.filter_eq_none_iff] at hnone
          exact hnone row rfl (ScheduledJob.isDue_iff.mpr ⟨hpending, hnext⟩)
      · next jobName intervalSeconds hsome =>
          obtain ⟨row', hrow', -, -, rfl, rfl⟩ := claimJob_eq_some hsome
          cases h
          by_cases hown : jobId = job.id
          · exact Or.inl ⟨rfl, _, rfl, hown⟩
          · refine Or.inr ⟨?_, ?_⟩
            · exact hwaits.congr (find?_claimJob_of_ne (Ne.symm hown) _ _ _)
            · exact working_of_claim hown hrow' (hintervals jobId row' hrow') hnow hlisted howed
  case h_9 claim rest =>
      split at h <;> cases h <;> exact Or.inr hway
  case h_10 claim startedAt rest error =>
      cases h
      exact Or.inr hway
  case h_11 claim startedAt finishedAt error rest =>
      cases h
      exact Or.inr ⟨hdue.trans hstart, hway⟩
  case h_12 claim startedAt finishedAt error now rest =>
      obtain ⟨hnow, hwaits, hworking⟩ := hway
      split at h
      · next hrejected =>
          have hstored : storable (lastErrorOf error) = true := hstorable
          rw [rescheduleJob_eq_none_iff.mp hrejected] at hstored
          cases hstored
      · next jobs'' hwrite =>
          cases h
          refine Or.inr ⟨?_, executing_of_reschedule hnow hworking hwrite⟩
          exact hwaits.congr (find?_rescheduleJob_of_ne (Ne.symm hworking.1) hwrite)
  case h_13 => cases h

/-! ## Along a continuation -/

/-- The place in an iteration, in steps from its beginning. -/
def Phase.position : Phase → ℕ
  | .stopped => 0
  | .polling => 0
  | .recovering _ => 1
  | .recovered => 2
  | .selecting _ => 3
  | .executing rest => 4 + 7 * (10 - rest.length)
  | .leasing _ _ rest => 5 + 7 * (9 - rest.length)
  | .claiming _ _ _ rest => 6 + 7 * (9 - rest.length)
  | .claimed _ rest => 7 + 7 * (9 - rest.length)
  | .handling _ _ rest => 8 + 7 * (9 - rest.length)
  | .handled _ _ _ _ rest => 9 + 7 * (9 - rest.length)
  | .rescheduling _ _ _ _ _ rest => 10 + 7 * (9 - rest.length)

/-- An iteration has at most 75 steps, the last of which leads to the next one. -/
theorem position_runStep {worker : W} {clock : Time} {phase phase' : Phase} {choice : Choice}
    (h : runStep config worker clock jobs phase choice = some (jobs', phase'))
    (hstorable : phase.isStorable = true)
    (hway : OnTheWay job start k iterations jobs clock phase) :
    if phase = .executing [] then phase.position = 74 ∧ phase'.position = 0
    else phase.position < phase'.position := by
  unfold runStep at h
  split at h
  case h_4 =>
      split at h <;> cases h
      simp [Phase.position]
      lia
  case h_5 =>
      cases h
      simp [Phase.position]
  case h_6 jobId rest =>
      cases h
      simp [Phase.position]
  case h_8 jobId leasedAt now rest =>
      dsimp only at h
      have hlength := hway.2.2.2.1
      simp only [List.length_cons] at hlength
      split at h <;> cases h <;> simp [Phase.position]
      lia
  case h_9 => split at h <;> cases h <;> simp [Phase.position]
  case h_12 claim startedAt finishedAt error now rest =>
      have hlength := hway.2.2.2.2.2.2.2.1
      simp only [List.length_cons] at hlength
      split at h
      · next hrejected =>
          have hstored : storable (lastErrorOf error) = true := hstorable
          rw [rescheduleJob_eq_none_iff.mp hrejected] at hstored
          cases hstored
      · cases h
        simp [Phase.position]
        lia
  case h_13 => cases h
  all_goals
    cases h
    simp [Phase.position]

theorem IsWorking.mono {clock clock' : Time} {claim : Claim} {rest : List Uuid}
    (hworking : IsWorking job k iterations clock claim rest jobs) (hle : clock ≤ clock') :
    IsWorking job k iterations clock' claim rest jobs := by
  obtain ⟨hne, hinterval, hnot, hrow, hlisted, howed⟩ := hworking
  exact ⟨hne, hinterval, hnot, hrow, hlisted.mono hle, howed⟩

/-- Time that passes does not set the worker back. -/
theorem OnTheWay.mono {clock clock' : Time} {phase : Phase}
    (hway : OnTheWay job start k iterations jobs clock phase) (hle : clock ≤ clock') :
    OnTheWay job start k iterations jobs clock' phase := by
  cases phase with
  | stopped | polling | recovering _ | recovered => exact hway
  | selecting now =>
      obtain ⟨hnow, hclock, hrest⟩ := hway
      exact ⟨hnow, hclock.trans hle, hrest⟩
  | executing rest =>
      obtain ⟨hwaits, hlisted, howed⟩ := hway
      exact ⟨hwaits, hlisted.mono hle, howed⟩
  | leasing jobId leasedAt rest =>
      obtain ⟨hwaits, hlisted, howed⟩ := hway
      exact ⟨hwaits, hlisted.mono hle, howed⟩
  | claiming jobId leasedAt now rest =>
      obtain ⟨hclock, hrest⟩ := hway
      exact ⟨hclock.trans hle, hrest⟩
  | claimed _ _ | handling _ _ _ | handled _ _ _ _ _ => exact ⟨hway.1, hway.2.mono hle⟩
  | rescheduling _ _ _ _ _ _ => exact ⟨hway.1, hway.2.1, hway.2.2.mono hle⟩

theorem Phase.position_le (phase : Phase) : phase.position ≤ 74 := by
  cases phase <;> simp only [position] <;> lia

/-- At the top of the loop, the rows ahead have room for the iterations so far. -/
theorem OnTheWay.iterations_le {clock : Time}
    (hway : OnTheWay job start k iterations jobs clock .polling) : 10 * iterations ≤ k :=
  (Nat.le_add_left _ _).trans hway.2

variable [DecidableEq W]

/-- The worker is on its way to the job after a continuation in which it has not
claimed it. -/
structure IsApproaching (job : ScheduledJob) (start : Time) (k : ℕ) (worker : W)
    (late : History (State W) (Action W)) (s : State W) : Prop where
  clock : start ≤ s.clock
  intervals : HasIntervals s.jobs
  way : OnTheWay job start k (late.countP (endsIteration worker)) s.jobs s.clock (s.phase worker)
  iterations : 10 * late.countP (endsIteration worker) ≤ k
  steps : late.countP (isStepOf worker) ≤
    75 * late.countP (endsIteration worker) + (s.phase worker).position

/-- A transition claims the job. -/
def claimsJob (jobId : Uuid) (t : Transition (State W) (Action W)) : Prop :=
  ∃ claim, claimBy t = some claim ∧ claim.jobId = jobId

/-- The step lemma for a worker alone. -/
theorem isApproaching_step {late : History (State W) (Action W)} {s s' : State W} {a : Action W}
    {worker : W} (hdue : job.nextRunAt ≤ start) (hstep : step config s a = some s')
    (halone : IsAlone worker ⟨s, a, s'⟩)
    (happroaching : IsApproaching job start k worker late s) :
    claimsJob job.id ⟨s, a, s'⟩ ∨ IsApproaching job start k worker (⟨s, a, s'⟩ :: late) s' := by
  cases a with
  | tick elapsed =>
      have hclock : s.clock ≤ s.clock + elapsed := by lia
      cases hstep
      right
      exact
        { clock := happroaching.clock.trans hclock
          intervals := happroaching.intervals
          way := by simpa [endsIteration] using happroaching.way.mono hclock
          iterations := by simpa [endsIteration] using happroaching.iterations
          steps := by simpa [endsIteration, isStepOf] using happroaching.steps }
  | start _ | crash _ | abort _ => exact halone.elim
  | run actor choice =>
      obtain ⟨rfl, hstorable⟩ := halone
      simp only [step, Option.map_eq_some_iff] at hstep
      obtain ⟨⟨jobs', phase'⟩, hrun, rfl⟩ := hstep
      have hposition := position_runStep config hrun hstorable happroaching.way
      rcases onTheWay_runStep config hrun hstorable happroaching.clock hdue
        happroaching.intervals happroaching.way with ⟨hnone, claim, hclaim, hid⟩ | hway
      · left
        refine ⟨claim, ?_, hid⟩
        simp [claimBy, hnone, hclaim]
      · right
        have hends : ∀ s', endsIteration actor ⟨s, .run actor choice, s'⟩ =
            decide (s.phase actor = .executing []) := by
          simp [endsIteration]
        have hsteps := happroaching.steps
        have hiterations := happroaching.iterations
        have hintervals := hasIntervals_runStep config hrun happroaching.intervals
        by_cases hlast : s.phase actor = .executing []
        · rw [if_pos hlast] at hway hposition
          have hphase : phase' = .polling := by
            rw [hlast] at hrun
            cases choice <;> cases hrun
            rfl
          subst hphase
          have hroom := hway.iterations_le
          constructor
          · exact happroaching.clock
          · exact hintervals
          · simpa [hends, hlast] using hway
          · simpa [hends, hlast] using hroom
          · simp [hends, hlast, isStepOf]
            lia
        · rw [if_neg hlast] at hway hposition
          constructor
          · exact happroaching.clock
          · exact hintervals
          · simpa [hends, hlast] using hway
          · simpa [hends, hlast] using hiterations
          · simp [hends, hlast, isStepOf]
            lia

/-- The run lemma for a worker alone. -/
theorem isApproaching_of_run {s s' : State W} {late : History (State W) (Action W)} {worker : W}
    (hdue : job.nextRunAt ≤ start) (hstart : IsApproaching job start k worker [] s)
    (hrun : ((workers config).startingIn s).Run late s')
    (halone : ∀ t ∈ late, IsAlone worker t) (hnot : ∀ t ∈ late, ¬ claimsJob job.id t) :
    IsApproaching job start k worker late s' := by
  induction hrun with
  | start hinit =>
      cases hinit
      exact hstart
  | extend _ hstep ih =>
      have hearlier := ih (fun t ht => halone t (List.mem_cons_of_mem _ ht))
        (fun t ht => hnot t (List.mem_cons_of_mem _ ht))
      rcases isApproaching_step config hdue hstep (halone _ List.mem_cons_self) hearlier with
        hclaims | hnext
      · exact absurd hclaims (hnot _ List.mem_cons_self)
      · exact hnext

omit [DecidableEq W] in
theorem exists_isDueOrder (now : Time) (jobs : JobTable) : ∃ rows, IsDueOrder now jobs rows := by
  let earlier (first second : ScheduledJob) : Bool := decide (first.nextRunAt ≤ second.nextRunAt)
  refine ⟨(jobs.rows.filter (ScheduledJob.isDue now)).mergeSort earlier, ?_, ?_⟩
  · apply List.mergeSort_perm
  · have htrans : ∀ a b c, earlier a b = true → earlier b c = true → earlier a c = true :=
      fun a b c hab hbc =>
        decide_eq_true ((of_decide_eq_true hab).trans (of_decide_eq_true hbc))
    have htotal : ∀ a b, (earlier a b || earlier b a) = true :=
      fun a b => by simpa [earlier] using le_total a.nextRunAt b.nextRunAt
    have hsorted := List.pairwise_mergeSort htrans htotal
      (jobs.rows.filter (ScheduledJob.isDue now))
    exact hsorted.imp fun hle => of_decide_eq_true hle

omit [DecidableEq W] in
/-- A worker that has been started can take its next step. -/
theorem exists_runStep (worker : W) (clock : Time) (jobs : JobTable) {phase : Phase}
    (hlive : phase ≠ .stopped) :
    ∃ choice result, runStep config worker clock jobs phase choice = some result := by
  cases phase with
  | stopped => exact absurd rfl hlive
  | selecting now =>
      obtain ⟨rows, horder⟩ := exists_isDueOrder now jobs
      exact ⟨.order rows, (jobs, .executing (candidateIds rows)), if_pos horder⟩
  | executing rest => cases rest <;> exact ⟨.proceed, _, rfl⟩
  | claiming jobId leasedAt now rest =>
      refine ⟨.proceed, ?_⟩
      simp only [runStep]
      split <;> exact ⟨_, rfl⟩
  | claimed claim rest =>
      refine ⟨.proceed, ?_⟩
      simp only [runStep]
      split <;> exact ⟨_, rfl⟩
  | handling claim startedAt rest => exact ⟨.outcome none, _, rfl⟩
  | rescheduling claim startedAt finishedAt error now rest =>
      refine ⟨.proceed, ?_⟩
      simp only [runStep]
      split <;> exact ⟨_, rfl⟩
  | polling | recovering _ | recovered | leasing _ _ _ | handled _ _ _ _ _ =>
      exact ⟨.proceed, _, rfl⟩

omit [DecidableEq W] in
theorem ne_stopped_of_runStep {worker : W} {clock : Time} {phase phase' : Phase} {choice : Choice}
    (h : runStep config worker clock jobs phase choice = some (jobs', phase')) :
    phase' ≠ .stopped := by
  rintro rfl
  unfold runStep at h
  split at h
  case h_8 =>
      dsimp only at h
      split at h <;> cases h
  case h_4 | h_9 | h_12 => split at h <;> cases h
  all_goals cases h

/-- A worker alone goes on. -/
theorem ne_stopped_of_run {s s' : State W} {late : History (State W) (Action W)} {worker : W}
    (hlive : s.phase worker ≠ .stopped) (hrun : ((workers config).startingIn s).Run late s')
    (halone : ∀ t ∈ late, IsAlone worker t) : s'.phase worker ≠ .stopped := by
  induction hrun with
  | start hinit =>
      cases hinit
      exact hlive
  | @extend h s s' a _ hstep ih =>
      have hearlier := ih fun t ht => halone t (List.mem_cons_of_mem _ ht)
      have hactor := halone _ List.mem_cons_self
      cases a with
      | tick elapsed =>
          cases hstep
          exact hearlier
      | start _ | crash _ | abort _ => exact hactor.elim
      | run actor choice =>
          obtain ⟨rfl, -⟩ := hactor
          obtain ⟨result, hresult, rfl⟩ := Option.map_eq_some_iff.mp hstep
          rw [State.perform_phase_self]
          exact ne_stopped_of_runStep config hresult

/-- **No job is stranded.** A worker that is alone from the top of its loop on claims
a due job that can be claimed, or whose lease has ended, within one iteration for
every ten rows ahead of it and one more. An iteration ends after at most 75 steps,
and the worker can always take the next one. -/
theorem claims_within {s s' : State W} {worker : W} {late : History (State W) (Action W)}
    {job : ScheduledJob} (hpolling : s.phase worker = .polling)
    (hintervals : ∀ row ∈ s.jobs.rows, 1 ≤ row.intervalSeconds) (hjob : job ∈ s.jobs.rows)
    (hdue : job.nextRunAt ≤ s.clock)
    (hfree : job.status = .pending ∨ leaseEnded s.clock job.leaseUntil = true)
    (hrun : ((workers config).startingIn s).Run late s') (halone : ∀ t ∈ late, IsAlone worker t) :
    ((ahead job s.jobs / 10 + 1 ≤ late.countP (endsIteration worker) ∨
        75 * (ahead job s.jobs / 10 + 1) ≤ late.countP (isStepOf worker)) →
      ∃ t ∈ late, claimsJob job.id t) ∧
      ∃ choice s'', step config s' (.run worker choice) = some s'' := by
  constructor
  · intro hlong
    by_contra hnone
    have hnot : ∀ t ∈ late, ¬ claimsJob job.id t := fun t ht hclaims => hnone ⟨t, ht, hclaims⟩
    have hstart : IsApproaching job s.clock (ahead job s.jobs) worker [] s := by
      constructor
      · exact le_rfl
      · intro id row hfind
        exact hintervals row (s.jobs.find?_eq_some_iff.mp hfind).1
      · rw [hpolling]
        exact ⟨⟨job, Table.find?_key hjob, rfl, hfree⟩, le_rfl⟩
      · exact Nat.zero_le _
      · exact Nat.zero_le _
    have happroaching := isApproaching_of_run config hdue hstart hrun halone hnot
    have hiterations := happroaching.iterations
    have hsteps := happroaching.steps
    have hposition := (s'.phase worker).position_le
    lia
  · have hlive := ne_stopped_of_run config (by rw [hpolling]; exact Phase.noConfusion) hrun halone
    obtain ⟨choice, result, hresult⟩ := exists_runStep config worker s'.clock s'.jobs hlive
    exact ⟨choice, s'.perform worker result.1 result.2, by rw [step, hresult]; rfl⟩

/-! ## A crashed worker's job -/

/-- The job of a worker that crashed two minutes ago. -/
def strandedJob : ScheduledJob :=
  { dueJob with
    status := .running
    claimedBy := some "node:2".toList
    leaseUntil := some 120000000 }

/-- A job that was due before. -/
def earlierJob : ScheduledJob := { dueJob with id := 3, nextRunAt := -1 }

/-- One worker is left, at the top of its loop. -/
def survivorStart : State (Fin 2) where
  clock := 120000001
  jobs := ⟨[strandedJob, earlierJob], by decide⟩
  phase worker := if worker = 0 then .polling else .stopped

/-- A candidate goes through all its steps. -/
def candidateActions (worker : Fin 2) : List (Action (Fin 2)) :=
  [.run worker .proceed, .run worker .proceed, .run worker .proceed] ++ handleActions worker ++
    [.run worker .proceed]

/-- One iteration: the recovery, both jobs, and back to the top. -/
def survivorActions : List (Action (Fin 2)) :=
  [.run 0 .proceed, .run 0 .proceed, .tick 1, .run 0 .proceed,
    .run 0 (.order [earlierJob, dueJob])] ++
    candidateActions 0 ++ candidateActions 0 ++ [.run 0 .proceed]

/-- The stranded job is claimed in the iteration that recovers it. -/
theorem stranded_job_claimed : ∃ late s,
    ((workers twoWorkers).startingIn survivorStart).Run late s ∧
      ahead strandedJob survivorStart.jobs = 1 ∧
      ∃ t ∈ late, claimsJob strandedJob.id t := by
  obtain ⟨late, s, hrun, hP⟩ := System.exists_run_of_play
    (M := (workers twoWorkers).startingIn survivorStart) (s := survivorStart) rfl survivorActions
    (fun p => decide (p.1.countP (endsIteration 0) = 1 ∧ ∀ t ∈ p.1, IsAlone 0 t))
    (by decide +kernel)
  obtain ⟨hiterations, halone⟩ := of_decide_eq_true hP
  refine ⟨late, s, hrun, by decide, ?_⟩
  apply (claims_within twoWorkers rfl (by decide) (by decide) (by decide) (by decide) hrun
    halone).1
  left
  rw [hiterations]
  decide

end Apsis.Core.Jobs
