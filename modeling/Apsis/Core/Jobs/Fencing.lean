/-
# Who holds a row

The reschedule of phase 3 is an `UPDATE .. WHERE id = job_id`: it does not look
at `status`, `claimed_by` or `lease_until`, so nothing in the statement ties it
to the claim of the worker that issues it. What does tie it is the history: as
long as no recovery has released the row since the worker claimed it, the row
still carries that worker's claim. This module makes that precise. Along every
run in which no worker reschedules after a recovery released its claim, the
unreleased claims are exactly what the rows say they are, and a row that runs
under an unexpired lease is taken out of `RUNNING` by its own claimant only.

The condition cannot be dropped: `late_reschedule_takes_row` is a run of two
workers in which the first one's late reschedule takes the row from the second.
-/

import Apsis.Core.Jobs.Worker

namespace Apsis.Core.Jobs

open Apsis.Library

universe u

variable {W : Type u}

/-! ## Reading the history -/

/-- The clock reading of the recovery that a transition executes. -/
def recoveryAt (t : Transition (State W) (Action W)) : Option Time :=
  match t.action with
  | .run worker _ => (t.source.phase worker).recovery?
  | _ => none

/-- The reschedule that a transition executes: the worker, its claim and the
completion time it records. -/
def rescheduleBy (t : Transition (State W) (Action W)) : Option (W × Claim × Time) :=
  match t.action with
  | .run worker _ => (t.source.phase worker).reschedule?.map fun r => (worker, r)
  | _ => none

/-- A worker that reschedules holds the claim it reschedules. -/
theorem claim?_of_rescheduleBy {t : Transition (State W) (Action W)} {worker : W}
    {claim : Claim} {now : Time} (h : rescheduleBy t = some (worker, claim, now)) :
    (t.source.phase worker).claim? = some claim := by
  unfold rescheduleBy at h
  split at h
  · simp only [Option.map_eq_some_iff] at h
    obtain ⟨r, hr, heq⟩ := h
    cases heq
    exact Phase.claim?_of_reschedule? hr
  · cases h

/-- The transition is a recovery that releases the row. -/
def releases (t : Transition (State W) (Action W)) (jobId : Uuid) : Bool :=
  (recoveryAt t).any fun now => (t.source.jobs.find? jobId).any (ScheduledJob.isStale now)

/-- A step that executes no recovery releases no row. -/
theorem releases_eq_false {s s' : State W} {worker : W} {choice : Choice} {jobId : Uuid}
    (h : (s.phase worker).recovery? = none) :
    releases ⟨s, .run worker choice, s'⟩ jobId = false := by
  simp [releases, recoveryAt, h]

/-- A recovery has released the row of the worker's present claim since the
worker claimed it. -/
def released : History (State W) (Action W) → W → Bool
  | [], _ => false
  | t :: earlier, worker =>
      (t.source.phase worker).claim?.any fun claim =>
        decide ((t.target.phase worker).claim? = some claim) &&
          (released earlier worker || releases t claim.jobId)

/-- While a claim goes on, it is released by an earlier recovery or by this one. -/
theorem released_cons {t : Transition (State W) (Action W)}
    {earlier : History (State W) (Action W)} {worker : W} {claim : Claim}
    (hsource : (t.source.phase worker).claim? = some claim)
    (htarget : (t.target.phase worker).claim? = some claim) :
    released (t :: earlier) worker = (released earlier worker || releases t claim.jobId) := by
  simp [released, hsource, htarget]

/-- A claim that has just been won is not released. -/
theorem released_cons_of_none {t : Transition (State W) (Action W)}
    {earlier : History (State W) (Action W)} {worker : W}
    (hsource : (t.source.phase worker).claim? = none) :
    released (t :: earlier) worker = false := by
  simp [released, hsource]

variable (config : Config W)

/-- The row is held under this worker's claim. -/
def IsHeldBy (s : State W) (worker : W) (claim : Claim) : Prop :=
  ∃ job, s.jobs.find? claim.jobId = some job ∧ job.status = .running ∧
    job.claimedBy = some (config.workerId worker) ∧ job.leaseUntil = some claim.leaseUntil

instance (s : State W) (worker : W) (claim : Claim) :
    Decidable (IsHeldBy config s worker claim) :=
  decidable_of_iff ((s.jobs.find? claim.jobId).any fun job =>
      decide (job.status = .running ∧ job.claimedBy = some (config.workerId worker) ∧
        job.leaseUntil = some claim.leaseUntil))
    (by simp [IsHeldBy, Option.any_eq_true])

/-- The condition on a run: a worker reschedules only while no recovery has
released its claim. -/
def ReschedulesUnreleased (earlier : History (State W) (Action W))
    (t : Transition (State W) (Action W)) : Prop :=
  ∀ worker claim now, rescheduleBy t = some (worker, claim, now) →
    released earlier worker = false

instance (earlier : History (State W) (Action W)) (t : Transition (State W) (Action W)) :
    Decidable (ReschedulesUnreleased earlier t) :=
  decidable_of_iff ((rescheduleBy t).all fun r => !released earlier r.1) (by
    rw [Option.all_eq_true]
    constructor
    · intro hall worker claim now hby
      simpa using hall _ hby
    · rintro hok ⟨worker, claim, now⟩ hby
      simpa using hok worker claim now hby)

/-- The unreleased claims are what the rows say, and no row has two. -/
structure ClaimsHeld (h : History (State W) (Action W)) (s : State W) : Prop where
  /-- A row with an unreleased claim carries it. -/
  held : ∀ worker claim, (s.phase worker).claim? = some claim →
    released h worker = false → IsHeldBy config s worker claim
  /-- No row has two unreleased claims. -/
  unique : ∀ first second claim claim', (s.phase first).claim? = some claim →
    (s.phase second).claim? = some claim' → released h first = false →
    released h second = false → claim.jobId = claim'.jobId → first = second

/-- A step that touches no row and wins no claim keeps `ClaimsHeld`. -/
theorem ClaimsHeld.of_quiet {h : History (State W) (Action W)}
    {t : Transition (State W) (Action W)} (hinv : ClaimsHeld config h t.source)
    (hrows : ∀ id, t.target.jobs.find? id = t.source.jobs.find? id)
    (hclaim : ∀ worker claim, (t.target.phase worker).claim? = some claim →
      (t.source.phase worker).claim? = some claim) :
    ClaimsHeld config (t :: h) t.target := by
  have hbefore : ∀ worker claim, (t.target.phase worker).claim? = some claim →
      released (t :: h) worker = false → released h worker = false := by
    intro worker claim htarget hfree
    rw [released_cons (hclaim worker claim htarget) htarget, Bool.or_eq_false_iff] at hfree
    exact hfree.1
  constructor
  · intro worker claim htarget hfree
    obtain ⟨job, hfind, hjob⟩ := hinv.held worker claim (hclaim worker claim htarget)
      (hbefore worker claim htarget hfree)
    exact ⟨job, by rw [hrows, hfind], hjob⟩
  · intro first second claim claim' hfirst hsecond hfree hfree' hid
    exact hinv.unique first second claim claim' (hclaim _ _ hfirst) (hclaim _ _ hsecond)
      (hbefore _ _ hfirst hfree) (hbefore _ _ hsecond hfree') hid

variable [DecidableEq W]

/-- A worker's own step keeps `ClaimsHeld` when it leaves the rows of the other
unreleased claims alone and the claim it goes on with, if any, is held and is
the only one on its row. -/
theorem ClaimsHeld.of_perform {h : History (State W) (Action W)} {s : State W}
    {actor : W} {choice : Choice} {jobs' : JobTable} {phase' : Phase}
    (hinv : ClaimsHeld config h s)
    (hothers : ∀ worker claim, worker ≠ actor → (s.phase worker).claim? = some claim →
      released h worker = false →
      releases ⟨s, .run actor choice, s.perform actor jobs' phase'⟩ claim.jobId = false →
      jobs'.find? claim.jobId = s.jobs.find? claim.jobId)
    (hown : ∀ claim, phase'.claim? = some claim →
      IsHeldBy config (s.perform actor jobs' phase') actor claim ∧
        ∀ worker claim', worker ≠ actor → (s.phase worker).claim? = some claim' →
          released h worker = false → claim.jobId ≠ claim'.jobId) :
    ClaimsHeld config (⟨s, .run actor choice, s.perform actor jobs' phase'⟩ :: h)
      (s.perform actor jobs' phase') := by
  have hclaim : ∀ worker claim, worker ≠ actor →
      ((s.perform actor jobs' phase').phase worker).claim? = some claim →
      (s.phase worker).claim? = some claim := by
    intro worker claim hne htarget
    rwa [State.perform_phase_of_ne s _ _ hne] at htarget
  have hbefore : ∀ worker claim, worker ≠ actor →
      ((s.perform actor jobs' phase').phase worker).claim? = some claim →
      released (⟨s, .run actor choice, s.perform actor jobs' phase'⟩ :: h) worker = false →
      released h worker = false ∧
        releases ⟨s, .run actor choice, s.perform actor jobs' phase'⟩ claim.jobId = false := by
    intro worker claim hne htarget hfree
    rwa [released_cons (hclaim worker claim hne htarget) htarget,
      Bool.or_eq_false_iff] at hfree
  constructor
  · intro worker claim htarget hfree
    by_cases hactor : worker = actor
    · subst hactor
      rw [State.perform_phase_self] at htarget
      exact (hown claim htarget).1
    · have hsource := hclaim worker claim hactor htarget
      obtain ⟨hunreleased, hnow⟩ := hbefore worker claim hactor htarget hfree
      obtain ⟨job, hfind, hjob⟩ := hinv.held worker claim hsource hunreleased
      refine ⟨job, ?_, hjob⟩
      rw [State.perform_jobs, hothers worker claim hactor hsource hunreleased hnow, hfind]
  · intro first second claim claim' hfirst hsecond hfree hfree' hid
    by_cases hf : first = actor
    · by_cases hs : second = actor
      · rw [hf, hs]
      · subst hf
        rw [State.perform_phase_self] at hfirst
        exact absurd hid ((hown claim hfirst).2 second claim' hs (hclaim _ _ hs hsecond)
          (hbefore _ _ hs hsecond hfree').1)
    · by_cases hs : second = actor
      · subst hs
        rw [State.perform_phase_self] at hsecond
        exact absurd hid.symm ((hown claim' hsecond).2 first claim hf (hclaim _ _ hf hfirst)
          (hbefore _ _ hf hfirst hfree).1)
      · exact hinv.unique first second claim claim' (hclaim _ _ hf hfirst)
          (hclaim _ _ hs hsecond) (hbefore _ _ hf hfirst hfree).1
          (hbefore _ _ hs hsecond hfree').1 hid

/-- The step lemma: an unreleased reschedule, and every other step, keeps
`ClaimsHeld`. -/
theorem claimsHeld_step {h : History (State W) (Action W)} {s s' : State W} {a : Action W}
    (hinv : ClaimsHeld config h s) (hstep : step config s a = some s')
    (hok : ReschedulesUnreleased h ⟨s, a, s'⟩) : ClaimsHeld config (⟨s, a, s'⟩ :: h) s' := by
  cases step_effect config hstep with
  | outside _ hjobs hphase _ =>
      refine ClaimsHeld.of_quiet (t := ⟨s, a, s'⟩) config hinv (fun _ => by rw [hjobs]) ?_
      intro worker claim htarget
      rcases hphase worker with heq | heq | heq
      · rwa [heq] at htarget
      · rw [heq] at htarget
        cases htarget
      · rw [heq] at htarget
        cases htarget
  | run actor choice hphase _ heffect =>
      cases heffect with
      | quiet hrows hclaim _ _ =>
          refine ClaimsHeld.of_quiet (t := ⟨s, _, s.perform actor _ _⟩) config hinv hrows ?_
          intro worker claim htarget
          by_cases hactor : worker = actor
          · subst hactor
            rw [State.perform_phase_self] at htarget
            rw [hphase]
            exact hclaim claim htarget
          · rwa [State.perform_phase_of_ne s _ _ hactor] at htarget
      | recover now =>
          refine ClaimsHeld.of_perform config hinv ?_ (fun claim hnone => by cases hnone)
          intro worker claim hne hclaim hfree hnow
          obtain ⟨job, hfind, -⟩ := hinv.held worker claim hclaim hfree
          -- The recovery did not release this row, so the row was not stale.
          have hfresh : job.isStale now = false := by
            simpa [releases, recoveryAt, hphase, Phase.recovery?, hfind] using hnow
          rw [find?_recoverStaleJobs, hfind]
          simp [hfresh]
      | @claim jobId leasedAt now rest job leaseUntil hfind hpending hdue hlease =>
          -- The row was pending, so no unreleased claim is on it.
          have hother : ∀ worker claim, (s.phase worker).claim? = some claim →
              released h worker = false → jobId ≠ claim.jobId := by
            rintro worker claim hclaim hfree rfl
            obtain ⟨job', hfind', hrunning, -⟩ := hinv.held worker claim hclaim hfree
            rw [hfind] at hfind'
            cases hfind'
            rw [hpending] at hrunning
            cases hrunning
          refine ClaimsHeld.of_perform config hinv ?_ ?_
          · intro worker claim _ hclaim hfree _
            rw [find?_claimJob]
            cases hrow : s.jobs.find? claim.jobId with
            | none => rfl
            | some row =>
                have hid : row.id ≠ jobId := fun heq =>
                  hother worker claim hclaim hfree
                    (heq.symm.trans (Table.key_of_find? hrow))
                simp [ScheduledJob.isClaimable, hid]
          · intro claim hclaim
            cases hclaim
            refine ⟨⟨job.claimed (config.workerId actor) leaseUntil, ?_, rfl, rfl, rfl⟩, ?_⟩
            · have hclaimable : job.isClaimable jobId now = true := by
                simp [ScheduledJob.isClaimable, ScheduledJob.isDue, hpending, hdue,
                  Table.key_of_find? hfind]
              rw [State.perform_jobs, find?_claimJob, hfind]
              simp [hclaimable]
            · intro worker claim' _ hclaim' hfree
              exact hother worker claim' hclaim' hfree
      | @reschedule claim startedAt finishedAt now error rest jobs' hstored hwrite =>
          refine ClaimsHeld.of_perform config hinv ?_ (fun claim hnone => by cases hnone)
          have hactorFree : released h actor = false :=
            hok actor claim now (by simp [rescheduleBy, hphase, hstored])
          have hactorClaim : (s.phase actor).claim? = some claim := by
            rw [hphase]
            rfl
          intro worker claim' hne hclaim' hfree _
          -- Both claims are unreleased, so they are on different rows.
          have hid : claim'.jobId ≠ claim.jobId := fun heq =>
            hne (hinv.unique worker actor claim' claim hclaim' hactorClaim hfree
              hactorFree heq)
          rw [find?_rescheduleJob hwrite]
          cases hrow : s.jobs.find? claim'.jobId with
          | none => rfl
          | some row =>
              have hrowId : row.id = claim'.jobId := Table.key_of_find? hrow
              simp [hrowId, hid]

/-- Along a run that meets the condition, `ClaimsHeld` holds throughout. -/
theorem claimsHeld_of_run {h : History (State W) (Action W)} {s : State W}
    (hrun : (workers config).Run h s) (hmeets : h.Meets ReschedulesUnreleased) :
    ClaimsHeld config h s := by
  refine hrun.invariant (I := ClaimsHeld config) ?_ ?_ hmeets
  · intro s hinit
    constructor
    · intro worker claim hclaim
      rw [hinit worker] at hclaim
      cases hclaim
    · intro first second claim claim' hclaim
      rw [hinit first] at hclaim
      cases hclaim
  · intro h s a s' _ _ hinv hstep hok
    exact claimsHeld_step config hinv hstep hok

/-- The table after a recovery. -/
theorem find?_of_recoveryAt {s s' : State W} {a : Action W} (hstep : step config s a = some s')
    {now : Time} (hnow : recoveryAt ⟨s, a, s'⟩ = some now) (id : Uuid) :
    s'.jobs.find? id =
      (s.jobs.find? id).map fun job => if job.isStale now then job.recovered else job := by
  cases step_effect config hstep with
  | outside _ _ _ hnotRun =>
      cases a with
      | run actor choice => exact absurd rfl (hnotRun actor choice)
      | _ => cases hnow
  | run actor choice hphase _ heffect =>
      simp only [recoveryAt, hphase] at hnow
      cases heffect with
      | recover now' =>
          cases hnow
          exact find?_recoverStaleJobs now s.jobs id
      | quiet _ _ hrecovery _ => simp [hrecovery] at hnow
      | claim _ _ _ _ => cases hnow
      | reschedule _ _ => cases hnow

/-! ## Fencing -/

omit [DecidableEq W] in
/-- What fencing asks of a transition. A reschedule is executed only on a row
held under the claim of the worker that executes it, and a row that runs under
an unexpired lease leaves `RUNNING` only by the reschedule of its claimant. -/
structure IsFenced (t : Transition (State W) (Action W)) : Prop where
  own : ∀ worker claim now, rescheduleBy t = some (worker, claim, now) →
    IsHeldBy config t.source worker claim
  leaves : ∀ jobId job lease, t.source.jobs.find? jobId = some job → job.status = .running →
    job.leaseUntil = some lease → t.source.clock ≤ lease →
    (t.target.jobs.find? jobId).map ScheduledJob.status ≠ some .running →
    ∃ worker claim now, rescheduleBy t = some (worker, claim, now) ∧ claim.jobId = jobId ∧
      job.claimedBy = some (config.workerId worker) ∧ claim.leaseUntil = lease

/-- The next transition of a run that keeps to the condition is fenced. -/
theorem isFenced_step {h : History (State W) (Action W)} {s s' : State W} {a : Action W}
    (hrun : (workers config).Run h s) (hinv : ClaimsHeld config h s)
    (hstep : step config s a = some s') (hok : ReschedulesUnreleased h ⟨s, a, s'⟩) :
    IsFenced config ⟨s, a, s'⟩ := by
  have hown : ∀ worker claim now, rescheduleBy ⟨s, a, s'⟩ = some (worker, claim, now) →
      IsHeldBy config s worker claim := by
    intro worker claim now hby
    exact hinv.held worker claim (claim?_of_rescheduleBy hby) (hok worker claim now hby)
  refine ⟨hown, ?_⟩
  intro jobId job lease hfind hrunning hlease hclock hleaves
  dsimp only at hfind hclock hleaves
  -- A step after which the row still runs is not the case in question.
  have hstays : ∀ jobs' : JobTable, jobs'.find? jobId = some job →
      (jobs'.find? jobId).map ScheduledJob.status = some .running := by
    intro jobs' hfind'
    rw [hfind', Option.map_some, hrunning]
  cases step_effect config hstep with
  | outside _ hjobs _ _ => exact absurd (hstays s'.jobs (by rw [hjobs, hfind])) hleaves
  | run actor choice hphase _ heffect =>
      cases heffect with
      | quiet hrows _ _ _ =>
          exact absurd (hstays _ (by rw [State.perform_jobs, hrows, hfind])) hleaves
      | recover now =>
          have hpast : now ≤ s.clock := by
            have horder := inOrder_of_run config hrun actor
            rwa [hphase] at horder
          have hfresh : job.isStale now = false := by
            have hnot : ¬ lease < now := by lia
            simp [ScheduledJob.isStale, hlease, leaseEnded, hnot]
          refine absurd (hstays _ ?_) hleaves
          rw [State.perform_jobs, find?_recoverStaleJobs, hfind]
          simp [hfresh]
      | @claim claimedId leasedAt now rest row leaseUntil _ _ _ _ =>
          have hnot : job.isClaimable claimedId now = false := by
            simp [ScheduledJob.isClaimable, ScheduledJob.isDue, hrunning]
          refine absurd (hstays _ ?_) hleaves
          rw [State.perform_jobs, find?_claimJob, hfind]
          simp [hnot]
      | @reschedule claim startedAt finishedAt now error rest jobs' hstored hwrite =>
          have hby : ∀ s', rescheduleBy ⟨s, .run actor choice, s'⟩ =
              some (actor, claim, now) := by
            simp [rescheduleBy, hphase, hstored]
          by_cases hid : job.id = claim.jobId
          · obtain ⟨row, hrow, -, hclaimedBy, hrowLease⟩ := hown actor claim now (hby _)
            have hjobId : claim.jobId = jobId := by
              rw [← hid]
              exact Table.key_of_find? hfind
            rw [hjobId, hfind] at hrow
            cases hrow
            refine ⟨actor, claim, now, hby _, hjobId, hclaimedBy, ?_⟩
            rw [hlease] at hrowLease
            exact (Option.some.inj hrowLease).symm
          · refine absurd (hstays _ ?_) hleaves
            rw [State.perform_jobs, find?_rescheduleJob hwrite, hfind]
            simp [hid]

/-- A released claim is no longer on the row, whatever has happened since, if
workers are told apart by their ids. -/
theorem claimedBy_ne_of_released (hids : Function.Injective config.workerId)
    {h : History (State W) (Action W)} {s : State W} (hrun : (workers config).Run h s) :
    ∀ worker claim, (s.phase worker).claim? = some claim → released h worker = true →
      ∀ job, s.jobs.find? claim.jobId = some job →
        job.claimedBy ≠ some (config.workerId worker) := by
  refine System.Run.invariant_of_step (I := fun h s => ∀ worker claim,
    (s.phase worker).claim? = some claim → released h worker = true →
      ∀ job, s.jobs.find? claim.jobId = some job →
        job.claimedBy ≠ some (config.workerId worker)) ?_ ?_ hrun
  · intro s hinit worker claim hclaim
    rw [hinit worker] at hclaim
    cases hclaim
  · intro h s a s' _ hinv hstep worker claim htarget hreleased job hfind
    -- The claim was already there, or it would not be released.
    obtain ⟨hsource, hwas⟩ : (s.phase worker).claim? = some claim ∧
        (released h worker = true ∨ releases ⟨s, a, s'⟩ claim.jobId = true) := by
      cases hs : (s.phase worker).claim? with
      | none => simp [released, hs] at hreleased
      | some claim' =>
          simp only [released, hs, htarget, Option.any_some, Option.some.injEq,
            Bool.and_eq_true, decide_eq_true_eq, Bool.or_eq_true] at hreleased
          obtain ⟨rfl, hwas⟩ := hreleased
          exact ⟨rfl, hwas⟩
    cases step_effect config hstep with
    | outside _ hjobs _ hnotRun =>
        have hnone : releases ⟨s, a, s'⟩ claim.jobId = false := by
          cases a with
          | run actor choice => exact absurd rfl (hnotRun actor choice)
          | _ => rfl
        rw [hjobs] at hfind
        exact hinv worker claim hsource (hwas.resolve_right (by simp [hnone])) job hfind
    | run actor choice hphase _ heffect =>
        cases heffect with
        | quiet hrows _ hrecovery _ =>
            rw [releases_eq_false (hphase ▸ hrecovery)] at hwas
            have hearlier : released h worker = true := by simpa using hwas
            rw [State.perform_jobs, hrows] at hfind
            exact hinv worker claim hsource hearlier job hfind
        | recover now =>
            simp only [State.perform_jobs, find?_recoverStaleJobs, Option.map_eq_some_iff] at hfind
            obtain ⟨row, hrow, rfl⟩ := hfind
            by_cases hstale : row.isStale now
            · rw [if_pos hstale]
              exact Option.some_ne_none _ ∘ Eq.symm
            · rw [if_neg hstale]
              refine hinv worker claim hsource (hwas.resolve_right ?_) row hrow
              simpa [releases, recoveryAt, hphase, Phase.recovery?, hrow] using hstale
        | @claim jobId leasedAt now rest row leaseUntil hrow hpending hdue hlease =>
            have hne : worker ≠ actor := by
              rintro rfl
              rw [hphase] at hsource
              cases hsource
            rw [releases_eq_false (by rw [hphase]; rfl)] at hwas
            have hearlier : released h worker = true := by simpa using hwas
            simp only [State.perform_jobs, find?_claimJob, Option.map_eq_some_iff] at hfind
            obtain ⟨row', hrow', rfl⟩ := hfind
            by_cases hclaimable : row'.isClaimable jobId now
            · rw [if_pos hclaimable]
              exact fun heq => hne (hids (Option.some.inj heq)).symm
            · rw [if_neg hclaimable]
              exact hinv worker claim hsource hearlier row' hrow'
        | @reschedule claim' startedAt finishedAt now error rest jobs' hstored hwrite =>
            rw [releases_eq_false (by rw [hphase]; rfl)] at hwas
            have hearlier : released h worker = true := by simpa using hwas
            rw [State.perform_jobs, find?_rescheduleJob hwrite, Option.map_eq_some_iff] at hfind
            obtain ⟨row, hrow, rfl⟩ := hfind
            by_cases hid : row.id = claim'.jobId
            · rw [if_pos hid]
              exact Option.some_ne_none _ ∘ Eq.symm
            · rw [if_neg hid]
              exact hinv worker claim hsource hearlier row hrow

/-- **When the reschedule is fenced.** Along a run, every transition is fenced if
no worker reschedules after a recovery released its claim; and where workers are
told apart by their ids, only then. -/
theorem isFenced_iff_reschedulesUnreleased {h : History (State W) (Action W)} {s : State W}
    (hrun : (workers config).Run h s) :
    (h.Meets ReschedulesUnreleased → ∀ t ∈ h, IsFenced config t) ∧
      (Function.Injective config.workerId → (∀ t ∈ h, IsFenced config t) →
        h.Meets ReschedulesUnreleased) := by
  constructor
  · intro hmeets
    induction hrun with
    | start => simp
    | extend prior hstep ih =>
        intro t ht
        rcases List.mem_cons.mp ht with rfl | ht
        · exact isFenced_step config prior (claimsHeld_of_run config prior hmeets.2) hstep
            hmeets.1
        · exact ih hmeets.2 t ht
  · intro hids hfenced
    induction hrun with
    | start => trivial
    | @extend h s s' a prior hstep ih =>
        refine ⟨?_, ih fun t ht => hfenced t (List.mem_cons_of_mem _ ht)⟩
        intro worker claim now hby
        obtain ⟨job, hfind, -, hclaimedBy, -⟩ :=
          (hfenced ⟨s, a, s'⟩ List.mem_cons_self).own worker claim now hby
        by_contra hreleased
        exact claimedBy_ne_of_released config hids prior worker claim
          (claim?_of_rescheduleBy hby) (by simpa using hreleased) job hfind hclaimedBy

/-! ## Two workers, one of them late -/

/-- Two workers under the default settings. -/
def twoWorkers : Config (Fin 2) where
  settings := {}
  workerId worker := if worker = 0 then "node:1".toList else "node:2".toList
  isRegistered _ := true

/-- A job as inserted, due at time zero. -/
def dueJob : ScheduledJob where
  id := 7
  jobName := "tle_refresh".toList
  intervalSeconds := 7200
  status := .pending
  lastRunAt := none
  nextRunAt := 0
  lastError := none
  runCount := 0
  claimedBy := none
  leaseUntil := none

/-- The workers before they start, over a table with this one job. -/
def twoWorkersStart : State (Fin 2) where
  clock := 0
  jobs := ⟨[dueJob], by decide⟩
  phase _ := .stopped

/-- A worker goes from `start` to the point where its claim is executed. -/
def claimActions (worker : Fin 2) (row : ScheduledJob) : List (Action (Fin 2)) :=
  [.start worker, .run worker .proceed, .run worker .proceed, .run worker .proceed,
    .run worker (.order [row]), .run worker .proceed, .run worker .proceed,
    .run worker .proceed]

/-- From the claim to the point where the reschedule is built. -/
def handleActions (worker : Fin 2) : List (Action (Fin 2)) :=
  [.run worker .proceed, .run worker (.outcome none), .run worker .proceed]

/-- Worker 0 claims the job and builds its reschedule; 121 seconds later worker 1
releases the claim and claims the job for itself; then the reschedule of worker
0 is executed. -/
def lateActions : List (Action (Fin 2)) :=
  claimActions 0 dueJob ++ handleActions 0 ++ [.tick 121000000] ++ claimActions 1 dueJob ++
    [.run 0 .proceed]

/-- The late reschedule: worker 1 holds the row under an unexpired lease and is
at work on it, and the step of worker 0 sets the row back to `PENDING`. -/
theorem late_reschedule_takes_row :
    twoWorkers.settings.validateLeaseInvariant = .ok twoWorkers.settings ∧
    ∃ h t s claim, (workers twoWorkers).Run (t :: h) s ∧
      (rescheduleBy t).map Prod.fst = some 0 ∧
      (t.source.phase 1).claim? = some claim ∧ (s.phase 1).claim? = some claim ∧
      IsHeldBy twoWorkers t.source 1 claim ∧ t.source.clock < claim.leaseUntil ∧
      (s.jobs.find? claim.jobId).map ScheduledJob.status = some .pending ∧
      ¬ IsFenced twoWorkers t := by
  refine ⟨Settings.validateLeaseInvariant_default, ?_⟩
  let claim : Claim := ⟨7, "tle_refresh".toList, 7200, 121000000, 241000000⟩
  let late : Claim := ⟨7, "tle_refresh".toList, 7200, 0, 120000000⟩
  obtain ⟨h, s, hrun, hP⟩ := System.exists_run_of_play (M := workers twoWorkers)
    (s := twoWorkersStart) (fun _ => rfl) lateActions
    (fun p => p.1.head?.any fun t =>
      decide (rescheduleBy t = some (0, late, 0) ∧ (t.source.phase 1).claim? = some claim ∧
        (p.2.phase 1).claim? = some claim ∧ IsHeldBy twoWorkers t.source 1 claim ∧
        t.source.clock < claim.leaseUntil ∧
        (p.2.jobs.find? claim.jobId).map ScheduledJob.status = some .pending ∧
        ¬ IsHeldBy twoWorkers t.source 0 late))
    (by decide)
  cases h with
  | nil => simp at hP
  | cons t h =>
      simp only [List.head?_cons, Option.any_some, decide_eq_true_eq] at hP
      obtain ⟨hby, hsource, htarget, hheld, hclock, hpending, hnot⟩ := hP
      exact ⟨h, t, s, claim, hrun, by rw [hby]; rfl, hsource, htarget, hheld, hclock, hpending,
        fun hfenced => hnot (hfenced.own 0 late 0 hby)⟩

/-- A reschedule on time is fenced, and so is every other step of its run. -/
theorem punctual_run_isFenced :
    ∃ h s, (workers twoWorkers).Run h s ∧ h.length = 12 ∧ ∀ t ∈ h, IsFenced twoWorkers t := by
  obtain ⟨h, s, hrun, hP⟩ := System.exists_run_of_play (M := workers twoWorkers)
    (s := twoWorkersStart) (fun _ => rfl)
    (claimActions 0 dueJob ++ handleActions 0 ++ [.run 0 .proceed])
    (fun p => decide (p.1.length = 12 ∧ p.1.Meets ReschedulesUnreleased)) (by decide)
  obtain ⟨hlength, hmeets⟩ := of_decide_eq_true hP
  exact ⟨h, s, hrun, hlength, (isFenced_iff_reschedulesUnreleased twoWorkers hrun).1 hmeets⟩

end Apsis.Core.Jobs
