/-
# Mutual exclusion of scheduled jobs

Under the timing assumption that the settings are validated for, a claim is
never released while its worker is still at work on it. Every reschedule is then
an unreleased one, and the invariant of `Fencing` applies to the whole run: no
row has two claimants.

The assumption is about workers that hold a claim. The run of the handler takes
at most the handler timeout, and so does everything else from the clock reading
behind `lease_until` to the commit of the reschedule, taken together.
-/

import Apsis.Core.Jobs.Fencing

namespace Apsis.Core.Jobs

open Apsis.Library

universe u

/-- How long a worker that holds a claim has spent so far, counted from the
clock reading behind `lease_until`: in its handler, and outside of it. -/
def Phase.elapsed (clock : Time) : Phase → Option (ℤ × ℤ)
  | .claimed claim _ => some (0, clock - claim.leasedAt)
  | .handling claim startedAt _ => some (clock - startedAt, startedAt - claim.leasedAt)
  | .handled claim startedAt finishedAt _ _ =>
      some (finishedAt - startedAt, (startedAt - claim.leasedAt) + (clock - finishedAt))
  | .rescheduling claim startedAt finishedAt _ _ _ =>
      some (finishedAt - startedAt, (startedAt - claim.leasedAt) + (clock - finishedAt))
  | _ => none

/-- Both parts are within the limit. -/
def Phase.IsTimely (limit : ℤ) (clock : Time) (phase : Phase) : Prop :=
  (phase.elapsed clock).all fun elapsed => decide (elapsed.1 ≤ limit ∧ elapsed.2 ≤ limit)

instance (limit : ℤ) (clock : Time) (phase : Phase) :
    Decidable (phase.IsTimely limit clock) :=
  inferInstanceAs (Decidable (_ = true))

/-- A timely worker has spent at most twice the limit since the reading that its
lease was computed from. -/
theorem Phase.IsTimely.clock_le {limit : ℤ} {clock : Time} {phase : Phase} {claim : Claim}
    (htimely : phase.IsTimely limit clock) (hclaim : phase.claim? = some claim) :
    clock ≤ claim.leasedAt + 2 * limit := by
  cases phase with
  | claimed _ _ | handling _ _ _ | handled _ _ _ _ _ | rescheduling _ _ _ _ _ _ =>
      cases hclaim
      simp only [IsTimely, elapsed, Option.all_some, decide_eq_true_eq] at htimely
      lia
  | _ => cases hclaim

/-- The lease of a claim is `lease` after the reading it was computed from. -/
theorem Phase.InOrder.leaseUntil_eq {lease : ℤ} {clock : Time} {phase : Phase} {claim : Claim}
    (horder : phase.InOrder lease clock) (hclaim : phase.claim? = some claim) :
    claim.leaseUntil = claim.leasedAt + lease := by
  cases phase with
  | claimed _ _ | handling _ _ _ | handled _ _ _ _ _ | rescheduling _ _ _ _ _ _ =>
      cases hclaim
      exact horder.1
  | _ => cases hclaim

variable {W : Type u} [DecidableEq W] (config : Config W)

/-- The timing assumption on a run: after every step, every worker that holds a
claim is timely. -/
def KeepsTime (_earlier : History (State W) (Action W))
    (t : Transition (State W) (Action W)) : Prop :=
  ∀ worker, (t.target.phase worker).IsTimely
    (timedelta config.settings.jobHandlerTimeoutSeconds) t.target.clock

/-- What the timing assumption buys: all workers are timely, no claim has been
released, and so every reschedule has been an unreleased one. -/
structure ClaimsUnreleased (h : History (State W) (Action W)) (s : State W) : Prop where
  timely : ∀ worker, (s.phase worker).IsTimely
    (timedelta config.settings.jobHandlerTimeoutSeconds) s.clock
  unreleased : ∀ worker claim, (s.phase worker).claim? = some claim → released h worker = false
  meets : h.Meets ReschedulesUnreleased

/-- While a worker holds a claim, its lease has not ended. -/
theorem clock_le_leaseUntil
    (hvalid : config.settings.validateLeaseInvariant = .ok config.settings)
    {h : History (State W) (Action W)} {s : State W} (hrun : (workers config).Run h s)
    {worker : W} {claim : Claim}
    (htimely : (s.phase worker).IsTimely
      (timedelta config.settings.jobHandlerTimeoutSeconds) s.clock)
    (hclaim : (s.phase worker).claim? = some claim) : s.clock ≤ claim.leaseUntil := by
  have hlease := (inOrder_of_run config hrun worker).leaseUntil_eq hclaim
  have hclock := htimely.clock_le hclaim
  have hsettings := Settings.lease_le_of_validateLeaseInvariant hvalid
  simp only [timedelta] at hlease hclock
  lia

/-- A recovery finds the row of a live claimant under an unexpired lease. -/
theorem releases_eq_false_of_claim
    (hvalid : config.settings.validateLeaseInvariant = .ok config.settings)
    {h : History (State W) (Action W)} {s : State W} (hrun : (workers config).Run h s)
    (hinv : ClaimsUnreleased config h s) {worker : W} {claim : Claim}
    (hclaim : (s.phase worker).claim? = some claim) (a : Action W) (s' : State W) :
    releases ⟨s, a, s'⟩ claim.jobId = false := by
  obtain ⟨job, hfind, -, -, hlease⟩ := (claimsHeld_of_run config hrun hinv.meets).held worker
    claim hclaim (hinv.unreleased worker claim hclaim)
  have hclock := clock_le_leaseUntil config hvalid hrun (hinv.timely worker) hclaim
  rw [releases, Option.any_eq_false]
  intro now hnow
  -- The reading that the recovery was built from lies in the past.
  have hpast : now ≤ s.clock := by
    cases a with
    | run actor choice =>
        have horder := inOrder_of_run config hrun actor
        simp only [recoveryAt] at hnow
        cases hphase : s.phase actor with
        | recovering now' =>
            rw [hphase] at hnow horder
            cases hnow
            exact horder
        | _ => simp [hphase, Phase.recovery?] at hnow
    | _ => cases hnow
  have hnot : ¬ claim.leaseUntil < now := by lia
  simp [hfind, ScheduledJob.isStale, hlease, leaseEnded, hnot]

/-- Under valid settings, `ClaimsUnreleased` holds along every run that keeps
to the timing assumption. -/
theorem claimsUnreleased_of_run
    (hvalid : config.settings.validateLeaseInvariant = .ok config.settings)
    {h : History (State W) (Action W)} {s : State W} (hrun : (workers config).Run h s)
    (htime : h.Meets (KeepsTime config)) : ClaimsUnreleased config h s := by
  refine hrun.invariant (I := ClaimsUnreleased config) ?_ ?_ htime
  · intro s hinit
    refine ⟨fun worker => ?_, fun worker claim hclaim => ?_, History.meets_nil _⟩
    · rw [hinit worker]
      rfl
    · rw [hinit worker] at hclaim
      cases hclaim
  · intro h s a s' hprior _ hinv hstep hok
    refine ⟨hok, fun worker claim hclaim => ?_, ?_, hinv.meets⟩
    · cases hsource : (s.phase worker).claim? with
      | none => exact released_cons_of_none hsource
      | some claim' =>
          by_cases hsame : claim' = claim
          · subst hsame
            rw [released_cons hsource hclaim, hinv.unreleased worker claim' hsource,
              Bool.false_or]
            exact releases_eq_false_of_claim config hvalid hprior hinv hsource a s'
          · simp [released, hsource, hclaim, Ne.symm hsame]
    · intro worker claim now hby
      exact hinv.unreleased worker claim (claim?_of_rescheduleBy hby)

/-- **Mutual exclusion.** Under valid settings and the timing assumption, no two
workers are at work on claims of one row, and a recovery finds the row of every
live claimant `RUNNING` and leaves it as it is. -/
theorem exclusive_of_keepsTime
    (hvalid : config.settings.validateLeaseInvariant = .ok config.settings)
    {h : History (State W) (Action W)} {s : State W} (hrun : (workers config).Run h s)
    (htime : h.Meets (KeepsTime config)) :
    (∀ first second claim claim', (s.phase first).claim? = some claim →
      (s.phase second).claim? = some claim' → claim.jobId = claim'.jobId → first = second) ∧
    ∀ t ∈ h, ∀ now, recoveryAt t = some now → ∀ worker claim,
      (t.source.phase worker).claim? = some claim →
      ∃ job, t.source.jobs.find? claim.jobId = some job ∧ job.status = .running ∧
        t.target.jobs.find? claim.jobId = some job := by
  constructor
  · intro first second claim claim' hfirst hsecond hid
    have hinv := claimsUnreleased_of_run config hvalid hrun htime
    exact (claimsHeld_of_run config hrun hinv.meets).unique first second claim claim' hfirst
      hsecond (hinv.unreleased first claim hfirst) (hinv.unreleased second claim' hsecond) hid
  · induction hrun with
    | start => simp
    | @extend h s s' a prior hstep ih =>
        intro t ht now hnow worker claim hclaim
        rcases List.mem_cons.mp ht with rfl | ht
        · have hinv := claimsUnreleased_of_run config hvalid prior htime.2
          obtain ⟨job, hfind, hrunning, -⟩ := (claimsHeld_of_run config prior hinv.meets).held
            worker claim hclaim (hinv.unreleased worker claim hclaim)
          refine ⟨job, hfind, hrunning, ?_⟩
          have hfree := releases_eq_false_of_claim config hvalid prior hinv hclaim a s'
          rw [releases, hnow, Option.any_some, hfind, Option.any_some] at hfree
          rw [find?_of_recoveryAt config hstep hnow, hfind, Option.map_some,
            if_neg (by simp [hfree])]
        · exact ih htime.2 t ht now hnow worker claim hclaim

instance (earlier : History (State (Fin 2)) (Action (Fin 2)))
    (t : Transition (State (Fin 2)) (Action (Fin 2))) :
    Decidable (KeepsTime twoWorkers earlier t) :=
  inferInstanceAs (Decidable (∀ _ : Fin 2, _))

/-- Worker 0 starts its handler 40 seconds after its claim and runs it for 55;
worker 1 executes a recovery meanwhile. -/
def slowActions : List (Action (Fin 2)) :=
  claimActions 0 dueJob ++ [.tick 40000000, .run 0 .proceed, .tick 50000000, .start 1,
    .run 1 .proceed, .tick 5000000, .run 1 .proceed, .run 0 (.outcome none), .tick 15000000]

/-- The slow worker keeps its row to itself. -/
theorem slow_run_exclusive :
    ∃ h s claim, (workers twoWorkers).Run h s ∧ (s.phase 0).claim? = some claim ∧
      (∃ t ∈ h, recoveryAt t = some 90000000 ∧
        ∃ job, t.target.jobs.find? claim.jobId = some job ∧ job.status = .running) ∧
      ∀ worker claim', (s.phase worker).claim? = some claim' → claim'.jobId = claim.jobId →
        worker = 0 := by
  let claim : Claim := ⟨7, "tle_refresh".toList, 7200, 0, 120000000⟩
  obtain ⟨h, s, hrun, hP⟩ := System.exists_run_of_play (M := workers twoWorkers)
    (s := twoWorkersStart) (fun _ => rfl) slowActions
    (fun p => decide (p.1.Meets (KeepsTime twoWorkers) ∧
      (p.2.phase 0).claim? = some claim ∧
      ∃ t ∈ p.1, recoveryAt t = some 90000000 ∧ (t.source.phase 0).claim? = some claim))
    (by decide)
  obtain ⟨htime, hclaim, t, ht, hrecovery, hsource⟩ := of_decide_eq_true hP
  obtain ⟨hunique, hkept⟩ :=
    exclusive_of_keepsTime twoWorkers Settings.validateLeaseInvariant_default hrun htime
  obtain ⟨job, -, hrunning, htarget⟩ := hkept t ht 90000000 hrecovery 0 claim hsource
  exact ⟨h, s, claim, hrun, hclaim, ⟨t, ht, hrecovery, job, htarget, hrunning⟩,
    fun worker claim' hclaim' hid => hunique worker 0 claim' claim hclaim' hclaim hid⟩

end Apsis.Core.Jobs
