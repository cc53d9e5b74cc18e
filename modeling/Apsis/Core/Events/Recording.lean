/-
# Whether a failure is recorded

Both workers write the text of a failure where PostgreSQL rejects U+0000, and
they write it outside of any `try`: a rejected text rolls back the very counter
that bounds the retries. The outbox worker computes a power of two on the same
path, which overflows in the 1024th attempt. This module says exactly when the
failure of an attempt is recorded, and what follows for the outbox when it
always is: an event is dispatched at most `max_retries` times, and after each
failure it is behind every event that was due by then.
-/

import Apsis.Core.Events.Completion
import Apsis.Core.Events.Exclusive
import Apsis.Core.Jobs.Statements

namespace Apsis.Core.Events

open Apsis.Library

universe u

/-! ## One attempt -/

/-- No handler that is called brings U+0000 in, and the backoff can be computed
if there is to be one. -/
def IsRecordable (event : OutboxEvent) (attempt : Attempt) : Prop :=
  (∀ call ∈ attempt.calls, completed event.handlerState call.handler.name = false →
    call.hasNul = false) ∧
  (event.maxRetries ≤ event.retryCount + 1 ∨ event.retryCount + 1 < 1024)

/-- The transaction of the attempt gets to its commit with the counter one
higher, and the event is final or moved behind every event that is due by now. -/
def RecordsFailure (event : OutboxEvent) (attempt : Attempt) : Prop :=
  ∃ event', handleEvent event attempt = .ok event' ∧
    event'.retryCount = event.retryCount + 1 ∧
    (event'.status = .failed ∨ attempt.endedAt < event'.scheduledAt)

theorem backoff_eq_none {retryCount jitter : ℕ} :
    backoff retryCount jitter = none ↔ 1024 ≤ retryCount := by
  unfold backoff
  split <;> simp_all

/-- A retry is scheduled in the future. -/
theorem backoff_pos {retryCount jitter : ℕ} {delay : ℤ}
    (h : backoff retryCount jitter = some delay) : 0 < delay := by
  unfold backoff at h
  split at h
  · cases h
  · cases h
    have hpower : (0 : ℤ) < 2 ^ retryCount := pow_pos (by decide) retryCount
    simp only [timedelta, maxBackoffHours, lt_min_iff]
    constructor <;> lia

/-- An attempt that can be recorded gets to its commit, whatever its outcome. -/
theorem exists_of_isRecordable {event : OutboxEvent} {attempt : Attempt}
    (hstate : event.handlerState.texts.any Text.hasNul = false)
    (hrecordable : IsRecordable event attempt) :
    ∃ event', handleEvent event attempt = .ok event' := by
  have hstored : ((dispatchResult event attempt).errorsSummary ::
      (newState event attempt).texts).any Text.hasNul = false := by
    apply Bool.eq_false_iff.mpr
    intro hnul
    obtain ⟨call, hcall, hnot, hcallNul⟩ := (any_hasNul_failed hstate).mp hnul
    rw [hrecordable.1 call hcall hnot] at hcallNul
    cases hcallNul
  cases hall : (dispatchResult event attempt).allSucceeded with
  | true =>
      rw [List.any_cons, Bool.or_eq_false_iff] at hstored
      exact ⟨_, handleEvent_eq_ok.mpr (.processed hall hstored.2)⟩
  | false =>
      by_cases hlast : event.maxRetries ≤ event.retryCount + 1
      · exact ⟨_, handleEvent_eq_ok.mpr (.failed hall hlast hstored)⟩
      · have hfew := hrecordable.2.resolve_left hlast
        cases hdelay : backoff (event.retryCount + 1) attempt.jitter with
        | none => exact absurd (backoff_eq_none.mp hdelay) (by lia)
        | some delay =>
            exact ⟨_, handleEvent_eq_ok.mpr
              (.retry delay hall (not_le.mp hlast) hdelay hstored)⟩

/-- **When a failure is recorded.** The failure of an attempt on a stored event is
recorded if and only if the attempt is recordable. -/
theorem recordsFailure_iff {event : OutboxEvent} {attempt : Attempt}
    (hstate : event.handlerState.texts.any Text.hasNul = false)
    (hfails : (dispatchResult event attempt).allSucceeded = false) :
    RecordsFailure event attempt ↔ IsRecordable event attempt := by
  constructor
  · rintro ⟨event', hhandle, -, -⟩
    have hcalls : ((dispatchResult event attempt).errorsSummary ::
        (newState event attempt).texts).any Text.hasNul = false →
        ∀ call ∈ attempt.calls, completed event.handlerState call.handler.name = false →
          call.hasNul = false := by
      intro hstored call hcall hnot
      by_contra hnul
      rw [(any_hasNul_failed hstate).mpr ⟨call, hcall, hnot, by simpa using hnul⟩] at hstored
      cases hstored
    cases handleEvent_eq_ok.mp hhandle with
    | processed hall _ =>
        rw [hfails] at hall
        cases hall
    | failed _ hlast hstored => exact ⟨hcalls hstored, Or.inl hlast⟩
    | retry delay _ _ hdelay hstored =>
        refine ⟨hcalls hstored, Or.inr ?_⟩
        by_contra hmany
        rw [backoff_eq_none.mpr (not_lt.mp hmany)] at hdelay
        cases hdelay
  · intro hrecordable
    obtain ⟨event', hhandle⟩ := exists_of_isRecordable hstate hrecordable
    refine ⟨event', hhandle, ?_⟩
    cases handleEvent_eq_ok.mp hhandle with
    | processed hall _ =>
        rw [hfails] at hall
        cases hall
    | failed _ _ _ => exact ⟨rfl, Or.inl rfl⟩
    | retry delay _ _ hdelay _ =>
        have hpos := backoff_pos hdelay
        exact ⟨rfl, Or.inr (by dsimp only; lia)⟩

/-! ## The backoff -/

/-- The failure branch raises no arithmetic error, and it marks the event or delays
it by at least the power of two, where an hour allows it, and by at most an hour. -/
def BacksOff (event : OutboxEvent) (attempt : Attempt) : Prop :=
  handleEvent event attempt ≠ .error .overflow ∧
    ∀ event', handleEvent event attempt = .ok event' → event'.status = .failed ∨
      ∃ delay, event'.scheduledAt = attempt.endedAt + delay ∧
        min (timedelta (2 ^ event'.retryCount)) (timedelta 3600) ≤ delay ∧
        delay ≤ timedelta 3600

theorem backoff_bounds {retryCount jitter : ℕ} {delay : ℤ}
    (h : backoff retryCount jitter = some delay) :
    min (timedelta (2 ^ retryCount)) (timedelta 3600) ≤ delay ∧ delay ≤ timedelta 3600 := by
  unfold backoff at h
  split at h
  · cases h
  · cases h
    have hhour : timedelta (maxBackoffHours * 3600) = timedelta 3600 := rfl
    have hjitter : timedelta (2 ^ retryCount) ≤ timedelta (2 ^ retryCount) + jitter := by simp
    rw [hhour]
    exact ⟨min_le_min_right _ hjitter, min_le_right _ _⟩

/-- The power overflows exactly if there is to be another attempt and its number is
1024 or more. -/
theorem handleEvent_eq_overflow {event : OutboxEvent} {attempt : Attempt}
    (hfails : (dispatchResult event attempt).allSucceeded = false) :
    handleEvent event attempt = .error .overflow ↔
      event.retryCount + 1 < event.maxRetries ∧ 1024 ≤ event.retryCount + 1 := by
  have hflush : ∀ texts event', flush texts event' ≠ .error .overflow := by
    intro texts event'
    unfold flush
    split <;> simp
  unfold handleEvent
  dsimp only
  rw [if_neg (by simp [hfails])]
  split
  · next hlast => simp [hflush, hlast]
  · next hlast =>
      cases hdelay : backoff (event.retryCount + 1) attempt.jitter with
      | none =>
          simp only [true_iff]
          exact ⟨not_le.mp hlast, backoff_eq_none.mp hdelay⟩
      | some delay =>
          simp only [hflush, false_iff, not_and, not_le]
          intro _
          by_contra hmany
          rw [backoff_eq_none.mpr (not_lt.mp hmany)] at hdelay
          cases hdelay

/-- **When the backoff is bounded.** A failed attempt backs off if and only if it is
the last one of the event or its number is below 1024. -/
theorem backsOff_iff {event : OutboxEvent} {attempt : Attempt}
    (hfails : (dispatchResult event attempt).allSucceeded = false) :
    BacksOff event attempt ↔
      event.maxRetries ≤ event.retryCount + 1 ∨ event.retryCount + 1 < 1024 := by
  constructor
  · rintro ⟨hnot, -⟩
    rw [Ne, handleEvent_eq_overflow hfails] at hnot
    by_contra hcond
    rw [not_or, not_le, not_lt] at hcond
    exact hnot hcond
  · intro hcond
    constructor
    · rw [Ne, handleEvent_eq_overflow hfails]
      rintro ⟨hnotLast, hmany⟩
      rcases hcond with hlast | hfew
      · exact absurd hlast (not_le.mpr hnotLast)
      · exact absurd hfew (not_lt.mpr hmany)
    · intro event' hhandle
      cases handleEvent_eq_ok.mp hhandle with
      | processed hall _ =>
          rw [hfails] at hall
          cases hall
      | failed _ _ _ => exact Or.inl rfl
      | retry delay _ _ hdelay _ => exact Or.inr ⟨delay, rfl, backoff_bounds hdelay⟩

/-- The first failure of an event is followed by a delay of three and a half
seconds. -/
theorem first_failure_backsOff :
    BacksOff (publish 3 8 0 "tle.refreshed".toList [] none) raisingAttempt ∧
    (handleEvent (publish 3 8 0 "tle.refreshed".toList [] none) raisingAttempt).toOption.map
      OutboxEvent.scheduledAt = some 3500000 :=
  ⟨(backsOff_iff (by decide)).mpr (by decide), by decide⟩

/-- The failure number 1024 of an event with attempts left raises. -/
theorem late_failure_overflows :
    ¬ BacksOff { publish 3 2000 0 "tle.refreshed".toList [] none with retryCount := 1023 }
      raisingAttempt := by
  rintro ⟨hnot, -⟩
  exact hnot (by decide)

/-! ## All attempts of a run -/

/-- What a chain of attempts has stored contains no U+0000. -/
theorem AttemptChain.hasNul_texts {first last : OutboxEvent}
    {commits : List (OutboxEvent × OutboxEvent)} (hchain : AttemptChain first commits last)
    (hfresh : first.handlerState = ∅) : last.handlerState.texts.any Text.hasNul = false := by
  cases hchain with
  | nil =>
      rw [hfresh]
      rfl
  | cons _ _ _ hhandle =>
      cases handleEvent_eq_ok.mp hhandle with
      | processed _ hstored => exact hstored
      | failed _ _ hstored => exact (Bool.or_eq_false_iff.mp hstored).2
      | retry _ _ _ _ hstored => exact (Bool.or_eq_false_iff.mp hstored).2

theorem AttemptChain.maxRetries_eq {first last : OutboxEvent}
    {commits : List (OutboxEvent × OutboxEvent)} (hchain : AttemptChain first commits last) :
    last.maxRetries = first.maxRetries := by
  induction hchain with
  | nil => rfl
  | cons _ _ _ hhandle ih => cases handleEvent_eq_ok.mp hhandle <;> exact ih

/-- While an event is pending, every attempt so far was a failure, and it has one
left. -/
theorem AttemptChain.length_le {first last : OutboxEvent}
    {commits : List (OutboxEvent × OutboxEvent)} (hchain : AttemptChain first commits last)
    (hcount : first.retryCount = 0) (htries : 1 ≤ first.maxRetries) :
    commits.length ≤ first.maxRetries ∧ (last.status = .pending →
      last.retryCount = commits.length ∧ commits.length < first.maxRetries) := by
  induction hchain with
  | nil =>
      rw [List.length_nil]
      exact ⟨by lia, fun _ => ⟨hcount, by lia⟩⟩
  | @cons commits before after prior attempt hpending hhandle ih =>
      obtain ⟨hretries, hlength⟩ := ih.2 hpending
      have hlength' : ((before, after) :: commits).length ≤ first.maxRetries := by
        simp only [List.length_cons]
        lia
      refine ⟨hlength', fun hstatus => ?_⟩
      cases handleEvent_eq_ok.mp hhandle with
      | processed _ _ => cases hstatus
      | failed _ _ _ => cases hstatus
      | retry _ _ hnotLast _ _ =>
          rw [prior.maxRetries_eq] at hnotLast
          simp only [List.length_cons]
          exact ⟨by rw [hretries], by lia⟩

variable {W : Type u}

/-- The event that a transition hands to its handlers. -/
def dispatchBy (t : Transition (State W) (Action W)) : Option OutboxEvent :=
  match t.action with
  | .run worker _ =>
      if (t.source.phase worker).event? = none then (t.target.phase worker).event? else none
  | _ => none

/-- How often the event was dispatched. -/
def dispatchCount (h : History (State W) (Action W)) (id : Uuid) : ℕ :=
  h.countP fun t => (dispatchBy t).any fun event => decide (event.id = id)

/-- The condition on a run: no worker dies with an event in its hands, and every
attempt is recordable. -/
def EveryAttemptRecordable (_earlier : History (State W) (Action W))
    (t : Transition (State W) (Action W)) : Prop :=
  (∀ worker, t.action = .crash worker ∨ t.action = .abort worker →
    (t.source.phase worker).event? = none) ∧
  ∀ worker attempt event, t.action = .run worker (.attempt attempt) →
    (t.source.phase worker).event? = some event → IsRecordable event attempt

theorem dispatchCount_cons_of_none {t : Transition (State W) (Action W)}
    (hnone : dispatchBy t = none) (h : History (State W) (Action W)) (id : Uuid) :
    dispatchCount (t :: h) id = dispatchCount h id := by
  simp [dispatchCount, hnone]

theorem dispatchCount_cons_of_some {t : Transition (State W) (Action W)} {event : OutboxEvent}
    (hsome : dispatchBy t = some event) (h : History (State W) (Action W)) (id : Uuid) :
    dispatchCount (t :: h) id = dispatchCount h id + if event.id = id then 1 else 0 := by
  by_cases hid : event.id = id <;> simp [dispatchCount, hsome, hid]

/-- One if the row is locked. -/
def lockCount (s : State W) (id : Uuid) : ℕ := if (s.locks id).isSome then 1 else 0

variable [DecidableEq W]

/-- A worker without an event has nothing to release. -/
theorem release_eq_self {s : State W} (hlocks : LocksHeld s) {worker : W}
    (hfree : (s.phase worker).event? = none) : s.release worker = s := by
  have hsame : (s.release worker).locks = s.locks := by
    funext id
    show (if s.locks id = some worker then none else s.locks id) = s.locks id
    rw [if_neg]
    intro hlock
    obtain ⟨event, hevent, -⟩ := hlocks.owned id worker hlock
    rw [hfree] at hevent
    cases hevent
  show { s with locks := (s.release worker).locks } = s
  rw [hsame]

/-- The stored texts of an event that a worker has in its hands. -/
theorem hasNul_texts_of_event {h : History (State W) (Action W)} {s : State W}
    (hrun : (outbox (W := W)).Run h s) {worker : W} {event : OutboxEvent}
    (hevent : (s.phase worker).event? = some event) :
    event.handlerState.texts.any Text.hasNul = false := by
  have hrow := ((locksHeld_of_run hrun).held worker event hevent).row
  obtain ⟨first, ⟨t, -, hpublished⟩, hchain⟩ := (rowsChained_of_run hrun).chain _ _ hrow
  exact hchain.hasNul_texts (publishedBy_fresh hpublished).2

/-- In a run that meets the condition every dispatch has been committed, or is in
the hands of the worker that has the lock. -/
theorem dispatchCount_eq {h : History (State W) (Action W)} {s : State W}
    (hrun : (outbox (W := W)).Run h s) (hmeets : h.Meets EveryAttemptRecordable) (id : Uuid) :
    dispatchCount h id = (commitsOf h id).length + lockCount s id := by
  refine hrun.invariant (I := fun h s => dispatchCount h id =
    (commitsOf h id).length + lockCount s id) ?_ ?_ hmeets
  · intro s ⟨_, hfree, _⟩
    simp [dispatchCount, commitsOf, lockCount, hfree]
  · intro h s a s' hprior _ hinv hstep hok
    have hlocks := locksHeld_of_run hprior
    cases step_effect hstep with
    | tick _ =>
        rw [dispatchCount_cons_of_none rfl, commitsOf_cons_of_none rfl]
        exact hinv
    | publish _ _ =>
        rw [dispatchCount_cons_of_none rfl, commitsOf_cons_of_none rfl]
        exact hinv
    | @move _ worker phase hfree hnext _ hcommit hcause =>
        have hby : commitBy ⟨s, a, s.enter worker phase⟩ = none := hcommit
        rw [dispatchCount_cons_of_none, commitsOf_cons_of_none hby]
        · exact hinv
        · rcases hcause with rfl | ⟨choice, rfl⟩
          · rfl
          · simp [dispatchBy, hnext]
    | @rollback _ worker phase hnext _ hcommit hcause =>
        -- In such a run only a worker without an event gets here.
        obtain ⟨hfree, hactor⟩ : (s.phase worker).event? = none ∧
            (a = .crash worker ∨ a = .abort worker) := by
          rcases hcause with rfl | rfl | ⟨rounds, event, attempt, rfl, hphase, hraises⟩
          · exact ⟨hok.1 worker (Or.inl rfl), Or.inl rfl⟩
          · exact ⟨hok.1 worker (Or.inr rfl), Or.inr rfl⟩
          · have hevent : (s.phase worker).event? = some event := by
              rw [hphase]
              rfl
            obtain ⟨after, hhandle⟩ := exists_of_isRecordable (hasNul_texts_of_event hprior hevent)
              (hok.2 worker attempt event rfl hevent)
            exact absurd hhandle (hraises after)
        rw [release_eq_self hlocks hfree]
        have hby : commitBy ⟨s, a, s.enter worker phase⟩ = none := hcommit
        rw [dispatchCount_cons_of_none, commitsOf_cons_of_none hby]
        · exact hinv
        · rcases hactor with rfl | rfl <;> rfl
    | @lock worker rounds now rowId candidates event hphase hlock =>
        obtain ⟨hfree, hrow, -, -⟩ := State.lockable_eq_some.mp hlock
        have hrowId : event.id = rowId := Table.key_of_find? hrow
        have hby : dispatchBy ⟨s, .run worker .proceed,
            (s.lock worker rowId).enter worker (.dispatching rounds event)⟩ = some event := by
          simp [dispatchBy, hphase, Phase.event?]
        rw [dispatchCount_cons_of_some hby, commitsOf_cons_of_none (by
          simp [commitBy, State.commit?, hphase, Phase.commit?]), hinv, hrowId]
        by_cases hid : rowId = id
        · subst hid
          simp [lockCount, hfree]
        · simp [lockCount, hid, Ne.symm hid]
    | @flush worker rounds event after attempt hphase _ hhandle =>
        rw [dispatchCount_cons_of_none, commitsOf_cons_of_none]
        · exact hinv
        · simp [commitBy, State.commit?, hphase, Phase.commit?]
        · simp [dispatchBy, hphase, Phase.event?]
    | @commit worker rounds before after hphase =>
        have hown : Holds s worker before := hlocks.held worker before (by rw [hphase]; rfl)
        have hby : ∀ s', commitBy ⟨s, .run worker .proceed, s'⟩ = some (before, after) := by
          simp [commitBy, State.commit?, hphase, Phase.commit?]
        rw [dispatchCount_cons_of_none, commitsOf_cons_of_some (hby _), hinv]
        · by_cases hid : before.id = id
          · subst hid
            simp [lockCount, State.release, hown.lock]
          · -- The worker has no other lock to release.
            have hother : s.locks id ≠ some worker := by
              intro hlock
              obtain ⟨event, hevent, hevid⟩ := hlocks.owned id worker hlock
              rw [hphase] at hevent
              cases hevent
              exact hid hevid
            simp [lockCount, State.release, hother, hid]
        · simp [dispatchBy, hphase, Phase.event?]

/-- **At most `max_retries` dispatches.** In a run that meets the condition no
event is dispatched more often than its `max_retries` allows. -/
theorem dispatchCount_le {h : History (State W) (Action W)} {s : State W}
    (hrun : (outbox (W := W)).Run h s) (hmeets : h.Meets EveryAttemptRecordable) {id : Uuid}
    {event : OutboxEvent} (hfind : s.events.find? id = some event)
    (htries : 1 ≤ event.maxRetries) : dispatchCount h id ≤ event.maxRetries := by
  obtain ⟨first, ⟨t, -, hpublished⟩, hchain⟩ := (rowsChained_of_run hrun).chain id event hfind
  rw [hchain.maxRetries_eq] at htries ⊢
  obtain ⟨hlength, hpending⟩ := hchain.length_le (publishedBy_fresh hpublished).1 htries
  rw [dispatchCount_eq hrun hmeets]
  cases hlock : s.locks id with
  | none =>
      simp only [lockCount, hlock, Option.isSome_none, Bool.false_eq_true, if_false, add_zero]
      exact hlength
  | some worker =>
      -- The event is being dispatched, so it is pending and has an attempt left.
      obtain ⟨held, hevent, rfl⟩ := (locksHeld_of_run hrun).owned id worker hlock
      have hholds := (locksHeld_of_run hrun).held worker held hevent
      rw [hholds.row] at hfind
      cases hfind
      have hleft := (hpending hholds.pending).2
      simp only [lockCount, hlock, Option.isSome_some, if_true]
      lia

/-! ## Both workers -/

/-- A failed run of a job is recorded: phase 3 commits, and the row is pending
again and due one interval later. -/
def RecordsJobFailure (jobId : Uuid) (intervalSeconds : ℤ) (now : Time) (error : Text)
    (jobs : Jobs.JobTable) : Prop :=
  ∃ jobs', Jobs.rescheduleJob jobId intervalSeconds now (some error) jobs = some jobs' ∧
    ∀ job, jobs.find? jobId = some job → ∃ job', jobs'.find? jobId = some job' ∧
      job'.status = .pending ∧ job'.nextRunAt = now + timedelta intervalSeconds

theorem recordsJobFailure_iff {jobId : Uuid} {intervalSeconds : ℤ} {now : Time} {error : Text}
    {jobs : Jobs.JobTable} :
    RecordsJobFailure jobId intervalSeconds now error jobs ↔
      Text.hasNul (Text.lastChars 500 error) = false := by
  have hstorable : Jobs.storable (Jobs.lastErrorOf (some error)) = true ↔
      Text.hasNul (Text.lastChars 500 error) = false := by
    cases error with
    | nil => decide
    | cons c rest => simp [Jobs.lastErrorOf, Jobs.storable]
  rw [← hstorable]
  constructor
  · rintro ⟨jobs', hwrite, -⟩
    unfold Jobs.rescheduleJob at hwrite
    split at hwrite
    · next hstored => exact hstored
    · cases hwrite
  · intro hstored
    obtain ⟨jobs', hwrite⟩ : ∃ jobs',
        Jobs.rescheduleJob jobId intervalSeconds now (some error) jobs = some jobs' :=
      ⟨_, if_pos hstored⟩
    refine ⟨jobs', hwrite, fun job hfind => ?_⟩
    have hrow := Jobs.find?_rescheduleJob hwrite jobId
    rw [hfind, Option.map_some, if_pos (Table.key_of_find? hfind)] at hrow
    exact ⟨_, hrow, rfl, rfl⟩

/-- **When failures are recorded.** In the outbox, the failure of an attempt on a
stored event if and only if the attempt is recordable; in the job worker, that
of a run if and only if the last 500 characters of the traceback are free of
U+0000. In a run of the outbox all of whose attempts are recordable, no event is
dispatched more than `max_retries` times. -/
theorem failures_recorded_iff (W : Type) [DecidableEq W] :
    (∀ event attempt, event.handlerState.texts.any Text.hasNul = false →
      (dispatchResult event attempt).allSucceeded = false →
      (RecordsFailure event attempt ↔ IsRecordable event attempt)) ∧
    (∀ jobId intervalSeconds now error jobs,
      RecordsJobFailure jobId intervalSeconds now error jobs ↔
        Text.hasNul (Text.lastChars 500 error) = false) ∧
    ∀ h s, (outbox (W := W)).Run h s → h.Meets EveryAttemptRecordable →
      ∀ id event, s.events.find? id = some event → 1 ≤ event.maxRetries →
        dispatchCount h id ≤ event.maxRetries :=
  ⟨fun _ _ hstate hfails => recordsFailure_iff hstate hfails,
    fun _ _ _ _ _ => recordsJobFailure_iff,
    fun _ _ hrun hmeets _ _ hfind htries => dispatchCount_le hrun hmeets hfind htries⟩

/-- A traceback that quotes U+0000. -/
def nulTraceback : Text := "ValueError: embedded null byte ".toList ++ [Text.nul]

/-- An attempt in which the only handler raises with such a traceback. -/
def nulAttempt : Attempt :=
  attemptOf [⟨⟨0, "recompute_passes".toList⟩, .raises nulTraceback⟩]

/-- The failure is recorded by neither worker: the attempt is rolled back, however
often it is repeated, and so is phase 3 of the job worker. Without any U+0000,
the attempt number 1024 of an event with attempts left overflows. -/
theorem nul_not_recorded :
    (handleEvent (publish 3 8 0 "tle.refreshed".toList [] none) nulAttempt = .error .rejected ∧
      ∀ n, afterRounds (publish 3 8 0 "tle.refreshed".toList [] none)
        (List.replicate n ⟨nulAttempt, true⟩) = publish 3 8 0 "tle.refreshed".toList [] none) ∧
    ¬ RecordsFailure (publish 3 8 0 "tle.refreshed".toList [] none) nulAttempt ∧
    (∀ jobs, ¬ RecordsJobFailure 7 7200 0 nulTraceback jobs) ∧
    handleEvent { publish 3 2000 0 "tle.refreshed".toList [] none with retryCount := 1023 }
      raisingAttempt = .error .overflow := by
  have hraises : handleEvent (publish 3 8 0 "tle.refreshed".toList [] none) nulAttempt =
      .error .rejected := by decide
  refine ⟨⟨hraises, fun n => ?_⟩, ?_, fun jobs hrecords => ?_, by decide⟩
  · induction n with
    | zero => rfl
    | succ n ih =>
        have hround : takeRound (publish 3 8 0 "tle.refreshed".toList [] none)
            ⟨nulAttempt, true⟩ = publish 3 8 0 "tle.refreshed".toList [] none := by
          rw [takeRound, if_pos ⟨rfl, rfl⟩, hraises]
        rw [List.replicate_succ, afterRounds_cons, hround, ih]
  · rintro ⟨event', hhandle, -⟩
    rw [hraises] at hhandle
    cases hhandle
  · have hnul : Text.hasNul (Text.lastChars 500 nulTraceback) = true := by decide
    rw [recordsJobFailure_iff, hnul] at hrecords
    cases hrecords

end Apsis.Core.Events
