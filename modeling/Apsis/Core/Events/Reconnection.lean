/-
# The pace of the outbox worker, and its recovery

The loop of the outbox worker gives up a connection when something fails, and makes another.
It must neither hammer a database that is down nor stay away from one that is up again. The
first is kept by the deadlines of its sleep and of its poll, since every way back to `connect`
leads through one of the two; the second by the number of awaits between any place of the loop
and the next batch.
-/

import Apsis.Core.Events.Connection

namespace Apsis.Core.Events.Connection

open Apsis.Library

/-! ## Kinds of transitions -/

/-- The heartbeat is being awaited. -/
def Place.isChecking : Place → Bool
  | .checking _ => true
  | _ => false

/-- A batch is being processed. -/
def Place.isProcessing : Place → Bool
  | .processing _ => true
  | _ => false

/-- `add_listener` is being awaited. -/
def Place.isListening : Place → Bool
  | .listening _ => true
  | _ => false

/-- The transition comes to `connect`. -/
def connects (t : Transition State Action) : Bool :=
  decide (t.source.place ≠ .connecting) && decide (t.target.place = .connecting)

/-- The transition begins a batch. -/
def beginsBatch (t : Transition State Action) : Bool :=
  t.source.place.isChecking && t.target.place.isProcessing

/-- The transition is a failure. -/
def fails (t : Transition State Action) : Bool :=
  t.source.place.mayFail && decide (t.action = .resume .raises)

/-- The transition has a connection ready. -/
def listens (t : Transition State Action) : Bool :=
  t.source.place.isListening && decide (t.action = .resume .returns)

/-- The failures since a connection was ready. -/
def failures : History State Action → ℕ
  | [] => 0
  | t :: earlier =>
      if fails t then failures earlier + 1 else if listens t then 0 else failures earlier

/-! ## How early the last connection and the last batch were -/

section Limits

variable (poll : ℤ)

/-- The shortest time between two connections. -/
def gap : ℤ := min poll (timedelta 2)

/-- Earlier attempts to connect were this early. -/
def Place.connectedBy (clock : Time) (shutdown : Bool) : Place → Time
  | .idle => min clock (clock - gap poll)
  | .created => min clock (clock - gap poll)
  | .waiting _ deadline => min clock (deadline - poll)
  | .checking _ => min clock (clock - poll)
  | .sleeping _ deadline => min clock (deadline - timedelta 2)
  | .removing _ cancelled => if cancelled || shutdown then clock else min clock (clock - gap poll)
  | .closing _ cancelled => if cancelled || shutdown then clock else min clock (clock - gap poll)
  | _ => clock

/-- Earlier batches began this early. -/
def Place.batchedBy (clock : Time) : Place → Time
  | .waiting _ deadline => min clock (deadline - poll)
  | .checking _ => min clock (clock - poll)
  | _ => clock

end Limits

variable {poll : ℤ} {h : History State Action} {s s' : State} {a : Action}

theorem two_le_reconnectDelay (attempts : ℕ) : timedelta 2 ≤ reconnectDelay (attempts + 1) := by
  have hpower : (2 : ℤ) ≤ 2 ^ (attempts + 1) := by
    have hone : (1 : ℤ) ≤ 2 ^ attempts := one_le_pow₀ (by decide)
    rw [pow_succ]
    lia
  have hmin : (2 : ℤ) ≤ min (2 ^ (attempts + 1)) 60 := le_min hpower (by decide)
  simp only [reconnectDelay, timedelta]
  lia

/-- The `finally` without a `CancelledError` is reached one gap after the last connection, or
when the worker has been told to stop. -/
theorem CleansTo.le_connectedBy {conn? : Option ConnId} {cancelled : Bool} {place : Place}
    (hnext : CleansTo s conn? cancelled place) {limit : Time} (hlimit : limit ≤ s.clock)
    (hearly : cancelled = false → s.shutdown = false → limit ≤ s.clock - gap poll) :
    limit ≤ place.connectedBy poll s.clock s.shutdown := by
  cases hnext with
  | remove _ _ =>
      simp only [Place.connectedBy]
      split
      · exact hlimit
      · next hnot =>
          rw [Bool.or_eq_true, not_or, Bool.not_eq_true, Bool.not_eq_true] at hnot
          exact le_min hlimit (hearly hnot.1 hnot.2)
  | leave _ hnext => cases hnext <;> exact hlimit

theorem LeavesTo.le_connectedBy {cancelled : Bool} {place : Place}
    (hnext : LeavesTo s cancelled place) :
    s.clock ≤ place.connectedBy poll s.clock s.shutdown := by
  cases hnext <;> exact le_rfl

theorem AwaitsTo.le_connectedBy {conn : ConnId} {place : Place}
    (hnext : AwaitsTo poll s conn place) :
    s.clock ≤ place.connectedBy poll s.clock s.shutdown := by
  cases hnext with
  | wait _ => simp [Place.connectedBy]
  | cleanUp hshutdown hnext =>
      refine hnext.le_connectedBy le_rfl fun _ hnot => ?_
      rw [hshutdown] at hnot
      cases hnot

theorem Place.connectedBy_le (clock : Time) (shutdown : Bool) (place : Place) :
    place.connectedBy poll clock shutdown ≤ clock := by
  cases place with
  | removing _ cancelled | closing _ cancelled =>
      simp only [connectedBy]
      split
      · exact le_rfl
      · exact min_le_left _ _
  | idle | created | waiting _ _ | checking _ | sleeping _ _ => exact min_le_left _ _
  | _ => exact le_rfl

theorem Place.connectedBy_mono {clock clock' : Time} (hle : clock ≤ clock') (shutdown : Bool)
    (place : Place) :
    place.connectedBy poll clock shutdown ≤ place.connectedBy poll clock' shutdown := by
  cases place with
  | removing _ cancelled | closing _ cancelled =>
      simp only [connectedBy]
      split
      · exact hle
      · exact min_le_min hle (by lia)
  | idle | created | checking _ => exact min_le_min hle (by lia)
  | waiting _ _ | sleeping _ _ => exact min_le_min hle le_rfl
  | _ => exact hle

theorem Place.connectedBy_le_shutdown (clock : Time) (shutdown : Bool) (place : Place) :
    place.connectedBy poll clock shutdown ≤ place.connectedBy poll clock true := by
  cases place with
  | removing _ _ | closing _ _ =>
      simp only [connectedBy, Bool.or_true, if_true]
      split
      · exact le_rfl
      · exact min_le_left _ _
  | _ => exact le_rfl

/-- One gap has passed when the loop comes to the `finally` and may go on. -/
theorem ToCleanUp.connectedBy_le {outcome : Outcome} (hcause : ToCleanUp s outcome)
    (hshutdown : s.shutdown = false) :
    s.place.connectedBy poll s.clock s.shutdown ≤ s.clock - gap poll := by
  cases hcause with
  | shutdown _ hset =>
      rw [hshutdown] at hset
      cases hset
  | heartbeat hplace =>
      rw [hplace]
      refine (min_le_right _ _).trans ?_
      have hgap : gap poll ≤ poll := min_le_left _ _
      lia
  | slept hplace hdeadline =>
      rw [hplace]
      refine (min_le_right _ _).trans ?_
      have hgap : gap poll ≤ timedelta 2 := min_le_right _ _
      lia

/-- The limit does not go back. -/
theorem connectedBy_step (hstep : step poll s a = some s') :
    s.place.connectedBy poll s.clock s.shutdown ≤
      s'.place.connectedBy poll s'.clock s'.shutdown := by
  have hlast : s.place.connectedBy poll s.clock s.shutdown ≤ s.clock :=
    Place.connectedBy_le s.clock s.shutdown s.place
  cases step_effect hstep with
  | tick elapsed => exact Place.connectedBy_mono (by simp) _ _
  | start hplace =>
      rw [hplace]
      exact le_rfl
  | stop => exact Place.connectedBy_le_shutdown _ _ _
  | lose _ => exact le_rfl
  | begin _ hnext => exact hlast.trans hnext.le_connectedBy
  | connect _ => exact hlast
  | listen _ hnext => exact hlast.trans hnext.le_connectedBy
  | timeout hplace hdeadline =>
      rw [hplace]
      exact min_le_min le_rfl (by lia)
  | check _ => exact hlast
  | process _ hnext => exact hlast.trans hnext.le_connectedBy
  | fail _ =>
      have hdelay := two_le_reconnectDelay s.attempts
      exact le_min hlast (hlast.trans (by lia))
  | cleanUp hcause hnext =>
      exact hnext.le_connectedBy hlast fun _ hshutdown => hcause.connectedBy_le hshutdown
  | remove hplace =>
      rw [hplace]
      exact le_rfl
  | close _ hnext => exact hlast.trans hnext.le_connectedBy
  | raise _ => exact hlast
  | cancel _ _ _ hnext => exact hnext.le_connectedBy hlast (by rintro ⟨⟩)
  | cancelCleanUp _ _ => exact hlast

theorem LeavesTo.of_connecting {cancelled : Bool} (hnext : LeavesTo s cancelled .connecting) :
    cancelled = false ∧ s.shutdown = false := by
  cases hnext with
  | again hshutdown => exact ⟨rfl, hshutdown⟩

theorem CleansTo.of_connecting {conn? : Option ConnId} {cancelled : Bool}
    (hnext : CleansTo s conn? cancelled .connecting) : cancelled = false ∧ s.shutdown = false := by
  cases hnext with
  | leave _ hnext => exact hnext.of_connecting

theorem AwaitsTo.ne_connecting {conn : ConnId} : ¬ AwaitsTo poll s conn .connecting := by
  intro hnext
  cases hnext with
  | cleanUp hshutdown hnext =>
      rw [hnext.of_connecting.2] at hshutdown
      cases hshutdown

/-- The loop comes to `connect` one gap after it was there before. -/
theorem connectedBy_of_connects (hstep : step poll s a = some s')
    (hconnects : connects ⟨s, a, s'⟩ = true) :
    s.place.connectedBy poll s.clock s.shutdown ≤ s'.clock - gap poll := by
  rw [connects, Bool.and_eq_true, decide_eq_true_iff, decide_eq_true_iff] at hconnects
  obtain ⟨hbefore, hafter⟩ := hconnects
  cases step_effect hstep with
  | tick _ => exact absurd hafter hbefore
  | stop => exact absurd hafter hbefore
  | lose _ => exact absurd hafter hbefore
  | begin hplace _ =>
      rw [hplace]
      exact min_le_right _ _
  | cleanUp hcause hnext =>
      cases hafter
      exact hcause.connectedBy_le hnext.of_connecting.2
  | close hplace hnext =>
      cases hafter
      obtain ⟨rfl, hshutdown⟩ := hnext.of_connecting
      have hshutdown' : s.shutdown = false := hshutdown
      rw [hplace, hshutdown']
      exact min_le_right _ _
  | cancel _ _ _ hnext =>
      cases hafter
      cases hnext.of_connecting.1
  | listen _ hnext =>
      cases hafter
      exact absurd hnext AwaitsTo.ne_connecting
  | process _ hnext =>
      cases hafter
      exact absurd hnext AwaitsTo.ne_connecting
  | _ => cases hafter

/-- The run lemma for connections. -/
theorem connectedBy_of_run (hrun : (loop poll).Run h s) :
    h.DoneBy State.clock (fun t => connects t = true)
      (s.place.connectedBy poll s.clock s.shutdown) := by
  apply hrun.invariant_of_step (I := fun h s => h.DoneBy State.clock (fun t => connects t = true)
    (s.place.connectedBy poll s.clock s.shutdown))
  · exact fun _ _ => History.doneBy_nil
  · intro h s a s' _ hinv hstep
    refine (hinv.mono (connectedBy_step hstep)).cons fun hconnects => ?_
    rw [connects, Bool.and_eq_true, decide_eq_true_iff, decide_eq_true_iff] at hconnects
    show s'.clock ≤ s'.place.connectedBy poll s'.clock s'.shutdown
    rw [hconnects.2]
    exact le_rfl

/-! ## Batches -/

theorem Place.batchedBy_le (clock : Time) (place : Place) :
    place.batchedBy poll clock ≤ clock := by
  cases place with
  | waiting _ _ | checking _ => exact min_le_left _ _
  | _ => exact le_rfl

theorem LeavesTo.le_batchedBy {cancelled : Bool} {place : Place}
    (hnext : LeavesTo s cancelled place) : s.clock ≤ place.batchedBy poll s.clock := by
  cases hnext <;> exact le_rfl

theorem CleansTo.le_batchedBy {conn? : Option ConnId} {cancelled : Bool} {place : Place}
    (hnext : CleansTo s conn? cancelled place) : s.clock ≤ place.batchedBy poll s.clock := by
  cases hnext with
  | remove _ _ => exact le_rfl
  | leave _ hnext => exact hnext.le_batchedBy

theorem AwaitsTo.le_batchedBy {conn : ConnId} {place : Place}
    (hnext : AwaitsTo poll s conn place) : s.clock ≤ place.batchedBy poll s.clock := by
  cases hnext with
  | wait _ => simp [Place.batchedBy]
  | cleanUp _ hnext => exact hnext.le_batchedBy

theorem batchedBy_step (hstep : step poll s a = some s') :
    s.place.batchedBy poll s.clock ≤ s'.place.batchedBy poll s'.clock := by
  have hlast : s.place.batchedBy poll s.clock ≤ s.clock := Place.batchedBy_le s.clock s.place
  cases step_effect hstep with
  | tick elapsed =>
      have hle : s.clock ≤ s.clock + elapsed := by simp
      cases hplace : s.place with
      | waiting _ _ => exact min_le_min hle le_rfl
      | checking _ => exact min_le_min hle (by lia)
      | _ => exact hle
  | start hplace =>
      rw [hplace]
      exact le_rfl
  | stop => exact le_rfl
  | lose _ => exact le_rfl
  | begin _ hnext => exact hlast.trans hnext.le_batchedBy
  | listen _ hnext => exact hlast.trans hnext.le_batchedBy
  | process _ hnext => exact hlast.trans hnext.le_batchedBy
  | close _ hnext => exact hlast.trans hnext.le_batchedBy
  | cleanUp _ hnext => exact hlast.trans hnext.le_batchedBy
  | cancel _ _ _ hnext => exact hlast.trans hnext.le_batchedBy
  | timeout hplace hdeadline =>
      rw [hplace]
      exact min_le_min le_rfl (by lia)
  | _ => exact hlast

theorem CleansTo.isProcessing {conn? : Option ConnId} {cancelled : Bool} {place : Place}
    (hnext : CleansTo s conn? cancelled place) : place.isProcessing = false := by
  cases hnext with
  | remove _ _ => rfl
  | leave _ hnext => cases hnext <;> rfl

/-- A batch begins one poll after the one before. -/
theorem batchedBy_of_begins (hstep : step poll s a = some s')
    (hbegins : beginsBatch ⟨s, a, s'⟩ = true) :
    s.place.batchedBy poll s.clock ≤ s'.clock - poll := by
  rw [beginsBatch, Bool.and_eq_true] at hbegins
  obtain ⟨hbefore, hafter⟩ := hbegins
  have hsame : s'.place = s.place → s.place.batchedBy poll s.clock ≤ s'.clock - poll := by
    intro hsame
    have hboth : s.place.isProcessing = true := hsame ▸ hafter
    cases hplace : s.place with
    | checking _ =>
        rw [hplace] at hboth
        cases hboth
    | _ =>
        simp only [hplace] at hbefore
        cases hbefore
  cases step_effect hstep with
  | tick _ => exact hsame rfl
  | stop => exact hsame rfl
  | lose _ => exact hsame rfl
  | check hplace =>
      rw [hplace]
      exact min_le_right _ _
  | fail _ => cases hafter
  | cleanUp _ hnext | cancel _ _ _ hnext => exact absurd hafter (by simp [hnext.isProcessing])
  | cancelCleanUp _ _ => cases hafter
  | start hplace | begin hplace _ | connect hplace | listen hplace _ | timeout hplace _
  | process hplace _ | remove hplace | close hplace _ | raise hplace =>
      simp only [hplace] at hbefore
      cases hbefore

/-- The run lemma for batches. -/
theorem batchedBy_of_run (hrun : (loop poll).Run h s) :
    h.DoneBy State.clock (fun t => beginsBatch t = true) (s.place.batchedBy poll s.clock) := by
  apply hrun.invariant_of_step (I := fun h s => h.DoneBy State.clock
    (fun t => beginsBatch t = true) (s.place.batchedBy poll s.clock))
  · exact fun _ _ => History.doneBy_nil
  · intro h s a s' _ hinv hstep
    refine (hinv.mono (batchedBy_step hstep)).cons fun hbegins => ?_
    rw [beginsBatch, Bool.and_eq_true] at hbegins
    show s'.clock ≤ s'.place.batchedBy poll s'.clock
    cases hplace : s'.place with
    | processing _ => exact le_rfl
    | _ =>
        rw [hplace] at hbegins
        cases hbegins.2

/-! ## Delays -/

theorem failures_cons_of_quiet {t : Transition State Action} (hfails : fails t = false)
    (hlistens : listens t = false) : failures (t :: h) = failures h := by
  simp [failures, hfails, hlistens]

/-- The loop counts the failures. -/
theorem attempts_of_run (hrun : (loop poll).Run h s) : s.attempts = failures h := by
  apply hrun.invariant_of_step (I := fun h s => s.attempts = failures h)
  · exact fun s hinit => hinit.2.2.1
  · intro h s a s' _ hinv hstep
    have hquiet : s'.attempts = s.attempts → fails ⟨s, a, s'⟩ = false →
        listens ⟨s, a, s'⟩ = false → s'.attempts = failures (⟨s, a, s'⟩ :: h) := by
      intro hsame hfails hlistens
      rw [failures_cons_of_quiet hfails hlistens, hsame, hinv]
    cases step_effect hstep with
    | fail hplace => simp [failures, fails, hplace, hinv]
    | listen hplace _ => simp [failures, fails, listens, hplace, Place.isListening]
    | tick _ | stop | lose _ => exact hquiet rfl (by simp [fails]) (by simp [listens])
    | cancel hcause _ _ _ | cancelCleanUp hcause _ =>
        obtain ⟨hraises, hreturns⟩ := hcause.outcome
        exact hquiet rfl (by simp [fails, hraises]) (by simp [listens, hreturns])
    | cleanUp hcause _ =>
        cases hcause with
        | shutdown hplace _ | heartbeat hplace | slept hplace _ =>
            exact hquiet rfl (by simp [fails, hplace, Place.mayFail])
              (by simp [listens, hplace, Place.isListening])
    | start hplace | begin hplace _ | connect hplace | timeout hplace _ | check hplace
    | process hplace _ | remove hplace | close hplace _ | raise hplace =>
        exact hquiet rfl (by simp [fails, hplace, Place.mayFail])
          (by simp [listens, hplace, Place.isListening])

theorem sleeping_of_fails (hstep : step poll s a = some s') (hfails : fails ⟨s, a, s'⟩ = true) :
    ∃ conn?, s'.place =
      .sleeping conn? (s'.clock + timedelta (min (2 ^ (s.attempts + 1)) 60)) := by
  rw [fails, Bool.and_eq_true, decide_eq_true_iff] at hfails
  obtain ⟨hplace, rfl⟩ := hfails
  have hfail : ∀ conn?, s.fail conn? = s' → ∃ conn?, s'.place =
      .sleeping conn? (s'.clock + timedelta (min (2 ^ (s.attempts + 1)) 60)) := by
    rintro conn? rfl
    exact ⟨conn?, rfl⟩
  simp only [step] at hstep
  generalize s.place = place at hstep hplace
  cases place with
  | connecting | listening _ | processing _ => exact hfail _ (Option.some.inj hstep)
  | _ => cases hplace

/-- The last transition of a run keeps the pace. -/
structure KeepsPace (poll : ℤ) (h : History State Action) (t : Transition State Action) :
    Prop where
  /-- Connections are one gap apart. -/
  connects : connects t = true → ∀ earlier ∈ h, Connection.connects earlier = true →
    earlier.target.clock + min poll (timedelta 2) ≤ t.target.clock
  /-- Batches are one poll apart. -/
  batches : beginsBatch t = true → ∀ earlier ∈ h, beginsBatch earlier = true →
    earlier.target.clock + poll ≤ t.target.clock
  /-- The sleep after the n-th failure in a row takes 2ⁿ seconds, and no more than a minute. -/
  sleeps : fails t = true → ∃ conn?, t.target.place = .sleeping conn?
    (t.target.clock + timedelta (min (2 ^ failures (t :: h)) 60))

/-- **The worker keeps its pace.** Whatever fails, the worker waits for two seconds or for its
poll before it connects again, and for its poll before the next batch. -/
theorem keepsPace_of_run {t : Transition State Action} (hrun : (loop poll).Run (t :: h) s) :
    KeepsPace poll h t := by
  obtain ⟨hprior, hstep, rfl⟩ := hrun.of_cons
  have htaken : step poll t.source t.action = some t.target := hstep
  constructor
  · intro hconnects earlier hmem hearlier
    have hearly := connectedBy_of_run hprior earlier hmem hearlier
    have hgap := connectedBy_of_connects htaken hconnects
    unfold gap at hgap
    lia
  · intro hbegins earlier hmem hearlier
    have hearly := batchedBy_of_run hprior earlier hmem hearlier
    have hpoll := batchedBy_of_begins htaken hbegins
    lia
  · intro hfails
    have hattempts := attempts_of_run hprior
    rw [failures, if_pos hfails, ← hattempts]
    exact sleeping_of_fails htaken hfails

/-- A second connection comes two seconds after a first that failed. -/
theorem second_connection_paced :
    ∃ t h s earlier, (loop 5000000).Run (t :: h) s ∧ connects t = true ∧ earlier ∈ h ∧
      connects earlier = true ∧ earlier.target.clock + timedelta 2 ≤ t.target.clock := by
  obtain ⟨h, s, hrun, hP⟩ := System.exists_run_of_play (newWorker_init 5000000)
    (connectActions.take 5)
    (fun p => match p.1 with
      | [] => false
      | t :: h => decide (connects t = true ∧ ∃ earlier ∈ h, connects earlier = true))
    (by decide)
  cases h with
  | nil => cases hP
  | cons t h =>
      obtain ⟨hconnects, earlier, hmem, hearlier⟩ := of_decide_eq_true hP
      exact ⟨t, h, s, earlier, hrun, hconnects, hmem, hearlier,
        (keepsPace_of_run hrun).connects hconnects earlier hmem hearlier⟩

/-! ## Recovery -/

/-- The worker takes a step of its own. -/
def isResume (t : Transition State Action) : Bool :=
  match t.action with
  | .resume _ => true
  | _ => false

/-- Nothing fails and nobody stops the worker: what is awaited returns, except that the wait
for the shutdown event times out. Connections may be lost all the same. -/
def goesWell (t : Transition State Action) : Bool :=
  match t.action with
  | .tick _ => true
  | .lose _ => true
  | .resume .returns => true
  | .resume .raises =>
      match t.source.place with
      | .waiting _ _ => true
      | _ => false
  | _ => false

/-- Time passes only where the worker waits for it, and no more than it waits for. -/
def isPunctual (t : Transition State Action) : Bool :=
  match t.action with
  | .tick _ =>
      match t.source.place with
      | .waiting _ deadline => decide (t.target.clock ≤ deadline)
      | .sleeping _ deadline => decide (t.target.clock ≤ deadline)
      | _ => false
  | _ => true

/-- The steps of the worker to the next heartbeat. -/
def Place.stepsLeft : Place → ℕ
  | .checking _ => 0
  | .waiting _ _ => 1
  | .listening _ => 2
  | .processing _ => 2
  | .connecting => 3
  | .created => 4
  | .closing _ _ => 4
  | .removing _ _ => 5
  | .sleeping _ _ => 6
  | .idle => 0
  | .ended _ => 0

/-- The next batch is due then, if nothing takes time but the sleep and the poll. -/
def Place.batchBy (poll : ℤ) (clock : Time) : Place → Time
  | .waiting _ deadline => max clock deadline
  | .checking _ => clock
  | .sleeping _ deadline => max clock deadline + max 0 poll
  | _ => clock + max 0 poll

/-- The worker runs, nobody has told it to stop, and no `CancelledError` is on its way out. -/
structure OnCourse (s : State) : Prop where
  live : s.place.isLive = true
  shutdown : s.shutdown = false
  kept : s.place.isCancelled = false

/-- The worker does not wait for more than a poll or a minute. -/
def WaitsShortly (poll : ℤ) (s : State) : Prop :=
  match s.place with
  | .waiting _ deadline => deadline ≤ s.clock + poll
  | .sleeping _ deadline => deadline ≤ s.clock + timedelta 60
  | _ => True

theorem waitsShortly_of_run (hrun : (loop poll).Run h s) : WaitsShortly poll s := by
  apply hrun.invariant_of_step (I := fun _ s => WaitsShortly poll s)
  · intro s hinit
    simp only [WaitsShortly, hinit.2.2.2.2.2]
  · intro h s a s' _ hinv hstep
    have hleaves : ∀ {before : State} {cancelled : Bool} {place : Place},
        LeavesTo before cancelled place → WaitsShortly poll { s with place := place } := by
      intro _ _ _ hnext
      cases hnext <;> trivial
    have hcleans : ∀ {before : State} {conn? : Option ConnId} {cancelled : Bool} {place : Place},
        CleansTo before conn? cancelled place → WaitsShortly poll { s with place := place } := by
      intro _ _ _ _ hnext
      cases hnext with
      | remove _ _ => trivial
      | leave _ hnext => exact hleaves hnext
    have hawaits : ∀ {before : State} {conn : ConnId} {place : Place},
        AwaitsTo poll before conn place → before.clock = s.clock →
          WaitsShortly poll { s with place := place } := by
      intro _ _ _ hnext hclock
      cases hnext with
      | wait _ => exact (congrArg (· + poll) hclock).le
      | cleanUp _ hnext => exact hcleans hnext
    cases step_effect hstep with
    | tick elapsed =>
        unfold WaitsShortly at hinv ⊢
        cases hplace : s.place with
        | waiting _ _ | sleeping _ _ =>
            simp only [hplace] at hinv
            show _ ≤ s.clock + elapsed + _
            lia
        | _ => trivial
    | stop => exact hinv
    | lose _ => exact hinv
    | begin _ hnext => exact hleaves hnext
    | close _ hnext => exact hleaves hnext
    | cleanUp _ hnext => exact hcleans hnext
    | cancel _ _ _ hnext => exact hcleans hnext
    | listen _ hnext => exact hawaits hnext rfl
    | process _ hnext => exact hawaits hnext rfl
    | fail _ =>
        have hdelay : reconnectDelay (s.attempts + 1) ≤ timedelta 60 := by
          have hmin : min (2 ^ (s.attempts + 1) : ℤ) 60 ≤ 60 := min_le_right _ _
          simp only [reconnectDelay, timedelta]
          lia
        show _ + _ ≤ _ + _
        lia
    | _ => trivial

theorem LeavesTo.eq_connecting {place : Place} (hnext : LeavesTo s false place)
    (hshutdown : s.shutdown = false) : place = .connecting := by
  cases hnext with
  | returned hset =>
      rw [hshutdown] at hset
      cases hset
  | again _ => rfl

theorem AwaitsTo.eq_waiting {conn : ConnId} {place : Place} (hnext : AwaitsTo poll s conn place)
    (hshutdown : s.shutdown = false) : place = .waiting conn (s.clock + poll) := by
  cases hnext with
  | wait _ => rfl
  | cleanUp hset _ =>
      rw [hshutdown] at hset
      cases hset

/-- What a transition does that goes well and does not begin a batch. -/
structure Proceeds (poll : ℤ) (t : Transition State Action) : Prop where
  course : OnCourse t.target
  steps : t.target.place.stepsLeft + (if isResume t then 1 else 0) ≤ t.source.place.stepsLeft
  /-- The time of the next batch is not put off. -/
  batch : isPunctual t = true → t.target.place.batchBy poll t.target.clock ≤
    t.source.place.batchBy poll t.source.clock

theorem CleansTo.proceeds {conn? : Option ConnId} {place : Place}
    (hnext : CleansTo s conn? false place) (hcourse : OnCourse s)
    (hsteps : s.place.stepsLeft = 6)
    (hbatch : s.clock + max 0 poll ≤ s.place.batchBy poll s.clock) :
    Proceeds poll ⟨s, .resume .returns, { s with place := place }⟩ := by
  cases hnext with
  | remove _ _ => exact ⟨⟨rfl, hcourse.shutdown, rfl⟩, hsteps.ge, fun _ => hbatch⟩
  | leave _ hnext =>
      rw [hnext.eq_connecting hcourse.shutdown]
      refine ⟨⟨rfl, hcourse.shutdown, rfl⟩, ?_, fun _ => hbatch⟩
      show 3 + 1 ≤ s.place.stepsLeft
      lia

theorem LeavesTo.proceeds {before : State} {place : Place} (hnext : LeavesTo before false place)
    (hshutdown : before.shutdown = false) (hclock : before.clock = s.clock)
    (hsteps : s.place.stepsLeft = 4)
    (hbatch : s.place.batchBy poll s.clock = s.clock + max 0 poll) :
    Proceeds poll ⟨s, .resume .returns, { before with place := place }⟩ := by
  rw [hnext.eq_connecting hshutdown]
  refine ⟨⟨rfl, hshutdown, rfl⟩, hsteps.ge, fun _ => ?_⟩
  rw [hbatch, ← hclock]
  exact le_rfl

theorem AwaitsTo.proceeds {before : State} {conn : ConnId} {place : Place}
    (hnext : AwaitsTo poll before conn place) (hshutdown : before.shutdown = false)
    (hclock : before.clock = s.clock) (hsteps : s.place.stepsLeft = 2)
    (hbatch : s.place.batchBy poll s.clock = s.clock + max 0 poll) :
    Proceeds poll ⟨s, .resume .returns, { before with place := place }⟩ := by
  rw [hnext.eq_waiting hshutdown]
  refine ⟨⟨rfl, hshutdown, rfl⟩, hsteps.ge, fun _ => ?_⟩
  rw [hbatch, ← hclock]
  show max before.clock (before.clock + poll) ≤ before.clock + max 0 poll
  lia

/-- The step lemma. -/
theorem proceeds_of_step (hcourse : OnCourse s) (hstep : step poll s a = some s')
    (hwell : goesWell ⟨s, a, s'⟩ = true) :
    beginsBatch ⟨s, a, s'⟩ = true ∨ Proceeds poll ⟨s, a, s'⟩ := by
  have hkept : s.place.isCancelled = false := hcourse.kept
  cases step_effect hstep with
  | stop => cases hwell
  | start _ => cases hwell
  | cancel hcause _ _ _ | cancelCleanUp hcause _ => cases hcause <;> cases hwell
  | tick elapsed =>
      refine Or.inr ⟨⟨hcourse.live, hcourse.shutdown, hcourse.kept⟩, le_rfl, fun hpunctual => ?_⟩
      simp only [isPunctual] at hpunctual
      show s.place.batchBy poll (s.clock + elapsed) ≤ s.place.batchBy poll s.clock
      cases hplace : s.place with
      | waiting _ _ | sleeping _ _ =>
          simp only [hplace, decide_eq_true_eq] at hpunctual
          simp only [Place.batchBy]
          lia
      | _ =>
          simp only [hplace] at hpunctual
          cases hpunctual
  | lose _ =>
      exact Or.inr ⟨⟨hcourse.live, hcourse.shutdown, hcourse.kept⟩, le_rfl, fun _ => le_rfl⟩
  | begin hplace hnext =>
      exact Or.inr (hnext.proceeds hcourse.shutdown rfl (by rw [hplace]; rfl) (by rw [hplace]; rfl))
  | connect hplace =>
      refine Or.inr ⟨⟨rfl, hcourse.shutdown, rfl⟩, ?_, fun _ => ?_⟩
      · simp only [hplace]
        exact le_rfl
      · simp only [hplace]
        exact le_rfl
  | listen hplace hnext =>
      exact Or.inr (hnext.proceeds hcourse.shutdown rfl (by rw [hplace]; rfl) (by rw [hplace]; rfl))
  | process hplace hnext =>
      exact Or.inr (hnext.proceeds hcourse.shutdown rfl (by rw [hplace]; rfl) (by rw [hplace]; rfl))
  | timeout hplace _ =>
      refine Or.inr ⟨⟨rfl, hcourse.shutdown, rfl⟩, ?_, fun _ => ?_⟩
      · simp only [hplace]
        exact le_rfl
      · simp only [hplace]
        exact le_max_left _ _
  | check hplace =>
      exact Or.inl (by simp [beginsBatch, hplace, Place.isChecking, Place.isProcessing])
  | fail hplace =>
      simp only [goesWell] at hwell
      cases hsource : s.place with
      | connecting | listening _ | processing _ =>
          simp only [hsource] at hwell
          cases hwell
      | _ =>
          rw [hsource] at hplace
          cases hplace
  | cleanUp hcause hnext =>
      cases hcause with
      | shutdown _ hset =>
          rw [hcourse.shutdown] at hset
          cases hset
      | heartbeat hplace => simp [goesWell, hplace] at hwell
      | slept hplace _ =>
          refine Or.inr (hnext.proceeds hcourse (by rw [hplace]; rfl) ?_)
          rw [hplace]
          simp only [Place.batchBy]
          lia
  | @remove _ _ outcome hplace =>
      refine Or.inr ⟨⟨rfl, hcourse.shutdown, by rwa [hplace] at hkept⟩, ?_, fun _ => ?_⟩
      · simp only [hplace]
        exact le_rfl
      · simp only [hplace]
        exact le_rfl
  | close hplace hnext =>
      rw [hplace] at hkept
      cases hkept
      exact Or.inr (hnext.proceeds hcourse.shutdown rfl (by rw [hplace]; rfl) (by rw [hplace]; rfl))
  | raise hplace => simp [goesWell, hplace] at hwell

theorem OnCourse.step (hcourse : OnCourse s) (hstep : step poll s a = some s')
    (hwell : goesWell ⟨s, a, s'⟩ = true) : OnCourse s' := by
  rcases proceeds_of_step hcourse hstep hwell with hbegins | hproceeds
  · rw [beginsBatch, Bool.and_eq_true] at hbegins
    have hshutdown : s'.shutdown = s.shutdown := by
      cases step_effect hstep with
      | stop => cases hwell
      | start _ => cases hwell
      | _ => rfl
    have hplace : s'.place.isLive = true ∧ s'.place.isCancelled = false := by
      cases hplace : s'.place with
      | processing _ => exact ⟨rfl, rfl⟩
      | _ =>
          rw [hplace] at hbegins
          cases hbegins.2
    exact ⟨hplace.1, hshutdown.trans hcourse.shutdown, hplace.2⟩
  · exact hproceeds.course

theorem OnCourse.of_startingIn {late : History State Action} (hcourse : OnCourse s)
    (hlate : ((loop poll).startingIn s).Run late s') (hwell : ∀ t ∈ late, goesWell t = true) :
    OnCourse s' := by
  induction hlate with
  | start hinit =>
      cases hinit
      exact hcourse
  | extend _ hstep ih =>
      have hbefore := ih fun t hmem => hwell t (List.mem_cons_of_mem _ hmem)
      exact hbefore.step hstep (hwell _ List.mem_cons_self)

/-- The await at which the worker stands can end when its deadline has come. -/
theorem exists_resume (hlive : s.place.isLive = true) (hshortly : WaitsShortly poll s)
    {elapsed : ℕ} (hlong : max poll (timedelta 60) ≤ elapsed) :
    ∃ outcome next, step poll { s with clock := s.clock + elapsed } (.resume outcome) = some next ∧
      goesWell ⟨{ s with clock := s.clock + elapsed }, .resume outcome, next⟩ = true := by
  unfold WaitsShortly at hshortly
  simp only [step]
  cases hplace : s.place with
  | waiting _ deadline =>
      have hdue : deadline ≤ s.clock + elapsed := by
        simp only [hplace] at hshortly
        lia
      exact ⟨.raises, _, if_pos hdue, by simp [goesWell]⟩
  | sleeping _ deadline =>
      have hdue : deadline ≤ s.clock + elapsed := by
        simp only [hplace] at hshortly
        lia
      exact ⟨.returns, _, if_pos hdue, rfl⟩
  | idle | ended _ =>
      rw [hplace] at hlive
      cases hlive
  | _ => exact ⟨.returns, _, rfl, rfl⟩

theorem Place.stepsLeft_le (place : Place) : place.stepsLeft ≤ 6 := by
  cases place <;> simp only [stepsLeft] <;> decide

theorem clock_le_batchBy (place : Place) (clock : Time) : clock ≤ place.batchBy poll clock := by
  cases place with
  | checking _ => exact le_rfl
  | waiting _ _ => exact le_max_left _ _
  | _ =>
      simp only [Place.batchBy]
      lia

theorem WaitsShortly.batchBy_le (hshortly : WaitsShortly poll s) :
    s.place.batchBy poll s.clock ≤ s.clock + timedelta 60 + max 0 poll := by
  have hminute : 0 ≤ timedelta 60 := by decide
  unfold WaitsShortly at hshortly
  cases hplace : s.place with
  | waiting _ _ | sleeping _ _ =>
      simp only [hplace] at hshortly
      simp only [Place.batchBy]
      lia
  | _ =>
      simp only [Place.batchBy]
      lia

/-- **An outage is overcome.** However badly the connections have fared, a worker that has not
been told to stop, and is not about to end for a `CancelledError`, begins a batch within seven
awaits once nothing fails any more, and no later than a minute and a poll from now if nothing
else takes time. Until then and ever after, the await at which it stands can end within a poll or
a minute. -/
theorem recovers_of_run {early late : History State Action} (hrun : (loop poll).Run early s)
    (hlive : s.place.isLive = true) (hshutdown : s.shutdown = false)
    (hkept : s.place.isCancelled = false)
    (hlate : ((loop poll).startingIn s).Run late s') (hwell : ∀ t ∈ late, goesWell t = true) :
    (6 < late.countP isResume → ∃ t ∈ late, beginsBatch t = true) ∧
      ((∀ t ∈ late, isPunctual t = true) → (∀ t ∈ late, ¬ beginsBatch t = true) →
        s'.clock ≤ s.clock + timedelta 60 + max 0 poll) ∧
      ∀ elapsed : ℕ, max poll (timedelta 60) ≤ elapsed → ∃ outcome next,
        step poll { s' with clock := s'.clock + elapsed } (.resume outcome) = some next ∧
          goesWell ⟨{ s' with clock := s'.clock + elapsed }, .resume outcome, next⟩ = true := by
  have hcourse : OnCourse s := ⟨hlive, hshutdown, hkept⟩
  have hsteps : (loop poll).Approaches (beginsBatch · = true) (goesWell · = true) isResume OnCourse
      fun s => s.place.stepsLeft :=
    fun _ _ _ hcourse hstep hwell =>
      (proceeds_of_step hcourse hstep hwell).imp_right fun h => ⟨h.course, h.steps⟩
  have hbatch : (loop poll).Approaches (beginsBatch · = true)
      (fun t => goesWell t = true ∧ isPunctual t = true) (fun _ => false)
      (fun now => OnCourse now ∧ now.place.batchBy poll now.clock ≤ s.place.batchBy poll s.clock)
      fun _ => 0 :=
    fun _ _ _ hstart hstep hok => (proceeds_of_step hstart.1 hstep hok.1).imp_right fun h =>
      ⟨⟨h.course, (h.batch hok.2).trans hstart.2⟩, le_rfl⟩
  refine ⟨fun hlong => ?_, fun hpunctual hnone => ?_, fun elapsed hlong => ?_⟩
  · exact hsteps.exists_goal hcourse hlate hwell (s.place.stepsLeft_le.trans_lt hlong)
  · obtain ⟨⟨-, hdue⟩, -⟩ := hbatch.of_run ⟨hcourse, le_rfl⟩ hlate
      (fun t hmem => ⟨hwell t hmem, hpunctual t hmem⟩) hnone
    calc s'.clock ≤ s'.place.batchBy poll s'.clock := clock_le_batchBy _ _
      _ ≤ s.place.batchBy poll s.clock := hdue
      _ ≤ s.clock + timedelta 60 + max 0 poll := (waitsShortly_of_run hrun).batchBy_le
  · have hafter := hcourse.of_startingIn hlate hwell
    exact exists_resume hafter.live (waitsShortly_of_run (hrun.append hlate)) hlong

/-- The state after a connection that failed. -/
def afterFailure : State where
  clock := 0
  shutdown := false
  cancelling := false
  attempts := 1
  made := 0
  alive := []
  place := .sleeping none 2000000

/-- The loop sleeps, connects, listens, waits for its poll, and begins a batch. -/
def recoveryActions : List Action :=
  [.tick 2000000, .resume .returns, .resume .returns, .resume .returns, .tick 5000000,
    .resume .raises, .resume .returns, .resume .returns, .tick 5000000, .resume .raises]

/-- The batch begins seven seconds after the failure. -/
theorem failed_connection_recovers :
    ∃ late s', ((loop 5000000).startingIn afterFailure).Run late s' ∧
      ∃ t ∈ late, beginsBatch t = true := by
  obtain ⟨early, s, hrun, hs⟩ := System.exists_run_of_play (newWorker_init 5000000)
    (connectActions.take 3) (fun p => decide (p.2 = afterFailure)) (by decide)
  rw [decide_eq_true_eq] at hs
  cases hs
  obtain ⟨late, s', hlate, hP⟩ := System.exists_run_of_play
    (M := (loop 5000000).startingIn afterFailure) rfl recoveryActions
    (fun p => decide (6 < p.1.countP isResume ∧ ∀ t ∈ p.1, goesWell t = true)) (by decide)
  obtain ⟨hlong, hwell⟩ := of_decide_eq_true hP
  exact ⟨late, s', hlate, (recovers_of_run hrun rfl rfl rfl hlate hwell).1 hlong⟩

end Apsis.Core.Events.Connection
