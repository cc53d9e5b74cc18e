/-
# Exclusive and final dispatch

The lock of a row ties everything together. A worker that has an event in its
hands holds the lock of its row, and the committed row is pending and is the one
the worker read. From that it follows that no two workers have one event, that a
final row is never touched again, and that every commit continues from the row
that the commit before it left.
-/

import Apsis.Core.Events.Worker

namespace Apsis.Core.Events

open Apsis.Library

universe u

variable {W : Type u}

/-! ## Locks -/

/-- What a worker with an open transaction knows of its row. -/
structure Holds (s : State W) (worker : W) (event : OutboxEvent) : Prop where
  lock : s.locks event.id = some worker
  row : s.events.find? event.id = some event
  pending : event.status = .pending
  due : event.scheduledAt ≤ s.clock

/-- Every worker with an event holds it, every lock belongs to a worker with that
event, and an attempt about to be committed is one of its event. -/
structure LocksHeld (s : State W) : Prop where
  held : ∀ worker event, (s.phase worker).event? = some event → Holds s worker event
  owned : ∀ id worker, s.locks id = some worker →
    ∃ event, (s.phase worker).event? = some event ∧ event.id = id
  handled : ∀ worker before after, (s.phase worker).commit? = some (before, after) →
    ∃ attempt, handleEvent before attempt = .ok after
  reading : ∀ worker now, (s.phase worker).reading? = some now → now ≤ s.clock

/-- A row that is about to be committed is the row that the worker has locked. -/
theorem Phase.event?_of_commit? {phase : Phase} {before after : OutboxEvent}
    (h : phase.commit? = some (before, after)) : phase.event? = some before := by
  cases phase with
  | flushed rounds b a =>
      cases h
      rfl
  | _ => cases h

/-- A step of one worker keeps `LocksHeld` when it leaves what the others hold
alone and the worker holds what it goes on with. -/
theorem LocksHeld.of_worker {s s' : State W} {worker : W} (hinv : LocksHeld s)
    (hclock : s.clock ≤ s'.clock)
    (hphase : ∀ other, other ≠ worker → s'.phase other = s.phase other)
    (hothers : ∀ other event, other ≠ worker → Holds s other event →
      s'.locks event.id = some other ∧ s'.events.find? event.id = some event)
    (hheld : ∀ event, (s'.phase worker).event? = some event → Holds s' worker event)
    (howned : ∀ id holder, s'.locks id = some holder → holder ≠ worker ∧ s.locks id = some holder ∨
      holder = worker ∧ ∃ event, (s'.phase worker).event? = some event ∧ event.id = id)
    (hhandled : ∀ before after, (s'.phase worker).commit? = some (before, after) →
      ∃ attempt, handleEvent before attempt = .ok after)
    (hreading : ∀ now, (s'.phase worker).reading? = some now → now ≤ s'.clock) :
    LocksHeld s' where
  held other event hevent := by
    by_cases hsame : other = worker
    · subst hsame
      exact hheld event hevent
    · rw [hphase other hsame] at hevent
      have hbefore := hinv.held other event hevent
      obtain ⟨hlock, hrow⟩ := hothers other event hsame hbefore
      exact ⟨hlock, hrow, hbefore.pending, hbefore.due.trans hclock⟩
  owned id holder hlock := by
    rcases howned id holder hlock with ⟨hne, hbefore⟩ | ⟨rfl, hevent⟩
    · rw [hphase holder hne]
      exact hinv.owned id holder hbefore
    · exact hevent
  handled other before after hcommit := by
    by_cases hsame : other = worker
    · subst hsame
      exact hhandled before after hcommit
    · rw [hphase other hsame] at hcommit
      exact hinv.handled other before after hcommit
  reading other now hnow := by
    by_cases hsame : other = worker
    · subst hsame
      exact hreading now hnow
    · rw [hphase other hsame] at hnow
      exact (hinv.reading other now hnow).trans hclock

/-- It keeps `LocksHeld` as well when the worker ends up without an event and without a lock. -/
theorem LocksHeld.of_free_worker {s s' : State W} {worker : W} (hinv : LocksHeld s)
    (hclock : s.clock ≤ s'.clock)
    (hphase : ∀ other, other ≠ worker → s'.phase other = s.phase other)
    (hothers : ∀ other event, other ≠ worker → Holds s other event →
      s'.locks event.id = some other ∧ s'.events.find? event.id = some event)
    (hfree : (s'.phase worker).event? = none)
    (howned : ∀ id holder, s'.locks id = some holder → holder ≠ worker ∧ s.locks id = some holder)
    (hreading : ∀ now, (s'.phase worker).reading? = some now → now ≤ s'.clock) :
    LocksHeld s' := by
  apply hinv.of_worker hclock hphase hothers
  · intro event hevent
    rw [hfree] at hevent
    cases hevent
  · exact fun id holder hlock => Or.inl (howned id holder hlock)
  · -- A commit would be one of an event.
    intro before after hcommit
    rw [Phase.event?_of_commit? hcommit] at hfree
    cases hfree
  · exact hreading

/-- Two workers hold different rows. -/
theorem Holds.id_ne {s : State W} {first second : W} {event event' : OutboxEvent}
    (hfirst : Holds s first event) (hsecond : Holds s second event') (hne : first ≠ second) :
    event.id ≠ event'.id := by
  intro hid
  have hlock := hfirst.lock
  rw [hid, hsecond.lock] at hlock
  exact hne (Option.some.inj hlock).symm

variable [DecidableEq W]

/-- The step lemma. -/
theorem locksHeld_step {s s' : State W} {a : Action W} (hinv : LocksHeld s)
    (hstep : step s a = some s') : LocksHeld s' := by
  cases step_effect hstep with
  | tick elapsed =>
      have hclock : s.clock ≤ s.clock + elapsed := by simp
      exact
        { held worker event hevent :=
            { hinv.held worker event hevent with
              due := (hinv.held worker event hevent).due.trans hclock }
          owned := hinv.owned
          handled := hinv.handled
          reading worker now hnow := (hinv.reading worker now hnow).trans hclock }
  | publish hnow hinsert =>
      refine { hinv with held := fun worker event hevent => ?_ }
      have hholds := hinv.held worker event hevent
      refine { hholds with row := ?_ }
      -- The inserted row has a fresh key, so it is not this one.
      show Table.find? _ event.id = some event
      rw [Table.find?_of_insert? hinsert, if_neg, hholds.row]
      intro hid
      have hfresh := (Table.insert?_eq_some hinsert).1
      rw [hid, hholds.row] at hfresh
      cases hfresh
  | @move _ worker phase hfree hnext hreading _ _ =>
      apply LocksHeld.of_free_worker hinv
      · exact le_rfl
      · exact fun other hne => State.enter_phase_of_ne s worker phase hne
      · exact fun other event _ hholds => ⟨hholds.lock, hholds.row⟩
      · rw [State.enter_phase_self, hnext]
      · intro id holder hlock
        refine ⟨?_, hlock⟩
        rintro rfl
        obtain ⟨event, hevent, -⟩ := hinv.owned id holder hlock
        rw [hfree] at hevent
        cases hevent
      · intro now hnow
        rw [State.enter_phase_self] at hnow
        rcases hreading now hnow with rfl | hbefore
        · exact le_rfl
        · exact hinv.reading worker now hbefore
  | @rollback _ worker phase hnext hreading _ _ =>
      apply LocksHeld.of_free_worker hinv
      · exact le_rfl
      · exact fun other hne => State.enter_phase_of_ne _ worker phase hne
      · intro other event hne hholds
        refine ⟨?_, hholds.row⟩
        rw [State.enter_locks, State.release_locks_eq_some]
        exact ⟨hholds.lock, hne⟩
      · rw [State.enter_phase_self, hnext]
      · intro id holder hlock
        rw [State.enter_locks, State.release_locks_eq_some] at hlock
        exact hlock.symm
      · intro now hnow
        rw [State.enter_phase_self, hreading] at hnow
        cases hnow
  | @lock worker rounds now id candidates event hphase hlock =>
      obtain ⟨hfree, hrow, hpending, hdue⟩ := State.lockable_eq_some.mp hlock
      have hid : event.id = id := Table.key_of_find? hrow
      have hnow : now ≤ s.clock := by
        apply hinv.reading worker
        rw [hphase]
        rfl
      apply LocksHeld.of_worker hinv
      · exact le_rfl
      · exact fun other hne => State.enter_phase_of_ne _ worker _ hne
      · intro other event' _ hholds
        refine ⟨?_, hholds.row⟩
        have hne : event'.id ≠ id := by
          rintro rfl
          rw [hholds.lock] at hfree
          cases hfree
        rw [State.enter_locks, State.lock_locks_of_ne s worker id hne, hholds.lock]
      · intro event' hevent
        rw [State.enter_phase_self] at hevent
        cases hevent
        refine ⟨?_, ?_, hpending, hdue.trans hnow⟩
        · rw [hid]
          exact State.lock_locks_self s worker id
        · rw [hid]
          exact hrow
      · intro id' holder hholder
        rw [State.enter_locks] at hholder
        by_cases hsame : id' = id
        · subst hsame
          rw [State.lock_locks_self] at hholder
          cases hholder
          exact Or.inr ⟨rfl, event, by rw [State.enter_phase_self]; rfl, hid⟩
        · rw [State.lock_locks_of_ne s worker id hsame] at hholder
          refine Or.inl ⟨?_, hholder⟩
          rintro rfl
          obtain ⟨event', hevent, -⟩ := hinv.owned id' holder hholder
          rw [hphase] at hevent
          cases hevent
      · intro before after hcommit
        rw [State.enter_phase_self] at hcommit
        cases hcommit
      · intro now' hnow'
        rw [State.enter_phase_self] at hnow'
        cases hnow'
  | @flush worker rounds event after attempt hphase _ hhandle =>
      apply LocksHeld.of_worker hinv
      · exact le_rfl
      · exact fun other hne => State.enter_phase_of_ne s worker _ hne
      · exact fun other event _ hholds => ⟨hholds.lock, hholds.row⟩
      · intro event' hevent
        rw [State.enter_phase_self] at hevent
        cases hevent
        exact { hinv.held worker event (by rw [hphase]; rfl) with }
      · intro id holder hlock
        by_cases hsame : holder = worker
        · subst hsame
          obtain ⟨event', hevent, hid⟩ := hinv.owned id holder hlock
          rw [hphase] at hevent
          cases hevent
          exact Or.inr ⟨rfl, event, by rw [State.enter_phase_self]; rfl, hid⟩
        · exact Or.inl ⟨hsame, hlock⟩
      · intro before after' hcommit
        rw [State.enter_phase_self] at hcommit
        cases hcommit
        exact ⟨attempt, hhandle⟩
      · intro now hnow
        rw [State.enter_phase_self] at hnow
        cases hnow
  | @commit worker rounds before after hphase =>
      have hown : Holds s worker before := hinv.held worker before (by rw [hphase]; rfl)
      obtain ⟨attempt, hhandle⟩ := hinv.handled worker before after (by rw [hphase]; rfl)
      have hid : after.id = before.id := (handleEvent_eq_ok.mp hhandle).id_eq
      apply LocksHeld.of_free_worker hinv
      · exact le_rfl
      · exact fun other hne => State.enter_phase_of_ne _ worker _ hne
      · intro other event hne hholds
        constructor
        · rw [State.enter_locks, State.release_locks_eq_some]
          exact ⟨hholds.lock, hne⟩
        · show (commitEvent after s.events).find? event.id = some event
          rw [find?_commitEvent, if_neg, hholds.row]
          rw [hid]
          exact hholds.id_ne hown hne
      · rw [State.enter_phase_self]
        rfl
      · intro id holder hlock
        rw [State.enter_locks, State.release_locks_eq_some] at hlock
        exact hlock.symm
      · intro now hnow
        rw [State.enter_phase_self] at hnow
        cases hnow

omit [DecidableEq W] in
/-- Before the workers start, nobody holds anything. -/
theorem locksHeld_of_stopped {s : State W} (hfree : ∀ id, s.locks id = none)
    (hstopped : ∀ worker, s.phase worker = .stopped) : LocksHeld s := by
  constructor
  · intro worker event hevent
    rw [hstopped worker] at hevent
    cases hevent
  · intro id worker hlock
    rw [hfree id] at hlock
    cases hlock
  · intro worker before after hcommit
    rw [hstopped worker] at hcommit
    cases hcommit
  · intro worker now hnow
    rw [hstopped worker] at hnow
    cases hnow

/-- Along every run, every worker with an event holds it. -/
theorem locksHeld_of_run {h : History (State W) (Action W)} {s : State W}
    (hrun : (outbox (W := W)).Run h s) : LocksHeld s := by
  refine hrun.invariant_of_step (I := fun _ s => LocksHeld s) ?_
    fun _ _ _ _ _ hinv hstep => locksHeld_step hinv hstep
  rintro s ⟨-, hfree, hstopped⟩
  exact locksHeld_of_stopped hfree hstopped

/-! ## The attempts of a row -/

omit [DecidableEq W] in
/-- The event that a transition publishes. -/
def publishedBy (t : Transition (State W) (Action W)) : Option OutboxEvent :=
  match t.action with
  | .publish id maxRetries now eventType payload aggregateId =>
      some (publish id maxRetries now eventType payload aggregateId)
  | _ => none

omit [DecidableEq W] in
/-- A published event is fresh. -/
theorem publishedBy_fresh {t : Transition (State W) (Action W)} {event : OutboxEvent}
    (h : publishedBy t = some event) : event.retryCount = 0 ∧ event.handlerState = ∅ := by
  unfold publishedBy at h
  split at h
  · cases h
    exact ⟨rfl, rfl⟩
  · cases h

/-- A row was there before the step, or it has just been published, or a worker has
committed an attempt of it. -/
theorem row_of_step {s s' : State W} {a : Action W} (hlocks : LocksHeld s)
    (hstep : step s a = some s') {row : OutboxEvent} (hmem : row ∈ s'.events.rows) :
    row ∈ s.events.rows ∨ publishedBy ⟨s, a, s'⟩ = some row ∨
      ∃ worker before, before ∈ s.events.rows ∧
        (s.phase worker).commit? = some (before, row) := by
  cases step_effect hstep with
  | publish _ hinsert =>
      rw [(Table.insert?_eq_some hinsert).2, List.mem_append, List.mem_singleton] at hmem
      refine hmem.imp_right fun hrow => Or.inl ?_
      rw [hrow]
      rfl
  | @commit worker rounds before after hphase =>
      have hholds := hlocks.held worker before (by rw [hphase]; rfl)
      have hfind : (commitEvent after s.events).find? row.id = some row := Table.find?_key hmem
      rw [find?_commitEvent] at hfind
      split at hfind
      · obtain ⟨-, -, rfl⟩ := Option.map_eq_some_iff.mp hfind
        refine Or.inr (Or.inr ⟨worker, before, ?_, by rw [hphase]; rfl⟩)
        exact (s.events.find?_eq_some_iff.mp hholds.row).1
      · exact Or.inl (s.events.find?_eq_some_iff.mp hfind).1
  | _ => exact Or.inl hmem

/-- A row stays as it is, or a worker commits an attempt of it. -/
theorem find?_of_step {s s' : State W} {a : Action W} (hlocks : LocksHeld s)
    (hstep : step s a = some s') {id : Uuid} {row : OutboxEvent}
    (hfind : s.events.find? id = some row) :
    s'.events.find? id = some row ∨ ∃ worker after,
      (s.phase worker).commit? = some (row, after) ∧ s'.events.find? id = some after := by
  cases step_effect hstep with
  | publish _ hinsert =>
      left
      show Table.find? _ id = some row
      rw [Table.find?_of_insert? hinsert, if_neg, hfind]
      rintro rfl
      rw [(Table.insert?_eq_some hinsert).1] at hfind
      cases hfind
  | @commit worker rounds before after hphase =>
      have hholds := hlocks.held worker before (by rw [hphase]; rfl)
      obtain ⟨attempt, hhandle⟩ := hlocks.handled worker before after (by rw [hphase]; rfl)
      have hid : after.id = before.id := (handleEvent_eq_ok.mp hhandle).id_eq
      have hupdated := find?_commitEvent after s.events id
      split at hupdated
      · next hsame =>
          have hrow := hholds.row
          rw [← hid, ← hsame, hfind] at hrow
          cases hrow
          rw [hfind] at hupdated
          exact Or.inr ⟨worker, after, by rw [hphase]; rfl, hupdated⟩
      · exact Or.inl (hupdated.trans hfind)
  | _ => exact Or.inl hfind

/-- A worker keeps the event that it has dispatched until an attempt ends, or until it
crashes or gives up. -/
theorem dispatching_of_step {s s' : State W} {a : Action W} (hstep : step s a = some s')
    {worker : W} {rounds : ℕ} {event : OutboxEvent}
    (hphase : s.phase worker = .dispatching rounds event) :
    s'.phase worker = .dispatching rounds event ∨ a = .crash worker ∨ a = .abort worker ∨
      ∃ attempt, a = .run worker (.attempt attempt) := by
  have hother : ∀ (before : State W) actor phase, before.phase = s.phase → worker ≠ actor →
      (before.enter actor phase).phase worker = .dispatching rounds event := by
    intro before actor phase hsame hne
    rw [State.enter_phase_of_ne before actor phase hne, hsame, hphase]
  cases step_effect hstep with
  | tick _ => exact Or.inl hphase
  | publish _ _ => exact Or.inl hphase
  | @move _ actor phase hfree _ _ _ _ =>
      refine Or.inl (hother s actor phase rfl ?_)
      rintro rfl
      rw [hphase] at hfree
      cases hfree
  | @rollback _ actor phase _ _ _ hcause =>
      by_cases hsame : worker = actor
      · subst hsame
        rcases hcause with hcrash | habort | ⟨_, _, attempt, hattempt, -⟩
        · exact Or.inr (Or.inl hcrash)
        · exact Or.inr (Or.inr (Or.inl habort))
        · exact Or.inr (Or.inr (Or.inr ⟨attempt, hattempt⟩))
      · exact Or.inl (hother (s.release actor) actor phase rfl hsame)
  | @lock actor _ _ id _ event' hphase' _ =>
      refine Or.inl (hother (s.lock actor id) actor _ rfl ?_)
      rintro rfl
      rw [hphase] at hphase'
      cases hphase'
  | @flush actor _ _ _ attempt _ _ _ =>
      by_cases hsame : worker = actor
      · subst hsame
        exact Or.inr (Or.inr (Or.inr ⟨attempt, rfl⟩))
      · exact Or.inl (hother s actor _ rfl hsame)
  | @commit actor _ _ after hphase' =>
      refine Or.inl (hother _ actor _ rfl ?_)
      rintro rfl
      rw [hphase] at hphase'
      cases hphase'

/-- An attempt that is about to be committed was so before the step, or it has just
ended. -/
theorem commit?_of_step {s s' : State W} {a : Action W} (hstep : step s a = some s')
    {worker : W} {before after : OutboxEvent}
    (hcommit : (s'.phase worker).commit? = some (before, after)) :
    (s.phase worker).commit? = some (before, after) ∨ ∃ rounds attempt,
      a = .run worker (.attempt attempt) ∧ s.phase worker = .dispatching rounds before ∧
        handleEvent before attempt = .ok after := by
  have hentered : ∀ {source : State W} {actor : W} {phase : Phase}, source.phase = s.phase →
      phase.commit? = none →
        ((source.enter actor phase).phase worker).commit? = some (before, after) →
          (s.phase worker).commit? = some (before, after) := by
    intro source actor phase hsame hnone htarget
    rcases State.enter_phase_eq_some source actor phase htarget with hkept | ⟨-, hnew⟩
    · rwa [hsame] at hkept
    · cases hnone.symm.trans hnew
  have hfree : ∀ {phase : Phase}, phase.event? = none → phase.commit? = none := by
    intro phase hnone
    cases phase with
    | flushed _ _ _ => cases hnone
    | _ => rfl
  cases step_effect hstep with
  | tick _ => exact Or.inl hcommit
  | publish _ _ => exact Or.inl hcommit
  | move _ hnext _ _ _ => exact Or.inl (hentered rfl (hfree hnext) hcommit)
  | rollback hnext _ _ _ => exact Or.inl (hentered rfl (hfree hnext) hcommit)
  | lock _ _ => exact Or.inl (hentered rfl rfl hcommit)
  | @flush actor rounds event _ attempt hphase _ hhandle =>
      rcases State.enter_phase_eq_some s actor _ hcommit with hkept | ⟨hsame, hnew⟩
      · exact Or.inl hkept
      · cases hnew
        exact Or.inr ⟨rounds, attempt, by rw [hsame], by rw [hsame, hphase], hhandle⟩
  | commit _ => exact Or.inl (hentered rfl rfl hcommit)

omit [DecidableEq W] in
/-- The attempt that a transition commits: the row before and after it. -/
def commitBy (t : Transition (State W) (Action W)) : Option (OutboxEvent × OutboxEvent) :=
  t.source.commit? t.action

omit [DecidableEq W] in
/-- The committed attempts of a row, the latest first. -/
def commitsOf (h : History (State W) (Action W)) (id : Uuid) :
    List (OutboxEvent × OutboxEvent) :=
  (h.filterMap commitBy).filter fun c => decide (c.1.id = id)

/-- Attempts of one event, the latest first, each of which began on the row that
the one before it left. -/
inductive AttemptChain (first : OutboxEvent) :
    List (OutboxEvent × OutboxEvent) → OutboxEvent → Prop
  | nil : AttemptChain first [] first
  | cons {commits : List (OutboxEvent × OutboxEvent)} {before after : OutboxEvent}
      (prior : AttemptChain first commits before) (attempt : Attempt)
      (hpending : before.status = .pending) (hhandle : handleEvent before attempt = .ok after) :
      AttemptChain first ((before, after) :: commits) after

/-- The counter is the number of attempts that did not process the event. -/
theorem AttemptChain.retryCount_eq {first last : OutboxEvent}
    {commits : List (OutboxEvent × OutboxEvent)} (hchain : AttemptChain first commits last) :
    last.retryCount = first.retryCount +
      commits.countP fun c => decide (c.2.status ≠ .processed) := by
  induction hchain with
  | nil => simp
  | cons _ attempt hpending hhandle ih =>
      rw [List.countP_cons]
      cases handleEvent_eq_ok.mp hhandle with
      | processed _ _ => simp [ih]
      | failed _ _ _ => simp [ih, Nat.add_assoc]
      | retry _ _ _ _ _ => simp [ih, hpending, Nat.add_assoc]

omit [DecidableEq W] in
theorem commitsOf_cons_of_none {t : Transition (State W) (Action W)} (hnone : commitBy t = none)
    (h : History (State W) (Action W)) (id : Uuid) : commitsOf (t :: h) id = commitsOf h id := by
  simp [commitsOf, hnone]

omit [DecidableEq W] in
theorem commitsOf_cons_of_some {t : Transition (State W) (Action W)}
    {before after : OutboxEvent} (hsome : commitBy t = some (before, after))
    (h : History (State W) (Action W)) (id : Uuid) :
    commitsOf (t :: h) id =
      if before.id = id then (before, after) :: commitsOf h id else commitsOf h id := by
  by_cases hid : before.id = id <;> simp [commitsOf, hsome, hid]

omit [DecidableEq W] in
/-- Every row has gone through its committed attempts since it was published, and
there are no attempts without a row. -/
structure RowsChained (h : History (State W) (Action W)) (s : State W) : Prop where
  chain : ∀ id event, s.events.find? id = some event →
    ∃ first, (∃ t ∈ h, publishedBy t = some first) ∧ AttemptChain first (commitsOf h id) event
  absent : ∀ id, s.events.find? id = none → commitsOf h id = []

omit [DecidableEq W] in
/-- A step that leaves the rows alone and commits nothing keeps `RowsChained`. -/
theorem RowsChained.of_quiet {h : History (State W) (Action W)}
    {t : Transition (State W) (Action W)} (hinv : RowsChained h t.source)
    (hrows : t.target.events = t.source.events) (hnone : commitBy t = none) :
    RowsChained (t :: h) t.target where
  chain id event hfind := by
    rw [hrows] at hfind
    obtain ⟨first, ⟨t', hmem, hpublished⟩, hchain⟩ := hinv.chain id event hfind
    rw [commitsOf_cons_of_none hnone]
    exact ⟨first, ⟨t', List.mem_cons_of_mem t hmem, hpublished⟩, hchain⟩
  absent id hfind := by
    rw [hrows] at hfind
    rw [commitsOf_cons_of_none hnone, hinv.absent id hfind]

/-- The step lemma. -/
theorem rowsChained_step {h : History (State W) (Action W)} {s s' : State W} {a : Action W}
    (hlocks : LocksHeld s) (hinv : RowsChained h s) (hstep : step s a = some s') :
    RowsChained (⟨s, a, s'⟩ :: h) s' := by
  cases step_effect hstep with
  | tick elapsed => exact RowsChained.of_quiet (t := ⟨s, _, _⟩) hinv rfl rfl
  | @publish id maxRetries now eventType payload aggregateId events _ hinsert =>
      have hfresh : s.events.find? id = none := (Table.insert?_eq_some hinsert).1
      constructor
      · intro id' event hfind
        rw [commitsOf_cons_of_none rfl]
        change events.find? id' = some event at hfind
        rw [Table.find?_of_insert? hinsert] at hfind
        split at hfind
        · next hid =>
            cases hfind
            refine ⟨_, ⟨_, List.mem_cons_self, rfl⟩, ?_⟩
            rw [← hid]
            show AttemptChain _ (commitsOf h id) _
            rw [hinv.absent id hfresh]
            exact .nil
        · obtain ⟨first, ⟨t', hmem, hpublished⟩, hchain⟩ := hinv.chain id' event hfind
          exact ⟨first, ⟨t', List.mem_cons_of_mem _ hmem, hpublished⟩, hchain⟩
      · intro id' hfind
        rw [commitsOf_cons_of_none rfl]
        change events.find? id' = none at hfind
        rw [Table.find?_of_insert? hinsert] at hfind
        split at hfind
        · cases hfind
        · exact hinv.absent id' hfind
  | @move _ worker phase _ _ _ hcommit _ =>
      apply RowsChained.of_quiet (t := ⟨s, a, s.enter worker phase⟩) hinv
      · rfl
      · exact hcommit
  | @rollback _ worker phase _ _ hcommit _ =>
      apply RowsChained.of_quiet (t := ⟨s, a, (s.release worker).enter worker phase⟩) hinv
      · rfl
      · exact hcommit
  | @lock worker rounds now id candidates event hphase _ =>
      apply RowsChained.of_quiet
        (t := ⟨s, _, (s.lock worker id).enter worker (.dispatching rounds event)⟩) hinv
      · rfl
      · simp [commitBy, State.commit?, hphase, Phase.commit?]
  | @flush worker rounds event after attempt hphase _ _ =>
      apply RowsChained.of_quiet
        (t := ⟨s, _, s.enter worker (.flushed rounds event after)⟩) hinv
      · rfl
      · simp [commitBy, State.commit?, hphase, Phase.commit?]
  | @commit worker rounds before after hphase =>
      have hown : Holds s worker before := hlocks.held worker before (by rw [hphase]; rfl)
      obtain ⟨attempt, hhandle⟩ := hlocks.handled worker before after (by rw [hphase]; rfl)
      have hid : after.id = before.id := (handleEvent_eq_ok.mp hhandle).id_eq
      have hby : ∀ s', commitBy ⟨s, .run worker .proceed, s'⟩ = some (before, after) := by
        simp [commitBy, State.commit?, hphase, Phase.commit?]
      constructor
      · intro id event hfind
        change (commitEvent after s.events).find? id = some event at hfind
        rw [find?_commitEvent, hid] at hfind
        rw [commitsOf_cons_of_some (hby _)]
        by_cases hrow : id = before.id
        · subst hrow
          rw [if_pos rfl, hown.row] at hfind
          cases hfind
          obtain ⟨first, ⟨t', hmem, hpublished⟩, hchain⟩ := hinv.chain before.id before hown.row
          rw [if_pos rfl]
          exact ⟨first, ⟨t', List.mem_cons_of_mem _ hmem, hpublished⟩,
            hchain.cons attempt hown.pending hhandle⟩
        · rw [if_neg hrow] at hfind
          obtain ⟨first, ⟨t', hmem, hpublished⟩, hchain⟩ := hinv.chain id event hfind
          rw [if_neg (Ne.symm hrow)]
          exact ⟨first, ⟨t', List.mem_cons_of_mem _ hmem, hpublished⟩, hchain⟩
      · intro id hfind
        change (commitEvent after s.events).find? id = none at hfind
        rw [find?_commitEvent, hid] at hfind
        rw [commitsOf_cons_of_some (hby _)]
        by_cases hrow : id = before.id
        · subst hrow
          rw [if_pos rfl, hown.row] at hfind
          cases hfind
        · rw [if_neg hrow] at hfind
          rw [if_neg (Ne.symm hrow), hinv.absent id hfind]

/-- Along every run, every row has gone through its committed attempts. -/
theorem rowsChained_of_run {h : History (State W) (Action W)} {s : State W}
    (hrun : (outbox (W := W)).Run h s) : RowsChained h s := by
  refine hrun.invariant_of_step (I := RowsChained) ?_
    fun _ _ _ _ hprior hinv hstep => rowsChained_step (locksHeld_of_run hprior) hinv hstep
  intro s ⟨hempty, _, _⟩
  constructor
  · intro id event hfind
    rw [Table.find?_eq_some_iff, hempty] at hfind
    cases hfind.1
  · intro id _
    rfl

/-! ## Final rows and attempts that do not commit -/

/-- A step does not touch a row that is not pending. -/
theorem find?_of_not_pending {s s' : State W} {a : Action W} (hlocks : LocksHeld s)
    (hstep : step s a = some s') {event : OutboxEvent}
    (hfind : s.events.find? event.id = some event) (hfinal : event.status ≠ .pending) :
    s'.events.find? event.id = some event := by
  cases step_effect hstep with
  | publish _ hinsert =>
      show Table.find? _ event.id = some event
      rw [Table.find?_of_insert? hinsert, if_neg, hfind]
      intro hid
      have hfresh := (Table.insert?_eq_some hinsert).1
      rw [hid, hfind] at hfresh
      cases hfresh
  | @commit worker rounds before after hphase =>
      have hown : Holds s worker before := hlocks.held worker before (by rw [hphase]; rfl)
      obtain ⟨attempt, hhandle⟩ := hlocks.handled worker before after (by rw [hphase]; rfl)
      have hid : after.id = before.id := (handleEvent_eq_ok.mp hhandle).id_eq
      show (commitEvent after s.events).find? event.id = some event
      rw [find?_commitEvent, if_neg, hfind]
      -- The committed row is pending, and this one is not.
      rw [hid]
      intro hsame
      have hrow := hown.row
      rw [← hsame, hfind] at hrow
      cases hrow
      exact hfinal hown.pending
  | tick _ => exact hfind
  | move _ _ _ _ _ => exact hfind
  | rollback _ _ _ _ => exact hfind
  | lock _ _ => exact hfind
  | flush _ _ _ => exact hfind

/-- A step after which a worker no longer has its event, and which commits
nothing, leaves the row as it was and releases it. -/
theorem released_of_not_commit {s s' : State W} {a : Action W} (hlocks : LocksHeld s)
    (hstep : step s a = some s') {worker : W} {event : OutboxEvent}
    (hevent : (s.phase worker).event? = some event)
    (hends : (s'.phase worker).event? ≠ some event) (hnone : s.commit? a = none) :
    s'.events.find? event.id = some event ∧ event.status = .pending ∧
      event.scheduledAt ≤ s'.clock ∧ s'.locks event.id = none := by
  have hholds := hlocks.held worker event hevent
  cases step_effect hstep with
  | tick _ => exact absurd hevent hends
  | publish _ _ => exact absurd hevent hends
  | @move _ actor phase hfree _ _ _ _ =>
      have hne : worker ≠ actor := by
        rintro rfl
        rw [hfree] at hevent
        cases hevent
      rw [State.enter_phase_of_ne s actor phase hne] at hends
      exact absurd hevent hends
  | @rollback _ actor phase _ _ _ _ =>
      by_cases hne : worker = actor
      · subst hne
        refine ⟨hholds.row, hholds.pending, hholds.due, ?_⟩
        show (s.release worker).locks event.id = none
        simp [State.release, hholds.lock]
      · rw [State.enter_phase_of_ne _ actor phase hne] at hends
        exact absurd hevent hends
  | @lock actor rounds now id candidates row hphase _ =>
      have hne : worker ≠ actor := by
        rintro rfl
        rw [hphase] at hevent
        cases hevent
      rw [State.enter_phase_of_ne _ actor _ hne] at hends
      exact absurd hevent hends
  | @flush actor rounds row after attempt hphase _ _ =>
      by_cases hne : worker = actor
      · subst hne
        rw [State.enter_phase_self] at hends
        rw [hphase] at hevent
        exact absurd hevent hends
      · rw [State.enter_phase_of_ne _ actor _ hne] at hends
        exact absurd hevent hends
  | @commit actor rounds before after hphase =>
      simp [State.commit?, hphase, Phase.commit?] at hnone

/-! ## The guarantee -/

omit [DecidableEq W] in
/-- Exclusive and final dispatch, at the end of a history. -/
structure DispatchesExclusively (h : History (State W) (Action W)) (s : State W) : Prop where
  /-- No event is in the hands of two workers. -/
  exclusive : ∀ first second event event', (s.phase first).event? = some event →
    (s.phase second).event? = some event' → event.id = event'.id → first = second
  /-- A row that was ever committed as final is still there as it was, and no
  worker has its event. -/
  final : ∀ t ∈ h, ∀ event, t.target.events.find? event.id = some event →
    event.status ≠ .pending → s.events.find? event.id = some event ∧
      ∀ worker event', (s.phase worker).event? = some event' → event'.id ≠ event.id
  /-- Every row is the end of a chain of attempts from the row as published, and
  counts those that failed. -/
  chained : ∀ id event, s.events.find? id = some event →
    (∃ first, (∃ t ∈ h, publishedBy t = some first) ∧
      AttemptChain first (commitsOf h id) event) ∧
    event.retryCount = (commitsOf h id).countP fun c => decide (c.2.status ≠ .processed)
  /-- An attempt that ended without a commit left its row as it was, pending, due
  and free. -/
  uncommitted : ∀ t ∈ h, ∀ worker event, (t.source.phase worker).event? = some event →
    (t.target.phase worker).event? ≠ some event → commitBy t = none →
    t.target.events.find? event.id = some event ∧ event.status = .pending ∧
      event.scheduledAt ≤ t.target.clock ∧ t.target.locks event.id = none

/-- A final row stays final for the rest of the run. -/
theorem find?_of_final {h : History (State W) (Action W)} {s : State W}
    (hrun : (outbox (W := W)).Run h s) {t : Transition (State W) (Action W)} (ht : t ∈ h)
    {event : OutboxEvent} (hfind : t.target.events.find? event.id = some event)
    (hfinal : event.status ≠ .pending) : s.events.find? event.id = some event := by
  induction hrun with
  | start => cases ht
  | extend prior hstep ih =>
      rcases List.mem_cons.mp ht with rfl | ht
      · exact hfind
      · exact find?_of_not_pending (locksHeld_of_run prior) hstep (ih ht) hfinal

/-- **Exclusive and final dispatch.** It holds along every run of any number of
workers. -/
theorem dispatchesExclusively_of_run {h : History (State W) (Action W)} {s : State W}
    (hrun : (outbox (W := W)).Run h s) : DispatchesExclusively h s where
  exclusive first second event event' hfirst hsecond hid := by
    have hlocks := locksHeld_of_run hrun
    by_contra hne
    exact (hlocks.held first event hfirst).id_ne (hlocks.held second event' hsecond) hne hid
  final t ht event hfind hfinal := by
    have hrow := find?_of_final hrun ht hfind hfinal
    refine ⟨hrow, fun worker event' hevent hid => ?_⟩
    have hholds := (locksHeld_of_run hrun).held worker event' hevent
    have hsame := hholds.row
    rw [hid, hrow] at hsame
    cases hsame
    exact hfinal hholds.pending
  chained id event hfind := by
    obtain ⟨first, ⟨t, ht, hpublished⟩, hchain⟩ := (rowsChained_of_run hrun).chain id event hfind
    refine ⟨⟨first, ⟨t, ht, hpublished⟩, hchain⟩, ?_⟩
    rw [hchain.retryCount_eq, (publishedBy_fresh hpublished).1, Nat.zero_add]
  uncommitted := by
    induction hrun with
    | start => simp
    | @extend h s s' a prior hstep ih =>
        intro t ht worker event hevent hends hnone
        rcases List.mem_cons.mp ht with rfl | ht
        · exact released_of_not_commit (locksHeld_of_run prior) hstep hevent hends hnone
        · exact ih t ht worker event hevent hends hnone

/-- Nothing has happened yet to two workers and their table. -/
def idleWorkers : State (Fin 2) where
  clock := 0
  events := ⟨[], noEvents_nodup⟩
  locks _ := none
  phase _ := .stopped

/-- From `start` to the lock of the only event. -/
def lockActions (worker : Fin 2) (event : OutboxEvent) : List (Action (Fin 2)) :=
  [.start worker, .run worker .proceed, .run worker .proceed, .run worker (.order [event]),
    .run worker .proceed]

/-- An attempt in which the only handler raises. -/
def raisingAttempt : Attempt where
  calls := [⟨⟨0, "recompute_passes".toList⟩, .raises "ValueError".toList⟩]
  notedAt := 0
  endedAt := 0
  jitter := 1500000
  jitter_le := by decide

/-- Worker 1 meets the event while worker 0 has it and skips it; worker 0 crashes;
worker 1 takes the event and commits a failed attempt. -/
def contendedActions : List (Action (Fin 2)) :=
  let event := publish 3 8 0 "tle.refreshed".toList [] none
  [.publish 3 8 0 "tle.refreshed".toList [] none] ++ lockActions 0 event ++
    lockActions 1 event ++ [.crash 0, .run 1 .proceed] ++ (lockActions 1 event).tail ++
    [.run 1 (.attempt raisingAttempt), .run 1 .proceed]

/-- The contended event has been attempted once. -/
theorem contended_run_exclusive :
    ∃ h s, (outbox (W := Fin 2)).Run h s ∧ DispatchesExclusively h s ∧
      (∃ t ∈ h, (t.source.phase 0).event?.isSome ∧ t.target.phase 0 = .stopped) ∧
      (commitsOf h 3).length = 1 ∧
      ∃ event, s.events.find? 3 = some event ∧ event.status = .pending ∧ event.retryCount = 1 := by
  obtain ⟨h, s, hrun, hP⟩ := System.exists_run_of_play (M := outbox) (s := idleWorkers)
    ⟨rfl, fun _ => rfl, fun _ => rfl⟩ contendedActions
    (fun p => decide ((∃ t ∈ p.1, (t.source.phase 0).event?.isSome ∧
      t.target.phase 0 = .stopped) ∧ (commitsOf p.1 3).length = 1 ∧
      (p.2.events.find? 3).map (fun event => (event.status, event.retryCount)) =
        some (.pending, 1))) (by decide)
  obtain ⟨hcrash, hcommits, hrow⟩ := of_decide_eq_true hP
  obtain ⟨event, hfind, hfields⟩ := Option.map_eq_some_iff.mp hrow
  exact ⟨h, s, hrun, dispatchesExclusively_of_run hrun, hcrash, hcommits, event, hfind,
    congrArg Prod.fst hfields, congrArg Prod.snd hfields⟩

end Apsis.Core.Events
