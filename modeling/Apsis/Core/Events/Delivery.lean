/-
# How an event is delivered

`Progress` says how soon a worker that is on its own on the table dispatches an event, and
`Reconnection` how soon a worker that nothing fails goes on to its next batch. A worker in its
loop does both in turn. So there is a bound on all the steps that it takes, in its batches and
between them, until the event is dispatched.

The bound is a weighted sum of the two: a step in a batch is paid for by what is left of the
table, and pays for the awaits of the loop that lead to the next batch.
-/

import Apsis.Core.Events.Batches

namespace Apsis.Core.Events.Batches

open Apsis.Library

universe u

variable {W : Type u} [DecidableEq W]

/-! ## What is left to do -/

/-- Only this worker processes events, and all its attempts are recorded. What is published comes
from transactions that began after the event was due. Nothing fails in the loop of the worker,
no handler raises a `CancelledError`, and nobody stops it. -/
def isAlone (poll : ℤ) (worker : W) (event : OutboxEvent) (t : Transition (State W) (Action W)) :
    Bool :=
  (((batches poll).bodyView t).all fun own =>
    decide (IsAlone worker event ⟨t.source.body, own, t.target.body⟩)) &&
  (((batches poll).loopView worker t).all fun own =>
    Connection.goesWell ⟨t.source.loop worker, own, t.target.loop worker⟩)

/-- The worker takes a step, in a batch or between two of them. -/
def takesStep (worker : W) (t : Transition (State W) (Action W)) : Bool :=
  match t.action with
  | .body (.run actor _) => decide (actor = worker)
  | .loop actor (.resume _) => decide (actor = worker)
  | .both actor (.run _ _) _ => decide (actor = worker)
  | _ => false

/-- The event is handed to its handlers. -/
def delivers (poll : ℤ) (id : Uuid) (t : Transition (State W) (Action W)) : Prop :=
  ∃ own, (batches poll).bodyView t = some own ∧ dispatches id ⟨t.source.body, own, t.target.body⟩

/-- The awaits to the next batch. -/
def awaitsLeft (place : Connection.Place) : ℕ :=
  if place.isProcessing then 0 else place.stepsLeft + 1

/-- The steps that the worker may still take. -/
def deliveryLeft (worker : W) (event : OutboxEvent) (rows : ℕ) (s : State W) : ℕ :=
  8 * stepsLeft worker event s.body rows + awaitsLeft (s.loop worker).place

/-- Time passes only where the loop of the worker waits for it, and no more than it waits for. -/
def isPunctual (poll : ℤ) (worker : W) (t : Transition (State W) (Action W)) : Bool :=
  ((batches poll).loopView worker t).all fun own =>
    Connection.isPunctual ⟨t.source.loop worker, own, t.target.loop worker⟩

/-- The batch at hand, or the next one, begins then. -/
def nextBy (poll : ℤ) (loop : Connection.State) : Time :=
  if loop.place.isProcessing then loop.clock else loop.place.batchBy poll loop.clock

/-- The event is dispatched then, if nothing takes time but the waiting. -/
def deliveryBy (poll : ℤ) (worker : W) (event : OutboxEvent) (s : State W) : Time :=
  nextBy poll (s.loop worker) + max 0 poll * batchesLeft worker event s.body

/-- The worker is on its way to the event, and its loop goes on. -/
structure Coming (worker : W) (event : OutboxEvent) (s : State W) : Prop where
  inStep : InStep worker s.body (s.loop worker)
  way : OnTheWay worker event s.body
  course : Connection.OnCourse (s.loop worker)

theorem awaitsLeft_le (place : Connection.Place) : awaitsLeft place ≤ 7 := by
  unfold awaitsLeft
  split
  · exact Nat.zero_le 7
  · exact Nat.succ_le_succ place.stepsLeft_le

section Steps

variable {poll : ℤ} {worker : W} {event : OutboxEvent} {s s' : State W} {a : Action W}

omit [DecidableEq W] in
theorem actor_of_isAlone {base base' : Events.State W} {actor : W} {choice : Choice}
    (halone : IsAlone worker event ⟨base, .run actor choice, base'⟩) : actor = worker := by
  cases choice with
  | attempt attempt => exact halone.1
  | _ => exact halone

/-- Where the worker is on its own, only the end of its batch is a step of both parts. -/
theorem ends_of_isAlone {actor : W} {own : Events.Action W} {b : Connection.Action}
    {base : Events.State W} (halone : IsAlone worker event ⟨s.body, own, base⟩)
    (hturn : turn s (.both actor own b) base = true) : actor = worker ∧
      (∃ choice, own = .run worker choice) ∧ (s.loop worker).place.isProcessing = true ∧
        base.phase worker = .polling ∧ b = .resume (batchOutcome (s.body.phase worker)) := by
  cases own with
  | tick _ => cases hturn
  | publish _ _ _ _ _ _ => cases hturn
  | start _ | crash _ | abort _ => exact halone.elim
  | run other choice =>
      have hother := actor_of_isAlone halone
      simp only [turn, Bool.and_eq_true, decide_eq_true_eq] at hturn
      obtain ⟨⟨⟨rfl, hplace⟩, hphase⟩, rfl⟩ := hturn
      subst hother
      exact ⟨rfl, ⟨choice, rfl⟩, hplace, hphase, rfl⟩

/-- A step of the loop between two batches leads to the next one. -/
theorem awaitsLeft_of_loop {loop loop' : Connection.State} {own : Connection.Action}
    (hcourse : Connection.OnCourse loop) (hstep : Connection.step poll loop own = some loop')
    (hwell : Connection.goesWell ⟨loop, own, loop'⟩ = true)
    (hplace : loop.place.isProcessing = false) :
    awaitsLeft loop'.place + (if Connection.isResume ⟨loop, own, loop'⟩ then 1 else 0) ≤
      awaitsLeft loop.place := by
  have hsource : awaitsLeft loop.place = loop.place.stepsLeft + 1 := by
    simp [awaitsLeft, hplace]
  rcases Connection.proceeds_of_step hcourse hstep hwell with hbegins | hproceeds
  · rw [Connection.beginsBatch, Bool.and_eq_true] at hbegins
    have htarget : awaitsLeft loop'.place = 0 := if_pos hbegins.2
    rw [hsource, htarget]
    split <;> lia
  · have hsteps := hproceeds.steps
    have htarget : awaitsLeft loop'.place ≤ loop'.place.stepsLeft + 1 := by
      unfold awaitsLeft
      split <;> lia
    rw [hsource]
    dsimp only at hsteps
    lia

theorem nextBy_le (poll : ℤ) (loop : Connection.State) :
    nextBy poll loop ≤ loop.place.batchBy poll loop.clock := by
  unfold nextBy
  split
  · exact Connection.clock_le_batchBy _ _
  · exact le_rfl

theorem clock_le_deliveryBy (poll : ℤ) (worker : W) (event : OutboxEvent) (s : State W) :
    (s.loop worker).clock ≤ deliveryBy poll worker event s := by
  have hnext : (s.loop worker).clock ≤ nextBy poll (s.loop worker) := by
    unfold nextBy
    split
    · exact le_rfl
    · exact Connection.clock_le_batchBy _ _
  exact hnext.trans (le_add_of_nonneg_right
    (mul_nonneg (le_max_left 0 poll) (Int.natCast_nonneg (batchesLeft worker event s.body))))

/-- A step of the loop between two batches does not put the next one off. -/
theorem nextBy_of_loop {loop loop' : Connection.State} {own : Connection.Action}
    (hcourse : Connection.OnCourse loop) (hstep : Connection.step poll loop own = some loop')
    (hwell : Connection.goesWell ⟨loop, own, loop'⟩ = true)
    (hpunctual : Connection.isPunctual ⟨loop, own, loop'⟩ = true)
    (hplace : loop.place.isProcessing = false) : nextBy poll loop' ≤ nextBy poll loop := by
  have hsource : nextBy poll loop = loop.place.batchBy poll loop.clock := by
    simp [nextBy, hplace]
  rw [hsource]
  rcases Connection.proceeds_of_step hcourse hstep hwell with hbegins | hproceeds
  · rw [Connection.beginsBatch, Bool.and_eq_true] at hbegins
    have hclock : loop'.clock = loop.clock := by
      apply clock_of_loop hstep
      rintro elapsed rfl
      cases hstep
      cases hplace.symm.trans hbegins.2
    have htarget : nextBy poll loop' = loop'.clock := if_pos hbegins.2
    rw [htarget, hclock]
    exact Connection.clock_le_batchBy _ _
  · exact (nextBy_le poll loop').trans (hproceeds.batch hpunctual)

/-- After a batch the next one comes a poll later. -/
theorem nextBy_of_processing {loop loop' : Connection.State} {outcome : Connection.Outcome}
    (hcourse : Connection.OnCourse loop)
    (hstep : Connection.step poll loop (.resume outcome) = some loop')
    (hwell : Connection.goesWell ⟨loop, .resume outcome, loop'⟩ = true)
    (hplace : loop.place.isProcessing = true) :
    nextBy poll loop' ≤ nextBy poll loop + max 0 poll := by
  have hsource : nextBy poll loop = loop.clock := if_pos hplace
  have hbatch : loop.place.batchBy poll loop.clock = loop.clock + max 0 poll := by
    cases hprocessing : loop.place with
    | processing conn => rfl
    | _ =>
        rw [hprocessing] at hplace
        cases hplace
  rcases Connection.proceeds_of_step hcourse hstep hwell with hbegins | hproceeds
  · rw [Connection.beginsBatch, Bool.and_eq_true] at hbegins
    cases hprocessing : loop.place with
    | checking conn =>
        rw [hprocessing] at hplace
        cases hplace
    | _ =>
        rw [hprocessing] at hbegins
        cases hbegins.1
  · rw [hsource, ← hbatch]
    exact (nextBy_le poll loop').trans (hproceeds.batch rfl)

/-- The step lemma: the event is delivered, or the worker has come closer. -/
theorem coming_of_step {rows : ℕ} (hcoming : Coming worker event s)
    (hstep : (batches poll).step s a = some s')
    (halone : isAlone poll worker event ⟨s, a, s'⟩ = true)
    (hrows : s.body.events.rows.length ≤ rows) :
    delivers poll event.id ⟨s, a, s'⟩ ∨ Coming worker event s' ∧
      deliveryLeft worker event rows s' + (if takesStep worker ⟨s, a, s'⟩ then 1 else 0) ≤
        deliveryLeft worker event rows s := by
  have hinv := (keeps_inStep poll).of_step worker hcoming.inStep hstep
  rw [isAlone, Bool.and_eq_true] at halone
  obtain ⟨htable, hloop⟩ := halone
  cases Host.step_effect hstep with
  | tick elapsed =>
      have hstep : Events.step s.body (.tick elapsed) = some _ := rfl
      rcases advances_of_step hcoming.way hstep (of_decide_eq_true htable) hrows with
        hdispatches | hadvances
      · exact Or.inl ⟨.tick elapsed, rfl, hdispatches⟩
      · have hcourse := hcoming.course
        refine Or.inr ⟨⟨hinv, hadvances.way, hcourse.live, hcourse.shutdown, hcourse.kept⟩, ?_⟩
        exact Nat.add_le_add_right (Nat.mul_le_mul_left 8 hadvances.steps) _
  | @body own base hbody hturn =>
      have hstep : Events.step s.body own = some base := hbody
      rcases advances_of_step hcoming.way hstep (of_decide_eq_true htable) hrows with
        hdispatches | hadvances
      · exact Or.inl ⟨own, rfl, hdispatches⟩
      · refine Or.inr ⟨⟨hinv, hadvances.way, hcoming.course⟩, ?_⟩
        have hsteps := hadvances.steps
        have hcounts : takesStep worker ⟨s, .body own, { s with body := base }⟩ =
            isStepOf worker ⟨s.body, own, base⟩ := by
          cases own <;> rfl
        rw [hcounts]
        simp only [deliveryLeft]
        dsimp only at hsteps
        lia
  | @loop actor own loop hown hturn =>
      have hstep : Connection.step poll (s.loop actor) own = some loop := hown
      right
      by_cases hactor : actor = worker
      · subst hactor
        have hwell : Connection.goesWell ⟨s.loop actor, own, loop⟩ = true := by
          simpa [Host.loopView] using hloop
        have hcourse := hcoming.course.step hstep hwell
        refine ⟨⟨hinv, hcoming.way, by simpa using hcourse⟩, ?_⟩
        simp only [deliveryLeft, Function.update_self]
        cases own with
        | resume outcome =>
            simp only [batches, turn, Bool.not_eq_true'] at hturn
            have hawaits := awaitsLeft_of_loop hcoming.course hstep hwell hturn
            simp only [Connection.isResume, if_true] at hawaits
            simp only [takesStep, decide_true, if_true]
            lia
        | lose conn =>
            simp only [Connection.step, Option.ite_none_right_eq_some, Option.some.injEq] at hstep
            obtain ⟨-, rfl⟩ := hstep
            exact le_rfl
        | stop => cases hwell
        | _ => cases hturn
      · have hsame : Function.update s.loop actor loop worker = s.loop worker :=
          Function.update_of_ne (Ne.symm hactor) _ _
        refine ⟨⟨hinv, hcoming.way, by simpa [hsame] using hcoming.course⟩, ?_⟩
        simp only [deliveryLeft, hsame]
        cases own <;> simp [takesStep, hactor]
  | @both actor own b base loop hbody hown hturn =>
      have hstep : Events.step s.body own = some base := hbody
      have htask : Connection.step poll (s.loop actor) b = some loop := hown
      have halone : IsAlone worker event ⟨s.body, own, base⟩ := of_decide_eq_true htable
      rcases advances_of_step hcoming.way hstep halone hrows with hdispatches | hadvances
      · exact Or.inl ⟨own, rfl, hdispatches⟩
      · obtain ⟨rfl, ⟨choice, rfl⟩, hplace, -, rfl⟩ := ends_of_isAlone halone hturn
        have hwell : Connection.goesWell
            ⟨s.loop actor, .resume (batchOutcome (s.body.phase actor)), loop⟩ = true := by
          simpa [Host.loopView] using hloop
        have hcourse := hcoming.course.step htask hwell
        refine Or.inr ⟨⟨hinv, hadvances.way, by simpa using hcourse⟩, ?_⟩
        have hsteps := hadvances.steps
        have hawaits := awaitsLeft_le loop.place
        have hsource : awaitsLeft (s.loop actor).place = 0 := if_pos hplace
        simp only [isStepOf, decide_true, if_true] at hsteps
        simp only [deliveryLeft, takesStep, Function.update_self, decide_true, if_true, hsource]
        lia

/-- The step lemma for the time. -/
theorem deliveryBy_of_step {rows : ℕ} (hcoming : Coming worker event s)
    (hstep : (batches poll).step s a = some s')
    (halone : isAlone poll worker event ⟨s, a, s'⟩ = true)
    (hpunctual : isPunctual poll worker ⟨s, a, s'⟩ = true)
    (hrows : s.body.events.rows.length ≤ rows) (hnot : ¬ delivers poll event.id ⟨s, a, s'⟩) :
    deliveryBy poll worker event s' ≤ deliveryBy poll worker event s := by
  have hpoll : 0 ≤ max 0 poll := le_max_left 0 poll
  rw [isAlone, Bool.and_eq_true] at halone
  obtain ⟨htable, hloop⟩ := halone
  have hadvances : ∀ {own : Events.Action W} {base : Events.State W},
      (batches poll).bodyView ⟨s, a, s'⟩ = some own → s'.body = base →
        Events.step s.body own = some base → IsAlone worker event ⟨s.body, own, base⟩ →
          Advances worker event rows ⟨s.body, own, base⟩ := by
    rintro own base hview rfl hstep halone
    exact (advances_of_step hcoming.way hstep halone hrows).resolve_left fun hdispatches =>
      hnot ⟨own, hview, hdispatches⟩
  have hfewer : ∀ {before after : ℕ}, after ≤ before →
      max 0 poll * (after : ℤ) ≤ max 0 poll * (before : ℤ) := by
    intro before after hle
    exact mul_le_mul_of_nonneg_left (Int.ofNat_le.mpr hle) hpoll
  cases Host.step_effect hstep with
  | tick elapsed =>
      have hbatches := (hadvances rfl rfl rfl (of_decide_eq_true htable)).batches
      have hplace : (s.loop worker).place.isProcessing = false := by
        cases hprocessing : (s.loop worker).place with
        | processing conn =>
            simp [isPunctual, Host.loopView, batches, loopClock, Connection.isPunctual,
              hprocessing] at hpunctual
        | _ => rfl
      have hwaits : Connection.isPunctual ⟨s.loop worker, .tick elapsed,
          ((batches poll).after elapsed s).loop worker⟩ = true := hpunctual
      exact add_le_add (nextBy_of_loop hcoming.course rfl rfl hwaits hplace)
        (hfewer ((Nat.le_add_right _ _).trans hbatches))
  | @body own base hbody hturn =>
      have hbatches := (hadvances rfl rfl hbody (of_decide_eq_true htable)).batches
      exact add_le_add le_rfl (hfewer ((Nat.le_add_right _ _).trans hbatches))
  | @loop actor own loop hown hturn =>
      have hstep : Connection.step poll (s.loop actor) own = some loop := hown
      by_cases hactor : actor = worker
      · subst hactor
        refine add_le_add ?_ le_rfl
        show nextBy poll (Function.update s.loop actor loop actor) ≤ nextBy poll (s.loop actor)
        rw [Function.update_self]
        cases own with
        | resume outcome =>
            simp only [batches, turn, Bool.not_eq_true'] at hturn
            have hwell : Connection.goesWell ⟨s.loop actor, .resume outcome, loop⟩ = true := by
              simpa [Host.loopView] using hloop
            exact nextBy_of_loop hcoming.course hstep hwell rfl hturn
        | lose conn =>
            simp only [Connection.step, Option.ite_none_right_eq_some, Option.some.injEq] at hstep
            obtain ⟨-, rfl⟩ := hstep
            exact le_rfl
        | stop =>
            cases hstep
            exact le_rfl
        | _ => cases hturn
      · have hsame : Function.update s.loop actor loop worker = s.loop worker :=
          Function.update_of_ne (Ne.symm hactor) _ _
        simp only [deliveryBy, hsame]
        exact le_rfl
  | @both actor own b base loop hbody hown hturn =>
      have halone : IsAlone worker event ⟨s.body, own, base⟩ := of_decide_eq_true htable
      have hbatches := (hadvances rfl rfl hbody halone).batches
      have htask : Connection.step poll (s.loop actor) b = some loop := hown
      obtain ⟨rfl, ⟨choice, rfl⟩, hplace, hphase, rfl⟩ := ends_of_isAlone halone hturn
      have hwell : Connection.goesWell
          ⟨s.loop actor, .resume (batchOutcome (s.body.phase actor)), loop⟩ = true := by
        simpa [Host.loopView] using hloop
      have hnext := nextBy_of_processing hcoming.course htask hwell hplace
      simp only [endsBatch, isStepOf, hphase, decide_true, Bool.and_self, if_true] at hbatches
      have hmore := hfewer hbatches
      simp only [deliveryBy, Function.update_self]
      push_cast at hmore
      lia

end Steps

/-! ## The delivery -/

section Delivery

variable {poll : ℤ} {worker : W} {event : OutboxEvent} {s s' : State W}
  {h late : History (State W) (Action W)}

/-- A batch that has begun goes on. -/
theorem enables_of_processing (hinv : InStep worker s.body (s.loop worker))
    (hplace : (s.loop worker).place.isProcessing = true) :
    (batches poll).system.Enables (takesStep worker) s := by
  have hsteps : ∃ choice s', (batches poll).step s (.body (.run worker choice)) = some s' ∨
      ∃ own, (batches poll).step s (.both worker (.run worker choice) own) = some s' :=
    exists_step_of_processing hinv hplace
  obtain ⟨choice, next, hbody | ⟨own, hboth⟩⟩ := hsteps
  · exact ⟨.body (.run worker choice), next, hbody, by simp [takesStep]⟩
  · exact ⟨.both worker (.run worker choice) own, next, hboth, by simp [takesStep]⟩

/-- Between two batches the loop goes on. -/
theorem enables_of_resume (hplace : (s.loop worker).place.isProcessing = false)
    {outcome : Connection.Outcome} {loop : Connection.State}
    (hloop : Connection.step poll (s.loop worker) (.resume outcome) = some loop) :
    (batches poll).system.Enables (takesStep worker) s := by
  have hown : (Connection.loop poll).step (s.loop worker) (.resume outcome) = some loop := hloop
  refine ⟨.loop worker (.resume outcome),
    { s with loop := Function.update s.loop worker loop }, ?_, by simp [takesStep]⟩
  simp only [Host.system, Host.step, hown, Option.map_some]
  exact if_pos (by simp [batches, turn, hplace])

/-- The worker can take its next step when it has waited. -/
theorem enables_after (hinv : InStep worker s.body (s.loop worker))
    (hlive : (s.loop worker).place.isLive = true)
    (hshortly : Connection.WaitsShortly poll (s.loop worker)) {elapsed : ℕ}
    (hlong : max poll (timedelta 60) ≤ elapsed) :
    (batches poll).system.Enables (takesStep worker) ((batches poll).after elapsed s) := by
  by_cases hplace : (s.loop worker).place.isProcessing = true
  · exact enables_of_processing ((keeps_inStep poll).tick worker _ _ elapsed hinv) hplace
  · obtain ⟨outcome, loop, hloop, -⟩ := Connection.exists_resume hlive hshortly hlong
    exact enables_of_resume (Bool.eq_false_iff.mpr hplace) hloop

omit [DecidableEq W] in
/-- A worker whose loop is between two batches has none on the table. -/
theorem InStep.polling (hinv : InStep worker s.body (s.loop worker))
    (hcourse : Connection.OnCourse (s.loop worker))
    (hplace : (s.loop worker).place.isProcessing = false) : s.body.phase worker = .polling :=
  (hinv.idle hplace).resolve_right (hinv.started hcourse.live hcourse.kept)

/-- No row is ever deleted. -/
theorem length_le_of_late (hlate : ((batches poll).system.startingIn s).Run late s')
    (t : Transition (State W) (Action W)) (ht : t ∈ late) :
    t.source.body.events.rows.length ≤ s'.body.events.rows.length := by
  induction hlate with
  | start => cases ht
  | @extend late s s' a _ hstep ih =>
      have hle : s.body.events.rows.length ≤ s'.body.events.rows.length := by
        cases Host.step_effect hstep with
        | tick _ => exact le_rfl
        | loop _ _ => exact le_rfl
        | body hbody _ => exact length_le_of_step hbody
        | both hbody _ _ => exact length_le_of_step hbody
      rcases List.mem_cons.mp ht with rfl | hearlier
      · exact hle
      · exact (ih hearlier).trans hle

/-- The loop of a worker that nothing fails goes on. -/
theorem onCourse_of_late (hcourse : Connection.OnCourse (s.loop worker))
    (hlate : ((batches poll).system.startingIn s).Run late s')
    (halone : ∀ t ∈ late, isAlone poll worker event t = true) :
    Connection.OnCourse (s'.loop worker) := by
  induction hlate with
  | start hinit =>
      cases hinit
      exact hcourse
  | @extend late before after a _ hstep ih =>
      have hbefore := ih fun t ht => halone t (List.mem_cons_of_mem _ ht)
      have hwell := halone _ List.mem_cons_self
      rw [isAlone, Bool.and_eq_true] at hwell
      have hrefines := (batches poll).refines_loop worker
      cases hview : (batches poll).loopView worker ⟨before, a, after⟩ with
      | none =>
          rw [hrefines.unseen before a after trivial hstep hview]
          exact hbefore
      | some own =>
          refine hbefore.step (hrefines.seen before a after own trivial hstep hview) ?_
          simpa [hview] using hwell.2

/-- **An event is delivered.** However badly the workers and their connections have fared, a
worker that has not been told to stop, when it is between two batches and is not about to end for
a `CancelledError`, dispatches an event that is due and not locked within a bound on its own
steps, those in its batches and those of its loop, if it is on its own from then on and nothing
fails any more. It can always take the next one within a poll or a minute. If nothing takes time
but the waiting, that is a minute and a poll for every batch at most. -/
theorem delivered_within (hrun : (batches poll).system.Run h s)
    (hlive : (s.loop worker).place.isLive = true) (hshutdown : (s.loop worker).shutdown = false)
    (hkept : (s.loop worker).place.isCancelled = false)
    (hplace : (s.loop worker).place.isProcessing = false)
    (hrow : s.body.events.find? event.id = some event) (hdue : event.isDue s.body.clock = true)
    (hfree : s.body.locks event.id = none)
    (hlate : ((batches poll).system.startingIn s).Run late s')
    (halone : ∀ t ∈ late, isAlone poll worker event t = true) :
    (8 * (2 * (ahead worker event s.body / batchSize) +
          (ahead worker event s.body + 1) * (s'.body.events.rows.length + 4) + 1) + 7 <
        late.countP (takesStep worker) → ∃ t ∈ late, delivers poll event.id t) ∧
      ((∀ t ∈ late, isPunctual poll worker t = true) →
        (∀ t ∈ late, ¬ delivers poll event.id t) → s'.body.clock ≤ s.body.clock + timedelta 60 +
          max 0 poll * (ahead worker event s.body / batchSize + 1 : ℕ)) ∧
      ∀ elapsed : ℕ, max poll (timedelta 60) ≤ elapsed →
        (batches poll).system.Enables (takesStep worker) ((batches poll).after elapsed s') := by
  have hcourse : Connection.OnCourse (s.loop worker) := ⟨hlive, hshutdown, hkept⟩
  have hinv := (keeps_inStep poll).of_run hrun worker
  have hphase := hinv.polling hcourse hplace
  have hcoming : Coming worker event s :=
    ⟨hinv, ⟨hrow, hdue, hfree, by rw [hphase]; trivial⟩, hcourse⟩
  have happroaches : (batches poll).system.Approaches (delivers poll event.id)
      (fun t => isAlone poll worker event t = true ∧
        t.source.body.events.rows.length ≤ s'.body.events.rows.length)
      (takesStep worker) (Coming worker event)
      (deliveryLeft worker event s'.body.events.rows.length) :=
    fun _ _ _ hcoming hstep hok => coming_of_step hcoming hstep hok.1 hok.2
  refine ⟨fun hlong => ?_, fun hpunctual hnone => ?_, fun elapsed hlong => ?_⟩
  · refine happroaches.exists_goal hcoming hlate
      (fun t ht => ⟨halone t ht, length_le_of_late hlate t ht⟩) (lt_of_le_of_lt ?_ hlong)
    have hawaits := awaitsLeft_le (s.loop worker).place
    simp only [deliveryLeft, stepsLeft, batchesLeft, hphase, batchSize]
    lia
  · have htimely : (batches poll).system.Approaches (delivers poll event.id)
        (fun t => isAlone poll worker event t = true ∧ isPunctual poll worker t = true ∧
          t.source.body.events.rows.length ≤ s'.body.events.rows.length)
        (fun _ => false)
        (fun now => Coming worker event now ∧
          deliveryBy poll worker event now ≤ deliveryBy poll worker event s) fun _ => 0 := by
      intro before a after hbefore hstep hok
      rcases coming_of_step hbefore.1 hstep hok.1 hok.2.2 with hdelivers | ⟨hafter, -⟩
      · exact Or.inl hdelivers
      · by_cases hdelivers : delivers poll event.id ⟨before, a, after⟩
        · exact Or.inl hdelivers
        · have hby := deliveryBy_of_step hbefore.1 hstep hok.1 hok.2.1 hok.2.2 hdelivers
          exact Or.inr ⟨⟨hafter, hby.trans hbefore.2⟩, le_rfl⟩
    obtain ⟨⟨hafter, hby⟩, -⟩ := htimely.of_run ⟨hcoming, le_rfl⟩ hlate
      (fun t ht => ⟨halone t ht, hpunctual t ht, length_le_of_late hlate t ht⟩) hnone
    have hshortly : Connection.WaitsShortly poll (s.loop worker) :=
      Connection.waitsShortly_of_run (Host.loop_run hrun worker)
    have hstart : deliveryBy poll worker event s ≤ s.body.clock + timedelta 60 +
        max 0 poll * (ahead worker event s.body / batchSize + 1 : ℕ) := by
      have hbatch := (nextBy_le poll (s.loop worker)).trans hshortly.batchBy_le
      rw [hinv.clock] at hbatch
      simp only [deliveryBy, batchesLeft, hphase, batchSize]
      push_cast
      lia
    calc s'.body.clock = (s'.loop worker).clock := hafter.inStep.clock.symm
      _ ≤ deliveryBy poll worker event s' := clock_le_deliveryBy poll worker event s'
      _ ≤ deliveryBy poll worker event s := hby
      _ ≤ _ := hstart
  · have hrun' := hrun.append hlate
    have hlive' := (onCourse_of_late hcourse hlate halone).live
    exact enables_after ((keeps_inStep poll).of_run hrun' worker) hlive'
      (Connection.waitsShortly_of_run (Host.loop_run hrun' worker)) hlong

end Delivery

/-! ## An event that waits for the poll -/

/-- An event that nobody handles. -/
def unhandledEvent : OutboxEvent := publish 3 8 0 "tle.refreshed".toList [] none

/-- It is published, and worker 0 connects and waits for its poll. -/
def waitingActions : List (Action (Fin 2)) :=
  [.body (.publish 3 8 0 "tle.refreshed".toList [] none), .both 0 (.start 0) .start,
    .loop 0 (.resume .returns), .loop 0 (.resume .returns), .loop 0 (.resume .returns)]

/-- The poll is over, and a batch begins. -/
def pollActions : List (Action (Fin 2)) :=
  [.tick 5000000, .loop 0 (.resume .raises), .loop 0 (.resume .returns),
    .body (.run 0 .proceed), .body (.run 0 .proceed)]

/-- Nothing is due, and the batch is over. -/
def emptyActions : List (Action (Fin 2)) :=
  [.body (.run 0 (.order [])), .both 0 (.run 0 .proceed) (.resume .returns)]

/-- The event is locked and dispatched, and eight empty batches follow. -/
def deliveringActions : List (Action (Fin 2)) :=
  pollActions ++
    [.body (.run 0 (.order [unhandledEvent])), .body (.run 0 .proceed),
      .body (.run 0 (.attempt ⟨[], 5000000, 5000000, 0, noJitter_le⟩)), .body (.run 0 .proceed),
      .body (.run 0 .proceed)] ++ emptyActions ++
    (List.replicate 8 (pollActions ++ emptyActions)).flatten

/-- The event waits in this state, between two batches of the worker. -/
def isWaiting (s : State (Fin 2)) : Bool :=
  (s.loop 0).place.isLive && !(s.loop 0).shutdown && !(s.loop 0).place.isCancelled &&
    !(s.loop 0).place.isProcessing && decide (s.body.events.find? 3 = some unhandledEvent) &&
      unhandledEvent.isDue s.body.clock && decide (s.body.locks 3 = none) &&
        decide (ahead 0 unhandledEvent s.body = 0)

/-- The worker is on its own, and takes enough steps. -/
def isLong (p : History (State (Fin 2)) (Action (Fin 2)) × State (Fin 2)) : Bool :=
  p.1.all (isAlone 5000000 0 unhandledEvent) && decide (p.2.body.events.rows.length = 1) &&
    decide (55 < p.1.countP (takesStep 0))

/-- After nine batches the event has been dispatched. -/
theorem waiting_event_delivered :
    ∃ h, ∃ s : State (Fin 2), (batches 5000000).system.Run h s ∧
      ∃ late s', ((batches 5000000).system.startingIn s).Run late s' ∧
        ∃ t ∈ late, delivers 5000000 3 t := by
  obtain ⟨h, s, hrun, hP⟩ := System.exists_run_of_play newWorkers_init waitingActions
    (fun p => isWaiting p.2 &&
      (((batches 5000000).system.startingIn p.2).play ([], p.2) deliveringActions).any isLong)
    (by decide +kernel)
  rw [Bool.and_eq_true] at hP
  obtain ⟨hwaiting, hplay⟩ := hP
  obtain ⟨late, s', hlate, hlong⟩ := System.exists_run_of_play rfl deliveringActions isLong hplay
  simp only [isWaiting, isLong, Bool.and_eq_true, Bool.not_eq_true', decide_eq_true_eq,
    List.all_eq_true] at hwaiting hlong
  obtain ⟨⟨⟨⟨⟨⟨⟨hlive, hshutdown⟩, hkept⟩, hplace⟩, hrow⟩, hdue⟩, hfree⟩, hahead⟩ := hwaiting
  obtain ⟨⟨halone, hlength⟩, hcount⟩ := hlong
  refine ⟨h, s, hrun, late, s', hlate, ?_⟩
  refine (delivered_within hrun hlive hshutdown hkept hplace hrow hdue hfree hlate halone).1 ?_
  rw [hahead, hlength]
  exact hcount

end Apsis.Core.Events.Batches
