/-
# The outbox as a queue

What the outbox is for: events are attempted one at a time, each attempt acts on the
row that the one before it left, and nobody sees an attempt half done. `queue` is a
machine that does just this. Nothing of workers, locks or transactions is left in it,
and an attempt is a single step.

Any number of workers on one table refine it, with their attempts in the order of
their commits. So what the attempts of an event do to its row, taken one after the
other, they also do when workers run at the same time, crash and start again.
-/

import Apsis.Core.Events.Exclusive
import Apsis.Core.Events.Lifecycle
import Apsis.Library.Refinement

namespace Apsis.Core.Events

open Apsis.Library

universe u

variable {W : Type u}

/-! ## The machine -/

/-- The clock and the events. -/
structure Queue where
  clock : Time
  events : EventTable

/-- The actions of the machine. -/
inductive QueueAction
  | /-- Time passes. -/
    tick (elapsed : ℕ)
  | /-- An event comes in. -/
    publish (event : OutboxEvent)
  | /-- An event is attempted. -/
    attempt (before after : OutboxEvent)

/-- The event has just been published. -/
structure IsFresh (now : Time) (event : OutboxEvent) : Prop where
  pending : event.status = .pending
  count : event.retryCount = 0
  error : event.lastError = none
  processed : event.processedAt = none
  state : event.handlerState = ∅
  due : event.scheduledAt ≤ now

/-- An attempt of a due event leaves this row. -/
structure IsAttempt (now : Time) (before after : OutboxEvent) : Prop where
  pending : before.status = .pending
  handled : ∃ attempt, before.scheduledAt ≤ attempt.endedAt ∧ attempt.endedAt ≤ now ∧
    handleEvent before attempt = .ok after

open Classical in
/-- One step of the machine. -/
noncomputable def queueStep (q : Queue) : QueueAction → Option Queue
  | .tick elapsed => some { q with clock := q.clock + elapsed }
  | .publish event =>
      if IsFresh q.clock event then
        (q.events.insert? event).map fun events => { q with events := events }
      else none
  | .attempt before after =>
      if q.events.find? before.id = some before ∧ IsAttempt q.clock before after then
        some { q with events := commitEvent after q.events }
      else none

/-- A queue begins empty. -/
noncomputable def queue : System Queue QueueAction where
  init q := q.events.rows = []
  step := queueStep

/-! ## Refinement -/

/-- What is to be seen of the workers. -/
def State.queue (s : State W) : Queue := ⟨s.clock, s.events⟩

/-- What is to be seen of a transition: time, publications and commits. -/
def queueAction (t : Transition (State W) (Action W)) : Option QueueAction :=
  match t.action with
  | .tick elapsed => some (.tick elapsed)
  | .publish _ _ _ _ _ _ => (publishedBy t).map .publish
  | _ => (commitBy t).map fun c => .attempt c.1 c.2

/-- An attempt that is about to be committed was made when the event was due. -/
def AttemptsDue (s : State W) : Prop :=
  ∀ worker before after, (s.phase worker).commit? = some (before, after) →
    IsAttempt s.clock before after

theorem IsAttempt.mono {now now' : Time} {before after : OutboxEvent}
    (h : IsAttempt now before after) (hle : now ≤ now') : IsAttempt now' before after := by
  obtain ⟨attempt, hdue, hended, hhandle⟩ := h.handled
  exact ⟨h.pending, attempt, hdue, hended.trans hle, hhandle⟩

variable [DecidableEq W] {h : History (State W) (Action W)} {s s' : State W} {a : Action W}

theorem clock_le_of_step (hstep : step s a = some s') : s.clock ≤ s'.clock := by
  cases step_effect hstep with
  | tick elapsed => exact Int.le_add_of_nonneg_right (Int.natCast_nonneg elapsed)
  | _ => exact Int.le_refl _

/-- An attempt ends when the clock shows its time. -/
theorem endedAt_of_step {worker : W} {rounds : ℕ} {event : OutboxEvent} {attempt : Attempt}
    (hphase : s.phase worker = .dispatching rounds event)
    (hstep : step s (.run worker (.attempt attempt)) = some s') : attempt.endedAt = s.clock := by
  simp only [step, hphase, runStep, Option.ite_none_right_eq_some] at hstep
  exact hstep.1.2

theorem attemptsDue_of_run (hrun : outbox.Run h s) : AttemptsDue s := by
  apply hrun.invariant_of_step (I := fun _ s => AttemptsDue s)
  · intro s hinit worker before after hcommit
    rw [hinit.2.2] at hcommit
    cases hcommit
  · intro h s a s' hprior hinv hstep worker before after hcommit
    refine IsAttempt.mono ?_ (clock_le_of_step hstep)
    rcases commit?_of_step hstep hcommit with hbefore |
      ⟨rounds, attempt, rfl, hphase, hhandle⟩
    · exact hinv worker before after hbefore
    · have hholds := (locksHeld_of_run hprior).held worker before (by rw [hphase]; rfl)
      have hended := endedAt_of_step hphase hstep
      exact ⟨hholds.pending, attempt, hholds.due.trans_eq hended.symm, hended.le, hhandle⟩

/-- What an invariant of the workers has to say for the refinement. -/
structure IsSerial (s : State W) : Prop where
  locks : LocksHeld s
  due : AttemptsDue s

omit [DecidableEq W] in
/-- A step of a worker that commits nothing is not seen. -/
theorem queueAction_eq_none (hcommit : s.commit? a = none)
    (hcause : (∃ worker, a = .start worker ∨ a = .crash worker ∨ a = .abort worker) ∨
      ∃ worker choice, a = .run worker choice) : queueAction ⟨s, a, s'⟩ = none := by
  have hnone : (commitBy ⟨s, a, s'⟩).map (fun c => QueueAction.attempt c.1 c.2) = none := by
    rw [commitBy, hcommit]
    rfl
  rcases hcause with ⟨worker, rfl | rfl | rfl⟩ | ⟨worker, choice, rfl⟩ <;> exact hnone

omit [DecidableEq W] in
theorem queueAction_of_run {worker : W} {choice : Choice} :
    queueAction ⟨s, .run worker choice, s'⟩ =
      (s.phase worker).commit?.map fun c => .attempt c.1 c.2 := rfl

/-- The step lemma of the refinement. -/
theorem outbox_refines : (outbox (W := W)).Refines queue IsSerial State.queue queueAction where
  init s hinit := hinit.1
  seen s a s' b hserial hstep hseen := by
    cases step_effect hstep with
    | tick elapsed =>
        cases hseen
        rfl
    | @publish id maxRetries now eventType payload aggregateId events hnow hinsert =>
        cases hseen
        have hfresh : IsFresh s.clock
            (publish id maxRetries now eventType payload aggregateId) :=
          ⟨rfl, rfl, rfl, rfl, rfl, hnow⟩
        show queueStep _ (.publish _) = _
        simp only [queueStep, State.queue, hinsert, Option.map_some]
        exact if_pos hfresh
    | @move _ worker _ _ _ _ hcommit hcause =>
        rw [queueAction_eq_none hcommit (hcause.imp (fun h => ⟨worker, Or.inl h⟩)
          fun ⟨choice, h⟩ => ⟨worker, choice, h⟩)] at hseen
        cases hseen
    | @rollback _ worker _ _ _ hcommit hcause =>
        rw [queueAction_eq_none hcommit ?_] at hseen
        · cases hseen
        · rcases hcause with h | h | ⟨_, _, attempt, h, -, -⟩
          · exact Or.inl ⟨worker, Or.inr (Or.inl h)⟩
          · exact Or.inl ⟨worker, Or.inr (Or.inr h)⟩
          · exact Or.inr ⟨worker, _, h⟩
    | lock hphase _ =>
        rw [queueAction_of_run, hphase] at hseen
        cases hseen
    | flush hphase _ _ =>
        rw [queueAction_of_run, hphase] at hseen
        cases hseen
    | @commit worker rounds before after hphase =>
        rw [queueAction_of_run, hphase] at hseen
        cases hseen
        have hcommit : (s.phase worker).commit? = some (before, after) := by
          rw [hphase]
          rfl
        have hholds := hserial.locks.held worker before (Phase.event?_of_commit? hcommit)
        exact if_pos ⟨hholds.row, hserial.due worker before after hcommit⟩
  unseen s a s' hserial hstep hunseen := by
    cases step_effect hstep with
    | tick elapsed => cases hunseen
    | publish _ _ => cases hunseen
    | commit hphase =>
        rw [queueAction_of_run, hphase] at hunseen
        cases hunseen
    | _ => rfl

theorem isSerial_of_run (hrun : outbox.Run h s) : IsSerial s :=
  ⟨locksHeld_of_run hrun, attemptsDue_of_run hrun⟩

/-- **The outbox is a queue.** Whatever any number of workers do on one table, what is to be
seen of it, in the order in which it is committed, is a run of the queue. -/
theorem outbox_refines_queue (hrun : outbox.Run h s) :
    queue.Run (h.view State.queue queueAction) s.queue :=
  outbox_refines.run (fun _ _ => isSerial_of_run) hrun

/-- Two workers contend for an event. Seen from outside, it is published and attempted once. -/
theorem contended_run_queue :
    ∃ h s, (outbox (W := Fin 2)).Run h s ∧
      (h.filterMap queueAction).length = 2 ∧ (h.filterMap commitBy).length = 1 ∧
      queue.Run (h.view State.queue queueAction) s.queue := by
  obtain ⟨h, s, hrun, hP⟩ := System.exists_run_of_play (M := outbox) (s := idleWorkers)
    ⟨rfl, fun _ => rfl, fun _ => rfl⟩ contendedActions
    (fun p => decide ((p.1.filterMap queueAction).length = 2 ∧
      (p.1.filterMap commitBy).length = 1)) (by decide)
  obtain ⟨hseen, hcommits⟩ := of_decide_eq_true hP
  exact ⟨h, s, hrun, hseen, hcommits, outbox_refines_queue hrun⟩

/-! ## The lives of its events -/

/-- The attempt that a transition of the queue makes. -/
def attemptBy (t : Transition Queue QueueAction) : Option (OutboxEvent × OutboxEvent) :=
  match t.action with
  | .attempt before after => some (before, after)
  | _ => none

/-- The attempts of an event, the latest first. -/
def attemptsOf (h : History Queue QueueAction) (id : Uuid) : List (OutboxEvent × OutboxEvent) :=
  (h.filterMap attemptBy).filter fun c => decide (c.1.id = id)

/-- The row before a committed attempt and after it. -/
def rowsOf (c : OutboxEvent × Attempt) : OutboxEvent × OutboxEvent :=
  (c.1, takeRound c.1 ⟨c.2, true⟩)

/-- What has become of an event that was published. -/
structure Life (attempts : List (OutboxEvent × OutboxEvent)) (row published : OutboxEvent)
    (rounds : List Round) : Prop where
  leads : afterRounds published rounds = row
  /-- The rounds are the attempts. -/
  attempted : (committedIn published rounds).map rowsOf = attempts.reverse
  /-- They came one after the other. -/
  ordered : rounds.Pairwise fun first second => first.attempt.endedAt ≤ second.attempt.endedAt
  /-- An event that is pending is scheduled after all of them. -/
  scheduled : row.status = .pending →
    ∀ round ∈ rounds, round.attempt.endedAt ≤ row.scheduledAt

/-- An event was published, and this has become of it. -/
def HasLife (h : History Queue QueueAction) (row : OutboxEvent) : Prop :=
  ∃ published rounds, (∃ t ∈ h, t.action = .publish published ∧
    IsFresh t.source.clock published) ∧ Life (attemptsOf h row.id) row published rounds

/-- The events of the queue have their lives, and nothing else was attempted. -/
structure Lives (h : History Queue QueueAction) (q : Queue) : Prop where
  rows : ∀ row ∈ q.events.rows, HasLife h row
  absent : ∀ id, q.events.find? id = none → attemptsOf h id = []

theorem attemptsOf_cons_of_none {t : Transition Queue QueueAction} (hnone : attemptBy t = none)
    (h : History Queue QueueAction) : attemptsOf (t :: h) = attemptsOf h := by
  ext1 id
  simp [attemptsOf, hnone]

theorem attemptsOf_cons_of_some {t : Transition Queue QueueAction} {before after : OutboxEvent}
    (hsome : attemptBy t = some (before, after)) (h : History Queue QueueAction) (id : Uuid) :
    attemptsOf (t :: h) id =
      if before.id = id then (before, after) :: attemptsOf h id else attemptsOf h id := by
  by_cases hid : before.id = id <;> simp [attemptsOf, hsome, hid]

/-- An attempt is one more round. -/
theorem Life.attempt {attempts : List (OutboxEvent × OutboxEvent)}
    {before after published : OutboxEvent} {rounds : List Round}
    (hlife : Life attempts before published rounds) {now : Time}
    (hattempt : IsAttempt now before after) :
    ∃ rounds, Life ((before, after) :: attempts) after published rounds := by
  obtain ⟨attempt, hdue, -, hhandle⟩ := hattempt.handled
  have htake : takeRound before ⟨attempt, true⟩ = after := by
    rw [takeRound, if_pos ⟨hattempt.pending, rfl⟩, hhandle]
  have hcommitted : committedBy before ⟨attempt, true⟩ = [(before, attempt)] := by
    rw [committedBy, if_pos ⟨hattempt.pending, rfl⟩, hhandle]
  refine ⟨rounds ++ [⟨attempt, true⟩], ?_, ?_, ?_, ?_⟩
  · rw [afterRounds_append, hlife.leads]
    exact htake
  · rw [committedIn_concat, hlife.leads, hcommitted, List.map_append, hlife.attempted,
      List.reverse_cons]
    exact congrArg (fun row => attempts.reverse ++ [(before, row)]) htake
  · refine List.pairwise_append.mpr ⟨hlife.ordered, List.pairwise_singleton _ _, ?_⟩
    intro round hround last hlast
    rw [List.mem_singleton.mp hlast]
    exact (hlife.scheduled hattempt.pending round hround).trans hdue
  · intro hpending round hround
    have hlater : attempt.endedAt ≤ after.scheduledAt := by
      cases handleEvent_eq_ok.mp hhandle with
      | processed _ _ => cases hpending
      | failed _ _ _ => cases hpending
      | retry delay _ _ hdelay _ =>
          have hpos := backoff_pos hdelay
          show attempt.endedAt ≤ attempt.endedAt + delay
          lia
    rcases List.mem_append.mp hround with hround | hround
    · exact ((hlife.scheduled hattempt.pending round hround).trans hdue).trans hlater
    · rw [List.mem_singleton.mp hround]
      exact hlater

theorem HasLife.cons {h : History Queue QueueAction} {row : OutboxEvent} (hlife : HasLife h row)
    {t : Transition Queue QueueAction} (hsame : attemptsOf (t :: h) row.id = attemptsOf h row.id) :
    HasLife (t :: h) row := by
  obtain ⟨published, rounds, ⟨t', hmem, ht'⟩, hlife⟩ := hlife
  refine ⟨published, rounds, ⟨t', List.mem_cons_of_mem _ hmem, ht'⟩, ?_⟩
  rw [hsame]
  exact hlife

/-- The step lemma. -/
theorem Lives.step {h : History Queue QueueAction} {q q' : Queue} {a : QueueAction}
    (hinv : Lives h q) (hstep : queueStep q a = some q') : Lives (⟨q, a, q'⟩ :: h) q' := by
  cases a with
  | tick elapsed =>
      cases hstep
      have hsame := attemptsOf_cons_of_none
        (t := ⟨q, .tick elapsed, { q with clock := q.clock + elapsed }⟩) rfl h
      refine ⟨fun row hmem => (hinv.rows row hmem).cons (by rw [hsame]), fun id hnone => ?_⟩
      rw [hsame]
      exact hinv.absent id hnone
  | publish event =>
      simp only [queueStep, Option.ite_none_right_eq_some, Option.map_eq_some_iff] at hstep
      obtain ⟨hfresh, events, hinsert, rfl⟩ := hstep
      have hsame := attemptsOf_cons_of_none
        (t := ⟨q, .publish event, { q with events := events }⟩) rfl h
      obtain ⟨hnew, hrows⟩ := Table.insert?_eq_some hinsert
      refine ⟨fun row hmem => ?_, fun id hnone => ?_⟩
      · have hmem' : row ∈ events.rows := hmem
        rw [hrows, List.mem_append, List.mem_singleton] at hmem'
        rcases hmem' with hold | rfl
        · exact (hinv.rows row hold).cons (by rw [hsame])
        · refine ⟨row, [], ⟨_, List.mem_cons_self, rfl, hfresh⟩, rfl, ?_, .nil, ?_⟩
          · rw [hsame, hinv.absent row.id hnew]
            rfl
          · rintro _ _ ⟨⟩
      · have hnone' : events.find? id = none := hnone
        rw [hsame]
        rw [Table.find?_of_insert? hinsert] at hnone'
        split at hnone'
        · cases hnone'
        · exact hinv.absent id hnone'
  | attempt before after =>
      simp only [queueStep, Option.ite_none_right_eq_some, Option.some.injEq] at hstep
      obtain ⟨⟨hrow, hattempt⟩, rfl⟩ := hstep
      have hadded := attemptsOf_cons_of_some (t := ⟨q, .attempt before after,
        { q with events := commitEvent after q.events }⟩) rfl h
      obtain ⟨_, -, -, hhandle⟩ := hattempt.handled
      have hid : after.id = before.id := (handleEvent_eq_ok.mp hhandle).id_eq
      refine ⟨fun row hmem => ?_, fun id hnone => ?_⟩
      · have hfind : (commitEvent after q.events).find? row.id = some row := Table.find?_key hmem
        rw [find?_commitEvent] at hfind
        split at hfind
        · next hsame =>
            obtain ⟨-, -, rfl⟩ := Option.map_eq_some_iff.mp hfind
            obtain ⟨published, rounds, ⟨t, ht, hpublished⟩, hlife⟩ :=
              hinv.rows before ((Table.find?_eq_some_iff _).mp hrow).1
            obtain ⟨rounds', hlife'⟩ := hlife.attempt hattempt
            refine ⟨published, rounds', ⟨t, List.mem_cons_of_mem _ ht, hpublished⟩, ?_⟩
            rw [hadded, if_pos hid.symm, hid]
            exact hlife'
        · next hne =>
            have hother : before.id ≠ row.id := by
              rw [← hid]
              exact fun hsame => hne hsame.symm
            refine (hinv.rows row ((Table.find?_eq_some_iff _).mp hfind).1).cons ?_
            rw [hadded, if_neg hother]
      · have hnone' : (commitEvent after q.events).find? id = none := hnone
        rw [find?_commitEvent] at hnone'
        split at hnone'
        · next hsame =>
            rw [hsame, hid, hrow] at hnone'
            cases hnone'
        · next hne =>
            have hother : before.id ≠ id := by
              rw [← hid]
              exact fun hsame => hne hsame.symm
            rw [hadded, if_neg hother]
            exact hinv.absent id hnone'

/-- The run lemma. -/
theorem lives_of_run {hq : History Queue QueueAction} {q : Queue} (hrun : queue.Run hq q) :
    Lives hq q := by
  apply hrun.invariant_of_step (I := fun h q => Lives h q)
  · intro q hinit
    have hempty : q.events.rows = [] := hinit
    constructor
    · rw [hempty]
      rintro _ ⟨⟩
    · exact fun _ _ => rfl
  · exact fun _ _ _ _ _ hinv hstep => hinv.step hstep

/-! ## The lives of events among workers -/

omit [DecidableEq W] in
/-- The attempts of the queue are the commits of the workers. -/
theorem attemptsOf_view (h : History (State W) (Action W)) :
    attemptsOf (h.view State.queue queueAction) = commitsOf h := by
  have hseen : ∀ t : Transition (State W) (Action W), ((queueAction t).map fun b =>
      (⟨t.source.queue, b, t.target.queue⟩ : Transition Queue QueueAction)).bind attemptBy =
        commitBy t := by
    rintro ⟨s, a, s'⟩
    cases a with
    | run worker choice =>
        rw [queueAction_of_run]
        cases hcommit : (s.phase worker).commit? with
        | none => exact hcommit.symm
        | some c => exact hcommit.symm
    | _ => rfl
  ext1 id
  rw [attemptsOf, commitsOf, History.view, List.filterMap_filterMap]
  congr 2
  ext1 t
  exact hseen t

omit [DecidableEq W] in
theorem exists_publishedBy {t : Transition Queue QueueAction} {published : OutboxEvent}
    (hmem : t ∈ h.view State.queue queueAction) (hpublish : t.action = .publish published) :
    ∃ t ∈ h, publishedBy t = some published := by
  obtain ⟨⟨s, a, s'⟩, hstep, hb⟩ := History.exists_of_mem_view hmem
  rw [hpublish] at hb
  refine ⟨_, hstep, ?_⟩
  cases a with
  | publish id maxRetries now eventType payload aggregateId =>
      cases hb
      rfl
  | run worker choice =>
      obtain ⟨_, -, hsame⟩ := Option.map_eq_some_iff.mp hb
      cases hsame
  | _ => cases hb

omit [DecidableEq W] in
/-- The event that a transition locks, as its row is then. -/
def lockedBy (t : Transition (State W) (Action W)) : Option OutboxEvent :=
  match t.action with
  | .run worker .proceed =>
      match t.source.phase worker with
      | .scanning _ now (id :: _) => t.source.lockable now id
      | _ => none
  | _ => none

/-- A transition of the run has locked the event, when it was pending and due. -/
def HasBegun (h : History (State W) (Action W)) (event : OutboxEvent) : Prop :=
  ∃ t ∈ h, lockedBy t = some event ∧ event.status = .pending ∧
    event.scheduledAt ≤ t.source.clock

omit [DecidableEq W] in
theorem HasBegun.cons {event : OutboxEvent} (hbegun : HasBegun h event)
    (t : Transition (State W) (Action W)) : HasBegun (t :: h) event :=
  List.exists_mem_cons_of_exists hbegun

/-- An event that a worker has in its hands was there before, or is locked by this step. -/
theorem event?_of_step (hstep : step s a = some s') {worker : W} {event : OutboxEvent}
    (hevent : (s'.phase worker).event? = some event) :
    (s.phase worker).event? = some event ∨ lockedBy ⟨s, a, s'⟩ = some event := by
  have hentered : ∀ {source : State W} {actor : W} {phase : Phase}, source.phase = s.phase →
      ((source.enter actor phase).phase worker).event? = some event →
        (phase.event? = some event → (s.phase actor).event? = some event ∨
          lockedBy ⟨s, a, s'⟩ = some event) →
            (s.phase worker).event? = some event ∨ lockedBy ⟨s, a, s'⟩ = some event := by
    intro source actor phase hsame htarget hown
    rcases State.enter_phase_eq_some source actor phase htarget with hkept | ⟨rfl, hnew⟩
    · exact Or.inl (by rwa [hsame] at hkept)
    · exact hown hnew
  cases step_effect hstep with
  | tick _ => exact Or.inl hevent
  | publish _ _ => exact Or.inl hevent
  | move _ hnext _ _ _ => exact hentered rfl hevent fun hnew => by cases hnext.symm.trans hnew
  | rollback hnext _ _ _ => exact hentered rfl hevent fun hnew => by cases hnext.symm.trans hnew
  | @lock actor rounds now id candidates locked hphase hlock =>
      refine hentered rfl hevent fun hnew => Or.inr ?_
      cases hnew
      simp only [lockedBy, hphase, hlock]
  | flush hphase _ _ =>
      refine hentered rfl hevent fun hnew => Or.inl ?_
      rw [hphase]
      exact hnew
  | commit _ => exact hentered rfl hevent (by rintro ⟨⟩)

omit [DecidableEq W] in
/-- What is locked is pending and due. -/
theorem due_of_lockedBy (hlocks : LocksHeld s) {event : OutboxEvent}
    (hlocked : lockedBy ⟨s, a, s'⟩ = some event) :
    event.status = .pending ∧ event.scheduledAt ≤ s.clock := by
  unfold lockedBy at hlocked
  split at hlocked
  · next worker _ =>
      split at hlocked
      · next rounds now id candidates hphase =>
          obtain ⟨-, -, hpending, hdue⟩ := State.lockable_eq_some.mp hlocked
          exact ⟨hpending, hdue.trans (hlocks.reading worker now (by rw [hphase]; rfl))⟩
      · cases hlocked
  · cases hlocked

/-- The events that are attempted, and those that have been, were pending and due. -/
structure AllBegun (h : History (State W) (Action W)) (s : State W) : Prop where
  held : ∀ worker event, (s.phase worker).event? = some event → HasBegun h event
  committed : ∀ c ∈ h.filterMap commitBy, HasBegun h c.1

theorem allBegun_of_run (hrun : outbox.Run h s) : AllBegun h s := by
  apply hrun.invariant_of_step (I := fun h s => AllBegun h s)
  · intro s hinit
    refine ⟨fun worker event hevent => ?_, fun c hmem => by cases hmem⟩
    rw [hinit.2.2] at hevent
    cases hevent
  · intro h s a s' hprior hinv hstep
    refine ⟨fun worker event hevent => ?_, fun c hmem => ?_⟩
    · rcases event?_of_step hstep hevent with hbefore | hlocked
      · exact (hinv.held worker event hbefore).cons _
      · exact ⟨_, List.mem_cons_self, hlocked, due_of_lockedBy (locksHeld_of_run hprior) hlocked⟩
    · obtain ⟨t, ht, hcommit⟩ := List.mem_filterMap.mp hmem
      rcases List.mem_cons.mp ht with rfl | ht
      · cases a with
        | run worker choice =>
            exact (hinv.held worker c.1 (Phase.event?_of_commit? hcommit)).cons _
        | _ => cases hcommit
      · exact (hinv.committed c (List.mem_filterMap.mpr ⟨t, ht, hcommit⟩)).cons _

/-- What the row of an event says about it, when workers run at the same time. -/
structure LivesOn (h : History (State W) (Action W)) (row published : OutboxEvent)
    (rounds : List Round) : Prop where
  cameIn : ∃ t ∈ h, publishedBy t = some published
  /-- The row is what the rounds make of it. -/
  leads : afterRounds published rounds = row
  /-- The rounds are the attempts that workers have committed. -/
  committed : (committedIn published rounds).map rowsOf = (commitsOf h row.id).reverse
  /-- Each of them was begun when the event was pending and due. -/
  begun : ∀ c ∈ commitsOf h row.id, HasBegun h c.1
  /-- They came one after the other. -/
  ordered : rounds.Pairwise fun first second => first.attempt.endedAt ≤ second.attempt.endedAt
  /-- The row says what has failed in them. -/
  life : Lifecycle published rounds row
  /-- It is final exactly after the attempt that ended it. -/
  ends : EndsWith (committedIn published rounds) row

/-- **Workers side by side.** In every run of any number of workers, the row of every event is
what its committed attempts, taken one after the other, have made of the published row. -/
theorem livesOn_of_run (hrun : outbox.Run h s)
    (htries : ∀ t ∈ h, ∀ event, publishedBy t = some event → 1 ≤ event.maxRetries)
    {row : OutboxEvent} (hmem : row ∈ s.events.rows) :
    ∃ published rounds, LivesOn h row published rounds := by
  have hqueue := outbox_refines.run (fun _ _ => isSerial_of_run) hrun
  obtain ⟨published, rounds, ⟨t, ht, hpublish, hfresh⟩, hlife⟩ :=
    (lives_of_run hqueue).rows row hmem
  obtain ⟨t', ht', hpublished⟩ := exists_publishedBy ht hpublish
  have hstart : Lifecycle published [] published :=
    .start hfresh.pending hfresh.count hfresh.error hfresh.processed
      (htries t' ht' published hpublished)
  refine ⟨published, rounds, ⟨t', ht', hpublished⟩, hlife.leads, ?_, ?_, hlife.ordered, ?_, ?_⟩
  · rw [hlife.attempted, attemptsOf_view]
  · exact fun c hc => (allBegun_of_run hrun).committed c (List.mem_of_mem_filter hc)
  · rw [← hlife.leads]
    exact lifecycle_of_start hstart rounds
  · rw [← hlife.leads]
    exact endsWith_of_pending hfresh.pending rounds

/-- The event for which two workers have contended has been through one round. -/
theorem contended_event_lives :
    ∃ h s row, (outbox (W := Fin 2)).Run h s ∧ row ∈ s.events.rows ∧
      (commitsOf h row.id).length = 1 ∧ ∃ published rounds, LivesOn h row published rounds := by
  obtain ⟨h, s, hrun, hP⟩ := System.exists_run_of_play (M := outbox) (s := idleWorkers)
    ⟨rfl, fun _ => rfl, fun _ => rfl⟩ contendedActions
    (fun p => decide ((∀ t ∈ p.1, ∀ event ∈ publishedBy t, 1 ≤ event.maxRetries) ∧
      ∃ row ∈ p.2.events.rows, (commitsOf p.1 row.id).length = 1)) (by decide)
  obtain ⟨htries, row, hmem, hcommits⟩ := of_decide_eq_true hP
  exact ⟨h, s, row, hrun, hmem, hcommits, livesOn_of_run hrun htries hmem⟩

end Apsis.Core.Events
