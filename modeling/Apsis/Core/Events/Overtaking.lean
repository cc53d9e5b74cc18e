/-
# Whether retries overtake a waiting event

The `SELECT` takes the earliest due event that is not locked, and a failed
attempt moves its event behind everything that was due when the attempt ended.
So an event that waits is passed by at most one attempt of any other event, if
the attempts commit before the retry that they schedule comes due. The clock is
read before the flush; an attempt whose commit takes longer than its own backoff
leaves its event due at once, and possibly ahead.
-/

import Apsis.Core.Events.Recording

namespace Apsis.Core.Events

open Apsis.Library

universe u

variable {W : Type u}

/-! ## Waiting events -/

/-- The event is due and nobody has claimed it. -/
def Waits (s : State W) (id : Uuid) : Prop :=
  s.locks id = none ∧ (s.events.find? id).any (OutboxEvent.isDue s.clock) = true

instance [DecidableEq W] (s : State W) (id : Uuid) : Decidable (Waits s id) :=
  inferInstanceAs (Decidable (_ ∧ _))

/-- The transition commits an attempt of the event. -/
def commits (id : Uuid) (t : Transition (State W) (Action W)) : Bool :=
  (commitBy t).any fun c => decide (c.1.id = id)

/-- It does so before the retry that the attempt has scheduled comes due. -/
def commitsInTime (id : Uuid) (t : Transition (State W) (Action W)) : Bool :=
  (commitBy t).any fun c => decide (c.1.id = id) && !c.2.isDue t.source.clock

theorem Waits.exists_row {s : State W} {id : Uuid} (hwaits : Waits s id) :
    ∃ event, s.events.find? id = some event ∧ event.status = .pending ∧
      event.scheduledAt ≤ s.clock := by
  obtain ⟨event, hfind, hdue⟩ := (Option.any_eq_true _ _).mp hwaits.2
  exact ⟨event, hfind, OutboxEvent.isDue_iff.mp hdue⟩

/-- In a list of candidates one comes before any occurrence of another. -/
def Precedes (first second : Uuid) (candidates : List Uuid) : Prop :=
  ∃ before after, candidates = before ++ first :: after ∧ second ∉ before

/-- After its commit an event is free and behind the waiting one: it is scheduled
later, and no scan will meet it first. -/
structure Behind (s : State W) (waiting other : Uuid) : Prop where
  free : s.locks other = none
  exists_row : ∃ event, s.events.find? other = some event
  later : ∀ event, s.events.find? other = some event → event.status = .pending →
    ∀ first, s.events.find? waiting = some first → first.scheduledAt < event.scheduledAt
  scans : ∀ worker rounds now candidates, s.phase worker = .scanning rounds now candidates →
    ∀ event, s.events.find? other = some event → event.isDue now = true →
      other ∈ candidates → Precedes waiting other candidates

variable [DecidableEq W]

/-! ## Scans -/

/-- Where the candidates of a scan come from. -/
theorem scanning_cases {s s' : State W} {a : Action W} (hstep : step s a = some s') {worker : W}
    {rounds : ℕ} {now : Time} {candidates : List Uuid}
    (hphase : s'.phase worker = .scanning rounds now candidates) :
    s.phase worker = .scanning rounds now candidates ∨
      (∃ rows, IsDueOrder now s.events rows ∧ candidates = rows.map OutboxEvent.id) ∨
      ∃ skipped, s.phase worker = .scanning rounds now (skipped :: candidates) ∧
        s.lockable now skipped = none := by
  -- A worker that does not move keeps its phase, and a phase of another kind is no scan.
  have hmove : ∀ (before : State W) (actor : W) (phase : Phase), before.phase = s.phase →
      s' = before.enter actor phase →
      (phase = .scanning rounds now candidates →
        (∃ rows, IsDueOrder now s.events rows ∧ candidates = rows.map OutboxEvent.id) ∨
        ∃ skipped, s.phase actor = .scanning rounds now (skipped :: candidates) ∧
          s.lockable now skipped = none) →
      s.phase worker = .scanning rounds now candidates ∨
      (∃ rows, IsDueOrder now s.events rows ∧ candidates = rows.map OutboxEvent.id) ∨
      ∃ skipped, s.phase worker = .scanning rounds now (skipped :: candidates) ∧
        s.lockable now skipped = none := by
    rintro before actor phase hbefore rfl hnext
    by_cases hsame : worker = actor
    · subst hsame
      rw [State.enter_phase_self] at hphase
      exact Or.inr (hnext hphase)
    · rw [State.enter_phase_of_ne _ _ _ hsame, hbefore] at hphase
      exact Or.inl hphase
  cases a with
  | tick elapsed =>
      cases hstep
      exact Or.inl hphase
  | publish id maxRetries published eventType payload aggregateId =>
      simp only [step, Option.ite_none_right_eq_some, Option.map_eq_some_iff] at hstep
      obtain ⟨-, events, -, rfl⟩ := hstep
      exact Or.inl hphase
  | start actor =>
      simp only [step, Option.ite_none_right_eq_some, Option.some.injEq] at hstep
      exact hmove s actor .polling rfl hstep.2.symm (by rintro ⟨⟩)
  | crash actor =>
      simp only [step, Option.ite_none_left_eq_some, Option.some.injEq] at hstep
      exact hmove (s.release actor) actor .stopped rfl hstep.2.symm (by rintro ⟨⟩)
  | abort actor =>
      simp only [step, Option.ite_none_left_eq_some, Option.some.injEq] at hstep
      exact hmove (s.release actor) actor .polling rfl hstep.2.symm (by rintro ⟨⟩)
  | run actor choice =>
      simp only [step] at hstep
      generalize hactor : s.phase actor = phase at hstep
      unfold runStep at hstep
      split at hstep
      case h_4 rounds' now' rows =>
          split at hstep <;> cases hstep
          next horder =>
          refine hmove s actor _ rfl rfl ?_
          rintro ⟨⟩
          exact Or.inl ⟨rows, horder, rfl⟩
      case h_6 rounds' now' id rest =>
          split at hstep
          · next hnone =>
              cases hstep
              refine hmove s actor _ rfl rfl ?_
              rintro ⟨⟩
              exact Or.inr ⟨id, hactor, hnone⟩
          · cases hstep
            exact hmove (s.lock actor id) actor _ rfl rfl (by rintro ⟨⟩)
      case h_7 rounds' event attempt =>
          split at hstep
          · split at hstep <;> cases hstep
            · exact hmove s actor _ rfl rfl (by rintro ⟨⟩)
            · exact hmove (s.release actor) actor _ rfl rfl (by rintro ⟨⟩)
          · cases hstep
      case h_8 rounds' before after =>
          cases hstep
          exact hmove (({ s with events := commitEvent after s.events } : State W).release actor)
            actor _ rfl rfl (by rintro ⟨⟩)
      case h_9 => cases hstep
      all_goals
        cases hstep
        exact hmove s actor _ rfl rfl (by rintro ⟨⟩)

/-- In a snapshot, the waiting event comes before one that is scheduled later. -/
theorem precedes_of_isDueOrder {events : EventTable} {now : Time} {rows : List OutboxEvent}
    (horder : IsDueOrder now events rows) {first second : OutboxEvent}
    (hfirst : events.find? first.id = some first) (hdue : first.isDue now = true)
    (hsecond : events.find? second.id = some second)
    (hlater : first.scheduledAt < second.scheduledAt) :
    Precedes first.id second.id (rows.map OutboxEvent.id) := by
  have hmem : first ∈ rows := by
    rw [horder.1.mem_iff, List.mem_filter]
    exact ⟨(events.find?_eq_some_iff.mp hfirst).1, hdue⟩
  obtain ⟨before, after, rfl⟩ := List.append_of_mem hmem
  refine ⟨before.map OutboxEvent.id, after.map OutboxEvent.id, by simp, fun hbefore => ?_⟩
  -- An event before it would be scheduled no later.
  obtain ⟨event, hevent, hid⟩ := List.mem_map.mp hbefore
  have hrow : event ∈ events.rows := by
    have hall := horder.1.mem_iff.mp (List.mem_append_left _ hevent)
    exact (List.mem_filter.mp hall).1
  have hsame : event = second :=
    events.eq_of_key_eq hrow (events.find?_eq_some_iff.mp hsecond).1 hid
  have hle := (List.pairwise_append.mp horder.2).2.2 event hevent first List.mem_cons_self
  rw [hsame] at hle
  exact absurd hlater (not_lt.mpr hle)

/-! ## After a commit in time -/

/-- A step that commits no attempt of the event leaves its row alone. -/
theorem find?_of_not_commits {s s' : State W} {a : Action W} (hlocks : LocksHeld s)
    (hstep : step s a = some s') {id : Uuid} (hnot : commits id ⟨s, a, s'⟩ = false)
    {event : OutboxEvent} (hfind : s.events.find? id = some event) :
    s'.events.find? id = some event := by
  cases step_effect hstep with
  | publish _ hinsert =>
      show Table.find? _ id = some event
      rw [Table.find?_of_insert? hinsert, if_neg, hfind]
      intro hid
      have hfresh := (Table.insert?_eq_some hinsert).1
      rw [hid, hfind] at hfresh
      cases hfresh
  | @commit worker rounds before after hphase =>
      obtain ⟨attempt, hhandle⟩ := hlocks.handled worker before after (by rw [hphase]; rfl)
      have hid : after.id = before.id := (handleEvent_eq_ok.mp hhandle).id_eq
      have hne : before.id ≠ id := by
        simpa [commits, commitBy, State.commit?, hphase, Phase.commit?] using hnot
      show (commitEvent after s.events).find? id = some event
      rw [find?_commitEvent, if_neg, hfind]
      rw [hid]
      exact Ne.symm hne
  | tick _ => exact hfind
  | move _ _ _ _ _ => exact hfind
  | rollback _ _ _ _ => exact hfind
  | lock _ _ => exact hfind
  | flush _ _ _ => exact hfind

omit [DecidableEq W] in
/-- A worker that commits an attempt has the lock of its event. -/
theorem exists_holder_of_commits {t : Transition (State W) (Action W)} {id : Uuid}
    (hlocks : LocksHeld t.source) (hcommits : commits id t = true) :
    ∃ worker before after, (t.source.phase worker).commit? = some (before, after) ∧
      commitBy t = some (before, after) ∧ before.id = id ∧ Holds t.source worker before := by
  obtain ⟨⟨before, after⟩, hby, hid⟩ := (Option.any_eq_true _ _).mp hcommits
  have hcommit := hby
  unfold commitBy State.commit? at hcommit
  split at hcommit
  · next worker choice haction =>
      exact ⟨worker, before, after, hcommit, hby, of_decide_eq_true hid,
        hlocks.held worker before (Phase.event?_of_commit? hcommit)⟩
  · cases hcommit

/-- A lock that nobody has is not there after a release either. -/
theorem release_locks_eq_none {s : State W} {worker : W} {id : Uuid} (hfree : s.locks id = none) :
    (s.release worker).locks id = none := by
  simp [State.release, hfree]

omit [DecidableEq W] in
theorem commits_of_commitsInTime {t : Transition (State W) (Action W)} {id : Uuid}
    (hcommits : commitsInTime id t = true) : commits id t = true := by
  obtain ⟨c, hby, hc⟩ := (Option.any_eq_true _ _).mp hcommits
  exact (Option.any_eq_true _ _).mpr ⟨c, hby, (Bool.and_eq_true_iff.mp hc).1⟩

omit [DecidableEq W] in
/-- An event that is behind is not claimed, and so it is not committed. -/
theorem Behind.not_commits {s s' : State W} {a : Action W} {waiting other : Uuid}
    (hbehind : Behind s waiting other) (hlocks : LocksHeld s) :
    commits other ⟨s, a, s'⟩ = false := by
  by_contra hcommits
  rw [Bool.not_eq_false] at hcommits
  obtain ⟨worker, before, after, -, -, rfl, hholds⟩ := exists_holder_of_commits hlocks hcommits
  have hfree := hbehind.free
  rw [hholds.lock] at hfree
  cases hfree

/-- The step lemma: as long as the first event waits, the other stays behind. -/
theorem Behind.step {s s' : State W} {a : Action W} {waiting other : Uuid}
    (hbehind : Behind s waiting other) (hlocks : LocksHeld s) (hwaits : Waits s waiting)
    (hwaits' : Waits s' waiting) (hstep : Events.step s a = some s') :
    Behind s' waiting other := by
  obtain ⟨first, hfirst, hpending, -⟩ := hwaits.exists_row
  obtain ⟨event, hevent⟩ := hbehind.exists_row
  have hfirstId : first.id = waiting := Table.key_of_find? hfirst
  have heventId : event.id = other := Table.key_of_find? hevent
  have hkeep := find?_of_not_commits hlocks hstep (hbehind.not_commits hlocks) hevent
  have hkeepFirst : s'.events.find? waiting = some first := by
    apply find?_of_not_commits hlocks hstep _ hfirst
    by_contra hcommits
    rw [Bool.not_eq_false] at hcommits
    obtain ⟨worker, before, -, -, -, rfl, hholds⟩ := exists_holder_of_commits hlocks hcommits
    have hfree := hwaits.1
    rw [hholds.lock] at hfree
    cases hfree
  -- Wherever a scan meets the other event, it has met the waiting one before.
  have hmeets : ∀ worker rounds now rest, s.phase worker = .scanning rounds now (other :: rest) →
      s.lockable now other = none := by
    intro worker rounds now rest hphase
    cases hlock : s.lockable now other with
    | none => rfl
    | some found =>
        obtain ⟨-, hfound, hstatus, hsched⟩ := State.lockable_eq_some.mp hlock
        obtain ⟨before, after, hsplit, hnotMem⟩ := hbehind.scans worker rounds now _ hphase found
          hfound (OutboxEvent.isDue_iff.mpr ⟨hstatus, hsched⟩) List.mem_cons_self
        cases before with
        | nil =>
            cases hsplit
            have hlater := hbehind.later found hfound hstatus found hfound
            exact absurd hlater (lt_irrefl _)
        | cons head before =>
            cases hsplit
            exact absurd List.mem_cons_self hnotMem
  constructor
  · -- Nobody has locked it.
    cases step_effect hstep with
    | @lock worker rounds now id candidates found hphase hlock =>
        show (s.lock worker id).locks other = none
        rw [State.lock_locks_of_ne, hbehind.free]
        rintro rfl
        rw [hmeets worker rounds now candidates hphase] at hlock
        cases hlock
    | rollback _ _ _ _ =>
        rw [State.enter_locks]
        exact release_locks_eq_none hbehind.free
    | commit _ => exact release_locks_eq_none hbehind.free
    | tick _ => exact hbehind.free
    | publish _ _ => exact hbehind.free
    | move _ _ _ _ _ => exact hbehind.free
    | flush _ _ _ => exact hbehind.free
  · exact ⟨event, hkeep⟩
  · intro found hfound hstatus first' hfirst'
    rw [hkeep] at hfound
    cases hfound
    rw [hkeepFirst] at hfirst'
    cases hfirst'
    exact hbehind.later event hevent hstatus first hfirst
  · intro worker rounds now candidates hphase found hfound hdue hmem
    rw [hkeep] at hfound
    cases hfound
    have hstatus := (OutboxEvent.isDue_iff.mp hdue).1
    have hlater := hbehind.later event hevent hstatus first hfirst
    rcases scanning_cases hstep hphase with hbefore | ⟨rows, horder, rfl⟩ |
      ⟨skipped, hbefore, hnone⟩
    · exact hbehind.scans worker rounds now candidates hbefore event hevent hdue hmem
    · have hnow := hlater.le.trans (OutboxEvent.isDue_iff.mp hdue).2
      rw [← hfirstId, ← heventId]
      apply precedes_of_isDueOrder horder _ _ _ hlater
      · rw [hfirstId, hfirst]
      · exact OutboxEvent.isDue_iff.mpr ⟨hpending, hnow⟩
      · rw [heventId, hevent]
    · obtain ⟨before, after, hsplit, hnotMem⟩ := hbehind.scans worker rounds now _ hbefore event
        hevent hdue (List.mem_cons_of_mem skipped hmem)
      cases before with
      | nil =>
          -- The scan has come to the waiting event, which is free to be claimed.
          cases hsplit
          have hnow := hlater.le.trans (OutboxEvent.isDue_iff.mp hdue).2
          have hclaim : s.lockable now waiting = some first :=
            State.lockable_eq_some.mpr ⟨hwaits.1, hfirst, hpending, hnow⟩
          rw [hclaim] at hnone
          cases hnone
      | cons head before =>
          cases hsplit
          exact ⟨before, after, rfl, fun hbefore => hnotMem (List.mem_cons_of_mem _ hbefore)⟩

/-- The commit of an attempt in time leaves its event behind. -/
theorem behind_of_commitsInTime {s s' : State W} {a : Action W} {waiting other : Uuid}
    (hlocks : LocksHeld s) (hwaits : Waits s waiting) (hstep : Events.step s a = some s')
    (hcommits : commitsInTime other ⟨s, a, s'⟩ = true) : Behind s' waiting other := by
  obtain ⟨⟨before, after⟩, hby, hc⟩ := (Option.any_eq_true _ _).mp hcommits
  rw [Bool.and_eq_true, decide_eq_true_eq, Bool.not_eq_true'] at hc
  obtain ⟨rfl, hnotDue⟩ := hc
  obtain ⟨first, hfirst, -, hdue⟩ := hwaits.exists_row
  cases step_effect hstep with
  | @commit worker rounds before' after' hphase =>
      have hsame : (before', after') = (before, after) := by
        simpa [commitBy, State.commit?, hphase, Phase.commit?] using hby
      cases hsame
      have hown : Holds s worker before := hlocks.held worker before (by rw [hphase]; rfl)
      obtain ⟨attempt, hhandle⟩ := hlocks.handled worker before after (by rw [hphase]; rfl)
      have hid : after.id = before.id := (handleEvent_eq_ok.mp hhandle).id_eq
      have hne : waiting ≠ before.id := by
        rintro rfl
        have hfree := hwaits.1
        rw [hown.lock] at hfree
        cases hfree
      have hrow : (commitEvent after s.events).find? before.id = some after := by
        rw [find?_commitEvent, if_pos hid.symm, hown.row, Option.map_some]
      constructor
      · show (if s.locks before.id = some worker then none else s.locks before.id) = none
        rw [if_pos hown.lock]
      · exact ⟨after, hrow⟩
      · intro event hevent hstatus first' hfirst'
        change (commitEvent after s.events).find? before.id = some event at hevent
        rw [hrow] at hevent
        cases hevent
        change (commitEvent after s.events).find? waiting = some first' at hfirst'
        rw [find?_commitEvent, hid, if_neg hne, hfirst] at hfirst'
        cases hfirst'
        have hlate : ¬ after.scheduledAt ≤ s.clock := by
          intro hle
          rw [OutboxEvent.isDue_iff.mpr ⟨hstatus, hle⟩] at hnotDue
          cases hnotDue
        exact hdue.trans_lt (not_le.mp hlate)
      · -- No scan has a reading at which the event is due again.
        intro scanner rounds' now candidates hscan event hevent heventDue _
        change (commitEvent after s.events).find? before.id = some event at hevent
        rw [hrow] at hevent
        cases hevent
        have hreading : now ≤ s.clock := by
          apply hlocks.reading scanner
          by_cases hsame : scanner = worker
          · rw [hsame, State.enter_phase_self] at hscan
            cases hscan
          · rw [State.enter_phase_of_ne _ _ _ hsame] at hscan
            have hbefore : s.phase scanner = .scanning rounds' now candidates := hscan
            rw [hbefore]
            rfl
        obtain ⟨hstatus, hsched⟩ := OutboxEvent.isDue_iff.mp heventDue
        rw [OutboxEvent.isDue_iff.mpr ⟨hstatus, hsched.trans hreading⟩] at hnotDue
        cases hnotDue
  | tick _ => cases hby
  | publish _ _ => cases hby
  | move _ _ _ hnone _ => cases hnone.symm.trans hby
  | rollback _ _ hnone _ => cases hnone.symm.trans hby
  | lock hphase _ => simp [commitBy, State.commit?, hphase, Phase.commit?] at hby
  | flush hphase _ _ => simp [commitBy, State.commit?, hphase, Phase.commit?] at hby

/-- **Retries do not overtake.** While an event waits, every other event commits at
most one attempt in time. -/
theorem countP_commitsInTime_le_one {late early : History (State W) (Action W)} {s : State W}
    (hrun : (outbox (W := W)).Run (late ++ early) s) {waiting : Uuid}
    (hwaits : ∀ t ∈ late, Waits t.source waiting ∧ Waits t.target waiting) (other : Uuid) :
    late.countP (commitsInTime other) ≤ 1 := by
  suffices hall : late.countP (commitsInTime other) = 0 ∨
      late.countP (commitsInTime other) = 1 ∧ Behind s waiting other by
    rcases hall with hzero | ⟨hone, -⟩
    · rw [hzero]
      exact Nat.zero_le 1
    · exact hone.le
  induction late generalizing s with
  | nil => exact Or.inl rfl
  | cons t late ih =>
      cases hrun with
      | @extend _ before _ a prior hstep =>
          have hlocks := locksHeld_of_run prior
          obtain ⟨hsource, htarget⟩ := hwaits _ List.mem_cons_self
          rw [List.countP_cons]
          rcases ih prior fun t ht => hwaits t (List.mem_cons_of_mem _ ht) with hzero |
            ⟨hone, hbehind⟩
          · cases hcommits : commitsInTime other ⟨before, a, s⟩ with
            | false => exact Or.inl (by simp [hzero])
            | true =>
                exact Or.inr ⟨by simp [hzero],
                  behind_of_commitsInTime hlocks hsource hstep hcommits⟩
          · have hnot : commitsInTime other ⟨before, a, s⟩ = false := by
              by_contra hcommits
              rw [Bool.not_eq_false] at hcommits
              have hnone : commits other ⟨before, a, s⟩ = false := hbehind.not_commits hlocks
              rw [commits_of_commitsInTime hcommits] at hnone
              cases hnone
            exact Or.inr ⟨by simp [hone, hnot], hbehind.step hlocks hsource htarget hstep⟩

/-! ## Both kinds of commits -/

/-- A failing event is attempted at time 0. The other one is published at 3 s and
due at once. -/
def waitingActions (actions : List (Action (Fin 2))) : List (Action (Fin 2)) :=
  let failing := publish 3 8 0 "tle.refreshed".toList [] none
  [.publish 3 8 0 "tle.refreshed".toList [] none] ++ lockActions 0 failing ++ actions

/-- An attempt in which the only handler raises, ended at this time. -/
def raisingAttemptAt (time : Time) : Attempt where
  calls := [⟨⟨0, "recompute_passes".toList⟩, .raises "ValueError".toList⟩]
  notedAt := time
  endedAt := time
  jitter := 0
  jitter_le := noJitter_le

/-- The row that an attempt leaves. -/
def attempted (event : OutboxEvent) (attempt : Attempt) : OutboxEvent :=
  (handleEvent event attempt).toOption.getD event

/-- The first attempt is flushed at 0 and committed at 3 s, when its retry has been
due for a second. The same worker commits the second attempt. -/
def lateActions : List (Action (Fin 2)) :=
  let failing := publish 3 8 0 "tle.refreshed".toList [] none
  waitingActions
    [.run 0 (.attempt (raisingAttemptAt 0)), .tick 3000000,
      .publish 4 8 3000000 "tle.refreshed".toList [] none, .run 0 .proceed, .run 0 .proceed,
      .run 0 (.order [attempted failing (raisingAttemptAt 0),
        publish 4 8 3000000 "tle.refreshed".toList [] none]), .run 0 .proceed,
      .run 0 (.attempt (raisingAttemptAt 3000000)), .run 0 .proceed]

/-- The first attempt is flushed and committed at 3 s. -/
def promptActions : List (Action (Fin 2)) :=
  waitingActions
    [.tick 3000000, .publish 4 8 3000000 "tle.refreshed".toList [] none,
      .run 0 (.attempt (raisingAttemptAt 3000000)), .run 0 .proceed]

/-- The other event waits from its publication to the end, and meanwhile two
attempts of the failing one are committed. -/
theorem late_commits_overtake :
    ∃ late early s, (outbox (W := Fin 2)).Run (late ++ early) s ∧
      (∀ t ∈ late, Waits t.source 4 ∧ Waits t.target 4) ∧ late.countP (commits 3) = 2 := by
  obtain ⟨h, s, hrun, hP⟩ := System.exists_run_of_play (M := outbox) (s := idleWorkers)
    ⟨rfl, fun _ => rfl, fun _ => rfl⟩ lateActions
    (fun p => decide ((∀ t ∈ p.1.take 6, Waits t.source 4 ∧ Waits t.target 4) ∧
      (p.1.take 6).countP (commits 3) = 2)) (by decide +kernel)
  obtain ⟨hwaits, hcount⟩ := of_decide_eq_true hP
  refine ⟨h.take 6, h.drop 6, s, ?_, hwaits, hcount⟩
  rw [List.take_append_drop]
  exact hrun

/-- The other event waits, and one attempt of the failing one is committed. -/
theorem prompt_commit_overtakes_once :
    ∃ late early s, (outbox (W := Fin 2)).Run (late ++ early) s ∧
      late.countP (commitsInTime 3) ≤ 1 ∧ late.countP (commits 3) = 1 := by
  obtain ⟨h, s, hrun, hP⟩ := System.exists_run_of_play (M := outbox) (s := idleWorkers)
    ⟨rfl, fun _ => rfl, fun _ => rfl⟩ promptActions
    (fun p => decide ((∀ t ∈ p.1.take 2, Waits t.source 4 ∧ Waits t.target 4) ∧
      (p.1.take 2).countP (commits 3) = 1)) (by decide +kernel)
  obtain ⟨hwaits, hcount⟩ := of_decide_eq_true hP
  rw [← List.take_append_drop 2 h] at hrun
  exact ⟨h.take 2, h.drop 2, s, hrun, countP_commitsInTime_le_one hrun hwaits 3, hcount⟩

end Apsis.Core.Events
