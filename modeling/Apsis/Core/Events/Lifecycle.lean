/-
# The life of an outbox event

A row is `PENDING` until an attempt commits in which nothing failed, or until
`max_retries` attempts have failed. What the row says about its own past (the
counter, the last error, the next schedule, the entries of the handlers) is
compared here with the attempts that were in fact committed. The handlers may be
others in every attempt.
-/

import Mathlib.Data.List.Induction
import Apsis.Core.Events.Completion
import Apsis.Core.Events.Recording

namespace Apsis.Core.Events

open Apsis.Library

/-! ## The committed attempts -/

/-- The attempt of a round, with the row it began on, if it commits. -/
def committedBy (event : OutboxEvent) (round : Round) : List (OutboxEvent × Attempt) :=
  if event.status = .pending ∧ round.commits then
    match handleEvent event round.attempt with
    | .ok _ => [(event, round.attempt)]
    | .error _ => []
  else []

/-- The committed attempts of some rounds, in order. -/
def committedIn : OutboxEvent → List Round → List (OutboxEvent × Attempt)
  | _, [] => []
  | event, round :: rounds => committedBy event round ++ committedIn (takeRound event round) rounds

/-- A handler that the attempt invokes raises. -/
def SomeCallFails (event : OutboxEvent) (attempt : Attempt) : Prop :=
  ∃ call ∈ attempt.calls,
    completed event.handlerState call.handler.name = false ∧ call.outcome ≠ .returns

instance (event : OutboxEvent) (attempt : Attempt) : Decidable (SomeCallFails event attempt) :=
  inferInstanceAs (Decidable (∃ call ∈ attempt.calls, _))

/-- The handlers that an attempt invokes and that fail, with their tracebacks, in order. -/
def failures (event : OutboxEvent) (attempt : Attempt) : List (HandlerFunc × Text) :=
  attempt.calls.filterMap fun call =>
    if completed event.handlerState call.handler.name then none
    else
      match call.outcome with
      | .returns => none
      | .raises traceback => some (call.handler, traceback)

/-- The names of the handlers that failed, with their tracebacks, in one text. -/
def failureText (event : OutboxEvent) (attempt : Attempt) : Text :=
  List.intercalate "\n---\n".toList ((failures event attempt).map fun failure =>
    "[".toList ++ failure.1.name ++ "] ".toList ++ failure.2)

/-- The committed attempts in which an invoked handler failed, in order. -/
def failuresIn (event : OutboxEvent) (rounds : List Round) : List (OutboxEvent × Attempt) :=
  (committedIn event rounds).filter fun c => decide (SomeCallFails c.1 c.2)

theorem allSucceeded_eq_false {event : OutboxEvent} {attempt : Attempt} :
    (dispatchResult event attempt).allSucceeded = false ↔ SomeCallFails event attempt := by
  rw [← Bool.not_eq_true, allSucceeded_dispatch]
  simp only [SomeCallFails, not_forall, not_or, Bool.not_eq_true, exists_prop]

/-- The failed results of a dispatch are the failures. -/
theorem map_summary_failed (completed : Text → Bool) (calls : List Call) :
    ((dispatch completed calls).results.filter fun r => !r.success).map HandlerResult.summary =
      (calls.filterMap fun call =>
        if completed call.handler.name then none
        else
          match call.outcome with
          | .returns => none
          | .raises traceback => some (call.handler, traceback)).map fun failure =>
        "[".toList ++ failure.1.name ++ "] ".toList ++ failure.2 := by
  induction calls with
  | nil => rfl
  | cons call calls ih =>
      simp only [dispatch] at ih ⊢
      by_cases hdone : completed call.handler.name
      · simpa [Call.result, hdone] using ih
      · cases houtcome : call.outcome with
        | returns => simpa [Call.result, hdone, houtcome] using ih
        | raises traceback =>
            simpa [Call.result, hdone, houtcome, HandlerResult.summary] using ih

theorem errorsSummary_eq (event : OutboxEvent) (attempt : Attempt) :
    (dispatchResult event attempt).errorsSummary = failureText event attempt :=
  congrArg (List.intercalate "\n---\n".toList) (map_summary_failed _ _)

theorem afterRounds_append (event : OutboxEvent) (earlier later : List Round) :
    afterRounds event (earlier ++ later) = afterRounds (afterRounds event earlier) later :=
  List.foldl_append

theorem committedIn_append (event : OutboxEvent) (earlier later : List Round) :
    committedIn event (earlier ++ later) =
      committedIn event earlier ++ committedIn (afterRounds event earlier) later := by
  induction earlier generalizing event with
  | nil => rfl
  | cons round earlier ih =>
      show committedBy event round ++ committedIn (takeRound event round) (earlier ++ later) = _
      rw [ih, ← List.append_assoc]
      rfl

theorem committedIn_concat (event : OutboxEvent) (rounds : List Round) (round : Round) :
    committedIn event (rounds ++ [round]) =
      committedIn event rounds ++ committedBy (afterRounds event rounds) round := by
  rw [committedIn_append]
  exact congrArg _ (List.append_nil _)

/-- The effect of a round: it leaves the row as it is, or commits an attempt. -/
theorem takeRound_effect (event : OutboxEvent) (round : Round) :
    (committedBy event round = [] ∧ takeRound event round = event) ∨
      (committedBy event round = [(event, round.attempt)] ∧ event.status = .pending ∧
        Handled event round.attempt (takeRound event round)) := by
  unfold committedBy takeRound
  split
  · next hpending =>
      cases hhandle : handleEvent event round.attempt with
      | ok event' => exact Or.inr ⟨rfl, hpending.1, handleEvent_eq_ok.mp hhandle⟩
      | error error => exact Or.inl ⟨rfl, rfl⟩
  · exact Or.inl ⟨rfl, rfl⟩

/-! ## The three states -/

/-- The counter and `processed_at` fit the status. -/
def IsConsistent (event : OutboxEvent) : Prop :=
  match event.status with
  | .pending => event.retryCount < event.maxRetries ∧ event.processedAt = none
  | .processed => event.processedAt.isSome ∧ event.retryCount < event.maxRetries
  | .failed => event.retryCount = event.maxRetries ∧ event.processedAt = none

/-- What a row says about the attempts since it was published. -/
structure Lifecycle (published : OutboxEvent) (rounds : List Round) (event : OutboxEvent) :
    Prop where
  /-- The row is in exactly one of the three states. -/
  state : IsConsistent event
  /-- The counter counts the failed attempts. -/
  count : event.retryCount = (failuresIn published rounds).length
  /-- The error tells what failed in the latest failed attempt. -/
  lastError : event.lastError = (failuresIn published rounds).getLast?.map fun c =>
    failureText c.1 c.2
  /-- A pending row is scheduled after its latest failed attempt. -/
  latest : event.status = .pending → ∀ c, (failuresIn published rounds).getLast? = some c →
    c.2.endedAt < event.scheduledAt
  /-- It is scheduled after every failed attempt if the clock was not set back. -/
  every : event.status = .pending →
    (rounds.Pairwise fun first second => first.attempt.endedAt ≤ second.attempt.endedAt) →
    ∀ c ∈ failuresIn published rounds, c.2.endedAt < event.scheduledAt
  /-- A final row stays as it is. -/
  final : event.status ≠ .pending → ∀ more, afterRounds event more = event

/-- An attempt comes from one of the rounds. -/
theorem exists_round_of_mem_committedIn {event : OutboxEvent} {rounds : List Round}
    {c : OutboxEvent × Attempt} (hmem : c ∈ committedIn event rounds) :
    ∃ round ∈ rounds, round.attempt = c.2 := by
  induction rounds generalizing event with
  | nil => cases hmem
  | cons round rounds ih =>
      rcases List.mem_append.mp hmem with hround | hrest
      · rcases takeRound_effect event round with ⟨hnone, -⟩ | ⟨hsome, -, -⟩
        · rw [hnone] at hround
          cases hround
        · rw [hsome, List.mem_singleton] at hround
          subst hround
          exact ⟨round, List.mem_cons_self, rfl⟩
      · obtain ⟨round', hmem', hattempt⟩ := ih hrest
        exact ⟨round', List.mem_cons_of_mem round hmem', hattempt⟩

/-- The failed attempts after one more round. -/
theorem failuresIn_concat (event : OutboxEvent) (rounds : List Round) (round : Round) :
    failuresIn event (rounds ++ [round]) = failuresIn event rounds ++
      (committedBy (afterRounds event rounds) round).filter
        fun c => decide (SomeCallFails c.1 c.2) := by
  rw [failuresIn, committedIn_concat, List.filter_append]
  rfl

/-- A published event without attempts. -/
theorem Lifecycle.start {published : OutboxEvent} (hpending : published.status = .pending)
    (hcount : published.retryCount = 0) (herror : published.lastError = none)
    (hprocessed : published.processedAt = none) (htries : 1 ≤ published.maxRetries) :
    Lifecycle published [] published where
  state := by
    unfold IsConsistent
    rw [hpending, hcount]
    exact ⟨by lia, hprocessed⟩
  count := hcount
  lastError := herror
  latest _ c hlast := by cases hlast
  every _ _ c hmem := by cases hmem
  final hfinal := absurd hpending hfinal

/-- A round that commits nothing. -/
theorem Lifecycle.skip {published event : OutboxEvent} {rounds : List Round} {round : Round}
    (hlife : Lifecycle published rounds event)
    (hsame : failuresIn published (rounds ++ [round]) = failuresIn published rounds) :
    Lifecycle published (rounds ++ [round]) event where
  state := hlife.state
  count := by rw [hsame, hlife.count]
  lastError := by rw [hsame, hlife.lastError]
  latest hpending := by
    rw [hsame]
    exact hlife.latest hpending
  every hpending hordered := by
    rw [hsame]
    exact hlife.every hpending (List.pairwise_append.mp hordered).1
  final := hlife.final

/-- A committed attempt in which an invoked handler failed. -/
theorem Lifecycle.fail {published event event' : OutboxEvent} {rounds : List Round}
    {round : Round} (hlife : Lifecycle published rounds event)
    (hmore : failuresIn published (rounds ++ [round]) =
      failuresIn published rounds ++ [(event, round.attempt)])
    (hstate : IsConsistent event') (hcount : event'.retryCount = event.retryCount + 1)
    (herror : event'.lastError = some (dispatchResult event round.attempt).errorsSummary)
    (hlater : event'.status = .pending → round.attempt.endedAt < event'.scheduledAt) :
    Lifecycle published (rounds ++ [round]) event' where
  state := hstate
  count := by rw [hmore, List.length_append, hcount, hlife.count, List.length_singleton]
  lastError := by
    rw [hmore, List.getLast?_concat, herror, errorsSummary_eq]
    rfl
  latest hpending c hlast := by
    rw [hmore, List.getLast?_concat] at hlast
    cases hlast
    exact hlater hpending
  every hpending hordered c hmem := by
    rw [hmore, List.mem_append, List.mem_singleton] at hmem
    rcases hmem with hbefore | rfl
    · -- The clock was not set back since that attempt.
      obtain ⟨round', hround', hattempt⟩ :=
        exists_round_of_mem_committedIn (List.mem_of_mem_filter hbefore)
      have hle := (List.pairwise_append.mp hordered).2.2 round' hround' round
        (List.mem_singleton.mpr rfl)
      rw [hattempt] at hle
      exact hle.trans_lt (hlater hpending)
    · exact hlater hpending
  final hfinal := afterRounds_of_not_pending hfinal

/-- The step lemma: one more round. -/
theorem Lifecycle.takeRound {published event : OutboxEvent} {rounds : List Round}
    (hlife : Lifecycle published rounds event) (hafter : afterRounds published rounds = event)
    (round : Round) :
    Lifecycle published (rounds ++ [round]) (Events.takeRound event round) := by
  have hconcat := failuresIn_concat published rounds round
  rw [hafter] at hconcat
  rcases takeRound_effect event round with ⟨hnone, hsame⟩ | ⟨hsome, hpending, hhandled⟩
  · rw [hsame]
    apply hlife.skip
    rw [hconcat, hnone, List.filter_nil, List.append_nil]
  obtain ⟨hcount, hnull⟩ : event.retryCount < event.maxRetries ∧ event.processedAt = none := by
    have hstate := hlife.state
    unfold IsConsistent at hstate
    rw [hpending] at hstate
    exact hstate
  rw [hsome] at hconcat
  generalize Events.takeRound event round = event' at hhandled
  cases hhandled with
  | processed hall _ =>
      have hnot : ¬ SomeCallFails event round.attempt := by
        rw [← allSucceeded_eq_false, hall]
        exact Bool.noConfusion
      have hsame : failuresIn published (rounds ++ [round]) = failuresIn published rounds := by
        rw [hconcat, List.filter_cons_of_neg (by simpa using hnot), List.filter_nil,
          List.append_nil]
      refine
        { state := ⟨rfl, hcount⟩
          count := by rw [hsame, hlife.count]
          lastError := by rw [hsame, hlife.lastError]
          latest := ?_
          every := ?_
          final := fun hfinal => afterRounds_of_not_pending hfinal }
      · intro hstatus
        cases hstatus
      · intro hstatus
        cases hstatus
  | failed hall hlast _ =>
      rw [List.filter_cons_of_pos (by simpa using allSucceeded_eq_false.mp hall)] at hconcat
      refine hlife.fail hconcat ⟨?_, hnull⟩ rfl rfl ?_
      · -- The attempt was the last one, and there was one left.
        show ((event.retryCount + 1 : ℕ) : ℤ) = event.maxRetries
        lia
      · intro hstatus
        cases hstatus
  | retry delay hall hnotLast hdelay _ =>
      rw [List.filter_cons_of_pos (by simpa using allSucceeded_eq_false.mp hall)] at hconcat
      refine hlife.fail hconcat ?_ rfl rfl ?_
      · simp only [IsConsistent, hpending]
        exact ⟨by push_cast; exact hnotLast, hnull⟩
      · intro _
        have hpos := backoff_pos hdelay
        show round.attempt.endedAt < round.attempt.endedAt + delay
        lia

/-- The induction over the rounds. -/
theorem lifecycle_of_start {published : OutboxEvent} (hstart : Lifecycle published [] published)
    (rounds : List Round) : Lifecycle published rounds (afterRounds published rounds) := by
  induction rounds using List.reverseRecOn with
  | nil => exact hstart
  | append_singleton rounds round ih =>
      rw [afterRounds_append]
      exact ih.takeRound rfl round

/-- The attempt that is committed last decides the status. -/
structure EndsWith (committed : List (OutboxEvent × Attempt)) (event : OutboxEvent) : Prop where
  /-- Processed is what the last attempt leaves if nothing failed in it. -/
  processed : event.status = .processed ↔
    ∃ c, committed.getLast? = some c ∧ ¬ SomeCallFails c.1 c.2
  /-- Failed is what it leaves if something did, and no other attempt was left. -/
  failed : event.status = .failed ↔
    ∃ c, committed.getLast? = some c ∧ SomeCallFails c.1 c.2 ∧ c.1.maxRetries ≤ c.1.retryCount + 1

theorem endsWith_of_pending {published : OutboxEvent} (hpending : published.status = .pending)
    (rounds : List Round) :
    EndsWith (committedIn published rounds) (afterRounds published rounds) := by
  induction rounds using List.reverseRecOn with
  | nil => constructor <;> simp [committedIn, hpending]
  | append_singleton rounds round ih =>
      rw [committedIn_concat, afterRounds_append]
      show EndsWith _ (takeRound (afterRounds published rounds) round)
      rcases takeRound_effect (afterRounds published rounds) round with
        ⟨hnone, hsame⟩ | ⟨hsome, hbefore, hhandled⟩
      · rw [hnone, hsame, List.append_nil]
        exact ih
      · rw [hsome]
        generalize takeRound (afterRounds published rounds) round = event' at hhandled
        have hfails := @allSucceeded_eq_false (afterRounds published rounds) round.attempt
        cases hhandled with
        | processed hall _ =>
            rw [hall] at hfails
            constructor <;> simp [← hfails]
        | failed hall hlast _ =>
            rw [hall] at hfails
            constructor <;> simp [← hfails, hlast]
        | retry _ hall hnotLast _ _ =>
            rw [hall] at hfails
            constructor <;> simp [← hfails, hnotLast, hbefore]

/-- **The life of an event.** After any rounds of attempts, with any handlers in
each of them, a published event is in one of its three states, and the row says
what the attempts have been. -/
theorem lifecycle_of_publish (id : Uuid) (maxRetries : ℤ) (now : Time) (eventType : Text)
    (payload : List (Text × PayloadValue)) (aggregateId : Option Uuid) (htries : 1 ≤ maxRetries)
    (rounds : List Round) :
    Lifecycle (publish id maxRetries now eventType payload aggregateId) rounds
      (afterRounds (publish id maxRetries now eventType payload aggregateId) rounds) :=
  lifecycle_of_start (.start rfl rfl rfl rfl htries) rounds

/-- A handler raises, then it is no longer registered, and the event ends up
processed with one failed attempt on its record. -/
def unregisteredRounds : List Round :=
  [⟨raisingAttempt, true⟩, ⟨attemptOf [], false⟩, ⟨attemptOf [], true⟩]

theorem unregistered_lifecycle :
    Lifecycle (publish 3 8 0 "tle.refreshed".toList [] none) unregisteredRounds
      (afterRounds (publish 3 8 0 "tle.refreshed".toList [] none) unregisteredRounds) ∧
    (afterRounds (publish 3 8 0 "tle.refreshed".toList [] none) unregisteredRounds).status =
      .processed ∧
    (afterRounds (publish 3 8 0 "tle.refreshed".toList [] none) unregisteredRounds).retryCount =
      1 :=
  ⟨lifecycle_of_publish 3 8 0 _ [] none (by decide) unregisteredRounds, by decide, by decide⟩

/-! ## Handlers that have succeeded -/

/-- The functions that an attempt invokes, in order: those for which the dispatch has a result
that does not say that the handler was skipped. -/
def invocations (event : OutboxEvent) (attempt : Attempt) : List HandlerFunc :=
  ((attempt.calls.zip (dispatchResult event attempt).results).filter fun c => !c.2.skipped).map
    fun c => c.1.handler

/-- The functions that are invoked in a round, which has an attempt if the event
is pending. -/
def invokedIn (event : OutboxEvent) (round : Round) : List HandlerFunc :=
  if event.status = .pending then invocations event round.attempt else []

/-- Success is remembered, and what has not succeeded is tried again. -/
structure IsIdempotent (event : OutboxEvent) (rounds : List Round) : Prop where
  /-- An entry `"ok"` is neither overwritten nor removed. -/
  kept : ∀ earlier middle later, rounds = earlier ++ middle ++ later → ∀ name entry,
    (afterRounds event earlier).handlerState.lookup name = some entry → entry.status = .ok →
    (afterRounds event (earlier ++ middle)).handlerState.lookup name = some entry
  /-- A handler that has an entry `"ok"` is not invoked in any later round. -/
  never : ∀ earlier middle round later, rounds = earlier ++ middle ++ round :: later →
    ∀ func, completed (afterRounds event earlier).handlerState func.name = true →
    func ∉ invokedIn (afterRounds event (earlier ++ middle)) round
  /-- A handler without one is invoked exactly once in each attempt that includes
  it. -/
  once : ∀ earlier round later, rounds = earlier ++ round :: later →
    (afterRounds event earlier).status = .pending → ∀ call ∈ round.attempt.calls,
    completed (afterRounds event earlier).handlerState call.handler.name = false →
    (invokedIn (afterRounds event earlier) round).count call.handler = 1

/-- The handlers that are not completed are invoked, in the order of registration. -/
theorem invocations_eq_filter (event : OutboxEvent) (attempt : Attempt) :
    invocations event attempt = (attempt.calls.map Call.handler).filter fun func =>
      !completed event.handlerState func.name := by
  simp only [invocations, dispatchResult, dispatch]
  induction attempt.calls with
  | nil => rfl
  | cons call calls ih =>
      by_cases hdone : completed event.handlerState call.handler.name <;>
        simpa [List.filter_cons, hdone] using ih

theorem mem_invocations {event : OutboxEvent} {attempt : Attempt} {func : HandlerFunc} :
    func ∈ invocations event attempt ↔
      completed event.handlerState func.name = false ∧
        ∃ call ∈ attempt.calls, call.handler = func := by
  rw [invocations_eq_filter, List.mem_filter, List.mem_map, Bool.not_eq_true', and_comm]

/-- Distinct names make every handler occur at most once among the invoked. -/
theorem nodup_invocations {event : OutboxEvent} {attempt : Attempt}
    (hnames : (attempt.calls.map fun call => call.handler.name).Nodup) :
    (invocations event attempt).Nodup := by
  have hhandlers : (attempt.calls.map Call.handler).Nodup := by
    apply List.Nodup.of_map HandlerFunc.name
    rw [List.map_map]
    exact hnames
  rw [invocations_eq_filter]
  exact hhandlers.sublist List.filter_sublist

/-- The name of an entry `"ok"` is completed. -/
theorem completed_of_lookup {state : HandlerState} {name : Text} {entry : HandlerEntry}
    (hlookup : state.lookup name = some entry) (hok : entry.status = .ok) :
    completed state name = true := by
  simp [completed, hlookup, hok]

theorem exists_lookup_of_completed {state : HandlerState} {name : Text}
    (h : completed state name = true) :
    ∃ entry, state.lookup name = some entry ∧ entry.status = .ok := by
  simpa [completed, Option.any_eq_true] using h

/-- The entry of a completed name is left as it is by an attempt. -/
theorem lookup_newState {event : OutboxEvent} {attempt : Attempt} {name : Text}
    (hdone : completed event.handlerState name = true) :
    (newState event attempt).lookup name = event.handlerState.lookup name := by
  rw [lookup_recordResults]
  cases hlast : lastResult (dispatchResult event attempt).results name with
  | none => rfl
  | some r =>
      -- Every result with that name was skipped.
      obtain ⟨hmem, hskipped, hname⟩ := lastResult_eq_some hlast
      obtain ⟨call, -, rfl⟩ := List.mem_map.mp hmem
      rw [Call.result_handlerName] at hname
      rw [Call.result_skipped, hname, hdone] at hskipped
      cases hskipped

/-- What is completed stays completed. -/
theorem Handled.completed_of_completed {event event' : OutboxEvent} {attempt : Attempt}
    {name : Text} (hhandled : Handled event attempt event')
    (hdone : completed event.handlerState name = true) :
    completed event'.handlerState name = true := by
  have hnew : completed (newState event attempt) name = true := by
    unfold completed
    rw [lookup_newState hdone]
    exact hdone
  cases hhandled with
  | processed _ _ => exact hnew
  | failed _ _ _ => exact hnew
  | retry _ _ _ _ _ => exact hnew

/-- The step lemma: a round keeps every entry `"ok"`. -/
theorem lookup_takeRound {event : OutboxEvent} {name : Text} {entry : HandlerEntry}
    (hlookup : event.handlerState.lookup name = some entry) (hok : entry.status = .ok)
    (round : Round) : (takeRound event round).handlerState.lookup name = some entry := by
  rcases takeRound_cases event round with hsame | ⟨-, hhandled⟩
  · rw [hsame, hlookup]
  · have hnew : (newState event round.attempt).lookup name = some entry := by
      rw [lookup_newState (completed_of_lookup hlookup hok), hlookup]
    generalize takeRound event round = event' at hhandled
    cases hhandled with
    | processed _ _ => exact hnew
    | failed _ _ _ => exact hnew
    | retry _ _ _ _ _ => exact hnew

/-- The induction over the rounds. -/
theorem lookup_afterRounds {event : OutboxEvent} {name : Text} {entry : HandlerEntry}
    (hlookup : event.handlerState.lookup name = some entry) (hok : entry.status = .ok)
    (rounds : List Round) :
    (afterRounds event rounds).handlerState.lookup name = some entry := by
  induction rounds generalizing event with
  | nil => exact hlookup
  | cons round rounds ih => exact ih (lookup_takeRound hlookup hok round)

/-- **Idempotence for each handler.** Over any rounds of attempts of any event, as
long as the names of the handlers of an attempt are distinct. -/
theorem isIdempotent_of_nodup (event : OutboxEvent) {rounds : List Round}
    (hnames : ∀ round ∈ rounds,
      (round.attempt.calls.map fun call => call.handler.name).Nodup) :
    IsIdempotent event rounds where
  kept earlier middle _ _ name entry hlookup hok := by
    rw [afterRounds_append]
    exact lookup_afterRounds hlookup hok middle
  never earlier middle round _ _ func hdone hinvoked := by
    obtain ⟨entry, hlookup, hok⟩ := exists_lookup_of_completed hdone
    have hlater := lookup_afterRounds hlookup hok middle
    rw [← afterRounds_append] at hlater
    unfold invokedIn at hinvoked
    split at hinvoked
    · have hnot := (mem_invocations.mp hinvoked).1
      rw [completed_of_lookup hlater hok] at hnot
      cases hnot
    · cases hinvoked
  once earlier round later hrounds hpending call hcall hnot := by
    rw [invokedIn, if_pos hpending]
    have hround : round ∈ rounds := by
      rw [hrounds]
      exact List.mem_append_right earlier List.mem_cons_self
    apply List.count_eq_one_of_mem
    · exact nodup_invocations (hnames round hround)
    · exact mem_invocations.mpr ⟨hnot, call, hcall, rfl⟩

/-- One handler returns while another raises; then the first is skipped while a
third one joins. -/
def joiningRounds : List Round :=
  [⟨attemptOf [⟨⟨0, "recompute_passes".toList⟩, .returns⟩,
      ⟨⟨1, "notify".toList⟩, .raises "OSError".toList⟩], true⟩,
    ⟨attemptOf [⟨⟨0, "recompute_passes".toList⟩, .returns⟩, ⟨⟨2, "audit".toList⟩, .returns⟩,
      ⟨⟨1, "notify".toList⟩, .returns⟩], true⟩]

theorem joining_isIdempotent :
    IsIdempotent (publish 3 8 0 "tle.refreshed".toList [] none) joiningRounds ∧
    invokedIn (afterRounds (publish 3 8 0 "tle.refreshed".toList [] none)
      (joiningRounds.take 1)) ⟨attemptOf [⟨⟨0, "recompute_passes".toList⟩, .returns⟩,
        ⟨⟨2, "audit".toList⟩, .returns⟩, ⟨⟨1, "notify".toList⟩, .returns⟩], true⟩ =
      [⟨2, "audit".toList⟩, ⟨1, "notify".toList⟩] :=
  ⟨isIdempotent_of_nodup _ (by decide), by decide⟩

end Apsis.Core.Events
