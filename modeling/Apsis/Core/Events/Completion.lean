/-
# Whether a processed event has reached every handler

The attempts of one event, one after the other. What a handler has achieved is
remembered under its `__name__`, while a dispatch goes through a list of
functions. As long as the names in that list tell the functions apart, an entry
`"ok"` means that the function of that name has returned, and a processed event
has reached all of them. Two functions of one name share an entry: the last of
them decides it, and after a failure of the other the retry skips both.
-/

import Apsis.Core.Events.Attempt

namespace Apsis.Core.Events

open Apsis.Library

/-- An attempt, and whether its transaction gets to its commit. It does not when
the worker crashes or is cancelled. -/
structure Round where
  attempt : Attempt
  commits : Bool

/-- The row after a round. Only a pending event is attempted, and an attempt
that raises is rolled back. -/
def takeRound (event : OutboxEvent) (round : Round) : OutboxEvent :=
  if event.status = .pending ∧ round.commits then
    match handleEvent event round.attempt with
    | .ok event' => event'
    | .error _ => event
  else event

/-- The row after some rounds. -/
def afterRounds (event : OutboxEvent) (rounds : List Round) : OutboxEvent :=
  rounds.foldl takeRound event

/-- In one of the rounds the function was called and returned. -/
def ReturnedIn (func : HandlerFunc) : OutboxEvent → List Round → Prop
  | _, [] => False
  | event, round :: rounds =>
      (event.status = .pending ∧ completed event.handlerState func.name = false ∧
        ⟨func, .returns⟩ ∈ round.attempt.calls) ∨
      ReturnedIn func (takeRound event round) rounds

instance (func : HandlerFunc) : (event : OutboxEvent) → (rounds : List Round) →
    Decidable (ReturnedIn func event rounds)
  | _, [] => isFalse id
  | event, round :: rounds =>
      have := instDecidableReturnedIn func (takeRound event round) rounds
      inferInstanceAs (Decidable ((event.status = .pending ∧
        completed event.handlerState func.name = false ∧ ⟨func, .returns⟩ ∈ round.attempt.calls) ∨
        ReturnedIn func (takeRound event round) rounds))

/-- Every event of the type that ends up processed has reached every handler
registered for the type. -/
def NoHandlerLost (dispatcher : EventDispatcher) (eventType : Text) (maxRetries : ℤ) : Prop :=
  ∀ id now payload aggregateId rounds,
    (∀ round ∈ rounds, round.attempt.calls.map Call.handler = dispatcher eventType) →
    (afterRounds (publish id maxRetries now eventType payload aggregateId) rounds).status =
      .processed →
    ∀ func ∈ dispatcher eventType,
      ReturnedIn func (publish id maxRetries now eventType payload aggregateId) rounds

@[simp]
theorem afterRounds_nil (event : OutboxEvent) : afterRounds event [] = event := rfl

@[simp]
theorem afterRounds_cons (event : OutboxEvent) (round : Round) (rounds : List Round) :
    afterRounds event (round :: rounds) = afterRounds (takeRound event round) rounds := rfl

@[simp]
theorem not_returnedIn_nil (func : HandlerFunc) (event : OutboxEvent) :
    ¬ ReturnedIn func event [] := id

theorem returnedIn_cons {func : HandlerFunc} {event : OutboxEvent} {round : Round}
    {rounds : List Round} :
    ReturnedIn func event (round :: rounds) ↔
      (event.status = .pending ∧ completed event.handlerState func.name = false ∧
        ⟨func, .returns⟩ ∈ round.attempt.calls) ∨
      ReturnedIn func (takeRound event round) rounds := Iff.rfl

/-- A round either leaves the row alone or is an attempt of a pending event. -/
theorem takeRound_cases (event : OutboxEvent) (round : Round) :
    takeRound event round = event ∨
      event.status = .pending ∧ Handled event round.attempt (takeRound event round) := by
  unfold takeRound
  split
  · next hpending =>
      cases hhandle : handleEvent event round.attempt with
      | ok event' => exact Or.inr ⟨hpending.1, handleEvent_eq_ok.mp hhandle⟩
      | error error => exact Or.inl rfl
  · exact Or.inl rfl

/-- An event that is not pending stays as it is. -/
theorem afterRounds_of_not_pending {event : OutboxEvent} (h : event.status ≠ .pending)
    (rounds : List Round) : afterRounds event rounds = event := by
  induction rounds with
  | nil => rfl
  | cons round rounds ih =>
      rcases takeRound_cases event round with hsame | ⟨hpending, -⟩
      · rw [afterRounds_cons, hsame, ih]
      · exact absurd hpending h

/-! ## Distinct names, or a single attempt -/

/-- A name that an attempt completes belongs to a handler that returned in it. -/
theorem returns_of_completed {event : OutboxEvent} {attempt : Attempt} {func : HandlerFunc}
    (hnames : ∀ call ∈ attempt.calls, call.handler.name = func.name → call.handler = func)
    (hbefore : completed event.handlerState func.name = false)
    (hafter : completed (newState event attempt) func.name = true) :
    ⟨func, .returns⟩ ∈ attempt.calls := by
  rw [completed_recordResults] at hafter
  cases hlast : lastResult (dispatchResult event attempt).results func.name with
  | none =>
      rw [hlast] at hafter
      simp [hbefore] at hafter
  | some r =>
      rw [hlast] at hafter
      obtain ⟨hmem, hskipped, hname⟩ := lastResult_eq_some hlast
      obtain ⟨call, hcall, rfl⟩ := List.mem_map.mp hmem
      rw [Call.result_handlerName] at hname
      rw [Call.result_skipped] at hskipped
      have hreturns : call.outcome = .returns :=
        (Call.result_success.mp hafter).resolve_left (by simp [hskipped])
      have hfunc : call.handler = func := hnames call hcall hname
      rw [← hfunc, ← hreturns]
      exact hcall

/-- The induction over the rounds: a handler of a pending event that ends up
processed is completed already or returns in one of the rounds. -/
theorem completed_or_returnedIn {funcs : List HandlerFunc} {event : OutboxEvent}
    {rounds : List Round}
    (hfew : event.maxRetries ≤ 1 ∨
      ∀ first ∈ funcs, ∀ second ∈ funcs, first.name = second.name → first = second)
    (hcalls : ∀ round ∈ rounds, round.attempt.calls.map Call.handler = funcs)
    (hpending : event.status = .pending)
    (hprocessed : (afterRounds event rounds).status = .processed) :
    ∀ func ∈ funcs, completed event.handlerState func.name = true ∨
      ReturnedIn func event rounds := by
  induction rounds generalizing event with
  | nil =>
      rw [afterRounds_nil, hpending] at hprocessed
      cases hprocessed
  | cons round rounds ih =>
      intro func hfunc
      rw [afterRounds_cons] at hprocessed
      have hround := hcalls round List.mem_cons_self
      have hrest := fun round' hmem => hcalls round' (List.mem_cons_of_mem round hmem)
      by_cases hdone : completed event.handlerState func.name
      · exact Or.inl hdone
      have hnot : completed event.handlerState func.name = false := Bool.eq_false_iff.mpr hdone
      rcases takeRound_cases event round with hsame | ⟨-, hhandled⟩
      · -- The round did not commit, so it left the event as it was.
        rw [hsame] at hprocessed
        refine (ih hfew hrest hpending hprocessed func hfunc).imp_right fun hlater => Or.inr ?_
        rwa [hsame]
      obtain ⟨event', htake⟩ : ∃ event', takeRound event round = event' := ⟨_, rfl⟩
      rw [htake] at hhandled hprocessed
      cases hhandled with
      | processed hall hstored =>
          rw [← hround] at hfunc
          obtain ⟨call, hcall, rfl⟩ := List.mem_map.mp hfunc
          have hreturns : call.outcome = .returns :=
            (allSucceeded_dispatch.mp hall call hcall).resolve_left (by simp [hnot])
          refine Or.inr (Or.inl ⟨hpending, hnot, ?_⟩)
          rw [← hreturns]
          exact hcall
      | failed hall hlast hstored =>
          rw [afterRounds_of_not_pending (by simp)] at hprocessed
          cases hprocessed
      | retry delay hall hnotLast hdelay hstored =>
          -- There is a second attempt, so the names tell the functions apart.
          have hnames := hfew.resolve_left (by lia)
          have hstep := fun hfew' hpending' => ih hfew' hrest hpending' hprocessed func hfunc
          rcases hstep hfew hpending with hlater | hlater
          · refine Or.inr (Or.inl ⟨hpending, hnot, ?_⟩)
            apply returns_of_completed _ hnot hlater
            intro call hcall hname
            have hmem : call.handler ∈ funcs := hround ▸ List.mem_map_of_mem hcall
            exact hnames call.handler hmem func hfunc hname
          · refine Or.inr (Or.inr ?_)
            rw [htake]
            exact hlater

/-- No attempt commits on an event none of whose handlers is completed when the
name of one of them cannot be stored. -/
theorem afterRounds_of_hasNul {funcs : List HandlerFunc} {event : OutboxEvent}
    {rounds : List Round}
    (hcalls : ∀ round ∈ rounds, round.attempt.calls.map Call.handler = funcs)
    {func : HandlerFunc} (hfunc : func ∈ funcs) (hnul : Text.hasNul func.name = true)
    (hnot : completed event.handlerState func.name = false) :
    afterRounds event rounds = event := by
  induction rounds with
  | nil => rfl
  | cons round rounds ih =>
      have hrest := fun round' hmem => hcalls round' (List.mem_cons_of_mem round hmem)
      have hsame : takeRound event round = event := by
        rcases takeRound_cases event round with hsame | ⟨-, hhandled⟩
        · exact hsame
        rw [← hcalls round List.mem_cons_self] at hfunc
        obtain ⟨call, hcall, rfl⟩ := List.mem_map.mp hfunc
        -- The name of this handler is among the texts of every attempt.
        have hmem : call.handler.name ∈ (newState event round.attempt).texts := by
          have hkey := handlerName_mem_texts round.attempt.notedAt event.handlerState
            (List.mem_map_of_mem (f := Call.result (completed event.handlerState)) hcall)
            (by simp [hnot])
          rwa [Call.result_handlerName] at hkey
        have hrejected : (newState event round.attempt).texts.any Text.hasNul = true :=
          List.any_eq_true.mpr ⟨_, hmem, hnul⟩
        generalize takeRound event round = event' at hhandled
        cases hhandled with
        | processed _ hstored => simp [hrejected] at hstored
        | failed _ _ hstored => simp [hrejected] at hstored
        | retry _ _ _ _ hstored => simp [hrejected] at hstored
      rw [afterRounds_cons, hsame, ih hrest]

/-! ## Two handlers of one name -/

/-- The last function of a list that has a name. -/
def lastNamed (funcs : List HandlerFunc) (name : Text) : Option HandlerFunc :=
  funcs.findRev? fun func => decide (func.name = name)

/-- Of two functions with one name, one is not the last of any name. -/
theorem exists_not_lastNamed {funcs : List HandlerFunc} {first second : HandlerFunc}
    (hfirst : first ∈ funcs) (hsecond : second ∈ funcs) (hname : first.name = second.name)
    (hne : first ≠ second) :
    ∃ victim ∈ funcs, ∀ name, lastNamed funcs name ≠ some victim := by
  have hname_of : ∀ name func, lastNamed funcs name = some func → func.name = name := by
    intro name func hlast
    rw [lastNamed, List.findRev?_eq_find?_reverse] at hlast
    simpa using List.find?_some hlast
  by_cases hlast : lastNamed funcs first.name = some first
  · refine ⟨second, hsecond, fun name hsome => hne ?_⟩
    have hsame : second.name = name := hname_of name second hsome
    rw [← hsame, ← hname, hlast] at hsome
    exact Option.some.inj hsome
  · refine ⟨first, hfirst, fun name hsome => hlast ?_⟩
    rwa [hname_of name first hsome]

/-- A call that raises if the function is the victim, and returns otherwise. -/
def failingCall (victim func : HandlerFunc) : Call where
  handler := func
  outcome := if func = victim then .raises "RuntimeError".toList else .returns

theorem failingCall_ne (victim func : HandlerFunc) :
    failingCall victim func ≠ ⟨victim, .returns⟩ := by
  by_cases hsame : func = victim <;> simp [failingCall, hsame]

/-- Calling every function of a list, each in its own way. -/
theorem map_handler {call : HandlerFunc → Call} (hcall : ∀ func, (call func).handler = func)
    (funcs : List HandlerFunc) : (funcs.map call).map Call.handler = funcs := by
  have hcomp : Call.handler ∘ call = id := funext hcall
  rw [List.map_map, hcomp, List.map_id]

/-- An attempt with these calls and no jitter. -/
def attemptOf (calls : List Call) : Attempt where
  calls := calls
  notedAt := 0
  endedAt := 0
  jitter := 0
  jitter_le := noJitter_le

theorem takeRound_of_handled {event event' : OutboxEvent} {attempt : Attempt}
    (hpending : event.status = .pending) (hhandled : Handled event attempt event') :
    takeRound event ⟨attempt, true⟩ = event' := by
  rw [takeRound, if_pos ⟨hpending, rfl⟩, handleEvent_eq_ok.mpr hhandled]

/-- The result that decides a name comes from the last function of that name. -/
theorem lastResult_failingCall {state : HandlerState}
    (hnone : ∀ name, completed state name = false) (victim : HandlerFunc)
    (funcs : List HandlerFunc) (name : Text) :
    lastResult (dispatch (completed state) (funcs.map (failingCall victim))).results name =
      (lastNamed funcs name).map (Call.result (completed state) ∘ failingCall victim) := by
  have hpred : ((fun r : HandlerResult => !r.skipped && decide (r.handlerName = name)) ∘
      Call.result (completed state) ∘ failingCall victim) =
      fun func => decide (func.name = name) := by
    ext func
    rw [Function.comp_apply, Function.comp_apply, Call.result_skipped, Call.result_handlerName,
      hnone, Bool.not_false, Bool.true_and]
    rfl
  rw [lastResult, lastNamed, List.findRev?_eq_find?_reverse, List.findRev?_eq_find?_reverse,
    dispatch, List.map_map, ← List.map_reverse, List.find?_map, hpred]

/-- After the failure of a handler that is not the last of its name, every name
is completed. -/
theorem completed_of_failingCall {state : HandlerState}
    (hnone : ∀ name, completed state name = false) {victim : HandlerFunc}
    {funcs : List HandlerFunc} (hvictim : ∀ name, lastNamed funcs name ≠ some victim)
    {func : HandlerFunc} (hfunc : func ∈ funcs) (now : Time) :
    completed (recordResults now
      (dispatch (completed state) (funcs.map (failingCall victim))).results state) func.name =
        true := by
  rw [completed_recordResults, lastResult_failingCall hnone]
  cases hsome : lastNamed funcs func.name with
  | none =>
      rw [lastNamed, List.findRev?_eq_find?_reverse, List.find?_eq_none] at hsome
      simpa using hsome func (List.mem_reverse.mpr hfunc)
  | some last =>
      have hne : last ≠ victim := fun heq => hvictim func.name (heq ▸ hsome)
      exact Call.result_success.mpr (Or.inr (if_neg hne))

/-- The first round: only the victim raises, and every name is completed. -/
theorem exists_failing_round {event : OutboxEvent} {funcs : List HandlerFunc}
    {victim : HandlerFunc} (hpending : event.status = .pending)
    (hfresh : event.handlerState = ∅) (hcount : event.retryCount = 0)
    (hretry : 1 < event.maxRetries)
    (hstorable : ∀ func ∈ funcs, Text.hasNul func.name = false) (hmem : victim ∈ funcs)
    (hvictim : ∀ name, lastNamed funcs name ≠ some victim) :
    ∃ event', takeRound event ⟨attemptOf (funcs.map (failingCall victim)), true⟩ = event' ∧
      event'.status = .pending ∧ event'.handlerState.texts.any Text.hasNul = false ∧
      ∀ func ∈ funcs, completed event'.handlerState func.name = true := by
  have hnone : ∀ name, completed event.handlerState name = false := by
    intro name
    rw [hfresh]
    rfl
  have hall : (dispatchResult event (attemptOf (funcs.map (failingCall victim)))).allSucceeded =
      false := by
    apply Bool.eq_false_iff.mpr
    intro hsucceeded
    rcases allSucceeded_dispatch.mp hsucceeded _ (List.mem_map_of_mem hmem) with hdone | hreturns
    · rw [hnone] at hdone
      cases hdone
    · simp [failingCall] at hreturns
  have hstored : ((dispatchResult event (attemptOf (funcs.map (failingCall victim)))).errorsSummary
      :: (newState event (attemptOf (funcs.map (failingCall victim)))).texts).any Text.hasNul =
      false := by
    apply Bool.eq_false_iff.mpr
    intro hnul
    have hempty : event.handlerState.texts.any Text.hasNul = false := by
      rw [hfresh]
      rfl
    obtain ⟨call, hcallMem, -, hcall⟩ := (any_hasNul_failed hempty).mp hnul
    obtain ⟨func, hfunc, rfl⟩ := List.mem_map.mp hcallMem
    by_cases hsame : func = victim
    · simp only [Call.hasNul, failingCall, if_pos hsame, hstorable func hfunc] at hcall
      revert hcall
      decide
    · simp [Call.hasNul, failingCall, hsame, hstorable func hfunc] at hcall
  have hdelay : backoff (event.retryCount + 1)
      (attemptOf (funcs.map (failingCall victim))).jitter = some 2000000 := by
    rw [hcount]
    show backoff 1 0 = some 2000000
    decide
  have hround := takeRound_of_handled hpending
    (Handled.retry 2000000 hall (by rw [hcount]; exact hretry) hdelay hstored)
  refine ⟨_, hround, hpending, ?_, ?_⟩
  · rw [List.any_cons, Bool.or_eq_false_iff] at hstored
    exact hstored.2
  · intro func hfunc
    exact completed_of_failingCall hnone hvictim hfunc 0

/-- The second round: all handlers are skipped. -/
theorem takeRound_of_all_completed {event : OutboxEvent} {calls : List Call}
    (hpending : event.status = .pending)
    (hstate : event.handlerState.texts.any Text.hasNul = false)
    (hdone : ∀ call ∈ calls, completed event.handlerState call.handler.name = true) :
    (takeRound event ⟨attemptOf calls, true⟩).status = .processed := by
  have hall : (dispatchResult event (attemptOf calls)).allSucceeded = true :=
    allSucceeded_dispatch.mpr fun call hmem => Or.inl (hdone call hmem)
  have hstored : (newState event (attemptOf calls)).texts.any Text.hasNul = false := by
    apply Bool.eq_false_iff.mpr
    intro hnul
    obtain ⟨text, hmem, htext⟩ := List.any_eq_true.mp hnul
    rcases mem_texts_recordResults _ hmem with hbefore | ⟨r, hresult, hskipped, -⟩
    · exact absurd htext (by simpa using List.any_eq_false.mp hstate text hbefore)
    · obtain ⟨call, hcall, rfl⟩ := List.mem_map.mp hresult
      rw [Call.result_skipped, hdone call hcall] at hskipped
      cases hskipped
  rw [takeRound_of_handled hpending (Handled.processed hall hstored)]

/-- Two functions of one name, no name that cannot be stored, and a second
attempt: a handler can be lost. -/
theorem not_noHandlerLost {dispatcher : EventDispatcher} {eventType : Text} {maxRetries : ℤ}
    (hretry : 1 < maxRetries)
    (hstorable : ∀ func ∈ dispatcher eventType, Text.hasNul func.name = false)
    {first second : HandlerFunc} (hfirst : first ∈ dispatcher eventType)
    (hsecond : second ∈ dispatcher eventType) (hname : first.name = second.name)
    (hne : first ≠ second) : ¬ NoHandlerLost dispatcher eventType maxRetries := by
  intro hlost
  obtain ⟨victim, hmem, hvictim⟩ := exists_not_lastNamed hfirst hsecond hname hne
  have hreturned := hlost 0 0 [] none
    [⟨attemptOf ((dispatcher eventType).map (failingCall victim)), true⟩,
      ⟨attemptOf ((dispatcher eventType).map fun func => ⟨func, .returns⟩), true⟩]
  have hpublished : (publish 0 maxRetries 0 eventType [] none).status = .pending ∧
      (publish 0 maxRetries 0 eventType [] none).handlerState = ∅ ∧
      (publish 0 maxRetries 0 eventType [] none).retryCount = 0 ∧
      1 < (publish 0 maxRetries 0 eventType [] none).maxRetries := ⟨rfl, rfl, rfl, hretry⟩
  generalize publish 0 maxRetries 0 eventType [] none = event at hreturned hpublished
  obtain ⟨hpending, hfresh, hcount, htries⟩ := hpublished
  obtain ⟨event', hround, hpending', hstate, hdone⟩ :=
    exists_failing_round hpending hfresh hcount htries hstorable hmem hvictim
  have hskip : ∀ call ∈ (dispatcher eventType).map fun func => Call.mk func .returns,
      completed event'.handlerState call.handler.name = true := by
    simpa using hdone
  have hprocessed := takeRound_of_all_completed hpending' hstate hskip
  rw [afterRounds_cons, hround, afterRounds_cons, afterRounds_nil] at hreturned
  -- The victim raised in the first round and was skipped in the second.
  have hhandlers : ∀ round ∈
      [(⟨attemptOf ((dispatcher eventType).map (failingCall victim)), true⟩ : Round),
        ⟨attemptOf ((dispatcher eventType).map fun func => ⟨func, .returns⟩), true⟩],
      round.attempt.calls.map Call.handler = dispatcher eventType := by
    intro round hround
    rcases List.mem_pair.mp hround with rfl | rfl
    · exact map_handler (fun _ => rfl) _
    · exact map_handler (fun _ => rfl) _
  have hvictimReturned := hreturned hhandlers hprocessed victim hmem
  rw [returnedIn_cons, hround, returnedIn_cons] at hvictimReturned
  rcases hvictimReturned with ⟨-, -, hcall⟩ | ⟨-, hnot, -⟩ | hnever
  · obtain ⟨func, -, hsame⟩ := List.mem_map.mp hcall
    exact failingCall_ne victim func hsame
  · rw [hdone victim hmem] at hnot
    cases hnot
  · exact not_returnedIn_nil _ _ hnever

/-! ## The condition -/

/-- **When no handler is lost.** Every processed event of a type has reached
every handler registered for it, if and only if events of the type have a single
attempt, or no attempt commits because a name cannot be stored, or the names
tell the registered functions apart. -/
theorem noHandlerLost_iff (dispatcher : EventDispatcher) (eventType : Text) (maxRetries : ℤ) :
    NoHandlerLost dispatcher eventType maxRetries ↔
      maxRetries ≤ 1 ∨ (∃ func ∈ dispatcher eventType, Text.hasNul func.name = true) ∨
        ∀ first ∈ dispatcher eventType, ∀ second ∈ dispatcher eventType,
          first.name = second.name → first = second := by
  constructor
  · intro hlost
    by_contra hcond
    simp only [not_or, not_le, not_exists, not_and, Bool.not_eq_true, not_forall] at hcond
    obtain ⟨hretry, hstorable, first, hfirst, second, hsecond, hname, hne⟩ := hcond
    exact not_noHandlerLost hretry hstorable hfirst hsecond hname hne hlost
  · intro hcond id now payload aggregateId rounds hcalls hprocessed func hfunc
    have hnone : ∀ name, completed
        (publish id maxRetries now eventType payload aggregateId).handlerState name = false :=
      fun _ => rfl
    rcases or_left_comm.mp hcond with ⟨lost, hlost, hnul⟩ | hfew
    · rw [afterRounds_of_hasNul hcalls hlost hnul (hnone lost.name)] at hprocessed
      cases hprocessed
    · rcases completed_or_returnedIn hfew hcalls rfl hprocessed func hfunc with hdone | hreturned
      · rw [hnone] at hdone
        cases hdone
      · exact hreturned

/-- Two functions called `notify`, registered for one event type. -/
def notifyTwice : EventDispatcher :=
  EventDispatcher.registerAll "tle.refreshed".toList [⟨0, "notify".toList⟩, ⟨1, "notify".toList⟩]
    .empty

/-- The first `notify` raises and the second returns; on the retry both are
skipped. -/
def notifyRounds : List Round :=
  [⟨attemptOf [⟨⟨0, "notify".toList⟩, .raises "OSError".toList⟩, ⟨⟨1, "notify".toList⟩, .returns⟩],
      true⟩,
    ⟨attemptOf [⟨⟨0, "notify".toList⟩, .returns⟩, ⟨⟨1, "notify".toList⟩, .returns⟩], true⟩]

/-- The event ends up processed and the first `notify` has never returned. -/
theorem notify_lost :
    (afterRounds (publish 0 8 0 "tle.refreshed".toList [] none) notifyRounds).status =
      .processed ∧
    ¬ ReturnedIn ⟨0, "notify".toList⟩ (publish 0 8 0 "tle.refreshed".toList [] none)
      notifyRounds ∧
    ¬ NoHandlerLost notifyTwice "tle.refreshed".toList 8 := by
  have hprocessed : (afterRounds (publish 0 8 0 "tle.refreshed".toList [] none)
      notifyRounds).status = .processed := by decide
  have hnever : ¬ ReturnedIn ⟨0, "notify".toList⟩
      (publish 0 8 0 "tle.refreshed".toList [] none) notifyRounds := by decide
  refine ⟨hprocessed, hnever, fun hlost => hnever ?_⟩
  apply hlost 0 0 [] none notifyRounds _ hprocessed
  · decide
  · intro round hmem
    rcases List.mem_pair.mp hmem with rfl | rfl
    · rfl
    · rfl

end Apsis.Core.Events
