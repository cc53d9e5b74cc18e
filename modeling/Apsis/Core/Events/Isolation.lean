/-
# The handlers of one event are isolated

Two attempts of one event that differ in how the call of a single handler ends. The
docstring of `dispatch` promises that a failure does not block the other handlers, and
this is what it comes to: every other handler is treated in the same way, and its entry
in `handler_state` says the same, whatever that call raises. Clock readings and jitter
may differ as well, since they are not up to the handlers.

`handler_state` after an attempt is the dict that `_handle_event` assigns. The row that
an attempt leaves has it, whichever way the attempt ends.
-/

import Apsis.Core.Events.Lifecycle

namespace Apsis.Core.Events

open Apsis.Library

/-- The attempts differ in no call but that of one handler. -/
def DifferAt (handler : HandlerFunc) (first second : Attempt) : Prop :=
  ∃ before after outcome outcome',
    first.calls = before ++ ⟨handler, outcome⟩ :: after ∧
      second.calls = before ++ ⟨handler, outcome'⟩ :: after

/-- Which handlers were called and which were skipped, in order. -/
def treatment (result : DispatchResult) : List (Text × Bool) :=
  result.results.map fun r => (r.handlerName, r.skipped)

/-- What an entry says about its handler, apart from the time. -/
def HandlerEntry.verdict (entry : HandlerEntry) : EntryStatus × Option Text :=
  (entry.status, entry.error)

/-- What a `handler_state` says about a handler. -/
def verdict (state : HandlerState) (name : Text) : Option (EntryStatus × Option Text) :=
  (state.lookup name).map HandlerEntry.verdict

/-- An attempt goes through its handlers and accounts for their failures. -/
structure Accounts (event : OutboxEvent) (attempt : Attempt) : Prop where
  /-- The handlers that are not completed are invoked, in the order of registration. -/
  ordered : invocations event attempt = (attempt.calls.map Call.handler).filter fun func =>
    !completed event.handlerState func.name
  /-- Each of them is invoked exactly once. -/
  once : ∀ func ∈ invocations event attempt, (invocations event attempt).count func = 1
  /-- The attempt is a success exactly if none of them failed. -/
  succeeded : (dispatchResult event attempt).allSucceeded = true ↔ failures event attempt = []
  /-- The summary lists those that failed. -/
  summary : (dispatchResult event attempt).errorsSummary = failureText event attempt
  /-- A pending event is processed by an attempt exactly if it is a success. -/
  processed : ∀ event', handleEvent event attempt = .ok event' → event.status = .pending →
    (event'.status = .processed ↔ failures event attempt = [])

/-- A handler does not get in the way of the others, between two attempts. -/
structure Isolates (event : OutboxEvent) (handler : HandlerFunc) (first second : Attempt) :
    Prop where
  /-- Either attempt goes through its handlers as it should. -/
  accounts : Accounts event first ∧ Accounts event second
  /-- Every handler is invoked or skipped in the same way. -/
  treated : treatment (dispatchResult event first) = treatment (dispatchResult event second)
  invoked : invocations event first = invocations event second
  /-- The entry of every other handler says the same. -/
  verdicts : ∀ name, name ≠ handler.name →
    verdict (newState event first) name = verdict (newState event second) name
  /-- So do the rows that the attempts leave. -/
  rows : ∀ event₁ event₂, handleEvent event first = .ok event₁ →
    handleEvent event second = .ok event₂ → ∀ name, name ≠ handler.name →
      verdict event₁.handlerState name = verdict event₂.handlerState name

/-! ## One attempt -/

section Attempt

variable {event : OutboxEvent} {attempt : Attempt}

/-- A result is that of a failure exactly if its call is among the failures. -/
theorem failures_eq_nil_iff :
    failures event attempt = [] ↔ ∀ call ∈ attempt.calls,
      completed event.handlerState call.handler.name = true ∨ call.outcome = .returns := by
  rw [failures, List.filterMap_eq_nil_iff]
  apply forall₂_congr
  intro call _
  split
  · next hdone => simp [hdone]
  · next hnot => cases call.outcome <;> simp [hnot]

theorem Handled.handlerState_eq {event' : OutboxEvent} (hhandled : Handled event attempt event') :
    event'.handlerState = newState event attempt := by
  cases hhandled <;> rfl

theorem Handled.processed_iff {event' : OutboxEvent} (hhandled : Handled event attempt event')
    (hpending : event.status = .pending) :
    event'.status = .processed ↔ (dispatchResult event attempt).allSucceeded = true := by
  cases hhandled with
  | processed hall _ => simp [hall]
  | failed hall _ _ => simp [hall]
  | retry _ hall _ _ _ => simp [hall, hpending]

/-- What holds of every attempt whose handlers have distinct names. -/
theorem accounts_of_nodup (event : OutboxEvent)
    (hnames : (attempt.calls.map fun call => call.handler.name).Nodup) :
    Accounts event attempt where
  ordered := invocations_eq_filter event attempt
  once func hmem := List.count_eq_one_of_mem (nodup_invocations hnames) hmem
  succeeded := by rw [failures_eq_nil_iff, allSucceeded_dispatch]
  summary := errorsSummary_eq event attempt
  processed event' hhandle hpending := by
    rw [(handleEvent_eq_ok.mp hhandle).processed_iff hpending, failures_eq_nil_iff,
      allSucceeded_dispatch]

end Attempt

/-! ## Two attempts -/

section Two

variable {handler : HandlerFunc} {first second : Attempt}

/-- What two attempts make of their calls is the same if it does not depend on outcomes. -/
theorem DifferAt.map_eq {β : Type} (hdiffer : DifferAt handler first second) {f : Call → β}
    (hf : ∀ call outcome, f { call with outcome := outcome } = f call) :
    first.calls.map f = second.calls.map f := by
  obtain ⟨before, after, outcome, outcome', hfirst, hsecond⟩ := hdiffer
  have hsame : f ⟨handler, outcome⟩ = f ⟨handler, outcome'⟩ := hf ⟨handler, outcome'⟩ outcome
  rw [hfirst, hsecond, List.map_append, List.map_cons, List.map_append, List.map_cons, hsame]

/-- The result that decides the entry of another name is the same. -/
theorem DifferAt.lastResult_eq (hdiffer : DifferAt handler first second)
    (completed : Text → Bool) {name : Text} (hne : name ≠ handler.name) :
    lastResult (dispatch completed first.calls).results name =
      lastResult (dispatch completed second.calls).results name := by
  obtain ⟨before, after, outcome, outcome', hfirst, hsecond⟩ := hdiffer
  simp [lastResult, dispatch, hfirst, hsecond, List.findRev?_eq_find?_reverse,
    List.find?_append, Ne.symm hne]

/-- The entry of another name says the same. -/
theorem DifferAt.verdict_eq (hdiffer : DifferAt handler first second) (event : OutboxEvent)
    {name : Text} (hne : name ≠ handler.name) :
    verdict (newState event first) name = verdict (newState event second) name := by
  rw [verdict, verdict, lookup_recordResults, lookup_recordResults,
    hdiffer.lastResult_eq _ hne]
  -- The two entries come from one result, noted at two times.
  cases lastResult (dispatch (completed event.handlerState) second.calls).results name <;> rfl

/-- **The handlers of one event are isolated.** Whatever the call of one handler does,
the others are invoked or skipped as before, and what is noted about them is the same. -/
theorem isolates_of_differAt (event : OutboxEvent) (hdiffer : DifferAt handler first second)
    (hnames : (first.calls.map fun call => call.handler.name).Nodup) :
    Isolates event handler first second where
  accounts := by
    refine ⟨accounts_of_nodup event hnames, accounts_of_nodup event ?_⟩
    rwa [← hdiffer.map_eq fun _ _ => rfl]
  treated := by
    simp only [treatment, dispatch, List.map_map]
    apply hdiffer.map_eq
    intro call outcome
    simp
  invoked := by
    rw [invocations_eq_filter, invocations_eq_filter, hdiffer.map_eq fun _ _ => rfl]
  verdicts name hne := hdiffer.verdict_eq event hne
  rows event₁ event₂ hfirst hsecond name hne := by
    rw [(handleEvent_eq_ok.mp hfirst).handlerState_eq,
      (handleEvent_eq_ok.mp hsecond).handlerState_eq, hdiffer.verdict_eq event hne]

end Two

/-- Three handlers, the first of which is completed; the second one ends like this. -/
def attemptWith (outcome : Outcome) : Attempt :=
  attemptOf [⟨⟨0, "audit".toList⟩, .returns⟩, ⟨⟨1, "notify".toList⟩, outcome⟩,
    ⟨⟨2, "recompute_passes".toList⟩, .returns⟩]

/-- An event after an attempt in which `audit` alone was registered. -/
def auditedEvent : OutboxEvent :=
  { publish 3 8 0 "tle.refreshed".toList [] none with
    handlerState := AList.singleton "audit".toList ⟨.ok, 0, none⟩ }

/-- Whether `notify` times out or returns, `audit` is skipped and `recompute_passes` is
called and noted as a success. -/
theorem notify_isolated :
    Isolates auditedEvent ⟨1, "notify".toList⟩ (attemptWith .returns)
      (attemptWith (.raises "TimeoutError".toList)) ∧
    invocations auditedEvent (attemptWith (.raises "TimeoutError".toList)) =
      [⟨1, "notify".toList⟩, ⟨2, "recompute_passes".toList⟩] ∧
    verdict (newState auditedEvent (attemptWith (.raises "TimeoutError".toList)))
      "recompute_passes".toList = some (.ok, none) :=
  ⟨isolates_of_differAt auditedEvent
      ⟨[⟨⟨0, "audit".toList⟩, .returns⟩], [⟨⟨2, "recompute_passes".toList⟩, .returns⟩], _, _,
        rfl, rfl⟩ (by decide), by decide, by decide⟩

end Apsis.Core.Events
