/-
# One attempt of an outbox event

The row of `OutboxEventORM` and `OutboxWorker._handle_event`, as a function of
the locked row and of what the attempt meets: the outcome of every call, two
clock readings and the jitter of the backoff. The columns that nothing reads
(`correlation_id`, `created_at`) are left out.

The attempt ends in `session.flush()`, whose `UPDATE` binds `handler_state` (a
JSONB column) and, after a failure, `last_error` (a TEXT column). PostgreSQL
rejects U+0000 in either.
-/

import Mathlib.Data.List.AList
import Apsis.Core.Config
import Apsis.Core.Events.Dispatcher

namespace Apsis.Core.Events

open Apsis.Library

/-! ## The row -/

/-- `status`, which takes the values `'PENDING'`, `'PROCESSED'` and `'FAILED'`. -/
inductive Status
  | pending
  | processed
  | failed
  deriving DecidableEq

/-- The `"status"` of an entry of `handler_state`. -/
inductive EntryStatus
  | ok
  | failed
  deriving DecidableEq

/-- An entry of `handler_state`; `notedAt` is its `"at"`, and the `"error"` key is
there after a failure. -/
structure HandlerEntry where
  status : EntryStatus
  notedAt : Time
  error : Option Text
  deriving DecidableEq

/-- The dict in `handler_state`, by handler name. -/
abbrev HandlerState := AList fun _ : Text => HandlerEntry

/-- Equality of states by their entries, which can be evaluated. -/
instance : DecidableEq HandlerState := fun first second =>
  decidable_of_iff (first.entries = second.entries) AList.ext_iff.symm

/-- A value in a payload: a UUID in its text form, or an integer. -/
inductive PayloadValue
  | uuid (id : Uuid)
  | int (value : ℤ)
  deriving DecidableEq

/-- A row of `outbox_events`. -/
structure OutboxEvent where
  id : Uuid
  aggregateId : Option Uuid
  eventType : Text
  payload : List (Text × PayloadValue)
  status : Status
  retryCount : ℕ
  maxRetries : ℤ
  scheduledAt : Time
  lastError : Option Text
  processedAt : Option Time
  handlerState : HandlerState
  deriving DecidableEq

/-- `EventBus.publish`: the row as inserted, under the id that the database gave
it, with the default of `max_retries` and `now()` as its schedule. -/
def publish (id : Uuid) (maxRetries : ℤ) (now : Time) (eventType : Text)
    (payload : List (Text × PayloadValue)) (aggregateId : Option Uuid) : OutboxEvent where
  id := id
  aggregateId := aggregateId
  eventType := eventType
  payload := payload
  status := .pending
  retryCount := 0
  maxRetries := maxRetries
  scheduledAt := now
  lastError := none
  processedAt := none
  handlerState := ∅

/-! ## The attempt -/

/-- What an attempt meets. The jitter is `random.uniform(0, 5)` after the
rounding to microseconds. -/
structure Attempt where
  calls : List Call
  /-- The reading behind `now_iso`. -/
  notedAt : Time
  /-- The reading behind `processed_at`, or behind `scheduled_at`. -/
  endedAt : Time
  jitter : ℕ
  jitter_le : jitter ≤ 5000000
  deriving DecidableEq

/-- No jitter at all. -/
theorem noJitter_le : 0 ≤ 5000000 := Nat.zero_le _

/-- Why an attempt raises. -/
inductive HandleError
  | /-- `OverflowError`: the power of two exceeds the range of a float. -/
    overflow
  | /-- The database rejects the `UPDATE` of the flush. -/
    rejected
  deriving DecidableEq

/-- The names with an entry `"ok"`. -/
def completed (handlerState : HandlerState) (name : Text) : Bool :=
  (handlerState.lookup name).any fun info => decide (info.status = .ok)

/-- `entry`, for a result that was not skipped. -/
def HandlerResult.entry (now : Time) (r : HandlerResult) : HandlerEntry where
  status := if r.success then .ok else .failed
  notedAt := now
  error := r.error.bind fun error =>
    if error.isEmpty then none else some (Text.firstChars 500 error)

/-- One round of the loop over the results. -/
def recordResult (now : Time) (state : HandlerState) (r : HandlerResult) : HandlerState :=
  if r.skipped then state else state.insert r.handlerName (r.entry now)

/-- The loop over the results: `new_state`. -/
def recordResults (now : Time) (results : List HandlerResult) (state : HandlerState) :
    HandlerState :=
  results.foldl (recordResult now) state

/-- `MAX_BACKOFF_HOURS` -/
def maxBackoffHours : ℤ := 1

/-- `timedelta(seconds=backoff_seconds)`. Adding the jitter converts the power to
a float, which overflows from `2 ** 1024` on. -/
def backoff (retryCount jitter : ℕ) : Option ℤ :=
  if 1024 ≤ retryCount then none
  else some (min (timedelta (2 ^ retryCount) + jitter) (timedelta (maxBackoffHours * 3600)))

/-- The texts in a `handler_state`. -/
def HandlerState.texts (state : HandlerState) : List Text :=
  state.entries.flatMap fun entry => entry.1 :: entry.2.error.toList

/-- `session.flush()`, for an `UPDATE` that binds these texts. -/
def flush (texts : List Text) (event : OutboxEvent) : Except HandleError OutboxEvent :=
  if texts.any Text.hasNul then .error .rejected else .ok event

/-- `_handle_event` -/
def handleEvent (event : OutboxEvent) (attempt : Attempt) :
    Except HandleError OutboxEvent :=
  let dispatchResult := dispatch (completed event.handlerState) attempt.calls
  let newState := recordResults attempt.notedAt dispatchResult.results event.handlerState
  if dispatchResult.allSucceeded then
    flush newState.texts
      { event with
        handlerState := newState
        status := .processed
        processedAt := some attempt.endedAt }
  else
    let failed : OutboxEvent :=
      { event with
        handlerState := newState
        retryCount := event.retryCount + 1
        lastError := some dispatchResult.errorsSummary }
    let texts := dispatchResult.errorsSummary :: newState.texts
    if event.maxRetries ≤ event.retryCount + 1 then
      flush texts { failed with status := .failed }
    else
      match backoff (event.retryCount + 1) attempt.jitter with
      | none => .error .overflow
      | some delay => flush texts { failed with scheduledAt := attempt.endedAt + delay }

/-! ## The entries that results leave

The loop over the results leaves, under every name, the entry of the last result
with that name, whichever function it came from.
-/

/-- The result that decides the entry of a name. -/
def lastResult (results : List HandlerResult) (name : Text) : Option HandlerResult :=
  results.findRev? fun r => !r.skipped && decide (r.handlerName = name)

theorem lookup_recordResults (now : Time) (results : List HandlerResult)
    (state : HandlerState) (name : Text) :
    (recordResults now results state).lookup name =
      match lastResult results name with
      | some r => some (r.entry now)
      | none => state.lookup name := by
  induction results generalizing state with
  | nil => rfl
  | cons r rest ih =>
      show (recordResults now rest (recordResult now state r)).lookup name = _
      rw [ih]
      simp only [lastResult, List.findRev?]
      cases hrest : rest.findRev? fun r => !r.skipped && decide (r.handlerName = name) with
      | some last => rfl
      | none =>
          by_cases hskipped : r.skipped
          · simp [recordResult, hskipped]
          · by_cases hname : r.handlerName = name
            · subst hname
              simp [recordResult, hskipped]
            · simp [recordResult, hskipped, hname, AList.lookup_insert_ne (Ne.symm hname)]

theorem lastResult_eq_some {results : List HandlerResult} {name : Text} {r : HandlerResult}
    (h : lastResult results name = some r) :
    r ∈ results ∧ r.skipped = false ∧ r.handlerName = name := by
  rw [lastResult, List.findRev?_eq_find?_reverse] at h
  have hmem := List.mem_of_find?_eq_some h
  have hpred := List.find?_some h
  simp only [Bool.and_eq_true, Bool.not_eq_true', decide_eq_true_eq] at hpred
  exact ⟨List.mem_reverse.mp hmem, hpred⟩

theorem lastResult_eq_none {results : List HandlerResult} {name : Text}
    (h : lastResult results name = none) {r : HandlerResult} (hmem : r ∈ results)
    (hskipped : r.skipped = false) : r.handlerName ≠ name := by
  rw [lastResult, List.findRev?_eq_find?_reverse, List.find?_eq_none] at h
  simpa [hskipped] using h r (List.mem_reverse.mpr hmem)

/-- A name is completed after the loop if the last result with that name is a
success or, where there is none, if it was completed before. -/
theorem completed_recordResults {now : Time} {results : List HandlerResult}
    {state : HandlerState} {name : Text} :
    completed (recordResults now results state) name =
      match lastResult results name with
      | some r => r.success
      | none => completed state name := by
  rw [completed, lookup_recordResults]
  cases lastResult results name with
  | none => rfl
  | some r =>
      cases hsuccess : r.success <;> simp [HandlerResult.entry, hsuccess]

/-- A text in the state comes from the state before or from a result. -/
theorem mem_texts_recordResult {now : Time} {state : HandlerState} {r : HandlerResult}
    {text : Text} (h : text ∈ (recordResult now state r).texts) :
    text ∈ state.texts ∨ r.skipped = false ∧
      (text = r.handlerName ∨
        ∃ error, r.error = some error ∧ text = Text.firstChars 500 error) := by
  unfold recordResult at h
  split at h
  · exact Or.inl h
  · next hskipped =>
      simp only [HandlerState.texts, AList.entries_insert, List.flatMap_cons, List.cons_append,
        List.mem_cons, List.mem_append, Option.mem_toList] at h
      rcases h with hname | herror | hrest
      · exact Or.inr ⟨Bool.eq_false_iff.mpr hskipped, Or.inl hname⟩
      · refine Or.inr ⟨Bool.eq_false_iff.mpr hskipped, Or.inr ?_⟩
        simp only [HandlerResult.entry, Option.bind_eq_some_iff] at herror
        obtain ⟨error, hsome, htext⟩ := herror
        split at htext
        · cases htext
        · cases htext
          exact ⟨error, hsome, rfl⟩
      · obtain ⟨entry, hmem, htext⟩ := List.mem_flatMap.mp hrest
        exact Or.inl (List.mem_flatMap.mpr
          ⟨entry, (List.kerase_sublist r.handlerName state.entries).subset hmem, htext⟩)

theorem mem_texts_recordResults {now : Time} {results : List HandlerResult} {text : Text}
    (state : HandlerState) (h : text ∈ (recordResults now results state).texts) :
    text ∈ state.texts ∨ ∃ r ∈ results, r.skipped = false ∧
      (text = r.handlerName ∨
        ∃ error, r.error = some error ∧ text = Text.firstChars 500 error) := by
  induction results generalizing state with
  | nil => exact Or.inl h
  | cons r rest ih =>
      rcases ih (recordResult now state r) h with hstate | ⟨r', hmem, htext⟩
      · rcases mem_texts_recordResult hstate with hbefore | htext
        · exact Or.inl hbefore
        · exact Or.inr ⟨r, List.mem_cons_self, htext⟩
      · exact Or.inr ⟨r', List.mem_cons_of_mem r hmem, htext⟩

/-- The name of a handler that was called is a key of the state. -/
theorem handlerName_mem_texts (now : Time) (state : HandlerState)
    {results : List HandlerResult} {r : HandlerResult} (hmem : r ∈ results)
    (hskipped : r.skipped = false) :
    r.handlerName ∈ (recordResults now results state).texts := by
  have hlookup := lookup_recordResults now results state r.handlerName
  cases hlast : lastResult results r.handlerName with
  | none => exact absurd rfl (lastResult_eq_none hlast hmem hskipped)
  | some last =>
      rw [hlast] at hlookup
      exact List.mem_flatMap.mpr
        ⟨_, AList.mem_lookup_iff.mp hlookup, List.mem_cons_self⟩

/-! ## The texts that a failed attempt binds -/

/-- The name of the handler or the traceback of the call contains U+0000. -/
def Call.hasNul (call : Call) : Bool :=
  Text.hasNul call.handler.name ||
    match call.outcome with
    | .returns => false
    | .raises traceback => Text.hasNul traceback

/-- The texts of a failed attempt contain U+0000 exactly if a handler that was
called brings it in. -/
theorem any_hasNul_failed {calls : List Call} {state : HandlerState} {now : Time}
    (hstate : state.texts.any Text.hasNul = false) :
    ((dispatch (completed state) calls).errorsSummary ::
        (recordResults now (dispatch (completed state) calls).results state).texts).any
          Text.hasNul = true ↔
      ∃ call ∈ calls, completed state call.handler.name = false ∧ call.hasNul = true := by
  have hsummary : Text.hasNul (dispatch (completed state) calls).errorsSummary = true ↔
      ∃ call ∈ calls, ∃ traceback, completed state call.handler.name = false ∧
        call.outcome = .raises traceback ∧
        (Text.hasNul call.handler.name = true ∨ Text.hasNul traceback = true) := by
    rw [DispatchResult.errorsSummary, Text.hasNul_intercalate (by decide), List.any_map,
      List.any_eq_true]
    constructor
    · rintro ⟨r, hmem, hnul⟩
      obtain ⟨hresult, hfailed⟩ := List.mem_filter.mp hmem
      obtain ⟨call, hcall, rfl⟩ := List.mem_map.mp hresult
      cases houtcome : call.outcome with
      | returns => simp [Call.result_success.mpr (Or.inr houtcome)] at hfailed
      | raises traceback =>
          have hnot : completed state call.handler.name = false := by
            by_contra hcompleted
            simp [Call.result_success.mpr (Or.inl (by simpa using hcompleted))] at hfailed
          have herror := (Call.result_failure.mpr ⟨hnot, houtcome⟩).2
          refine ⟨call, hcall, traceback, hnot, houtcome, ?_⟩
          simpa [HandlerResult.summary, herror, Text.hasNul, Text.nul] using hnul
    · rintro ⟨call, hcall, traceback, hnot, houtcome, hnul⟩
      obtain ⟨hfailed, herror⟩ := Call.result_failure.mpr ⟨hnot, houtcome⟩
      refine ⟨call.result (completed state), List.mem_filter.mpr
        ⟨List.mem_map_of_mem hcall, by simp [hfailed]⟩, ?_⟩
      simpa [HandlerResult.summary, herror, Text.hasNul, Text.nul] using hnul
  rw [List.any_cons, Bool.or_eq_true, hsummary]
  constructor
  · rintro (⟨call, hcall, traceback, hnot, houtcome, hnul⟩ | htexts)
    · exact ⟨call, hcall, hnot, by simpa [Call.hasNul, houtcome] using hnul⟩
    · obtain ⟨text, hmem, hnul⟩ := List.any_eq_true.mp htexts
      rcases mem_texts_recordResults state hmem with hbefore | ⟨r, hresult, hskipped, htext⟩
      · exact absurd hnul (by simpa using List.any_eq_false.mp hstate text hbefore)
      · obtain ⟨call, hcall, rfl⟩ := List.mem_map.mp hresult
        rw [Call.result_skipped] at hskipped
        refine ⟨call, hcall, hskipped, ?_⟩
        rcases htext with rfl | ⟨error, herror, rfl⟩
        · rw [Call.result_handlerName] at hnul
          simp [Call.hasNul, hnul]
        · cases houtcome : call.outcome with
          | returns => simp [Call.result, hskipped, houtcome] at herror
          | raises traceback =>
              have hsame : traceback = error := by
                simpa [Call.result, hskipped, houtcome] using herror
              subst hsame
              have htraceback : Text.hasNul traceback = true := by
                by_contra hfree
                simp [Text.hasNul_firstChars (Bool.eq_false_iff.mpr hfree)] at hnul
              simp [Call.hasNul, houtcome, htraceback]
  · rintro ⟨call, hcall, hnot, hnul⟩
    by_cases hname : Text.hasNul call.handler.name
    · refine Or.inr (List.any_eq_true.mpr ⟨call.handler.name, ?_, hname⟩)
      have hmem := handlerName_mem_texts now state
        (List.mem_map_of_mem (f := Call.result (completed state)) hcall) (by simp [hnot])
      rwa [Call.result_handlerName] at hmem
    · cases houtcome : call.outcome with
      | returns => simp [Call.hasNul, houtcome, hname] at hnul
      | raises traceback =>
          refine Or.inl ⟨call, hcall, traceback, hnot, houtcome, Or.inr ?_⟩
          simpa [Call.hasNul, houtcome, hname] using hnul

/-! ## What an attempt does to the row -/

theorem flush_eq_ok {texts : List Text} {event event' : OutboxEvent} :
    flush texts event = .ok event' ↔ texts.any Text.hasNul = false ∧ event' = event := by
  unfold flush
  by_cases htexts : texts.any Text.hasNul
  · simp [htexts]
  · simp [htexts, eq_comm]

/-- The result of dispatching an event to its handlers. -/
abbrev dispatchResult (event : OutboxEvent) (attempt : Attempt) : DispatchResult :=
  dispatch (completed event.handlerState) attempt.calls

/-- The `handler_state` that an attempt leaves. -/
abbrev newState (event : OutboxEvent) (attempt : Attempt) : HandlerState :=
  recordResults attempt.notedAt (dispatchResult event attempt).results event.handlerState

/-- The row that an attempt leaves, by the way it ends. -/
inductive Handled (event : OutboxEvent) (attempt : Attempt) : OutboxEvent → Prop
  | /-- Every handler was skipped or returned. -/
    processed (hall : (dispatchResult event attempt).allSucceeded = true)
      (hstored : (newState event attempt).texts.any Text.hasNul = false) :
      Handled event attempt
        { event with
          handlerState := newState event attempt
          status := .processed
          processedAt := some attempt.endedAt }
  | /-- A handler failed in the last attempt that the event has. -/
    failed (hall : (dispatchResult event attempt).allSucceeded = false)
      (hlast : event.maxRetries ≤ event.retryCount + 1)
      (hstored : ((dispatchResult event attempt).errorsSummary ::
        (newState event attempt).texts).any Text.hasNul = false) :
      Handled event attempt
        { event with
          handlerState := newState event attempt
          retryCount := event.retryCount + 1
          lastError := some (dispatchResult event attempt).errorsSummary
          status := .failed }
  | /-- A handler failed, and there is another attempt. -/
    retry (delay : ℤ) (hall : (dispatchResult event attempt).allSucceeded = false)
      (hnotLast : event.retryCount + 1 < event.maxRetries)
      (hdelay : backoff (event.retryCount + 1) attempt.jitter = some delay)
      (hstored : ((dispatchResult event attempt).errorsSummary ::
        (newState event attempt).texts).any Text.hasNul = false) :
      Handled event attempt
        { event with
          handlerState := newState event attempt
          retryCount := event.retryCount + 1
          lastError := some (dispatchResult event attempt).errorsSummary
          scheduledAt := attempt.endedAt + delay }

theorem handleEvent_eq_ok {event event' : OutboxEvent} {attempt : Attempt} :
    handleEvent event attempt = .ok event' ↔ Handled event attempt event' := by
  constructor
  · intro h
    unfold handleEvent at h
    dsimp only at h
    split at h
    · next hall =>
        obtain ⟨hstored, rfl⟩ := flush_eq_ok.mp h
        exact .processed hall hstored
    · next hall =>
        have hfailed := Bool.eq_false_iff.mpr hall
        split at h
        · next hlast =>
            obtain ⟨hstored, rfl⟩ := flush_eq_ok.mp h
            exact .failed hfailed hlast hstored
        · next hlast =>
            split at h
            · cases h
            · next delay hdelay =>
                obtain ⟨hstored, rfl⟩ := flush_eq_ok.mp h
                exact .retry delay hfailed (not_le.mp hlast) hdelay hstored
  · intro h
    unfold handleEvent
    dsimp only
    cases h with
    | processed hall hstored =>
        rw [if_pos hall]
        exact flush_eq_ok.mpr ⟨hstored, rfl⟩
    | failed hall hlast hstored =>
        rw [if_neg (by simp [hall]), if_pos hlast]
        exact flush_eq_ok.mpr ⟨hstored, rfl⟩
    | retry delay hall hnotLast hdelay hstored =>
        rw [if_neg (by simp [hall]), if_neg (not_le.mpr hnotLast), hdelay]
        exact flush_eq_ok.mpr ⟨hstored, rfl⟩

theorem Handled.id_eq {event event' : OutboxEvent} {attempt : Attempt}
    (h : Handled event attempt event') : event'.id = event.id := by
  cases h <;> rfl

/-- An attempt leaves alone what the event says. -/
theorem Handled.content_eq {event event' : OutboxEvent} {attempt : Attempt}
    (h : Handled event attempt event') :
    event'.eventType = event.eventType ∧ event'.payload = event.payload := by
  cases h <;> exact ⟨rfl, rfl⟩

end Apsis.Core.Events
