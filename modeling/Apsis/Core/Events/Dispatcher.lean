/-
# The event dispatcher

`EventDispatcher` keeps, for every event type, the list of functions registered
for it, and runs them one after the other. Each call is caught on its own, so a
failure only shows in the results. A handler whose `__name__` is among the
completed ones is not called.

How a call ends is not the dispatcher's doing. A dispatch is therefore given
every registered handler together with the outcome that a call would have.
-/

import Mathlib.Data.List.Basic
import Mathlib.Logic.Function.Basic
import Apsis.Library.Text

namespace Apsis.Core.Events

open Apsis.Library

/-- A registered coroutine function. Nothing keeps two functions from having the
same `__name__`, so the identity of a function is a field of its own. -/
structure HandlerFunc where
  identity : ℕ
  name : Text
  deriving DecidableEq

/-- How a call of a handler ends: it returns, or it raises an `Exception`, the
`TimeoutError` of `wait_for` included, with this formatted traceback. -/
inductive Outcome
  | returns
  | raises (traceback : Text)
  deriving DecidableEq

/-- A registered handler and the way in which calling it ends. -/
structure Call where
  handler : HandlerFunc
  outcome : Outcome
  deriving DecidableEq

/-! ## Registration -/

/-- The handlers by event type, a `defaultdict(list)`. -/
abbrev EventDispatcher := Text → List HandlerFunc

namespace EventDispatcher

/-- The dispatcher without handlers. -/
def empty : EventDispatcher := fun _ => []

/-- `register`: append the function to the handlers of the event type. -/
def register (eventType : Text) (dispatcher : EventDispatcher) (func : HandlerFunc) :
    EventDispatcher :=
  Function.update dispatcher eventType (dispatcher eventType ++ [func])

/-- Register several functions for one event type, in order. -/
def registerAll (eventType : Text) (funcs : List HandlerFunc)
    (dispatcher : EventDispatcher) : EventDispatcher :=
  funcs.foldl (register eventType) dispatcher

end EventDispatcher

/-! ## Dispatch -/

/-- `HandlerResult` -/
structure HandlerResult where
  handlerName : Text
  success : Bool
  error : Option Text := none
  skipped : Bool := false
  deriving DecidableEq

/-- `DispatchResult` -/
structure DispatchResult where
  results : List HandlerResult := []
  deriving DecidableEq

/-- `f"[{r.handler_name}] {r.error}"` -/
def HandlerResult.summary (r : HandlerResult) : Text :=
  "[".toList ++ r.handlerName ++ "] ".toList ++ r.error.getD "None".toList

namespace DispatchResult

/-- `all_succeeded` -/
def allSucceeded (result : DispatchResult) : Bool :=
  result.results.all HandlerResult.success

/-- `errors_summary` -/
def errorsSummary (result : DispatchResult) : Text :=
  List.intercalate "\n---\n".toList
    ((result.results.filter fun r => !r.success).map HandlerResult.summary)

end DispatchResult

/-- One round of the loop of `dispatch`. -/
def Call.result (completed : Text → Bool) (call : Call) : HandlerResult :=
  if completed call.handler.name then
    { handlerName := call.handler.name, success := true, skipped := true }
  else
    match call.outcome with
    | .returns => { handlerName := call.handler.name, success := true }
    | .raises traceback =>
        { handlerName := call.handler.name, success := false, error := some traceback }

/-- `dispatch`, on the handlers registered for the event type. -/
def dispatch (completed : Text → Bool) (calls : List Call) : DispatchResult :=
  { results := calls.map (Call.result completed) }

section Result

variable {completed : Text → Bool} {call : Call}

@[simp]
theorem Call.result_handlerName : (call.result completed).handlerName = call.handler.name := by
  unfold result
  split
  · rfl
  · split <;> rfl

@[simp]
theorem Call.result_skipped :
    (call.result completed).skipped = completed call.handler.name := by
  unfold result
  split
  · next hcompleted => exact hcompleted.symm
  · next hcompleted => split <;> simp [hcompleted]

/-- A result is a success if the handler was skipped or returned. -/
theorem Call.result_success :
    (call.result completed).success = true ↔
      completed call.handler.name = true ∨ call.outcome = .returns := by
  unfold result
  split
  · next hcompleted => simp [hcompleted]
  · next hcompleted => split <;> simp_all

/-- A result is a failure with the traceback that the call raised. -/
theorem Call.result_failure {traceback : Text} :
    ((call.result completed).success = false ∧
        (call.result completed).error = some traceback) ↔
      completed call.handler.name = false ∧ call.outcome = .raises traceback := by
  unfold result
  split
  · next hcompleted => simp [hcompleted]
  · next hcompleted => split <;> simp_all

/-- A dispatch succeeds if every handler was skipped or returned. -/
theorem allSucceeded_dispatch {calls : List Call} :
    (dispatch completed calls).allSucceeded = true ↔ ∀ call ∈ calls,
      completed call.handler.name = true ∨ call.outcome = .returns := by
  simp only [DispatchResult.allSucceeded, dispatch, List.all_eq_true, List.mem_map]
  constructor
  · intro hall call hmem
    exact Call.result_success.mp (hall _ ⟨call, hmem, rfl⟩)
  · rintro hall _ ⟨call, hmem, rfl⟩
    exact Call.result_success.mpr (hall call hmem)

end Result

end Apsis.Core.Events
