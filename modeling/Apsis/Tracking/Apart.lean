/-
# The rows of one call are apart

A call stores, for every pair, the passes that it has computed in one go, and
these are apart from each other. So is at any time what a transaction has written
of a pair, whatever the other calls do.
-/

import Apsis.Tracking.Calls

namespace Apsis.Tracking

open Apsis.Library Apsis.Core

universe u

variable {W : Type u}

/-- The passes that a call has computed and not yet stored are apart from each other
and from those of the pair that it has stored. -/
def PredictedApart (predictions : PredictionStore) (call : Recompute) : Place → Prop
  | .executing _ _ (.computed predicted) =>
      (predicted.map SatellitePass.interval).Pairwise AreApart
  | .executing _ _ (.deleting _ predicted) =>
      (predicted.map SatellitePass.interval).Pairwise AreApart
  | .executing station _ (.inserting predicted) =>
      ((predictions.written call.tx (isOf (call.satelliteId, station.id))).map
        PassPrediction.interval ++ predicted.map SatellitePass.interval).Pairwise AreApart
  | _ => True

/-- What any transaction has stored of a pair is apart. -/
structure WrittenApart (s : State W) : Prop where
  written : ∀ tx pair, ((s.predictions.written tx (isOf pair)).map
    PassPrediction.interval).Pairwise AreApart
  places : ∀ worker call place, s.handler worker = .running call place →
    PredictedApart s.predictions call place

variable [DecidableEq W] {sky : Skyfield} {settings : Settings}

/-- A worker goes on, and what has been written stays the same. -/
theorem WrittenApart.enter {s s' : State W} (hinv : WrittenApart s)
    (hwritten : ∀ tx pair, s'.predictions.written tx (isOf pair) =
      s.predictions.written tx (isOf pair)) {worker : W} {next : Handler}
    (hhandler : s'.handler = Function.update s.handler worker next)
    (hnext : ∀ call place, next = .running call place → PredictedApart s.predictions call place) :
    WrittenApart s' := by
  have hkept : ∀ call place, PredictedApart s.predictions call place →
      PredictedApart s'.predictions call place := by
    intro call place hapart
    unfold PredictedApart at hapart ⊢
    simpa only [hwritten] using hapart
  constructor
  · intro tx pair
    rw [hwritten]
    exact hinv.written tx pair
  · intro other call place hplace
    apply hkept
    rw [hhandler] at hplace
    by_cases hsame : other = worker
    · rw [hsame, Function.update_self] at hplace
      exact hnext call place hplace
    · rw [Function.update_of_ne hsame] at hplace
      exact hinv.places other call place hplace

/-- A transaction without rows of a pair has written none. -/
theorem written_eq_nil {predictions : PredictionStore} {tx : TxId} {pair : Pair}
    (hnone : ∀ version ∈ predictions.versions, version.row.pair = pair →
      version.insertedBy ≠ tx) : predictions.written tx (isOf pair) = [] := by
  simp only [Store.written, List.map_eq_nil_iff, List.filter_eq_nil_iff, isOf, Bool.and_eq_true,
    decide_eq_true_eq, not_and]
  exact hnone

/-- A worker drops its call, if it has one. -/
theorem WrittenApart.drop {h : History (State W) (Action W)} {s : State W}
    (hinv : WrittenApart s) (hok : CallsOk h s) (worker : W) {next : Handler}
    (hnext : next.tx? = none) : WrittenApart (s.drop worker next) := by
  have hfree : ∀ call place, next = .running call place →
      PredictedApart s.predictions call place := by
    rintro _ _ rfl
    cases hnext
  cases htx : (s.handler worker).tx? with
  | none =>
      rw [State.drop_of_none _ _ _ htx]
      exact hinv.enter (fun _ _ => rfl) rfl hfree
  | some tx =>
      rw [State.drop_of_tx _ _ _ htx]
      constructor
      · intro other pair
        by_cases hown : other = tx
        · rw [hown]
          show ((s.predictions.rollback tx).written tx (isOf pair)).map _ |>.Pairwise AreApart
          rw [Store.written_rollback_self]
          exact .nil
        · show ((s.predictions.rollback tx).written other (isOf pair)).map _ |>.Pairwise AreApart
          rw [Store.written_rollback hown]
          exact hinv.written other pair
      · intro other call place hplace
        by_cases hsame : other = worker
        · rw [hsame, State.enter_handler_self] at hplace
          rw [hplace] at hnext
          cases hnext
        · rw [State.enter_handler_of_ne _ _ _ hsame] at hplace
          have hother : call.tx ≠ tx := by
            rintro rfl
            exact hsame (hok.sessions.owner other worker call.tx
              (congrArg Handler.tx? hplace) htx)
          have hbefore := hinv.places other call place hplace
          unfold PredictedApart at hbefore ⊢
          simpa only [State.enter_predictions, Store.written_rollback hother] using hbefore

/-- A call creates a row. -/
theorem WrittenApart.create {h : History (State W) (Action W)} {s : State W}
    (hinv : WrittenApart s) (hok : CallsOk h s) {worker : W} {call : Recompute}
    {station : GroundStation} {stations : List GroundStation} {pass : SatellitePass}
    {predicted : List SatellitePass} {id : Uuid} {track : List (ℚ × ℚ)}
    {predictions : PredictionStore}
    (hplace : s.handler worker = .running call (.executing station stations
      (.inserting (pass :: predicted))))
    (hinsert : s.predictions.insert call.tx PassPrediction.conflicts
      (predictionOf id (call.satelliteId, station.id) pass track) = .inserted predictions) :
    WrittenApart (({ s with predictions := predictions } : State W).enter worker
      (.running call (.executing station stations (.inserting predicted)))) := by
  have hwritten := Store.written_insert hinsert
  have hbefore := hinv.places worker call _ hplace
  have hself : (predictions.written call.tx (isOf (call.satelliteId, station.id))).map
      PassPrediction.interval ++ predicted.map SatellitePass.interval =
        (s.predictions.written call.tx (isOf (call.satelliteId, station.id))).map
          PassPrediction.interval ++ (pass :: predicted).map SatellitePass.interval := by
    rw [hwritten, if_pos ⟨rfl, decide_eq_true rfl⟩, List.map_append, List.append_assoc]
    rfl
  have hall : ((predictions.written call.tx (isOf (call.satelliteId, station.id))).map
      PassPrediction.interval ++ predicted.map SatellitePass.interval).Pairwise AreApart := by
    rw [hself]
    exact hbefore
  constructor
  · intro tx pair
    by_cases hnew : call.tx = tx ∧ (call.satelliteId, station.id) = pair
    · obtain ⟨rfl, rfl⟩ := hnew
      exact (List.pairwise_append.mp hall).1
    · have hsame : predictions.written tx (isOf pair) = s.predictions.written tx (isOf pair) := by
        rw [hwritten, if_neg, List.append_nil]
        rintro ⟨htx, hpair⟩
        exact hnew ⟨htx, of_decide_eq_true hpair⟩
      show ((predictions.written tx (isOf pair)).map _).Pairwise AreApart
      rw [hsame]
      exact hinv.written tx pair
  · intro other call' place hother
    by_cases hsame : other = worker
    · rw [hsame, State.enter_handler_self] at hother
      cases hother
      exact hall
    · rw [State.enter_handler_of_ne _ _ _ hsame] at hother
      have htx : call.tx ≠ call'.tx := by
        intro htx
        apply hsame
        apply hok.sessions.owner other worker call.tx _ (congrArg Handler.tx? hplace)
        rw [htx]
        exact congrArg Handler.tx? hother
      have hapart := hinv.places other call' place hother
      unfold PredictedApart at hapart ⊢
      simpa [hwritten, htx] using hapart

/-- The step lemma for what calls write. -/
theorem writtenApart_step (hsky : sky.IsChronological) {h : History (State W) (Action W)}
    {s s' : State W} {a : Action W} (hok : CallsOk h s) (hinv : WrittenApart s)
    (heffect : StepEffect sky settings s a s') : WrittenApart s' := by
  have hkept : ∀ tx pair, s.predictions.written tx (isOf pair) =
      s.predictions.written tx (isOf pair) := fun _ _ => rfl
  cases heffect with
  | outbox _ _ _ => exact ⟨hinv.written, hinv.places⟩
  | refresh _ _ => exact ⟨hinv.written, hinv.places⟩
  | register _ => exact ⟨hinv.written, hinv.places⟩
  | @drop _ outbox worker _ _ _ =>
      have hok' : CallsOk h ({ s with outbox := outbox } : State W) := ⟨hok.sessions, hok.calls⟩
      have hinv' : WrittenApart ({ s with outbox := outbox } : State W) :=
        ⟨hinv.written, hinv.places⟩
      exact hinv'.drop hok' worker rfl
  | raises _ _ _ _ => exact hinv.drop hok _ rfl
  | unreadable _ => exact hinv.enter hkept rfl (not_running rfl)
  | call _ _ _ _ =>
      refine hinv.enter hkept rfl ?_
      rintro _ _ hnext
      cases hnext
      trivial
  | listAll _ _ =>
      refine hinv.enter hkept rfl ?_
      rintro _ _ hnext
      cases hnext
      trivial
  | getSatellite _ _ =>
      refine hinv.enter hkept rfl ?_
      rintro _ _ hnext
      cases hnext
      trivial
  | getStation _ =>
      refine hinv.enter hkept rfl ?_
      rintro _ _ hnext
      cases hnext
      trivial
  | leave _ =>
      refine hinv.enter hkept rfl ?_
      rintro _ _ hnext
      cases hnext
      trivial
  | compute _ hcompute =>
      refine hinv.enter hkept rfl ?_
      rintro _ _ hnext
      cases hnext
      exact computePasses_pairwise hsky hcompute
  | @beginDelete worker call _ _ _ hplace =>
      refine hinv.enter hkept rfl ?_
      rintro _ _ hnext
      cases hnext
      have hbefore := hinv.places worker call _ hplace
      exact hbefore
  | @deleteRow worker _ _ _ _ _ _ _ hplace hdelete =>
      refine hinv.enter (fun tx pair => Store.written_deleteAt hdelete tx (isOf pair))
        (Function.update_eq_self worker s.handler).symm ?_
      exact hinv.places worker
  | @endDelete worker call station stations snapshot predicted hplace hends =>
      refine hinv.enter hkept rfl ?_
      rintro _ _ hnext
      cases hnext
      -- The call has written nothing of the pair so far.
      have huntouched := (hok.calls.places worker call _ hplace).1
      have hnone := hok.calls.not_inserted (huntouched.2 station List.mem_cons_self)
      have hbefore := hinv.places worker call _ hplace
      show (((s.predictions.written call.tx _).map _) ++ _).Pairwise AreApart
      rw [written_eq_nil hnone]
      exact hbefore
  | create hplace _ hinsert => exact hinv.create hok hplace hinsert
  | commit _ => exact hinv.enter hkept rfl (not_running rfl)

theorem writtenApart_of_run (hsky : sky.IsChronological) {h : History (State W) (Action W)}
    {s : State W} (hrun : (recomputation sky settings).Run h s) : WrittenApart s := by
  apply hrun.invariant_of_step (I := fun _ s => WrittenApart s)
  · rintro s ⟨-, -, -, hempty, hidle⟩
    constructor
    · intro tx pair
      rw [hempty]
      exact .nil
    · intro worker call place hplace
      rw [hidle] at hplace
      cases hplace
  · intro h s a s' hprior hinv hstep
    exact writtenApart_step hsky (callsOk_of_run hprior) hinv (step_effect hstep)

end Apsis.Tracking
