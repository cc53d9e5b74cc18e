/-
# Calls of `recompute_passes` and the rows of a pair

What holds of the predictions whatever the calls do. An ended `DELETE` on a pair
is remembered with its snapshot, read off the history. Every row of the pair in
that snapshot stays deleted as long as the transaction of the call is not rolled
back; the call inserts rows of the pair afterwards only; and whoever has deleted
a row had it in its snapshot.
-/

import Apsis.Library.Sessions
import Apsis.Tracking.Recompute

namespace Apsis.Tracking

open Apsis.Library Apsis.Core

universe u

variable {W : Type u}

/-! ## Ended deletes -/

/-- The `DELETE` that a transition ends: its transaction, its pair and its
snapshot. -/
def deleteBy (t : Transition (State W) (Action W)) : Option ((TxId × Pair) × List TxId) :=
  match t.action with
  | .recompute worker .endDelete =>
      match t.source.handler worker with
      | .running call (.executing station _ (.deleting snapshot _)) =>
          some ((call.tx, (call.satelliteId, station.id)), snapshot)
      | _ => none
  | _ => none

/-- The snapshot of the `DELETE` that a transaction has ended on a pair. -/
def snapshotOf (h : History (State W) (Action W)) (tx : TxId) (pair : Pair) :
    Option (List TxId) :=
  h.recorded (fun _ => deleteBy) (tx, pair)

theorem snapshotOf_cons_of_none {t : Transition (State W) (Action W)} (hnone : deleteBy t = none)
    (h : History (State W) (Action W)) : snapshotOf (t :: h) = snapshotOf h := by
  ext1 tx
  ext1 pair
  exact History.recorded_cons_of_none hnone (tx, pair)

theorem snapshotOf_cons_of_some {t : Transition (State W) (Action W)}
    {noted : (TxId × Pair) × List TxId} (hsome : deleteBy t = some noted)
    (h : History (State W) (Action W)) (tx : TxId) (pair : Pair) :
    snapshotOf (t :: h) tx pair =
      if noted.1 = (tx, pair) then some noted.2 else snapshotOf h tx pair := by
  rw [snapshotOf, History.recorded, hsome]
  rfl

theorem deleteBy_eq_some {t : Transition (State W) (Action W)}
    {noted : (TxId × Pair) × List TxId} (hsome : deleteBy t = some noted) :
    ∃ worker call station stations predicted,
      t.source.handler worker =
        .running call (.executing station stations (.deleting noted.2 predicted)) ∧
        noted.1 = (call.tx, (call.satelliteId, station.id)) := by
  unfold deleteBy at hsome
  split at hsome
  · next worker _ =>
      split at hsome
      · next call station stations snapshot predicted hplace =>
          cases hsome
          exact ⟨worker, call, station, stations, predicted, hplace, rfl⟩
      · cases hsome
  · cases hsome

/-! ## The invariant -/

/-- The transaction that a transition commits. -/
def commitBy (t : Transition (State W) (Action W)) : Option TxId :=
  match t.action with
  | .recompute worker .commit => (t.source.handler worker).tx?
  | _ => none

/-- Nothing is noted of a call for these stations, which are different ones. -/
def Untouched {β : Type} (notes : Pair → Option β) (call : Recompute)
    (stations : List GroundStation) : Prop :=
  (stations.map GroundStation.id).Nodup ∧
    ∀ station ∈ stations, notes (call.satelliteId, station.id) = none

/-- What a call has done at its place, by the snapshots of its ended `DELETE`s. -/
def PlaceOk (ended : Pair → Option (List TxId)) (committed : List TxId) (call : Recompute) :
    Place → Prop
  | .listing => ∀ pair, ended pair = none
  | .looping stations => Untouched ended call stations
  | .executing station stations (.deleting snapshot _) =>
      Untouched ended call (station :: stations) ∧ ∀ y ∈ snapshot, y ∈ committed
  | .executing station stations (.inserting _) =>
      Untouched ended call stations ∧ station.id ∉ stations.map GroundStation.id ∧
        ∃ snapshot, ended (call.satelliteId, station.id) = some snapshot
  | .executing station stations _ => Untouched ended call (station :: stations)

section Invariant

variable (snapshots : TxId → Pair → Option (List TxId))

/-- The `DELETE` that a transaction has ended, or is executing, on a pair had this
transaction in its snapshot. -/
def HasSeen (handler : W → Handler) (tx : TxId) (pair : Pair) (other : TxId) : Prop :=
  (∃ snapshot, snapshots tx pair = some snapshot ∧ other ∈ snapshot) ∨
    ∃ worker call station stations snapshot predicted,
      handler worker = .running call (.executing station stations (.deleting snapshot predicted)) ∧
        call.tx = tx ∧ (call.satelliteId, station.id) = pair ∧ other ∈ snapshot

/-- The calls and the predictions. -/
structure Calls (predictions : PredictionStore) (nextTx : TxId) (handler : W → Handler) :
    Prop where
  noted : ∀ tx pair snapshot, snapshots tx pair = some snapshot →
    tx < nextTx ∧ ∀ y ∈ snapshot, y ∈ predictions.committed
  cleared : ∀ tx pair snapshot, snapshots tx pair = some snapshot →
    IsLive predictions (fun worker => (handler worker).tx?) tx →
      predictions.Cleared tx snapshot (isOf pair)
  inserted : ∀ version ∈ predictions.versions,
    ∃ snapshot, snapshots version.insertedBy version.row.pair = some snapshot
  deleted : ∀ version ∈ predictions.versions, ∀ y ∈ version.deletedBy,
    version.insertedBy ∈ predictions.committed ∧
      HasSeen snapshots handler y version.row.pair version.insertedBy
  places : ∀ worker call place, handler worker = .running call place →
    PlaceOk (snapshots call.tx) predictions.committed call place

end Invariant

variable {snapshots : TxId → Pair → Option (List TxId)} {predictions predictions' : PredictionStore}
  {nextTx : TxId} {handler : W → Handler}

theorem PlaceOk.mono {ended : Pair → Option (List TxId)} {committed committed' : List TxId}
    {call : Recompute} {place : Place} (h : PlaceOk ended committed call place)
    (hmono : ∀ y ∈ committed, y ∈ committed') : PlaceOk ended committed' call place := by
  cases place with
  | listing => exact h
  | looping stations => exact h
  | executing station stations execution =>
      cases execution with
      | deleting snapshot predicted => exact ⟨h.1, fun y hy => hmono y (h.2 y hy)⟩
      | located satellite => exact h
      | computing satellite => exact h
      | computed predicted => exact h
      | inserting predicted => exact h

/-- A pair on which a transaction has ended no `DELETE` has no rows of it. -/
theorem Calls.not_inserted (h : Calls snapshots predictions nextTx handler) {tx : TxId}
    {pair : Pair} (hnone : snapshots tx pair = none) :
    ∀ version ∈ predictions.versions, version.row.pair = pair → version.insertedBy ≠ tx := by
  intro version hmem hpair hown
  obtain ⟨snapshot, hsome⟩ := h.inserted version hmem
  rw [hown, hpair, hnone] at hsome
  cases hsome

/-! ## Steps of a call -/

section Steps

variable [DecidableEq W] {worker : W} {call : Recompute} {place : Place} {station : GroundStation}
  {stations : List GroundStation}

/-- A handler that keeps its transaction leaves the open transactions as they are. -/
theorem tx_update_of_eq {next : Handler} (htx : next.tx? = (handler worker).tx?) :
    (fun other => (Function.update handler worker next other).tx?) =
      fun other => (handler other).tx? := by
  ext1 other
  by_cases hsame : other = worker
  · rw [hsame, Function.update_self, htx]
  · rw [Function.update_of_ne hsame]

theorem tx_update (next : Handler) :
    (fun other => (Function.update handler worker next other).tx?) =
      Function.update (fun other => (handler other).tx?) worker next.tx? := by
  ext1 other
  by_cases hsame : other = worker
  · rw [hsame, Function.update_self, Function.update_self]
  · rw [Function.update_of_ne hsame, Function.update_of_ne hsame]

/-- What was seen stays seen when a worker goes on that was not in the middle of
this `DELETE`. -/
theorem HasSeen.update {tx other : TxId} {pair : Pair}
    (h : HasSeen snapshots handler tx pair other) {next : Handler}
    (hnot : ∀ call station stations snapshot predicted,
      handler worker = .running call (.executing station stations (.deleting snapshot predicted)) →
        call.tx ≠ tx) :
    HasSeen snapshots (Function.update handler worker next) tx pair other := by
  refine h.imp_right ?_
  rintro ⟨deleter, call, station, stations, snapshot, predicted, hplace, htx, hrest⟩
  refine ⟨deleter, call, station, stations, snapshot, predicted, ?_, htx, hrest⟩
  rw [Function.update_of_ne, hplace]
  rintro rfl
  exact hnot call station stations snapshot predicted hplace htx

/-- Places after a worker has gone on. -/
theorem places_update {P : Recompute → Place → Prop}
    (h : ∀ worker call place, handler worker = .running call place → P call place)
    {next : Handler} (hnext : ∀ call place, next = .running call place → P call place) :
    ∀ other call place, Function.update handler worker next other = .running call place →
      P call place := by
  intro other call place hother
  by_cases hsame : other = worker
  · rw [hsame, Function.update_self] at hother
    exact hnext call place hother
  · rw [Function.update_of_ne hsame] at hother
    exact h other call place hother

omit [DecidableEq W] in
/-- A handler without a transaction is at no place. -/
theorem not_running {P : Recompute → Place → Prop} {next : Handler} (hnext : next.tx? = none) :
    ∀ call place, next = .running call place → P call place := by
  rintro _ _ rfl
  cases hnext

/-- A call goes on without touching the predictions. -/
theorem Calls.move (h : Calls snapshots predictions nextTx handler) {place' : Place}
    (hplace : handler worker = .running call place)
    (hnot : ∀ station stations snapshot predicted,
      place ≠ .executing station stations (.deleting snapshot predicted))
    (hok : PlaceOk (snapshots call.tx) predictions.committed call place') :
    Calls snapshots predictions nextTx (Function.update handler worker (.running call place')) := by
  constructor
  · exact h.noted
  · rw [tx_update_of_eq (by rw [hplace]; rfl)]
    exact h.cleared
  · exact h.inserted
  · intro version hmem y hy
    obtain ⟨hinserted, hseen⟩ := h.deleted version hmem y hy
    refine ⟨hinserted, hseen.update ?_⟩
    intro _ station stations snapshot predicted hdeleting
    rw [hplace] at hdeleting
    cases hdeleting
    exact absurd rfl (hnot station stations snapshot predicted)
  · apply places_update h.places
    rintro _ _ hnext
    cases hnext
    exact hok

/-- A worker without a transaction goes on. -/
theorem Calls.idle (h : Calls snapshots predictions nextTx handler) {next : Handler}
    (hfree : (handler worker).tx? = none) (hnext : next.tx? = none) :
    Calls snapshots predictions nextTx (Function.update handler worker next) := by
  constructor
  · exact h.noted
  · rw [tx_update_of_eq (hnext.trans hfree.symm)]
    exact h.cleared
  · exact h.inserted
  · intro version hmem y hy
    obtain ⟨hinserted, hseen⟩ := h.deleted version hmem y hy
    refine ⟨hinserted, hseen.update ?_⟩
    intro _ _ _ _ _ hdeleting
    rw [hdeleting] at hfree
    cases hfree
  · apply places_update h.places
    rintro _ _ rfl
    cases hnext

/-- A call begins. -/
theorem Calls.begin (h : Calls snapshots predictions nextTx handler) {satelliteId : Uuid}
    {window : Time × Time} (hidle : handler worker = .idle) :
    Calls snapshots predictions (nextTx + 1) (Function.update handler worker
      (.running ⟨nextTx, satelliteId, window⟩ .listing)) := by
  have hnew : ∀ pair, snapshots nextTx pair = none := by
    intro pair
    cases hsome : snapshots nextTx pair with
    | none => rfl
    | some snapshot => exact absurd (h.noted _ _ _ hsome).1 (Nat.lt_irrefl nextTx)
  constructor
  · intro tx pair snapshot hsome
    obtain ⟨hlt, hsnapshot⟩ := h.noted tx pair snapshot hsome
    exact ⟨Nat.lt_succ_of_lt hlt, hsnapshot⟩
  · intro tx pair snapshot hsome hlive
    apply h.cleared tx pair snapshot hsome
    refine hlive.imp_right ?_
    rintro ⟨other, hother⟩
    refine ⟨other, ?_⟩
    dsimp only at hother
    rw [Function.update_of_ne] at hother
    · exact hother
    · rintro rfl
      rw [Function.update_self] at hother
      cases hother
      rw [hnew] at hsome
      cases hsome
  · exact h.inserted
  · intro version hmem y hy
    obtain ⟨hinserted, hseen⟩ := h.deleted version hmem y hy
    refine ⟨hinserted, hseen.update ?_⟩
    intro _ _ _ _ _ hdeleting
    rw [hidle] at hdeleting
    cases hdeleting
  · apply places_update h.places
    rintro _ _ hnext
    cases hnext
    exact hnew

/-- A call is given up. -/
theorem Calls.rollback (h : Calls snapshots predictions nextTx handler)
    (hsessions : Sessions predictions nextTx fun worker => (handler worker).tx?)
    (hplace : handler worker = .running call place) {next : Handler} (hnext : next.tx? = none) :
    Calls snapshots (predictions.rollback call.tx) nextTx
      (Function.update handler worker next) := by
  have hopen : (handler worker).tx? = some call.tx := by
    rw [hplace]
    rfl
  have huncommitted := hsessions.uncommitted worker call.tx hopen
  constructor
  · exact h.noted
  · intro tx pair snapshot hsome hlive
    rw [tx_update, hnext] at hlive
    rcases hlive with hcommitted | ⟨other, hother⟩
    · apply (h.cleared tx pair snapshot hsome (Or.inl hcommitted)).rollback _ huncommitted
      rintro rfl
      exact huncommitted hcommitted
    · obtain ⟨hne, hother⟩ := Sessions.opened_of_update hother
      apply (h.cleared tx pair snapshot hsome (Or.inr ⟨other, hother⟩)).rollback _ huncommitted
      rintro rfl
      exact hne (hsessions.owner other worker call.tx hother hopen)
  · intro version hmem
    obtain ⟨before, hbefore, -, rfl⟩ := Store.mem_rollback.mp hmem
    rw [Store.restore_insertedBy, Store.restore_row]
    exact h.inserted before hbefore
  · intro version hmem y hy
    obtain ⟨before, hbefore, -, rfl⟩ := Store.mem_rollback.mp hmem
    obtain ⟨hy, hne⟩ := Store.mem_deletedBy_restore.mp hy
    rw [Store.restore_insertedBy, Store.restore_row]
    obtain ⟨hinserted, hseen⟩ := h.deleted before hbefore y hy
    refine ⟨hinserted, hseen.update ?_⟩
    intro _ _ _ _ _ hdeleting htx
    rw [hplace] at hdeleting
    cases hdeleting
    exact hne htx.symm
  · apply places_update h.places
    rintro _ _ rfl
    cases hnext

omit [DecidableEq W] in
/-- A `DELETE` marks a row. -/
theorem Calls.deleteRow (h : Calls snapshots predictions nextTx handler) {snapshot : List TxId}
    {predicted : List SatellitePass} {index : ℕ}
    (hplace : handler worker = .running call (.executing station stations
      (.deleting snapshot predicted)))
    (hdelete : predictions.deleteAt call.tx snapshot (isOf (call.satelliteId, station.id))
      index = some predictions') : Calls snapshots predictions' nextTx handler := by
  obtain ⟨hstations, hsnapshot⟩ := h.places worker call _ hplace
  have hcommitted := Store.deleteAt_committed hdelete
  constructor
  · rw [hcommitted]
    exact h.noted
  · intro tx pair snapshot' hsome hlive
    rw [IsLive, hcommitted] at hlive
    exact (h.cleared tx pair snapshot' hsome hlive).deleteAt hdelete
  · intro version hmem
    rcases Store.mem_of_mem_deleteAt hdelete hmem with hmem | ⟨before, hbefore, -, -, rfl⟩
    · exact h.inserted version hmem
    · exact h.inserted before hbefore
  · intro version hmem y hy
    rw [hcommitted]
    rcases Store.mem_of_mem_deleteAt hdelete hmem with hmem | ⟨before, hbefore, hrow, hvisible, rfl⟩
    · exact h.deleted version hmem y hy
    · cases hy
      have hpair : before.row.pair = (call.satelliteId, station.id) := of_decide_eq_true hrow
      -- The call has no rows of the pair yet, so it sees this one in its snapshot.
      have hother := h.not_inserted (hstations.2 station List.mem_cons_self) before hbefore hpair
      have hseen := hvisible.1.resolve_left hother
      exact ⟨hsnapshot _ hseen, Or.inr ⟨worker, call, station, stations, snapshot, predicted,
        hplace, rfl, hpair.symm, hseen⟩⟩
  · rw [hcommitted]
    exact h.places

/-- A `DELETE` ends. -/
theorem Calls.endDelete (h : Calls snapshots predictions nextTx handler)
    (hsessions : Sessions predictions nextTx fun worker => (handler worker).tx?)
    {snapshots' : TxId → Pair → Option (List TxId)} {snapshot : List TxId}
    {predicted : List SatellitePass}
    (hplace : handler worker = .running call (.executing station stations
      (.deleting snapshot predicted)))
    (hends : predictions.DeleteEnds call.tx snapshot (isOf (call.satelliteId, station.id)))
    (hnoted : ∀ tx pair, snapshots' tx pair =
      if (call.tx, (call.satelliteId, station.id)) = (tx, pair) then some snapshot
      else snapshots tx pair) :
    Calls snapshots' predictions nextTx (Function.update handler worker
      (.running call (.executing station stations (.inserting predicted)))) := by
  obtain ⟨⟨hnodup, hnone⟩, hsnapshot⟩ := h.places worker call _ hplace
  have hopen : (handler worker).tx? = some call.tx := congrArg Handler.tx? hplace
  obtain ⟨hnotMem, hnodup⟩ := List.nodup_cons.mp hnodup
  have hself : snapshots' call.tx (call.satelliteId, station.id) = some snapshot := by
    rw [hnoted, if_pos rfl]
  -- A snapshot that is noted now was noted before, or it is this one.
  have hcases : ∀ tx pair noted, snapshots' tx pair = some noted →
      (tx = call.tx ∧ pair = (call.satelliteId, station.id) ∧ noted = snapshot) ∨
        snapshots tx pair = some noted := by
    intro tx pair noted hsome
    rw [hnoted] at hsome
    split at hsome
    · next hsame =>
        cases hsame
        cases hsome
        exact Or.inl ⟨rfl, rfl, rfl⟩
    · exact Or.inr hsome
  have hkept : ∀ tx pair noted, snapshots tx pair = some noted →
      snapshots' tx pair = some noted := by
    intro tx pair noted hsome
    rw [hnoted, if_neg, hsome]
    rintro hsame
    cases hsame
    rw [hnone station List.mem_cons_self] at hsome
    cases hsome
  constructor
  · intro tx pair noted hsome
    rcases hcases tx pair noted hsome with ⟨rfl, -, rfl⟩ | hsome
    · exact ⟨hsessions.numbered _ (Or.inr ⟨worker, hopen⟩), hsnapshot⟩
    · exact h.noted tx pair noted hsome
  · rw [tx_update_of_eq (by rw [hplace]; rfl)]
    intro tx pair noted hsome hlive
    rcases hcases tx pair noted hsome with ⟨rfl, rfl, rfl⟩ | hsome
    · exact hends.cleared
    · exact h.cleared tx pair noted hsome hlive
  · intro version hmem
    obtain ⟨noted, hsome⟩ := h.inserted version hmem
    exact ⟨noted, hkept _ _ _ hsome⟩
  · intro version hmem y hy
    obtain ⟨hinserted, hseen⟩ := h.deleted version hmem y hy
    refine ⟨hinserted, ?_⟩
    rcases hseen with ⟨noted, hsome, hmemNoted⟩ |
      ⟨deleter, call', station', stations', noted, predicted', hdeleting, htx, hpair, hmemNoted⟩
    · exact Or.inl ⟨noted, hkept _ _ _ hsome, hmemNoted⟩
    · by_cases hsame : deleter = worker
      · subst hsame
        rw [hplace] at hdeleting
        cases hdeleting
        exact Or.inl ⟨snapshot, by rw [← htx, ← hpair, hself], hmemNoted⟩
      · refine Or.inr ⟨deleter, call', station', stations', noted, predicted', ?_, htx, hpair,
          hmemNoted⟩
        rw [Function.update_of_ne hsame, hdeleting]
  · intro other call' place' hother
    by_cases hsame : other = worker
    · rw [hsame, Function.update_self] at hother
      cases hother
      refine ⟨⟨hnodup, fun station' hmem => ?_⟩, hnotMem, snapshot, hself⟩
      rw [hnoted, if_neg, hnone station' (List.mem_cons_of_mem station hmem)]
      rintro hequal
      apply hnotMem
      rw [(Prod.mk.inj (Prod.mk.inj hequal).2).2]
      exact List.mem_map_of_mem hmem
    · rw [Function.update_of_ne hsame] at hother
      have hkeep : snapshots' call'.tx = snapshots call'.tx := by
        ext1 pair
        rw [hnoted, if_neg]
        rintro hequal
        apply hsame
        apply hsessions.owner other worker call.tx _ hopen
        rw [(Prod.mk.inj hequal).1]
        exact congrArg Handler.tx? hother
      rw [hkeep]
      exact h.places other call' place' hother

/-- A call creates a row. -/
theorem Calls.create (h : Calls snapshots predictions nextTx handler)
    (hsessions : Sessions predictions nextTx fun worker => (handler worker).tx?)
    {pass : SatellitePass} {predicted : List SatellitePass} {id : Uuid} {track : List (ℚ × ℚ)}
    (hplace : handler worker = .running call (.executing station stations
      (.inserting (pass :: predicted))))
    (hinsert : predictions.insert call.tx PassPrediction.conflicts
      (predictionOf id (call.satelliteId, station.id) pass track) = .inserted predictions') :
    Calls snapshots predictions' nextTx (Function.update handler worker
      (.running call (.executing station stations (.inserting predicted)))) := by
  have hok := h.places worker call _ hplace
  have huncommitted := hsessions.uncommitted worker call.tx (by rw [hplace]; rfl)
  have hmoved : Calls snapshots predictions nextTx (Function.update handler worker
      (.running call (.executing station stations (.inserting predicted)))) :=
    h.move hplace (by simp) hok
  have hcleared : ∀ tx pair snapshot, snapshots tx pair = some snapshot →
      predictions.Cleared tx snapshot (isOf pair) →
        predictions'.Cleared tx snapshot (isOf pair) := by
    intro tx pair snapshot hsome hbefore
    apply hbefore.insert _ hinsert
    exact fun hmem => huncommitted ((h.noted tx pair snapshot hsome).2 _ hmem)
  have heq := Store.insert_eq_inserted hinsert
  constructor
  · rw [heq]
    exact hmoved.noted
  · intro tx pair snapshot hsome hlive
    rw [heq] at hlive
    exact hcleared tx pair snapshot hsome (hmoved.cleared tx pair snapshot hsome hlive)
  · rw [heq]
    intro version hmem
    rcases List.mem_append.mp hmem with hmem | hmem
    · exact h.inserted version hmem
    · rw [List.mem_singleton.mp hmem]
      exact hok.2.2
  · rw [heq]
    intro version hmem y hy
    rcases List.mem_append.mp hmem with hmem | hmem
    · exact hmoved.deleted version hmem y hy
    · rw [List.mem_singleton.mp hmem] at hy
      cases hy
  · rw [heq]
    exact hmoved.places

/-- A call commits. -/
theorem Calls.commit (h : Calls snapshots predictions nextTx handler)
    (hplace : handler worker = .running call (.looping [])) :
    Calls snapshots (predictions.commit call.tx) nextTx
      (Function.update handler worker (.ended true)) := by
  have hmono : ∀ y ∈ predictions.committed, y ∈ (predictions.commit call.tx).committed :=
    fun y hy => List.mem_cons_of_mem _ hy
  constructor
  · intro tx pair snapshot hsome
    obtain ⟨hlt, hsnapshot⟩ := h.noted tx pair snapshot hsome
    exact ⟨hlt, fun y hy => hmono y (hsnapshot y hy)⟩
  · intro tx pair snapshot hsome hlive
    apply Store.Cleared.commit
    apply h.cleared tx pair snapshot hsome
    rcases hlive with hcommitted | ⟨other, hother⟩
    · rcases List.mem_cons.mp hcommitted with rfl | hcommitted
      · exact Or.inr ⟨worker, congrArg Handler.tx? hplace⟩
      · exact Or.inl hcommitted
    · rw [tx_update] at hother
      exact Or.inr ⟨other, (Sessions.opened_of_update hother).2⟩
  · exact h.inserted
  · intro version hmem y hy
    obtain ⟨hinserted, hseen⟩ := h.deleted version hmem y hy
    refine ⟨hmono _ hinserted, hseen.update ?_⟩
    intro _ _ _ _ _ hdeleting
    rw [hplace] at hdeleting
    cases hdeleting
  · apply places_update
    · intro other call' place' hother
      exact (h.places other call' place' hother).mono hmono
    · rintro _ _ hnext
      cases hnext

end Steps

/-! ## Along a run -/

variable [DecidableEq W] {sky : Skyfield} {settings : Settings}

/-- The transactions before the first one of a run have deleted nothing that anyone
saw: for them an empty snapshot stands in. -/
def snapshotFrom (first : TxId) (h : History (State W) (Action W)) (tx : TxId) (pair : Pair) :
    Option (List TxId) :=
  if tx < first then some [] else snapshotOf h tx pair

/-- The sessions of the calls, and the calls, in a run whose first transaction is
this one. -/
structure CallsFrom (first : TxId) (h : History (State W) (Action W)) (s : State W) : Prop where
  sessions : Sessions s.predictions s.nextTx fun worker => (s.handler worker).tx?
  calls : Calls (snapshotFrom first h) s.predictions s.nextTx s.handler

omit [DecidableEq W] in
theorem Handler.tx?_eq_some {handler : Handler} {tx : TxId} :
    handler.tx? = some tx ↔ ∃ call place, handler = .running call place ∧ call.tx = tx := by
  cases handler <;> simp [Handler.tx?]

/-- A worker drops its call, if it has one. -/
theorem CallsFrom.drop {first : TxId} {h : History (State W) (Action W)} {s : State W}
    (hinv : CallsFrom first h s) (worker : W) {next : Handler} (hnext : next.tx? = none) :
    CallsFrom first h (s.drop worker next) := by
  cases hopen : (s.handler worker).tx? with
  | some tx =>
      obtain ⟨call, place, hhandler, rfl⟩ := Handler.tx?_eq_some.mp hopen
      rw [State.drop_of_tx _ _ _ hopen]
      constructor
      · show Sessions (s.predictions.rollback call.tx) s.nextTx
          fun other => (Function.update s.handler worker next other).tx?
        rw [tx_update, hnext]
        exact hinv.sessions.rollback hopen
      · exact hinv.calls.rollback hinv.sessions hhandler hnext
  | none =>
      rw [State.drop_of_none _ _ _ hopen]
      constructor
      · show Sessions s.predictions s.nextTx
          fun other => (Function.update s.handler worker next other).tx?
        rw [tx_update_of_eq (hnext.trans hopen.symm)]
        exact hinv.sessions
      · exact hinv.calls.idle hopen hnext

/-- A call goes on without touching the predictions. -/
theorem CallsFrom.move {first : TxId} {h : History (State W) (Action W)} {s : State W}
    (hinv : CallsFrom first h s) {worker : W} {call : Recompute} {place place' : Place}
    (hplace : s.handler worker = .running call place)
    (hnot : ∀ station stations snapshot predicted,
      place ≠ .executing station stations (.deleting snapshot predicted))
    (hok : PlaceOk (snapshotFrom first h call.tx) s.predictions.committed call place') :
    CallsFrom first h (s.enter worker (.running call place')) := by
  constructor
  · show Sessions s.predictions s.nextTx
      fun other => (Function.update s.handler worker (.running call place') other).tx?
    rw [tx_update_of_eq (by rw [hplace]; rfl)]
    exact hinv.sessions
  · exact hinv.calls.move hplace hnot hok

omit [DecidableEq W] in
theorem snapshotFrom_cons_of_none {first : TxId} {t : Transition (State W) (Action W)}
    (hnone : deleteBy t = none) (h : History (State W) (Action W)) :
    snapshotFrom first (t :: h) = snapshotFrom first h := by
  unfold snapshotFrom
  rw [snapshotOf_cons_of_none hnone]

omit [DecidableEq W] in
theorem snapshotFrom_cons_of_some {first : TxId} {t : Transition (State W) (Action W)}
    {noted : (TxId × Pair) × List TxId} (hsome : deleteBy t = some noted)
    (hfirst : first ≤ noted.1.1) (h : History (State W) (Action W)) (tx : TxId) (pair : Pair) :
    snapshotFrom first (t :: h) tx pair =
      if noted.1 = (tx, pair) then some noted.2 else snapshotFrom first h tx pair := by
  unfold snapshotFrom
  rw [snapshotOf_cons_of_some hsome h tx pair]
  by_cases htx : tx < first
  · rw [if_pos htx, if_neg, if_pos htx]
    intro hsame
    rw [hsame] at hfirst
    exact Nat.not_lt.mpr hfirst htx
  · rw [if_neg htx, if_neg htx]

omit [DecidableEq W] in
theorem CallsFrom.cons {first : TxId} {h : History (State W) (Action W)} {s : State W}
    (hinv : CallsFrom first h s) {t : Transition (State W) (Action W)}
    (hnone : deleteBy t = none) : CallsFrom first (t :: h) s := by
  refine ⟨hinv.sessions, ?_⟩
  rw [snapshotFrom_cons_of_none hnone]
  exact hinv.calls

omit [DecidableEq W] in
/-- A call that has not ended a `DELETE` is one of the run. -/
theorem first_le_of_snapshotFrom {first : TxId} {h : History (State W) (Action W)} {tx : TxId}
    {pair : Pair} (hnone : snapshotFrom first h tx pair = none) : first ≤ tx := by
  unfold snapshotFrom at hnone
  split at hnone
  · cases hnone
  · next hle => exact Nat.le_of_not_lt hle

/-- The step lemma. -/
theorem callsFrom_step {first : TxId} {h : History (State W) (Action W)} {s s' : State W}
    {a : Action W} (hinv : CallsFrom first h s) (heffect : StepEffect sky settings s a s') :
    CallsFrom first (⟨s, a, s'⟩ :: h) s' := by
  cases heffect with
  | outbox _ _ _ =>
      refine CallsFrom.cons ?_ rfl
      exact ⟨hinv.sessions, hinv.calls⟩
  | @drop action outbox worker _ _ _ =>
      refine CallsFrom.cons ?_ rfl
      have hinv' : CallsFrom first h ({ s with outbox := outbox } : State W) :=
        ⟨hinv.sessions, hinv.calls⟩
      exact hinv'.drop worker rfl
  | @unreadable worker hidle =>
      refine CallsFrom.cons ?_ rfl
      rw [← State.drop_of_none _ _ _ (congrArg Handler.tx? hidle)]
      exact hinv.drop worker rfl
  | @call worker _ _ satelliteId window _ _ _ hidle =>
      refine CallsFrom.cons ?_ rfl
      constructor
      · show Sessions s.predictions (s.nextTx + 1) fun other => (Function.update s.handler worker
          (.running ⟨s.nextTx, satelliteId, window⟩ .listing) other).tx?
        rw [tx_update]
        exact hinv.sessions.begin (congrArg Handler.tx? hidle)
      · exact hinv.calls.begin hidle
  | @raises worker _ _ statement _ hdelete _ _ =>
      refine CallsFrom.cons (hinv.drop worker rfl) ?_
      cases statement with
      | endDelete => exact absurd rfl hdelete
      | _ => rfl
  | @listAll worker call order hplace horder =>
      refine CallsFrom.cons (hinv.move hplace (by simp) ?_) rfl
      refine ⟨(horder.map GroundStation.id).nodup_iff.mpr s.stations.nodup, fun station _ => ?_⟩
      exact hinv.calls.places worker call _ hplace (call.satelliteId, station.id)
  | @getSatellite worker call _ _ _ hplace _ =>
      have hok := hinv.calls.places worker call _ hplace
      refine CallsFrom.cons (hinv.move hplace (by simp) ?_) rfl
      exact hok
  | @getStation worker call _ _ _ hplace =>
      have hok := hinv.calls.places worker call _ hplace
      refine CallsFrom.cons (hinv.move hplace (by simp) ?_) rfl
      exact hok
  | @compute worker call _ _ _ _ hplace _ =>
      have hok := hinv.calls.places worker call _ hplace
      refine CallsFrom.cons (hinv.move hplace (by simp) ?_) rfl
      exact hok
  | @beginDelete worker call _ _ _ hplace =>
      refine CallsFrom.cons (hinv.move hplace (by simp) ?_) rfl
      exact ⟨hinv.calls.places worker call _ hplace, fun _ => id⟩
  | @leave worker call _ _ hplace =>
      refine CallsFrom.cons (hinv.move hplace (by simp) ?_) rfl
      exact (hinv.calls.places worker call _ hplace).1
  | @deleteRow worker call _ _ _ _ _ _ hplace hdelete =>
      refine CallsFrom.cons ?_ rfl
      exact ⟨hinv.sessions.deleteAt (congrArg Handler.tx? hplace) hdelete,
        hinv.calls.deleteRow hplace hdelete⟩
  | @endDelete worker call station stations snapshot predicted hplace hends =>
      constructor
      · show Sessions s.predictions s.nextTx fun other => (Function.update s.handler worker
          (.running call (.executing station stations (.inserting predicted))) other).tx?
        rw [tx_update_of_eq (by rw [hplace]; rfl)]
        exact hinv.sessions
      · apply hinv.calls.endDelete hinv.sessions hplace hends
        intro tx pair
        have hnote : deleteBy ⟨s, .recompute worker .endDelete, s.enter worker (.running call
            (.executing station stations (.inserting predicted)))⟩ =
              some ((call.tx, (call.satelliteId, station.id)), snapshot) := by
          simp only [deleteBy, hplace]
        have hfirst := first_le_of_snapshotFrom
          ((hinv.calls.places worker call _ hplace).1.2 station List.mem_cons_self)
        exact snapshotFrom_cons_of_some hnote hfirst h tx pair
  | @create worker call station stations _ predicted _ _ predictions hplace _ hinsert =>
      refine CallsFrom.cons ?_ rfl
      constructor
      · show Sessions predictions s.nextTx fun other => (Function.update s.handler worker
          (.running call (.executing station stations (.inserting predicted))) other).tx?
        rw [tx_update_of_eq (by rw [hplace]; rfl)]
        exact hinv.sessions.insert (congrArg Handler.tx? hplace) hinsert
      · exact hinv.calls.create hinv.sessions hplace hinsert
  | @commit worker call hplace =>
      refine CallsFrom.cons ?_ rfl
      constructor
      · show Sessions (s.predictions.commit call.tx) s.nextTx
          fun other => (Function.update s.handler worker (.ended true) other).tx?
        rw [tx_update]
        exact hinv.sessions.commit (congrArg Handler.tx? hplace)
      · exact hinv.calls.commit hplace
  | refresh _ _ =>
      refine CallsFrom.cons ?_ rfl
      exact ⟨hinv.sessions, hinv.calls⟩
  | register _ =>
      refine CallsFrom.cons ?_ rfl
      exact ⟨hinv.sessions, hinv.calls⟩

omit [DecidableEq W] in
/-- At rest there are no calls, whichever transaction is the first one to come. -/
theorem AtRest.callsFrom {s : State W} (hrest : AtRest s) {first : TxId} (hfirst : first ≤ s.nextTx)
    (hbefore : ∀ tx ∈ s.predictions.committed, tx < first) : CallsFrom first [] s := by
  constructor
  · apply Sessions.initial
    · exact fun worker => congrArg Handler.tx? (hrest.handlers worker)
    · exact hrest.numbered
    · intro version hmem
      refine ⟨(hrest.rows version hmem).1, fun y hy => ?_⟩
      rw [(hrest.rows version hmem).2] at hy
      cases hy
  · have hsnapshots : ∀ tx pair snapshot,
        snapshotFrom first ([] : History (State W) (Action W)) tx pair = some snapshot →
          tx < s.nextTx ∧ snapshot = [] := by
      intro tx pair snapshot hsome
      unfold snapshotFrom at hsome
      split at hsome
      · next hlt =>
          cases hsome
          exact ⟨hlt.trans_le hfirst, rfl⟩
      · cases hsome
    constructor
    · intro tx pair snapshot hsome
      obtain ⟨hlt, rfl⟩ := hsnapshots tx pair snapshot hsome
      exact ⟨hlt, nofun⟩
    · intro tx pair snapshot hsome _ version _ _ hinserted
      obtain ⟨-, rfl⟩ := hsnapshots tx pair snapshot hsome
      cases hinserted
    · intro version hmem
      exact ⟨[], if_pos (hbefore _ (hrest.rows version hmem).1)⟩
    · intro version hmem y hy
      rw [(hrest.rows version hmem).2] at hy
      cases hy
    · intro worker call place hplace
      rw [hrest.handlers] at hplace
      cases hplace

/-- The run lemma, for a run that begins with tables at rest. -/
theorem callsFrom_of_run {start s : State W} (hrest : AtRest start)
    {h : History (State W) (Action W)}
    (hrun : ((recomputation sky settings).startingIn start).Run h s) :
    CallsFrom start.nextTx h s := by
  apply hrun.invariant_of_step (I := fun h s => CallsFrom start.nextTx h s)
  · rintro _ rfl
    exact hrest.callsFrom le_rfl hrest.numbered
  · intro h s a s' _ hinv hstep
    exact callsFrom_step hinv (step_effect hstep)

/-- How a call goes on from a place. -/
inductive PlaceStep (s : State W) (call : Recompute) : Place → Place → Prop
  | listAll {order : List GroundStation} (horder : order.Perm s.stations.rows) :
      PlaceStep s call .listing (.looping order)
  | getSatellite {station : GroundStation} {stations : List GroundStation} {satellite : Satellite}
      (hfind : s.satellite? call.satelliteId = some satellite) :
      PlaceStep s call (.looping (station :: stations))
        (.executing station stations (.located satellite))
  | getStation {station : GroundStation} {stations : List GroundStation} {satellite : Satellite} :
      PlaceStep s call (.executing station stations (.located satellite))
        (.executing station stations (.computing satellite))
  | compute {station : GroundStation} {stations : List GroundStation} {satellite : Satellite}
      {predicted : List SatellitePass} :
      PlaceStep s call (.executing station stations (.computing satellite))
        (.executing station stations (.computed predicted))
  | beginDelete {station : GroundStation} {stations : List GroundStation}
      {predicted : List SatellitePass} :
      PlaceStep s call (.executing station stations (.computed predicted))
        (.executing station stations (.deleting s.predictions.committed predicted))
  | endDelete {station : GroundStation} {stations : List GroundStation} {snapshot : List TxId}
      {predicted : List SatellitePass} :
      PlaceStep s call (.executing station stations (.deleting snapshot predicted))
        (.executing station stations (.inserting predicted))
  | create {station : GroundStation} {stations : List GroundStation} {pass : SatellitePass}
      {predicted : List SatellitePass} :
      PlaceStep s call (.executing station stations (.inserting (pass :: predicted)))
        (.executing station stations (.inserting predicted))
  | leave {station : GroundStation} {stations : List GroundStation} :
      PlaceStep s call (.executing station stations (.inserting [])) (.looping stations)

/-- A call at a place was at the same place or one step before, or it has just begun. -/
def Continues (s : State W) (a : Action W) (worker : W) (call : Recompute) (place : Place) : Prop :=
  (∃ before, s.handler worker = .running call before ∧
    (before = place ∨ PlaceStep s call before place)) ∨
  call.tx = s.nextTx ∧ place = .listing ∧ a = .call worker

theorem continues_of_effect {s s' : State W} {a : Action W}
    (heffect : StepEffect sky settings s a s') :
    s.nextTx ≤ s'.nextTx ∧ ∀ worker call place, s'.handler worker = .running call place →
      Continues s a worker call place := by
  have hkept : ∀ worker call place, s.handler worker = .running call place →
      Continues s a worker call place :=
    fun worker call place hsame => Or.inl ⟨place, hsame, Or.inl rfl⟩
  have hupdate : ∀ actor (next : Handler), (∀ call place, next = .running call place →
      Continues s a actor call place) →
        ∀ worker call place, Function.update s.handler actor next worker = .running call place →
          Continues s a worker call place := by
    intro actor next hnext worker call place hplace
    by_cases hsame : worker = actor
    · rw [hsame, Function.update_self] at hplace
      rw [hsame]
      exact hnext call place hplace
    · rw [Function.update_of_ne hsame] at hplace
      exact hkept worker call place hplace
  have hmove : ∀ actor call place next, s.handler actor = .running call place →
      PlaceStep s call place next → ∀ call' place',
        Handler.running call next = .running call' place' → Continues s a actor call' place' := by
    rintro actor call place next hbefore hmoves _ _ ⟨⟩
    exact Or.inl ⟨place, hbefore, Or.inr hmoves⟩
  cases heffect with
  | outbox _ _ _ | refresh _ _ | register _ | deleteRow _ _ => exact ⟨le_rfl, hkept⟩
  | drop _ _ _ =>
      rw [State.drop_nextTx, State.drop_handler]
      exact ⟨le_rfl, hupdate _ _ (not_running rfl)⟩
  | raises _ _ _ _ =>
      rw [State.drop_nextTx, State.drop_handler]
      exact ⟨le_rfl, hupdate _ _ (not_running rfl)⟩
  | unreadable _ => exact ⟨le_rfl, hupdate _ _ (not_running rfl)⟩
  | commit _ => exact ⟨le_rfl, hupdate _ _ (not_running rfl)⟩
  | call _ _ _ _ =>
      refine ⟨Nat.le_succ _, hupdate _ _ ?_⟩
      rintro _ _ ⟨⟩
      exact Or.inr ⟨rfl, rfl, rfl⟩
  | listAll hplace horder => exact ⟨le_rfl, hupdate _ _ (hmove _ _ _ _ hplace (.listAll horder))⟩
  | getSatellite hplace hfind =>
      exact ⟨le_rfl, hupdate _ _ (hmove _ _ _ _ hplace (.getSatellite hfind))⟩
  | getStation hplace => exact ⟨le_rfl, hupdate _ _ (hmove _ _ _ _ hplace .getStation)⟩
  | compute hplace _ => exact ⟨le_rfl, hupdate _ _ (hmove _ _ _ _ hplace .compute)⟩
  | beginDelete hplace => exact ⟨le_rfl, hupdate _ _ (hmove _ _ _ _ hplace .beginDelete)⟩
  | endDelete hplace _ => exact ⟨le_rfl, hupdate _ _ (hmove _ _ _ _ hplace .endDelete)⟩
  | create hplace _ _ => exact ⟨le_rfl, hupdate _ _ (hmove _ _ _ _ hplace .create)⟩
  | leave hplace => exact ⟨le_rfl, hupdate _ _ (hmove _ _ _ _ hplace .leave)⟩

/-- An open transaction was open before, or it has just begun. -/
theorem opened_of_effect {s s' : State W} {a : Action W} (heffect : StepEffect sky settings s a s')
    {worker : W} {tx : TxId} (hopen : (s'.handler worker).tx? = some tx) :
    (s.handler worker).tx? = some tx ∨ tx = s.nextTx := by
  obtain ⟨call, place, hplace, rfl⟩ := Handler.tx?_eq_some.mp hopen
  rcases (continues_of_effect heffect).2 worker call place hplace with ⟨before, hbefore, -⟩ |
    ⟨hnew, -, -⟩
  · exact Or.inl (congrArg Handler.tx? hbefore)
  · exact Or.inr hnew

/-- The transactions that have committed after a step. -/
theorem committed_of_effect {s s' : State W} {a : Action W}
    (heffect : StepEffect sky settings s a s') :
    s'.predictions.committed =
      (commitBy ⟨s, a, s'⟩).toList ++ s.predictions.committed := by
  have hdrop : ∀ (before : State W) worker next,
      (before.drop worker next).predictions.committed = before.predictions.committed := by
    intro before worker next
    unfold State.drop State.rollback
    split <;> rfl
  cases heffect with
  | drop _ _ _ => exact hdrop _ _ _
  | @raises _ _ _ statement _ _ hcommit _ =>
      cases statement with
      | commit => exact absurd rfl hcommit
      | _ => exact hdrop _ _ _
  | deleteRow _ hdelete => exact Store.deleteAt_committed hdelete
  | create _ _ hinsert =>
      rw [State.enter_predictions, Store.insert_eq_inserted hinsert]
      rfl
  | commit hplace =>
      simp only [commitBy, hplace]
      rfl
  | _ => rfl

/-- A call of the run has a number of the run. -/
theorem first_le_of_run {start s : State W} (hrest : AtRest start)
    {h : History (State W) (Action W)}
    (hrun : ((recomputation sky settings).startingIn start).Run h s) :
    start.nextTx ≤ s.nextTx ∧
      ∀ worker tx, (s.handler worker).tx? = some tx → start.nextTx ≤ tx := by
  apply hrun.invariant_of_step (I := fun _ s => start.nextTx ≤ s.nextTx ∧
    ∀ worker tx, (s.handler worker).tx? = some tx → start.nextTx ≤ tx)
  · rintro _ rfl
    refine ⟨le_rfl, fun worker tx hopen => ?_⟩
    rw [hrest.handlers] at hopen
    cases hopen
  · rintro h s a s' - ⟨hcount, hopened⟩ hstep
    have heffect := step_effect hstep
    refine ⟨hcount.trans (continues_of_effect heffect).1, fun worker tx hopen => ?_⟩
    rcases opened_of_effect heffect hopen with hopen | rfl
    · exact hopened worker tx hopen
    · exact hcount

/-- What has committed had committed at the start, or it is a call of the run. -/
theorem committed_of_run {start s : State W} (hrest : AtRest start)
    {h : History (State W) (Action W)}
    (hrun : ((recomputation sky settings).startingIn start).Run h s) :
    ∀ tx ∈ s.predictions.committed, tx ∈ start.predictions.committed ∨ start.nextTx ≤ tx := by
  apply hrun.invariant_of_step (I := fun _ s => ∀ tx ∈ s.predictions.committed,
    tx ∈ start.predictions.committed ∨ start.nextTx ≤ tx)
  · rintro _ rfl tx hmem
    exact Or.inl hmem
  · intro h s a s' hprior hinv hstep tx hmem
    rw [committed_of_effect (step_effect hstep), List.mem_append, Option.mem_toList] at hmem
    rcases hmem with hcommit | hmem
    · unfold commitBy at hcommit
      split at hcommit
      · exact Or.inr ((first_le_of_run hrest hprior).2 _ tx hcommit)
      · cases hcommit
    · exact hinv tx hmem

/-- A row was there before, or a call has just created it. -/
theorem version_of_effect {s s' : State W} {a : Action W} (heffect : StepEffect sky settings s a s')
    {version : Version PassPrediction TxId} (hmem : version ∈ s'.predictions.versions) :
    (∃ before ∈ s.predictions.versions, before.row = version.row ∧
      before.insertedBy = version.insertedBy) ∨
    ∃ worker call station stations predicted,
      s'.handler worker = .running call (.executing station stations (.inserting predicted)) ∧
        version.insertedBy = call.tx ∧ version.row.pair = (call.satelliteId, station.id) := by
  have hold : version ∈ s.predictions.versions → ∃ before ∈ s.predictions.versions,
      before.row = version.row ∧ before.insertedBy = version.insertedBy :=
    fun hbefore => ⟨version, hbefore, rfl, rfl⟩
  have hdrop : ∀ (before : State W) worker next, before.predictions = s.predictions →
      version ∈ (before.drop worker next).predictions.versions →
        ∃ before ∈ s.predictions.versions, before.row = version.row ∧
          before.insertedBy = version.insertedBy := by
    intro before worker next hpredictions hmem
    rcases State.drop_predictions before worker next with hsame | ⟨tx, -, hsame⟩
    · rw [hsame, hpredictions] at hmem
      exact hold hmem
    · rw [hsame, hpredictions] at hmem
      obtain ⟨row, hrow, -, rfl⟩ := Store.mem_rollback.mp hmem
      rw [Store.restore_row, Store.restore_insertedBy]
      exact ⟨row, hrow, rfl, rfl⟩
  cases heffect with
  | @drop _ outbox worker _ _ _ =>
      exact Or.inl (hdrop { s with outbox := outbox } worker .idle rfl hmem)
  | raises _ _ _ _ => exact Or.inl (hdrop _ _ _ rfl hmem)
  | deleteRow _ hdelete =>
      rcases Store.mem_of_mem_deleteAt hdelete hmem with hmem | ⟨before, hbefore, -, -, rfl⟩
      · exact Or.inl (hold hmem)
      · exact Or.inl ⟨before, hbefore, rfl, rfl⟩
  | create hplace _ hinsert =>
      rw [State.enter_predictions, Store.insert_eq_inserted hinsert] at hmem
      rcases List.mem_append.mp hmem with hmem | hmem
      · exact Or.inl (hold hmem)
      · rw [List.mem_singleton.mp hmem]
        exact Or.inr ⟨_, _, _, _, _, State.enter_handler_self _ _ _, rfl, rfl⟩
  | _ => exact Or.inl (hold hmem)

/-- The sessions of the calls, and the calls. -/
structure CallsOk (h : History (State W) (Action W)) (s : State W) : Prop where
  sessions : Sessions s.predictions s.nextTx fun worker => (s.handler worker).tx?
  calls : Calls (snapshotOf h) s.predictions s.nextTx s.handler

omit [DecidableEq W] in
/-- No transaction comes before the first of all. -/
theorem snapshotFrom_zero (h : History (State W) (Action W)) : snapshotFrom 0 h = snapshotOf h := by
  ext1 tx
  ext1 pair
  exact if_neg (Nat.not_lt_zero tx)

omit [DecidableEq W] in
theorem callsOk_iff {h : History (State W) (Action W)} {s : State W} :
    CallsOk h s ↔ CallsFrom 0 h s := by
  constructor
  · rintro ⟨hsessions, hcalls⟩
    rw [← snapshotFrom_zero] at hcalls
    exact ⟨hsessions, hcalls⟩
  · rintro ⟨hsessions, hcalls⟩
    rw [snapshotFrom_zero] at hcalls
    exact ⟨hsessions, hcalls⟩

theorem callsOk_step {h : History (State W) (Action W)} {s s' : State W} {a : Action W}
    (hinv : CallsOk h s) (heffect : StepEffect sky settings s a s') :
    CallsOk (⟨s, a, s'⟩ :: h) s' :=
  callsOk_iff.mpr (callsFrom_step (callsOk_iff.mp hinv) heffect)

/-- The run lemma. -/
theorem callsOk_of_run {h : History (State W) (Action W)} {s : State W}
    (hrun : (recomputation sky settings).Run h s) : CallsOk h s := by
  apply hrun.invariant_of_step
  · intro s hinit
    apply callsOk_iff.mpr
    apply (atRest_of_init hinit).callsFrom (Nat.zero_le _)
    rw [hinit.2.2.2.1]
    intro tx hmem
    cases hmem
  · intro h s a s' _ hinv hstep
    exact callsOk_step hinv (step_effect hstep)

end Apsis.Tracking
