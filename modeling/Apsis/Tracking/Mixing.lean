/-
# Whether the predictions of a pair are mixed

Two calls may recompute one pair at the same time. Then the `DELETE` of neither
has the rows of the other in its snapshot, and both keep theirs. This module says
exactly when that happens: when a call with rows of the pair commits while a row
of the pair is there that its `DELETE` could not see. Otherwise the rows of a pair
are at any time those of a single call, and so they are apart.
-/

import Apsis.Tracking.Apart
import Apsis.Tracking.Feed

namespace Apsis.Tracking

open Apsis.Library Apsis.Core

universe u

variable {W : Type u}

/-! ## The property -/

/-- The rows of a pair are exactly those of a single committed call that has
recomputed the pair. If none has, there are none. -/
def OfOneCall (snapshots : TxId → Pair → Option (List TxId)) (predictions : PredictionStore)
    (pair : Pair) : Prop :=
  (∃ tx ∈ predictions.committed, (∃ snapshot, snapshots tx pair = some snapshot) ∧
    predictions.Exactly tx (isOf pair)) ∨
  (∀ tx ∈ predictions.committed, snapshots tx pair = none) ∧ predictions.current (isOf pair) = []

/-- The rows of every pair are those of one call, and their intervals are apart. -/
structure Unmixed (h : History (State W) (Action W)) (s : State W) : Prop where
  single : ∀ pair, OfOneCall (snapshotOf h) s.predictions pair
  apart : ∀ pair, ((s.predictions.current (isOf pair)).map PassPrediction.interval).Pairwise
    AreApart

/-- Every row that is there of a pair of which the transaction has rows was in the
snapshot of its `DELETE`. -/
def ReplacesRows (snapshots : TxId → Pair → Option (List TxId)) (predictions : PredictionStore)
    (tx : TxId) : Prop :=
  ∀ own ∈ predictions.versions, own.insertedBy = tx →
    ∀ version ∈ predictions.versions, version.row.pair = own.row.pair →
      version.IsCurrent predictions.committed →
        ∀ snapshot ∈ snapshots tx own.row.pair, version.insertedBy ∈ snapshot

instance (snapshots : TxId → Pair → Option (List TxId)) (predictions : PredictionStore)
    (tx : TxId) : Decidable (ReplacesRows snapshots predictions tx) :=
  inferInstanceAs (Decidable (∀ _ ∈ _, _))

/-- The condition: a call commits only if its `DELETE`s have seen the rows that its
own are to replace. -/
def ReplacesAll (earlier : History (State W) (Action W)) (t : Transition (State W) (Action W)) :
    Prop :=
  ∀ tx ∈ commitBy t, ReplacesRows (snapshotOf earlier) t.source.predictions tx

instance (earlier : History (State W) (Action W)) (t : Transition (State W) (Action W)) :
    Decidable (ReplacesAll earlier t) :=
  inferInstanceAs (Decidable (∀ _ ∈ _, _))

variable [DecidableEq W] {sky : Skyfield} {settings : Settings}

/-! ## Steps -/

section Single

variable {snapshots snapshots' : TxId → Pair → Option (List TxId)}
  {predictions predictions' : PredictionStore} {nextTx : TxId} {handler : W → Handler} {pair : Pair}

omit [DecidableEq W] in
/-- Where no committed call has recomputed the pair, there are no rows of it. -/
theorem Calls.current_eq_nil (hcalls : Calls snapshots predictions nextTx handler)
    (hnone : ∀ tx ∈ predictions.committed, snapshots tx pair = none) :
    predictions.current (isOf pair) = [] := by
  simp only [Store.current, List.map_eq_nil_iff, List.filter_eq_nil_iff, isOf, Bool.and_eq_true,
    decide_eq_true_eq, not_and]
  intro version hmem hpair hcurrent
  exact hcalls.not_inserted (hnone _ hcurrent.1) version hmem hpair rfl

omit [DecidableEq W] in
/-- A step that commits nothing. -/
theorem OfOneCall.of_uncommitted (hinv : OfOneCall snapshots predictions pair)
    (hcalls : Calls snapshots' predictions' nextTx handler)
    (hcommitted : predictions'.committed = predictions.committed)
    (hsnapshots : ∀ tx ∈ predictions.committed, snapshots' tx pair = snapshots tx pair)
    (hexactly : ∀ tx ∈ predictions.committed, predictions.Exactly tx (isOf pair) →
      predictions'.Exactly tx (isOf pair)) : OfOneCall snapshots' predictions' pair := by
  rcases hinv with ⟨tx, hmem, hsome, hall⟩ | ⟨hnone, -⟩
  · refine Or.inl ⟨tx, ?_, ?_, hexactly tx hmem hall⟩
    · rw [hcommitted]
      exact hmem
    · rw [hsnapshots tx hmem]
      exact hsome
  · have hnone' : ∀ tx ∈ predictions'.committed, snapshots' tx pair = none := by
      rw [hcommitted]
      intro tx hmem
      rw [hsnapshots tx hmem, hnone tx hmem]
    exact Or.inr ⟨hnone', hcalls.current_eq_nil hnone'⟩

omit [DecidableEq W] in
/-- A row that a call has deleted was in the snapshot of its `DELETE`. -/
theorem Calls.mem_of_deletedBy (hcalls : Calls snapshots predictions nextTx handler)
    (hsessions : Sessions predictions nextTx fun worker => (handler worker).tx?) {worker : W}
    {call : Recompute} (hplace : handler worker = .running call (.looping []))
    {version : Version PassPrediction TxId} (hmem : version ∈ predictions.versions)
    (hdeleted : version.deletedBy = some call.tx) :
    ∃ snapshot, snapshots call.tx version.row.pair = some snapshot ∧
      version.insertedBy ∈ snapshot := by
  rcases (hcalls.deleted version hmem call.tx hdeleted).2 with hseen |
    ⟨deleter, call', _, _, _, _, hdeleting, htx, -, -⟩
  · exact hseen
  · -- The call is no longer in the middle of a `DELETE`.
    have hsame : deleter = worker := by
      apply hsessions.owner deleter worker call.tx _ (congrArg Handler.tx? hplace)
      rw [← htx]
      exact congrArg Handler.tx? hdeleting
    rw [hsame, hplace] at hdeleting
    cases hdeleting

omit [DecidableEq W] in
/-- An open transaction's rows have been deleted by no one. -/
theorem Calls.deletedBy_eq_none (hcalls : Calls snapshots predictions nextTx handler) {tx : TxId}
    (hopen : tx ∉ predictions.committed) {version : Version PassPrediction TxId}
    (hmem : version ∈ predictions.versions) (hinserted : version.insertedBy = tx) :
    version.deletedBy = none := by
  cases hdeleted : version.deletedBy with
  | none => rfl
  | some y =>
      have hcommitted := (hcalls.deleted version hmem y hdeleted).1
      rw [hinserted] at hcommitted
      exact absurd hcommitted hopen

end Single

/-- The commit of a call, for one pair. -/
theorem OfOneCall.commit {h : History (State W) (Action W)} {s : State W} (hok : CallsOk h s)
    {worker : W} {call : Recompute} (hplace : s.handler worker = .running call (.looping []))
    (hreplaces : ReplacesRows (snapshotOf h) s.predictions call.tx) {pair : Pair}
    (hinv : OfOneCall (snapshotOf h) s.predictions pair) :
    OfOneCall (snapshotOf h) (s.predictions.commit call.tx) pair := by
  have hopen := hok.sessions.uncommitted worker call.tx (congrArg Handler.tx? hplace)
  have hself : call.tx ∈ (s.predictions.commit call.tx).committed := List.mem_cons_self
  -- A call whose rows stay as they are.
  have hkept : ∀ tx ∈ s.predictions.committed, (∃ snapshot, snapshotOf h tx pair = some snapshot) →
      s.predictions.Exactly tx (isOf pair) →
      (∀ version ∈ s.predictions.versions, version.row.pair = pair →
        version.insertedBy ≠ call.tx ∧ (version.insertedBy = tx →
          version.deletedBy ≠ some call.tx)) →
        OfOneCall (snapshotOf h) (s.predictions.commit call.tx) pair := by
    intro tx hmem hsome hall hnot
    refine Or.inl ⟨tx, List.mem_cons_of_mem _ hmem, hsome, ?_⟩
    intro version hversion hrow
    obtain ⟨hinserted, hdeleted⟩ := hnot version hversion (of_decide_eq_true hrow)
    rw [← hall version hversion hrow]
    by_cases htx : version.insertedBy = tx
    · exact Store.isCurrent_cons_iff hinserted (hdeleted htx)
    · have hnotCurrent := mt (hall version hversion hrow).mp htx
      refine ⟨fun hcurrent => absurd ?_ hnotCurrent, fun hcurrent => absurd hcurrent hnotCurrent⟩
      exact ⟨(List.mem_cons.mp hcurrent.1).resolve_left hinserted,
        fun y hy hmem => hcurrent.2 y hy (List.mem_cons_of_mem _ hmem)⟩
  cases hsnapshot : snapshotOf h call.tx pair with
  | none =>
      have hnotInserted := hok.calls.not_inserted hsnapshot
      rcases hinv with ⟨tx, hmem, hsome, hall⟩ | ⟨hnone, -⟩
      · apply hkept tx hmem hsome hall
        intro version hversion hpair
        refine ⟨hnotInserted version hversion hpair, fun _ hdeleted => ?_⟩
        obtain ⟨snapshot, hsome, -⟩ := hok.calls.mem_of_deletedBy hok.sessions hplace hversion
          hdeleted
        rw [hpair, hsnapshot] at hsome
        cases hsome
      · have hnone' : ∀ tx ∈ (s.predictions.commit call.tx).committed,
            snapshotOf h tx pair = none := by
          intro tx hmem
          rcases List.mem_cons.mp hmem with rfl | hmem
          · exact hsnapshot
          · exact hnone tx hmem
        exact Or.inr ⟨hnone', (hok.calls.commit hplace).current_eq_nil hnone'⟩
  | some snapshot =>
      have hcleared := hok.calls.cleared _ _ _ hsnapshot
        (Or.inr ⟨worker, congrArg Handler.tx? hplace⟩)
      have hown : ∀ version ∈ s.predictions.versions, version.insertedBy = call.tx →
          version.deletedBy = none :=
        fun version hversion hinserted => hok.calls.deletedBy_eq_none hopen hversion hinserted
      by_cases hseen : ∀ version ∈ s.predictions.versions, version.row.pair = pair →
          version.IsCurrent s.predictions.committed → version.insertedBy ∈ snapshot
      · refine Or.inl ⟨call.tx, hself, ⟨snapshot, hsnapshot⟩, ?_⟩
        apply hcleared.exactly_commit _ hown
        exact fun version hversion hrow => hseen version hversion (of_decide_eq_true hrow)
      · -- The call has no rows, and it has not seen those that are there.
        have hempty : ∀ version ∈ s.predictions.versions, version.row.pair = pair →
            version.insertedBy ≠ call.tx := by
          intro own hown hownPair hinserted
          apply hseen
          intro version hversion hpair hcurrent
          apply hreplaces own hown hinserted version hversion (hpair.trans hownPair.symm) hcurrent
          rw [hownPair]
          exact hsnapshot
        rcases hinv with ⟨tx, hmem, hsome, hall⟩ | ⟨hnone, -⟩
        · have hnotSeen : tx ∉ snapshot := by
            intro hmemSnapshot
            apply hseen
            intro version hversion hpair hcurrent
            rw [(hall version hversion (decide_eq_true hpair)).mp hcurrent]
            exact hmemSnapshot
          apply hkept tx hmem hsome hall
          intro version hversion hpair
          refine ⟨hempty version hversion hpair, fun hinserted hdeleted => hnotSeen ?_⟩
          obtain ⟨snapshot', hsome', hmem'⟩ := hok.calls.mem_of_deletedBy hok.sessions hplace
            hversion hdeleted
          rw [hpair, hsnapshot] at hsome'
          cases hsome'
          rw [← hinserted]
          exact hmem'
        · exfalso
          apply hseen
          intro version hversion hpair hcurrent
          exact absurd rfl (hok.calls.not_inserted (hnone _ hcurrent.1) version hversion hpair)

/-- The step lemma. -/
theorem ofOneCall_step {h : History (State W) (Action W)} {s s' : State W} {a : Action W}
    (hok : CallsOk h s) (heffect : StepEffect sky settings s a s')
    (hreplaces : ReplacesAll h ⟨s, a, s'⟩)
    (hinv : ∀ pair, OfOneCall (snapshotOf h) s.predictions pair) :
    ∀ pair, OfOneCall (snapshotOf (⟨s, a, s'⟩ :: h)) s'.predictions pair := by
  have hok' := callsOk_step hok heffect
  have hquiet : deleteBy ⟨s, a, s'⟩ = none → s'.predictions = s.predictions →
      ∀ pair, OfOneCall (snapshotOf (⟨s, a, s'⟩ :: h)) s'.predictions pair := by
    intro hnone hsame pair
    rw [snapshotOf_cons_of_none hnone, hsame]
    exact hinv pair
  have hdrop : ∀ (before : State W) worker next, before.predictions = s.predictions →
      before.handler = s.handler → s' = before.drop worker next → deleteBy ⟨s, a, s'⟩ = none →
        ∀ pair, OfOneCall (snapshotOf (⟨s, a, s'⟩ :: h)) s'.predictions pair := by
    rintro before worker next hpredictions hhandler rfl hnone
    rcases State.drop_predictions before worker next with hsame | ⟨tx, htx, hsame⟩
    · exact hquiet hnone (hsame.trans hpredictions)
    · intro pair
      have hopen : tx ∉ s.predictions.committed :=
        hok.sessions.uncommitted worker tx (hhandler ▸ htx)
      have hcalls := hok'.calls
      rw [hsame, hpredictions] at hcalls ⊢
      apply (hinv pair).of_uncommitted hcalls rfl
      · intro other _
        rw [snapshotOf_cons_of_none hnone]
      · exact fun other _ hall => hall.rollback hopen
  cases heffect with
  | outbox _ _ _ => exact hquiet rfl rfl
  | refresh _ _ => exact hquiet rfl rfl
  | register _ => exact hquiet rfl rfl
  | unreadable _ => exact hquiet rfl rfl
  | call _ _ _ _ => exact hquiet rfl rfl
  | listAll _ _ => exact hquiet rfl rfl
  | getSatellite _ _ => exact hquiet rfl rfl
  | getStation _ => exact hquiet rfl rfl
  | compute _ _ => exact hquiet rfl rfl
  | beginDelete _ => exact hquiet rfl rfl
  | leave _ => exact hquiet rfl rfl
  | @drop _ outbox worker _ _ _ =>
      exact hdrop { s with outbox := outbox } worker .idle rfl rfl rfl rfl
  | @raises worker _ _ statement _ hdelete _ _ =>
      apply hdrop s worker _ rfl rfl rfl
      cases statement with
      | endDelete => exact absurd rfl hdelete
      | _ => rfl
  | @deleteRow worker call _ _ _ _ _ _ hplace hdelete =>
      have hopen := hok.sessions.uncommitted worker call.tx (congrArg Handler.tx? hplace)
      intro pair
      apply (hinv pair).of_uncommitted hok'.calls (Store.deleteAt_committed hdelete)
      · intro tx _
        rw [snapshotOf_cons_of_none rfl]
      · exact fun tx _ hall => hall.deleteAt hopen hdelete
  | @create worker call _ _ _ _ _ _ predictions hplace _ hinsert =>
      have hopen := hok.sessions.uncommitted worker call.tx (congrArg Handler.tx? hplace)
      have hcommitted : predictions.committed = s.predictions.committed := by
        rw [Store.insert_eq_inserted hinsert]
      intro pair
      apply (hinv pair).of_uncommitted hok'.calls hcommitted
      · intro tx _
        rw [snapshotOf_cons_of_none rfl]
      · exact fun tx hmem hall => hall.insert hopen hmem hinsert
  | @endDelete worker call _ _ snapshot _ hplace _ =>
      have hopen := hok.sessions.uncommitted worker call.tx (congrArg Handler.tx? hplace)
      intro pair
      apply (hinv pair).of_uncommitted hok'.calls rfl
      · intro tx hmem
        have hne : ∀ station,
            ((call.tx, (call.satelliteId, station)) : TxId × Pair) ≠ (tx, pair) := by
          intro station hequal
          apply hopen
          rw [(Prod.mk.inj hequal).1]
          exact hmem
        simp [snapshotOf, History.recorded, deleteBy, hplace, hne]
      · exact fun tx _ hall => hall
  | commit hplace =>
      intro pair
      rw [snapshotOf_cons_of_none rfl]
      apply (hinv pair).commit hok hplace
      exact hreplaces _ (congrArg Handler.tx? hplace)

/-- In a run that meets the condition, the rows of every pair are those of one
call. -/
theorem unmixed_of_run (hsky : sky.IsChronological) {h : History (State W) (Action W)}
    {s : State W} (hrun : (recomputation sky settings).Run h s) (hmeets : h.Meets ReplacesAll) :
    Unmixed h s := by
  have hsingle : ∀ pair, OfOneCall (snapshotOf h) s.predictions pair := by
    refine hrun.invariant (I := fun h s => ∀ pair, OfOneCall (snapshotOf h) s.predictions pair)
      ?_ ?_ hmeets
    · rintro s ⟨-, -, -, hempty, -⟩ pair
      rw [hempty]
      exact Or.inr ⟨nofun, rfl⟩
    · intro h s a s' hprior _ hinv hstep hreplaces
      exact ofOneCall_step (callsOk_of_run hprior) (step_effect hstep) hreplaces hinv
  refine ⟨hsingle, fun pair => ?_⟩
  rcases hsingle pair with ⟨tx, -, -, hall⟩ | ⟨-, hempty⟩
  · rw [hall.current_eq]
    exact (writtenApart_of_run hsky hrun).written tx pair
  · rw [hempty]
    exact .nil

omit [DecidableEq W] in
/-- A commit that leaves every pair with the rows of one call met the condition. -/
theorem replacesRows_of_ofOneCall {h : History (State W) (Action W)} {s : State W}
    (hok : CallsOk h s) {worker : W} {call : Recompute}
    (hplace : s.handler worker = .running call (.looping []))
    (hsingle : ∀ pair, OfOneCall (snapshotOf h) (s.predictions.commit call.tx) pair) :
    ReplacesRows (snapshotOf h) s.predictions call.tx := by
  intro own hown hinserted version hversion hpair hcurrent snapshot hsnapshot
  have hopen := hok.sessions.uncommitted worker call.tx (congrArg Handler.tx? hplace)
  by_contra hnotSeen
  -- Both the row that was there and the call's own are there after the commit.
  have hownCurrent : own.IsCurrent (call.tx :: s.predictions.committed) := by
    refine ⟨List.mem_cons.mpr (Or.inl hinserted), fun y hy => ?_⟩
    rw [hok.calls.deletedBy_eq_none hopen hown hinserted] at hy
    cases hy
  have hother : version.insertedBy ≠ call.tx := by
    intro hsame
    rw [← hsame] at hopen
    exact hopen hcurrent.1
  have hcurrent' : version.IsCurrent (call.tx :: s.predictions.committed) := by
    apply (Store.isCurrent_cons_iff hother _).mpr hcurrent
    intro hdeleted
    obtain ⟨snapshot', hsome, hmem⟩ := hok.calls.mem_of_deletedBy hok.sessions hplace hversion
      hdeleted
    rw [hpair, Option.mem_def.mp hsnapshot] at hsome
    cases hsome
    exact hnotSeen hmem
  rcases hsingle own.row.pair with ⟨tx, -, -, hall⟩ | ⟨hnone, -⟩
  · have htx := (hall own hown (decide_eq_true rfl)).mp hownCurrent
    have htx' := (hall version hversion (decide_eq_true hpair)).mp hcurrent'
    exact hother (htx'.trans (htx.symm.trans hinserted))
  · rw [hnone call.tx List.mem_cons_self] at hsnapshot
    cases hsnapshot

/-- A step that leaves every pair with the rows of one call met the condition. -/
theorem replacesAll_of_ofOneCall {h : History (State W) (Action W)} {s s' : State W}
    {a : Action W} (hok : CallsOk h s) (heffect : StepEffect sky settings s a s')
    (hsingle : ∀ pair, OfOneCall (snapshotOf (⟨s, a, s'⟩ :: h)) s'.predictions pair) :
    ReplacesAll h ⟨s, a, s'⟩ := by
  intro tx htx
  cases heffect with
  | @commit worker call hplace =>
      obtain rfl : call.tx = tx := Option.some.inj ((congrArg Handler.tx? hplace).symm.trans htx)
      apply replacesRows_of_ofOneCall hok hplace
      rw [snapshotOf_cons_of_none rfl] at hsingle
      exact hsingle
  | @raises _ _ _ statement _ _ hcommit _ =>
      cases statement with
      | commit => exact absurd rfl hcommit
      | _ => cases htx
  | _ => cases htx

/-- **When predictions are never mixed.** In every state of a run the rows of every
pair are those of one call, with intervals that are apart, if and only if every
commit of the run met the condition. -/
theorem unmixed_iff_replacesAll (hsky : sky.IsChronological) {h : History (State W) (Action W)}
    {s : State W} (hrun : (recomputation sky settings).Run h s) :
    (Unmixed h s ∧ h.Meets fun earlier t => Unmixed earlier t.source) ↔
      h.Meets ReplacesAll := by
  constructor
  · rintro ⟨hunmixed, hmeets⟩
    induction hrun with
    | start _ => trivial
    | @extend h s s' a hprior hstep ih =>
        exact ⟨replacesAll_of_ofOneCall (callsOk_of_run hprior) (step_effect hstep) hunmixed.single,
          ih hmeets.1 hmeets.2⟩
  · intro hmeets
    refine ⟨unmixed_of_run hsky hrun hmeets, ?_⟩
    induction hrun with
    | start _ => trivial
    | extend hprior _ ih =>
        exact ⟨unmixed_of_run hsky hprior hmeets.2, ih hmeets.2⟩

/-! ## Two refreshes of the International Space Station -/

/-- A sky in which the station is over the horizon once, and a minute later with
the later lines. -/
def issSky : Skyfield where
  findEvents line1 _ _ window _ :=
    let rise := window.1 + if line1 = issRecord.line1 then 0 else timedelta 60
    some [(rise, .rise), (rise + timedelta 120, .culminate), (rise + timedelta 240, .set)]
  altitude _ _ _ _ := 45
  subpoint _ _ _ := (0, 0)

theorem issSky_isChronological : issSky.IsChronological := by
  intro line1 line2 observer window altitude events hevents
  cases hevents
  simp [timedelta]

/-- A ground station. -/
def madrid : GroundStation where
  id := 7
  name := "Madrid".toList
  location := (-37038 / 10000, 404168 / 10000)
  altitudeM := 667

/-- Nothing has happened yet to two workers and their tables. -/
def idleCalls : State (Fin 2) where
  outbox := Events.idleWorkers
  satellites := { rows := [], nodup := noSatellites_nodup, ids := noSatellites_ids }
  stations := ⟨[], by decide⟩
  predictions := ⟨[], []⟩
  nextTx := 0
  handler _ := .idle

theorem idleCalls_init (sky : Skyfield) (settings : Settings) :
    (recomputation sky settings).init idleCalls :=
  ⟨⟨rfl, fun _ => rfl, fun _ => rfl⟩, rfl, rfl, rfl, fun _ => rfl⟩

/-- The first record of the station arrives. -/
def issChange : Change where
  isNew := true
  satellite := ⟨1, 25544, issRecord.name, issRecord.line1, issRecord.line2, 1704110400000000⟩
  eventId := 11

/-- The record of the next day arrives. -/
def issChangeLater : Change where
  isNew := false
  satellite :=
    ⟨1, 25544, issRecord.name, issRecordLater.line1, issRecordLater.line2, 1704196800000000⟩
  eventId := 12

/-- From `start` to the call of the handler for the event that comes after those
that are locked. -/
def dispatchActions (worker : Fin 2) (locked : List Events.OutboxEvent)
    (event : Events.OutboxEvent) : List (Action (Fin 2)) :=
  [.outbox (.start worker), .outbox (.run worker .proceed), .outbox (.run worker .proceed),
    .outbox (.run worker (.order (locked ++ [event])))] ++
  List.replicate (locked.length + 1) (.outbox (.run worker .proceed)) ++ [.call worker]

/-- From `list_all` to the computed passes. -/
def computeActions (worker : Fin 2) : List (Action (Fin 2)) :=
  [.recompute worker (.listAll [madrid]), .recompute worker .getSatellite,
    .recompute worker .getStation, .recompute worker .compute]

/-- A `DELETE` that marks these rows. -/
def deleteActions (worker : Fin 2) (rows : List ℕ) : List (Action (Fin 2)) :=
  [.recompute worker .beginDelete] ++
    rows.map (fun index => .recompute worker (.deleteRow index)) ++
    [.recompute worker .endDelete]

/-- From the only row to the commit. -/
def storeActions (worker : Fin 2) (id : Uuid) : List (Action (Fin 2)) :=
  [.recompute worker (.create id), .recompute worker .leave, .recompute worker .commit]

/-- Both workers compute, then both delete, then both store and commit. -/
def overlappingActions : List (Action (Fin 2)) :=
  let first := issChange.event 0 8
  let second := issChangeLater.event 0 8
  [.register madrid, .refresh 0 8 [issChange]] ++ dispatchActions 0 [] first ++
    computeActions 0 ++ [.refresh 0 8 [issChangeLater]] ++ dispatchActions 1 [first] second ++
    computeActions 1 ++ deleteActions 0 [] ++ deleteActions 1 [] ++ storeActions 0 21 ++
    storeActions 1 22

/-- The same pass is stored twice, with two rises a minute apart. -/
theorem overlapping_calls_mix :
    ∃ h s, (recomputation (W := Fin 2) issSky {}).Run h s ∧
      (s.predictions.current (isOf (1, 7))).map PassPrediction.interval =
        [(0, timedelta 240), (timedelta 60, timedelta 300)] ∧ ¬ Unmixed h s := by
  obtain ⟨h, s, hrun, hP⟩ := System.exists_run_of_play (idleCalls_init issSky {})
    overlappingActions (fun p =>
      decide ((p.2.predictions.current (isOf (1, 7))).map PassPrediction.interval =
        [(0, timedelta 240), (timedelta 60, timedelta 300)])) (by decide +kernel)
  have hrows := of_decide_eq_true hP
  refine ⟨h, s, hrun, hrows, fun hunmixed => ?_⟩
  have hapart := hunmixed.apart (1, 7)
  rw [hrows] at hapart
  exact absurd hapart (by decide)

/-- The second worker begins when the call of the first has committed. -/
def successiveActions : List (Action (Fin 2)) :=
  let first := issChange.event 0 8
  let second := issChangeLater.event 0 8
  [.register madrid, .refresh 0 8 [issChange]] ++ dispatchActions 0 [] first ++
    computeActions 0 ++ deleteActions 0 [] ++ storeActions 0 21 ++
    [.refresh 0 8 [issChangeLater]] ++ dispatchActions 1 [first] second ++ computeActions 1 ++
    deleteActions 1 [0] ++ storeActions 1 22

/-- The second call replaces the row of the first. -/
theorem successive_calls_unmixed :
    ∃ h s, (recomputation (W := Fin 2) issSky {}).Run h s ∧ Unmixed h s ∧
      (s.predictions.current (isOf (1, 7))).map PassPrediction.id = [22] := by
  obtain ⟨h, s, hrun, hP⟩ := System.exists_run_of_play (idleCalls_init issSky {})
    successiveActions (fun p => decide (p.1.Meets ReplacesAll ∧
      (p.2.predictions.current (isOf (1, 7))).map PassPrediction.id = [22])) (by decide +kernel)
  obtain ⟨hmeets, hrows⟩ := of_decide_eq_true hP
  exact ⟨h, s, hrun, ((unmixed_iff_replacesAll issSky_isChronological hrun).mpr hmeets).1, hrows⟩

end Apsis.Tracking
