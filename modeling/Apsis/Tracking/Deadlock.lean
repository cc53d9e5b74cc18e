/-
# Deadlocks of `recompute_passes`

A call goes through the stations in the order of their names and writes the
predictions of one after the other, all in one transaction. What it holds up another
call with is therefore of the station at which it stands, or of one that it has left
behind: whoever waits for it has come no further. Calls for different satellites do not
wait for each other at all.

So calls that wait for each other in a circle all stand at one pair. That can happen,
since SQL leaves the order open in which a `DELETE` goes through its rows. Calls at
different pairs never stop all at once.
-/

import Mathlib.Data.Fintype.EquivFin
import Apsis.Library.Waiting
import Apsis.Tracking.Dangling

namespace Apsis.Tracking

open Apsis.Library Apsis.Core

universe u v

variable {W : Type u} {κ : Type v}

/-! ## Waiting -/

/-- The row of a pass of this pair that rises at this time. -/
def risesAt (pair : Pair) (aosAt : Time) (row : PassPrediction) : Bool :=
  decide (row.pair = pair) && decide (row.aosAt = aosAt)

/-- The statement of the worker's call is held up by this transaction. -/
def waitsOn (s : State W) (worker : W) (tx : TxId) : Bool :=
  match s.handler worker with
  | .running call (.executing station _ (.deleting snapshot _)) =>
      decide (s.predictions.DeleteWaits call.tx snapshot (isOf (call.satelliteId, station.id)) tx)
  | .running call (.executing station _ (.inserting (pass :: _))) =>
      decide (s.predictions.InsertWaits call.tx
        (risesAt (call.satelliteId, station.id) pass.aosAt) tx)
  | _ => false

/-- The call of the worker waits for the call of another. -/
def WaitsFor (s : State W) (worker other : W) : Prop :=
  ∃ tx, (s.handler other).tx? = some tx ∧ waitsOn s worker tx = true

/-- The satellite and the station at which a call stands. -/
def Handler.stand : Handler → Option (Uuid × GroundStation)
  | .running call (.executing station _ _) => some (call.satelliteId, station)
  | _ => none

/-- The stations that a transition lists. -/
def listedBy (t : Transition (State W) (Action W)) : List GroundStation :=
  match t.action with
  | .recompute _ (.listAll order) => order
  | _ => []

section Order

variable [Preorder κ] (rank : Text → κ)

/-- `list_all` returns the stations in the order of their names. -/
def ListsByName (t : Transition (State W) (Action W)) : Prop :=
  (listedBy t).Pairwise fun first second => rank first.name < rank second.name

/-- The first stand comes before the second. No stand comes after every other. -/
def Precedes : Option (Uuid × GroundStation) → Option (Uuid × GroundStation) → Prop
  | some first, some second => first.1 = second.1 ∧ rank first.2.name < rank second.2.name
  | some _, none => True
  | none, _ => False

instance : IsStrictOrder (Option (Uuid × GroundStation)) (Precedes rank) where
  irrefl
    | some _, h => lt_irrefl _ h.2
  trans
    | some _, some _, some _, h, h' => ⟨h.1.trans h'.1, h.2.trans h'.2⟩
    | some _, some _, none, _, _ => trivial

/-- A call at this place has come to the station. -/
def Place.HasReached (station : GroundStation) : Place → Prop
  | .listing => False
  | .looping stations => ∀ other ∈ stations, rank station.name < rank other.name
  | .executing current stations _ =>
      (station = current ∨ rank station.name < rank current.name) ∧
        ∀ other ∈ stations, rank station.name < rank other.name

/-- The stations of a call are in order, and it has come to those whose predictions it has
deleted. -/
structure Proceeds (stations : StationTable) (ended : Pair → Option (List TxId)) (call : Recompute)
    (place : Place) : Prop where
  sorted : place.stations.Pairwise fun first second => rank first.name < rank second.name
  reached : ∀ pair snapshot, ended pair = some snapshot → pair.1 = call.satelliteId ∧
    ∃ station, stations.find? pair.2 = some station ∧ place.HasReached rank station

/-- Every call does. -/
def AllProceed (h : History (State W) (Action W)) (s : State W) : Prop :=
  ∀ worker call place, s.handler worker = .running call place →
    Proceeds rank s.stations (snapshotOf h call.tx) call place

end Order

variable [Preorder κ] {rank : Text → κ} {stations : StationTable}
  {ended : Pair → Option (List TxId)} {call : Recompute} {station : GroundStation}
  {others : List GroundStation} {execution : Execution}

/-- A call goes on at its station. -/
theorem Proceeds.execute (h : Proceeds rank stations ended call
    (.executing station others execution)) (next : Execution) :
    Proceeds rank stations ended call (.executing station others next) :=
  ⟨h.sorted, h.reached⟩

/-- A call comes to the next station. -/
theorem Proceeds.enter (h : Proceeds rank stations ended call (.looping (station :: others)))
    (next : Execution) : Proceeds rank stations ended call (.executing station others next) := by
  refine ⟨h.sorted, fun pair snapshot hended => ?_⟩
  obtain ⟨hsatellite, reached, hfind, hreached⟩ := h.reached pair snapshot hended
  exact ⟨hsatellite, reached, hfind, Or.inr (hreached _ List.mem_cons_self),
    fun other hother => hreached other (List.mem_cons_of_mem _ hother)⟩

/-- A call leaves a station. -/
theorem Proceeds.leave (h : Proceeds rank stations ended call
    (.executing station others execution)) :
    Proceeds rank stations ended call (.looping others) := by
  refine ⟨(List.pairwise_cons.mp h.sorted).2, fun pair snapshot hended => ?_⟩
  obtain ⟨hsatellite, reached, hfind, -, hrest⟩ := h.reached pair snapshot hended
  exact ⟨hsatellite, reached, hfind, hrest⟩

/-- A `DELETE` ends. -/
theorem Proceeds.endDelete (h : Proceeds rank stations ended call
    (.executing station others execution)) (hfind : stations.find? station.id = some station)
    {ended' : Pair → Option (List TxId)}
    (hended : ∀ pair snapshot, ended' pair = some snapshot →
      pair = (call.satelliteId, station.id) ∨ ended pair = some snapshot) (next : Execution) :
    Proceeds rank stations ended' call (.executing station others next) := by
  refine ⟨h.sorted, fun pair snapshot hsome => ?_⟩
  rcases hended pair snapshot hsome with rfl | hbefore
  · exact ⟨rfl, station, hfind, Or.inl rfl, (List.pairwise_cons.mp h.sorted).1⟩
  · exact h.reached pair snapshot hbefore

variable [DecidableEq W] {sky : Skyfield} {settings : Settings}

omit [DecidableEq W] in
theorem Proceeds.mono {place : Place} (h : Proceeds rank stations ended call place)
    {stations' : StationTable} (hstations : ∀ id station, stations.find? id = some station →
      stations'.find? id = some station) : Proceeds rank stations' ended call place := by
  refine ⟨h.sorted, fun pair snapshot hended => ?_⟩
  obtain ⟨hsatellite, reached, hfind, hreached⟩ := h.reached pair snapshot hended
  exact ⟨hsatellite, reached, hstations _ _ hfind, hreached⟩

/-- One worker goes on, and of the other calls nothing new is noted. -/
theorem AllProceed.update {h h' : History (State W) (Action W)} {s s' : State W}
    (hinv : AllProceed rank h s)
    (hstations : ∀ id station, s.stations.find? id = some station →
      s'.stations.find? id = some station)
    {worker : W} {next : Handler} (hhandler : s'.handler = Function.update s.handler worker next)
    (hnotes : ∀ other call place, other ≠ worker → s.handler other = .running call place →
      snapshotOf h' call.tx = snapshotOf h call.tx)
    (hnext : ∀ call place, next = .running call place →
      Proceeds rank s.stations (snapshotOf h' call.tx) call place) : AllProceed rank h' s' := by
  intro other call place hplace
  rw [hhandler] at hplace
  by_cases hsame : other = worker
  · rw [hsame, Function.update_self] at hplace
    exact (hnext call place hplace).mono hstations
  · rw [Function.update_of_ne hsame] at hplace
    rw [hnotes other call place hsame hplace]
    exact (hinv other call place hplace).mono hstations

/-- The step lemma. -/
theorem allProceed_step {h : History (State W) (Action W)} {s s' : State W} {a : Action W}
    (hinv : AllProceed rank h s) (hok : CallsOk h s) (hbacked : Backed s)
    (heffect : StepEffect sky settings s a s') (hlists : ListsByName rank ⟨s, a, s'⟩) :
    AllProceed rank (⟨s, a, s'⟩ :: h) s' := by
  have hstations : ∀ id station, s.stations.find? id = some station →
      s'.stations.find? id = some station := fun _ _ => stations_of_effect heffect
  have hmove : ∀ worker next, deleteBy ⟨s, a, s'⟩ = none →
      s'.handler = Function.update s.handler worker next →
        (∀ call place, next = .running call place →
          Proceeds rank s.stations (snapshotOf h call.tx) call place) →
            AllProceed rank (⟨s, a, s'⟩ :: h) s' := by
    intro worker next hnone hhandler hnext
    refine hinv.update hstations hhandler ?_ ?_
    · intro _ call _ _ _
      rw [snapshotOf_cons_of_none hnone]
    · intro call place hplace
      rw [snapshotOf_cons_of_none hnone]
      exact hnext call place hplace
  have hgoes : ∀ worker call place, deleteBy ⟨s, a, s'⟩ = none →
      s'.handler = Function.update s.handler worker (.running call place) →
        Proceeds rank s.stations (snapshotOf h call.tx) call place →
          AllProceed rank (⟨s, a, s'⟩ :: h) s' := by
    intro worker call place hnone hhandler hnext
    refine hmove worker _ hnone hhandler ?_
    rintro _ _ ⟨⟩
    exact hnext
  have hkept : deleteBy ⟨s, a, s'⟩ = none → s'.handler = s.handler →
      AllProceed rank (⟨s, a, s'⟩ :: h) s' := by
    intro hnone hhandler other call place hplace
    rw [hhandler] at hplace
    rw [snapshotOf_cons_of_none hnone]
    exact (hinv other call place hplace).mono hstations
  cases heffect with
  | outbox _ _ _ | refresh _ _ | register _ | deleteRow _ _ => exact hkept rfl rfl
  | drop _ _ _ => exact hmove _ _ rfl (State.drop_handler _ _ _) (not_running rfl)
  | @raises worker _ _ statement _ hdelete _ _ =>
      have hnone : deleteBy ⟨s, .recompute worker statement, s.drop worker (.ended false)⟩ =
          none := by
        cases statement with
        | endDelete => exact absurd rfl hdelete
        | _ => rfl
      exact hmove _ _ hnone (State.drop_handler _ _ _) (not_running rfl)
  | unreadable _ | commit _ => exact hmove _ _ rfl rfl (not_running rfl)
  | call _ _ _ _ =>
      refine hgoes _ _ _ rfl rfl ⟨List.Pairwise.nil, fun pair snapshot hended => ?_⟩
      exact absurd (hok.calls.noted _ _ _ hended).1 (Nat.lt_irrefl _)
  | listAll hplace _ =>
      refine hgoes _ _ _ rfl rfl ⟨hlists, fun pair snapshot hended => ?_⟩
      have hnone := hok.calls.places _ _ _ hplace pair
      rw [hnone] at hended
      cases hended
  | getSatellite hplace _ => exact hgoes _ _ _ rfl rfl ((hinv _ _ _ hplace).enter _)
  | getStation hplace => exact hgoes _ _ _ rfl rfl ((hinv _ _ _ hplace).execute _)
  | compute hplace _ => exact hgoes _ _ _ rfl rfl ((hinv _ _ _ hplace).execute _)
  | beginDelete hplace => exact hgoes _ _ _ rfl rfl ((hinv _ _ _ hplace).execute _)
  | create hplace _ _ => exact hgoes _ _ _ rfl rfl ((hinv _ _ _ hplace).execute _)
  | leave hplace => exact hgoes _ _ _ rfl rfl (hinv _ _ _ hplace).leave
  | @endDelete worker call station stations snapshot predicted hplace hends =>
      have hnoted : deleteBy ⟨s, .recompute worker .endDelete, s.enter worker (.running call
          (.executing station stations (.inserting predicted)))⟩ =
            some ((call.tx, (call.satelliteId, station.id)), snapshot) := by
        simp only [deleteBy, hplace]
      refine hinv.update hstations rfl ?_ ?_
      · intro other call' place' hne hother
        funext pair
        rw [snapshotOf_cons_of_some hnoted, if_neg]
        intro hsame
        have htx : (s.handler worker).tx? = some call.tx := congrArg Handler.tx? hplace
        rw [(Prod.mk.inj hsame).1] at htx
        exact hne (hok.sessions.owner other worker _ (congrArg Handler.tx? hother) htx)
      · rintro _ _ ⟨⟩
        have hfind := (hbacked.calls worker call _ hplace).stations station List.mem_cons_self
        refine (hinv worker call _ hplace).endDelete hfind (fun pair noted hsome => ?_) _
        rw [snapshotOf_cons_of_some hnoted] at hsome
        split at hsome
        · next hsame => exact Or.inl (Prod.mk.inj hsame).2.symm
        · exact Or.inr hsome

/-- The run lemma. -/
theorem allProceed_of_run {h : History (State W) (Action W)} {s : State W}
    (hrun : (recomputation sky settings).Run h s) (hmeets : h.Meets fun _ => ListsByName rank) :
    AllProceed rank h s := by
  refine hrun.invariant (I := fun h s => AllProceed rank h s) ?_ ?_ hmeets
  · rintro s hinit worker call place hplace
    rw [(atRest_of_init hinit).handlers] at hplace
    cases hplace
  · intro h s a s' hprior _ hinv hstep hlists
    exact allProceed_step hinv (callsOk_of_run hprior) (backed_of_run hprior) (step_effect hstep)
      hlists

/-! ## Whoever waits has come no further -/

omit [DecidableEq W] in
/-- A transaction that has written a row of a pair has ended a `DELETE` on it, or is executing
one. -/
theorem Calls.of_mark {s : State W} {snapshots : TxId → Pair → Option (List TxId)}
    (hcalls : Calls snapshots s.predictions s.nextTx s.handler)
    {version : Version PassPrediction TxId} (hmem : version ∈ s.predictions.versions) {tx : TxId}
    (hmark : version.insertedBy = tx ∨ version.deletedBy = some tx) :
    (∃ snapshot, snapshots tx version.row.pair = some snapshot) ∨
      ∃ worker call station stations snapshot predicted, s.handler worker =
        .running call (.executing station stations (.deleting snapshot predicted)) ∧
          call.tx = tx ∧ (call.satelliteId, station.id) = version.row.pair := by
  rcases hmark with rfl | hdeleted
  · exact Or.inl (hcalls.inserted version hmem)
  · rcases (hcalls.deleted version hmem tx hdeleted).2 with ⟨snapshot, hsome, -⟩ |
      ⟨worker, call, station, stations, snapshot, predicted, hplace, htx, hpair, -⟩
    · exact Or.inl ⟨snapshot, hsome⟩
    · exact Or.inr ⟨worker, call, station, stations, snapshot, predicted, hplace, htx, hpair⟩

omit [DecidableEq W] in
/-- A worker that waits is in the middle of `execute`, and there is a row of its pair that
another transaction has written. -/
theorem exists_mark_of_waitsOn {s : State W} {worker : W} {tx : TxId}
    (hwaits : waitsOn s worker tx = true) :
    ∃ call station stations execution,
      s.handler worker = .running call (.executing station stations execution) ∧ tx ≠ call.tx ∧
        ∃ version ∈ s.predictions.versions, version.row.pair = (call.satelliteId, station.id) ∧
          (version.insertedBy = tx ∨ version.deletedBy = some tx) := by
  unfold waitsOn at hwaits
  split at hwaits
  · next call station stations snapshot predicted hplace =>
      obtain ⟨version, hmem, hrow, -, hdeleted, hopen⟩ := of_decide_eq_true hwaits
      exact ⟨call, station, stations, _, hplace, fun hsame => hopen (Or.inl hsame), version, hmem,
        of_decide_eq_true hrow, Or.inr hdeleted⟩
  · next call station stations pass predicted hplace =>
      obtain ⟨version, hmem, hrow, hmark, hopen⟩ := of_decide_eq_true hwaits
      rw [risesAt, Bool.and_eq_true, decide_eq_true_eq] at hrow
      exact ⟨call, station, stations, _, hplace, fun hsame => hopen (Or.inl hsame), version, hmem,
        hrow.1, hmark⟩
  · cases hwaits

omit [DecidableEq W] in
/-- **Waits lead forward.** A call waits for calls for the same satellite only, which have come
to its station. -/
theorem WaitsFor.hasReached {h : History (State W) (Action W)} {s : State W} {worker other : W}
    (hinv : AllProceed rank h s) (hok : CallsOk h s) (hbacked : Backed s)
    (hwaits : WaitsFor s worker other) :
    ∃ call station stations execution call' place',
      s.handler worker = .running call (.executing station stations execution) ∧
        s.handler other = .running call' place' ∧ call'.satelliteId = call.satelliteId ∧
          place'.HasReached rank station := by
  obtain ⟨tx, htx, hwaits⟩ := hwaits
  obtain ⟨call, station, stations, execution, hplace, -, version, hmem, hpair, hmark⟩ :=
    exists_mark_of_waitsOn hwaits
  obtain ⟨call', place', hplace', rfl⟩ := Handler.tx?_eq_some.mp htx
  have hfind := (hbacked.calls worker call _ hplace).stations station List.mem_cons_self
  refine ⟨call, station, stations, execution, call', place', hplace, hplace', ?_⟩
  rcases hok.calls.of_mark hmem hmark with ⟨snapshot, hsome⟩ |
    ⟨deleter, call₂, station₂, stations₂, snapshot, predicted, hdeleting, htx₂, hpair₂⟩
  · rw [hpair] at hsome
    obtain ⟨hsatellite, reached, hreached, hbehind⟩ :=
      (hinv other call' place' hplace').reached _ _ hsome
    rw [hfind, Option.some.injEq] at hreached
    subst hreached
    exact ⟨hsatellite.symm, hbehind⟩
  · -- The other call is executing the `DELETE`.
    have hsame : deleter = other := by
      refine hok.sessions.owner deleter other call'.tx ?_ htx
      rw [← htx₂]
      exact congrArg Handler.tx? hdeleting
    subst hsame
    rw [hplace'] at hdeleting
    cases hdeleting
    have hfind₂ := (hbacked.calls deleter call' _ hplace').stations station₂ List.mem_cons_self
    rw [hpair, Prod.mk.injEq] at hpair₂
    rw [hpair₂.2, hfind, Option.some.injEq] at hfind₂
    subst hfind₂
    exact ⟨hpair₂.1, Or.inl rfl, (List.pairwise_cons.mp (hinv deleter call' _ hplace').sorted).1⟩

/-- Stands ascend along waits. -/
theorem ascends_of_run {h : History (State W) (Action W)} {s : State W}
    (hrun : (recomputation sky settings).Run h s) (hmeets : h.Meets fun _ => ListsByName rank) :
    Ascends (WaitsFor s) (fun worker => (s.handler worker).stand) (Precedes rank) := by
  intro worker other hwaits
  obtain ⟨call, station, stations, execution, call', place', hplace, hplace', hsatellite,
    hreached⟩ := hwaits.hasReached (allProceed_of_run hrun hmeets) (callsOk_of_run hrun)
      (backed_of_run hrun)
  simp only [hplace, hplace']
  cases place' with
  | listing => cases hreached
  | looping _ => exact Or.inr trivial
  | executing current _ _ =>
      rcases hreached.1 with rfl | hlt
      · exact Or.inl (congrArg (fun satelliteId => some (satelliteId, station)) hsatellite.symm)
      · exact Or.inr ⟨hsatellite.symm, hlt⟩

/-- **A deadlock stands at one pair.** Calls that wait for each other in a circle are all in
`execute` for the same satellite and the same station. -/
theorem deadlock_at_one_pair {h : History (State W) (Action W)} {s : State W}
    (hrun : (recomputation sky settings).Run h s) (hmeets : h.Meets fun _ => ListsByName rank)
    {worker other : W} (hthere : Relation.TransGen (WaitsFor s) worker other)
    (hback : Relation.TransGen (WaitsFor s) other worker) :
    ∃ satelliteId station, (s.handler worker).stand = some (satelliteId, station) ∧
      (s.handler other).stand = some (satelliteId, station) := by
  have hsame := (ascends_of_run hrun hmeets).place_eq hthere hback
  obtain ⟨next, hwaits, -⟩ := Relation.TransGen.head'_iff.mp hthere
  obtain ⟨tx, -, hwaits⟩ := hwaits
  obtain ⟨call, station, stations, execution, hplace, -⟩ := exists_mark_of_waitsOn hwaits
  have hstand : (s.handler worker).stand = some (call.satelliteId, station) := by
    rw [hplace]
    rfl
  exact ⟨call.satelliteId, station, hstand, hsame.symm.trans hstand⟩

/-- From `start` to the call of the handler for an event, with both events in the table and as
many of them passed over. -/
def dispatchAgainActions (worker : Fin 2) (passedOver : ℕ) : List (Action (Fin 2)) :=
  [.outbox (.start worker), .outbox (.run worker .proceed), .outbox (.run worker .proceed),
    .outbox (.run worker (.order [issChange.event 0 8, issChangeLater.event 0 8]))] ++
  List.replicate (passedOver + 1) (.outbox (.run worker .proceed)) ++ [.call worker]

/-- Two calls have left two rows for Madrid. Both workers crash, and both events are dispatched
again. One call deletes the first row, the other the second. -/
def crossingActions : List (Action (Fin 2)) :=
  overlappingActions ++ [.outbox (.crash 0), .outbox (.crash 1)] ++ dispatchAgainActions 0 0 ++
    computeActions 0 ++ dispatchAgainActions 1 1 ++ computeActions 1 ++
    [.recompute 0 .beginDelete, .recompute 1 .beginDelete, .recompute 0 (.deleteRow 0),
      .recompute 1 (.deleteRow 1)]

instance (rank : Text → ℕ) (t : Transition (State (Fin 2)) (Action (Fin 2))) :
    Decidable (ListsByName rank t) :=
  inferInstanceAs (Decidable (List.Pairwise _ _))

/-- Each of the two calls waits for the other, and both stand at Madrid. -/
theorem crossing_deletes_deadlock :
    ∃ h s, (recomputation (W := Fin 2) issSky {}).Run h s ∧ WaitsFor s 0 1 ∧ WaitsFor s 1 0 ∧
      ∃ satelliteId station, (s.handler 0).stand = some (satelliteId, station) ∧
        (s.handler 1).stand = some (satelliteId, station) := by
  obtain ⟨h, s, hrun, hP⟩ := System.exists_run_of_play (idleCalls_init issSky {})
    crossingActions (fun p => decide (p.1.Meets (fun _ => ListsByName List.length) ∧
      (p.2.handler 0).tx? = some 2 ∧ (p.2.handler 1).tx? = some 3 ∧
      waitsOn p.2 0 3 = true ∧ waitsOn p.2 1 2 = true)) (by decide +kernel)
  obtain ⟨hmeets, hfirst, hsecond, hwaits, hwaits'⟩ := of_decide_eq_true hP
  have hthere : WaitsFor s 0 1 := ⟨3, hsecond, hwaits⟩
  have hback : WaitsFor s 1 0 := ⟨2, hfirst, hwaits'⟩
  exact ⟨h, s, hrun, hthere, hback,
    deadlock_at_one_pair hrun hmeets (.single hthere) (.single hback)⟩

/-! ## Somebody goes on -/

/-- The call of the worker can take a step that is no exception out of the blue. -/
def GoesOn (sky : Skyfield) (settings : Settings) (s : State W) (worker : W) : Prop :=
  ∃ statement s', statement ≠ .raises ∧
    step sky settings s (.recompute worker statement) = some s'

omit [DecidableEq W] in
theorem WaitsFor.ne {s : State W} {worker other : W} (hwaits : WaitsFor s worker other) :
    worker ≠ other := by
  rintro rfl
  obtain ⟨tx, htx, hwaits⟩ := hwaits
  obtain ⟨call, station, stations, execution, hplace, hother, -⟩ := exists_mark_of_waitsOn hwaits
  rw [hplace] at htx
  exact hother (Option.some.inj htx).symm

omit [DecidableEq W] in
/-- A transaction that holds up a statement is that of a call. -/
theorem waitsFor_of_waitsOn {s : State W}
    (hsessions : Sessions s.predictions s.nextTx fun worker => (s.handler worker).tx?)
    {worker : W} {tx : TxId} (hwaits : waitsOn s worker tx = true)
    (hopen : tx ∉ s.predictions.committed) : ∃ other, WaitsFor s worker other := by
  obtain ⟨call, station, stations, execution, hplace, -, version, hmem, -, hmark⟩ :=
    exists_mark_of_waitsOn hwaits
  have hlive : IsLive s.predictions (fun worker => (s.handler worker).tx?) tx := by
    rcases hmark with rfl | hdeleted
    · exact (hsessions.marked version hmem).1
    · exact (hsessions.marked version hmem).2 tx hdeleted
  obtain ⟨other, htx⟩ := hlive.resolve_left hopen
  exact ⟨other, tx, htx, hwaits⟩

/-- A call takes a step, or it waits for another call. -/
theorem goesOn_or_waits {s : State W}
    (hsessions : Sessions s.predictions s.nextTx fun worker => (s.handler worker).tx?)
    {worker : W} {place : Place} (hplace : s.handler worker = .running call place) :
    GoesOn sky settings s worker ∨ ∃ other, WaitsFor s worker other := by
  have hgoes : ∀ statement, statement ≠ .raises →
      recomputeStep sky s worker call place statement ≠ none →
        GoesOn sky settings s worker ∨ ∃ other, WaitsFor s worker other := by
    intro statement hne hstep
    obtain ⟨s', hstep⟩ := Option.ne_none_iff_exists'.mp hstep
    refine Or.inl ⟨statement, s', hne, ?_⟩
    simp only [step, hplace]
    exact hstep
  cases place with
  | listing =>
      exact hgoes (.listAll s.stations.rows) (by rintro ⟨⟩) (by simp [recomputeStep])
  | looping stations =>
      cases stations with
      | nil => exact hgoes .commit (by rintro ⟨⟩) (by simp [recomputeStep])
      | cons station stations =>
          refine hgoes .getSatellite (by rintro ⟨⟩) ?_
          simp only [recomputeStep]
          split <;> simp
  | executing station stations execution =>
      cases execution with
      | located satellite =>
          refine hgoes .getStation (by rintro ⟨⟩) ?_
          simp only [recomputeStep]
          split <;> simp
      | computing satellite =>
          refine hgoes .compute (by rintro ⟨⟩) ?_
          simp only [recomputeStep]
          split <;> simp
      | computed predicted => exact hgoes .beginDelete (by rintro ⟨⟩) (by simp [recomputeStep])
      | deleting snapshot predicted =>
          rcases Store.delete_cases (s := s.predictions) (x := call.tx) snapshot
            (isOf (call.satelliteId, station.id)) with ⟨index, predictions, hdelete⟩ | hends |
              ⟨tx, hwaits⟩
          · refine hgoes (.deleteRow index) (by rintro ⟨⟩) ?_
            simp [recomputeStep, hdelete]
          · refine hgoes .endDelete (by rintro ⟨⟩) ?_
            simp [recomputeStep, hends]
          · have hopen : tx ∉ s.predictions.committed := by
              obtain ⟨_, -, -, -, -, hopen⟩ := hwaits
              exact fun hcommitted => hopen (Or.inr hcommitted)
            refine Or.inr (waitsFor_of_waitsOn hsessions ?_ hopen)
            simp only [waitsOn, hplace]
            exact decide_eq_true hwaits
      | inserting predicted =>
          cases predicted with
          | nil => exact hgoes .leave (by rintro ⟨⟩) (by simp [recomputeStep])
          | cons pass predicted =>
              obtain ⟨id, hid⟩ := Infinite.exists_notMem_finset
                (s.predictions.versions.map fun version => version.row.id).toFinset
              cases htrack : linestringToWkb pass.groundTrack with
              | none =>
                  refine hgoes (.create id) (by rintro ⟨⟩) ?_
                  simp [recomputeStep, htrack]
              | some track =>
                  cases hinsert : s.predictions.insert call.tx PassPrediction.conflicts
                      (predictionOf id (call.satelliteId, station.id) pass track) with
                  | refused | inserted _ =>
                      refine hgoes (.create id) (by rintro ⟨⟩) ?_
                      simp [recomputeStep, htrack, hinsert]
                  | waits =>
                      obtain ⟨tx, hwaits⟩ := Store.exists_insertWaits hinsert
                      have hopen : tx ∉ s.predictions.committed := by
                        obtain ⟨_, -, -, -, hopen⟩ := hwaits
                        exact fun hcommitted => hopen (Or.inr hcommitted)
                      refine Or.inr (waitsFor_of_waitsOn hsessions ?_ hopen)
                      simp only [waitsOn, hplace]
                      refine decide_eq_true (hwaits.mono fun version hmem hconflict => ?_)
                      rcases Bool.or_eq_true_iff.mp hconflict with hsame | hsame
                      · refine absurd ?_ hid
                        rw [List.mem_toFinset, List.mem_map]
                        exact ⟨version, hmem, of_decide_eq_true hsame⟩
                      · exact hsame

/-- **Calls at different pairs get on.** As long as a call is running, one of them can take a
step, unless two of them are in `execute` for the same satellite and the same station. -/
theorem calls_go_on [Finite W] {h : History (State W) (Action W)} {s : State W}
    (hrun : (recomputation sky settings).Run h s) (hmeets : h.Meets fun _ => ListsByName rank)
    (hrunning : ∃ worker, (s.handler worker).tx? ≠ none)
    (hapart : ∀ worker other, (s.handler worker).stand ≠ none →
      (s.handler worker).stand = (s.handler other).stand → worker = other) :
    ∃ worker, GoesOn sky settings s worker := by
  obtain ⟨worker, hworker, hfree⟩ := (ascends_of_run hrun hmeets).exists_not_waits hrunning (by
    intro worker other _ _ hwaits hsame
    refine hwaits.ne (hapart worker other ?_ hsame)
    obtain ⟨tx, -, hwaits⟩ := hwaits
    obtain ⟨call, station, stations, execution, hplace, -⟩ := exists_mark_of_waitsOn hwaits
    rw [hplace]
    rintro ⟨⟩)
  obtain ⟨tx, htx⟩ := Option.ne_none_iff_exists'.mp hworker
  obtain ⟨call, place, hplace, -⟩ := Handler.tx?_eq_some.mp htx
  refine ⟨worker, (goesOn_or_waits (callsOk_of_run hrun).sessions hplace).resolve_right ?_⟩
  rintro ⟨other, hwaits⟩
  have hother : (s.handler other).tx? ≠ none := by
    obtain ⟨tx', htx', -⟩ := hwaits
    rw [htx']
    rintro ⟨⟩
  exact hfree other hother hwaits

/-- One call has computed the passes over Madrid, the other has just begun. -/
theorem second_call_goes_on :
    ∃ h s, (recomputation (W := Fin 2) issSky {}).Run h s ∧ (s.handler 0).tx? = some 0 ∧
      (s.handler 1).tx? = some 1 ∧ ∃ worker, GoesOn issSky {} s worker := by
  obtain ⟨h, s, hrun, hP⟩ := System.exists_run_of_play (idleCalls_init issSky {})
    ([.register madrid, .refresh 0 8 [issChange]] ++ dispatchActions 0 [] (issChange.event 0 8) ++
      computeActions 0 ++ [.refresh 0 8 [issChangeLater]] ++
      dispatchActions 1 [issChange.event 0 8] (issChangeLater.event 0 8))
    (fun p => decide (p.1.Meets (fun _ => ListsByName List.length) ∧
      (p.2.handler 0).tx? = some 0 ∧ (p.2.handler 1).tx? = some 1 ∧
      ∀ worker other, (p.2.handler worker).stand ≠ none →
        (p.2.handler worker).stand = (p.2.handler other).stand → worker = other))
    (by decide +kernel)
  obtain ⟨hmeets, hfirst, hsecond, hapart⟩ := of_decide_eq_true hP
  refine ⟨h, s, hrun, hfirst, hsecond, calls_go_on hrun hmeets ⟨0, ?_⟩ hapart⟩
  rw [hfirst]
  rintro ⟨⟩

end Apsis.Tracking
