/-
# What a call of `recompute_passes` replaces

Nobody sees anything of a call before it commits, and of a call that does not
nothing is left. A commit replaces the rows of the satellite at the listed
stations, by the passes of what was read for them if no other call of the
satellite has been running meanwhile, and leaves every other row alone.
-/

import Apsis.Tracking.Mixing
import Apsis.Tracking.Readings

namespace Apsis.Tracking

open Apsis.Library Apsis.Core

universe u

variable {W : Type u}

/-! ## The property -/

/-- The passes that are stored for a pair, as everyone sees them. -/
def storedPasses (predictions : PredictionStore) (pair : Pair) : List SatellitePass :=
  (predictions.current (isOf pair)).map PassPrediction.pass

/-- The call that a transition commits, and its worker. -/
def CommitsCall (t : Transition (State W) (Action W)) (worker : W) (call : Recompute) : Prop :=
  t.action = .recompute worker .commit ∧ t.source.handler worker = .running call (.looping [])

/-- No other call of the satellite has been running while this one was. -/
def RunsAlone (h : History (State W) (Action W)) (worker : W) (call : Recompute) : Prop :=
  ∀ t ∈ h, (t.target.handler worker).tx? = some call.tx →
    ∀ other call' place, other ≠ worker → t.target.handler other = .running call' place →
      call'.satelliteId ≠ call.satelliteId

/-- What a transition does to the predictions, as everyone sees them. -/
structure IsAtomic (sky : Skyfield) (earlier : History (State W) (Action W))
    (t : Transition (State W) (Action W)) : Prop where
  /-- Nothing changes without a commit. -/
  quiet : commitBy t = none →
    ∀ q, t.target.predictions.current q = t.source.predictions.current q
  /-- A call that ends without one leaves no mark. -/
  failed : ∀ worker call place, t.source.handler worker = .running call place →
    (t.target.handler worker).tx? ≠ some call.tx → commitBy t = none →
      ∀ version ∈ t.target.predictions.versions,
        version.insertedBy ≠ call.tx ∧ version.deletedBy ≠ some call.tx
  /-- A commit leaves alone the rows of all pairs but those of its satellite and the
  listed stations. -/
  frame : ∀ worker call, CommitsCall t worker call →
    ∃ order, listingOf earlier call.tx = some order ∧
      ∀ q : PassPrediction → Bool, (∀ row, q row = true → ∀ station ∈ order,
        row.pair ≠ (call.satelliteId, station.id)) →
          t.target.predictions.current q = t.source.predictions.current q
  /-- For every listed station, the commit of a call that ran alone leaves exactly the
  passes of the lines that it read. They are the current ones if nothing has changed
  since. -/
  replaced : ∀ worker call order, CommitsCall t worker call → RunsAlone earlier worker call →
    listingOf earlier call.tx = some order → ∀ station ∈ order, ∃ reading,
      readingOf earlier call.tx (call.satelliteId, station.id) = some reading ∧
        reading.station = station ∧ reading.window = call.window ∧
          reading.passes sky =
            .ok (storedPasses t.target.predictions (call.satelliteId, station.id)) ∧
          (reading.revision = revision earlier call.satelliteId →
            (t.source.satellite? call.satelliteId).map Satellite.lines = some reading.lines)

/-- What a call puts into `compute_passes` for a station. -/
def Reading.input (reading : Reading) : (Text × Text) × GroundStation × (Time × Time) :=
  (reading.lines, reading.station, reading.window)

theorem Reading.passes_of_input {sky : Skyfield} {reading reading' : Reading}
    (hinput : reading.input = reading'.input) : reading.passes sky = reading'.passes sky := by
  simp only [input, Prod.mk.injEq] at hinput
  unfold passes
  rw [hinput.1, hinput.2.1, hinput.2.2]

/-- The second commit is one of the same satellite as the first, with the same lines,
stations and window, both calls ran alone, and no call of the satellite has committed
in between. -/
def Repeats (early : History (State W) (Action W)) (first : Transition (State W) (Action W))
    (mid : History (State W) (Action W)) (second : Transition (State W) (Action W)) : Prop :=
  ∃ worker call worker' call', CommitsCall first worker call ∧ CommitsCall second worker' call' ∧
    RunsAlone early worker call ∧ RunsAlone (mid ++ first :: early) worker' call' ∧
    call'.satelliteId = call.satelliteId ∧
    (∀ pair, (readingOf (mid ++ first :: early) call'.tx pair).map Reading.input =
      (readingOf early call.tx pair).map Reading.input) ∧
    ∀ t ∈ mid, ∀ actor other, CommitsCall t actor other → other.satelliteId ≠ call.satelliteId

section Calls

variable [DecidableEq W] {sky : Skyfield} {settings : Settings}

/-! ## Before the commit -/

/-- The state of a transition is not seen to change unless a call commits. -/
theorem current_of_effect {first : TxId} {h : History (State W) (Action W)} {s s' : State W}
    {a : Action W} (hok : CallsFrom first h s) (heffect : StepEffect sky settings s a s')
    (hnone : commitBy ⟨s, a, s'⟩ = none) (q : PassPrediction → Bool) :
    s'.predictions.current q = s.predictions.current q := by
  have hdrop : ∀ (before : State W) worker next, before.predictions = s.predictions →
      before.handler = s.handler →
        (before.drop worker next).predictions.current q = s.predictions.current q := by
    intro before worker next hpredictions hhandler
    rcases State.drop_predictions before worker next with hsame | ⟨tx, htx, hsame⟩
    · rw [hsame, hpredictions]
    · rw [hsame, hpredictions]
      apply Store.current_rollback
      exact hok.sessions.uncommitted worker tx (hhandler ▸ htx)
  cases heffect with
  | @drop _ outbox worker _ _ _ => exact hdrop { s with outbox := outbox } worker .idle rfl rfl
  | raises _ _ _ _ => exact hdrop s _ _ rfl rfl
  | @deleteRow worker call _ _ _ _ _ _ hplace hdelete =>
      exact Store.current_deleteAt
        (hok.sessions.uncommitted worker call.tx (congrArg Handler.tx? hplace)) hdelete q
  | @create worker call _ _ _ _ _ _ _ hplace _ hinsert =>
      exact Store.current_insert
        (hok.sessions.uncommitted worker call.tx (congrArg Handler.tx? hplace)) hinsert q
  | commit hplace =>
      exact absurd ((congrArg Handler.tx? hplace).symm.trans hnone) (Option.some_ne_none _)
  | _ => rfl

/-- A call that has ended without a commit has left no mark. -/
theorem unmarked_of_failed {first : TxId} {h : History (State W) (Action W)} {s s' : State W}
    {a : Action W} (hok : CallsFrom first h s) (heffect : StepEffect sky settings s a s')
    {worker : W} {call : Recompute} {place : Place}
    (hplace : s.handler worker = .running call place)
    (hends : (s'.handler worker).tx? ≠ some call.tx) (hnone : commitBy ⟨s, a, s'⟩ = none) :
    ∀ version ∈ s'.predictions.versions,
      version.insertedBy ≠ call.tx ∧ version.deletedBy ≠ some call.tx := by
  have hok' := callsFrom_step hok heffect
  have hopen : (s.handler worker).tx? = some call.tx := congrArg Handler.tx? hplace
  have huncommitted : call.tx ∉ s'.predictions.committed := by
    rw [committed_of_effect heffect, hnone]
    exact hok.sessions.uncommitted worker call.tx hopen
  have hclosed : ∀ other, (s'.handler other).tx? ≠ some call.tx := by
    intro other hother
    rcases opened_of_effect heffect hother with hbefore | hnew
    · rw [hok.sessions.owner other worker call.tx hbefore hopen] at hother
      exact hends hother
    · exact Nat.ne_of_lt (hok.sessions.numbered call.tx (Or.inr ⟨worker, hopen⟩)) hnew
  have hdead : ¬ IsLive s'.predictions (fun other => (s'.handler other).tx?) call.tx := by
    rintro (hcommitted | ⟨other, hother⟩)
    · exact huncommitted hcommitted
    · exact hclosed other hother
  intro version hmem
  obtain ⟨hinserted, hdeleted⟩ := hok'.sessions.marked version hmem
  constructor
  · rintro hsame
    exact hdead (hsame ▸ hinserted)
  · intro hsame
    exact hdead (hdeleted call.tx hsame)

/-! ## A call alone -/

/-- All rows of the pair but those of the transaction itself are in the snapshot. -/
def SeesAll (predictions : PredictionStore) (tx : TxId) (snapshot : List TxId) (pair : Pair) :
    Prop :=
  ∀ version ∈ predictions.versions, version.row.pair = pair →
    version.insertedBy = tx ∨ version.insertedBy ∈ snapshot

/-- The `DELETE`s that a call has ended, or is executing, have all rows in their
snapshots. -/
structure DeletesAll (first : TxId) (h : History (State W) (Action W))
    (predictions : PredictionStore) (call : Recompute) (place : Place) : Prop where
  ended : ∀ pair snapshot, snapshotFrom first h call.tx pair = some snapshot →
    SeesAll predictions call.tx snapshot pair
  deleting : ∀ station stations snapshot predicted,
    place = .executing station stations (.deleting snapshot predicted) →
      SeesAll predictions call.tx snapshot (call.satelliteId, station.id)

omit [DecidableEq W] in
theorem RunsAlone.tail {t : Transition (State W) (Action W)} {h : History (State W) (Action W)}
    {worker : W} {call : Recompute} (halone : RunsAlone (t :: h) worker call) :
    RunsAlone h worker call :=
  fun t' hmem => halone t' (List.mem_cons_of_mem t hmem)

/-- A row that another call creates is of another satellite. -/
theorem SeesAll.step {h : History (State W) (Action W)} {s s' : State W} {a : Action W}
    (heffect : StepEffect sky settings s a s') {worker : W} {call : Recompute} {place : Place}
    (hplace : s'.handler worker = .running call place)
    (halone : RunsAlone (⟨s, a, s'⟩ :: h) worker call) {snapshot : List TxId} {pair : Pair}
    (hpair : pair.1 = call.satelliteId) (hsees : SeesAll s.predictions call.tx snapshot pair) :
    SeesAll s'.predictions call.tx snapshot pair := by
  intro version hmem hrow
  rcases version_of_effect heffect hmem with ⟨before, hbefore, hsame, hinserted⟩ |
    ⟨creator, call', station, stations, predicted, hcreates, hinserted, hown⟩
  · rw [← hinserted]
    exact hsees before hbefore (hsame ▸ hrow)
  · by_cases hself : creator = worker
    · rw [hself, hplace] at hcreates
      cases hcreates
      exact Or.inl hinserted
    · exfalso
      apply halone ⟨s, a, s'⟩ List.mem_cons_self (congrArg Handler.tx? hplace) creator call' _ hself
        hcreates
      rw [← hpair, ← hrow, hown]

/-- When the call takes a snapshot, all rows of its satellite but its own have been
committed. -/
theorem seesAll_committed {first : TxId} {h : History (State W) (Action W)} {s : State W}
    (hok : CallsFrom first h s) (hreads : Reads sky first h s)
    (hopened : ∀ worker tx, (s.handler worker).tx? = some tx → first ≤ tx) {worker : W}
    {call : Recompute}
    (hothers : ∀ other call' place, other ≠ worker → s.handler other = .running call' place →
      call'.satelliteId ≠ call.satelliteId)
    (hopen : (s.handler worker).tx? = some call.tx) {pair : Pair}
    (hpair : pair.1 = call.satelliteId) :
    SeesAll s.predictions call.tx s.predictions.committed pair := by
  intro version hmem hrow
  rcases (hok.sessions.marked version hmem).1 with hcommitted | ⟨other, hother⟩
  · exact Or.inr hcommitted
  · left
    obtain ⟨call', place, hplace, htx⟩ := Handler.tx?_eq_some.mp hother
    by_cases hself : other = worker
    · subst hself
      exact Option.some.inj (hother.symm.trans hopen)
    · obtain ⟨snapshot, hsnapshot⟩ := hok.calls.inserted version hmem
      rw [← htx] at hsnapshot
      obtain ⟨order, -, station, -, hown⟩ := (hreads.places other call' place hplace).listed
        (hopened other call'.tx (congrArg Handler.tx? hplace))
        (by rw [hsnapshot]; exact Option.some_ne_none snapshot)
      refine absurd ?_ (hothers other call' place hself hplace)
      rw [← hpair, ← hrow, hown]

/-- The step lemma. -/
theorem deletesAll_step {first : TxId} {h : History (State W) (Action W)} {s s' : State W}
    {a : Action W} (hok : CallsFrom first h s) (hreads : Reads sky first h s)
    (hopened : ∀ worker tx, (s.handler worker).tx? = some tx → first ≤ tx)
    (hlast : ∀ worker call place, s.handler worker = .running call place →
      ∃ t ∈ h, t.target = s)
    (heffect : StepEffect sky settings s a s')
    (hinv : ∀ worker call place, s.handler worker = .running call place →
      RunsAlone h worker call → DeletesAll first h s.predictions call place)
    {worker : W} {call : Recompute} {place : Place}
    (hplace : s'.handler worker = .running call place)
    (halone : RunsAlone (⟨s, a, s'⟩ :: h) worker call) :
    DeletesAll first (⟨s, a, s'⟩ :: h) s'.predictions call place := by
  rcases (continues_of_effect heffect).2 worker call place hplace with
    ⟨before, hbefore, hmoves⟩ | ⟨hnew, rfl, rfl⟩
  · have hprior := hinv worker call before hbefore halone.tail
    have hopen : (s.handler worker).tx? = some call.tx := congrArg Handler.tx? hbefore
    have hfirst := hopened worker call.tx hopen
    have hstep : ∀ snapshot pair, pair.1 = call.satelliteId →
        SeesAll s.predictions call.tx snapshot pair →
          SeesAll s'.predictions call.tx snapshot pair :=
      fun snapshot pair hpair hsees => hsees.step heffect hplace halone hpair
    constructor
    · intro pair snapshot hsome
      have hpair : pair.1 = call.satelliteId := by
        obtain ⟨-, -, station, -, rfl⟩ :=
          ((reads_step hreads hok heffect).places worker call place hplace).listed hfirst
            (by rw [hsome]; exact Option.some_ne_none snapshot)
        rfl
      apply hstep snapshot pair hpair
      cases hdelete : deleteBy ⟨s, a, s'⟩ with
      | none =>
          rw [snapshotFrom_cons_of_none hdelete] at hsome
          exact hprior.ended pair snapshot hsome
      | some noted =>
          obtain ⟨deleter, call', station, stations, predicted, hdeletes, hkey⟩ :=
            deleteBy_eq_some hdelete
          have hother : (s.handler deleter).tx? = some call'.tx := congrArg Handler.tx? hdeletes
          rw [snapshotFrom_cons_of_some hdelete
            (by rw [hkey]; exact hopened deleter call'.tx hother)] at hsome
          split at hsome
          · next hsame =>
              -- The `DELETE` that ends is the call's own.
              rw [hkey] at hsame
              cases hsome
              rw [(Prod.mk.inj hsame).1] at hother
              rw [hok.sessions.owner deleter worker call.tx hother hopen, hbefore] at hdeletes
              cases hdeletes
              rw [← (Prod.mk.inj hsame).2]
              exact hprior.deleting station stations noted.2 predicted rfl
          · exact hprior.ended pair snapshot hsome
    · rintro station stations snapshot predicted rfl
      apply hstep snapshot _ rfl
      rcases hmoves with rfl | hmoves
      · exact hprior.deleting station stations snapshot predicted rfl
      · cases hmoves
        obtain ⟨t, hmem, rfl⟩ := hlast worker call _ hbefore
        exact seesAll_committed hok hreads hopened (halone.tail t hmem hopen) hopen rfl
  · constructor
    · intro pair snapshot hsome
      rw [hnew, snapshotFrom_cons_of_none rfl] at hsome
      exact absurd (hok.calls.noted _ _ _ hsome).1 (Nat.lt_irrefl _)
    · rintro _ _ _ _ ⟨⟩

/-- The run lemma. -/
theorem deletesAll_of_run {start s : State W} (hrest : AtRest start)
    {h : History (State W) (Action W)}
    (hrun : ((recomputation sky settings).startingIn start).Run h s) :
    ∀ worker call place, s.handler worker = .running call place → RunsAlone h worker call →
      DeletesAll start.nextTx h s.predictions call place := by
  induction hrun with
  | start hinit =>
      cases hinit
      intro worker call place hplace
      rw [hrest.handlers] at hplace
      cases hplace
  | @extend h s s' a hprior hstep ih =>
      have hok := callsFrom_of_run hrest hprior
      have hreads := reads_of_run hrest hprior
      have hlast : ∀ worker call place, s.handler worker = .running call place →
          ∃ t ∈ h, t.target = s := by
        intro worker call place hplace
        refine hprior.init_or_target.resolve_left fun hinit => ?_
        cases hinit
        rw [hrest.handlers] at hplace
        cases hplace
      exact fun _ _ _ hplace halone => deletesAll_step hok hreads (first_le_of_run hrest hprior).2
        hlast (step_effect hstep) ih hplace halone

/-! ## The commit -/

section Commit

variable {start s s' : State W} (hrest : AtRest start) {h : History (State W) (Action W)}
  (hrun : ((recomputation sky settings).startingIn start).Run h s) {worker : W} {call : Recompute}
  (hplace : s.handler worker = .running call (.looping []))
include hrest hrun hplace

/-- Where a call is about to commit, it has visited all stations that it has listed. -/
theorem visits_of_commit : ∃ order, Visits h call order [] ∧
    Settles sky start.nextTx h s.predictions call.tx none := by
  obtain ⟨⟨order, hvisits⟩, -, hsettles⟩ := (reads_of_run hrest hrun).places worker call _ hplace
  exact ⟨order, hvisits, hsettles⟩

/-- A commit leaves other pairs alone. -/
theorem current_commit_of_not_listed {order : List GroundStation}
    (hlisting : listingOf h call.tx = some order) {q : PassPrediction → Bool}
    (hother : ∀ row, q row = true → ∀ station ∈ order,
      row.pair ≠ (call.satelliteId, station.id)) :
    (s.predictions.commit call.tx).current q = s.predictions.current q := by
  have hok := callsFrom_of_run hrest hrun
  have hopen : (s.handler worker).tx? = some call.tx := congrArg Handler.tx? hplace
  have hunended : ∀ version : Version PassPrediction TxId, q version.row = true →
      ∀ snapshot, snapshotFrom start.nextTx h call.tx version.row.pair ≠ some snapshot := by
    intro version hrow snapshot hsnapshot
    obtain ⟨order', hlisting', station, hmem, hpair⟩ :=
      ((reads_of_run hrest hrun).places worker call _ hplace).listed
        ((first_le_of_run hrest hrun).2 worker call.tx hopen)
        (by rw [hsnapshot]; exact Option.some_ne_none snapshot)
    rw [hlisting] at hlisting'
    cases hlisting'
    exact hother version.row hrow station hmem hpair
  apply Store.current_commit
  intro version hmem hrow
  constructor
  · intro hinserted
    obtain ⟨snapshot, hsnapshot⟩ := hok.calls.inserted version hmem
    rw [hinserted] at hsnapshot
    exact hunended version hrow snapshot hsnapshot
  · intro hdeleted
    obtain ⟨snapshot, hsnapshot, -⟩ := hok.calls.mem_of_deletedBy hok.sessions hplace hmem hdeleted
    exact hunended version hrow snapshot hsnapshot

/-- The commit of a call that ran alone leaves, of each of its pairs, exactly what the
call has written. -/
theorem exactly_commit_of_runsAlone (halone : RunsAlone h worker call) {pair : Pair}
    (hended : snapshotFrom start.nextTx h call.tx pair ≠ none) :
    (s.predictions.commit call.tx).Exactly call.tx (isOf pair) := by
  have hok := callsFrom_of_run hrest hrun
  have hopen : (s.handler worker).tx? = some call.tx := congrArg Handler.tx? hplace
  have huncommitted := hok.sessions.uncommitted worker call.tx hopen
  obtain ⟨snapshot, hsnapshot⟩ := Option.ne_none_iff_exists'.mp hended
  have hsees := (deletesAll_of_run hrest hrun worker call _ hplace halone).ended pair snapshot
    hsnapshot
  apply (hok.calls.cleared _ _ _ hsnapshot (Or.inr ⟨worker, hopen⟩)).exactly_commit
  · intro version hmem hrow hcurrent
    refine (hsees version hmem (of_decide_eq_true hrow)).resolve_left fun hown => ?_
    exact huncommitted (hown ▸ hcurrent.1)
  · exact fun version hmem hown => hok.calls.deletedBy_eq_none huncommitted hmem hown

/-- So it leaves exactly the passes of what it has read. -/
theorem storedPasses_commit_of_runsAlone (halone : RunsAlone h worker call) {pair : Pair}
    {reading : Reading} (hreading : readingOf h call.tx pair = some reading) :
    reading.passes sky = .ok (storedPasses (s.predictions.commit call.tx) pair) := by
  obtain ⟨order, hvisits, hsettles⟩ := visits_of_commit hrest hrun hplace
  obtain ⟨hended, hpasses⟩ := hsettles.stored pair reading hreading (Option.some_ne_none pair).symm
  rw [storedPasses,
    (exactly_commit_of_runsAlone hrest hrun hplace halone hended).current_eq]
  exact hpasses

end Commit

theorem predictions_of_commitsCall {s s' : State W} {a : Action W}
    (hstep : step sky settings s a = some s') {worker : W} {call : Recompute}
    (hcommits : CommitsCall ⟨s, a, s'⟩ worker call) :
    s'.predictions = s.predictions.commit call.tx := by
  obtain ⟨rfl, hplace⟩ := hcommits
  have hplace' : s.handler worker = .running call (.looping []) := hplace
  simp only [step, hplace', recomputeStep, Option.some.injEq] at hstep
  rw [← hstep]
  rfl

theorem commitsCall_of_commitBy {s s' : State W} {a : Action W}
    (hstep : step sky settings s a = some s') {tx : TxId}
    (hcommit : commitBy ⟨s, a, s'⟩ = some tx) :
    ∃ worker call, CommitsCall ⟨s, a, s'⟩ worker call ∧ call.tx = tx := by
  cases step_effect hstep with
  | @commit worker call hplace =>
      refine ⟨worker, call, ⟨rfl, hplace⟩, ?_⟩
      exact Option.some.inj ((congrArg Handler.tx? hplace).symm.trans hcommit)
  | @raises _ _ _ statement _ _ hnot _ =>
      cases statement with
      | commit => exact absurd rfl hnot
      | _ => cases hcommit
  | _ => cases hcommit

/-! ## Along a run -/

section Run

variable {start : State W} (hrest : AtRest start)
include hrest

theorem isAtomic_step {h : History (State W) (Action W)} {s s' : State W} {a : Action W}
    (hrun : ((recomputation sky settings).startingIn start).Run h s)
    (hstep : step sky settings s a = some s') : IsAtomic sky h ⟨s, a, s'⟩ := by
  have hok := callsFrom_of_run hrest hrun
  have heffect := step_effect hstep
  constructor
  · exact current_of_effect hok heffect
  · intro worker call place hplace hends hnone
    exact unmarked_of_failed hok heffect hplace hends hnone
  · intro worker call hcommits
    obtain ⟨order, hvisits, -⟩ := visits_of_commit hrest hrun hcommits.2
    refine ⟨order, hvisits.listing, fun q hother => ?_⟩
    show s'.predictions.current q = s.predictions.current q
    rw [predictions_of_commitsCall hstep hcommits]
    exact current_commit_of_not_listed hrest hrun hcommits.2 hvisits.listing hother
  · intro worker call order hcommits halone hlisting station hmem
    obtain ⟨order', hvisits, -⟩ := visits_of_commit hrest hrun hcommits.2
    rw [hvisits.listing] at hlisting
    cases hlisting
    obtain ⟨reading, hreading, hstation⟩ := (hvisits.visited station hmem).resolve_left nofun
    have hwindow := (hvisits.readings _ reading hreading).2.2
    refine ⟨reading, hreading, hstation, hwindow, ?_, ?_⟩
    · show reading.passes sky = .ok (storedPasses s'.predictions _)
      rw [predictions_of_commitsCall hstep hcommits]
      exact storedPasses_commit_of_runsAlone hrest hrun hcommits.2 halone hreading
    · exact (isUpToDate_of_run hrun call.tx _ reading hreading).2

theorem meets_isAtomic {h : History (State W) (Action W)} {s : State W}
    (hrun : ((recomputation sky settings).startingIn start).Run h s) :
    h.Meets (IsAtomic sky) := by
  induction hrun with
  | start _ => trivial
  | extend hprior hstep ih => exact ⟨isAtomic_step hrest hprior hstep, ih⟩

/-- As long as no call of the satellite commits, its predictions stay as they are. -/
theorem storedPasses_of_others {early mid : History (State W) (Action W)}
    {first : Transition (State W) (Action W)} {s : State W}
    (hrun : ((recomputation sky settings).startingIn start).Run (mid ++ first :: early) s)
    {pair : Pair} (hothers : ∀ t ∈ mid, ∀ worker call, CommitsCall t worker call →
      call.satelliteId ≠ pair.1) :
    storedPasses s.predictions pair = storedPasses first.target.predictions pair := by
  induction mid generalizing s with
  | nil =>
      obtain ⟨-, -, rfl⟩ := hrun.of_cons
      rfl
  | cons t mid ih =>
      obtain ⟨hprior, hstep, rfl⟩ := hrun.of_cons
      have hatomic := isAtomic_step hrest hprior hstep
      rw [← ih hprior fun t' hmem => hothers t' (List.mem_cons_of_mem t hmem)]
      unfold storedPasses
      cases hcommit : commitBy t with
      | none => rw [hatomic.quiet hcommit]
      | some tx =>
          obtain ⟨worker, call, hcommits, -⟩ := commitsCall_of_commitBy hstep hcommit
          obtain ⟨order, -, hframe⟩ := hatomic.frame worker call hcommits
          rw [hframe]
          intro row hrow station _ hpair
          apply hothers t List.mem_cons_self worker call hcommits
          rw [← of_decide_eq_true hrow, hpair]

/-- A repeated call changes nothing. -/
theorem storedPasses_of_repeats {early mid : History (State W) (Action W)}
    {first second : Transition (State W) (Action W)} {s : State W}
    (hrun : ((recomputation sky settings).startingIn start).Run
      (second :: (mid ++ first :: early)) s)
    (hrepeats : Repeats early first mid second) (pair : Pair) :
    storedPasses second.target.predictions pair =
      storedPasses second.source.predictions pair := by
  obtain ⟨worker, call, worker', call', hfirst, hsecond, halone, halone', hsatellite, hinputs,
    hothers⟩ := hrepeats
  obtain ⟨hprior, hstep, -⟩ := hrun.of_cons
  obtain ⟨s₁, hrun₁⟩ := hprior.of_append
  obtain ⟨hprior₁, hstep₁, -⟩ := hrun₁.of_cons
  have hatomic := isAtomic_step hrest hprior hstep
  obtain ⟨order, hvisits, -⟩ := visits_of_commit hrest hprior hsecond.2
  by_cases hlisted : ∃ station ∈ order, pair = (call'.satelliteId, station.id)
  · obtain ⟨station, hmem, rfl⟩ := hlisted
    obtain ⟨reading, hreading, -, -, hpasses, -⟩ :=
      hatomic.replaced worker' call' order hsecond halone' hvisits.listing station hmem
    -- The first call has computed the same passes.
    have hsame := hinputs (call'.satelliteId, station.id)
    rw [hreading, Option.map_some, eq_comm, Option.map_eq_some_iff] at hsame
    obtain ⟨reading₁, hreading₁, hinput⟩ := hsame
    have hpasses₁ := storedPasses_commit_of_runsAlone hrest hprior₁ hfirst.2 halone hreading₁
    rw [← predictions_of_commitsCall hstep₁ hfirst] at hpasses₁
    rw [Reading.passes_of_input hinput, hpasses] at hpasses₁
    rw [storedPasses_of_others hrest hprior, Except.ok.inj hpasses₁]
    intro t ht actor other hcommits
    rw [hsatellite]
    exact hothers t ht actor other hcommits
  · obtain ⟨order', hlisting, hframe⟩ := hatomic.frame worker' call' hsecond
    rw [hvisits.listing] at hlisting
    cases hlisting
    unfold storedPasses
    rw [hframe]
    intro row hrow station hmem hpair
    exact hlisted ⟨station, hmem, by rw [← of_decide_eq_true hrow, hpair]⟩

/-- **`recompute_passes` is atomic.** In every run that begins with tables at rest, a
call is seen by nobody before it commits and leaves nothing if it does not; the
commit of a call that ran alone leaves, for every station listed, exactly the passes
computed from what was read for it, and no commit touches a row of another pair.
A call that repeats another one changes nothing. -/
theorem recomputes_atomically {h : History (State W) (Action W)} {s : State W}
    (hrun : ((recomputation sky settings).startingIn start).Run h s) :
    h.Meets (IsAtomic sky) ∧ ∀ late second mid first early,
      h = late ++ second :: (mid ++ first :: early) → Repeats early first mid second →
        ∀ pair, storedPasses second.target.predictions pair =
          storedPasses second.source.predictions pair := by
  refine ⟨meets_isAtomic hrest hrun, ?_⟩
  rintro late second mid first early rfl hrepeats pair
  obtain ⟨s', hrun'⟩ := hrun.of_append
  exact storedPasses_of_repeats hrest hrun' hrepeats pair

end Run

end Calls

/-! ## A call that is repeated -/

/-- The transition is a commit of the worker. -/
def isCommitOf (worker : Fin 2) (t : Transition (State (Fin 2)) (Action (Fin 2))) : Bool :=
  match t.action with
  | .recompute actor .commit => decide (actor = worker)
  | _ => false

theorem isCommitOf_iff {worker : Fin 2} {t : Transition (State (Fin 2)) (Action (Fin 2))} :
    isCommitOf worker t = true ↔ t.action = .recompute worker .commit := by
  unfold isCommitOf
  split
  · next haction => simp [haction]
  · next hnot =>
      simp only [Bool.false_eq_true, false_iff]
      exact hnot worker

instance (t : Transition (State (Fin 2)) (Action (Fin 2))) (worker : Fin 2) (call : Recompute) :
    Decidable (CommitsCall t worker call) :=
  decidable_of_iff
    (isCommitOf worker t = true ∧ t.source.handler worker = .running call (.looping []))
    (and_congr_left' isCommitOf_iff)

/-- The satellite of a call that is running. -/
def Handler.satellite? : Handler → Option Uuid
  | .running call _ => some call.satelliteId
  | _ => none

instance (h : History (State (Fin 2)) (Action (Fin 2))) (worker : Fin 2) (call : Recompute) :
    Decidable (RunsAlone h worker call) :=
  decidable_of_iff (∀ t ∈ h, (t.target.handler worker).tx? = some call.tx →
      ∀ other, other ≠ worker → (t.target.handler other).satellite? ≠ some call.satelliteId) <| by
    constructor
    · intro hnone t ht htx other call' place hother hrunning hsame
      refine hnone t ht htx other hother ?_
      rw [hrunning, ← hsame]
      rfl
    · intro halone t ht htx other hother hsatellite
      cases hrunning : t.target.handler other with
      | running call' place =>
          rw [hrunning] at hsatellite
          exact halone t ht htx other call' place hother hrunning (Option.some.inj hsatellite)
      | _ =>
          rw [hrunning] at hsatellite
          cases hsatellite

/-- The call of the satellite in this transaction. -/
def issCall (tx : TxId) : Recompute :=
  ⟨tx, 1, (0, timedelta (({} : Settings).passPredictionHorizonHours * 3600))⟩

/-- A call of the first worker commits. -/
def deliveredActions : List (Action (Fin 2)) :=
  [.register madrid, .refresh 0 8 [issChange]] ++ dispatchActions 0 [] (issChange.event 0 8) ++
    computeActions 0 ++ deleteActions 0 [] ++ storeActions 0 21

/-- The first worker dies before it has recorded the attempt, and the second one delivers the
event again. -/
def redeliveredActions : List (Action (Fin 2)) :=
  [.outbox (.crash 0)] ++ dispatchActions 1 [] (issChange.event 0 8) ++ computeActions 1 ++
    deleteActions 1 [0] ++ storeActions 1 22

/-- The rows of the pair, by their ids. -/
def rowIds (s : State (Fin 2)) : List Uuid :=
  (s.predictions.current (isOf (1, 7))).map PassPrediction.id

/-- The last transitions commit a call and the same call again. -/
def isRedelivery (h late : History (State (Fin 2)) (Action (Fin 2))) : Bool :=
  match h, late with
  | first :: early, second :: mid =>
      decide (CommitsCall first 0 (issCall 0)) && decide (CommitsCall second 1 (issCall 1)) &&
        decide (RunsAlone early 0 (issCall 0)) &&
        decide (RunsAlone (mid ++ first :: early) 1 (issCall 1)) &&
        decide (∀ t ∈ mid, commitBy t = none) &&
        decide (∀ note ∈ History.notes readBy early, note.1.2 = (1, 7)) &&
        decide (∀ note ∈ History.notes readBy (mid ++ first :: early), note.1.2 = (1, 7)) &&
        decide ((readingOf (mid ++ first :: early) 1 (1, 7)).map Reading.input =
          (readingOf early 0 (1, 7)).map Reading.input)
  | _, _ => false

theorem repeats_of_isRedelivery {first second : Transition (State (Fin 2)) (Action (Fin 2))}
    {early mid : History (State (Fin 2)) (Action (Fin 2))}
    (hredelivery : isRedelivery (first :: early) (second :: mid) = true) :
    Repeats early first mid second := by
  simp only [isRedelivery, Bool.and_eq_true, decide_eq_true_eq] at hredelivery
  obtain ⟨⟨⟨⟨⟨⟨⟨hfirst, hsecond⟩, halone⟩, halone'⟩, hmid⟩, hnotes⟩, hnotes'⟩, hsame⟩ := hredelivery
  refine ⟨0, issCall 0, 1, issCall 1, hfirst, hsecond, halone, halone', rfl, fun pair => ?_, ?_⟩
  · by_cases hpair : pair = (1, 7)
    · rw [hpair]
      exact hsame
    · have hnone : ∀ {h : History (State (Fin 2)) (Action (Fin 2))} {tx : TxId},
          (∀ note ∈ History.notes readBy h, note.1.2 = (1, 7)) → readingOf h tx pair = none := by
        intro h tx hall
        rw [Option.eq_none_iff_forall_ne_some]
        exact fun reading hreading => hpair (hall _ (History.mem_notes_of_recorded hreading))
      rw [hnone hnotes, hnone hnotes']
  · intro t ht actor other hcommits
    have hcommit : commitBy t = some other.tx := by
      simp [commitBy, hcommits.1, hcommits.2, Handler.tx?]
    cases (hmid t ht).symm.trans hcommit

/-- The second call stores the passes of the first under another id. -/
theorem redelivered_call_atomic :
    ∃ first early second mid s, ((recomputation (W := Fin 2) issSky {}).startingIn idleCalls).Run
        (second :: (mid ++ first :: early)) s ∧ Repeats early first mid second ∧
      rowIds first.target = [21] ∧ rowIds second.target = [22] ∧
      IsAtomic issSky (mid ++ first :: early) second ∧
      ∀ pair, storedPasses second.target.predictions pair =
        storedPasses second.source.predictions pair := by
  let M := (recomputation (W := Fin 2) issSky {}).startingIn idleCalls
  obtain ⟨h, s, hrun, hP⟩ := System.exists_run_of_play (M := M) rfl deliveredActions
    (fun p => decide (rowIds p.2 = [21]) &&
      ((M.startingIn p.2).play ([], p.2) redeliveredActions).any fun q =>
        isRedelivery p.1 q.1 && decide (rowIds q.2 = [22])) (by decide +kernel)
  rw [Bool.and_eq_true, decide_eq_true_eq] at hP
  obtain ⟨hids, hplay⟩ := hP
  obtain ⟨late, s', hlate, hP'⟩ := System.exists_run_of_play (M := M.startingIn s) rfl
    redeliveredActions (fun q => isRedelivery h q.1 && decide (rowIds q.2 = [22])) hplay
  rw [Bool.and_eq_true, decide_eq_true_eq] at hP'
  obtain ⟨hredelivery, hids'⟩ := hP'
  cases h with
  | nil => cases hredelivery
  | cons first early =>
      cases late with
      | nil => cases hredelivery
      | cons second mid =>
          have hrepeats := repeats_of_isRedelivery hredelivery
          have hwhole := hrun.append hlate
          obtain ⟨-, -, rfl⟩ := hrun.of_cons
          obtain ⟨-, -, rfl⟩ := hlate.of_cons
          have hrest := atRest_of_init (idleCalls_init issSky {})
          obtain ⟨⟨hatomic, -⟩, hunchanged⟩ := recomputes_atomically hrest hwhole
          exact ⟨first, early, second, mid, _, hwhole, hrepeats, hids, hids', hatomic,
            hunchanged [] second mid first early rfl hrepeats⟩
end Apsis.Tracking
