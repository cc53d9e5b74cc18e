/-
# Whether the predictions are those of the current TLE

A call of `recompute_passes` reads the satellite first and commits much later. A call
that has read an old TLE can so commit after one that has read the new TLE, and what
it stores stays. This module says when the predictions of a satellite do converge to
its current TLE: when no call commits over what a later reading has stored, and every
call that replaces an earlier reading has seen it.
-/

import Apsis.Tracking.Pursuit
import Apsis.Tracking.Replacement

namespace Apsis.Tracking

open Apsis.Library Apsis.Core
open Apsis.Core.Events (OutboxEvent Attempt)

universe u

variable {W : Type u}

/-! ## The property -/

/-- All events of the satellite have been processed, and no handler is running. -/
structure IsQuiet (s : State W) (satelliteId : Uuid) : Prop where
  processed : ∀ event ∈ s.outbox.events.rows, event.eventType = "tle.refreshed".toList →
    payloadSatellite event = some satelliteId → event.status = .processed
  ended : ∀ worker, (s.handler worker).tx? = none

/-- The predictions of the pair have been computed from these two lines. -/
structure ComputedFrom (sky : Skyfield) (h : History (State W) (Action W))
    (predictions : PredictionStore) (pair : Pair) (lines : Text × Text) : Prop where
  /-- A call that has read these lines for the pair has committed. -/
  computed : ∃ tx ∈ predictions.committed, ∃ reading, readingOf h tx pair = some reading ∧
    reading.lines = lines
  /-- Every row is one of the passes of a call that has read them. -/
  rows : ∀ version ∈ predictions.versions, version.row.pair = pair →
    version.IsCurrent predictions.committed → ∃ reading passes,
      readingOf h version.insertedBy pair = some reading ∧ reading.lines = lines ∧
        reading.passes sky = .ok passes ∧ version.row.pass ∈ passes

/-- The predictions of a quiet satellite, at the stations that there were when it last
changed, are those of its current lines. -/
def Converged (sky : Skyfield) (h : History (State W) (Action W)) (s : State W) : Prop :=
  ∀ satelliteId, IsQuiet s satelliteId →
    ∀ station ∈ stationsAtLastChange h satelliteId, ∃ satellite,
      s.satellite? satelliteId = some satellite ∧
        ComputedFrom sky h s.predictions (satelliteId, station.id) satellite.lines

/-- The condition: what other calls have read for a pair, and committed, a call may
commit over only if it has read the satellite later and if its `DELETE` has seen them,
unless the lines are the same. -/
def NeverOvertakes (earlier : History (State W) (Action W)) (t : Transition (State W) (Action W)) :
    Prop :=
  ∀ tx ∈ commitBy t, ∀ own ∈ earlier.notes readBy, own.1.1 = tx →
    ∀ other ∈ earlier.notes readBy, other.1.1 ∈ t.source.predictions.committed →
      other.1.2 = own.1.2 → other.2.lines ≠ own.2.lines →
        other.2.revision < own.2.revision ∧
          ∀ snapshot ∈ snapshotOf earlier tx own.1.2, other.1.1 ∈ snapshot

instance (earlier : History (State W) (Action W)) (t : Transition (State W) (Action W)) :
    Decidable (NeverOvertakes earlier t) :=
  inferInstanceAs (Decidable (∀ _ ∈ _, _))

/-! ## The order of the readings -/

/-- Of two committed transactions that have read different lines for a pair, the later
reader has seen the other one when it deleted. -/
def Replaces (h : History (State W) (Action W)) (pair : Pair) (tx other : TxId) : Prop :=
  ∀ reading reading', readingOf h tx pair = some reading →
    readingOf h other pair = some reading' → reading'.lines ≠ reading.lines →
      reading'.revision < reading.revision ∧
        ∀ snapshot ∈ snapshotOf h tx pair, other ∈ snapshot

/-- What has been committed over what. -/
def IsOrdered (h : History (State W) (Action W)) (committed : List TxId) : Prop :=
  ∀ pair, ∀ tx ∈ committed, ∀ other ∈ committed,
    Replaces h pair tx other ∨ Replaces h pair other tx

variable [DecidableEq W] {sky : Skyfield} {settings : Settings}

section Steps

variable {h : History (State W) (Action W)} {s s' : State W} {a : Action W}

omit [DecidableEq W] in
/-- A step notes nothing of a transaction that has committed. -/
theorem notes_of_committed
    (hsessions : Sessions s.predictions s.nextTx fun worker => (s.handler worker).tx?) {tx : TxId}
    (hmem : tx ∈ s.predictions.committed) :
    readingOf (⟨s, a, s'⟩ :: h) tx = readingOf h tx ∧
      snapshotOf (⟨s, a, s'⟩ :: h) tx = snapshotOf h tx := by
  have hother : ∀ worker call place pair pair', s.handler worker = .running call place →
      ((call.tx, pair) : TxId × Pair) ≠ (tx, pair') := by
    rintro worker call place pair pair' hplace hsame
    apply hsessions.uncommitted worker call.tx (congrArg Handler.tx? hplace)
    rw [(Prod.mk.inj hsame).1]
    exact hmem
  constructor
  · cases hnoted : readBy h ⟨s, a, s'⟩ with
    | none => rw [readingOf_cons_of_none hnoted]
    | some noted =>
        ext1 pair
        rw [readingOf_cons_of_some hnoted, if_neg]
        obtain ⟨worker, call, station, stations, satellite, -, hplace, -, rfl⟩ :=
          readBy_eq_some hnoted
        exact hother worker call _ _ pair hplace
  · cases hnoted : deleteBy ⟨s, a, s'⟩ with
    | none => rw [snapshotOf_cons_of_none hnoted]
    | some noted =>
        ext1 pair
        rw [snapshotOf_cons_of_some hnoted, if_neg]
        obtain ⟨worker, call, station, stations, predicted, hplace, hkey⟩ := deleteBy_eq_some hnoted
        rw [hkey]
        exact hother worker call _ _ pair hplace

omit [DecidableEq W] in
/-- A transition that commits notes nothing. -/
theorem notes_of_commit {tx : TxId} (hcommit : commitBy ⟨s, a, s'⟩ = some tx) :
    readingOf (⟨s, a, s'⟩ :: h) = readingOf h ∧ snapshotOf (⟨s, a, s'⟩ :: h) = snapshotOf h := by
  unfold commitBy at hcommit
  split at hcommit
  · next worker haction =>
      obtain rfl : a = .recompute worker .commit := haction
      exact ⟨readingOf_cons_of_none rfl, snapshotOf_cons_of_none rfl h⟩
  · cases hcommit

/-- The step lemma. -/
theorem isOrdered_step (hok : CallsOk h s) (heffect : StepEffect sky settings s a s')
    (hcondition : NeverOvertakes h ⟨s, a, s'⟩) (hinv : IsOrdered h s.predictions.committed) :
    IsOrdered (⟨s, a, s'⟩ :: h) s'.predictions.committed := by
  have hkept : ∀ pair, ∀ tx ∈ s.predictions.committed, ∀ other ∈ s.predictions.committed,
      Replaces (⟨s, a, s'⟩ :: h) pair tx other ∨ Replaces (⟨s, a, s'⟩ :: h) pair other tx := by
    intro pair tx hmem other hother
    obtain ⟨hreadings, hsnapshots⟩ := notes_of_committed hok.sessions hmem
    obtain ⟨hreadings', hsnapshots'⟩ := notes_of_committed hok.sessions hother
    unfold Replaces
    rw [hreadings, hsnapshots, hreadings', hsnapshots']
    exact hinv pair tx hmem other hother
  intro pair tx hmem other hother
  rw [committed_of_effect heffect, List.mem_append, Option.mem_toList] at hmem hother
  -- The transaction that commits replaces what had been committed before.
  have hnew : ∀ tx ∈ commitBy ⟨s, a, s'⟩, ∀ other ∈ s.predictions.committed,
      Replaces (⟨s, a, s'⟩ :: h) pair tx other := by
    intro tx htx other hother reading reading' hreading hreading' hlines
    rw [(notes_of_commit htx).1] at hreading hreading'
    rw [(notes_of_commit htx).2]
    exact hcondition tx htx _ (History.mem_notes_of_recorded hreading) rfl _
      (History.mem_notes_of_recorded hreading') hother rfl hlines
  rcases hmem with htx | hmem <;> rcases hother with hother' | hother
  · rw [Option.mem_unique htx hother']
    refine Or.inl fun reading reading' hreading hreading' hlines => ?_
    rw [hreading] at hreading'
    exact absurd (congrArg Reading.lines (Option.some.inj hreading')).symm hlines
  · exact Or.inl (hnew tx htx other hother)
  · exact Or.inr (hnew other hother' tx hmem)
  · exact hkept pair tx hmem other hother

/-- The run lemma. -/
theorem isOrdered_of_run (hrun : (recomputation sky settings).Run h s)
    (hmeets : h.Meets NeverOvertakes) : IsOrdered h s.predictions.committed := by
  apply hrun.invariant (I := fun h s => IsOrdered h s.predictions.committed) _ _ hmeets
  · intro s hinit pair tx hmem
    rw [hinit.2.2.2.1] at hmem
    cases hmem
  · intro h s a s' hprior _ hinv hstep hcondition
    exact isOrdered_step (callsOk_of_run hprior) (step_effect hstep) hcondition hinv

end Steps

/-! ## Convergence -/

section Run

variable {start s : State W} (hrest : AtRest start) {h : History (State W) (Action W)}
  (hrun : ((recomputation sky settings).startingIn start).Run h s)
include hrest hrun

/-- A satellite that has changed and is quiet has been read for its stations since. -/
theorem exists_current_reading {satelliteId : Uuid} (hquiet : IsQuiet s satelliteId)
    (hchanged : 0 < revision h satelliteId) :
    ∃ tx ∈ s.predictions.committed, ∀ station ∈ stationsAtLastChange h satelliteId,
      ∃ reading, readingOf h tx (satelliteId, station.id) = some reading ∧
        reading.revision = revision h satelliteId ∧
          (s.satellite? satelliteId).map Satellite.lines = some reading.lines := by
  obtain ⟨eventId, hpursued⟩ := pursued_lastNotice hrest hrun satelliteId hchanged
  obtain ⟨tx, hmem, hread⟩ := hpursued.covered hquiet.processed
  refine ⟨tx, hmem, fun station hstation => ?_⟩
  obtain ⟨reading, hreading, hsince⟩ := hread station hstation
  obtain ⟨hle, hlines⟩ := isUpToDate_of_run hrun tx _ reading hreading
  have hsame : reading.revision = revision h satelliteId := Nat.le_antisymm hle hsince
  exact ⟨reading, hreading, hsame, hlines hsame⟩

/-- What a call of the run has stored comes from its reading. -/
theorem exists_reading_of_version {version : Version PassPrediction TxId}
    (hmem : version ∈ s.predictions.versions)
    (hcommitted : version.insertedBy ∈ s.predictions.committed)
    (hfirst : start.nextTx ≤ version.insertedBy) :
    ∃ reading passes, readingOf h version.insertedBy version.row.pair = some reading ∧
      reading.passes sky = .ok passes ∧ version.row.pass ∈ passes := by
  obtain ⟨snapshot, hsnapshot⟩ := (callsFrom_of_run hrest hrun).calls.inserted version hmem
  have hsettles := (reads_of_run hrest hrun).settled _ hcommitted
  have hread := hsettles.read hfirst version.row.pair (by
    rw [hsnapshot]
    exact Option.some_ne_none snapshot)
  obtain ⟨reading, hreading⟩ := Option.ne_none_iff_exists'.mp hread
  obtain ⟨-, hpasses⟩ := hsettles.stored _ reading hreading (Option.some_ne_none _).symm
  refine ⟨reading, _, hreading, hpasses, List.mem_map_of_mem ?_⟩
  rw [Store.written, List.mem_map]
  refine ⟨version, List.mem_filter.mpr ⟨hmem, ?_⟩, rfl⟩
  simp [isOf]

end Run

omit [DecidableEq W] in
theorem revision_pos_of_mem {h : History (State W) (Action W)} {satelliteId : Uuid}
    {station : GroundStation} (hstation : station ∈ stationsAtLastChange h satelliteId) :
    0 < revision h satelliteId := by
  induction h with
  | nil => cases hstation
  | cons t earlier ih =>
      unfold stationsAtLastChange at hstation
      split at hstation
      · next hchanges =>
          obtain ⟨change, hmem, hid⟩ := hchanges
          apply Nat.add_pos_right
          exact List.countP_pos_iff.mpr ⟨change, hmem, decide_eq_true hid⟩
      · exact (ih hstation).trans_le (revision_le_cons satelliteId)

/-- **Predictions converge where no call overtakes another.** In a run all of whose
commits meet the condition, the predictions of every quiet satellite are those of its
current lines, at every station that there was when it last changed. -/
theorem converged_of_neverOvertakes {h : History (State W) (Action W)} {s : State W}
    (hrun : (recomputation sky settings).Run h s) (hmeets : h.Meets NeverOvertakes) :
    Converged sky h s := by
  obtain ⟨start, hinit, hfrom⟩ := hrun.exists_start
  have hrest := atRest_of_init hinit
  have hok := callsOk_of_run hrun
  intro satelliteId hquiet station hstation
  obtain ⟨tx, hmem, hcurrent⟩ := exists_current_reading hrest hfrom hquiet
    (revision_pos_of_mem hstation)
  obtain ⟨reading, hreading, hrevision, hlines⟩ := hcurrent station hstation
  obtain ⟨satellite, hfind, hsame⟩ := Option.map_eq_some_iff.mp hlines
  refine ⟨satellite, hfind, ⟨tx, hmem, reading, hreading, hsame.symm⟩, ?_⟩
  intro version hversion hpair hthere
  have hfirst : start.nextTx ≤ version.insertedBy := by
    refine (committed_of_run hrest hfrom _ hthere.1).resolve_left ?_
    rw [hinit.2.2.2.1]
    exact List.not_mem_nil
  obtain ⟨own, passes, hown, hpasses, hpass⟩ :=
    exists_reading_of_version hrest hfrom hversion hthere.1 hfirst
  rw [hpair] at hown
  refine ⟨own, passes, hown, ?_, hpasses, hpass⟩
  by_contra hstale
  rw [hsame] at hstale
  rcases isOrdered_of_run hrun hmeets (satelliteId, station.id) tx hmem _ hthere.1 with
    hreplaces | hreplaces
  · -- The call that has read the current lines has deleted the row.
    obtain ⟨-, hseen⟩ := hreplaces reading own hreading hown hstale
    obtain ⟨hended, -⟩ := ((reads_of_run hrest hfrom).settled tx hmem).stored _ reading hreading
      (Option.some_ne_none _).symm
    obtain ⟨snapshot, hsnapshot⟩ := Option.ne_none_iff_exists'.mp hended
    have hcleared := (callsFrom_of_run hrest hfrom).calls.cleared _ _ _ hsnapshot (Or.inl hmem)
    have hbegun : start.nextTx ≤ tx := ((reads_of_run hrest hfrom).numbered tx _ (by
      rw [hreading]
      exact Option.some_ne_none reading)).1
    rw [snapshotFrom, if_neg (Nat.not_lt.mpr hbegun)] at hsnapshot
    exact hcleared.not_isCurrent hmem hversion (decide_eq_true hpair) (hseen snapshot hsnapshot)
      hthere
  · -- No one has read later lines than the current ones.
    obtain ⟨hlater, -⟩ := hreplaces own reading hown hreading (Ne.symm hstale)
    have hle := (isUpToDate_of_run hfrom _ _ own hown).1
    rw [hrevision] at hlater
    exact Nat.not_lt.mpr hle hlater

/-! ## A fast call and a slow one -/

/-- An attempt in which the only handler returns. -/
def returningAttempt : Attempt := ⟨[⟨recomputePasses, .returns⟩], 0, 0, 0, Events.noJitter_le⟩

/-- The attempt of a worker whose call has returned, and its commit. -/
def settleActions (worker : Fin 2) : List (Action (Fin 2)) :=
  [.outbox (.run worker (.attempt returningAttempt)), .outbox (.run worker .proceed)]

/-- The worker with the second record goes from start to end while the other one, which
has computed the passes of the first record, waits. -/
def overtakingActions : List (Action (Fin 2)) :=
  let first := issChange.event 0 8
  let second := issChangeLater.event 0 8
  [.register madrid, .refresh 0 8 [issChange]] ++ dispatchActions 0 [] first ++
    computeActions 0 ++ [.refresh 0 8 [issChangeLater]] ++ dispatchActions 1 [first] second ++
    computeActions 1 ++ deleteActions 1 [] ++ storeActions 1 22 ++ settleActions 1 ++
    deleteActions 0 [0] ++ storeActions 0 21 ++ settleActions 0

/-- Both events are processed, and the predictions are those of the first record. -/
theorem overtaken_call_goes_stale :
    ∃ h s, (recomputation (W := Fin 2) issSky {}).Run h s ∧ ¬ Converged issSky h s := by
  obtain ⟨h, s, hrun, hP⟩ := System.exists_run_of_play (idleCalls_init issSky {})
    overtakingActions (fun p => decide
      ((∀ event ∈ p.2.outbox.events.rows, event.status = .processed) ∧
        (∀ worker, (p.2.handler worker).tx? = none) ∧
        madrid ∈ stationsAtLastChange p.1 1 ∧
        (p.2.satellite? 1).map Satellite.lines = some (issRecordLater.line1, issRecordLater.line2) ∧
        ∃ version ∈ p.2.predictions.versions, version.row.pair = (1, 7) ∧
          version.IsCurrent p.2.predictions.committed ∧
          (readingOf p.1 version.insertedBy (1, 7)).map Reading.lines =
            some (issRecord.line1, issRecord.line2))) (by decide +kernel)
  obtain ⟨hprocessed, hended, hstation, hlines, version, hmem, hpair, hcurrent, hread⟩ :=
    of_decide_eq_true hP
  refine ⟨h, s, hrun, fun hconverged => ?_⟩
  obtain ⟨satellite, hfind, hcomputed⟩ :=
    hconverged 1 ⟨fun event hevent _ _ => hprocessed event hevent, hended⟩ madrid hstation
  rw [hfind, Option.map_some] at hlines
  obtain ⟨reading, passes, hreading, hsame, -⟩ := hcomputed.rows version hmem hpair hcurrent
  have hown : readingOf h version.insertedBy (1, 7) = some reading := hreading
  rw [hown, Option.map_some, hsame, hlines] at hread
  exact absurd hread (by decide)

/-- One worker after the other, with both attempts. -/
def convergingActions : List (Action (Fin 2)) :=
  let first := issChange.event 0 8
  let second := issChangeLater.event 0 8
  [.register madrid, .refresh 0 8 [issChange]] ++ dispatchActions 0 [] first ++
    computeActions 0 ++ deleteActions 0 [] ++ storeActions 0 21 ++ settleActions 0 ++
    [.refresh 0 8 [issChangeLater]] ++ dispatchActions 1 [] second ++ computeActions 1 ++
    deleteActions 1 [0] ++ storeActions 1 22 ++ settleActions 1

/-- The predictions are those of the second record. -/
theorem successive_calls_converge :
    ∃ h s, (recomputation (W := Fin 2) issSky {}).Run h s ∧ Converged issSky h s ∧
      IsQuiet s 1 ∧ madrid ∈ stationsAtLastChange h 1 ∧
        (s.predictions.current (isOf (1, 7))).map PassPrediction.id = [22] := by
  obtain ⟨h, s, hrun, hP⟩ := System.exists_run_of_play (idleCalls_init issSky {})
    convergingActions (fun p => decide (p.1.Meets NeverOvertakes ∧
      (∀ event ∈ p.2.outbox.events.rows, event.status = .processed) ∧
      (∀ worker, (p.2.handler worker).tx? = none) ∧ madrid ∈ stationsAtLastChange p.1 1 ∧
      (p.2.predictions.current (isOf (1, 7))).map PassPrediction.id = [22])) (by decide +kernel)
  obtain ⟨hmeets, hprocessed, hended, hstation, hrows⟩ := of_decide_eq_true hP
  exact ⟨h, s, hrun, converged_of_neverOvertakes hrun hmeets,
    ⟨fun event hevent _ _ => hprocessed event hevent, hended⟩, hstation, hrows⟩

end Apsis.Tracking
