/-
# Job workers in their loops

`Worker` has any number of workers on one table, which begin one pass right after the other.
`Loop` has one worker, and says when its loop makes a pass. Here every worker of the table runs
in its loop: it takes steps in a pass only while its loop stands at `_recover_stale_jobs` or at
`_process_due_jobs`, and what these end with is what the await ends with.

Seen from the table such a run is one of `Worker`, and seen from a worker it is one of `Loop`.
So a worker has a job in hand only while its loop is at `_process_due_jobs`.
-/

import Apsis.Core.Jobs.Loop
import Apsis.Core.Jobs.Progress
import Apsis.Library.Hosting

namespace Apsis.Core.Jobs.Passes

open Apsis.Library
open Apsis.Core.Events.Connection (Outcome)

universe u

/-! ## The system -/

variable {W : Type u}

/-- The workers on the table, and their loops. -/
abbrev State (W : Type u) := Parts (Jobs.State W) Loop.State W

abbrev Action (W : Type u) := Joint (Jobs.Action W) Loop.Action W

/-- What the last step of a pass ends it with. The database rejects a reschedule in the last
phase only. -/
def passOutcome : Phase → Outcome
  | .rescheduling _ _ _ _ _ _ => .raises
  | _ => .returns

variable [DecidableEq W]

/-- What the parts may do. The loop goes on by itself outside of a pass; what ends one of the
two halves of a pass ends the await of the loop. -/
def turn (s : State W) : Action W → Jobs.State W → Bool
  | .body (.run worker _), base =>
      (s.loop worker).place.isPass && decide (base.phase worker ≠ .polling) &&
        decide (base.phase worker ≠ .recovered)
  | .both worker (.run actor _) own, base =>
      decide (actor = worker) && (s.loop worker).place.isPass &&
        (decide (base.phase worker = .polling) || decide (base.phase worker = .recovered)) &&
          decide (own = .resume (passOutcome (s.body.phase worker)))
  | .both worker (.abort actor) own, _ =>
      decide (actor = worker) && (s.loop worker).place.isPass && decide (own = .resume .raises)
  | .both worker (.crash actor) own, _ =>
      decide (actor = worker) && (s.loop worker).place.isPass &&
        (decide (own = .resume .cancelled) || decide (own = .resume .strays))
  | .both worker (.start actor) own, _ => decide (actor = worker) && decide (own = .start)
  | .loop _ .stop, _ => true
  | .loop worker (.resume _), _ => !(s.loop worker).place.isPass
  | _, _ => false

def tableClock (config : Config W) : (workers config).Clocked where
  tick := .tick
  pass elapsed s := { s with clock := s.clock + elapsed }
  step_tick _ _ := rfl

def loopClock (poll : ℤ) : (Loop.loop poll).Clocked where
  tick := .tick
  pass elapsed s := { s with clock := s.clock + elapsed }
  step_tick _ _ := rfl

/-- New workers over any table, and one clock. -/
def passes (config : Config W) (poll : ℤ) : Host (workers config) (Loop.loop poll) W where
  bodyClock := tableClock config
  loopClock := loopClock poll
  start s := ∀ worker, (s.loop worker).clock = s.body.clock
  turn := turn

/-! ## What a step does -/

/-- The phases within `_process_due_jobs`. -/
def isProcessing : Phase → Bool
  | .stopped => false
  | .polling => false
  | .recovering _ => false
  | _ => true

/-- The worker that takes a step. -/
def actor? : Jobs.Action W → Option W
  | .start worker => some worker
  | .crash worker => some worker
  | .abort worker => some worker
  | .run worker _ => some worker
  | _ => none

theorem actor?_of_turn {s : State W} {worker : W} {own : Jobs.Action W} {a : Loop.Action}
    {base : Jobs.State W} (hturn : turn s (.both worker own a) base = true) :
    actor? own = some worker := by
  cases own with
  | tick _ => cases hturn
  | start actor | crash actor | abort actor | run actor _ =>
      simp only [turn, Bool.and_eq_true, decide_eq_true_eq, and_assoc] at hturn
      exact congrArg some hturn.1

/-- Where a step leads from a phase. -/
inductive Leads : Phase → Phase → Prop
  | begin (now : Time) : Leads .polling (.recovering now)
  | recover (now : Time) : Leads (.recovering now) .recovered
  | process {phase phase' : Phase} (hphase : isProcessing phase = true)
      (hphase' : isProcessing phase' = true) (hnot : phase' ≠ .recovered) : Leads phase phase'
  | finish {phase : Phase} (hphase : isProcessing phase = true) : Leads phase .polling

theorem Leads.begins {phase phase' : Phase} (hleads : Leads phase phase')
    (hnot : isProcessing phase = false) (hrecovered : phase' ≠ .recovered) :
    ∃ now, phase' = .recovering now := by
  cases hleads with
  | begin now => exact ⟨now, rfl⟩
  | recover _ => exact absurd rfl hrecovered
  | process hphase _ _ => cases hphase.symm.trans hnot
  | finish hphase => cases hphase.symm.trans hnot

theorem Leads.goesOn {phase phase' : Phase} (hleads : Leads phase phase')
    (hphase : isProcessing phase = true) (hpolling : phase' ≠ .polling) :
    isProcessing phase' = true ∧ phase' ≠ .recovered := by
  cases hleads with
  | begin _ => cases hphase
  | recover _ => cases hphase
  | process _ hphase' hnot => exact ⟨hphase', hnot⟩
  | finish _ => exact absurd rfl hpolling

theorem Leads.of_recovered {phase phase' : Phase} (hleads : Leads phase phase')
    (hphase' : phase' = .recovered) : ∃ now, phase = .recovering now := by
  cases hleads with
  | recover now => exact ⟨now, rfl⟩
  | process _ _ hnot => exact absurd hphase' hnot
  | begin _ => cases hphase'
  | finish _ => cases hphase'

theorem Leads.of_polling {phase phase' : Phase} (hleads : Leads phase phase')
    (hphase' : phase' = .polling) : isProcessing phase = true := by
  cases hleads with
  | finish hphase => exact hphase
  | process hphase _ _ => exact hphase
  | begin _ => cases hphase'
  | recover _ => cases hphase'

section Steps

variable {config : Config W} {poll : ℤ} {b b' : Jobs.State W} {own : Jobs.Action W} {worker : W}
  {loop loop' : Loop.State}

omit [DecidableEq W] in
theorem leads_of_runStep {clock : Time} {jobs jobs' : JobTable} {phase phase' : Phase}
    {choice : Choice} (h : runStep config worker clock jobs phase choice = some (jobs', phase')) :
    Leads phase phase' := by
  unfold runStep at h
  split at h
  case h_1 =>
      cases h
      exact .begin _
  case h_2 =>
      cases h
      exact .recover _
  case h_4 | h_9 =>
      split at h <;> cases h <;> exact .process rfl rfl (by rintro ⟨⟩)
  case h_5 =>
      cases h
      exact .finish rfl
  case h_8 =>
      dsimp only at h
      split at h <;> cases h <;> exact .process rfl rfl (by rintro ⟨⟩)
  case h_12 =>
      split at h
      · cases h
        exact .finish rfl
      · cases h
        exact .process rfl rfl (by rintro ⟨⟩)
  case h_13 => cases h
  all_goals
    cases h
    exact .process rfl rfl (by rintro ⟨⟩)

theorem leads_of_table {choice : Choice}
    (hstep : Jobs.step config b (.run worker choice) = some b') :
    Leads (b.phase worker) (b'.phase worker) := by
  simp only [Jobs.step, Option.map_eq_some_iff] at hstep
  obtain ⟨⟨jobs', phase'⟩, hrun, rfl⟩ := hstep
  rw [Jobs.State.perform_phase_self]
  exact leads_of_runStep hrun

/-- A step of one worker leaves the others where they are. -/
theorem phase_of_table (hstep : Jobs.step config b own = some b')
    (hactor : actor? own ≠ some worker) : b'.phase worker = b.phase worker := by
  have hne : ∀ {actor : W}, actor? own = some actor → worker ≠ actor := by
    rintro _ hown rfl
    exact hactor hown
  cases own with
  | tick _ =>
      cases hstep
      rfl
  | start actor =>
      simp only [Jobs.step, Option.ite_none_right_eq_some, Option.some.injEq] at hstep
      obtain ⟨-, rfl⟩ := hstep
      exact b.perform_phase_of_ne _ _ (hne rfl)
  | crash actor | abort actor =>
      simp only [Jobs.step, Option.ite_none_left_eq_some, Option.some.injEq] at hstep
      obtain ⟨-, rfl⟩ := hstep
      exact b.perform_phase_of_ne _ _ (hne rfl)
  | run actor choice =>
      simp only [Jobs.step, Option.map_eq_some_iff] at hstep
      obtain ⟨result, -, rfl⟩ := hstep
      exact b.perform_phase_of_ne _ _ (hne rfl)

theorem clock_of_table (hstep : Jobs.step config b own = some b')
    (hown : ∀ elapsed, own ≠ .tick elapsed) : b'.clock = b.clock := by
  cases own with
  | tick elapsed => exact absurd rfl (hown elapsed)
  | start actor =>
      simp only [Jobs.step, Option.ite_none_right_eq_some, Option.some.injEq] at hstep
      obtain ⟨-, rfl⟩ := hstep
      rfl
  | crash actor | abort actor =>
      simp only [Jobs.step, Option.ite_none_left_eq_some, Option.some.injEq] at hstep
      obtain ⟨-, rfl⟩ := hstep
      rfl
  | run actor choice =>
      simp only [Jobs.step, Option.map_eq_some_iff] at hstep
      obtain ⟨result, -, rfl⟩ := hstep
      rfl

theorem clock_of_loop {own : Loop.Action} (hstep : Loop.step poll loop own = some loop')
    (hown : ∀ elapsed, own ≠ .tick elapsed) : loop'.clock = loop.clock := by
  cases Loop.step_effect hstep with
  | tick elapsed => exact absurd rfl (hown elapsed)
  | _ => rfl

theorem polling_of_start (hstep : Jobs.step config b (.start worker) = some b') :
    b'.phase worker = .polling := by
  simp only [Jobs.step, Option.ite_none_right_eq_some, Option.some.injEq] at hstep
  obtain ⟨-, rfl⟩ := hstep
  exact b.perform_phase_self _ _ _

theorem polling_of_abort (hstep : Jobs.step config b (.abort worker) = some b') :
    b'.phase worker = .polling := by
  simp only [Jobs.step, Option.ite_none_left_eq_some, Option.some.injEq] at hstep
  obtain ⟨-, rfl⟩ := hstep
  exact b.perform_phase_self _ _ _

theorem stopped_of_crash (hstep : Jobs.step config b (.crash worker) = some b') :
    b'.phase worker = .stopped := by
  simp only [Jobs.step, Option.ite_none_left_eq_some, Option.some.injEq] at hstep
  obtain ⟨-, rfl⟩ := hstep
  exact b.perform_phase_self _ _ _

/-- What leads a loop to `_process_due_jobs`. -/
theorem recovering_of_loop {outcome : Outcome}
    (hstep : Loop.step poll loop (.resume outcome) = some loop')
    (hplace : loop'.place = .processing) : loop.place = .recovering ∧ outcome = .returns := by
  cases Loop.step_effect hstep with
  | process hrecovering => exact ⟨hrecovering, rfl⟩
  | _ => cases hplace

/-- A loop does not go on after a `CancelledError`. -/
theorem ended_of_cancel {own : Loop.Action}
    (hown : own = .resume .cancelled ∨ own = .resume .strays)
    (hstep : Loop.step poll loop own = some loop') : loop'.place = .ended .cancelled := by
  rcases hown with rfl | rfl
  · simp only [Loop.step, Option.ite_none_right_eq_some, Option.some.injEq] at hstep
    obtain ⟨-, rfl⟩ := hstep
    rfl
  · simp only [Loop.step, Option.ite_none_right_eq_some, Option.some.injEq] at hstep
    obtain ⟨-, rfl⟩ := hstep
    rfl

/-- Whatever ends a half of a pass, the await of the loop ends. -/
theorem exists_resume_of_isPass (hplace : loop.place.isPass = true) {outcome : Outcome}
    (hnot : outcome ≠ .cancelled) :
    ∃ loop', Loop.step poll loop (.resume outcome) = some loop' := by
  cases hpass : loop.place with
  | recovering | processing =>
      cases outcome with
      | returns =>
          simp only [Loop.step, hpass]
          exact ⟨_, rfl⟩
      | raises =>
          simp only [Loop.step, hpass]
          exact ⟨_, rfl⟩
      | strays =>
          simp only [Loop.step, hpass]
          exact ⟨_, rfl⟩
      | cancelled => exact absurd rfl hnot
  | _ =>
      rw [hpass] at hplace
      cases hplace

theorem passOutcome_ne (phase : Phase) : passOutcome phase ≠ .cancelled := by
  cases phase <;> rintro ⟨⟩

end Steps

/-! ## Passes and loops -/

/-- The invariant: a worker is in a half of a pass only where its loop is. -/
structure InStep (worker : W) (base : Jobs.State W) (loop : Loop.State) : Prop where
  idle : loop.place.isPass = false → base.phase worker = .polling ∨ base.phase worker = .stopped
  recovering : loop.place = .recovering →
    base.phase worker = .polling ∨ ∃ now, base.phase worker = .recovering now
  processing : loop.place = .processing → isProcessing (base.phase worker) = true
  /-- The table takes a worker for stopped when its task is done. -/
  started : loop.place.isLive = true → base.phase worker ≠ .stopped
  clock : loop.clock = base.clock

section InStep

variable {config : Config W} {poll : ℤ} {worker : W} {base base' : Jobs.State W}
  {loop loop' : Loop.State} {own : Jobs.Action W}

/-- A step of another worker. -/
theorem InStep.of_table (hinv : InStep worker base loop)
    (hstep : Jobs.step config base own = some base') (hactor : actor? own ≠ some worker)
    (hown : ∀ elapsed, own ≠ .tick elapsed) : InStep worker base' loop := by
  have hphase := phase_of_table hstep hactor
  have hclock := hinv.clock.trans (clock_of_table hstep hown).symm
  constructor
  · exact fun hplace => hphase ▸ hinv.idle hplace
  · exact fun hplace => hphase ▸ hinv.recovering hplace
  · exact fun hplace => hphase ▸ hinv.processing hplace
  · exact fun hlive => hphase ▸ hinv.started hlive
  · exact hclock

omit [DecidableEq W] in
/-- The worker is between two passes, or at the beginning of one. -/
theorem InStep.of_polling (hphase : base.phase worker = .polling)
    (hplace : loop.place ≠ .processing) (hclock : loop.clock = base.clock) :
    InStep worker base loop := by
  refine ⟨fun _ => Or.inl hphase, fun _ => Or.inl hphase, fun h => absurd h hplace, fun _ => ?_,
    hclock⟩
  rw [hphase]
  rintro ⟨⟩

omit [DecidableEq W] in
/-- The task of the worker is done. -/
theorem InStep.of_ended (hphase : base.phase worker = .polling ∨ base.phase worker = .stopped)
    {ending : Events.Connection.Ending} (hended : loop.place = .ended ending)
    (hclock : loop.clock = base.clock) : InStep worker base loop := by
  refine ⟨fun _ => hphase, fun h => ?_, fun h => ?_, fun h => ?_, hclock⟩
  · cases hended.symm.trans h
  · cases hended.symm.trans h
  · rw [hended] at h
    cases h

omit [DecidableEq W] in
/-- A step of the loop on its own. -/
theorem InStep.of_loop (hinv : InStep worker base loop) {outcome : Outcome}
    (hstep : Loop.step poll loop (.resume outcome) = some loop')
    (hplace : loop.place.isPass = false) : InStep worker base loop' := by
  have hclock : loop'.clock = base.clock :=
    (clock_of_loop hstep (by rintro _ ⟨⟩)).trans hinv.clock
  have hphase := hinv.idle hplace
  cases Loop.step_effect hstep with
  | again htests _ =>
      have hlive : loop.place.isLive = true := by
        cases htests with
        | begin hsource | timeout hsource _ => rw [hsource]; rfl
      exact .of_polling (hphase.resolve_right (hinv.started hlive)) (by rintro ⟨⟩) hclock
  | leave _ _ _ => exact .of_ended hphase rfl hclock
  | cancel _ _ => exact .of_ended hphase rfl hclock
  | process hsource =>
      rw [hsource] at hplace
      cases hplace
  | await hpass => cases hpass.symm.trans hplace

omit [DecidableEq W] in
/-- The two halves of a pass. -/
theorem InStep.of_isPass (hinv : InStep worker base loop) (hplace : loop.place.isPass = true) :
    (loop.place = .recovering ∧ isProcessing (base.phase worker) = false) ∨
      loop.place = .processing ∧ isProcessing (base.phase worker) = true := by
  cases hpass : loop.place with
  | recovering =>
      refine Or.inl ⟨rfl, ?_⟩
      rcases hinv.recovering hpass with hphase | ⟨now, hphase⟩
      · rw [hphase]
        rfl
      · rw [hphase]
        rfl
  | processing => exact Or.inr ⟨rfl, hinv.processing hpass⟩
  | _ =>
      rw [hpass] at hplace
      cases hplace

/-- A step of the worker itself that goes on with a half of a pass. -/
theorem InStep.of_run (hinv : InStep worker base loop) {choice : Choice}
    (hstep : Jobs.step config base (.run worker choice) = some base')
    (hplace : loop.place.isPass = true) (hpolling : base'.phase worker ≠ .polling)
    (hrecovered : base'.phase worker ≠ .recovered) : InStep worker base' loop := by
  have hclock := hinv.clock.trans (clock_of_table hstep (by rintro _ ⟨⟩)).symm
  have hleads := leads_of_table hstep
  have hlive : base'.phase worker ≠ .stopped := by
    simp only [Jobs.step, Option.map_eq_some_iff] at hstep
    obtain ⟨⟨jobs', phase'⟩, hrun, rfl⟩ := hstep
    rw [Jobs.State.perform_phase_self]
    exact ne_stopped_of_runStep config hrun
  have hnot : loop.place.isPass ≠ false := by simp [hplace]
  rcases hinv.of_isPass hplace with ⟨hrecovering, hphase⟩ | ⟨hprocessing, hphase⟩
  · have hnext := hleads.begins hphase hrecovered
    refine ⟨fun h => absurd h hnot, fun _ => Or.inr hnext, fun h => ?_, fun _ => hlive, hclock⟩
    cases hrecovering.symm.trans h
  · have hnext := (hleads.goesOn hphase hpolling).1
    refine ⟨fun h => absurd h hnot, fun h => ?_, fun _ => hnext, fun _ => hlive, hclock⟩
    cases hprocessing.symm.trans h

/-- The recovery has been executed. -/
theorem InStep.of_recovered (hinv : InStep worker base loop) {choice : Choice}
    (hstep : Jobs.step config base (.run worker choice) = some base')
    (hplace : loop.place.isPass = true) (hrecovered : base'.phase worker = .recovered)
    {outcome : Outcome} (houtcome : outcome = passOutcome (base.phase worker))
    (hloop : Loop.step poll loop (.resume outcome) = some loop') : InStep worker base' loop' := by
  have hclock : loop'.clock = base'.clock := by
    rw [clock_of_loop hloop (by rintro _ ⟨⟩), clock_of_table hstep (by rintro _ ⟨⟩), hinv.clock]
  obtain ⟨now, hphase⟩ := (leads_of_table hstep).of_recovered hrecovered
  have hrecovering : loop.place = .recovering := by
    rcases hinv.of_isPass hplace with ⟨hplace, -⟩ | ⟨-, hprocessing⟩
    · exact hplace
    · rw [hphase] at hprocessing
      cases hprocessing
  have hprocessing : loop'.place = .processing := by
    rw [houtcome, hphase] at hloop
    simp only [passOutcome, Loop.step, hrecovering, Loop.returnStep, Option.some.injEq] at hloop
    rw [← hloop]
  refine ⟨fun h => ?_, fun h => ?_, fun _ => ?_, fun _ => ?_, hclock⟩
  · rw [hprocessing] at h
    cases h
  · cases hprocessing.symm.trans h
  · rw [hrecovered]
    rfl
  · rw [hrecovered]
    rintro ⟨⟩

/-- The pass has come to its end. -/
theorem InStep.of_finished (hinv : InStep worker base loop) {choice : Choice}
    (hstep : Jobs.step config base (.run worker choice) = some base')
    (hplace : loop.place.isPass = true) (hpolling : base'.phase worker = .polling)
    {outcome : Outcome} (hloop : Loop.step poll loop (.resume outcome) = some loop') :
    InStep worker base' loop' := by
  have hclock : loop'.clock = base'.clock := by
    rw [clock_of_loop hloop (by rintro _ ⟨⟩), clock_of_table hstep (by rintro _ ⟨⟩), hinv.clock]
  refine .of_polling hpolling (fun hprocessing => ?_) hclock
  obtain ⟨hrecovering, -⟩ := recovering_of_loop hloop hprocessing
  have hphase := (leads_of_table hstep).of_polling hpolling
  rcases hinv.of_isPass hplace with ⟨-, hnot⟩ | ⟨hplace, -⟩
  · cases hphase.symm.trans hnot
  · cases hrecovering.symm.trans hplace

/-- A step of the worker and its loop. -/
theorem InStep.of_both {s : State W} (hinv : InStep worker s.body (s.loop worker))
    {a : Loop.Action} (htable : Jobs.step config s.body own = some base)
    (htask : Loop.step poll (s.loop worker) a = some loop)
    (hturn : turn s (.both worker own a) base = true) : InStep worker base loop := by
  have hclock : (∀ elapsed, own ≠ .tick elapsed) → (∀ elapsed, a ≠ .tick elapsed) →
      loop.clock = base.clock := by
    intro hown ha
    rw [clock_of_loop htask ha, clock_of_table htable hown, hinv.clock]
  cases own with
  | tick _ => cases hturn
  | start actor =>
      simp only [turn, Bool.and_eq_true, decide_eq_true_eq] at hturn
      obtain ⟨rfl, rfl⟩ := hturn
      have hplace : loop.place ≠ .processing := by
        cases Loop.step_effect htask with
        | start _ => rintro ⟨⟩
      exact .of_polling (polling_of_start htable) hplace
        (hclock (by rintro _ ⟨⟩) (by rintro _ ⟨⟩))
  | crash actor =>
      simp only [turn, Bool.and_eq_true, Bool.or_eq_true, decide_eq_true_eq] at hturn
      obtain ⟨⟨rfl, -⟩, hown⟩ := hturn
      refine .of_ended (Or.inr (stopped_of_crash htable)) (ended_of_cancel hown htask)
        (hclock (by rintro _ ⟨⟩) ?_)
      rcases hown with rfl | rfl <;> rintro _ ⟨⟩
  | abort actor =>
      simp only [turn, Bool.and_eq_true, decide_eq_true_eq] at hturn
      obtain ⟨⟨rfl, -⟩, rfl⟩ := hturn
      refine .of_polling (polling_of_abort htable) (fun hprocessing => ?_)
        (hclock (by rintro _ ⟨⟩) (by rintro _ ⟨⟩))
      cases (recovering_of_loop htask hprocessing).2
  | run actor choice =>
      simp only [turn, Bool.and_eq_true, Bool.or_eq_true, decide_eq_true_eq] at hturn
      obtain ⟨⟨⟨rfl, hplace⟩, hphase⟩, rfl⟩ := hturn
      rcases hphase with hpolling | hrecovered
      · exact hinv.of_finished htable hplace hpolling htask
      · exact hinv.of_recovered htable hplace hrecovered rfl htask

theorem keeps_inStep (config : Config W) (poll : ℤ) : (passes config poll).Keeps InStep := by
  constructor
  · rintro s worker ⟨hstopped, hloops, hclock⟩
    obtain ⟨-, -, hidle⟩ := hloops worker
    have hnot : ∀ place, place ≠ .idle → (s.loop worker).place ≠ place := by
      rintro place hne rfl
      exact hne hidle
    refine ⟨fun _ => Or.inr (hstopped worker), fun h => absurd h (hnot _ (by rintro ⟨⟩)),
      fun h => absurd h (hnot _ (by rintro ⟨⟩)), fun hlive => ?_, hclock worker⟩
    rw [hidle] at hlive
    cases hlive
  · intro worker base loop elapsed hinv
    exact ⟨hinv.idle, hinv.recovering, hinv.processing, hinv.started,
      congrArg (· + (elapsed : ℤ)) hinv.clock⟩
  · intro s own base worker hinv hstep hturn
    have htable : Jobs.step config s.body own = some base := hstep
    cases own with
    | run actor choice =>
        simp only [passes, turn, Bool.and_eq_true, decide_eq_true_eq, and_assoc] at hturn
        obtain ⟨hplace, hpolling, hrecovered⟩ := hturn
        by_cases hactor : actor = worker
        · subst hactor
          exact hinv.of_run htable hplace hpolling hrecovered
        · exact hinv.of_table htable (fun hsame => hactor (Option.some.inj hsame)) (by rintro _ ⟨⟩)
    | _ => cases hturn
  · intro s own loop worker hinv hstep hturn
    cases own with
    | resume outcome =>
        simp only [passes, turn, Bool.not_eq_true'] at hturn
        exact hinv.of_loop hstep hturn
    | stop =>
        cases hstep
        exact ⟨hinv.idle, hinv.recovering, hinv.processing, hinv.started, hinv.clock⟩
    | _ => cases hturn
  · exact fun s own a base loop worker hinv hstep hloop hturn => hinv.of_both hstep hloop hturn
  · intro s actor own a base worker hinv hstep hturn hne
    refine hinv.of_table hstep ?_ ?_
    · rw [actor?_of_turn hturn]
      exact fun hsame => hne (Option.some.inj hsame).symm
    · rintro elapsed rfl
      cases hturn

end InStep

/-! ## The end of a pass -/

/-- The steps of the worker that a pass has left in this phase, at most. -/
def stepsLeft : Phase → ℕ
  | .stopped => 0
  | .polling => 75
  | .recovering _ => 74
  | .recovered => 73
  | .selecting _ => 72
  | .executing rest => 7 * rest.length + 1
  | .leasing _ _ rest => 7 * rest.length + 7
  | .claiming _ _ _ rest => 7 * rest.length + 6
  | .claimed _ rest => 7 * rest.length + 5
  | .handling _ _ rest => 7 * rest.length + 4
  | .handled _ _ _ _ rest => 7 * rest.length + 3
  | .rescheduling _ _ _ _ _ rest => 7 * rest.length + 2

omit [DecidableEq W] in
/-- What other workers have done to the table makes a pass shorter, not longer. -/
theorem stepsLeft_of_runStep {config : Config W} {worker : W} {clock : Time}
    {jobs jobs' : JobTable} {phase phase' : Phase} {choice : Choice}
    (h : runStep config worker clock jobs phase choice = some (jobs', phase'))
    (hpolling : phase' ≠ .polling) : stepsLeft phase' + 1 ≤ stepsLeft phase := by
  unfold runStep at h
  split at h
  case h_4 now rows =>
      split at h <;> cases h
      have hten : (candidateIds rows).length ≤ 10 := by
        rw [candidateIds, List.length_map, List.length_take]
        exact min_le_left _ _
      simp only [stepsLeft]
      lia
  case h_5 =>
      cases h
      exact absurd rfl hpolling
  case h_6 =>
      cases h
      simp only [stepsLeft, List.length_cons]
      lia
  case h_8 =>
      dsimp only at h
      split at h <;> cases h <;> simp only [stepsLeft] <;> lia
  case h_9 => split at h <;> cases h <;> simp only [stepsLeft] <;> lia
  case h_12 =>
      split at h
      · cases h
        exact absurd rfl hpolling
      · cases h
        simp only [stepsLeft]
        lia
  case h_13 => cases h
  all_goals
    cases h
    simp only [stepsLeft]
    lia

theorem stepsLeft_of_table {config : Config W} {worker : W} {base base' : Jobs.State W}
    {choice : Choice} (hstep : Jobs.step config base (.run worker choice) = some base')
    (hpolling : base'.phase worker ≠ .polling) :
    stepsLeft (base'.phase worker) + 1 ≤ stepsLeft (base.phase worker) := by
  simp only [Jobs.step, Option.map_eq_some_iff] at hstep
  obtain ⟨⟨jobs', phase'⟩, hrun, rfl⟩ := hstep
  rw [Jobs.State.perform_phase_self] at hpolling ⊢
  exact stepsLeft_of_runStep hrun hpolling

/-- A pass has at most ten jobs to process. -/
theorem stepsLeft_le {config : Config W} {h : History (Jobs.State W) (Jobs.Action W)}
    {base : Jobs.State W} (hrun : (workers config).Run h base) (worker : W) :
    stepsLeft (base.phase worker) ≤ 75 := by
  apply hrun.invariant_of_step (I := fun _ base => stepsLeft (base.phase worker) ≤ 75)
  · intro base hstopped
    rw [hstopped worker]
    exact Nat.zero_le 75
  · intro h base own base' _ hinv hstep
    have htable : Jobs.step config base own = some base' := hstep
    by_cases hactor : actor? own = some worker
    · cases own with
      | tick _ => cases hactor
      | start actor =>
          cases hactor
          rw [polling_of_start htable]
          exact le_rfl
      | crash actor =>
          cases hactor
          rw [stopped_of_crash htable]
          exact Nat.zero_le 75
      | abort actor =>
          cases hactor
          rw [polling_of_abort htable]
          exact le_rfl
      | run actor choice =>
          cases hactor
          by_cases hpolling : base'.phase worker = .polling
          · rw [hpolling]
            exact le_rfl
          · exact (Nat.le_succ _).trans ((stepsLeft_of_table htable hpolling).trans hinv)
    · rw [phase_of_table htable hactor]
      exact hinv

theorem one_le_stepsLeft {phase : Phase} (hlive : phase ≠ .stopped) : 1 ≤ stepsLeft phase := by
  cases phase with
  | stopped => exact absurd rfl hlive
  | _ => simp [stepsLeft]

/-- The worker takes a step, and is not cancelled in it. -/
def takesStep (worker : W) (t : Transition (State W) (Action W)) : Bool :=
  match t.action with
  | .body (.run actor _) => decide (actor = worker)
  | .loop actor (.resume outcome) => decide (actor = worker) && decide (outcome ≠ .cancelled)
  | .both actor (.run _ _) _ => decide (actor = worker)
  | .both actor (.abort _) _ => decide (actor = worker)
  | _ => false

/-- The transition begins a pass of the worker. -/
def beginsPass (worker : W) (t : Transition (State W) (Action W)) : Bool :=
  !(t.source.loop worker).place.isPass && (t.target.loop worker).place.isPass

/-- What is left of the pass that is under way. -/
def passLeft (worker : W) (s : State W) : ℕ :=
  if (s.loop worker).place.isPass then stepsLeft (s.body.phase worker) else 0

/-- The worker is where its loop is, and nobody has told it to stop. -/
structure UnderWay (worker : W) (s : State W) : Prop where
  inStep : InStep worker s.body (s.loop worker)
  onCourse : Loop.OnCourse (s.loop worker)

section Approaches

variable {config : Config W} {poll : ℤ} {worker : W} {s : State W}

omit [DecidableEq W] in
/-- Nothing has happened to the worker. -/
theorem UnderWay.congr (hway : UnderWay worker s) {s' : State W}
    (hinv : InStep worker s'.body (s'.loop worker)) (hloop : s'.loop worker = s.loop worker)
    (hphase : s'.body.phase worker = s.body.phase worker) :
    UnderWay worker s' ∧ passLeft worker s' = passLeft worker s := by
  refine ⟨⟨hinv, ?_⟩, ?_⟩
  · rw [hloop]
    exact hway.onCourse
  · simp only [passLeft, hloop, hphase]

omit [DecidableEq W] in
/-- The end of a half of a pass. -/
theorem UnderWay.of_ends (hway : UnderWay worker s) {base : Jobs.State W} {loop : Loop.State}
    (hinv : InStep worker base loop) (hplace : (s.loop worker).place.isPass = true)
    {outcome : Outcome} (hloop : Loop.step poll (s.loop worker) (.resume outcome) = some loop)
    (hleft : base.phase worker ≠ .polling →
      stepsLeft (base.phase worker) + 1 ≤ stepsLeft (s.body.phase worker)) :
    (Loop.OnCourse loop ∨ ∃ ending, loop.place = .ended ending) ∧
      (if loop.place.isPass then stepsLeft (base.phase worker) else 0) + 1 ≤ passLeft worker s := by
  have hsource : passLeft worker s = stepsLeft (s.body.phase worker) := if_pos hplace
  constructor
  · rcases Loop.proceeds_of_step hway.onCourse hloop (by rintro ⟨⟩) with hbegins | hproceeds
    · simp [Loop.beginsPass, hplace] at hbegins
    · exact hproceeds.course.imp_right fun hstrayed => ⟨_, hstrayed.2⟩
  · rw [hsource]
    split
    · next hpass =>
        apply hleft
        intro hpolling
        have hprocessing : loop.place = .processing := by
          cases Loop.step_effect hloop with
          | process _ => rfl
          | again htests _ =>
              cases htests with
              | begin hcreated | timeout hcreated _ =>
                  rw [hcreated] at hplace
                  cases hplace
          | _ => cases hpass
        have hphase := hinv.processing hprocessing
        rw [hpolling] at hphase
        cases hphase
    · rw [Nat.zero_add]
      exact one_le_stepsLeft (hway.inStep.started hway.onCourse.live)

/-- A step of the worker and its loop. -/
theorem UnderWay.of_both (hway : UnderWay worker s) {own : Jobs.Action W} {a : Loop.Action}
    {base : Jobs.State W} {loop : Loop.State} (hinv : InStep worker base loop)
    (htable : Jobs.step config s.body own = some base)
    (htask : Loop.step poll (s.loop worker) a = some loop)
    (hturn : turn s (.both worker own a) base = true) :
    (Loop.OnCourse loop ∨ ∃ ending, loop.place = .ended ending) ∧
      (if loop.place.isPass then stepsLeft (base.phase worker) else 0) + 1 ≤ passLeft worker s := by
  cases own with
  | tick _ => cases hturn
  | start actor =>
      simp only [turn, Bool.and_eq_true, decide_eq_true_eq] at hturn
      obtain ⟨rfl, rfl⟩ := hturn
      cases Loop.step_effect htask with
      | start hplace =>
          have hlive := hway.onCourse.live
          rw [hplace] at hlive
          cases hlive
  | crash actor =>
      simp only [turn, Bool.and_eq_true, Bool.or_eq_true, decide_eq_true_eq] at hturn
      obtain ⟨⟨rfl, hplace⟩, rfl | rfl⟩ := hturn
      · simp only [Loop.step, Option.ite_none_right_eq_some] at htask
        cases hway.onCourse.cancelling.symm.trans htask.1.1
      · refine hway.of_ends hinv hplace htask fun _ => ?_
        rw [stopped_of_crash htable]
        exact one_le_stepsLeft (hway.inStep.started hway.onCourse.live)
  | abort actor =>
      simp only [turn, Bool.and_eq_true, decide_eq_true_eq] at hturn
      obtain ⟨⟨rfl, hplace⟩, rfl⟩ := hturn
      exact hway.of_ends hinv hplace htask fun hnot => absurd (polling_of_abort htable) hnot
  | run actor choice =>
      simp only [turn, Bool.and_eq_true, decide_eq_true_eq] at hturn
      obtain ⟨⟨⟨rfl, hplace⟩, -⟩, rfl⟩ := hturn
      exact hway.of_ends hinv hplace htask (stepsLeft_of_table htable)

/-- A worker whose task is done takes no step. -/
theorem ended_of_step {s' : State W} {a : Action W} {ending : Events.Connection.Ending}
    (hended : (s.loop worker).place = .ended ending)
    (hstep : (passes config poll).step s a = some s') :
    (s'.loop worker).place = .ended ending ∧ takesStep worker ⟨s, a, s'⟩ = false := by
  have hpass : (s.loop worker).place.isPass = false := by
    rw [hended]
    rfl
  cases Host.step_effect hstep with
  | tick elapsed => exact ⟨hended, rfl⟩
  | @body own base _ hturn =>
      refine ⟨hended, ?_⟩
      cases own with
      | run actor choice =>
          simp only [passes, turn, Bool.and_eq_true, and_assoc] at hturn
          refine decide_eq_false ?_
          rintro rfl
          cases hpass.symm.trans hturn.1
      | _ => rfl
  | @loop actor b loop hloop _ =>
      by_cases hactor : actor = worker
      · subst hactor
        obtain ⟨hstill, hidle⟩ := Loop.ended_of_step hended hloop
        refine ⟨by simpa using hstill, ?_⟩
        cases b with
        | resume _ => cases hidle
        | _ => rfl
      · refine ⟨by simpa [Function.update_of_ne (Ne.symm hactor)] using hended, ?_⟩
        cases b <;> simp [takesStep, hactor]
  | @both actor own b base loop _ hloop hturn =>
      by_cases hactor : actor = worker
      · subst hactor
        obtain ⟨hstill, hidle⟩ := Loop.ended_of_step hended hloop
        refine ⟨by simpa using hstill, ?_⟩
        cases own with
        | run _ _ | abort _ =>
            simp only [passes, turn, Bool.and_eq_true, decide_eq_true_eq] at hturn
            obtain ⟨-, rfl⟩ := hturn
            cases hidle
        | _ => rfl
      · refine ⟨by simpa [Function.update_of_ne (Ne.symm hactor)] using hended, ?_⟩
        cases own <;> simp [takesStep, hactor]

/-- The step lemma: whatever the other workers do, each step of the worker leads to its next
pass, or a `CancelledError` of the pass ends its task. -/
theorem approaches_of_step {s' : State W} {a : Action W} (hway : UnderWay worker s)
    (hstep : (passes config poll).step s a = some s') (hnot : a ≠ .loop worker .stop) :
    beginsPass worker ⟨s, a, s'⟩ = true ∨
      (UnderWay worker s' ∨ ∃ ending, (s'.loop worker).place = .ended ending) ∧
        passLeft worker s' + (if takesStep worker ⟨s, a, s'⟩ then 1 else 0) ≤
          passLeft worker s := by
  have hinv := (keeps_inStep config poll).of_step worker hway.inStep hstep
  cases Host.step_effect hstep with
  | tick elapsed =>
      right
      refine ⟨Or.inl ⟨hinv, ?_⟩, le_rfl⟩
      exact ⟨hway.onCourse.live, hway.onCourse.shutdown, hway.onCourse.cancelling⟩
  | @body own base hbody hturn =>
      have htable : Jobs.step config s.body own = some base := hbody
      right
      cases own with
      | run actor choice =>
          simp only [passes, turn, Bool.and_eq_true, decide_eq_true_eq, and_assoc] at hturn
          obtain ⟨hplace, hpolling, -⟩ := hturn
          by_cases hactor : actor = worker
          · subst hactor
            refine ⟨Or.inl ⟨hinv, hway.onCourse⟩, ?_⟩
            simpa [passLeft, takesStep, hplace] using stepsLeft_of_table htable hpolling
          · obtain ⟨hway', hleft⟩ := hway.congr hinv rfl
              (phase_of_table htable fun hsame => hactor (Option.some.inj hsame))
            refine ⟨Or.inl hway', ?_⟩
            simp [hleft, takesStep, hactor]
      | _ => cases hturn
  | @loop actor b loop hloop hturn =>
      by_cases hactor : actor = worker
      · subst hactor
        left
        cases b with
        | resume outcome =>
            simp only [passes, turn, Bool.not_eq_true'] at hturn
            rcases Loop.proceeds_of_step hway.onCourse hloop (by rintro ⟨⟩) with
              hbegins | ⟨-, hleft⟩
            · simpa [beginsPass, Loop.beginsPass] using hbegins
            · exfalso
              cases hplace : (s.loop actor).place with
              | recovering | processing =>
                  rw [hplace] at hturn
                  cases hturn
              | _ => simp [Loop.isResume, hplace, Loop.Place.stepsLeft] at hleft
        | stop => exact absurd rfl hnot
        | _ => cases hturn
      · right
        obtain ⟨hway', hleft⟩ := hway.congr hinv (Function.update_of_ne (Ne.symm hactor) _ _) rfl
        refine ⟨Or.inl hway', ?_⟩
        cases b <;> simp [hleft, takesStep, hactor]
  | @both actor own b base loop hbody hloop hturn =>
      have htable : Jobs.step config s.body own = some base := hbody
      have htask : Loop.step poll (s.loop actor) b = some loop := hloop
      right
      by_cases hactor : actor = worker
      · subst hactor
        have hinv' : InStep actor base loop := by simpa using hinv
        obtain ⟨hcourse, hleft⟩ := hway.of_both hinv' htable htask hturn
        refine ⟨hcourse.imp (fun hcourse => ⟨hinv, by simpa using hcourse⟩) fun hended => ?_,
          (Nat.add_le_add ?_ ?_).trans hleft⟩
        · simpa using hended
        · simp [passLeft]
        · split <;> simp
      · have hother : actor? own ≠ some worker := by
          rw [actor?_of_turn hturn]
          exact fun hsame => hactor (Option.some.inj hsame)
        obtain ⟨hway', hleft⟩ := hway.congr hinv (Function.update_of_ne (Ne.symm hactor) _ _)
          (phase_of_table htable hother)
        refine ⟨Or.inl hway', ?_⟩
        cases own <;> simp [hleft, takesStep, hactor]

theorem approaches_pass (config : Config W) (poll : ℤ) (worker : W) :
    (passes config poll).system.Approaches (fun t => beginsPass worker t = true)
      (fun t => t.action ≠ .loop worker .stop) (takesStep worker)
      (fun s => UnderWay worker s ∨ ∃ ending, (s.loop worker).place = .ended ending)
      (passLeft worker) := by
  rintro s a s' (hway | ⟨ending, hended⟩) hstep hnot
  · exact approaches_of_step hway hstep hnot
  · obtain ⟨hstill, hidle⟩ := ended_of_step hended hstep
    refine Or.inr ⟨Or.inr ⟨ending, hstill⟩, ?_⟩
    simp [passLeft, hidle, hstill, Loop.Place.isPass]

end Approaches

/-! ## Passes go on -/

section GoesOn

variable {config : Config W} {poll : ℤ} {worker : W} {s : State W}

/-- A pass that is under way can go on. -/
theorem enables_of_isPass (hinv : InStep worker s.body (s.loop worker))
    (hplace : (s.loop worker).place.isPass = true) :
    (passes config poll).system.Enables (takesStep worker) s := by
  have hlive : s.body.phase worker ≠ .stopped := by
    apply hinv.started
    cases hpass : (s.loop worker).place with
    | recovering | processing => rfl
    | _ =>
        rw [hpass] at hplace
        cases hplace
  obtain ⟨choice, ⟨jobs', phase'⟩, hrun⟩ :=
    exists_runStep config worker s.body.clock s.body.jobs hlive
  let base := s.body.perform worker jobs' phase'
  have hphase : base.phase worker = phase' := s.body.perform_phase_self _ _ _
  have hstep : (workers config).step s.body (.run worker choice) = some base := by
    show (runStep config worker s.body.clock s.body.jobs (s.body.phase worker) choice).map _ = _
    rw [hrun]
    rfl
  by_cases hends : phase' = .polling ∨ phase' = .recovered
  · have hresume : ∃ loop, (Loop.loop poll).step (s.loop worker)
        (.resume (passOutcome (s.body.phase worker))) = some loop :=
      exists_resume_of_isPass hplace (passOutcome_ne (s.body.phase worker))
    obtain ⟨loop, hown⟩ := hresume
    refine ⟨.both worker (.run worker choice) (.resume (passOutcome (s.body.phase worker))),
      { body := base, loop := Function.update s.loop worker loop }, ?_, by simp [takesStep]⟩
    simp only [Host.system, Host.step, hstep, hown, Option.bind_some, Option.map_some]
    exact if_pos (by simp [passes, turn, hplace, hphase, hends])
  · rw [not_or] at hends
    refine ⟨.body (.run worker choice), { s with body := base }, ?_, by simp [takesStep]⟩
    simp only [Host.system, Host.step, hstep, Option.bind_some]
    exact if_pos (by simp [passes, turn, hplace, hphase, hends.1, hends.2])

/-- Between two passes the loop goes on. -/
theorem enables_of_resume (hplace : (s.loop worker).place.isPass = false) {outcome : Outcome}
    {loop : Loop.State} (hloop : Loop.step poll (s.loop worker) (.resume outcome) = some loop)
    (hnot : outcome ≠ .cancelled) : (passes config poll).system.Enables (takesStep worker) s := by
  have hown : (Loop.loop poll).step (s.loop worker) (.resume outcome) = some loop := hloop
  refine ⟨.loop worker (.resume outcome),
    { s with loop := Function.update s.loop worker loop }, ?_, by simp [takesStep, hnot]⟩
  simp only [Host.system, Host.step, hown, Option.map_some]
  exact if_pos (by simp [passes, turn, hplace])

/-- The worker can take its next step when its poll is over. -/
theorem enables_after (hinv : InStep worker s.body (s.loop worker))
    (hlive : (s.loop worker).place.isLive = true)
    (hshortly : Loop.WaitsShortly poll (s.loop worker)) {elapsed : ℕ} (hlong : poll ≤ elapsed) :
    (passes config poll).system.Enables (takesStep worker)
      ((passes config poll).after elapsed s) := by
  by_cases hplace : (s.loop worker).place.isPass = true
  · exact enables_of_isPass ((keeps_inStep config poll).tick worker _ _ elapsed hinv) hplace
  · obtain ⟨outcome, loop, hnot, hloop⟩ := Loop.exists_resume hlive hshortly hlong
    exact enables_of_resume (Bool.eq_false_iff.mpr hplace) hloop hnot.1

end GoesOn

variable {config : Config W} {poll : ℤ} {h : History (State W) (Action W)} {s : State W}

/-- A run of workers in their loops. -/
structure Hosted (config : Config W) (poll : ℤ) (h : History (State W) (Action W)) (s : State W) :
    Prop where
  /-- Seen from the table, it is a run of workers that have no loops. -/
  table : (workers config).Run (h.view Parts.body (passes config poll).bodyView) s.body
  /-- Seen from a worker, it is a run of its loop. -/
  loop : ∀ worker, (Loop.loop poll).Run
    (h.view (fun s => s.loop worker) ((passes config poll).loopView worker)) (s.loop worker)
  /-- There is one clock. -/
  clock : ∀ worker, (s.loop worker).clock = s.body.clock
  /-- A worker has a job in hand only while its loop is at `_process_due_jobs`. -/
  inHand : ∀ worker claim, (s.body.phase worker).claim? = some claim →
    (s.loop worker).place = .processing
  /-- Of its own steps, every 76th at the latest begins a pass. -/
  next : ∀ worker, (s.loop worker).place.isLive = true → (s.loop worker).shutdown = false →
    ∀ late s', ((passes config poll).system.startingIn s).Run late s' →
      (∀ t ∈ late, t.action ≠ .loop worker .stop) → 75 < late.countP (takesStep worker) →
        ∃ t ∈ late, beginsPass worker t = true
  /-- The worker can take its next step within the poll. -/
  goesOn : ∀ worker, (s.loop worker).place.isLive = true → ∀ elapsed : ℕ, poll ≤ elapsed →
    (passes config poll).system.Enables (takesStep worker) ((passes config poll).after elapsed s)

/-- Two new workers over a table with a due job. -/
def newWorkers : State (Fin 2) where
  body := twoWorkersStart
  loop _ := Loop.newWorker

theorem newWorkers_init : (passes twoWorkers 5000000).system.init newWorkers :=
  ⟨fun _ => rfl, fun _ => ⟨rfl, rfl, rfl⟩, fun _ => rfl⟩

end Apsis.Core.Jobs.Passes
