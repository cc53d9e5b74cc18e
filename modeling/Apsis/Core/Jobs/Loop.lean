/-
# The loop of the job worker

`JobWorker._run` makes one pass after the other: it recovers stale jobs, processes the due ones
and waits for the shutdown event, as long as its poll. What a pass raises is logged, and the
loop goes on; only a `CancelledError` gets out of it, whether `stop` has caused it or a handler
has raised it unasked.

As in `Connection`, one step of the loop leads from one await to the next, and of the exceptions
that are no `Exception` only `CancelledError` is there. What happens in a pass is the subject of
`Worker`.
-/

import Apsis.Core.Events.Connection

namespace Apsis.Core.Jobs.Loop

open Apsis.Library
open Apsis.Core.Events.Connection (Outcome Ending)

/-! ## The loop -/

/-- The await at which the task stands. -/
inductive Place
  | /-- Before `start`. -/
    idle
  | /-- The task has been created and has not yet run. -/
    created
  | /-- `_recover_stale_jobs` -/
    recovering
  | /-- `_process_due_jobs` -/
    processing
  | /-- The `wait_for` of the poll. -/
    waiting (deadline : Time)
  | /-- The task is done. -/
    ended (ending : Ending)
  deriving DecidableEq

/-- The task is not done. -/
def Place.isLive : Place → Bool
  | .idle => false
  | .ended _ => false
  | _ => true

/-- A pass is under way. -/
def Place.isPass : Place → Bool
  | .recovering => true
  | .processing => true
  | _ => false

theorem Place.isLive_of_isPass {place : Place} (hpass : place.isPass = true) :
    place.isLive = true := by
  cases place with
  | recovering | processing => rfl
  | _ => cases hpass

/-- The worker. -/
structure State where
  clock : Time
  /-- `_shutdown_event` -/
  shutdown : Bool
  /-- The task has been cancelled, and no await has raised that yet. -/
  cancelling : Bool
  place : Place
  deriving DecidableEq

/-- The actions. -/
inductive Action
  | /-- Time passes. -/
    tick (elapsed : ℕ)
  | start
  | stop
  | /-- The await at which the task stands ends in this way. -/
    resume (outcome : Outcome)
  deriving DecidableEq

/-- The test of the loop. -/
def State.again (s : State) : State :=
  { s with place := if s.shutdown then .ended .returned else .recovering }

variable (poll : ℤ)

/-- The wait at the end of a pass. -/
def State.await (s : State) : State := { s with place := .waiting (s.clock + poll) }

/-- The await at this place returns. -/
def returnStep (s : State) : Place → Option State
  | .created => some s.again
  | .recovering => some { s with place := .processing }
  | .processing => some (s.await poll)
  | .waiting _ => if s.shutdown then some { s with place := .ended .returned } else none
  | _ => none

/-- The await at this place raises, but not a `CancelledError`. -/
def raiseStep (s : State) : Place → Option State
  | .recovering => some (s.await poll)
  | .processing => some (s.await poll)
  | .waiting deadline => if deadline ≤ s.clock then some s.again else none
  | _ => none

/-- One step. -/
def step (s : State) : Action → Option State
  | .tick elapsed => some { s with clock := s.clock + elapsed }
  | .start =>
      if s.place = .idle then some { s with shutdown := false, place := .created } else none
  | .stop => some { s with shutdown := true, cancelling := s.cancelling || s.place.isLive }
  | .resume .returns => returnStep poll s s.place
  | .resume .raises => raiseStep poll s s.place
  | .resume .cancelled =>
      if s.cancelling ∧ s.place.isLive then
        some { s with cancelling := false, place := .ended .cancelled }
      else none
  | .resume .strays => if s.place.isPass then some { s with place := .ended .cancelled } else none

/-- A new worker. -/
def loop : System State Action where
  init s := s.shutdown = false ∧ s.cancelling = false ∧ s.place = .idle
  step := step poll

/-! ## What a step does -/

/-- Where the test of the loop is made. -/
inductive Tests (s : State) : Outcome → Prop
  | begin (hplace : s.place = .created) : Tests s .returns
  | timeout {deadline : Time} (hplace : s.place = .waiting deadline)
      (hdeadline : deadline ≤ s.clock) : Tests s .raises

/-- Why an await raises a `CancelledError`, and whether the task is to be cancelled after that. -/
inductive Cancels (s : State) : Outcome → Bool → Prop
  | told (hcancelling : s.cancelling = true) : Cancels s .cancelled false
  | stray (hpass : s.place.isPass = true) : Cancels s .strays s.cancelling

/-- The effect of a step, by kind. -/
inductive StepEffect (s : State) : Action → State → Prop
  | tick (elapsed : ℕ) : StepEffect s (.tick elapsed) { s with clock := s.clock + elapsed }
  | start (hplace : s.place = .idle) :
      StepEffect s .start { s with shutdown := false, place := .created }
  | stop : StepEffect s .stop
      { s with shutdown := true, cancelling := s.cancelling || s.place.isLive }
  | again {outcome : Outcome} (htests : Tests s outcome) (hshutdown : s.shutdown = false) :
      StepEffect s (.resume outcome) { s with place := .recovering }
  | leave {outcome : Outcome} (hlive : s.place.isLive = true) (hpass : s.place.isPass = false)
      (hshutdown : s.shutdown = true) :
      StepEffect s (.resume outcome) { s with place := .ended .returned }
  | process (hplace : s.place = .recovering) :
      StepEffect s (.resume .returns) { s with place := .processing }
  | await {outcome : Outcome} (hpass : s.place.isPass = true) :
      StepEffect s (.resume outcome) { s with place := .waiting (s.clock + poll) }
  | cancel {outcome : Outcome} {cancelling : Bool} (hcause : Cancels s outcome cancelling)
      (hlive : s.place.isLive = true) : StepEffect s (.resume outcome)
        { s with cancelling := cancelling, place := .ended .cancelled }

variable {poll} {h : History State Action} {s s' : State} {a : Action}

theorem step_effect (h : step poll s a = some s') : StepEffect poll s a s' := by
  have hagain : ∀ {outcome : Outcome}, Tests s outcome →
      StepEffect poll s (.resume outcome) s.again := by
    intro outcome htests
    unfold State.again
    split
    · next hshutdown =>
        cases htests with
        | begin hplace | timeout hplace _ =>
            exact .leave (by rw [hplace]; rfl) (by rw [hplace]; rfl) hshutdown
    · next hshutdown => exact .again htests (Bool.eq_false_iff.mpr hshutdown)
  cases a with
  | tick elapsed =>
      cases h
      exact .tick elapsed
  | start =>
      simp only [step, Option.ite_none_right_eq_some, Option.some.injEq] at h
      obtain ⟨hplace, rfl⟩ := h
      exact .start hplace
  | stop =>
      cases h
      exact .stop
  | resume outcome =>
      cases outcome with
      | returns =>
          simp only [step] at h
          generalize hplace : s.place = place at h
          cases place with
          | idle | ended _ => cases h
          | created =>
              cases h
              exact hagain (.begin hplace)
          | recovering =>
              cases h
              exact .process hplace
          | processing =>
              cases h
              exact .await (by rw [hplace]; rfl)
          | waiting deadline =>
              simp only [returnStep, Option.ite_none_right_eq_some, Option.some.injEq] at h
              obtain ⟨hshutdown, rfl⟩ := h
              exact .leave (by rw [hplace]; rfl) (by rw [hplace]; rfl) hshutdown
      | raises =>
          simp only [step] at h
          generalize hplace : s.place = place at h
          cases place with
          | idle | ended _ | created => cases h
          | recovering | processing =>
              cases h
              exact .await (by rw [hplace]; rfl)
          | waiting deadline =>
              simp only [raiseStep, Option.ite_none_right_eq_some, Option.some.injEq] at h
              obtain ⟨hdeadline, rfl⟩ := h
              exact hagain (.timeout hplace hdeadline)
      | cancelled =>
          simp only [step, Option.ite_none_right_eq_some, Option.some.injEq] at h
          obtain ⟨⟨hcancelling, hlive⟩, rfl⟩ := h
          exact .cancel (.told hcancelling) hlive
      | strays =>
          simp only [step, Option.ite_none_right_eq_some, Option.some.injEq] at h
          obtain ⟨hpass, rfl⟩ := h
          exact .cancel (.stray hpass) (Place.isLive_of_isPass hpass)

/-- A task that takes a step is not done, and is not told anything by it. -/
theorem of_resume {outcome : Outcome} (hstep : step poll s (.resume outcome) = some s') :
    s.place.isLive = true ∧ s'.shutdown = s.shutdown ∧ s'.place ≠ .idle := by
  cases step_effect hstep with
  | again htests _ =>
      refine ⟨?_, rfl, by rintro ⟨⟩⟩
      cases htests with
      | begin hplace | timeout hplace _ => rw [hplace]; rfl
  | leave hlive _ _ => exact ⟨hlive, rfl, by rintro ⟨⟩⟩
  | process hplace => exact ⟨by rw [hplace]; rfl, rfl, by rintro ⟨⟩⟩
  | await hpass => exact ⟨Place.isLive_of_isPass hpass, rfl, by rintro ⟨⟩⟩
  | cancel _ hlive => exact ⟨hlive, rfl, by rintro ⟨⟩⟩

/-! ## What ends the loop -/

/-- A pass has raised a `CancelledError` of its own. -/
def HasStrayed (h : History State Action) : Prop := ∃ t ∈ h, t.action = .resume .strays

theorem HasStrayed.cons {t : Transition State Action} (hstrayed : HasStrayed h) :
    HasStrayed (t :: h) :=
  List.exists_mem_cons_of_exists hstrayed

/-- Only `stop` sets the event and cancels the task, and only that or a `CancelledError` of a
pass ends it. Nothing else is raised out of the loop. -/
structure Told (h : History State Action) (s : State) : Prop where
  shutdown : s.shutdown = true → ∃ t ∈ h, t.action = .stop
  cancelling : s.cancelling = true → s.shutdown = true
  ended : ∀ ending, s.place = .ended ending →
    (s.shutdown = true ∨ HasStrayed h) ∧ ending ≠ .raised
  /-- The event is set while the task runs, or before it is created. -/
  idle : s.place = .idle → s.cancelling = false

theorem told_of_run (hrun : (loop poll).Run h s) : Told h s := by
  apply hrun.invariant_of_step (I := fun h s => Told h s)
  · rintro s ⟨hshutdown, hcancelling, hplace⟩
    refine ⟨fun hset => ?_, fun hset => ?_, fun ending hended => ?_, fun _ => hcancelling⟩
    · rw [hshutdown] at hset
      cases hset
    · rw [hcancelling] at hset
      cases hset
    · rw [hplace] at hended
      cases hended
  · intro h s a s' _ htold hstep
    have hkept : s.shutdown = true →
        ∃ t ∈ (⟨s, a, s'⟩ :: h : History State Action), t.action = .stop := by
      intro hset
      exact List.exists_mem_cons_of_exists (htold.shutdown hset)
    have hstill : ∀ ending, s.place = .ended ending →
        (s.shutdown = true ∨ HasStrayed (⟨s, a, s'⟩ :: h)) ∧ ending ≠ .raised := by
      intro ending hended
      exact ⟨(htold.ended ending hended).1.imp_right HasStrayed.cons, (htold.ended ending hended).2⟩
    cases step_effect hstep with
    | tick _ => exact ⟨hkept, htold.cancelling, hstill, htold.idle⟩
    | start hplace =>
        refine ⟨by rintro ⟨⟩, fun hset => ?_, by rintro _ ⟨⟩, by rintro ⟨⟩⟩
        have hset' : s.cancelling = true := hset
        rw [htold.idle hplace] at hset'
        cases hset'
    | stop =>
        refine ⟨fun _ => ⟨_, List.mem_cons_self, rfl⟩, fun _ => rfl, fun ending hended => ?_, ?_⟩
        · exact ⟨Or.inl rfl, (htold.ended ending hended).2⟩
        · intro hidle
          have hidle' : s.place = .idle := hidle
          show (s.cancelling || s.place.isLive) = false
          rw [htold.idle hidle', hidle']
          rfl
    | again _ _ => exact ⟨hkept, htold.cancelling, by rintro _ ⟨⟩, by rintro ⟨⟩⟩
    | process _ => exact ⟨hkept, htold.cancelling, by rintro _ ⟨⟩, by rintro ⟨⟩⟩
    | await _ => exact ⟨hkept, htold.cancelling, by rintro _ ⟨⟩, by rintro ⟨⟩⟩
    | leave _ _ hshutdown =>
        refine ⟨hkept, htold.cancelling, ?_, by rintro ⟨⟩⟩
        rintro _ ⟨⟩
        exact ⟨Or.inl hshutdown, by rintro ⟨⟩⟩
    | cancel hcause _ =>
        cases hcause with
        | told hcancelling =>
            refine ⟨hkept, by rintro ⟨⟩, ?_, by rintro ⟨⟩⟩
            rintro _ ⟨⟩
            exact ⟨Or.inl (htold.cancelling hcancelling), by rintro ⟨⟩⟩
        | stray _ =>
            refine ⟨hkept, htold.cancelling, ?_, by rintro ⟨⟩⟩
            rintro _ ⟨⟩
            exact ⟨Or.inr ⟨_, List.mem_cons_self, rfl⟩, by rintro ⟨⟩⟩

/-! ## The pace of the passes -/

/-- The transition begins a pass. -/
def beginsPass (t : Transition State Action) : Bool :=
  !t.source.place.isPass && t.target.place.isPass

variable (poll) in
/-- Earlier passes were over this early. -/
def Place.passedBy (clock : Time) : Place → Time
  | .idle => min clock (clock - poll)
  | .created => min clock (clock - poll)
  | .waiting deadline => min clock (deadline - poll)
  | _ => clock

theorem Place.passedBy_le (clock : Time) (place : Place) : place.passedBy poll clock ≤ clock := by
  cases place with
  | idle | created | waiting _ => exact min_le_left _ _
  | _ => exact le_rfl

/-- The limit does not go back. -/
theorem passedBy_step (hstep : step poll s a = some s') :
    s.place.passedBy poll s.clock ≤ s'.place.passedBy poll s'.clock := by
  have hlast : s.place.passedBy poll s.clock ≤ s.clock := Place.passedBy_le s.clock s.place
  cases step_effect hstep with
  | tick elapsed =>
      have hle : s.clock ≤ s.clock + elapsed := by simp
      cases hplace : s.place with
      | idle | created => exact min_le_min hle (by lia)
      | waiting _ => exact min_le_min hle le_rfl
      | _ => exact hle
  | start hplace =>
      rw [hplace]
      exact le_rfl
  | stop => exact le_rfl
  | await _ => exact le_min hlast (hlast.trans (by simp))
  | _ => exact hlast

/-- The run lemma. -/
theorem passedBy_of_run (hrun : (loop poll).Run h s) :
    h.DoneBy State.clock (fun t => t.target.place.isPass = true)
      (s.place.passedBy poll s.clock) := by
  apply hrun.invariant_of_step (I := fun h s => h.DoneBy State.clock
    (fun t => t.target.place.isPass = true) (s.place.passedBy poll s.clock))
  · exact fun _ _ => History.doneBy_nil
  · intro h s a s' _ hinv hstep
    refine (hinv.mono (passedBy_step hstep)).cons fun hpass => ?_
    show s'.clock ≤ s'.place.passedBy poll s'.clock
    cases hplace : s'.place with
    | recovering | processing => exact le_rfl
    | _ =>
        simp only [hplace] at hpass
        cases hpass

/-- A pass begins one poll after the one before was over. -/
theorem passedBy_of_begins (hstep : step poll s a = some s')
    (hbegins : beginsPass ⟨s, a, s'⟩ = true) :
    s.place.passedBy poll s.clock ≤ s'.clock - poll := by
  simp only [beginsPass, Bool.and_eq_true, Bool.not_eq_true'] at hbegins
  obtain ⟨hbefore, hafter⟩ := hbegins
  cases step_effect hstep with
  | tick _ => exact absurd hafter (Bool.eq_false_iff.mp hbefore)
  | stop => exact absurd hafter (Bool.eq_false_iff.mp hbefore)
  | again htests _ =>
      cases htests with
      | begin hplace =>
          rw [hplace]
          exact min_le_right _ _
      | timeout hplace hdeadline =>
          rw [hplace]
          exact (min_le_right _ _).trans (by lia)
  | process hplace =>
      rw [hplace] at hbefore
      cases hbefore
  | start _ => cases hafter
  | leave _ _ _ => cases hafter
  | await _ => cases hafter
  | cancel _ _ => cases hafter

/-! ## The next pass -/

/-- The worker takes a step of its own. -/
def isResume (t : Transition State Action) : Bool :=
  match t.action with
  | .resume _ => true
  | _ => false

/-- The steps to the one that begins the next pass. -/
def Place.stepsLeft : Place → ℕ
  | .recovering => 2
  | .processing => 1
  | _ => 0

/-- The task runs, and nobody has told it to stop. -/
structure OnCourse (s : State) : Prop where
  live : s.place.isLive = true
  shutdown : s.shutdown = false
  cancelling : s.cancelling = false

theorem onCourse_of_run (hrun : (loop poll).Run h s) (hlive : s.place.isLive = true)
    (hshutdown : s.shutdown = false) : OnCourse s := by
  refine ⟨hlive, hshutdown, Bool.eq_false_iff.mpr fun hset => ?_⟩
  rw [(told_of_run hrun).cancelling hset] at hshutdown
  cases hshutdown

/-- What a transition does that does not begin a pass. -/
structure Proceeds (t : Transition State Action) : Prop where
  /-- A `CancelledError` of the pass ends the loop. -/
  course : OnCourse t.target ∨ t.action = .resume .strays ∧ t.target.place = .ended .cancelled
  steps : t.target.place.stepsLeft + (if isResume t then 1 else 0) ≤ t.source.place.stepsLeft

theorem Place.one_le_stepsLeft {place : Place} (hpass : place.isPass = true) :
    1 ≤ place.stepsLeft := by
  cases place with
  | recovering | processing => simp [stepsLeft]
  | _ => cases hpass

/-- The step lemma. -/
theorem proceeds_of_step (hcourse : OnCourse s) (hstep : step poll s a = some s')
    (hnot : a ≠ .stop) : beginsPass ⟨s, a, s'⟩ = true ∨ Proceeds ⟨s, a, s'⟩ := by
  have hshutdown := hcourse.shutdown
  cases step_effect hstep with
  | tick _ => exact Or.inr ⟨Or.inl ⟨hcourse.live, hshutdown, hcourse.cancelling⟩, le_rfl⟩
  | stop => exact absurd rfl hnot
  | start hplace =>
      have hlive := hcourse.live
      rw [hplace] at hlive
      cases hlive
  | again htests _ =>
      refine Or.inl ?_
      cases htests with
      | begin hplace | timeout hplace _ => simp [beginsPass, hplace, Place.isPass]
  | leave _ _ hset =>
      rw [hshutdown] at hset
      cases hset
  | process hplace =>
      refine Or.inr ⟨Or.inl ⟨rfl, hshutdown, hcourse.cancelling⟩, ?_⟩
      simp only [hplace]
      exact le_rfl
  | await hpass =>
      refine Or.inr ⟨Or.inl ⟨rfl, hshutdown, hcourse.cancelling⟩, ?_⟩
      exact (Nat.zero_add 1).le.trans (Place.one_le_stepsLeft hpass)
  | cancel hcause _ =>
      cases hcause with
      | told hset =>
          rw [hcourse.cancelling] at hset
          cases hset
      | stray hpass =>
          refine Or.inr ⟨Or.inr ⟨rfl, rfl⟩, ?_⟩
          exact (Nat.zero_add 1).le.trans (Place.one_le_stepsLeft hpass)

/-- A task that is done takes no step. -/
theorem ended_of_step {ending : Ending} (hended : s.place = .ended ending)
    (hstep : step poll s a = some s') : s'.place = .ended ending ∧ isResume ⟨s, a, s'⟩ = false := by
  cases a with
  | tick _ | stop =>
      cases hstep
      exact ⟨hended, rfl⟩
  | start =>
      simp only [step, Option.ite_none_right_eq_some] at hstep
      cases hended.symm.trans hstep.1
  | resume _ =>
      have hlive := (of_resume hstep).1
      rw [hended] at hlive
      cases hlive

/-- Whatever an await ends with, it leads to the next pass, if it does not end the loop. -/
theorem approaches_pass (poll : ℤ) : (loop poll).Approaches (fun t => beginsPass t = true)
    (fun t => t.action ≠ .stop) isResume
    (fun s => OnCourse s ∨ ∃ ending, s.place = .ended ending) (fun s => s.place.stepsLeft) := by
  rintro s a s' (hcourse | ⟨ending, hended⟩) hstep hnot
  · refine (proceeds_of_step hcourse hstep hnot).imp_right fun hproceeds => ?_
    exact ⟨hproceeds.course.imp_right fun hstrayed => ⟨_, hstrayed.2⟩, hproceeds.steps⟩
  · obtain ⟨hstill, hidle⟩ := ended_of_step hended hstep
    refine Or.inr ⟨Or.inr ⟨ending, hstill⟩, ?_⟩
    simp only [hidle, hstill, hended]
    exact le_rfl

theorem Place.stepsLeft_le (place : Place) : place.stepsLeft ≤ 2 := by
  cases place <;> simp [stepsLeft]

/-- The worker does not wait for more than a poll. -/
def WaitsShortly (poll : ℤ) (s : State) : Prop :=
  ∀ deadline, s.place = .waiting deadline → deadline ≤ s.clock + poll

theorem waitsShortly_of_run (hrun : (loop poll).Run h s) : WaitsShortly poll s := by
  apply hrun.invariant_of_step (I := fun _ s => WaitsShortly poll s)
  · rintro s ⟨-, -, hplace⟩ deadline hwaiting
    rw [hplace] at hwaiting
    cases hwaiting
  · intro h s a s' _ hinv hstep deadline hwaiting
    cases step_effect hstep with
    | tick elapsed => exact (hinv deadline hwaiting).trans (by simp)
    | stop => exact hinv deadline hwaiting
    | await _ =>
        cases hwaiting
        exact le_rfl
    | _ => cases hwaiting

/-- The await at which the task stands can end when its deadline has come, and not with a
`CancelledError`. -/
theorem exists_resume (hlive : s.place.isLive = true) (hshortly : WaitsShortly poll s)
    {elapsed : ℕ} (hlong : poll ≤ elapsed) : ∃ outcome next,
      (outcome ≠ .cancelled ∧ outcome ≠ .strays) ∧
      step poll { s with clock := s.clock + elapsed } (.resume outcome) = some next := by
  simp only [step]
  cases hplace : s.place with
  | waiting deadline =>
      have hdue : deadline ≤ s.clock + elapsed := (hshortly deadline hplace).trans (by lia)
      exact ⟨.raises, _, ⟨by rintro ⟨⟩, by rintro ⟨⟩⟩, if_pos hdue⟩
  | idle | ended _ =>
      rw [hplace] at hlive
      cases hlive
  | _ => exact ⟨.returns, _, ⟨by rintro ⟨⟩, by rintro ⟨⟩⟩, rfl⟩

/-- The loop goes on in this state of a run. -/
structure GoesOn (poll : ℤ) (h : History State Action) (s : State) : Prop where
  /-- The task has ended only if it has been told to, or a pass has raised a `CancelledError` of
  its own, and with no other exception. -/
  ended : ∀ ending, s.place = .ended ending →
    ending ≠ .raised ∧ ((∃ t ∈ h, t.action = .stop) ∨ HasStrayed h)
  /-- A pass begins one poll after everything that was done in passes before. -/
  paced : ∀ a s', step poll s a = some s' → beginsPass ⟨s, a, s'⟩ = true →
    ∀ t ∈ h, t.target.place.isPass = true → t.target.clock + poll ≤ s'.clock
  /-- Every third await at the latest begins a pass. -/
  next : s.place.isLive = true → s.shutdown = false → ∀ late s',
    ((loop poll).startingIn s).Run late s' → (∀ t ∈ late, t.action ≠ .stop) →
      2 < late.countP isResume → ∃ t ∈ late, beginsPass t = true
  /-- The await at hand can end within the poll. -/
  resumes : s.place.isLive = true → ∀ elapsed : ℕ, poll ≤ elapsed → ∃ outcome next,
    (outcome ≠ .cancelled ∧ outcome ≠ .strays) ∧
      step poll { s with clock := s.clock + elapsed } (.resume outcome) = some next

/-- **The worker goes on making passes.** Whatever exception a pass raises, the task ends only when
it has been told to stop, or when that is a `CancelledError` which nobody has caused. Until then
it makes one pass after the other, and every one begins a poll after the one before is over. -/
theorem goesOn_of_run (hrun : (loop poll).Run h s) : GoesOn poll h s := by
  constructor
  · intro ending hended
    have htold := told_of_run hrun
    obtain ⟨hshutdown, hraised⟩ := htold.ended ending hended
    exact ⟨hraised, hshutdown.imp_left htold.shutdown⟩
  · intro a s' hstep hbegins t hmem hpass
    have hearly := passedBy_of_run hrun t hmem hpass
    have hpoll := passedBy_of_begins hstep hbegins
    lia
  · intro hlive hshutdown late s' hlate hnot hlong
    exact (approaches_pass poll).exists_goal (Or.inl (onCourse_of_run hrun hlive hshutdown))
      hlate hnot (s.place.stepsLeft_le.trans_lt hlong)
  · exact fun hlive elapsed hlong => exists_resume hlive (waitsShortly_of_run hrun) hlong

/-! ## A pass that fails -/

/-- Nothing has happened yet. -/
def newWorker : State := ⟨0, false, false, .idle⟩

/-- After a pass that has failed at once, the next one comes a poll later. -/
theorem failed_pass_followed :
    ∃ h s, (loop 5000000).Run h s ∧ ∃ t ∈ h, t.target.place.isPass = true ∧
      ∃ s', step 5000000 s (.resume .raises) = some s' ∧ t.target.clock + 5000000 ≤ s'.clock := by
  obtain ⟨h, s, hrun, hP⟩ := System.exists_run_of_play
    (M := loop 5000000) (s := newWorker) ⟨rfl, rfl, rfl⟩
    [.start, .resume .returns, .resume .raises, .tick 5000000]
    (fun p => decide (p.2 = ⟨5000000, false, false, .waiting 5000000⟩ ∧
      ∃ t ∈ p.1, t.target.place.isPass = true)) (by decide)
  obtain ⟨rfl, t, hmem, hpass⟩ := of_decide_eq_true hP
  refine ⟨h, _, hrun, t, hmem, hpass, _, rfl, ?_⟩
  exact (goesOn_of_run hrun).paced (.resume .raises) _ rfl rfl t hmem hpass

end Apsis.Core.Jobs.Loop
