/-
# Labelled transition systems and their histories

A system is a set of initial states and a partial step function. Every choice
that is not the program's own (which party moves, how far the clock advances,
what a call returns) is part of the action, so a step is a function and a
concrete run can be computed.

A run records its whole history. What happened earlier in a run (how often an
action was taken, which party acted last) is then read off the history by
recursion, and no ghost field has to be added to the state of the program. The
one induction over runs is `Run.invariant`; every safety theorem about a system
is an instance of it.
-/

import Mathlib.Logic.Function.Basic

namespace Apsis.Library

universe u v

/-- There are numerals for two parties. -/
instance two_parties : @NeZero Nat Zero.ofOfNat0 2 := ⟨by decide⟩

/-- A transition system. `step` is partial: `none` means that the action is not
enabled in the state. -/
structure System (σ : Type u) (α : Type v) where
  /-- The states a run may begin in. -/
  init : σ → Prop
  /-- The state an enabled action leads to. -/
  step : σ → α → Option σ

/-- One step of a run together with the states on both sides of it. -/
structure Transition (σ : Type u) (α : Type v) where
  /-- The state in which the action was taken. -/
  source : σ
  /-- The action taken. -/
  action : α
  /-- The state the action led to. -/
  target : σ

/-- Everything a run has done so far, the latest transition first. -/
abbrev History (σ : Type u) (α : Type v) := List (Transition σ α)

variable {σ : Type u} {α : Type v}

/-- Every transition of the history met a condition when it was taken. The
condition may look at what had happened before it. -/
def History.Meets (ok : History σ α → Transition σ α → Prop) : History σ α → Prop
  | [] => True
  | t :: earlier => ok earlier t ∧ History.Meets ok earlier

@[simp]
theorem History.meets_nil (ok : History σ α → Transition σ α → Prop) :
    History.Meets ok ([] : History σ α) := trivial

@[simp]
theorem History.meets_cons (ok : History σ α → Transition σ α → Prop)
    (t : Transition σ α) (earlier : History σ α) :
    History.Meets ok (t :: earlier) ↔ ok earlier t ∧ History.Meets ok earlier := Iff.rfl

/-- The condition that asks nothing. -/
theorem History.meets_true (h : History σ α) : h.Meets fun _ _ => True := by
  induction h with
  | nil => trivial
  | cons t earlier ih => exact ⟨trivial, ih⟩

/-- A decidable condition can be checked along a concrete history. -/
instance History.decidableMeets (ok : History σ α → Transition σ α → Prop)
    [∀ earlier t, Decidable (ok earlier t)] : (h : History σ α) → Decidable (h.Meets ok)
  | [] => isTrue trivial
  | t :: earlier =>
      have := History.decidableMeets ok earlier
      inferInstanceAs (Decidable (ok earlier t ∧ History.Meets ok earlier))

theorem History.Meets.mono {ok ok' : History σ α → Transition σ α → Prop}
    (hmono : ∀ earlier t, ok earlier t → ok' earlier t) {h : History σ α}
    (hmeets : h.Meets ok) : h.Meets ok' := by
  induction h with
  | nil => trivial
  | cons t earlier ih => exact ⟨hmono earlier t hmeets.1, ih hmeets.2⟩

section Recorded

variable {κ β : Type*} [DecidableEq κ]
  (note : History σ α → Transition σ α → Option (κ × β))

/-- What the latest transition that has noted something under this key has noted. -/
def History.recorded (k : κ) : History σ α → Option β
  | [] => none
  | t :: earlier =>
      match note earlier t with
      | none => History.recorded k earlier
      | some noted => if noted.1 = k then some noted.2 else History.recorded k earlier

/-- All notes, the latest first. -/
def History.notes : History σ α → List (κ × β)
  | [] => []
  | t :: earlier => (note earlier t).toList ++ History.notes earlier

variable {note} {t : Transition σ α} {h : History σ α}

theorem History.recorded_cons_of_none (hnone : note h t = none) (k : κ) :
    History.recorded note k (t :: h) = h.recorded note k := by
  rw [History.recorded, hnone]

theorem History.recorded_cons_of_some {noted : κ × β} (hsome : note h t = some noted) (k : κ) :
    History.recorded note k (t :: h) =
      if noted.1 = k then some noted.2 else h.recorded note k := by
  rw [History.recorded, hsome]

theorem History.mem_notes_of_recorded {k : κ} {b : β} (hrecorded : h.recorded note k = some b) :
    (k, b) ∈ h.notes note := by
  induction h with
  | nil => cases hrecorded
  | cons t earlier ih =>
      rw [History.notes, List.mem_append]
      unfold History.recorded at hrecorded
      split at hrecorded
      · exact Or.inr (ih hrecorded)
      · next noted hnoted =>
          split at hrecorded
          · next hkey =>
              cases hrecorded
              subst hkey
              exact Or.inl (by rw [hnoted]; exact List.mem_singleton.mpr rfl)
          · exact Or.inr (ih hrecorded)

end Recorded

namespace System

variable (M : System σ α)

/-- The runs of a system: the history so far and the state it has led to. -/
inductive Run : History σ α → σ → Prop
  | /-- Nothing has happened yet. -/
    start {s : σ} (hinit : M.init s) : Run [] s
  | /-- One more enabled action. -/
    extend {h : History σ α} {s s' : σ} {a : α} (prior : Run h s)
      (hstep : M.step s a = some s') : Run (⟨s, a, s'⟩ :: h) s'

variable {M}

/-- **The invariant rule.** A property of histories and states that holds where
runs begin, and that every step keeps whose transition met the condition, holds
along every run all of whose transitions met it. -/
theorem Run.invariant {ok : History σ α → Transition σ α → Prop}
    {I : History σ α → σ → Prop} (hinit : ∀ s, M.init s → I [] s)
    (hstep : ∀ h s a s', M.Run h s → h.Meets ok → I h s → M.step s a = some s' →
      ok h ⟨s, a, s'⟩ → I (⟨s, a, s'⟩ :: h) s')
    {h : History σ α} {s : σ} (hrun : M.Run h s) (hmeets : h.Meets ok) : I h s := by
  induction hrun with
  | start hs => exact hinit _ hs
  | extend prior hs ih =>
      exact hstep _ _ _ _ prior hmeets.2 (ih hmeets.2) hs hmeets.1

/-- The invariant rule for runs under no condition. -/
theorem Run.invariant_of_step {I : History σ α → σ → Prop}
    (hinit : ∀ s, M.init s → I [] s)
    (hstep : ∀ h s a s', M.Run h s → I h s → M.step s a = some s' →
      I (⟨s, a, s'⟩ :: h) s')
    {h : History σ α} {s : σ} (hrun : M.Run h s) : I h s :=
  have hmeets : h.Meets fun _ _ => True := h.meets_true
  hrun.invariant hinit (fun h s a s' hprior _ hinv hs _ => hstep h s a s' hprior hinv hs) hmeets

/-- The state of a run is where it began, or it is the target of a transition. -/
theorem Run.init_or_target {h : History σ α} {s : σ} (hrun : M.Run h s) :
    M.init s ∨ ∃ t ∈ h, t.target = s := by
  cases hrun with
  | start hinit => exact Or.inl hinit
  | extend _ _ => exact Or.inr ⟨_, List.mem_cons_self, rfl⟩

/-- The last transition of a run is a step from the end of the run before it. -/
theorem Run.of_cons {t : Transition σ α} {h : History σ α} {s : σ} (hrun : M.Run (t :: h) s) :
    M.Run h t.source ∧ M.step t.source t.action = some t.target ∧ t.target = s := by
  cases hrun with
  | extend prior hstep => exact ⟨prior, hstep, rfl⟩

/-- The beginning of a run is a run. -/
theorem Run.of_append {late early : History σ α} {s : σ} (hrun : M.Run (late ++ early) s) :
    ∃ s', M.Run early s' := by
  induction late generalizing s with
  | nil => exact ⟨s, hrun⟩
  | cons t late ih => exact ih hrun.of_cons.1

/-- A run of a system is a run of every system that begins in more states. -/
theorem Run.mono {N : System σ α} (hinit : ∀ s, M.init s → N.init s)
    (hstep : M.step = N.step) {h : History σ α} {s : σ} (hrun : M.Run h s) : N.Run h s := by
  induction hrun with
  | start hs => exact .start (hinit _ hs)
  | extend _ hs ih => exact ih.extend (hstep ▸ hs)

variable (M) in
/-- The same system, begun in one given state. Its runs are the continuations of a
run that has led there. -/
def startingIn (s : σ) : System σ α where
  init s' := s' = s
  step := M.step

/-- Every run begins somewhere. -/
theorem Run.exists_start {h : History σ α} {s : σ} (hrun : M.Run h s) :
    ∃ start, M.init start ∧ (M.startingIn start).Run h s := by
  induction hrun with
  | start hinit => exact ⟨_, hinit, .start rfl⟩
  | extend _ hstep ih =>
      obtain ⟨start, hinit, hrun⟩ := ih
      exact ⟨start, hinit, hrun.extend hstep⟩

/-- A continuation of a run is a run. -/
theorem Run.append {early late : History σ α} {s s' : σ} (hearly : M.Run early s)
    (hlate : (M.startingIn s).Run late s') : M.Run (late ++ early) s' := by
  induction hlate with
  | start hinit =>
      cases hinit
      exact hearly
  | extend _ hstep ih => exact ih.extend hstep

variable (M) in
/-- Take a list of actions one after the other, recording the history. -/
def play : History σ α × σ → List α → Option (History σ α × σ)
  | p, [] => some p
  | p, a :: actions =>
      (M.step p.2 a).bind fun s' => play (⟨p.2, a, s'⟩ :: p.1, s') actions

/-- Playing actions from the end of a run gives a run. -/
theorem Run.play {h : History σ α} {s : σ} (hrun : M.Run h s) {actions : List α}
    {p : History σ α × σ} (hplay : M.play (h, s) actions = some p) : M.Run p.1 p.2 := by
  induction actions generalizing h s with
  | nil =>
      simp only [System.play, Option.some.injEq] at hplay
      subst hplay
      exact hrun
  | cons a actions ih =>
      simp only [System.play, Option.bind_eq_some_iff] at hplay
      obtain ⟨s', hs, hrest⟩ := hplay
      exact ih (hrun.extend hs) hrest

/-- A run with a decidable property, found by playing actions. -/
theorem exists_run_of_play {s : σ} (hinit : M.init s) (actions : List α)
    (P : History σ α × σ → Bool) (hplay : (M.play ([], s) actions).any P = true) :
    ∃ h s', M.Run h s' ∧ P (h, s') = true := by
  cases hp : M.play ([], s) actions with
  | none => simp [hp] at hplay
  | some p =>
      rw [hp] at hplay
      exact ⟨p.1, p.2, (Run.start hinit).play hp, hplay⟩

end System

end Apsis.Library
