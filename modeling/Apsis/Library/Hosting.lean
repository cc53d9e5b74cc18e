/-
# Systems that run in turns

Any number of parties act on a body that they share, and each of them has a loop of its own that
decides when. The body and the loops are systems of their own. Together they are one, in which a
step is one of the body, one of a loop, or one of both at once, as far as it is their turn; time
passes for all of them.

Seen from the body, or from a loop, what they do together is what they do on their own. What
ties them to each other is a property of the body and of the loop of one party. It has an
invariant rule, in which the steps of a party and those of the others are told apart.
-/

import Mathlib.Data.Nat.Notation
import Mathlib.Logic.Function.Basic
import Apsis.Library.Refinement

namespace Apsis.Library

universe u v u' v' w

/-- In every state of the system time may pass. -/
structure System.Clocked {σ : Type u} {α : Type v} (M : System σ α) where
  tick : ℕ → α
  pass : ℕ → σ → σ
  step_tick : ∀ s elapsed, M.step s (tick elapsed) = some (pass elapsed s)

/-- The body, and the loops of the parties. -/
structure Parts (σ : Type u) (τ : Type u') (W : Type w) where
  body : σ
  loop : W → τ

/-- An action of the parts. -/
inductive Joint (α : Type v) (β : Type v') (W : Type w)
  | /-- Time passes. -/
    tick (elapsed : ℕ)
  | body (a : α)
  | loop (party : W) (b : β)
  | both (party : W) (a : α) (b : β)
  deriving DecidableEq

/-- How the parts go together. -/
structure Host {σ : Type u} {α : Type v} {τ : Type u'} {β : Type v'} (M : System σ α)
    (N : System τ β) (W : Type w) where
  bodyClock : M.Clocked
  loopClock : N.Clocked
  /-- The parts fit together, where they begin. -/
  start : Parts σ τ W → Prop
  /-- It is the turn of this action, which leads the body there. -/
  turn : Parts σ τ W → Joint α β W → σ → Bool

namespace Host

variable {σ : Type u} {α : Type v} {τ : Type u'} {β : Type v'} {M : System σ α}
  {N : System τ β} {W : Type w}

section System

variable [DecidableEq W] (host : Host M N W)

/-- Time has passed. -/
def after (elapsed : ℕ) (s : Parts σ τ W) : Parts σ τ W where
  body := host.bodyClock.pass elapsed s.body
  loop party := host.loopClock.pass elapsed (s.loop party)

/-- One step. -/
def step (s : Parts σ τ W) : Joint α β W → Option (Parts σ τ W)
  | .tick elapsed => some (host.after elapsed s)
  | .body a => (M.step s.body a).bind fun body =>
      if host.turn s (.body a) body then some { s with body := body } else none
  | .loop party b =>
      if host.turn s (.loop party b) s.body then
        (N.step (s.loop party) b).map fun loop =>
          { s with loop := Function.update s.loop party loop }
      else none
  | .both party a b => (M.step s.body a).bind fun body =>
      if host.turn s (.both party a b) body then
        (N.step (s.loop party) b).map fun loop =>
          { body := body, loop := Function.update s.loop party loop }
      else none

/-- The parts together. -/
def system : System (Parts σ τ W) (Joint α β W) where
  init s := M.init s.body ∧ (∀ party, N.init (s.loop party)) ∧ host.start s
  step := host.step

/-- The effect of a step, by kind. -/
inductive StepEffect (s : Parts σ τ W) : Joint α β W → Parts σ τ W → Prop
  | tick (elapsed : ℕ) : StepEffect s (.tick elapsed) (host.after elapsed s)
  | body {a : α} {body : σ} (hbody : M.step s.body a = some body)
      (hturn : host.turn s (.body a) body = true) : StepEffect s (.body a) { s with body := body }
  | loop {party : W} {b : β} {loop : τ} (hloop : N.step (s.loop party) b = some loop)
      (hturn : host.turn s (.loop party b) s.body = true) :
      StepEffect s (.loop party b) { s with loop := Function.update s.loop party loop }
  | both {party : W} {a : α} {b : β} {body : σ} {loop : τ}
      (hbody : M.step s.body a = some body) (hloop : N.step (s.loop party) b = some loop)
      (hturn : host.turn s (.both party a b) body = true) : StepEffect s (.both party a b)
        { body := body, loop := Function.update s.loop party loop }

variable {host} {h : History (Parts σ τ W) (Joint α β W)} {s s' : Parts σ τ W} {a : Joint α β W}

theorem step_effect (hstep : host.step s a = some s') : host.StepEffect s a s' := by
  cases a with
  | tick elapsed =>
      cases hstep
      exact .tick elapsed
  | body a =>
      simp only [step, Option.bind_eq_some_iff, Option.ite_none_right_eq_some,
        Option.some.injEq] at hstep
      obtain ⟨body, hbody, hturn, rfl⟩ := hstep
      exact .body hbody hturn
  | loop party b =>
      simp only [step, Option.ite_none_right_eq_some, Option.map_eq_some_iff] at hstep
      obtain ⟨hturn, loop, hloop, rfl⟩ := hstep
      exact .loop hloop hturn
  | both party a b =>
      simp only [step, Option.bind_eq_some_iff, Option.ite_none_right_eq_some,
        Option.map_eq_some_iff] at hstep
      obtain ⟨body, hbody, hturn, loop, hloop, rfl⟩ := hstep
      exact .both hbody hloop hturn

/-! ## The parts on their own -/

variable (host) in
/-- What the body sees of an action. -/
def bodyView (t : Transition (Parts σ τ W) (Joint α β W)) : Option α :=
  match t.action with
  | .tick elapsed => some (host.bodyClock.tick elapsed)
  | .body a => some a
  | .loop _ _ => none
  | .both _ a _ => some a

variable (host) in
/-- What the loop of a party sees of an action. -/
def loopView (party : W) (t : Transition (Parts σ τ W) (Joint α β W)) : Option β :=
  match t.action with
  | .tick elapsed => some (host.loopClock.tick elapsed)
  | .body _ => none
  | .loop actor b => if actor = party then some b else none
  | .both actor _ b => if actor = party then some b else none

variable (host) in
/-- The body is the body. -/
theorem refines_body : host.system.Refines M (fun _ => True) Parts.body host.bodyView := by
  constructor
  · exact fun s hinit => hinit.1
  · intro s a s' own _ hstep hview
    cases step_effect hstep with
    | tick elapsed =>
        cases hview
        exact host.bodyClock.step_tick s.body elapsed
    | body hbody _ =>
        cases hview
        exact hbody
    | loop _ _ => cases hview
    | both hbody _ _ =>
        cases hview
        exact hbody
  · intro s a s' _ hstep hview
    cases step_effect hstep with
    | loop _ _ => rfl
    | _ => cases hview

variable (host) in
/-- The loop of a party is the loop. -/
theorem refines_loop (party : W) :
    host.system.Refines N (fun _ => True) (fun s => s.loop party) (host.loopView party) := by
  have hseen : ∀ {s : Parts σ τ W} {actor : W} {b own : β} {loop : τ},
      N.step (s.loop actor) b = some loop → (if actor = party then some b else none) = some own →
        N.step (s.loop party) own = some (Function.update s.loop actor loop party) := by
    intro s actor b own loop hloop hown
    rw [Option.ite_none_right_eq_some] at hown
    obtain ⟨rfl, hsame⟩ := hown
    cases hsame
    rw [hloop, Function.update_self]
  have hunseen : ∀ {s : Parts σ τ W} {actor : W} {b : β} {loop : τ},
      (if actor = party then some b else none) = none →
        Function.update s.loop actor loop party = s.loop party := by
    intro s actor b loop hnone
    refine Function.update_of_ne ?_ _ _
    rintro rfl
    rw [if_pos rfl] at hnone
    cases hnone
  constructor
  · exact fun s hinit => hinit.2.1 party
  · intro s a s' own _ hstep hview
    cases step_effect hstep with
    | tick elapsed =>
        cases hview
        exact host.loopClock.step_tick (s.loop party) elapsed
    | body _ _ => cases hview
    | loop hloop _ => exact hseen hloop hview
    | both _ hloop _ => exact hseen hloop hview
  · intro s a s' _ hstep hview
    cases step_effect hstep with
    | tick _ => cases hview
    | body _ _ => rfl
    | loop _ _ => exact hunseen hview
    | both _ _ _ => exact hunseen hview

/-- What holds of the runs of the body holds here. -/
theorem body_run (hrun : host.system.Run h s) : M.Run (h.view Parts.body host.bodyView) s.body :=
  host.refines_body.run (fun _ _ _ => trivial) hrun

/-- What holds of the runs of a loop holds here. -/
theorem loop_run (hrun : host.system.Run h s) (party : W) :
    N.Run (h.view (fun s => s.loop party) (host.loopView party)) (s.loop party) :=
  (host.refines_loop party).run (fun _ _ _ => trivial) hrun

/-! ## What ties them to each other -/

variable (host) in
/-- A property of the body and of one party's loop that every step keeps. -/
structure Keeps (I : W → σ → τ → Prop) : Prop where
  init : ∀ s party, host.system.init s → I party s.body (s.loop party)
  tick : ∀ party body loop elapsed, I party body loop →
    I party (host.bodyClock.pass elapsed body) (host.loopClock.pass elapsed loop)
  body : ∀ (s : Parts σ τ W) a body party, I party s.body (s.loop party) →
    M.step s.body a = some body → host.turn s (.body a) body = true → I party body (s.loop party)
  loop : ∀ (s : Parts σ τ W) b loop party, I party s.body (s.loop party) →
    N.step (s.loop party) b = some loop → host.turn s (.loop party b) s.body = true →
      I party s.body loop
  both : ∀ (s : Parts σ τ W) a b body loop party, I party s.body (s.loop party) →
    M.step s.body a = some body → N.step (s.loop party) b = some loop →
      host.turn s (.both party a b) body = true → I party body loop
  /-- The step of another party. -/
  other : ∀ (s : Parts σ τ W) actor a b body party, I party s.body (s.loop party) →
    M.step s.body a = some body → host.turn s (.both actor a b) body = true → party ≠ actor →
      I party body (s.loop party)

/-- The step lemma. -/
theorem Keeps.of_step {I : W → σ → τ → Prop} (hkeeps : host.Keeps I) (party : W)
    (hinv : I party s.body (s.loop party)) (hstep : host.step s a = some s') :
    I party s'.body (s'.loop party) := by
  cases step_effect hstep with
  | tick elapsed => exact hkeeps.tick party _ _ elapsed hinv
  | body hbody hturn => exact hkeeps.body s _ _ party hinv hbody hturn
  | @loop actor b loop hloop hturn =>
      show I party s.body (Function.update s.loop actor loop party)
      by_cases hactor : party = actor
      · subst hactor
        rw [Function.update_self]
        exact hkeeps.loop s b loop party hinv hloop hturn
      · rw [Function.update_of_ne hactor]
        exact hinv
  | @both actor own b body loop hbody hloop hturn =>
      show I party body (Function.update s.loop actor loop party)
      by_cases hactor : party = actor
      · subst hactor
        rw [Function.update_self]
        exact hkeeps.both s own b body loop party hinv hbody hloop hturn
      · rw [Function.update_of_ne hactor]
        exact hkeeps.other s actor own b body party hinv hbody hturn hactor

/-- **The invariant rule.** -/
theorem Keeps.of_run {I : W → σ → τ → Prop} (hkeeps : host.Keeps I) (hrun : host.system.Run h s)
    (party : W) : I party s.body (s.loop party) := by
  apply hrun.invariant_of_step (I := fun _ s => I party s.body (s.loop party))
  · exact fun s hinit => hkeeps.init s party hinit
  · exact fun h s a s' _ hinv hstep => hkeeps.of_step party hinv hstep

end System

end Host

end Apsis.Library
