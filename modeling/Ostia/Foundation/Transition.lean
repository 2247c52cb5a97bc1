import Mathlib.Data.List.Basic

/-!
# Transition systems

A step function says which steps are possible in a state.  A condition on the steps, which
may look at the state before a step, singles out runs: what such steps keep holds in every
state that they reach.
-/

namespace Ostia
namespace Foundation
namespace Transition

variable {S A : Type} {step : S -> A -> Option S} {ok : S -> A -> Prop} {init : S}

/-- The states that are reached by steps that meet a condition. -/
inductive Reached (step : S -> A -> Option S) (ok : S -> A -> Prop) (init : S) : S -> Prop
  | init : Reached step ok init init
  | step {s s' : S} {a : A} (before : Reached step ok init s) (meets : ok s a)
      (move : step s a = some s') : Reached step ok init s'

/-- A step may use what is known of every state that is reached. -/
theorem Reached.invariant {P : S -> Prop} (hinit : P init)
    (hstep : forall s a s', Reached step ok init s -> P s -> ok s a -> step s a = some s' -> P s')
    {s : S} (h : Reached step ok init s) : P s := by
  induction h with
  | init => exact hinit
  | step before meets move ih => exact hstep _ _ _ before ih meets move

/-- The state after a list of steps, if they are possible. -/
def replay (step : S -> A -> Option S) (s : S) (moves : List A) : Option S :=
  moves.foldlM step s

/-- A list of steps that all meet the condition, wherever they are taken. -/
theorem Reached.replay {s s' : S} {moves : List A} (h : Reached step ok init s)
    (hok : forall a, a ∈ moves -> forall s, ok s a)
    (hreplay : Transition.replay step s moves = some s') : Reached step ok init s' := by
  unfold Transition.replay at hreplay
  induction moves generalizing s with
  | nil =>
      cases hreplay
      exact h
  | cons a moves ih =>
      rw [List.foldlM_cons, Option.bind_eq_bind, Option.bind_eq_some_iff] at hreplay
      rcases hreplay with ⟨next, hnext, hrest⟩
      exact ih (Reached.step h (hok a List.mem_cons_self s) hnext)
        (fun a ha => hok a (List.mem_cons_of_mem _ ha)) hrest

/-- From every state that is reached, moves of one kind that bring a number down lead to the end. -/
theorem exists_replay_of_measure {kind : A -> Prop} {finished : S -> Prop} (left : S -> Nat)
    (hok : forall a, kind a -> forall s, ok s a)
    (hmove : forall s, Reached step ok init s -> ¬ finished s ->
      exists a s', kind a ∧ step s a = some s' ∧ left s' < left s)
    {s : S} (h : Reached step ok init s) :
    exists moves s', (forall a, a ∈ moves -> kind a) ∧ Transition.replay step s moves = some s' ∧
      finished s' := by
  induction hn : left s using Nat.strongRecOn generalizing s with
  | _ n ih =>
      by_cases hfinished : finished s
      · exact ⟨[], s, fun a ha => absurd ha List.not_mem_nil, rfl, hfinished⟩
      · obtain ⟨a, next, hkind, hnext, hless⟩ := hmove s h hfinished
        rw [hn] at hless
        obtain ⟨moves, s', hmoves, hreplay, hend⟩ :=
          ih (left next) hless (Reached.step h (hok a hkind s) hnext) rfl
        refine ⟨a :: moves, s', List.forall_mem_cons.mpr ⟨hkind, hmoves⟩, ?_, hend⟩
        unfold Transition.replay at hreplay ⊢
        rw [List.foldlM_cons, hnext]
        exact hreplay

end Transition
end Foundation
end Ostia
