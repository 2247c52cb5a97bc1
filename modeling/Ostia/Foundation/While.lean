import Mathlib.Order.Basic

/-!
# While loops

A loop repeats its body as long as its guard holds.  The body may leave the loop, and it may
fail.  A loop is run with a bound on its turns, and a run that needs more turns fails too.
-/

namespace Ostia
namespace Foundation
namespace While

variable {S : Type}

/-- What one turn of a loop ends with. -/
inductive Turn (S : Type) where
  | again (s : S)
  | leave (s : S)

/-- The state after the loop, if it ends within a number of turns. -/
def run (guard : S -> Bool) (body : S -> Option (Turn S)) : Nat -> S -> Option S
  | 0, s => if guard s then none else some s
  | fuel + 1, s =>
      if guard s then
        match body s with
        | none => none
        | some (.leave s') => some s'
        | some (.again s') => run guard body fuel s'
      else some s

variable {guard : S -> Bool} {body : S -> Option (Turn S)}

/-- A turn leaves the loop in a good state, or keeps the invariant and comes closer to the end. -/
def Turns (inv post : S -> Prop) (variant : S -> Nat) (s : S) (turn : Option (Turn S)) : Prop :=
  (exists s', turn = some (.leave s') ∧ post s' ∧ 0 < variant s) ∨
    exists s', turn = some (.again s') ∧ inv s' ∧ variant s' < variant s

/-- A loop with an invariant and a variant ends, and fails nowhere. -/
theorem run_total {inv post : S -> Prop} {variant : S -> Nat}
    (hend : forall s, inv s -> guard s = false -> post s)
    (hbody : forall s, inv s -> guard s = true -> Turns inv post variant s (body s)) :
    forall fuel s, inv s -> variant s ≤ fuel ->
      exists s', run guard body fuel s = some s' ∧ post s' := by
  intro fuel
  induction fuel with
  | zero =>
      intro s hs hfuel
      cases hguard : guard s with
      | false =>
          exists s
          rw [run, hguard]
          exact ⟨rfl, hend s hs hguard⟩
      | true =>
          cases hbody s hs hguard with
          | inl hleave =>
              obtain ⟨_, _, _, hpos⟩ := hleave
              omega
          | inr hagain =>
              obtain ⟨s', _, _, hless⟩ := hagain
              omega
  | succ fuel ih =>
      intro s hs hfuel
      cases hguard : guard s with
      | false =>
          exists s
          rw [run, hguard]
          exact ⟨rfl, hend s hs hguard⟩
      | true =>
          rw [run, hguard, if_pos rfl]
          cases hbody s hs hguard with
          | inl hleave =>
              obtain ⟨s', hturn, hpost, _⟩ := hleave
              rw [hturn]
              exact ⟨s', rfl, hpost⟩
          | inr hagain =>
              obtain ⟨s', hturn, hinv, hless⟩ := hagain
              rw [hturn]
              exact ih s' hinv (by omega)

/-- More turns, and a body that fails less often, do not change where a loop ends. -/
theorem run_mono {body' : S -> Option (Turn S)}
    (hbody : forall s turn, body s = some turn -> body' s = some turn) :
    forall {fuel fuel' : Nat} {s s' : S}, fuel ≤ fuel' -> run guard body fuel s = some s' ->
      run guard body' fuel' s = some s' := by
  intro fuel
  induction fuel with
  | zero =>
      intro fuel' s s' _ h
      rw [run] at h
      cases hguard : guard s with
      | true =>
          rw [hguard] at h
          cases h
      | false =>
          rw [hguard] at h
          cases fuel' with
          | zero => rwa [run, hguard]
          | succ fuel' => rwa [run, hguard]
  | succ fuel ih =>
      intro fuel' s s' hfuel h
      obtain ⟨more, rfl⟩ := Nat.exists_eq_succ_of_ne_zero (show fuel' ≠ 0 by omega)
      rw [run] at h
      rw [Nat.succ_eq_add_one, run]
      cases hguard : guard s with
      | false =>
          rw [hguard] at h
          exact h
      | true =>
          rw [hguard, if_pos rfl] at h
          rw [if_pos rfl]
          cases hturn : body s with
          | none =>
              rw [hturn] at h
              cases h
          | some turn =>
              rw [hturn] at h
              rw [hbody s turn hturn]
              cases turn with
              | leave next => exact h
              | again next => exact ih (by omega) h

end While
end Foundation
end Ostia
