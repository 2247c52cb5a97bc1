import Mathlib.Order.Defs.Unbundled

/-!
# Steps that only add

A step that only adds leads from a state to a later one.  What later states keep holds at the end
of a fold when one of its steps establishes it.
-/

namespace Ostia
namespace Foundation

universe u v

variable {S : Type u} {X : Type v}

/-- From every state a step leads to a later one. -/
def Grows (R : S -> S -> Prop) (f : S -> S) : Prop := forall s, R s (f s)

/-- Later states keep the property. -/
def Lasting (R : S -> S -> Prop) (P : S -> Prop) : Prop := forall s s', R s s' -> P s -> P s'

section Steps

variable {R : S -> S -> Prop} {P : S -> Prop}

/-- What a step establishes holds after the steps that follow it. -/
theorem Lasting.before {f g : S -> S} (hP : Lasting R P) (hg : Grows R g)
    (h : forall s, P (f s)) : forall s, P (g (f s)) := fun s => hP _ _ (hg (f s)) (h s)

variable [IsPreorder S R]

theorem grows_id : Grows R (fun s => s) := fun s => refl_of R s

theorem Grows.then {f g : S -> S} (hf : Grows R f) (hg : Grows R g) : Grows R (fun s => g (f s)) :=
  fun s => trans_of R (hf s) (hg (f s))

theorem Grows.foldl {f : S -> X -> S} (hf : forall x, Grows R (fun s => f s x)) (xs : List X) :
    Grows R (fun s => xs.foldl f s) := by
  induction xs with
  | nil => exact grows_id
  | cons x rest ih => exact (hf x).then ih

/-- What the step of one element establishes holds after the fold. -/
theorem Lasting.foldl {f : S -> X -> S} (hP : Lasting R P)
    (hf : forall x, Grows R (fun s => f s x)) {xs : List X} {x : X} (hx : x ∈ xs)
    (h : forall s, P (f s x)) : forall s, P (xs.foldl f s) := by
  induction xs with
  | nil => cases hx
  | cons y rest ih =>
      intro s
      rw [List.foldl_cons]
      rcases List.mem_cons.mp hx with heq | hrest
      · rw [<- heq]
        exact hP.before (Grows.foldl hf rest) h s
      · exact ih hrest _

end Steps

end Foundation
end Ostia
