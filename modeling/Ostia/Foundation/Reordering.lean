import Mathlib.Data.List.Perm.Basic
import Ostia.Foundation.Fallible

/-!
# Reordered lists

Two lists that agree up to their order and up to a relation of their elements.
A computation over a list that does not depend on the order gives related
results on reordered lists.
-/

namespace Ostia
namespace Foundation

/-- The elements of one list are related to those of the other, in some order. -/
def Reordered {A B : Type*} (R : A -> B -> Prop) (xs : List A) (ys : List B) : Prop :=
  exists zs, List.Forall₂ R xs zs ∧ zs.Perm ys

namespace Reordered

variable {A B C D E S : Type} {R : A -> B -> Prop} {xs : List A} {ys : List B}

theorem of_perm {xs ys : List A} (h : xs.Perm ys) : Reordered Eq xs ys :=
  ⟨xs, List.forall₂_refl xs, h⟩

theorem perm {xs ys : List A} (h : Reordered Eq xs ys) : xs.Perm ys := by
  rcases h with ⟨zs, hzs, hperm⟩
  rw [List.forall₂_eq_eq_eq] at hzs
  rw [hzs]
  exact hperm

theorem exists_left (h : Reordered R xs ys) {y : B} (hy : y ∈ ys) :
    exists x, x ∈ xs ∧ R x y := by
  rcases h with ⟨zs, hzs, hperm⟩
  exact Fallible.forall₂_mem_right hzs (hperm.mem_iff.mpr hy)

theorem exists_right (h : Reordered R xs ys) {x : A} (hx : x ∈ xs) :
    exists y, y ∈ ys ∧ R x y := by
  rcases h with ⟨zs, hzs, hperm⟩
  rcases Fallible.forall₂_mem_left hzs hx with ⟨z, hz, hxz⟩
  exact ⟨z, hperm.mem_iff.mp hz, hxz⟩

theorem map_perm {f : A -> C} {f' : B -> C} (h : Reordered R xs ys)
    (hf : forall x y, R x y -> f x = f' y) : (xs.map f).Perm (ys.map f') := by
  rcases h with ⟨zs, hzs, hperm⟩
  have heq : xs.map f = zs.map f' := by
    clear hperm
    induction hzs with
    | nil => rfl
    | cons hxz _ ih => rw [List.map_cons, List.map_cons, hf _ _ hxz, ih]
  rw [heq]
  exact hperm.map f'

theorem flatMap_perm {f : A -> List C} {f' : B -> List C} (h : Reordered R xs ys)
    (hf : forall x y, R x y -> (f x).Perm (f' y)) :
    (xs.flatMap f).Perm (ys.flatMap f') := by
  rcases h with ⟨zs, hzs, hperm⟩
  have hfirst : (xs.flatMap f).Perm (zs.flatMap f') := by
    clear hperm
    induction hzs with
    | nil => exact List.Perm.refl []
    | cons hxz _ ih =>
        rw [List.flatMap_cons, List.flatMap_cons]
        exact (hf _ _ hxz).append ih
  exact hfirst.trans (hperm.flatMap_right f')

/-- A fallible map that succeeds on a list succeeds on a reordered one. -/
theorem mapM_ok {f : A -> Except E C} {f' : B -> Except E D} {Q : C -> D -> Prop}
    (h : Reordered R xs ys)
    (hf : forall x y, R x y -> forall c, f x = .ok c -> exists d, f' y = .ok d ∧ Q c d)
    {cs : List C} (hcs : xs.mapM f = .ok cs) :
    exists ds, ys.mapM f' = .ok ds ∧ Reordered Q cs ds := by
  rcases h with ⟨zs, hzs, hperm⟩
  rw [Fallible.mapM_eq_ok] at hcs
  have hfirst : exists es, List.Forall₂ (fun z e => f' z = .ok e) zs es ∧
      List.Forall₂ Q cs es := by
    clear hperm
    induction hzs generalizing cs with
    | nil =>
        cases hcs
        exact ⟨[], List.Forall₂.nil, List.Forall₂.nil⟩
    | cons hxz _ ih =>
        cases hcs with
        | cons hc hcs =>
            rcases hf _ _ hxz _ hc with ⟨e, he, hce⟩
            rcases ih hcs with ⟨es, hes, hces⟩
            exact ⟨e :: es, List.Forall₂.cons he hes, List.Forall₂.cons hce hces⟩
  rcases hfirst with ⟨es, hes, hces⟩
  rcases List.perm_comp_forall₂ hperm.symm hes with ⟨ds, hds, hpermds⟩
  exact ⟨ds, Fallible.mapM_eq_ok.mpr hds, es, hces, hpermds.symm⟩

theorem filterMap_id {Q : C -> D -> Prop} {cs : List (Option C)} {ds : List (Option D)}
    (h : Reordered (Option.Rel Q) cs ds) :
    Reordered Q (cs.filterMap id) (ds.filterMap id) := by
  rcases h with ⟨es, hes, hperm⟩
  refine ⟨es.filterMap id, ?_, hperm.filterMap id⟩
  clear hperm
  induction hes with
  | nil => exact List.Forall₂.nil
  | cons hce _ ih =>
      cases hce with
      | none => exact ih
      | some hce => exact List.Forall₂.cons hce ih

/-- A fold whose steps commute does not see the order. -/
theorem foldl_eq {R : A -> A -> Prop} {xs ys : List A} {f : S -> A -> S}
    (h : Reordered R xs ys) (hf : forall x y, R x y -> forall s, f s x = f s y)
    (hcomm : forall x, x ∈ ys -> forall y, y ∈ ys -> forall s,
      f (f s x) y = f (f s y) x) (s : S) : xs.foldl f s = ys.foldl f s := by
  rcases h with ⟨zs, hzs, hperm⟩
  have hfirst : forall s, xs.foldl f s = zs.foldl f s := by
    clear hperm hcomm
    induction hzs with
    | nil =>
        intro s
        rfl
    | cons hxz _ ih =>
        intro s
        rw [List.foldl_cons, List.foldl_cons, hf _ _ hxz, ih]
  rw [hfirst s]
  apply hperm.foldl_eq'
  intro x hx y hy s
  exact hcomm x (hperm.mem_iff.mp hx) y (hperm.mem_iff.mp hy) s

end Reordered

/-- Two folds whose steps commute may change places. -/
theorem foldl_foldl_comm {S X Y : Type*} {f : S -> X -> S} {g : S -> Y -> S}
    (h : forall s x y, g (f s x) y = f (g s y) x) (xs : List X) (ys : List Y) (s : S) :
    ys.foldl g (xs.foldl f s) = xs.foldl f (ys.foldl g s) := by
  have hone : forall (ys : List Y) s x, ys.foldl g (f s x) = f (ys.foldl g s) x := by
    intro ys
    induction ys with
    | nil =>
        intro s x
        rfl
    | cons y rest ih =>
        intro s x
        rw [List.foldl_cons, List.foldl_cons, h, ih]
  induction xs generalizing s with
  | nil => rfl
  | cons x rest ih => rw [List.foldl_cons, List.foldl_cons, ih, hone]

end Foundation
end Ostia
