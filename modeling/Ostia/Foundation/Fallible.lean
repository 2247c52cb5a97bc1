import Mathlib.Data.List.Forall2

/-!
# Fallible computations over lists

A fallible map over a list succeeds exactly when it succeeds at every element,
and fails with the error of the first element at which it fails.
-/

namespace Ostia
namespace Foundation
namespace Fallible

universe u v

variable {E : Type u} {A B : Type v}

theorem ok_bind (a : A) (f : A -> Except E B) : (.ok a >>= f : Except E B) = f a := rfl

theorem eq_ok_of_toOption {x : Except E A} {a : A} (h : x.toOption = some a) : x = .ok a := by
  cases x with
  | error e => cases h
  | ok b => exact congrArg Except.ok (Option.some.inj h)

theorem mapError_ok {E' : Type u} (f : E -> E') (a : A) :
    (.ok a : Except E A).mapError f = .ok a := rfl

theorem eq_ok_of_mapError {E' : Type u} {f : E -> E'} {x : Except E A} {a : A}
    (h : x.mapError f = .ok a) : x = .ok a := by
  cases x with
  | error e => cases h
  | ok b => exact congrArg Except.ok (Except.ok.inj h)

theorem bind_eq_ok {x : Except E A} {f : A -> Except E B} {b : B} :
    (x >>= f) = .ok b <-> exists a, x = .ok a ∧ f a = .ok b := by
  cases x with
  | error e =>
      constructor
      · intro h
        cases h
      · rintro ⟨a, ha, _⟩
        cases ha
  | ok a =>
      constructor
      · intro h
        exact ⟨a, rfl, h⟩
      · rintro ⟨a', ha, h⟩
        injection ha with ha
        rw [ha]
        exact h

theorem bind_eq_error {x : Except E A} {f : A -> Except E B} {e : E} :
    (x >>= f) = .error e <-> x = .error e ∨ exists a, x = .ok a ∧ f a = .error e := by
  cases x with
  | error e' =>
      constructor
      · intro h
        injection h with h
        exact Or.inl (by rw [h])
      · rintro (h | ⟨a, ha, _⟩)
        · rw [h]
          rfl
        · cases ha
  | ok a =>
      constructor
      · intro h
        exact Or.inr ⟨a, rfl, h⟩
      · rintro (h | ⟨a', ha, h⟩)
        · cases h
        · injection ha with ha
          rw [ha]
          exact h

theorem mapM_eq_ok {f : A -> Except E B} {xs : List A} {ys : List B} :
    xs.mapM f = .ok ys <-> List.Forall₂ (fun x y => f x = .ok y) xs ys := by
  induction xs generalizing ys with
  | nil =>
      rw [List.mapM_nil, List.forall₂_nil_left_iff]
      constructor
      · intro h
        injection h with h
        exact h.symm
      · rintro rfl
        rfl
  | cons x rest ih =>
      rw [List.mapM_cons, bind_eq_ok]
      constructor
      · rintro ⟨y, hy, h⟩
        rcases bind_eq_ok.mp h with ⟨ys', hys', h'⟩
        injection h' with h'
        rw [← h']
        exact List.Forall₂.cons hy (ih.mp hys')
      · intro h
        cases h with
        | cons hy hrest =>
            exact ⟨_, hy, bind_eq_ok.mpr ⟨_, ih.mpr hrest, rfl⟩⟩

theorem mapM_congr {f g : A -> Except E B} {xs : List A}
    (h : forall x, x ∈ xs -> f x = g x) : xs.mapM f = xs.mapM g := by
  induction xs with
  | nil => rfl
  | cons x rest ih =>
      rw [List.mapM_cons, List.mapM_cons, h x List.mem_cons_self,
        ih (fun y hy => h y (List.mem_cons_of_mem x hy))]

theorem mapM_eq_map {f : A -> Except E B} {g : A -> B} {xs : List A} {ys : List B}
    (h : xs.mapM f = .ok ys) (hg : forall x, x ∈ xs -> f x = .ok (g x)) : ys = xs.map g := by
  rw [mapM_eq_ok] at h
  induction h with
  | nil => rfl
  | cons hy _ ih =>
      rw [hg _ List.mem_cons_self] at hy
      injection hy with hy
      rw [List.map_cons, ← hy, ih fun x hx => hg x (List.mem_cons_of_mem _ hx)]

/-- A map after a map that succeeds. -/
theorem mapM_bind {C : Type v} {f : A -> Except E B} {g : B -> Except E C} {xs : List A}
    {ys : List B} (h : xs.mapM f = .ok ys) : (xs.mapM fun x => f x >>= g) = ys.mapM g := by
  rw [mapM_eq_ok] at h
  induction h with
  | nil => rfl
  | cons hx _ ih =>
      rw [List.mapM_cons, List.mapM_cons, ih, hx]
      rfl

theorem forall₂_mem_left {R : A -> B -> Prop} {xs : List A} {ys : List B}
    (h : List.Forall₂ R xs ys) {x : A} (hx : x ∈ xs) :
    exists y, y ∈ ys ∧ R x y := by
  induction h with
  | nil =>
      cases hx
  | cons hR _ ih =>
      rcases List.mem_cons.mp hx with rfl | hx
      · exact ⟨_, List.mem_cons_self, hR⟩
      · rcases ih hx with ⟨y, hy, hxy⟩
        exact ⟨y, List.mem_cons_of_mem _ hy, hxy⟩

theorem forall₂_mem_right {R : A -> B -> Prop} {xs : List A} {ys : List B}
    (h : List.Forall₂ R xs ys) {y : B} (hy : y ∈ ys) :
    exists x, x ∈ xs ∧ R x y := by
  rcases forall₂_mem_left h.flip hy with ⟨x, hx, hxy⟩
  exact ⟨x, hx, hxy⟩

theorem exists_mapM_eq_ok {f : A -> Except E B} {xs : List A}
    (h : forall x, x ∈ xs -> exists y, f x = .ok y) :
    exists ys, xs.mapM f = .ok ys := by
  induction xs with
  | nil => exact ⟨[], rfl⟩
  | cons x rest ih =>
      rcases h x List.mem_cons_self with ⟨y, hy⟩
      rcases ih (fun x' hx' => h x' (List.mem_cons_of_mem x hx')) with ⟨ys, hys⟩
      refine ⟨y :: ys, ?_⟩
      rw [mapM_eq_ok] at hys ⊢
      exact List.Forall₂.cons hy hys

/-- A fallible fold succeeds when every step does, from whatever state. -/
theorem exists_foldlM_eq_ok {S : Type} {f : S -> A -> Except E S} {xs : List A}
    (h : forall x, x ∈ xs -> forall s, exists s', f s x = .ok s') (s : S) :
    exists s', xs.foldlM f s = .ok s' := by
  induction xs generalizing s with
  | nil => exact ⟨s, rfl⟩
  | cons x rest ih =>
      rcases h x List.mem_cons_self s with ⟨s', hs'⟩
      rw [List.foldlM_cons, hs']
      exact ih (fun y hy => h y (List.mem_cons_of_mem x hy)) s'

/-- What every step of a fallible fold keeps holds of its result. -/
theorem foldlM_rule {S : Type} {P : S -> Prop} {f : S -> A -> Except E S} {xs : List A}
    (hstep : forall s x s', x ∈ xs -> P s -> f s x = .ok s' -> P s') {s s' : S}
    (hs : P s) (h : xs.foldlM f s = .ok s') : P s' := by
  induction xs generalizing s with
  | nil =>
      injection h with h
      rw [← h]
      exact hs
  | cons x rest ih =>
      rw [List.foldlM_cons] at h
      rcases bind_eq_ok.mp h with ⟨t, ht, h⟩
      exact ih (fun s y s' hy => hstep s y s' (List.mem_cons_of_mem x hy))
        (hstep s x t List.mem_cons_self hs ht) h

/-- What every step of a fallible fold keeps of the elements done holds of all of them. -/
theorem foldlM_prefix {S : Type} {P : List A -> S -> Prop} {f : S -> A -> Except E S}
    {xs done : List A}
    (hstep : forall done s x s', P done s -> f s x = .ok s' -> P (done ++ [x]) s') {s s' : S}
    (hs : P done s) (h : xs.foldlM f s = .ok s') : P (done ++ xs) s' := by
  induction xs generalizing done s with
  | nil =>
      injection h with h
      rw [← h, List.append_nil]
      exact hs
  | cons x rest ih =>
      rw [List.foldlM_cons] at h
      obtain ⟨t, ht, h⟩ := bind_eq_ok.mp h
      have hrest := ih (hstep done s x t hs ht) h
      rwa [List.append_assoc, List.singleton_append] at hrest

/-- The error of a fallible map is the error at one of the elements. -/
theorem exists_of_mapM_eq_error {f : A -> Except E B} {xs : List A} {e : E}
    (h : xs.mapM f = .error e) : exists x, x ∈ xs ∧ f x = .error e := by
  induction xs with
  | nil =>
      cases h
  | cons x rest ih =>
      rw [List.mapM_cons] at h
      cases hx : f x with
      | error e' =>
          rw [hx] at h
          injection h with h
          exact ⟨x, List.mem_cons_self, h ▸ hx⟩
      | ok y =>
          rw [hx] at h
          cases hrest : rest.mapM f with
          | error e' =>
              have h' : (Except.error e' : Except E (List B)) = .error e := by
                simpa [hrest, bind, Except.bind, pure, Except.pure] using h
              injection h' with h'
              rcases ih (h' ▸ hrest) with ⟨x', hx', hfx'⟩
              exact ⟨x', List.mem_cons_of_mem x hx', hfx'⟩
          | ok ys =>
              simp [hrest, bind, Except.bind, pure, Except.pure] at h

end Fallible
end Foundation
end Ostia
