import Mathlib.Data.List.Basic
import Mathlib.Order.Defs.Unbundled

/-!
# Computations with a state and exceptions

A computation changes a state step by step and returns a value or throws an exception.
It keeps the states that it passed through, so that a statement can be about every moment
of a run and not only about its end.
-/

namespace Ostia
namespace Foundation

universe u v w

/-- What a computation ended with, its last state and the states after each of its steps. -/
structure Outcome (S : Type u) (E : Type v) (A : Type w) where
  result : Except E A
  state : S
  visited : List S

def Effect (S : Type u) (E : Type v) (A : Type w) := S -> Outcome S E A

namespace Effect

variable {S : Type u} {E : Type v} {A B : Type w}

def pure (a : A) : Effect S E A := fun s => ⟨.ok a, s, []⟩

def bind (m : Effect S E A) (f : A -> Effect S E B) : Effect S E B := fun s =>
  let o := m s
  match o.result with
  | .ok a =>
      let o' := f a o.state
      ⟨o'.result, o'.state, o.visited ++ o'.visited⟩
  | .error e => ⟨.error e, o.state, o.visited⟩

instance : Monad (Effect S E) where
  pure := pure
  bind := bind

def throw (e : E) : Effect S E A := fun s => ⟨.error e, s, []⟩

/-- Handle an exception; the state at the throw stays. -/
def handle (m : Effect S E A) (handler : E -> Effect S E A) : Effect S E A := fun s =>
  let o := m s
  match o.result with
  | .ok a => ⟨.ok a, o.state, o.visited⟩
  | .error e =>
      let o' := handler e o.state
      ⟨o'.result, o'.state, o.visited ++ o'.visited⟩

def get : Effect S E S := fun s => ⟨.ok s, s, []⟩

/-- One step: the new state is visited. -/
def modify (f : S -> S) : Effect S E PUnit := fun s => ⟨.ok ⟨⟩, f s, [f s]⟩

/-- Throw when a condition holds. -/
def throwIf (c : Bool) (e : E) : Effect S E PUnit := if c then throw e else pure ⟨⟩

/-- A result that was computed elsewhere. -/
def ofExcept (r : Except E A) : Effect S E A := fun s => ⟨r, s, []⟩

/-- Change the state at the end of a computation, however it ends. -/
def ensure (m : Effect S E A) (f : S -> S) : Effect S E A := fun s =>
  let o := m s
  ⟨o.result, f o.state, o.visited ++ [f o.state]⟩

/-- Run a second computation however the first ends; what the second throws comes first. -/
def finallyDo (m : Effect S E A) (f : Effect S E PUnit) : Effect S E A := fun s =>
  let o := m s
  let o' := f o.state
  match o'.result with
  | .ok _ => ⟨o.result, o'.state, o.visited ++ o'.visited⟩
  | .error e => ⟨.error e, o'.state, o.visited ++ o'.visited⟩

/-- Run a computation for each element, in order. -/
def each {X : Type*} (f : X -> Effect S E PUnit) : List X -> Effect S E PUnit
  | [] => pure ⟨⟩
  | x :: rest => f x >>= fun _ => each f rest

section Steps

variable {m : Effect S E A} {s : S}

theorem bind_of_ok (f : A -> Effect S E B) {a : A} (h : (m s).result = .ok a) :
    (m >>= f) s = ⟨(f a (m s).state).result, (f a (m s).state).state,
      (m s).visited ++ (f a (m s).state).visited⟩ := by
  change m.bind f s = _
  unfold Effect.bind
  dsimp only
  rw [h]

theorem bind_of_error (f : A -> Effect S E B) {e : E} (h : (m s).result = .error e) :
    (m >>= f) s = ⟨.error e, (m s).state, (m s).visited⟩ := by
  change m.bind f s = _
  unfold Effect.bind
  dsimp only
  rw [h]

theorem handle_of_ok (handler : E -> Effect S E A) {a : A} (h : (m s).result = .ok a) :
    m.handle handler s = ⟨.ok a, (m s).state, (m s).visited⟩ := by
  unfold handle
  dsimp only
  rw [h]

theorem handle_of_error (handler : E -> Effect S E A) {e : E} (h : (m s).result = .error e) :
    m.handle handler s = ⟨(handler e (m s).state).result, (handler e (m s).state).state,
      (m s).visited ++ (handler e (m s).state).visited⟩ := by
  unfold handle
  dsimp only
  rw [h]

/-- How a computation ends: its result and its last state. -/
def run (m : Effect S E A) (s : S) : Except E A × S := ((m s).result, (m s).state)

theorem run_bind_of_ok (f : A -> Effect S E B) {a : A} (h : (m s).result = .ok a) :
    run (m >>= f) s = run (f a) (m s).state := by
  unfold run
  rw [bind_of_ok f h]

/-- Sequencing after a part whose end is known. -/
theorem run_bind_of_run (f : A -> Effect S E B) {a : A} {s' : S} (h : run m s = (.ok a, s')) :
    run (m >>= f) s = run (f a) s' := by
  rw [run_bind_of_ok f (congrArg Prod.fst h), ← show (m s).state = s' from congrArg Prod.snd h]

theorem run_bind_of_error (f : A -> Effect S E B) {e : E} (h : (m s).result = .error e) :
    run (m >>= f) s = (.error e, (m s).state) := by
  unfold run
  rw [bind_of_error f h]

theorem run_handle_of_ok (handler : E -> Effect S E A) {a : A} (h : (m s).result = .ok a) :
    run (m.handle handler) s = (.ok a, (m s).state) := by
  unfold run
  rw [handle_of_ok handler h]

theorem run_handle_of_error (handler : E -> Effect S E A) {e : E}
    (h : (m s).result = .error e) :
    run (m.handle handler) s = run (handler e) (m s).state := by
  unfold run
  rw [handle_of_error handler h]

end Steps

/-- A loop over two lists is two loops. -/
theorem each_append {X : Type*} (f : X -> Effect S E PUnit) (xs ys : List X) (s : S) :
    each f (xs ++ ys) s = (each f xs >>= fun _ => each f ys) s := by
  induction xs generalizing s with
  | nil => rfl
  | cons x rest ih =>
      change (f x >>= fun _ => each f (rest ++ ys)) s =
        ((f x >>= fun _ => each f rest) >>= fun _ => each f ys) s
      cases hx : (f x s).result with
      | error e =>
          have hrest : ((f x >>= fun _ => each f rest) s).result = .error e := by
            rw [bind_of_error _ hx]
          rw [bind_of_error _ hx, bind_of_error _ hrest, bind_of_error _ hx]
      | ok u =>
          rw [bind_of_ok _ hx, ih]
          cases hrest : (each f rest (f x s).state).result with
          | error e =>
              have hboth : ((f x >>= fun _ => each f rest) s).result = .error e := by
                rw [bind_of_ok _ hx]
                exact hrest
              rw [bind_of_error _ hrest, bind_of_error _ hboth, bind_of_ok _ hx]
          | ok u' =>
              have hboth : ((f x >>= fun _ => each f rest) s).result = .ok u' := by
                rw [bind_of_ok _ hx]
                exact hrest
              rw [bind_of_ok _ hrest, bind_of_ok _ hboth, bind_of_ok _ hx, List.append_assoc]

/-!
## Pre- and postconditions
-/

/--
From a state with P, every visited state has I, a normal end has Q and an end with an
exception has R.
-/
def Holds (m : Effect S E A) (P I : S -> Prop) (Q : A -> S -> Prop) (R : E -> S -> Prop) :
    Prop :=
  forall s, P s -> (forall v, v ∈ (m s).visited -> I v) ∧
    match (m s).result with
    | .ok a => Q a (m s).state
    | .error e => R e (m s).state

/-- Whatever the state, a value that is returned has a property. -/
def Yields (m : Effect S E A) (p : A -> Prop) : Prop :=
  forall s a, (m s).result = .ok a -> p a

theorem yields_pure {p : A -> Prop} {a : A} (h : p a) :
    Yields (Pure.pure a : Effect S E A) p := by
  intro s b hb
  cases hb
  exact h

theorem Yields.bind {m : Effect S E A} {f : A -> Effect S E B} {p : A -> Prop}
    {q : B -> Prop} (hm : m.Yields p) (h : forall a, p a -> (f a).Yields q) :
    Yields (m >>= f) q := by
  intro s b hb
  cases hresult : (m s).result with
  | ok a =>
      rw [bind_of_ok f hresult] at hb
      exact h a (hm s a hresult) _ b hb
  | error e =>
      rw [bind_of_error f hresult] at hb
      cases hb

section Rules

variable {P P' I I' : S -> Prop} {Q Q' : A -> S -> Prop} {R R' : E -> S -> Prop}

theorem Holds.weaken {m : Effect S E A} (h : m.Holds P I Q R) (hP : forall s, P' s -> P s)
    (hI : forall s, I s -> I' s) (hQ : forall a s, Q a s -> Q' a s)
    (hR : forall e s, R e s -> R' e s) : m.Holds P' I' Q' R' := by
  intro s hs
  rcases h s (hP s hs) with ⟨hvisited, hend⟩
  refine ⟨fun v hv => hI v (hvisited v hv), ?_⟩
  cases hresult : (m s).result with
  | ok a =>
      rw [hresult] at hend
      exact hQ a _ hend
  | error e =>
      rw [hresult] at hend
      exact hR e _ hend

/-- Two properties of one computation hold together. -/
theorem Holds.and {m : Effect S E A} (h : m.Holds P I Q R) (h' : m.Holds P' I' Q' R') :
    m.Holds (fun s => P s ∧ P' s) (fun s => I s ∧ I' s) (fun a s => Q a s ∧ Q' a s)
      (fun e s => R e s ∧ R' e s) := by
  intro s hs
  rcases h s hs.1 with ⟨hvisited, hend⟩
  rcases h' s hs.2 with ⟨hvisited', hend'⟩
  refine ⟨fun v hv => ⟨hvisited v hv, hvisited' v hv⟩, ?_⟩
  cases hresult : (m s).result with
  | ok a =>
      rw [hresult] at hend hend'
      exact ⟨hend, hend'⟩
  | error e =>
      rw [hresult] at hend hend'
      exact ⟨hend, hend'⟩

/-- A computation from one state ends in its last state. -/
theorem Holds.ends_at {m : Effect S E A} {s : S} (h : m.Holds (· = s) I Q R) :
    m.Holds (· = s) I (fun a b => Q a b ∧ b = (m s).state)
      (fun e b => R e b ∧ b = (m s).state) := by
  rintro b rfl
  rcases h b rfl with ⟨hvisited, hend⟩
  refine ⟨hvisited, ?_⟩
  cases hresult : (m b).result with
  | ok a =>
      rw [hresult] at hend
      exact ⟨hend, rfl⟩
  | error e =>
      rw [hresult] at hend
      exact ⟨hend, rfl⟩

theorem Holds.of_pre {m : Effect S E A} (h : forall s, P s -> m.Holds (· = s) I Q R) :
    m.Holds P I Q R := fun s hs => h s hs s rfl

theorem holds_pure {a : A} (h : forall s, P s -> Q a s) :
    Holds (Pure.pure a : Effect S E A) P I Q R := by
  intro s hs
  refine ⟨?_, h s hs⟩
  intro v hv
  cases hv

theorem holds_throw {e : E} (h : forall s, P s -> R e s) :
    (throw e : Effect S E A).Holds P I Q R := by
  intro s hs
  refine ⟨?_, h s hs⟩
  intro v hv
  cases hv

theorem holds_get {Q : S -> S -> Prop} (h : forall s, P s -> Q s s) :
    (get : Effect S E S).Holds P I Q R := by
  intro s hs
  refine ⟨?_, h s hs⟩
  intro v hv
  cases hv

theorem holds_modify {f : S -> S} {Q : PUnit -> S -> Prop} (hI : forall s, P s -> I (f s))
    (hQ : forall s, P s -> Q ⟨⟩ (f s)) : (modify f : Effect S E PUnit).Holds P I Q R := by
  intro s hs
  refine ⟨?_, hQ s hs⟩
  intro v hv
  rw [List.mem_singleton.mp hv]
  exact hI s hs

theorem holds_throwIf {c : Bool} {e : E} {Q : PUnit -> S -> Prop}
    (hok : forall s, c = false -> P s -> Q ⟨⟩ s) (herror : forall s, c = true -> P s -> R e s) :
    (throwIf c e : Effect S E PUnit).Holds P I Q R := by
  unfold throwIf
  cases c with
  | true => exact holds_throw (fun s hs => herror s rfl hs)
  | false => exact holds_pure (fun s hs => hok s rfl hs)

theorem holds_ofExcept {r : Except E A} (hok : forall a s, r = .ok a -> P s -> Q a s)
    (herror : forall e s, r = .error e -> P s -> R e s) :
    (ofExcept r : Effect S E A).Holds P I Q R := by
  intro s hs
  refine ⟨?_, ?_⟩
  · intro v hv
    cases hv
  · unfold ofExcept
    cases r with
    | ok a => exact hok a s rfl hs
    | error e => exact herror e s rfl hs

/-- Sequencing when the first part returns only some values. -/
theorem Holds.bind_of_yields {m : Effect S E A} {f : A -> Effect S E B} {Q' : B -> S -> Prop}
    {p : A -> Prop} (hm : m.Holds P I Q R) (hp : m.Yields p)
    (hf : forall a, p a -> (f a).Holds (Q a) I Q' R) : Holds (m >>= f) P I Q' R := by
  intro s hs
  rcases hm s hs with ⟨hvisited, hend⟩
  cases hresult : (m s).result with
  | ok a =>
      rw [hresult] at hend
      rcases hf a (hp s a hresult) _ hend with ⟨hvisited', hend'⟩
      rw [bind_of_ok f hresult]
      refine ⟨?_, hend'⟩
      intro v hv
      rcases List.mem_append.mp hv with hv | hv
      · exact hvisited v hv
      · exact hvisited' v hv
  | error e =>
      rw [hresult] at hend
      rw [bind_of_error f hresult]
      exact ⟨hvisited, hend⟩

/-- Sequencing: the first part ends where the second begins. -/
theorem Holds.bind {m : Effect S E A} {f : A -> Effect S E B} {Q' : B -> S -> Prop}
    (hm : m.Holds P I Q R) (hf : forall a, (f a).Holds (Q a) I Q' R) :
    Holds (m >>= f) P I Q' R :=
  hm.bind_of_yields (p := fun _ => True) (fun _ _ _ => trivial) (fun a _ => hf a)

/-- A computation that never throws returns. -/
theorem Holds.returns {m : Effect S E A} (h : m.Holds P I Q (fun _ _ => False)) {s : S}
    (hs : P s) : exists a, (m s).result = .ok a ∧ Q a (m s).state := by
  have hend := (h s hs).2
  cases hresult : (m s).result with
  | ok a =>
      rw [hresult] at hend
      exact ⟨a, rfl, hend⟩
  | error e =>
      rw [hresult] at hend
      cases hend

/-- A check that can throw: what follows begins where the check did. -/
theorem holds_throwIf_bind {c : Bool} {e : E} {f : PUnit -> Effect S E A}
    (herror : forall s, c = true -> P s -> R e s)
    (hf : c = false -> (f ⟨⟩).Holds P I Q R) : Holds (throwIf c e >>= f) P I Q R := by
  cases c with
  | true =>
      have hthrow : (throwIf true e : Effect S E PUnit).Holds P I (fun _ _ => False) R :=
        holds_throw (fun s hs => herror s rfl hs)
      refine hthrow.bind ?_
      intro _ s hs
      cases hs
  | false => exact hf rfl

/-- A result from elsewhere: what follows knows it. -/
theorem holds_ofExcept_bind {r : Except E A} {f : A -> Effect S E B} {Q : B -> S -> Prop}
    (herror : forall e s, r = .error e -> P s -> R e s)
    (hf : forall a, r = .ok a -> (f a).Holds P I Q R) : Holds (ofExcept r >>= f) P I Q R := by
  cases r with
  | ok a => exact hf a rfl
  | error e =>
      have hthrow : (ofExcept (.error e) : Effect S E A).Holds P I (fun _ _ => False) R :=
        holds_throw (fun s hs => herror e s rfl hs)
      refine hthrow.bind ?_
      intro _ s hs
      cases hs

/-- Reading the state: what follows begins in the state that was read. -/
theorem holds_get_bind {S A : Type u} {f : S -> Effect S E A} {P I : S -> Prop}
    {Q : A -> S -> Prop} {R : E -> S -> Prop}
    (h : forall s, P s -> (f s).Holds (· = s) I Q R) : Holds (get >>= f) P I Q R :=
  fun s hs => h s hs s rfl

/-- Handling: what held at the throw holds where the handler begins. -/
theorem Holds.handle {m : Effect S E A} {handler : E -> Effect S E A}
    {T : E -> S -> Prop} (hm : m.Holds P I Q R)
    (hhandler : forall e, (handler e).Holds (R e) I Q T) :
    (m.handle handler).Holds P I Q T := by
  intro s hs
  rcases hm s hs with ⟨hvisited, hend⟩
  cases hresult : (m s).result with
  | ok a =>
      rw [hresult] at hend
      rw [handle_of_ok handler hresult]
      exact ⟨hvisited, hend⟩
  | error e =>
      rw [hresult] at hend
      rcases hhandler e _ hend with ⟨hvisited', hend'⟩
      rw [handle_of_error handler hresult]
      refine ⟨?_, hend'⟩
      intro v hv
      rcases List.mem_append.mp hv with hv | hv
      · exact hvisited v hv
      · exact hvisited' v hv

theorem Holds.ensure {m : Effect S E A} {f : S -> S} (hm : m.Holds P I Q R)
    (hok : forall a s, Q a s -> I (f s) ∧ Q' a (f s))
    (herror : forall e s, R e s -> I (f s) ∧ R' e (f s)) : (m.ensure f).Holds P I Q' R' := by
  intro s hs
  rcases hm s hs with ⟨hvisited, hend⟩
  have hlast : I (f (m s).state) ∧ match (m s).result with
      | .ok a => Q' a (f (m s).state)
      | .error e => R' e (f (m s).state) := by
    cases hresult : (m s).result with
    | ok a =>
        rw [hresult] at hend
        exact hok a _ hend
    | error e =>
        rw [hresult] at hend
        exact herror e _ hend
  refine ⟨?_, hlast.2⟩
  intro v hv
  rcases List.mem_append.mp hv with hv | hv
  · exact hvisited v hv
  · rw [List.mem_singleton.mp hv]
    exact hlast.1

theorem Holds.finallyDo {m : Effect S E A} {f : Effect S E PUnit} (hm : m.Holds P I Q R)
    (hok : forall a, f.Holds (Q a) I (fun _ => Q' a) R')
    (herror : forall e, f.Holds (R e) I (fun _ => R' e) R') : (m.finallyDo f).Holds P I Q' R' := by
  intro s hs
  rcases hm s hs with ⟨hvisited, hend⟩
  have hall : (forall v, v ∈ (f (m s).state).visited -> I v) ->
      forall v, v ∈ (m s).visited ++ (f (m s).state).visited -> I v := by
    intro hsecond v hv
    rcases List.mem_append.mp hv with hv | hv
    · exact hvisited v hv
    · exact hsecond v hv
  unfold Effect.finallyDo
  dsimp only
  cases hfirst : (m s).result with
  | ok a =>
      rw [hfirst] at hend
      rcases hok a _ hend with ⟨hsecond, hend'⟩
      cases hresult : (f (m s).state).result <;> rw [hresult] at hend' <;>
        exact ⟨hall hsecond, hend'⟩
  | error e =>
      rw [hfirst] at hend
      rcases herror e _ hend with ⟨hsecond, hend'⟩
      cases hresult : (f (m s).state).result <;> rw [hresult] at hend' <;>
        exact ⟨hall hsecond, hend'⟩

/-- A loop whose elements each keep an invariant of the elements done so far. -/
theorem holds_each {X : Type*} {f : X -> Effect S E PUnit} {J : List X -> S -> Prop}
    (xs : List X)
    (hf : forall done x, x ∈ xs ->
      (f x).Holds (J done) I (fun _ => J (done ++ [x])) R) (done : List X) :
    (each f xs).Holds (J done) I (fun _ => J (done ++ xs)) R := by
  induction xs generalizing done with
  | nil =>
      apply holds_pure
      intro s hs
      rw [List.append_nil]
      exact hs
  | cons x rest ih =>
      have hfirst := hf done x List.mem_cons_self
      have hrest := ih (fun done y hy => hf done y (List.mem_cons_of_mem x hy)) (done ++ [x])
      apply hfirst.bind
      intro _
      rw [List.append_assoc] at hrest
      exact hrest

end Rules

/-!
## Invariants
-/

/-- A property that holds at the start holds at every moment and at the end. -/
def Keeps (m : Effect S E A) (J : S -> Prop) : Prop := m.Holds J J (fun _ => J) (fun _ => J)

section Keeps

variable {J : S -> Prop}

theorem keeps_pure (a : A) : Keeps (Pure.pure a : Effect S E A) J := holds_pure (fun _ hs => hs)

theorem keeps_throw (e : E) : Keeps (throw e : Effect S E A) J := holds_throw (fun _ hs => hs)

theorem keeps_modify {f : S -> S} (h : forall s, J s -> J (f s)) :
    Keeps (modify f : Effect S E PUnit) J := holds_modify h h

theorem Keeps.bind_of_yields {m : Effect S E A} {f : A -> Effect S E B} {p : A -> Prop}
    (hm : m.Keeps J) (hp : m.Yields p) (hf : forall a, p a -> (f a).Keeps J) :
    Keeps (m >>= f) J := Holds.bind_of_yields hm hp hf

theorem Keeps.bind {m : Effect S E A} {f : A -> Effect S E B} (hm : m.Keeps J)
    (hf : forall a, (f a).Keeps J) : Keeps (m >>= f) J := Holds.bind hm hf

theorem keeps_get_bind {S A : Type u} {f : S -> Effect S E A} {J : S -> Prop}
    (h : forall s, J s -> (f s).Keeps J) : Keeps (get >>= f) J := by
  apply holds_get_bind
  intro s hs
  refine (h s hs).weaken ?_ (fun _ hb => hb) (fun _ _ hb => hb) (fun _ _ hb => hb)
  rintro b rfl
  exact hs

theorem keeps_ofExcept_bind {r : Except E A} {f : A -> Effect S E B}
    (hf : forall a, r = .ok a -> (f a).Keeps J) : Keeps (ofExcept r >>= f) J :=
  holds_ofExcept_bind (fun _ _ _ hs => hs) hf

theorem Keeps.each {X : Type*} {f : X -> Effect S E PUnit} (xs : List X)
    (h : forall x, x ∈ xs -> (f x).Keeps J) : (each f xs).Keeps J :=
  holds_each (J := fun _ => J) xs (fun _ x hx => h x hx) []

/-- Whether it returns or throws, a computation ends with its invariant. -/
theorem Keeps.state {m : Effect S E A} (h : m.Keeps J) {s : S} (hs : J s) : J (m s).state := by
  have hend := (h s hs).2
  cases hresult : (m s).result with
  | ok a =>
      rw [hresult] at hend
      exact hend
  | error e =>
      rw [hresult] at hend
      exact hend

theorem Keeps.state_bind {m : Effect S E A} {f : A -> Effect S E B} {s : S}
    (hm : J (m s).state) (hf : forall a, (f a).Keeps J) : J ((m >>= f) s).state := by
  cases hresult : (m s).result with
  | ok a =>
      rw [bind_of_ok f hresult]
      exact (hf a).state hm
  | error e =>
      rw [bind_of_error f hresult]
      exact hm

theorem Keeps.state_handle {m : Effect S E A} {handler : E -> Effect S E A} {s : S}
    (hm : J (m s).state) (hhandler : forall e, (handler e).Keeps J) :
    J ((m.handle handler) s).state := by
  cases hresult : (m s).result with
  | ok a =>
      rw [handle_of_ok handler hresult]
      exact hm
  | error e =>
      rw [handle_of_error handler hresult]
      exact (hhandler e).state hm

end Keeps

/-!
## Relations between the first state and the later ones
-/

/-- Every state on the way and the last one are related to the first. -/
def Follows (m : Effect S E A) (T : S -> S -> Prop) : Prop :=
  forall s, (forall v, v ∈ (m s).visited -> T s v) ∧ T s (m s).state

section Follows

variable {T : S -> S -> Prop}

theorem follows_modify {f : S -> S} (h : forall s, T s (f s)) :
    (modify f : Effect S E PUnit).Follows T := by
  intro s
  refine ⟨?_, h s⟩
  intro v hv
  rw [List.mem_singleton.mp hv]
  exact h s

theorem follows_ite {c : Prop} [Decidable c] {m m' : Effect S E A} (h : m.Follows T)
    (h' : m'.Follows T) : Follows (if c then m else m') T := by
  split_ifs
  · exact h
  · exact h'

variable [IsPreorder S T]

theorem follows_pure (a : A) : Follows (Pure.pure a : Effect S E A) T := by
  intro s
  refine ⟨?_, refl_of T s⟩
  intro v hv
  cases hv

theorem follows_throw (e : E) : Follows (throw e : Effect S E A) T := by
  intro s
  refine ⟨?_, refl_of T s⟩
  intro v hv
  cases hv

theorem follows_get : Follows (get : Effect S E S) T := by
  intro s
  refine ⟨?_, refl_of T s⟩
  intro v hv
  cases hv

theorem follows_ofExcept (r : Except E A) : Follows (ofExcept r : Effect S E A) T := by
  intro s
  refine ⟨?_, refl_of T s⟩
  intro v hv
  cases hv

theorem follows_throwIf (c : Bool) (e : E) : Follows (throwIf c e : Effect S E PUnit) T := by
  cases c with
  | true => exact follows_throw e
  | false => exact follows_pure _

theorem Follows.bind {m : Effect S E A} {f : A -> Effect S E B} (hm : m.Follows T)
    (hf : forall a, (f a).Follows T) : Follows (m >>= f) T := by
  intro s
  rcases hm s with ⟨hvisited, hend⟩
  cases hresult : (m s).result with
  | ok a =>
      rcases hf a (m s).state with ⟨hvisited', hend'⟩
      rw [bind_of_ok f hresult]
      refine ⟨?_, trans_of T hend hend'⟩
      intro v hv
      rcases List.mem_append.mp hv with hv | hv
      · exact hvisited v hv
      · exact trans_of T hend (hvisited' v hv)
  | error e =>
      rw [bind_of_error f hresult]
      exact ⟨hvisited, hend⟩

theorem Follows.each {X : Type*} {f : X -> Effect S E PUnit} (h : forall x, (f x).Follows T)
    (xs : List X) : (each f xs).Follows T := by
  induction xs with
  | nil => exact follows_pure _
  | cons x rest ih => exact (h x).bind (fun _ => ih)

theorem Follows.holds {m : Effect S E A} (h : m.Follows T) (s : S) :
    m.Holds (T s) (T s) (fun _ => T s) (fun _ => T s) := by
  intro b hb
  rcases h b with ⟨hvisited, hend⟩
  refine ⟨fun v hv => trans_of T hb (hvisited v hv), ?_⟩
  cases (m b).result with
  | ok a => exact trans_of T hb hend
  | error e => exact trans_of T hb hend

end Follows

end Effect
end Foundation
end Ostia
