import Ostia.Foundation.Transition
import Ostia.Topology.Identity.StabiliserChain

/-!
# The loop that closes the levels

The constructor's loop as a transition system, without a bound on its rounds.  A state is the
chain with the number of levels below which it is still to be closed, and an answer is what
closing a level returns: nothing when the level is complete, else the level to go back to.
-/

namespace Ostia
namespace Topology
namespace Identity

open Foundation

variable {n : Nat}

namespace StabiliserChain

/-- One round of the loop, with the answer it gets. -/
def round (st : StabiliserChain n × Nat) (answer : Option Nat) :
    Option (StabiliserChain n × Nat) :=
  match st.2 with
  | 0 => none
  | i + 1 =>
      let r := st.1.closeLevel i
      if r.2 = answer then some (r.1, answer.elim i (· + 1)) else none

def start (base : List (Fin n)) (gens : List (Perm n)) : StabiliserChain n × Nat :=
  (init base gens, (init base gens).base.length)

/-- The levels that a run goes back to. -/
def returns (answers : List (Option Nat)) : List Nat := answers.filterMap id

/-- No strong generator fixes the whole base. -/
def Moving (base : List (Fin n)) (strong : List (Perm n)) : Prop :=
  forall s, s ∈ strong -> exists b, b ∈ base ∧ s b ≠ b

/-- What a pass that is not closed adds: a strong generator that enlarges the orbit of the
level it goes back to, or brings a base point. -/
structure Grows (c c' : StabiliserChain n) (j : Nat) : Prop where
  strong : exists h, c'.strong = c.strong ++ [h]
  grows :
    (exists b, c.base[j]? = some b ∧ c'.base = c.base ∧
      reach b (c.stabiliserGenerators j) ⊂ reach b (c'.stabiliserGenerators j)) ∨
    (j = c.base.length ∧ exists x, x ∉ c.base ∧ c'.base = c.base ++ [x])

theorem round_eq_some_iff {c c' : StabiliserChain n} {i i' : Nat} {answer : Option Nat} :
    round (c, i) answer = some (c', i') <->
      exists level, i = level + 1 ∧ c.closeLevel level = (c', answer) ∧
        i' = answer.elim level (· + 1) := by
  cases i with
  | zero => simp [round]
  | succ level =>
      simp only [round]
      constructor
      · intro h
        split_ifs at h with heq
        cases h
        exact ⟨level, rfl, Prod.ext rfl heq, rfl⟩
      · intro h
        obtain ⟨level', hlevel, hclose, hnext⟩ := h
        cases hlevel
        rw [hclose, if_pos rfl, hnext]

/-!
## What a round adds
-/

theorem Residue.grows {c : StabiliserChain n} {j : Nat} {h : Perm n} (hres : c.Residue j h) :
    Grows c (c.addResidue j h) j := by
  refine ⟨⟨h, addResidue_strong c j h⟩, ?_⟩
  rcases addResidue_base hres with ⟨hj, hbase, _⟩ | ⟨hj, x, hx, hbase, _⟩
  · have hb : c.base[j]? = some c.base[j] := List.getElem?_eq_getElem hj
    exact Or.inl ⟨c.base[j], hb, hbase, reach_ssubset_addResidue hres hb⟩
  · refine Or.inr ⟨hj, x, ?_, hbase⟩
    intro hmem
    apply hx
    apply hres.fixes x
    rwa [hj, List.take_length]

theorem Moving.mono {base base' : List (Fin n)} {strong : List (Perm n)} (h : Moving base strong)
    (hbase : forall b, b ∈ base -> b ∈ base') : Moving base' strong := by
  intro s hs
  obtain ⟨b, hb, hmoved⟩ := h s hs
  exact ⟨b, hbase b hb, hmoved⟩

theorem Residue.moving {c : StabiliserChain n} {j : Nat} {h : Perm n} (hres : c.Residue j h)
    (hmoving : Moving c.base c.strong) :
    Moving (c.addResidue j h).base (c.addResidue j h).strong := by
  have hold : forall b, b ∈ c.base -> b ∈ (c.addResidue j h).base := by
    intro b hb
    rcases addResidue_base hres with ⟨_, hbase, _⟩ | ⟨_, x, _, hbase, _⟩
    · rwa [hbase]
    · rw [hbase]
      exact List.mem_append_left _ hb
  rw [addResidue_strong]
  intro s hs
  rcases List.mem_append.mp hs with hs | hs
  · exact hmoving.mono hold s hs
  · rw [List.mem_singleton] at hs
    subst hs
    rcases addResidue_base hres with ⟨hj, hbase, _⟩ | ⟨_, x, hx, hbase, _⟩
    · -- The residue leaves the orbit of the base point it stopped at.
      refine ⟨c.base[j], hold _ (List.getElem_mem hj), ?_⟩
      intro hfix
      have hleaves := hres.leaves c.base[j] (List.getElem?_eq_getElem hj)
      rw [hfix] at hleaves
      exact hleaves (self_mem_reach _ _)
    · refine ⟨x, ?_, hx⟩
      rw [hbase]
      exact List.mem_append_right _ (List.mem_singleton_self x)

theorem extendBase_moving (base : List (Fin n)) {gens : List (Perm n)}
    (hgens : forall s, s ∈ gens -> s ≠ 1) : Moving (extendBase base gens) gens := by
  -- Base points are only added, so a point that a generator moves stays.
  have hmem : forall (gens : List (Perm n)) (base : List (Fin n)) b, b ∈ base ->
      b ∈ extendBase base gens := by
    intro gens
    induction gens with
    | nil => exact fun base b hb => hb
    | cons s rest ih =>
        intro base b hb
        apply ih
        beta_reduce
        split
        · exact List.mem_append_left _ hb
        · exact hb
  induction gens generalizing base with
  | nil => exact fun s hs => (List.not_mem_nil hs).elim
  | cons s rest ih =>
      rw [List.forall_mem_cons] at hgens
      intro t ht
      rcases List.mem_cons.mp ht with heq | ht
      · subst heq
        by_cases hfix : fixesPrefix base t base.length = true
        · obtain ⟨x, hx⟩ := exists_firstMoved hgens.1
          refine ⟨x, hmem rest _ x ?_, firstMoved_spec hx⟩
          beta_reduce
          rw [if_pos hfix, hx]
          exact List.mem_append_right _ (List.mem_singleton_self x)
        · have hmoved : exists b, b ∈ base ∧ t b ≠ b := by
            by_contra hnone
            push Not at hnone
            apply hfix
            rw [fixesPrefix_iff]
            exact fun b hb => hnone b (List.mem_of_mem_take hb)
          obtain ⟨b, hb, hmoved⟩ := hmoved
          refine ⟨b, hmem rest _ b ?_, hmoved⟩
          beta_reduce
          rwa [if_neg hfix]
      · exact ih _ hgens.2 t ht

/-- A round keeps the loop invariant and the moving generators. -/
theorem round_keeps {c c' : StabiliserChain n} {i i' : Nat} {answer : Option Nat}
    (hok : c.Ok i) (hmoving : Moving c.base c.strong)
    (hround : round (c, i) answer = some (c', i')) :
    c'.Ok i' ∧ Moving c'.base c'.strong ∧ forall j, answer = some j -> i ≤ j ∧ Grows c c' j := by
  obtain ⟨level, rfl, hclose, rfl⟩ := round_eq_some_iff.mp hround
  have hlt : level < c.base.length := hok.bound
  have hb : c.base[level]? = some c.base[level] := List.getElem?_eq_getElem hlt
  have hset := setLevel_ok hok hb
  rcases closeLevel_inv (H := ⊤) hok hb (fun _ _ => Subgroup.mem_top _) with
    ⟨heq, _⟩ | ⟨j, h, heq, hij, _, hres⟩
  · cases hclose.symm.trans heq
    exact ⟨hset, hmoving, fun j hj => nomatch hj⟩
  · cases hclose.symm.trans heq
    refine ⟨addResidue_ok hset (Nat.le_of_lt hij) hres, hres.moving hmoving, ?_⟩
    intro k hk
    cases hk
    have hgrows := hres.grows
    exact ⟨hij, hgrows.strong, hgrows.grows⟩

/-!
## The run
-/

/-- From every state that keeps the invariant a finite run reaches level zero; it goes back at
most as often as the orbits can still grow. -/
theorem exists_run : forall fuel i (c : StabiliserChain n), c.Ok i -> c.steps i < fuel ->
    exists answers, Transition.replay round (c, i) answers = some (closeLoop fuel i c, 0) ∧
      (returns answers).length + c.size ≤ n * n ∧ forall j, j ∈ returns answers -> j < n := by
  intro fuel
  induction fuel with
  | zero =>
      intro i c _ hfuel
      exact absurd hfuel (Nat.not_lt_zero _)
  | succ fuel ih =>
      intro i c hok hfuel
      cases i with
      | zero =>
          refine ⟨[], rfl, ?_, fun j hj => (List.not_mem_nil hj).elim⟩
          rw [returns, List.filterMap_nil, List.length_nil, Nat.zero_add]
          exact size_le hok.nodup
      | succ i =>
          rcases closeLevel_cases (H := ⊤) hok (fun _ _ => Subgroup.mem_top _) with
            ⟨c', heq, hok', hbase, hsame⟩ | ⟨c', j, heq, hok', _, _, hsize⟩
          · have hsame' := size_eq hbase hsame
            have hsteps : c'.steps i < fuel := by
              unfold steps at hfuel ⊢
              rw [hsame']
              omega
            obtain ⟨answers, hrun, hlength, hlevels⟩ := ih i c' hok' hsteps
            have hround : round (c, i + 1) none = some (c', i) :=
              round_eq_some_iff.mpr ⟨i, rfl, heq, rfl⟩
            refine ⟨none :: answers, ?_, ?_, hlevels⟩
            · rw [closeLoop, heq, Transition.replay, List.foldlM_cons, hround]
              exact hrun
            · rw [← hsame']
              exact hlength
          · have hsteps : c'.steps (j + 1) < fuel :=
              Nat.lt_of_lt_of_le (steps_lt (i := i) hok' hsize) (Nat.le_of_lt_succ hfuel)
            obtain ⟨answers, hrun, hlength, hlevels⟩ := ih (j + 1) c' hok' hsteps
            have hround : round (c, i + 1) (some j) = some (c', j + 1) :=
              round_eq_some_iff.mpr ⟨i, rfl, heq, rfl⟩
            refine ⟨some j :: answers, ?_, ?_, ?_⟩
            · rw [closeLoop, heq, Transition.replay, List.foldlM_cons, hround]
              exact hrun
            · show (returns answers).length + 1 + c.size ≤ n * n
              omega
            · intro k hk
              rcases List.mem_cons.mp hk with hk | hk
              · rw [hk]
                exact Nat.lt_of_lt_of_le hok'.bound (base_length_le hok'.nodup)
              · exact hlevels k hk

/-- The loop ends: a finite run leads from the constructor's start to level zero, with at most
`n * n` returns to levels below n.  In every state on the way the base has no point twice and no
strong generator fixes all of it, and what does not close a level adds a strong generator that
enlarges an orbit or brings a base point. -/
theorem closing_ends {base : List (Fin n)} (hnodup : base.Nodup) {gens : List (Perm n)}
    (hgens : forall s, s ∈ gens -> s ≠ 1) :
    (exists answers, Transition.replay round (start base gens) answers =
        some (build base gens, 0) ∧
      (returns answers).length ≤ n * n ∧ forall j, j ∈ returns answers -> j < n) ∧
    forall c i, Transition.Reached round (fun _ _ => True) (start base gens) (c, i) ->
      c.base.Nodup ∧ Moving c.base c.strong ∧
      forall c' i' j, round (c, i) (some j) = some (c', i') -> i ≤ j ∧ Grows c c' j := by
  constructor
  · obtain ⟨answers, hrun, hlength, hlevels⟩ :=
      exists_run (closeFuel n) _ _ (init_ok hnodup gens) (init_steps_lt hnodup gens)
    exact ⟨answers, hrun, (Nat.le_add_right _ _).trans hlength, hlevels⟩
  · intro c i hreached
    have hinv : forall st, Transition.Reached round (fun _ _ => True) (start base gens) st ->
        st.1.Ok st.2 ∧ Moving st.1.base st.1.strong := by
      intro st hst
      apply hst.invariant (P := fun st => st.1.Ok st.2 ∧ Moving st.1.base st.1.strong)
      · exact ⟨init_ok hnodup gens, extendBase_moving base hgens⟩
      · intro st answer st' _ hst _ hround
        have hkeeps := round_keeps hst.1 hst.2 hround
        exact ⟨hkeeps.1, hkeeps.2.1⟩
    obtain ⟨hok, hmoving⟩ := hinv _ hreached
    refine ⟨hok.nodup, hmoving, ?_⟩
    intro c' i' j hround
    exact (round_keeps hok hmoving hround).2.2 j rfl

theorem closing_ends_swap :
    ([0] : List (Fin 3)).Nodup ∧ Equiv.swap (1 : Fin 3) 2 ≠ 1 ∧
    exists answers,
      Transition.replay round (start [0] [Equiv.swap (1 : Fin 3) 2]) answers =
        some (build [0] [Equiv.swap (1 : Fin 3) 2], 0) ∧
      (returns answers).length ≤ 3 * 3 ∧ forall j, j ∈ returns answers -> j < 3 := by
  have hnodup : ([0] : List (Fin 3)).Nodup := by decide
  have hgens : forall s, s ∈ [Equiv.swap (1 : Fin 3) 2] -> s ≠ 1 := by decide
  exact ⟨hnodup, by decide, (closing_ends hnodup hgens).1⟩

end StabiliserChain

end Identity
end Topology
end Ostia
