import Ostia.Topology.Identity.Canonical

/-!
# Meeting a stored leaf

Whenever the search records a leaf whose certificate equals that of a stored leaf, it builds a
permutation from the two positions.  It is an automorphism, as the assertion says, and it carries
the path of the search onto the path of the stored leaf.
-/

namespace Ostia
namespace Topology

open Foundation
open Foundation.Multigraph (Dir Link)

namespace Identity

variable {n : Nat} {dump : Json -> String} {g : Graph n}

/-!
## The assertion
-/

/-- The edges of a graph under a map of its vertices, sorted. -/
def edgesUnder (g : Graph n) (map : Perm n) : List (Nat ×ₗ Nat ×ₗ Nat) :=
  Sorting.sorted (g.edges.map (edgeTuple fun v => (map v).val))

def isAutomorphism (g : Graph n) (p : Perm n) : Bool :=
  ((List.finRange n).all fun v => g.vkey (p v) == g.vkey v) &&
    decide (edgesUnder g p = edgesUnder g (Equiv.refl _))

theorem isAutomorphism_of_mem {p : Perm n} (h : p ∈ autGroup g) : isAutomorphism g p = true := by
  have hiso : Iso g g p := h
  have hedges : edgesUnder g p = edgesUnder g (Equiv.refl _) := by
    unfold edgesUnder
    rw [Sorting.sorted_eq_iff_perm, ← Multiset.coe_eq_coe, edgeTuples_eq, edgeTuples_eq]
    conv_rhs => rw [← hiso.links]
    rw [Multiset.map_map]
    apply Multiset.map_congr rfl
    intro l _
    exact (linkTuple_map (fun v => rfl) l).symm
  unfold isAutomorphism
  rw [Bool.and_eq_true, List.all_eq_true]
  constructor
  · intro v _
    rw [beq_iff_eq]
    exact hiso.vkey v
  · exact decide_eq_true hedges

/-!
## The leaves that a search records
-/

/-- A call that records a leaf: its path, its colouring and the state before it. -/
structure LeafCall (n : Nat) where
  path : List (Fin n)
  colour : Fin n -> Nat
  state : SearchState n

/-- The calls below the children of a node. -/
def childrenCalls (g : Graph n) (explore : Explore n)
    (calls : List (Fin n) -> (Fin n -> Nat) -> SearchState n -> List (LeafCall n))
    (path : List (Fin n)) (colour : Fin n -> Nat) (open_ : List (Fin n)) :
    List (Fin n) -> Children n -> SearchState n -> List (LeafCall n)
  | [], _, _ => []
  | v :: rest, c, s =>
      let c := c.refresh s.group path open_
      if c.covered v then childrenCalls g explore calls path colour open_ rest c s
      else
        calls (path ++ [v]) (refine g (individualise colour v)) s ++
          match explore (path ++ [v]) (refine g (individualise colour v)) s with
          | .error _ => []
          | .ok (s', some d) =>
              if d < path.length then []
              else childrenCalls g explore calls path colour open_ rest (c.finish v) s'
          | .ok (s', none) =>
              childrenCalls g explore calls path colour open_ rest (c.finish v) s'

/-- The calls below a node, in the order of the search. -/
def leafCalls (dump : Json -> String) (g : Graph n) :
    Nat -> List (Fin n) -> (Fin n -> Nat) -> SearchState n -> List (LeafCall n)
  | 0, _, _, _ => []
  | fuel + 1, path, colour, s =>
      match openCell colour with
      | none => [⟨path, colour, s⟩]
      | some open_ =>
          childrenCalls g (run dump g fuel) (leafCalls dump g fuel) path colour open_
            (representatives g open_) Children.start s

/-- The leaves that the whole search records. -/
def searchCalls (dump : Json -> String) (g : Graph n) : List (LeafCall n) :=
  leafCalls dump g (n + 1) [] (rootColour g) ⟨⟨[]⟩, 0, none⟩

/-- A recorded leaf is one of the tree, and the stored leaves part from its path. -/
structure CallOk (dump : Json -> String) (g : Graph n) (call : LeafCall n) : Prop where
  leaf : IsLeaf g call.path
  colour : call.colour = colourOf g call.path
  state : StateOk dump g call.state
  apart : forall l, l ∈ storedLeaves call.state -> Apart dump g call.state call.path l

/-- What the calls below a node must guarantee. -/
def CallsOk (dump : Json -> String) (g : Graph n)
    (calls : List (Fin n) -> (Fin n -> Nat) -> SearchState n -> List (LeafCall n))
    (path : List (Fin n)) : Prop :=
  forall s, StateOk dump g s -> (forall l, l ∈ storedLeaves s -> Apart dump g s path l) ->
    forall call, call ∈ calls path (colourOf g path) s -> CallOk dump g call

theorem childrenCalls_ok (hg : g.Stripped dump) {explore : Explore n}
    {calls : List (Fin n) -> (Fin n -> Nat) -> SearchState n -> List (LeafCall n)}
    {path open_ : List (Fin n)} (hnode : IsNode g path)
    (hexplore : forall v, v ∈ open_ -> ExploreOk dump g explore (path ++ [v]))
    (hcalls : forall v, v ∈ open_ -> CallsOk dump g calls (path ++ [v]))
    {start : SearchState n}
    (hstart : forall l, l ∈ storedLeaves start -> Apart dump g start path l) :
    forall (rest processed : List (Fin n)) (c : Children n) (s : SearchState n),
      (processed ++ rest).Nodup ->
      (forall v, v ∈ processed ++ rest -> v ∈ open_) ->
      LoopOk dump g start path open_ processed c s ->
      forall call, call ∈ childrenCalls g explore calls path (colourOf g path) open_ rest c s ->
        CallOk dump g call := by
  intro rest
  induction rest with
  | nil =>
      intro processed c s _ _ _ call hcall
      cases hcall
  | cons v rest ih =>
      intro processed c s hnodup hmem hloop call hcall
      have hv : v ∈ open_ := hmem v (by simp)
      have hnew : v ∉ processed := by
        rw [List.nodup_append] at hnodup
        intro hv'
        exact hnodup.2.2 v hv' v List.mem_cons_self rfl
      have hshift : processed ++ v :: rest = (processed ++ [v]) ++ rest := by simp
      have hrefresh : LoopOk dump g start path open_ processed
          (c.refresh s.group path open_) s :=
        { hloop with
          done := by rw [refresh_done]; exact hloop.done
          orbits := refresh_ok hloop.ok.group hnode.nodup hloop.orbits }
      rw [hshift] at hnodup hmem
      rw [childrenCalls] at hcall
      split_ifs at hcall with hcov
      · refine ih _ _ s hnodup hmem ?_ call hcall
        exact hrefresh.skip hg (fun w hw => hmem w (by simp [hw])) hv hcov
      · rw [← colourOf_append_singleton, List.mem_append] at hcall
        have hapart : forall l, l ∈ storedLeaves s -> Apart dump g s (path ++ [v]) l :=
          fun l hl => hrefresh.apart hstart hnew hl
        cases hcall with
        | inl hcall => exact hcalls v hv s hloop.ok hapart call hcall
        | inr hcall =>
            cases hrun : explore (path ++ [v]) (colourOf g (path ++ [v])) s with
            | error e =>
                rw [hrun] at hcall
                cases hcall
            | ok result =>
                obtain ⟨s1, j⟩ := result
                have hok : RunOk dump g s (path ++ [v]) s1 j :=
                  hexplore v hv s s1 j hloop.ok hapart hrun
                rw [hrun] at hcall
                cases j with
                | none =>
                    refine ih _ _ s1 hnodup hmem ?_ call hcall
                    exact hrefresh.explored hok (fun d hd => by cases hd)
                | some d =>
                    simp only at hcall
                    split_ifs at hcall with hd
                    · cases hcall
                    · refine ih _ _ s1 hnodup hmem ?_ call hcall
                      refine hrefresh.explored hok ?_
                      intro e he
                      rw [Option.some_inj] at he
                      rw [← he]
                      exact hd

/-- Every leaf that a search records below a node is one of the tree. -/
theorem leafCalls_ok (hdump : Function.Injective dump) (hg : g.Stripped dump) :
    forall fuel (path : List (Fin n)), IsNode g path -> n < path.length + fuel ->
      CallsOk dump g (leafCalls dump g fuel) path := by
  intro fuel
  induction fuel with
  | zero =>
      intro path _ _ s _ _ call hcall
      cases hcall
  | succ fuel ih =>
      intro path hnode hfuel s hs hapart call hcall
      rw [leafCalls] at hcall
      cases hopen : openCell (colourOf g path) with
      | none =>
          rw [hopen] at hcall
          rw [List.mem_singleton.mp hcall]
          exact ⟨⟨hnode, hopen⟩, rfl, hs, hapart⟩
      | some open_ =>
          rw [hopen] at hcall
          obtain ⟨hnodup, hsub, _⟩ := representatives_spec g open_
          have hlength : forall v : Fin n, n < (path ++ [v]).length + fuel := by
            intro v
            rw [List.length_append, List.length_singleton]
            omega
          have hexplore : forall v, v ∈ open_ ->
              ExploreOk dump g (run dump g fuel) (path ++ [v]) := by
            intro v hv
            exact run_ok hdump hg fuel _ (IsNode.child hnode hopen hv) (hlength v)
          have hcalls : forall v, v ∈ open_ ->
              CallsOk dump g (leafCalls dump g fuel) (path ++ [v]) := by
            intro v hv
            exact ih _ (IsNode.child hnode hopen hv) (hlength v)
          exact childrenCalls_ok hg hnode hexplore hcalls hapart _ [] _ s hnodup hsub
            (LoopOk.begin hs path open_) call hcall

/-- The calls of a search lead from its first state to its last one. -/
inductive Records (dump : Json -> String) (g : Graph n) :
    SearchState n -> List (LeafCall n) -> SearchState n -> Prop where
  | done (s : SearchState n) : Records dump g s [] s
  | step {call : LeafCall n} {s' s'' : SearchState n} {jump : Option Nat}
      {rest : List (LeafCall n)}
      (recorded : leaf dump g call.path call.colour call.state = .ok (s', jump))
      (later : Records dump g s' rest s'') : Records dump g call.state (call :: rest) s''

theorem Records.append {s s' s'' : SearchState n} {calls later : List (LeafCall n)}
    (h : Records dump g s calls s') (h' : Records dump g s' later s'') :
    Records dump g s (calls ++ later) s'' := by
  induction h with
  | done s => exact h'
  | step recorded _ ih => exact Records.step recorded (ih h')

theorem childrenCalls_records {explore : Explore n}
    {calls : List (Fin n) -> (Fin n -> Nat) -> SearchState n -> List (LeafCall n)}
    (hexplore : forall path colour s s' jump, explore path colour s = .ok (s', jump) ->
      Records dump g s (calls path colour s) s')
    {path open_ : List (Fin n)} {colour : Fin n -> Nat} :
    forall (rest : List (Fin n)) (c : Children n) (s s' : SearchState n) (jump : Option Nat),
      runChildren g explore path colour open_ rest c s = .ok (s', jump) ->
      Records dump g s (childrenCalls g explore calls path colour open_ rest c s) s' := by
  intro rest
  induction rest with
  | nil =>
      intro c s s' jump h
      rw [runChildren, Except.ok.injEq, Prod.mk.injEq] at h
      rw [<- h.1, childrenCalls]
      exact Records.done s
  | cons v rest ih =>
      intro c s s' jump h
      rw [runChildren] at h
      rw [childrenCalls]
      split_ifs at h with hcov
      · rw [if_pos hcov]
        exact ih _ s s' jump h
      · rw [if_neg hcov]
        cases hrun : explore (path ++ [v]) (refine g (individualise colour v)) s with
        | error e =>
            rw [hrun] at h
            cases h
        | ok result =>
            obtain ⟨s1, j⟩ := result
            have hfirst := hexplore _ _ s s1 j hrun
            rw [hrun] at h
            cases j with
            | none => exact hfirst.append (ih _ s1 s' jump h)
            | some d =>
                simp only at h ⊢
                split_ifs at h with hd
                · rw [Except.ok.injEq, Prod.mk.injEq] at h
                  rw [if_pos hd, List.append_nil, <- h.1]
                  exact hfirst
                · rw [if_neg hd]
                  exact hfirst.append (ih _ s1 s' jump h)

/-- The recorded calls are those that the search makes, one after the other. -/
theorem run_records : forall fuel (path : List (Fin n)) (colour : Fin n -> Nat)
    (s s' : SearchState n) (jump : Option Nat), run dump g fuel path colour s = .ok (s', jump) ->
      Records dump g s (leafCalls dump g fuel path colour s) s' := by
  intro fuel
  induction fuel with
  | zero =>
      intro path colour s s' jump h
      rw [run, Except.ok.injEq, Prod.mk.injEq] at h
      rw [<- h.1]
      exact Records.done s
  | succ fuel ih =>
      intro path colour s s' jump h
      rw [run] at h
      rw [leafCalls]
      cases hopen : openCell colour with
      | none =>
          rw [hopen] at h
          exact @Records.step n dump g ⟨path, colour, s⟩ s' s' jump [] h (Records.done s')
      | some open_ =>
          rw [hopen] at h
          exact childrenCalls_records ih _ _ s s' jump h

theorem search_records {s : SearchState n} {jump : Option Nat}
    (h : search dump g = .ok (s, jump)) :
    Records dump g ⟨⟨[]⟩, 0, none⟩ (searchCalls dump g) s :=
  run_records _ _ _ _ _ _ h

theorem searchCalls_ok (hdump : Function.Injective dump) (hg : g.Stripped dump)
    {call : LeafCall n} (hcall : call ∈ searchCalls dump g) : CallOk dump g call := by
  apply leafCalls_ok hdump hg (n + 1) [] IsNode.root (by simp) ⟨⟨[]⟩, 0, none⟩ _ _ call hcall
  · constructor
    · intro u hu
      cases hu
    · intro l hl
      cases hl
  · intro l hl
    cases hl

/-!
## The automorphism of a meeting
-/

/-- What the permutation built from two leaves must do. -/
structure MeetsAt (g : Graph n) (call : LeafCall n) (l : Leaf n) (p : Perm n) : Prop where
  /-- Every vertex goes to the one at its position in the stored leaf. -/
  built : forall x, exists h : call.colour x < n, p x = inverse l.position ⟨call.colour x, h⟩
  asserted : isAutomorphism g p = true
  member : p ∈ autGroup g
  carries : call.path.map p = l.path
  fixes : forall x, x ∈ call.path.take (commonPrefix call.path l.path) -> p x = x
  /-- The paths part, and the child on the one goes to the child on the other. -/
  child : exists v w, call.path[commonPrefix call.path l.path]? = some v ∧
    l.path[commonPrefix call.path l.path]? = some w ∧ v ≠ w ∧ p v = w

theorem mem_take_append_cons (common rest : List (Fin n)) (v : Fin n) :
    (common ++ v :: rest).take common.length = common ∧
      (common ++ v :: rest)[common.length]? = some v := by
  constructor
  · exact List.take_left
  · rw [List.getElem?_append_right (le_refl _), Nat.sub_self]
    rfl

/-- Lists with a common beginning that a map carries one onto the other. -/
theorem map_append_cons_eq {p : Fin n -> Fin n} {common rest t : List (Fin n)} {v w : Fin n}
    (h : (common ++ v :: rest).map p = common ++ w :: t) :
    (forall x, x ∈ common -> p x = x) ∧ p v = w := by
  rw [List.map_append, List.map_cons] at h
  obtain ⟨hcommon, htail⟩ := List.append_inj h (List.length_map _)
  rw [List.cons.injEq] at htail
  constructor
  · exact List.map_inj_left.mp (hcommon.trans (List.map_id common).symm)
  · exact htail.1

/-- Every leaf that the search records meets a stored leaf in an automorphism. -/
theorem searchCalls_meetsAt (hdump : Function.Injective dump) {model : Model}
    {g : Graph model.nodes.length} (h : strip dump model = .ok g) :
    forall call, call ∈ searchCalls dump g -> forall l, l ∈ storedLeaves call.state ->
      certificate dump g call.colour = l.cert ->
      MeetsAt g call l (gamma l.position call.colour) := by
  intro call hcall l hl hcert
  have hg : g.Stripped dump := strip_stripped hdump h
  have hok : CallOk dump g call := searchCalls_ok hdump hg hcall
  have hstored : StoredOk dump g l := hok.state.stored l hl
  rw [hok.colour] at hcert ⊢
  obtain ⟨hmem, hmap⟩ := gamma_spec hdump hg hok.leaf hstored hcert
  obtain ⟨common, v, rest, w, t, hne, hpath, hlpath, _⟩ := hok.apart l hl
  have hparted : commonPrefix call.path l.path = common.length := by
    rw [hpath, hlpath, commonPrefix_append hne]
  have hparts : (forall x, x ∈ common -> gamma l.position (colourOf g call.path) x = x) ∧
      gamma l.position (colourOf g call.path) v = w := by
    apply @map_append_cons_eq _ _ common rest t
    rw [<- hpath, <- hlpath]
    exact hmap
  constructor
  · intro x
    rw [hok.colour]
    exists hok.leaf.discrete.bounded x
    rw [hstored.position, gamma_eq hstored.leaf.discrete hok.leaf.discrete]
    rfl
  · exact isAutomorphism_of_mem hmem
  · exact hmem
  · exact hmap
  · intro x hx
    rw [hparted, hpath, (mem_take_append_cons common rest v).1] at hx
    exact hparts.1 x hx
  · rw [hparted]
    exists v, w
    constructor
    · rw [hpath]
      exact (mem_take_append_cons common rest v).2
    · constructor
      · rw [hlpath]
        exact (mem_take_append_cons common t w).2
      · exact ⟨hne, hparts.2⟩

/-- Four GPUs in a row, of one model and with links of one width, which are left out. -/
def gpuRow : Model :=
  let gpu : String -> Node := fun key => ⟨NodeKind.gpu, key, OrdMap.empty⟩
  let nvlink : String -> String -> Edge := fun x y => ⟨EdgeKind.nvlink, x, y, OrdMap.empty⟩
  ⟨["a", "b", "c", "d"].map gpu, [nvlink "a" "b", nvlink "b" "c", nvlink "c" "d"]⟩

/-- Whether the search returns, and some leaf of it meets a stored one. -/
def someMeeting (dump : Json -> String) {n : Nat} (graph : Except TopologyError (Graph n)) :
    Bool :=
  match graph with
  | .error _ => false
  | .ok g =>
      (search dump g).toBool && (searchCalls dump g).any fun call =>
        (storedLeaves call.state).any fun l => certificate dump g call.colour == l.cert

theorem searchCalls_meetsAt_row :
    exists g s jump, strip Compact.dump gpuRow = .ok g ∧
      search Compact.dump g = .ok (s, jump) ∧
      Records Compact.dump g ⟨⟨[]⟩, 0, none⟩ (searchCalls Compact.dump g) s ∧
      exists call, call ∈ searchCalls Compact.dump g ∧
        exists l, l ∈ storedLeaves call.state ∧ certificate Compact.dump g call.colour = l.cert ∧
          MeetsAt g call l (gamma l.position call.colour) := by
  have hmeets : someMeeting Compact.dump (strip Compact.dump gpuRow) = true := by
    decide +kernel
  cases hstrip : strip Compact.dump gpuRow with
  | error e =>
      rw [hstrip] at hmeets
      cases hmeets
  | ok g =>
      rw [hstrip, someMeeting, Bool.and_eq_true] at hmeets
      obtain ⟨hreturns, hmeets⟩ := hmeets
      cases hsearch : search Compact.dump g with
      | error e =>
          rw [hsearch] at hreturns
          cases hreturns
      | ok result =>
          obtain ⟨s, jump⟩ := result
          obtain ⟨call, hcall, hany⟩ := List.any_eq_true.mp hmeets
          obtain ⟨l, hl, hcert⟩ := List.any_eq_true.mp hany
          have hmeet := searchCalls_meetsAt Compact.dump_injective hstrip call hcall l hl
            (beq_iff_eq.mp hcert)
          exact ⟨g, s, jump, rfl, hsearch, search_records hsearch, call, hcall, l, hl,
            beq_iff_eq.mp hcert, hmeet⟩

end Identity
end Topology
end Ostia
