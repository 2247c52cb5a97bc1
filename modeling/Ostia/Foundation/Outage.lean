import Mathlib.Data.List.Induction

/-!
# How long a connection is lost

A reader that loses its connection tries again.  The outage that it is in began
with the first of the last tries that all lost the connection, when nothing came
through since.
-/

namespace Ostia
namespace Foundation

/-- How one try ended. -/
structure Try where
  /-- Something came through. -/
  progress : Bool
  /-- When the loss was noticed, and the clock after it; none without a loss. -/
  lost : Option (Nat × Nat)

namespace Try

/-- The start of the outage after one more try. -/
def next (since : Option Nat) (t : Try) : Option Nat :=
  t.lost.map fun clock => (if t.progress then none else since).getD clock.1

/-- The start of the outage in which the tries end. -/
def lostSince (ts : List Try) : Option Nat := ts.foldl next none

theorem lostSince_snoc (ts : List Try) (t : Try) :
    lostSince (ts ++ [t]) = next (lostSince ts) t := by
  unfold lostSince
  rw [List.foldl_append]
  rfl

/--
The last tries all lost the connection, from the one at a reading of the clock
on, and nothing came through after it; no try before belongs to them.
-/
def Outage (ts : List Try) (since : Nat) : Prop :=
  exists earlier first later, ts = earlier ++ first :: later ∧
    (exists now, first.lost = some (since, now)) ∧
    (forall t, t ∈ later -> t.progress = false ∧ t.lost ≠ none) ∧
    (first.progress = true ∨ forall t, earlier.getLast? = some t -> t.lost = none)

/-- The tries end in an outage that is at least as long as the limit. -/
def LostFor (limit : Nat) (ts : List Try) : Prop :=
  exists since t clock, Outage ts since ∧ ts.getLast? = some t ∧ t.lost = some clock ∧
    limit ≤ clock.2 - since

/-- One more try ends the outage, starts one, or goes on with the one before. -/
theorem outage_snoc {ts : List Try} {t : Try} {since : Nat} :
    Outage (ts ++ [t]) since <->
      exists clock, t.lost = some clock ∧
        ((t.progress = false ∧ Outage ts since) ∨
          clock.1 = since ∧
            (t.progress = true ∨ forall t', ts.getLast? = some t' -> t'.lost = none)) := by
  constructor
  · intro h
    rcases h with ⟨earlier, first, later, heq, ⟨now, hfirst⟩, hlater, hfresh⟩
    rcases List.eq_nil_or_concat later with rfl | ⟨before, last, rfl⟩
    · rcases List.append_inj' heq rfl with ⟨rfl, hlast⟩
      cases hlast
      exact ⟨(since, now), hfirst, Or.inr ⟨rfl, hfresh⟩⟩
    · rw [List.concat_eq_append] at heq hlater
      rw [← List.cons_append, ← List.append_assoc] at heq
      rcases List.append_inj' heq rfl with ⟨rfl, hlast⟩
      cases hlast
      rcases hlater t (List.mem_append_right _ List.mem_cons_self) with ⟨hprogress, hlost⟩
      rcases Option.ne_none_iff_exists'.mp hlost with ⟨clock, hclock⟩
      refine ⟨clock, hclock, Or.inl ⟨hprogress, earlier, first, before, rfl, ⟨now, hfirst⟩, ?_,
        hfresh⟩⟩
      intro t' ht'
      exact hlater t' (List.mem_append_left _ ht')
  · intro h
    rcases h with ⟨clock, hclock, ⟨hprogress, hbefore⟩ | ⟨rfl, hfresh⟩⟩
    · rcases hbefore with ⟨earlier, first, later, rfl, hfirst, hlater, hfresh⟩
      refine ⟨earlier, first, later ++ [t], List.append_assoc _ _ _, hfirst, ?_, hfresh⟩
      intro t' ht'
      rcases List.mem_append.mp ht' with hmem | hmem
      · exact hlater t' hmem
      · rw [List.mem_singleton.mp hmem, hclock]
        exact ⟨hprogress, Option.some_ne_none _⟩
    · exact ⟨ts, t, [], rfl, ⟨clock.2, hclock⟩, fun _ hmem => (List.not_mem_nil hmem).elim, hfresh⟩

/-- The recorded start is the start of the outage. -/
theorem lostSince_eq_some {ts : List Try} {since : Nat} :
    lostSince ts = some since <-> Outage ts since := by
  induction ts using List.reverseRecOn generalizing since with
  | nil =>
      constructor
      · intro h
        cases h
      · intro h
        rcases h with ⟨earlier, first, later, heq, _⟩
        cases earlier <;> cases heq
  | append_singleton ts t ih =>
      have hnone : lostSince ts = none <-> forall t', ts.getLast? = some t' -> t'.lost = none := by
        rcases List.eq_nil_or_concat ts with rfl | ⟨before, last, rfl⟩
        · simp [lostSince]
        · rw [List.concat_eq_append, lostSince_snoc]
          simp [next]
      rw [lostSince_snoc, outage_snoc, next]
      cases hlost : t.lost with
      | none => simp
      | some clock =>
          cases hprogress : t.progress with
          | true => simp
          | false =>
              rw [← hnone, ← ih]
              cases lostSince ts with
              | none => simp
              | some before => simp

/-- Whether one more try ends in an outage at the limit, by the recorded start. -/
theorem lostFor_snoc {limit : Nat} {ts : List Try} {t : Try} :
    LostFor limit (ts ++ [t]) <-> exists clock, t.lost = some clock ∧
      limit ≤ clock.2 - (if t.progress then none else lostSince ts).getD clock.1 := by
  unfold LostFor
  rw [List.getLast?_concat]
  constructor
  · intro h
    rcases h with ⟨since, t', clock, houtage, heq, hclock, hlimit⟩
    cases heq
    have hsince := lostSince_eq_some.mpr houtage
    rw [lostSince_snoc, next, hclock] at hsince
    cases hsince
    exact ⟨clock, hclock, hlimit⟩
  · intro h
    rcases h with ⟨clock, hclock, hlimit⟩
    refine ⟨_, t, clock, lostSince_eq_some.mp ?_, rfl, hclock, hlimit⟩
    rw [lostSince_snoc, next, hclock]
    rfl

end Try
end Foundation
end Ostia
