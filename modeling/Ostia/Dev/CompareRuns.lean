import Ostia.Dev.Bootstrap

/-!
# When a comparison of runs returns

A comparison has a result for each case of the candidate and for each case of the manifest that
the candidate misses.  The validation of the records does not see all that the comparison
needs: keys that can be looked up, objects of compatibility fields and medians to divide by.
-/

namespace Ostia
namespace Dev
namespace Bench

open Foundation
open JsonText

variable {F : Type} [FloatText F]

/-!
## Keys
-/

omit [FloatText F] in
theorem eq_refl_of_hashable [PyFloat F] {v : Value F} (h : hashable v = true) :
    v.eq v = true := by
  have hnumber : forall p : Number, p.eq p = true := by
    intro p
    cases p <;> simp [Number.eq]
  cases v with
  | none => rw [Value.eq]
  | str s => simp [Value.eq]
  | list xs => cases h
  | dict fs => cases h
  | bool b => simp [Value.eq, Value.eqNumber, Value.number?, hnumber]
  | int n => simp [Value.eq, Value.eqNumber, Value.number?, hnumber]
  | float x => simp [Value.eq, Value.eqNumber, Value.number?, hnumber]

theorem eq_symm_of_hashable {v w : Value F} (h : hashable v = true) (heq : v.eq w = true) :
    w.eq v = true := by
  cases v with
  | none =>
      rw [Value.eq_iff] at heq
      subst heq
      rfl
  | str s =>
      rw [Value.eq_iff] at heq
      subst heq
      simp [Value.eq]
  | list xs => cases h
  | dict fs => cases h
  | _ =>
      rw [Value.eq_iff] at heq
      have hsymm := Value.eqNumber_symm heq
      obtain ⟨p, _, hp, _, _⟩ := Value.eqNumber_iff.mp hsymm
      rw [Value.eq_of_number hp]
      exact hsymm

theorem same_refl_of_hashable {k : CaseKey F} (h : hashable k.bench = true) :
    k.same k = true := by
  unfold CaseKey.same
  rw [eq_refl_of_hashable h, beq_self_eq_true]
  rfl

theorem same_symm_of_hashable {a b : CaseKey F} (ha : hashable a.bench = true)
    (h : a.same b = true) : b.same a = true := by
  unfold CaseKey.same at h ⊢
  rw [Bool.and_eq_true, beq_iff_eq] at h ⊢
  exact ⟨eq_symm_of_hashable ha h.1, h.2.symm⟩

/-- The key of a record can be looked up. -/
def KeyOf (r : Value F) (k : CaseKey F) : Prop := caseKey r = .ok k ∧ hashable k.bench = true

theorem KeyOf.unique {r : Value F} {k k' : CaseKey F} (h : KeyOf r k) (h' : KeyOf r k') :
    k = k' := by
  have heq := h.1
  rw [h'.1] at heq
  injection heq with heq
  exact heq.symm

/-- A record has the case of a key. -/
def hasKey (k : CaseKey F) (r : Value F) : Bool :=
  match caseKey r with
  | .ok k' => k.same k'
  | .error _ => false

/-- Two records have one case. -/
def sameCase (r r' : Value F) : Bool :=
  match caseKey r with
  | .ok k => hasKey k r'
  | .error _ => false

theorem hasKey_of_keyOf {k k' : CaseKey F} {r : Value F} (h : KeyOf r k') :
    hasKey k r = k.same k' := by
  unfold hasKey
  rw [h.1]

theorem sameCase_of_keyOf {r : Value F} {k : CaseKey F} (h : KeyOf r k) :
    sameCase r = hasKey k := by
  funext r'
  unfold sameCase
  rw [h.1]

theorem hashedKey_eq_ok {r : Value F} {k : CaseKey F} :
    (do hashed (← caseKey r)) = (.ok k : Except Exn (CaseKey F)) <-> KeyOf r k := by
  rw [Fallible.bind_eq_ok]
  constructor
  · intro h
    obtain ⟨k', hk', h⟩ := h
    have heq := hashed_eq_ok h
    subst heq
    unfold hashed at h
    split_ifs at h with hhash
    exact ⟨hk', hhash⟩
  · intro h
    refine ⟨k, h.1, ?_⟩
    unfold hashed
    rw [if_pos h.2]

/-- A step that files a record under its key. -/
theorem addKey_step {A : Type} {r : Value F} {add : CaseKey F -> A} {a : A} :
    (do
      let key ← hashed (← caseKey r)
      pure (add key)) = (.ok a : Except Exn A) <-> exists k, KeyOf r k ∧ a = add k := by
  have hassoc : (do
      let key ← hashed (← caseKey r)
      pure (add key) : Except Exn A) = (do hashed (← caseKey r)) >>= fun key => pure (add key) := by
    cases caseKey r with
    | error e => rfl
    | ok k => rfl
  rw [hassoc, Fallible.bind_eq_ok]
  constructor
  · intro h
    obtain ⟨k, hk, h⟩ := h
    injection h with h
    exact ⟨k, hashedKey_eq_ok.mp hk, h.symm⟩
  · intro h
    obtain ⟨k, hk, h⟩ := h
    exact ⟨k, hashedKey_eq_ok.mpr hk, by rw [h]; rfl⟩

/-!
## The cases of the candidate
-/

/-- A record joins the entry of its case, or opens one at the end. -/
theorem addCase_cases (k : CaseKey F) (r : Value F) (cases : List (CaseKey F × List (Value F))) :
    ((forall e, e ∈ cases -> e.1.same k = false) ∧ addCase k r cases = cases ++ [(k, [r])]) ∨
      exists before e after, cases = before ++ e :: after ∧ e.1.same k = true ∧
        (forall e', e' ∈ before -> e'.1.same k = false) ∧
        addCase k r cases = before ++ (e.1, e.2 ++ [r]) :: after := by
  induction cases with
  | nil => exact Or.inl ⟨List.forall_mem_nil _, rfl⟩
  | cons e cases ih =>
      rw [addCase]
      cases hsame : e.1.same k with
      | true => exact Or.inr ⟨[], e, cases, rfl, hsame, List.forall_mem_nil _, rfl⟩
      | false =>
          rw [if_neg Bool.false_ne_true]
          rcases ih with ⟨hnone, hadd⟩ | ⟨before, e0, after, hcases, hsame0, hbefore, hadd⟩
          · rw [hadd]
            refine Or.inl ⟨?_, rfl⟩
            intro e' he'
            rcases List.mem_cons.mp he' with he' | he'
            · rw [he', hsame]
            · exact hnone e' he'
          · rw [hadd, hcases]
            refine Or.inr ⟨e :: before, e0, after, rfl, hsame0, ?_, rfl⟩
            intro e' he'
            rcases List.mem_cons.mp he' with he' | he'
            · rw [he', hsame]
            · exact hbefore e' he'

/-- Each case of the records once, with its records in order. -/
structure Filed (records : List (Value F)) (cases : List (CaseKey F × List (Value F))) :
    Prop where
  keyed : forall r, r ∈ records -> exists k, KeyOf r k
  distinct : cases.Pairwise fun a b => a.1.same b.1 = false
  keys : forall e, e ∈ cases -> exists r, r ∈ records ∧ KeyOf r e.1
  entries : forall e, e ∈ cases -> e.2 = records.filter (hasKey e.1)
  covered : forall r, r ∈ records -> exists e, e ∈ cases ∧ hasKey e.1 r = true

theorem Filed.keyed_append {records : List (Value F)}
    {cases : List (CaseKey F × List (Value F))} (h : Filed records cases) {r : Value F}
    {k : CaseKey F} (hk : KeyOf r k) : forall r', r' ∈ records ++ [r] -> exists k, KeyOf r' k := by
  intro r' hr'
  rcases List.mem_append.mp hr' with hr' | hr'
  · exact h.keyed r' hr'
  · rw [List.mem_singleton.mp hr']
    exact ⟨k, hk⟩

theorem Filed.keys_append {records : List (Value F)}
    {cases : List (CaseKey F × List (Value F))} (h : Filed records cases) {r : Value F}
    {e : CaseKey F × List (Value F)} (he : e ∈ cases) :
    exists r', r' ∈ records ++ [r] ∧ KeyOf r' e.1 := by
  obtain ⟨r', hr', hkey⟩ := h.keys e he
  exact ⟨r', List.mem_append_left _ hr', hkey⟩

/-- The entry of another case stays as it is. -/
theorem Filed.entries_append {records : List (Value F)}
    {cases : List (CaseKey F × List (Value F))} (h : Filed records cases) {r : Value F}
    {k : CaseKey F} (hk : KeyOf r k) {e : CaseKey F × List (Value F)} (he : e ∈ cases)
    (hsame : e.1.same k = false) : e.2 = (records ++ [r]).filter (hasKey e.1) := by
  have hrk : ¬hasKey e.1 r = true := by
    rw [hasKey_of_keyOf hk, hsame]
    exact Bool.false_ne_true
  rw [List.filter_append, ← h.entries e he, List.filter_cons_of_neg hrk, List.filter_nil,
    List.append_nil]

/-- The first record of a case opens an entry. -/
theorem Filed.add_new {records : List (Value F)} {cases : List (CaseKey F × List (Value F))}
    (h : Filed records cases) {r : Value F} {k : CaseKey F} (hk : KeyOf r k)
    (hnone : forall e, e ∈ cases -> e.1.same k = false) :
    Filed (records ++ [r]) (cases ++ [(k, [r])]) := by
  have hself : hasKey k r = true := by
    rw [hasKey_of_keyOf hk]
    exact same_refl_of_hashable hk.2
  have hrecords : records.filter (hasKey k) = [] := by
    rw [List.filter_eq_nil_iff]
    intro r' hr' hsame
    obtain ⟨e, he, hhas⟩ := h.covered r' hr'
    obtain ⟨k', hk'⟩ := h.keyed r' hr'
    rw [hasKey_of_keyOf hk'] at hsame hhas
    have hsame' := same_trans hhas (same_symm_of_hashable hk.2 hsame)
    rw [hnone e he] at hsame'
    cases hsame'
  constructor
  · exact h.keyed_append hk
  · rw [List.pairwise_append]
    refine ⟨h.distinct, List.pairwise_singleton _ _, ?_⟩
    intro e he e' he'
    rw [List.mem_singleton.mp he']
    exact hnone e he
  · intro e he
    rcases List.mem_append.mp he with he | he
    · exact h.keys_append he
    · rw [List.mem_singleton.mp he]
      exact ⟨r, List.mem_append_right _ List.mem_cons_self, hk⟩
  · intro e he
    rcases List.mem_append.mp he with he | he
    · exact h.entries_append hk he (hnone e he)
    · rw [List.mem_singleton.mp he]
      show [r] = (records ++ [r]).filter (hasKey k)
      rw [List.filter_append, hrecords, List.filter_cons_of_pos hself]
      rfl
  · intro r' hr'
    rcases List.mem_append.mp hr' with hr' | hr'
    · obtain ⟨e, he, hhas⟩ := h.covered r' hr'
      exact ⟨e, List.mem_append_left _ he, hhas⟩
    · rw [List.mem_singleton.mp hr']
      exact ⟨(k, [r]), List.mem_append_right _ List.mem_cons_self, hself⟩

/-- A further record of a case joins its entry. -/
theorem Filed.add_known {records : List (Value F)}
    {before after : List (CaseKey F × List (Value F))} {e0 : CaseKey F × List (Value F)}
    (h : Filed records (before ++ e0 :: after)) {r : Value F} {k : CaseKey F} (hk : KeyOf r k)
    (hsame0 : e0.1.same k = true) (hbefore : forall e, e ∈ before -> e.1.same k = false) :
    Filed (records ++ [r]) (before ++ (e0.1, e0.2 ++ [r]) :: after) := by
  have hself : hasKey e0.1 r = true := by
    rw [hasKey_of_keyOf hk]
    exact hsame0
  have he0 : e0 ∈ before ++ e0 :: after := List.mem_append_right _ List.mem_cons_self
  have hafter : forall e, e ∈ after -> e ∈ before ++ e0 :: after := by
    intro e he
    exact List.mem_append_right _ (List.mem_cons_of_mem _ he)
  have hdistinct := h.distinct
  rw [List.pairwise_append, List.pairwise_cons] at hdistinct
  obtain ⟨hdbefore, ⟨hde0, hdafter⟩, hcross⟩ := hdistinct
  have hmem : forall e, e ∈ before ++ (e0.1, e0.2 ++ [r]) :: after ->
      (e ∈ before ++ e0 :: after ∧ e.1.same k = false) ∨ e = (e0.1, e0.2 ++ [r]) := by
    intro e he
    rcases List.mem_append.mp he with he | he
    · exact Or.inl ⟨List.mem_append_left _ he, hbefore e he⟩
    · rcases List.mem_cons.mp he with he | he
      · exact Or.inr he
      · refine Or.inl ⟨hafter e he, ?_⟩
        -- Two entries with the key of the record would be one.
        cases hsame : e.1.same k with
        | false => rfl
        | true =>
            obtain ⟨_, _, hekey⟩ := h.keys e (hafter e he)
            have hsame' := same_trans hsame0 (same_symm_of_hashable hekey.2 hsame)
            rw [hde0 e he] at hsame'
            cases hsame'
  have hstays : forall e, e ∈ before ++ e0 :: after ->
      exists e', e' ∈ before ++ (e0.1, e0.2 ++ [r]) :: after ∧ e'.1 = e.1 := by
    intro e he
    rcases List.mem_append.mp he with he | he
    · exact ⟨e, List.mem_append_left _ he, rfl⟩
    · rcases List.mem_cons.mp he with he | he
      · rw [he]
        exact ⟨_, List.mem_append_right _ List.mem_cons_self, rfl⟩
      · exact ⟨e, List.mem_append_right _ (List.mem_cons_of_mem _ he), rfl⟩
  constructor
  · exact h.keyed_append hk
  · rw [List.pairwise_append, List.pairwise_cons]
    refine ⟨hdbefore, ⟨hde0, hdafter⟩, ?_⟩
    intro e he e' he'
    rcases List.mem_cons.mp he' with he' | he'
    · rw [he']
      exact hcross e he e0 List.mem_cons_self
    · exact hcross e he e' (List.mem_cons_of_mem _ he')
  · intro e he
    rcases hmem e he with ⟨he, _⟩ | he
    · exact h.keys_append he
    · rw [he]
      show exists r', r' ∈ records ++ [r] ∧ KeyOf r' e0.1
      exact h.keys_append he0
  · intro e he
    rcases hmem e he with ⟨he, hsame⟩ | he
    · exact h.entries_append hk he hsame
    · rw [he]
      show e0.2 ++ [r] = (records ++ [r]).filter (hasKey e0.1)
      rw [List.filter_append, ← h.entries e0 he0, List.filter_cons_of_pos hself]
      rfl
  · intro r' hr'
    rcases List.mem_append.mp hr' with hr' | hr'
    · obtain ⟨e, he, hhas⟩ := h.covered r' hr'
      obtain ⟨e', he', heq⟩ := hstays e he
      exact ⟨e', he', by rw [heq]; exact hhas⟩
    · rw [List.mem_singleton.mp hr']
      obtain ⟨e', he', heq⟩ := hstays e0 he0
      exact ⟨e', he', by rw [heq]; exact hself⟩

theorem Filed.add {records : List (Value F)} {cases : List (CaseKey F × List (Value F))}
    (h : Filed records cases) {r : Value F} {k : CaseKey F} (hk : KeyOf r k) :
    Filed (records ++ [r]) (addCase k r cases) := by
  rcases addCase_cases k r cases with ⟨hnone, hadd⟩ | ⟨before, e0, after, rfl, hsame0, hbefore,
    hadd⟩
  · rw [hadd]
    exact h.add_new hk hnone
  · rw [hadd]
    exact h.add_known hk hsame0 hbefore

theorem byCase_filed {candidate : List (Value F)} {cases : List (CaseKey F × List (Value F))}
    (h : byCase candidate = .ok cases) : Filed candidate cases := by
  have hempty : Filed ([] : List (Value F)) [] :=
    { keyed := List.forall_mem_nil _
      distinct := List.Pairwise.nil
      keys := List.forall_mem_nil _
      entries := List.forall_mem_nil _
      covered := List.forall_mem_nil _ }
  have hstep : forall done cases (r : Value F) cases', Filed done cases -> (do
      let key ← hashed (← caseKey r)
      pure (addCase key r cases)) = .ok cases' -> Filed (done ++ [r]) cases' := by
    intro done cases r cases' hdone hstep
    obtain ⟨k, hk, hcases'⟩ := addKey_step.mp hstep
    rw [hcases']
    exact hdone.add hk
  exact Fallible.foldlM_prefix hstep hempty h

/-- The records are filed when every key can be looked up. -/
theorem exists_byCase {candidate : List (Value F)}
    (h : forall r, r ∈ candidate -> exists k, KeyOf r k) :
    exists cases, byCase candidate = .ok cases := by
  apply Fallible.exists_foldlM_eq_ok
  intro r hr cases
  obtain ⟨k, hk⟩ := h r hr
  exact ⟨addCase k r cases, addKey_step.mpr ⟨k, hk, rfl⟩⟩

/-!
## The baseline
-/

theorem findCase_setBase {key k : CaseKey F} {r : Value F} {bases : List (CaseKey F × Value F)}
    (hk : hashable k.bench = true)
    (hbases : forall e, e ∈ bases -> hashable e.1.bench = true) :
    findCase key (setBase k r bases) =
      if k.same key then some r else findCase key bases := by
  induction bases with
  | nil => rfl
  | cons e bases ih =>
      have he := hbases e List.mem_cons_self
      rw [setBase]
      cases hsame : e.1.same k with
      | true =>
          rw [if_pos rfl, findCase, findCase]
          have hiff : e.1.same key = k.same key := by
            rw [Bool.eq_iff_iff]
            constructor
            · intro h
              exact same_trans (same_symm_of_hashable he hsame) h
            · intro h
              exact same_trans hsame h
          rw [hiff]
          cases k.same key with
          | true => rfl
          | false => rfl
      | false =>
          rw [if_neg Bool.false_ne_true, findCase,
            ih (fun e' he' => hbases e' (List.mem_cons_of_mem e he')), findCase]
          cases hkey : e.1.same key with
          | false => rfl
          | true =>
              have hother : k.same key = false := by
                cases h : k.same key with
                | false => rfl
                | true =>
                    have hsame' := same_trans hkey (same_symm_of_hashable hk h)
                    rw [hsame] at hsame'
                    cases hsame'
              rw [hother]
              rfl

/-- What is found under a key is its last record. -/
structure Based (records : List (Value F)) (bases : List (CaseKey F × Value F)) : Prop where
  keyed : forall r, r ∈ records -> exists k, KeyOf r k
  keys : forall e, e ∈ bases -> hashable e.1.bench = true
  last : forall k : CaseKey F, hashable k.bench = true ->
    findCase k bases = (records.filter (hasKey k)).getLast?

theorem keys_setBase {k : CaseKey F} {r : Value F} {bases : List (CaseKey F × Value F)}
    (hk : hashable k.bench = true)
    (hbases : forall e, e ∈ bases -> hashable e.1.bench = true) :
    forall e, e ∈ setBase k r bases -> hashable e.1.bench = true := by
  induction bases with
  | nil =>
      intro e he
      rw [List.mem_singleton.mp he]
      exact hk
  | cons e' bases ih =>
      intro e he
      rw [setBase] at he
      split_ifs at he with hsame
      · rcases List.mem_cons.mp he with he | he
        · rw [he]
          exact hbases e' List.mem_cons_self
        · exact hbases e (List.mem_cons_of_mem e' he)
      · rcases List.mem_cons.mp he with he | he
        · rw [he]
          exact hbases e' List.mem_cons_self
        · exact ih (fun e he => hbases e (List.mem_cons_of_mem e' he)) e he

theorem Based.set {records : List (Value F)} {bases : List (CaseKey F × Value F)}
    (h : Based records bases) {r : Value F} {k : CaseKey F} (hk : KeyOf r k) :
    Based (records ++ [r]) (setBase k r bases) := by
  constructor
  · intro r' hr'
    rcases List.mem_append.mp hr' with hr' | hr'
    · exact h.keyed r' hr'
    · rw [List.mem_singleton.mp hr']
      exact ⟨k, hk⟩
  · exact keys_setBase hk.2 h.keys
  · intro key hkey
    rw [findCase_setBase hk.2 h.keys, List.filter_append, h.last key hkey]
    cases hsame : k.same key with
    | true =>
        have hhas : hasKey key r = true := by
          rw [hasKey_of_keyOf hk]
          exact same_symm_of_hashable hk.2 hsame
        rw [if_pos rfl, List.filter_cons_of_pos hhas, List.filter_nil, List.getLast?_concat]
    | false =>
        have hhas : ¬hasKey key r = true := by
          rw [hasKey_of_keyOf hk]
          intro h
          rw [same_symm_of_hashable hkey h] at hsame
          cases hsame
        rw [if_neg Bool.false_ne_true, List.filter_cons_of_neg hhas, List.filter_nil,
          List.append_nil]

theorem baseByCase_based {baseline : List (Value F)} {bases : List (CaseKey F × Value F)}
    (h : baseByCase baseline = .ok bases) : Based baseline bases := by
  have hempty : Based ([] : List (Value F)) [] :=
    { keyed := List.forall_mem_nil _
      keys := List.forall_mem_nil _
      last := fun _ _ => rfl }
  have hstep : forall done bases (r : Value F) bases', Based done bases -> (do
      let key ← hashed (← caseKey r)
      pure (setBase key r bases)) = .ok bases' -> Based (done ++ [r]) bases' := by
    intro done bases r bases' hdone hstep
    obtain ⟨k, hk, hbases'⟩ := addKey_step.mp hstep
    rw [hbases']
    exact hdone.set hk
  exact Fallible.foldlM_prefix hstep hempty h

theorem exists_baseByCase {baseline : List (Value F)}
    (h : forall r, r ∈ baseline -> exists k, KeyOf r k) :
    exists bases, baseByCase baseline = .ok bases := by
  apply Fallible.exists_foldlM_eq_ok
  intro r hr bases
  obtain ⟨k, hk⟩ := h r hr
  exact ⟨setBase k r bases, addKey_step.mpr ⟨k, hk, rfl⟩⟩

/-!
## Records that the validation takes
-/

/-- What the validation leaves of a record. -/
structure Accepted (fields : List (String × Value F)) (compat : Value F)
    (samples : List (Value F)) : Prop where
  required : forall f, f ∈ requiredFields -> exists v, Value.lookup f fields = some v
  compatIs : Value.lookup "compat" fields = some compat
  compatHas : forall f, f ∈ compatFields -> compat.contains f = .ok true
  samplesAre : Value.lookup "samples" fields = some (.list samples)
  nonempty : samples ≠ []
  finite : allFinite samples = .ok true

omit [FloatText F] in
theorem requireIn_ok {v : Value F} {what : String} {fields : List String}
    (h : requireIn v what fields = .ok ()) : forall f, f ∈ fields -> v.contains f = .ok true := by
  induction fields with
  | nil => exact List.forall_mem_nil _
  | cons f fields ih =>
      rw [requireIn] at h
      obtain ⟨b, hb, h⟩ := Fallible.bind_eq_ok.mp h
      cases b with
      | false => cases h
      | true =>
          intro f' hf'
          rcases List.mem_cons.mp hf' with hf' | hf'
          · rw [hf', hb]
          · exact ih h f' hf'

omit [FloatText F] in
theorem item_dict_iff {fields : List (String × Value F)} {f : String} {v : Value F} :
    (Value.dict fields).item f = .ok v <-> Value.lookup f fields = some v := by
  unfold Value.item
  simp only
  split
  · rename_i w hlookup
    rw [hlookup]
    constructor
    · intro h
      injection h with h
      rw [h]
    · intro h
      injection h with h
      rw [h]
  · rename_i hlookup
    rw [hlookup]
    constructor
    · intro h
      cases h
    · intro h
      cases h

omit [FloatText F] in
theorem contains_dict {fields : List (String × Value F)} {f : String}
    (h : (Value.dict fields).contains f = .ok true) : exists v, Value.lookup f fields = some v := by
  change Except.ok (Value.lookup f fields).isSome = .ok true at h
  injection h with h
  exact Option.isSome_iff_exists.mp h

/-- The last test of the validation. -/
def checkSamples (samples : Value F) : Except Exn Unit :=
  match samples with
  | .list (s :: rest) => do
      if !(← allFinite (s :: rest)) then
        throw (.schemaError "'samples' contains non-finite or non-numeric values")
  | _ => throw (.schemaError "'samples' must be a non-empty list")

theorem checkSamples_ok {v : Value F} (h : checkSamples v = .ok ()) :
    exists samples, v = .list samples ∧ samples ≠ [] ∧ allFinite samples = .ok true := by
  unfold checkSamples at h
  split at h
  · rename_i s rest
    obtain ⟨b, hfinite, h⟩ := Fallible.bind_eq_ok.mp h
    cases b with
    | false => cases h
    | true => exact ⟨s :: rest, rfl, List.cons_ne_nil s rest, hfinite⟩
  · cases h

theorem accepted_of_validate {py : Python F} {r : Value F} (h : validate py r = .ok ()) :
    exists fields compat samples, r = .dict fields ∧ Accepted fields compat samples := by
  unfold validate at h
  obtain ⟨version, hversion, h⟩ := Fallible.bind_eq_ok.mp h
  have hdict : exists fields, r = .dict fields := by
    cases r with
    | dict fields => exact ⟨fields, rfl⟩
    | _ => cases hversion
  obtain ⟨fields, rfl⟩ := hdict
  simp only at h
  split_ifs at h with hdiffers
  · cases h
  · obtain ⟨_, hrequired, h⟩ := Fallible.bind_eq_ok.mp h
    obtain ⟨provenance, _, h⟩ := Fallible.bind_eq_ok.mp h
    obtain ⟨_, _, h⟩ := Fallible.bind_eq_ok.mp h
    obtain ⟨compat, hcompat, h⟩ := Fallible.bind_eq_ok.mp h
    obtain ⟨_, hcompatFields, h⟩ := Fallible.bind_eq_ok.mp h
    obtain ⟨devices, _, h⟩ := Fallible.bind_eq_ok.mp h
    have hsamples : ((Value.dict fields).item "samples" >>= checkSamples) = .ok () := by
      cases hdevices : devices.getD .none with
      | none =>
          rw [hdevices] at h
          exact h
      | _ =>
          rw [hdevices] at h
          simp only at h
          split_ifs at h
          · cases h
          · exact h
    obtain ⟨v, hitem, hchecked⟩ := Fallible.bind_eq_ok.mp hsamples
    obtain ⟨samples, rfl, hnonempty, hfinite⟩ := checkSamples_ok hchecked
    refine ⟨fields, compat, samples, rfl, ?_⟩
    constructor
    · intro f hf
      exact contains_dict (requireIn_ok hrequired f hf)
    · exact item_dict_iff.mp hcompat
    · exact requireIn_ok hcompatFields
    · exact item_dict_iff.mp hitem
    · exact hnonempty
    · exact hfinite

/-- The samples are finite numbers. -/
theorem numbers_ok {samples : List (Value F)} (h : allFinite samples = .ok true) :
    exists xs, numbers samples = .ok xs ∧ forall x, x ∈ xs -> x.Finite := by
  induction samples with
  | nil => exact ⟨[], rfl, List.forall_mem_nil _⟩
  | cons s samples ih =>
      rw [allFinite] at h
      cases hs : isFiniteNumber s with
      | error e =>
          rw [hs] at h
          cases h
      | ok b =>
          rw [hs] at h
          cases b with
          | false => cases h
          | true =>
              obtain ⟨xs, hxs, hfinite⟩ := ih h
              have hsample : exists x, sample? s = some x ∧ x.Finite := by
                cases s with
                | bool b =>
                    refine ⟨.int b.toInt, rfl, ?_⟩
                    show b.toInt.natAbs < floatLimit
                    cases b with
                    | true => decide +kernel
                    | false => decide +kernel
                | int n =>
                    refine ⟨.int n, rfl, ?_⟩
                    simp only [isFiniteNumber] at hs
                    split_ifs at hs with hn
                    · exact hn
                | float x =>
                    refine ⟨.float (PyFloat.value x), rfl, ?_⟩
                    simp only [isFiniteNumber] at hs
                    split at hs
                    · rename_i q hx
                      exact ⟨q, hx⟩
                    · cases hs
                | _ => cases hs
              obtain ⟨x, hx, hxfinite⟩ := hsample
              refine ⟨x :: xs, ?_, ?_⟩
              · unfold numbers at hxs ⊢
                rw [List.mapM_cons, hxs, hx]
                rfl
              · intro y hy
                rcases List.mem_cons.mp hy with hy | hy
                · rw [hy]
                  exact hxfinite
                · exact hfinite y hy

/-!
## The compatibility fields
-/

/-- A compatibility field, none where it is missing. -/
def field (compat : List (String × Value F)) (f : String) : Value F :=
  (Value.lookup f compat).getD .none

def fieldsOf (compat : List (String × Value F)) : List (Value F) :=
  compatFields.map (field compat)

omit [FloatText F] in
theorem compatKey_dict {r : Value F} {compat : List (String × Value F)}
    (h : r.item "compat" = .ok (.dict compat)) : compatKey r = .ok (fieldsOf compat) := by
  unfold compatKey
  rw [h, Fallible.ok_bind, Fallible.mapM_eq_ok, fieldsOf, List.forall₂_map_right_iff]
  exact List.forall₂_same.mpr fun f _ => rfl

omit [FloatText F] in
theorem dict_of_compatKey {r : Value F} {key : List (Value F)} (h : compatKey r = .ok key) :
    exists compat, r.item "compat" = .ok (.dict compat) := by
  unfold compatKey at h
  obtain ⟨compat, hcompat, h⟩ := Fallible.bind_eq_ok.mp h
  have hgpu : "gpu" ∈ compatFields := List.mem_cons_self
  obtain ⟨_, _, hget⟩ := Fallible.forall₂_mem_left (Fallible.mapM_eq_ok.mp h) hgpu
  obtain ⟨_, hget, _⟩ := Fallible.bind_eq_ok.mp hget
  cases compat with
  | dict compat => exact ⟨compat, hcompat⟩
  | _ => cases hget

/-- A topology that can be written in a note: an id or none. -/
def isId : Value F -> Bool
  | .none => true
  | .str _ => true
  | _ => false

omit [FloatText F] in
theorem short_ok_iff {v : Value F} : (exists s, short v = .ok s) <-> isId v = true := by
  cases v with
  | none => exact iff_of_true ⟨_, rfl⟩ rfl
  | str s => exact iff_of_true ⟨_, rfl⟩ rfl
  | _ =>
      refine iff_of_false ?_ Bool.false_ne_true
      intro h
      obtain ⟨s, h⟩ := h
      cases h

omit [FloatText F] in
theorem topologyNote_ok_iff {v w : Value F} :
    (exists s, topologyNote v w = .ok s) <-> isId v = true ∧ isId w = true := by
  unfold topologyNote
  constructor
  · intro h
    obtain ⟨s, h⟩ := h
    obtain ⟨b, hb, h⟩ := Fallible.bind_eq_ok.mp h
    obtain ⟨c, hc, _⟩ := Fallible.bind_eq_ok.mp h
    exact ⟨short_ok_iff.mp ⟨b, hb⟩, short_ok_iff.mp ⟨c, hc⟩⟩
  · intro h
    obtain ⟨b, hb⟩ := short_ok_iff.mpr h.1
    obtain ⟨c, hc⟩ := short_ok_iff.mpr h.2
    rw [hb, Fallible.ok_bind, hc, Fallible.ok_bind]
    split
    · exact ⟨_, rfl⟩
    · exact ⟨_, rfl⟩
    · exact ⟨_, rfl⟩

theorem mem_diff {b c : List (String × Value F)} {f : String} :
    f ∈ ((compatFields.zip ((fieldsOf b).zip (fieldsOf c))).filter
        fun e => e.2.1.differs e.2.2).map Prod.fst <->
      f ∈ compatFields ∧ (field b f).differs (field c f) = true := by
  have hzip : compatFields.zip ((fieldsOf b).zip (fieldsOf c)) =
      compatFields.map fun f => (f, field b f, field c f) := by
    have hid : compatFields = compatFields.map id := (List.map_id _).symm
    rw [fieldsOf, fieldsOf, List.zip_map']
    conv_lhs =>
      arg 1
      rw [hid]
    rw [List.zip_map']
    rfl
  rw [hzip, List.mem_map]
  constructor
  · intro h
    obtain ⟨e, he, hf⟩ := h
    obtain ⟨he, hdiffers⟩ := List.mem_filter.mp he
    obtain ⟨f', hf', rfl⟩ := List.mem_map.mp he
    cases hf
    exact ⟨hf', hdiffers⟩
  · intro h
    exact ⟨(f, field b f, field c f),
      List.mem_filter.mpr ⟨List.mem_map.mpr ⟨f, h.1, rfl⟩, h.2⟩, rfl⟩

/-- The note on differing fields: the topologies are written when they differ. -/
theorem compatNote_ok_iff {base cand : Value F} {b c : List (String × Value F)}
    (hb : base.item "compat" = .ok (.dict b)) (hc : cand.item "compat" = .ok (.dict c))
    (hbt : exists v, Value.lookup "topology" b = some v)
    (hct : exists v, Value.lookup "topology" c = some v) :
    (exists s, compatNote base cand = .ok s) <->
      ((field b "topology").differs (field c "topology") = true ->
        isId (field b "topology") = true ∧ isId (field c "topology") = true) := by
  obtain ⟨v, hv⟩ := hbt
  obtain ⟨w, hw⟩ := hct
  have hfieldb : field b "topology" = v := by
    unfold field
    rw [hv]
    rfl
  have hfieldc : field c "topology" = w := by
    unfold field
    rw [hw]
    rfl
  have htopology : "topology" ∈ compatFields := by decide
  unfold compatNote
  rw [compatKey_dict hb, Fallible.ok_bind, compatKey_dict hc, Fallible.ok_bind]
  simp only [mem_diff, htopology, true_and]
  rw [hfieldb, hfieldc]
  split_ifs with hdiffers
  · rw [hb, Fallible.ok_bind, item_dict_iff.mpr hv, Fallible.ok_bind, hc, Fallible.ok_bind,
      item_dict_iff.mpr hw, Fallible.ok_bind]
    constructor
    · intro h _
      obtain ⟨s, h⟩ := h
      obtain ⟨note, hnote, _⟩ := Fallible.bind_eq_ok.mp h
      exact topologyNote_ok_iff.mp ⟨note, hnote⟩
    · intro h
      obtain ⟨note, hnote⟩ := topologyNote_ok_iff.mpr (h hdiffers)
      rw [hnote]
      exact ⟨_, rfl⟩
  · exact iff_of_true ⟨_, rfl⟩ (fun h => absurd h hdiffers)

/-!
## One case
-/

/-- What the comparison of a candidate record with a baseline record needs beyond the
validation. -/
structure Comparable (g : Generator F) (base cand : Value F)
    (b c : List (String × Value F)) : Prop where
  baseCompat : base.item "compat" = .ok (.dict b)
  candCompat : cand.item "compat" = .ok (.dict c)
  /-- With equal fields and ten samples a side, every median can be divided. -/
  medians : sameCompat (fieldsOf b) (fieldsOf c) = true ->
    forall samples samples' xs ys, samplesOf base = .ok samples -> samplesOf cand = .ok samples' ->
      minSamples ≤ samples.length -> minSamples ≤ samples'.length ->
      numbers samples = .ok xs -> numbers samples' = .ok ys -> Sampled g xs ys
  /-- With different fields, topologies that differ are ids or none. -/
  topologies : sameCompat (fieldsOf b) (fieldsOf c) = false ->
    (field b "topology").differs (field c "topology") = true ->
      isId (field b "topology") = true ∧ isId (field c "topology") = true

omit [FloatText F] in
theorem samplesOf_dict {fields : List (String × Value F)} {samples : List (Value F)}
    (h : Value.lookup "samples" fields = some (.list samples)) :
    samplesOf (.dict fields) = .ok samples := by
  unfold samplesOf
  rw [item_dict_iff.mpr h]
  rfl

omit [FloatText F] in
theorem numbers_length [PyFloat F] {samples : List (Value F)} {xs : List Num}
    (h : numbers samples = .ok xs) : xs.length = samples.length :=
  ((Fallible.mapM_eq_ok.mp h).length_eq).symm

/-- The comparison of the samples of two accepted records. -/
theorem compareCase_ok_iff {py : Python F} {g : Generator F} {samples samples' : List (Value F)}
    {higher : Value F} (hne : samples ≠ []) (hne' : samples' ≠ [])
    (h : allFinite samples = .ok true) (h' : allFinite samples' = .ok true) :
    (exists r, compareCase (py.withBootstrap g) samples samples' higher = .ok r) <->
      (minSamples ≤ samples.length -> minSamples ≤ samples'.length ->
        forall xs ys, numbers samples = .ok xs -> numbers samples' = .ok ys ->
          Sampled g xs ys) := by
  obtain ⟨xs, hxs, hxfinite⟩ := numbers_ok h
  obtain ⟨ys, hys, hyfinite⟩ := numbers_ok h'
  have hxne : xs ≠ [] := by
    rw [← List.length_pos_iff, numbers_length hxs]
    exact List.length_pos_iff.mpr hne
  have hyne : ys ≠ [] := by
    rw [← List.length_pos_iff, numbers_length hys]
    exact List.length_pos_iff.mpr hne'
  have hinterval := @interval_ok_iff F _ g samples samples' xs ys higher.truthy hxs hys hxne hyne
    hxfinite hyfinite
  unfold compareCase
  split_ifs with hfew
  · refine iff_of_true ⟨_, rfl⟩ ?_
    intro hmin hmin'
    omega
  · rw [not_or, not_lt, not_lt] at hfew
    constructor
    · intro hr _ _ xs' ys' hxs' hys'
      rw [hxs] at hxs'
      rw [hys] at hys'
      cases hxs'
      cases hys'
      obtain ⟨r, hr⟩ := hr
      obtain ⟨interval, hin, _⟩ := Fallible.bind_eq_ok.mp hr
      exact hinterval.mp ⟨interval, hin⟩
    · intro hsampled
      obtain ⟨⟨d, lo, hi⟩, hin⟩ := hinterval.mpr (hsampled hfew.1 hfew.2 xs ys hxs hys)
      have hboot : (py.withBootstrap g).bootstrap samples samples' higher.truthy =
          .ok (d, lo, hi) := hin
      rw [hboot, Fallible.ok_bind]
      simp only
      split_ifs
      · exact ⟨_, rfl⟩
      · exact ⟨_, rfl⟩
      · exact ⟨_, rfl⟩

/-- The result of a case has its key. -/
theorem compareOne_key {py : Python F} {evidence : Option (Value F -> Except Exn String)}
    {bases : List (CaseKey F × Value F)} {key : CaseKey F} {records : List (Value F)}
    {result : CaseResult F} (h : compareOne py evidence bases key records = .ok result) :
    result.key = key := by
  unfold compareOne at h
  split at h
  · obtain ⟨problem, _, h⟩ := Fallible.bind_eq_ok.mp h
    split_ifs at h with hproblem
    · injection h with h
      rw [← h]
    · split at h
      · injection h with h
        rw [← h]
      · obtain ⟨c, _, h⟩ := Fallible.bind_eq_ok.mp h
        obtain ⟨c', _, h⟩ := Fallible.bind_eq_ok.mp h
        split_ifs at h with hcompat
        · obtain ⟨note, _, h⟩ := Fallible.bind_eq_ok.mp h
          injection h with h
          rw [← h]
        · obtain ⟨samples, _, h⟩ := Fallible.bind_eq_ok.mp h
          obtain ⟨samples', _, h⟩ := Fallible.bind_eq_ok.mp h
          obtain ⟨higher, _, h⟩ := Fallible.bind_eq_ok.mp h
          obtain ⟨⟨outcome, interval⟩, _, h⟩ := Fallible.bind_eq_ok.mp h
          injection h with h
          rw [← h]
  · injection h with h
    rw [← h]

/-- The result of a case with one record and a baseline record. -/
def compareWith (py : Python F) (key : CaseKey F) (base cand : Value F) :
    Except Exn (CaseResult F) := do
  let b ← compatKey base
  let c ← compatKey cand
  if !sameCompat b c then
    let note ← compatNote base cand
    pure { key := key, outcome := .skipped, detail := note }
  else
    let samples ← samplesOf base
    let samples' ← samplesOf cand
    let higher ← cand.item "higher_is_better"
    let (outcome, interval) ← compareCase py samples samples' higher
    pure { key := key, outcome := outcome, interval := interval }

theorem compareOne_single (py : Python F) (bases : List (CaseKey F × Value F)) (key : CaseKey F)
    (cand : Value F) : compareOne py none bases key [cand] =
      match findCase key bases with
      | none => .ok { key := key, outcome := .skipped, detail := "no baseline for this case" }
      | some base => compareWith py key base cand := by
  rfl

/-- A case with one record has a result when its baseline record can be compared with it. -/
theorem compareOne_ok_iff {py : Python F} {g : Generator F} {bases : List (CaseKey F × Value F)}
    {key : CaseKey F} {cand : Value F} (hcand : validate py cand = .ok ())
    (hbases : forall base, findCase key bases = some base -> validate py base = .ok ()) :
    (exists r, compareOne (py.withBootstrap g) none bases key [cand] = .ok r) <->
      forall base, findCase key bases = some base -> exists b c, Comparable g base cand b c := by
  rw [compareOne_single]
  cases hfind : findCase key bases with
  | none =>
      refine iff_of_true ⟨_, rfl⟩ ?_
      intro base hbase
      cases hbase
  | some base =>
      obtain ⟨fields', compat', samples', rfl, hc⟩ := accepted_of_validate hcand
      obtain ⟨fields, compat, samples, rfl, hb⟩ := accepted_of_validate (hbases base hfind)
      have hbitem := item_dict_iff.mpr hb.compatIs
      have hcitem := item_dict_iff.mpr hc.compatIs
      obtain ⟨higher, hhigher⟩ := hc.required "higher_is_better" (by decide)
      have htopology : "topology" ∈ compatFields := by decide
      show (exists r, compareWith (py.withBootstrap g) key (.dict fields) (.dict fields') = .ok r)
        <-> _
      unfold compareWith
      constructor
      · intro hr base hbase
        cases hbase
        obtain ⟨r, hr⟩ := hr
        obtain ⟨key1, hkey1, hr⟩ := Fallible.bind_eq_ok.mp hr
        obtain ⟨key2, hkey2, hr⟩ := Fallible.bind_eq_ok.mp hr
        obtain ⟨b, hbdict⟩ := dict_of_compatKey hkey1
        obtain ⟨c, hcdict⟩ := dict_of_compatKey hkey2
        rw [compatKey_dict hbdict] at hkey1
        rw [compatKey_dict hcdict] at hkey2
        injection hkey1 with hkey1
        injection hkey2 with hkey2
        have hbeq := hbdict
        rw [hbitem] at hbeq
        injection hbeq with hbeq
        have hceq := hcdict
        rw [hcitem] at hceq
        injection hceq with hceq
        refine ⟨b, c, hbdict, hcdict, ?_, ?_⟩
        · intro hsame s s' xs ys hs hs' hmin hmin' hxs hys
          rw [samplesOf_dict hb.samplesAre] at hs
          rw [samplesOf_dict hc.samplesAre] at hs'
          cases hs
          cases hs'
          rw [← hkey1, ← hkey2, hsame] at hr
          simp only [Bool.not_true, Bool.false_eq_true, if_false] at hr
          rw [samplesOf_dict hb.samplesAre, Fallible.ok_bind, samplesOf_dict hc.samplesAre,
            Fallible.ok_bind, item_dict_iff.mpr hhigher, Fallible.ok_bind] at hr
          obtain ⟨result, hresult, _⟩ := Fallible.bind_eq_ok.mp hr
          exact (compareCase_ok_iff hb.nonempty hc.nonempty hb.finite hc.finite).mp
            ⟨result, hresult⟩ hmin hmin' xs ys hxs hys
        · intro hother
          rw [← hkey1, ← hkey2, hother] at hr
          simp only [Bool.not_false, if_true] at hr
          obtain ⟨note, hnote, _⟩ := Fallible.bind_eq_ok.mp hr
          exact (compatNote_ok_iff hbdict hcdict
            (contains_dict (hbeq ▸ hb.compatHas "topology" htopology))
            (contains_dict (hceq ▸ hc.compatHas "topology" htopology))).mp ⟨note, hnote⟩
      · intro h
        obtain ⟨b, c, hcomparable⟩ := h _ rfl
        have hbeq := hcomparable.baseCompat
        rw [hbitem] at hbeq
        injection hbeq with hbeq
        have hceq := hcomparable.candCompat
        rw [hcitem] at hceq
        injection hceq with hceq
        rw [compatKey_dict hcomparable.baseCompat, Fallible.ok_bind,
          compatKey_dict hcomparable.candCompat,
          Fallible.ok_bind]
        cases hsame : sameCompat (fieldsOf b) (fieldsOf c) with
        | false =>
            obtain ⟨note, hnote⟩ := (compatNote_ok_iff hcomparable.baseCompat hcomparable.candCompat
              (contains_dict (hbeq ▸ hb.compatHas "topology" htopology))
              (contains_dict (hceq ▸ hc.compatHas "topology" htopology))).mpr
                (hcomparable.topologies hsame)
            simp only [Bool.not_false, if_true]
            rw [hnote]
            exact ⟨_, rfl⟩
        | true =>
            have hcase := @compareCase_ok_iff F _ py g samples samples' higher hb.nonempty
              hc.nonempty hb.finite hc.finite
            obtain ⟨⟨outcome, interval⟩, hresult⟩ := hcase.mpr
              (fun hmin hmin' xs ys hxs hys =>
                hcomparable.medians hsame samples samples' xs ys (samplesOf_dict hb.samplesAre)
                  (samplesOf_dict hc.samplesAre) hmin hmin' hxs hys)
            simp only [Bool.not_true, Bool.false_eq_true, if_false]
            rw [samplesOf_dict hb.samplesAre, Fallible.ok_bind, samplesOf_dict hc.samplesAre,
              Fallible.ok_bind, item_dict_iff.mpr hhigher, Fallible.ok_bind, hresult]
            exact ⟨_, rfl⟩

/-!
## The manifest
-/

omit [FloatText F] in
theorem findCase_isNone_iff [FloatText F] {A : Type} {key : CaseKey F}
    {entries : List (CaseKey F × A)} :
    (findCase key entries).isNone = true <-> forall e, e ∈ entries -> e.1.same key = false := by
  induction entries with
  | nil => exact iff_of_true rfl (List.forall_mem_nil _)
  | cons e entries ih =>
      rw [findCase, List.forall_mem_cons]
      cases hsame : e.1.same key with
      | true =>
          rw [if_pos rfl]
          constructor
          · intro h
            cases h
          · intro h
            cases h.1
      | false =>
          rw [if_neg Bool.false_ne_true, ih]
          constructor
          · intro h
            exact ⟨rfl, h⟩
          · intro h
            exact h.2

/-- A case of the manifest is missing when no record of the candidate has it. -/
theorem Filed.missing {candidate : List (Value F)} {cases : List (CaseKey F × List (Value F))}
    (h : Filed candidate cases) {key : CaseKey F} (hkey : hashable key.bench = true) :
    (findCase key cases).isNone = !candidate.any (hasKey key) := by
  rw [Bool.eq_iff_iff, findCase_isNone_iff, Bool.not_eq_true', List.any_eq_false]
  constructor
  · intro hnone r hr hhas
    obtain ⟨e, he, hentry⟩ := h.covered r hr
    obtain ⟨k, hk⟩ := h.keyed r hr
    rw [hasKey_of_keyOf hk] at hhas hentry
    have hsame := same_trans hentry (same_symm_of_hashable hkey hhas)
    rw [hnone e he] at hsame
    cases hsame
  · intro hnone e he
    cases hsame : e.1.same key with
    | false => rfl
    | true =>
        obtain ⟨r, hr, hk⟩ := h.keys e he
        refine absurd ?_ (hnone r hr)
        rw [hasKey_of_keyOf hk]
        exact same_symm_of_hashable hk.2 hsame

theorem expected_eq_ok {manifest : List (Value F)} {keys : List (CaseKey F)} :
    (do
      let expected ← manifest.mapM caseKey
      expected.mapM hashed) = (.ok keys : Except Exn (List (CaseKey F))) <->
        List.Forall₂ KeyOf manifest keys := by
  constructor
  · intro h
    obtain ⟨expected, hexpected, h⟩ := Fallible.bind_eq_ok.mp h
    rw [← Fallible.mapM_bind hexpected, Fallible.mapM_eq_ok] at h
    exact h.imp fun r k hk => hashedKey_eq_ok.mp hk
  · intro h
    have hexpected : manifest.mapM caseKey = .ok keys :=
      Fallible.mapM_eq_ok.mpr (h.imp fun r k hk => hk.1)
    rw [hexpected, Fallible.ok_bind, ← Fallible.mapM_bind hexpected, Fallible.mapM_eq_ok]
    exact h.imp fun r k hk => hashedKey_eq_ok.mpr hk

theorem missingCases_eq_ok {cases : List (CaseKey F × List (Value F))}
    {manifest : List (Value F)} {missing : List (CaseResult F)} :
    missingCases cases manifest = .ok missing <->
      exists keys, List.Forall₂ KeyOf manifest keys ∧
        missing = (keys.filter fun key => (findCase key cases).isNone).map fun key =>
          { key := key, outcome := .invalid, detail := "missing from the candidate results" } := by
  have hassoc : missingCases cases manifest = (do
      let expected ← manifest.mapM caseKey
      expected.mapM hashed) >>= fun keys =>
        pure ((keys.filter fun key => (findCase key cases).isNone).map fun key =>
          { key := key, outcome := .invalid
            detail := "missing from the candidate results" }) := by
    unfold missingCases
    cases manifest.mapM caseKey with
    | error e => rfl
    | ok expected => rfl
  rw [hassoc, Fallible.bind_eq_ok]
  constructor
  · intro h
    obtain ⟨keys, hkeys, h⟩ := h
    injection h with h
    exact ⟨keys, expected_eq_ok.mp hkeys, h.symm⟩
  · intro h
    obtain ⟨keys, hkeys, h⟩ := h
    exact ⟨keys, expected_eq_ok.mpr hkeys, by rw [h]; rfl⟩

/-!
## All results
-/

/-- The results are those of the missing cases, and one for each case of the candidate. -/
structure Covers (candidate manifest : List (Value F)) (missing compared : List (CaseResult F)) :
    Prop where
  expected : exists keys, List.Forall₂ KeyOf manifest keys ∧
    missing.map CaseResult.key = keys.filter fun key => !candidate.any (hasKey key)
  invalid : forall r, r ∈ missing -> r.outcome = .invalid
  distinct : compared.Pairwise fun a b => a.key.same b.key = false
  cases : forall r, r ∈ compared -> exists cand, cand ∈ candidate ∧ KeyOf cand r.key
  covered : forall cand, cand ∈ candidate ->
    exists r, r ∈ compared ∧ hasKey r.key cand = true

/-- What the comparison of runs needs beyond the validation. -/
structure Ready (g : Generator F) (baseline candidate manifest : List (Value F)) : Prop where
  baselineKeys : forall r, r ∈ baseline -> exists k, KeyOf r k
  candidateKeys : forall r, r ∈ candidate -> exists k, KeyOf r k
  manifestKeys : forall m, m ∈ manifest -> exists k, KeyOf m k
  /-- The one record of a case and the last baseline record of the case. -/
  pairs : forall cand base, candidate.filter (sameCase cand) = [cand] ->
    (baseline.filter (sameCase cand)).getLast? = some base ->
      exists b c, Comparable g base cand b c

/-- The results of the cases cover the candidate. -/
theorem covers_of_filed {candidate manifest : List (Value F)}
    {cases : List (CaseKey F × List (Value F))} {missing compared : List (CaseResult F)}
    (h : Filed candidate cases) (hmissing : missingCases cases manifest = .ok missing)
    (hcompared : List.Forall₂ (fun e r => CaseResult.key r = e.1) cases compared) :
    Covers candidate manifest missing compared := by
  obtain ⟨keys, hkeys, rfl⟩ := missingCases_eq_ok.mp hmissing
  have hmap : compared.map CaseResult.key = cases.map Prod.fst := by
    clear h hmissing
    induction hcompared with
    | nil => rfl
    | cons hkey _ ih => rw [List.map_cons, List.map_cons, ih, hkey]
  constructor
  · refine ⟨keys, hkeys, ?_⟩
    rw [List.map_map]
    show List.map id _ = _
    rw [List.map_id]
    apply List.filter_congr
    intro key hkey
    obtain ⟨m, _, hm⟩ := Fallible.forall₂_mem_right hkeys hkey
    exact h.missing hm.2
  · intro r hr
    obtain ⟨key, _, rfl⟩ := List.mem_map.mp hr
    rfl
  · have hpairs : (cases.map Prod.fst).Pairwise fun a b => a.same b = false :=
      List.pairwise_map.mpr h.distinct
    rw [← hmap] at hpairs
    exact List.pairwise_map.mp hpairs
  · intro r hr
    obtain ⟨e, he, hkey⟩ := Fallible.forall₂_mem_right hcompared hr
    obtain ⟨cand, hcand, hk⟩ := h.keys e he
    refine ⟨cand, hcand, ?_⟩
    rw [hkey]
    exact hk
  · intro cand hcand
    obtain ⟨e, he, hhas⟩ := h.covered cand hcand
    obtain ⟨r, hr, hkey⟩ := Fallible.forall₂_mem_left hcompared he
    refine ⟨r, hr, ?_⟩
    rw [hkey]
    exact hhas

/-- The condition on the pairs, read from the entries of the cases. -/
theorem pairs_iff {g : Generator F} {baseline candidate : List (Value F)}
    {cases : List (CaseKey F × List (Value F))} {bases : List (CaseKey F × Value F)}
    (hcases : Filed candidate cases) (hbases : Based baseline bases) :
    (forall cand base, candidate.filter (sameCase cand) = [cand] ->
      (baseline.filter (sameCase cand)).getLast? = some base ->
        exists b c, Comparable g base cand b c) <->
      forall e, e ∈ cases -> forall cand, e.2 = [cand] ->
        forall base, findCase e.1 bases = some base ->
          exists b c, Comparable g base cand b c := by
  have hentry : forall e, e ∈ cases -> forall cand, e.2 = [cand] -> KeyOf cand e.1 := by
    intro e he cand hone
    obtain ⟨r, hr, hk⟩ := hcases.keys e he
    have hmem : r ∈ e.2 := by
      rw [hcases.entries e he, List.mem_filter]
      refine ⟨hr, ?_⟩
      rw [hasKey_of_keyOf hk]
      exact same_refl_of_hashable hk.2
    rw [hone, List.mem_singleton] at hmem
    rw [← hmem]
    exact hk
  constructor
  · intro h e he cand hone base hfind
    have hk := hentry e he cand hone
    apply h
    · rw [sameCase_of_keyOf hk, ← hcases.entries e he, hone]
    · rw [sameCase_of_keyOf hk, ← hbases.last e.1 hk.2, hfind]
  · intro h cand base hone hlast
    have hmem : cand ∈ candidate := by
      have hfilter : cand ∈ candidate.filter (sameCase cand) := by
        rw [hone]
        exact List.mem_cons_self
      exact (List.mem_filter.mp hfilter).1
    obtain ⟨k, hk⟩ := hcases.keyed cand hmem
    obtain ⟨e, he, hhas⟩ := hcases.covered cand hmem
    rw [hasKey_of_keyOf hk] at hhas
    -- The entry of the record has its records, whichever of the equal keys is asked for.
    have hsame : forall r : Value F, hasKey e.1 r = hasKey k r := by
      intro r
      unfold hasKey
      cases caseKey r with
      | error _ => rfl
      | ok k' =>
          obtain ⟨_, _, hekey⟩ := hcases.keys e he
          rw [Bool.eq_iff_iff]
          constructor
          · intro h
            exact same_trans (same_symm_of_hashable hekey.2 hhas) h
          · intro h
            exact same_trans hhas h
    obtain ⟨_, _, hekey⟩ := hcases.keys e he
    rw [sameCase_of_keyOf hk, ← funext hsame] at hone hlast
    apply h e he cand
    · rw [hcases.entries e he, hone]
    · rw [hbases.last e.1 hekey.2, hlast]

/--
For records that the validation takes, the comparison returns and covers the candidate and the
manifest exactly when the keys can be looked up and each compared pair can be compared.
-/
theorem compareRuns_total {py : Python F} {g : Generator F} {baseline candidate : List (Value F)}
    {manifest : Option (List (Value F))}
    (hbaseline : forall r, r ∈ baseline -> validate py r = .ok ())
    (hcandidate : forall r, r ∈ candidate -> validate py r = .ok ()) :
    (exists missing compared,
      compareRuns (py.withBootstrap g) baseline candidate manifest none =
        .ok (missing ++ compared) ∧
      Covers candidate (manifest.getD []) missing compared) <->
        Ready g baseline candidate (manifest.getD []) := by
  have hone : forall cases bases, byCase candidate = .ok cases ->
      baseByCase baseline = .ok bases -> forall e, e ∈ cases ->
      ((exists r, compareOne (py.withBootstrap g) none bases e.1 e.2 = .ok r) <->
        forall cand, e.2 = [cand] -> forall base, findCase e.1 bases = some base ->
          exists b c, Comparable g base cand b c) := by
    intro cases bases hcases hbases e he
    have hfiled := byCase_filed hcases
    have hbased := baseByCase_based hbases
    obtain ⟨_, _, hekey⟩ := hfiled.keys e he
    by_cases hsingle : exists cand, e.2 = [cand]
    · obtain ⟨cand, hrecords⟩ := hsingle
      have hmem : cand ∈ candidate := by
        have hfilter : cand ∈ e.2 := by
          rw [hrecords]
          exact List.mem_cons_self
        rw [hfiled.entries e he] at hfilter
        exact (List.mem_filter.mp hfilter).1
      have hfound : forall base, findCase e.1 bases = some base -> validate py base = .ok () := by
        intro base hfind
        rw [hbased.last e.1 hekey.2] at hfind
        exact hbaseline base (List.mem_filter.mp (List.mem_of_getLast? hfind)).1
      rw [hrecords, compareOne_ok_iff (hcandidate cand hmem) hfound]
      constructor
      · intro h cand' hcand'
        cases hcand'
        exact h
      · intro h
        exact h cand rfl
    · have hmany : exists r, compareOne (py.withBootstrap g) none bases e.1 e.2 = .ok r := by
        unfold compareOne
        split
        · exact absurd ⟨_, ‹e.2 = _›⟩ hsingle
        · exact ⟨_, rfl⟩
      exact iff_of_true hmany (fun cand hcand => absurd ⟨cand, hcand⟩ hsingle)
  constructor
  · intro h
    obtain ⟨_, _, h, _⟩ := h
    unfold compareRuns at h
    obtain ⟨cases, hcases, h⟩ := Fallible.bind_eq_ok.mp h
    obtain ⟨bases, hbases, h⟩ := Fallible.bind_eq_ok.mp h
    obtain ⟨missing, hmissing, h⟩ := Fallible.bind_eq_ok.mp h
    obtain ⟨compared, hcompared, _⟩ := Fallible.bind_eq_ok.mp h
    have hfiled := byCase_filed hcases
    have hbased := baseByCase_based hbases
    constructor
    · exact hbased.keyed
    · exact hfiled.keyed
    · obtain ⟨keys, hkeys, _⟩ := missingCases_eq_ok.mp hmissing
      intro m hm
      obtain ⟨k, _, hk⟩ := Fallible.forall₂_mem_left hkeys hm
      exact ⟨k, hk⟩
    · rw [pairs_iff hfiled hbased]
      intro e he
      obtain ⟨r, _, hr⟩ := Fallible.forall₂_mem_left (Fallible.mapM_eq_ok.mp hcompared) he
      exact (hone cases bases hcases hbases e he).mp ⟨r, hr⟩
  · intro h
    obtain ⟨cases, hcases⟩ := exists_byCase h.candidateKeys
    obtain ⟨bases, hbases⟩ := exists_baseByCase h.baselineKeys
    have hfiled := byCase_filed hcases
    have hbased := baseByCase_based hbases
    obtain ⟨keys, hkeys⟩ : exists keys, List.Forall₂ KeyOf (manifest.getD []) keys := by
      generalize manifest.getD [] = ms at h
      have hall := h.manifestKeys
      clear h
      induction ms with
      | nil => exact ⟨[], List.Forall₂.nil⟩
      | cons m ms ih =>
          obtain ⟨k, hk⟩ := hall m List.mem_cons_self
          obtain ⟨keys, hkeys⟩ := ih (fun m' hm' => hall m' (List.mem_cons_of_mem m hm'))
          exact ⟨k :: keys, List.Forall₂.cons hk hkeys⟩
    have hmissing := (@missingCases_eq_ok F _ cases _ _).mpr ⟨keys, hkeys, rfl⟩
    obtain ⟨compared, hcompared⟩ := Fallible.exists_mapM_eq_ok
      (f := fun e : CaseKey F × List (Value F) =>
        compareOne (py.withBootstrap g) none bases e.1 e.2)
      (fun e he => (hone cases bases hcases hbases e he).mpr
        ((pairs_iff hfiled hbased).mp h.pairs e he))
    refine ⟨_, compared, ?_, covers_of_filed hfiled hmissing
      ((Fallible.mapM_eq_ok.mp hcompared).imp fun e r hr => compareOne_key hr)⟩
    unfold compareRuns
    rw [hcases, Fallible.ok_bind, hbases, Fallible.ok_bind, hmissing, Fallible.ok_bind, hcompared]
    rfl

/-- A generator that draws every sample once. -/
def onceGenerator : Generator Half where
  draws n m := List.replicate resamples (List.range n, List.range m)
  draws_length _ _ := List.length_replicate
  drawn n m p hp := by
    rw [List.eq_of_mem_replicate hp]
    exact ⟨List.length_range, List.length_range, fun i hi => List.mem_range.mp hi,
      fun i hi => List.mem_range.mp hi⟩
  sorted xs := xs
  sorted_length _ := rfl
  float _ := .half

/-- A record of a benchmark with its samples. -/
def measured (bench : String) (samples : List Int) : Value Half :=
  .dict [
    ("schema", .int 1),
    ("provenance", .dict [("git_sha", .str "0"), ("date", .str "0"), ("run_id", .str "0")]),
    ("compat", .dict (compatFields.map fun f => (f, .none))),
    ("bench", .str bench),
    ("params", .dict []),
    ("unit", .str "us"),
    ("higher_is_better", .bool false),
    ("samples", .list (samples.map Value.int))]

def earlierRead : Value Half := measured "read" [1, 2, 3, 4, 5, 6, 7, 8, 9, 10, 11]

def laterRead : Value Half := measured "read" [9, 7, 5, 3, 4, 6, 8, 10, 12, 11, 2]

def writeTwo : Value Half := measured "write" [5, 6]

/-- A case that the candidate does not have. -/
def scanCase : Value Half := .dict [("bench", .str "scan"), ("params", .dict [])]

/-- Eleven samples of one benchmark are compared with eleven, two of another with two. -/
theorem compareRuns_total_latencies :
    exists missing compared, compareRuns (smallPython.withBootstrap onceGenerator)
      [earlierRead, writeTwo] [laterRead, writeTwo] (some [scanCase]) none =
        .ok (missing ++ compared) ∧
      Covers [laterRead, writeTwo] [scanCase] missing compared := by
  have hvalid : forall r, r ∈ [earlierRead, writeTwo] -> validate smallPython r = .ok () := by
    intro r hr
    rcases List.mem_pair.mp hr with rfl | rfl
    · decide +kernel
    · decide +kernel
  have hvalid' : forall r, r ∈ [laterRead, writeTwo] -> validate smallPython r = .ok () := by
    intro r hr
    rcases List.mem_pair.mp hr with rfl | rfl
    · decide +kernel
    · decide +kernel
  have hkey : forall bench samples, exists k, KeyOf (measured bench samples) k :=
    fun _ _ => ⟨_, rfl, rfl⟩
  have hcompat : forall bench samples, (measured bench samples).item "compat" =
      .ok (.dict (compatFields.map fun f => (f, Value.none))) := fun _ _ => rfl
  have hsampled : Sampled onceGenerator
      ([1, 2, 3, 4, 5, 6, 7, 8, 9, 10, 11].map Num.int)
      ([9, 7, 5, 3, 4, 6, 8, 10, 12, 11, 2].map Num.int) := by
    have hcompared : Compared ([1, 2, 3, 4, 5, 6, 7, 8, 9, 10, 11].map Num.int)
        ([9, 7, 5, 3, 4, 6, 8, 10, 12, 11, 2].map Num.int) := by
      intro b c hb hc
      cases hb
      cases hc
      refine ⟨by decide, ?_⟩
      intro b c hb hc
      cases hb
      cases hc
      decide +kernel
    refine ⟨hcompared, ?_⟩
    intro p hp
    rw [List.eq_of_mem_replicate hp]
    exact hcompared
  refine (compareRuns_total hvalid hvalid').mpr ⟨?_, ?_, ?_, ?_⟩
  · intro r hr
    rcases List.mem_pair.mp hr with rfl | rfl
    · exact hkey _ _
    · exact hkey _ _
  · intro r hr
    rcases List.mem_pair.mp hr with rfl | rfl
    · exact hkey _ _
    · exact hkey _ _
  · intro r hr
    rw [List.mem_singleton.mp hr]
    exact ⟨_, rfl, rfl⟩
  · intro cand base hcand hbase
    have hmem : cand ∈ [laterRead, writeTwo] :=
      (List.mem_filter.mp (hcand.symm ▸ List.mem_singleton_self cand)).1
    rcases List.mem_pair.mp hmem with rfl | rfl
    · cases hbase
      refine ⟨_, _, hcompat _ _, hcompat _ _, ?_, fun hdiffer => by cases hdiffer⟩
      intro _ samples samples' xs ys hsamples hsamples' _ _ hxs hys
      cases hsamples
      cases hsamples'
      cases hxs
      cases hys
      exact hsampled
    · cases hbase
      refine ⟨_, _, hcompat _ _, hcompat _ _, ?_, fun hdiffer => by cases hdiffer⟩
      intro _ samples samples' xs ys hsamples _ hmin
      cases hsamples
      exact absurd hmin (by decide)

/-- A record with ten samples of zero. -/
def zeros : Value Half := measured "read" (List.replicate 10 0)

/-- The comparison of valid records divides by a median of zero. -/
theorem zeros_raise :
    validate smallPython zeros = .ok () ∧
    (compareRuns (smallPython.withBootstrap onceGenerator) [zeros] [zeros] none none).map
      (fun results => results.map CaseResult.outcome) = .error .zeroDivisionError := by
  constructor
  · decide +kernel
  · decide +kernel

end Bench
end Dev
end Ostia
