import Mathlib.Data.Rat.Defs
import Mathlib.Data.List.Nodup
import Mathlib.Data.List.Perm.Subperm
import Mathlib.Data.String.Basic

/-!
# Python values

The values that the tools read from JSON documents, with the operations they use
on them: equality, truth, subscripts and membership.  A dictionary lists its
entries in the order of insertion.  The floating point numbers are a parameter.
-/

namespace Ostia
namespace Dev

/-- The exceptions that a tool can see, by their class. -/
inductive Exn where
  | attributeError
  | typeError
  | keyError
  | indexError
  | valueError (message : String)
  | jsonDecodeError
  | unicodeDecodeError
  | zeroDivisionError
  | overflowError
  | osError
  | keyboardInterrupt
  | schemaError (message : String)
  | pairError (message : String)
  | ostiaError (message : String)
  /-- An exception of a class that no tool names. -/
  | other (name : String)
deriving DecidableEq, Repr

/-- The subclasses of ValueError. -/
def Exn.isValueError : Exn -> Bool
  | .valueError _ | .jsonDecodeError | .unicodeDecodeError | .schemaError _ => true
  | _ => false

inductive Value (F : Type) where
  | none
  | bool (b : Bool)
  | int (n : Int)
  | float (x : F)
  | str (s : String)
  | list (items : List (Value F))
  | dict (fields : List (String × Value F))

namespace Value

variable {F : Type}

def isDict : Value F -> Bool
  | dict _ => true
  | _ => false

def isStr : Value F -> Bool
  | str _ => true
  | _ => false

/-!
## Dictionaries
-/

def lookup (key : String) : List (String × Value F) -> Option (Value F)
  | [] => Option.none
  | e :: rest => if e.1 = key then some e.2 else lookup key rest

/-- An assignment through a subscript: in place for a key that is there, else at the end. -/
def setKey (key : String) (v : Value F) : List (String × Value F) -> List (String × Value F)
  | [] => [(key, v)]
  | e :: rest => if e.1 = key then (key, v) :: rest else e :: setKey key v rest

@[simp] theorem lookup_setKey_self (key : String) (v : Value F)
    (fields : List (String × Value F)) : lookup key (setKey key v fields) = some v := by
  induction fields with
  | nil => simp [setKey, lookup]
  | cons e rest ih =>
      rw [setKey]
      split_ifs with he
      · simp [lookup]
      · rw [lookup, if_neg he, ih]

theorem lookup_setKey_of_ne {key key' : String} (h : key ≠ key') (v : Value F)
    (fields : List (String × Value F)) :
    lookup key' (setKey key v fields) = lookup key' fields := by
  induction fields with
  | nil => simp [setKey, lookup, h]
  | cons e rest ih =>
      rw [setKey]
      split_ifs with he
      · simp [lookup, he, h]
      · rw [lookup, lookup, ih]

/-- The get method of a dictionary; other values have none. -/
def get (v : Value F) (key : String) : Except Exn (Option (Value F)) :=
  match v with
  | dict fields => .ok (lookup key fields)
  | _ => .error .attributeError

/-- A subscript with a string. -/
def item (v : Value F) (key : String) : Except Exn (Value F) :=
  match v with
  | dict fields =>
      match lookup key fields with
      | some w => .ok w
      | Option.none => .error .keyError
  | _ => .error .typeError

/-- An assignment through a subscript with a string. -/
def setItem (v : Value F) (key : String) (w : Value F) : Except Exn (Value F) :=
  match v with
  | dict fields => .ok (dict (setKey key w fields))
  | _ => .error .typeError

/-- Membership of a string: a key, an item, or a part of a text. -/
def contains (v : Value F) (key : String) : Except Exn Bool :=
  match v with
  | dict fields => .ok (lookup key fields).isSome
  | list items => .ok (items.any fun w =>
      match w with
      | str s => s == key
      | _ => false)
  | str s => .ok (s.toList.tails.any key.toList.isPrefixOf)
  | _ => .error .typeError

/-!
## Values of documents
-/

/-- More digits than this are neither read nor written as an integer. -/
def maxDigits : Nat := 4300

mutual

/-- A value of a document: the keys of a dictionary differ, its integers can be written. -/
def Sound : Value F -> Prop
  | none => True
  | bool _ => True
  | int n => (Nat.toDigits 10 n.natAbs).length ≤ maxDigits
  | float _ => True
  | str _ => True
  | list xs => SoundItems xs
  | dict fs => (fs.map Prod.fst).Nodup ∧ SoundFields fs

def SoundItems : List (Value F) -> Prop
  | [] => True
  | x :: xs => Sound x ∧ SoundItems xs

def SoundFields : List (String × Value F) -> Prop
  | [] => True
  | (_, v) :: fs => Sound v ∧ SoundFields fs

end

end Value

/-- The value of a floating point number. -/
inductive Number where
  | finite (q : Rat)
  | infinity (negative : Bool)
  | nan
deriving DecidableEq

/-- Equality of numbers inside a container.  The NaN of JSON texts is one object, and a
container takes an object as equal to itself. -/
def Number.eq : Number -> Number -> Bool
  | .finite p, .finite q => p == q
  | .infinity a, .infinity b => a == b
  | .nan, .nan => true
  | _, _ => false

/-- Floating point numbers, by their values. -/
class PyFloat (F : Type) where
  value : F -> Number

namespace Value

variable {F : Type} [PyFloat F]

/-- The value of a number; a truth value is 0 or 1. -/
def number? : Value F -> Option Number
  | bool b => some (.finite b.toInt)
  | int n => some (.finite n)
  | float x => some (PyFloat.value x)
  | _ => Option.none

/-- Numbers of different types are equal by their value. -/
def eqNumber (v w : Value F) : Bool :=
  match number? v, number? w with
  | some p, some q => p.eq q
  | _, _ => false

mutual

/-- Equality in a container: dictionaries without their order, numbers by their value. -/
def eq : Value F -> Value F -> Bool
  | none, none => true
  | str s, str t => s == t
  | list xs, list ys => eqItems xs ys
  | dict fs, dict gs => fs.length == gs.length && eqFields fs gs
  | v, w => eqNumber v w

def eqItems : List (Value F) -> List (Value F) -> Bool
  | [], [] => true
  | x :: xs, y :: ys => eq x y && eqItems xs ys
  | _, _ => false

def eqFields : List (String × Value F) -> List (String × Value F) -> Bool
  | [], _ => true
  | (k, v) :: rest, gs =>
      (match lookup k gs with
      | some w => eq v w
      | Option.none => false) && eqFields rest gs

end

/-- The operator `!=` on two values: a NaN differs from itself. -/
def differs (v w : Value F) : Bool := number? v == some .nan || !v.eq w

/-- The truth of a value. -/
def truthy : Value F -> Bool
  | none => false
  | bool b => b
  | int n => n != 0
  | float x => PyFloat.value x != .finite 0
  | str s => s != ""
  | list items => !items.isEmpty
  | dict fields => !fields.isEmpty

/-!
## Equality
-/

theorem Number.eq_symm {p q : Number} (h : p.eq q = true) : q.eq p = true := by
  cases p <;> cases q <;> simp_all [Number.eq]

theorem Number.eq_trans {p q r : Number} (hpq : p.eq q = true) (hqr : q.eq r = true) :
    p.eq r = true := by
  cases p <;> cases q <;> cases r <;> simp_all [Number.eq]

theorem eqNumber_iff {v w : Value F} : eqNumber v w = true <->
    exists p q, number? v = some p ∧ number? w = some q ∧ p.eq q = true := by
  unfold eqNumber
  cases number? v <;> cases number? w <;> simp

theorem eqNumber_symm {v w : Value F} (h : eqNumber v w = true) : eqNumber w v = true := by
  rcases eqNumber_iff.mp h with ⟨p, q, hp, hq, hpq⟩
  exact eqNumber_iff.mpr ⟨q, p, hq, hp, Number.eq_symm hpq⟩

theorem eqNumber_trans {u v w : Value F} (huv : eqNumber u v = true)
    (hvw : eqNumber v w = true) : eqNumber u w = true := by
  rcases eqNumber_iff.mp huv with ⟨p, q, hp, hq, hpq⟩
  rcases eqNumber_iff.mp hvw with ⟨q', r, hq', hr, hqr⟩
  rw [hq, Option.some_inj] at hq'
  subst hq'
  exact eqNumber_iff.mpr ⟨p, r, hp, hr, Number.eq_trans hpq hqr⟩

/-- What equals a value, by the kind of the value. -/
theorem eq_iff {v w : Value F} : eq v w = true <->
    match v with
    | none => none = w
    | str s => str s = w
    | list xs => exists ys, w = list ys ∧ eqItems xs ys = true
    | dict fs => exists gs, w = dict gs ∧ fs.length = gs.length ∧ eqFields fs gs = true
    | _ => eqNumber v w = true := by
  cases v <;> cases w <;> simp [eq, eqNumber, number?]

omit [PyFloat F] in
theorem mem_of_lookup {key : String} {v : Value F} {fs : List (String × Value F)}
    (h : lookup key fs = some v) : (key, v) ∈ fs := by
  induction fs with
  | nil => cases h
  | cons e fs ih =>
      rw [lookup] at h
      split_ifs at h with he
      · injection h with h
        rw [← he, ← h]
        exact List.mem_cons_self
      · exact List.mem_cons_of_mem e (ih h)

omit [PyFloat F] in
theorem lookup_of_mem {key : String} {v : Value F} {fs : List (String × Value F)}
    (hkeys : (fs.map Prod.fst).Nodup) (h : (key, v) ∈ fs) : lookup key fs = some v := by
  induction fs with
  | nil => cases h
  | cons e fs ih =>
      rw [List.map_cons, List.nodup_cons] at hkeys
      rw [lookup]
      rcases List.mem_cons.mp h with rfl | h
      · rw [if_pos rfl]
      · have hne : e.1 ≠ key := by
          rintro rfl
          exact hkeys.1 (List.mem_map.mpr ⟨_, h, rfl⟩)
        rw [if_neg hne, ih hkeys.2 h]

theorem eq_of_number {v : Value F} {p : Number} (h : number? v = some p) (w : Value F) :
    eq v w = eqNumber v w := by
  cases v with
  | none => cases h
  | str s => cases h
  | list xs => cases h
  | dict fs => cases h
  | _ => rfl

theorem eqNumber_eq_trans {u v w : Value F} (huv : eqNumber u v = true)
    (hvw : eq v w = true) : eqNumber u w = true := by
  rcases eqNumber_iff.mp huv with ⟨_, _, _, hv, _⟩
  rw [eq_of_number hv] at hvw
  exact eqNumber_trans huv hvw

theorem eqFields_iff {fs gs : List (String × Value F)} : eqFields fs gs = true <->
    forall k v, (k, v) ∈ fs -> exists w, lookup k gs = some w ∧ eq v w = true := by
  induction fs with
  | nil => simp [eqFields]
  | cons e fs ih =>
      obtain ⟨k, v⟩ := e
      rw [eqFields, Bool.and_eq_true, ih]
      constructor
      · rintro ⟨hhead, hrest⟩ k' v' hmem
        rcases List.mem_cons.mp hmem with heq | hmem
        · injection heq with hk hv
          rw [hk, hv]
          cases hlookup : lookup k gs with
          | none => simp [hlookup] at hhead
          | some w =>
              rw [hlookup] at hhead
              exact ⟨w, rfl, hhead⟩
        · exact hrest k' v' hmem
      · intro h
        refine ⟨?_, fun k' v' hmem => h k' v' (List.mem_cons_of_mem _ hmem)⟩
        rcases h k v List.mem_cons_self with ⟨w, hw, heq⟩
        rw [hw]
        exact heq

mutual

theorem eq_trans : forall u v w : Value F, eq u v = true -> eq v w = true -> eq u w = true
  | none, v, w, huv, hvw => by
      rw [eq_iff] at huv
      subst huv
      exact hvw
  | str s, v, w, huv, hvw => by
      rw [eq_iff] at huv
      subst huv
      exact hvw
  | list xs, v, w, huv, hvw => by
      rcases eq_iff.mp huv with ⟨ys, rfl, hxy⟩
      rcases eq_iff.mp hvw with ⟨zs, rfl, hyz⟩
      exact eq_iff.mpr ⟨zs, rfl, eqItems_trans xs ys zs hxy hyz⟩
  | dict fs, v, w, huv, hvw => by
      rcases eq_iff.mp huv with ⟨gs, rfl, hlen, hfg⟩
      rcases eq_iff.mp hvw with ⟨hs, rfl, hlen', hgh⟩
      exact eq_iff.mpr ⟨hs, rfl, hlen.trans hlen', eqFields_trans fs gs hs hfg hgh⟩
  | bool b, v, w, huv, hvw => eqNumber_eq_trans huv hvw
  | int n, v, w, huv, hvw => eqNumber_eq_trans huv hvw
  | float x, v, w, huv, hvw => eqNumber_eq_trans huv hvw

theorem eqItems_trans : forall xs ys zs : List (Value F), eqItems xs ys = true ->
    eqItems ys zs = true -> eqItems xs zs = true
  | [], ys, zs, hxy, hyz => by
      cases ys with
      | nil => exact hyz
      | cons y ys => cases hxy
  | x :: xs, ys, zs, hxy, hyz => by
      cases ys with
      | nil => cases hxy
      | cons y ys =>
          cases zs with
          | nil => cases hyz
          | cons z zs =>
              rw [eqItems, Bool.and_eq_true] at hxy hyz ⊢
              exact ⟨eq_trans x y z hxy.1 hyz.1, eqItems_trans xs ys zs hxy.2 hyz.2⟩

theorem eqFields_trans : forall fs gs hs : List (String × Value F), eqFields fs gs = true ->
    eqFields gs hs = true -> eqFields fs hs = true
  | [], gs, hs, _, _ => rfl
  | (k, v) :: fs, gs, hs, hfg, hgh => by
      rcases eqFields_iff.mp hfg k v List.mem_cons_self with ⟨w, hw, hvw⟩
      rcases eqFields_iff.mp hgh k w (mem_of_lookup hw) with ⟨u, hu, hwu⟩
      rw [eqFields, Bool.and_eq_true] at hfg ⊢
      rw [hu]
      exact ⟨eq_trans v w u hvw hwu, eqFields_trans fs gs hs hfg.2 hgh⟩

end

omit [PyFloat F] in
theorem soundFields_mem {fs : List (String × Value F)} (h : SoundFields fs) {k : String}
    {v : Value F} (hmem : (k, v) ∈ fs) : Sound v := by
  induction fs with
  | nil => cases hmem
  | cons e fs ih =>
      rcases List.mem_cons.mp hmem with rfl | hmem
      · exact h.1
      · exact ih h.2 hmem

omit [PyFloat F] in
/-- Two dictionaries with as many keys, those of one among those of the other. -/
theorem keys_perm {fs gs : List (String × Value F)} (hf : (fs.map Prod.fst).Nodup)
    (hlen : fs.length = gs.length)
    (h : forall k, k ∈ fs.map Prod.fst -> k ∈ gs.map Prod.fst) {k : String}
    (hk : k ∈ gs.map Prod.fst) : k ∈ fs.map Prod.fst := by
  have hsub : (fs.map Prod.fst).Subperm (gs.map Prod.fst) := List.subperm_of_subset hf h
  have hperm := hsub.perm_of_length_le (by simp [hlen])
  exact hperm.mem_iff.mpr hk

mutual

theorem eq_symm : forall v w : Value F, Sound v -> Sound w -> eq v w = true -> eq w v = true
  | none, w, _, _, h => by
      rw [eq_iff] at h
      subst h
      rfl
  | str s, w, _, _, h => by
      rw [eq_iff] at h
      subst h
      exact eq_iff.mpr rfl
  | list xs, w, hv, hw, h => by
      rcases eq_iff.mp h with ⟨ys, rfl, hxy⟩
      exact eq_iff.mpr ⟨xs, rfl, eqItems_symm xs ys hv hw hxy⟩
  | dict fs, w, hv, hw, h => by
      rcases eq_iff.mp h with ⟨gs, rfl, hlen, hfg⟩
      have hsymm := eqFields_symm fs gs hv.2 hw.2 hfg
      refine eq_iff.mpr ⟨fs, rfl, hlen.symm, eqFields_iff.mpr ?_⟩
      intro k w hmem
      have hk : k ∈ fs.map Prod.fst := by
        refine keys_perm hv.1 hlen ?_ (List.mem_map.mpr ⟨_, hmem, rfl⟩)
        intro k' hk'
        rcases List.mem_map.mp hk' with ⟨⟨k'', v⟩, hkv, rfl⟩
        rcases eqFields_iff.mp hfg k'' v hkv with ⟨u, hu, _⟩
        exact List.mem_map.mpr ⟨_, mem_of_lookup hu, rfl⟩
      rcases List.mem_map.mp hk with ⟨⟨k', v⟩, hkv, rfl⟩
      exact ⟨v, lookup_of_mem hv.1 hkv, hsymm k' v w hkv (lookup_of_mem hw.1 hmem)⟩
  | bool b, w, _, _, h => by
      rcases eqNumber_iff.mp h with ⟨_, _, _, hw, _⟩
      rw [eq_of_number hw]
      exact eqNumber_symm h
  | int n, w, _, _, h => by
      rcases eqNumber_iff.mp h with ⟨_, _, _, hw, _⟩
      rw [eq_of_number hw]
      exact eqNumber_symm h
  | float x, w, _, _, h => by
      rcases eqNumber_iff.mp h with ⟨_, _, _, hw, _⟩
      rw [eq_of_number hw]
      exact eqNumber_symm h

theorem eqItems_symm : forall xs ys : List (Value F), SoundItems xs -> SoundItems ys ->
    eqItems xs ys = true -> eqItems ys xs = true
  | [], ys, _, _, h => by
      cases ys with
      | nil => rfl
      | cons y ys => cases h
  | x :: xs, ys, hx, hy, h => by
      cases ys with
      | nil => cases h
      | cons y ys =>
          rw [eqItems, Bool.and_eq_true] at h ⊢
          exact ⟨eq_symm x y hx.1 hy.1 h.1, eqItems_symm xs ys hx.2 hy.2 h.2⟩

theorem eqFields_symm : forall fs gs : List (String × Value F), SoundFields fs ->
    SoundFields gs -> eqFields fs gs = true ->
    forall k v w, (k, v) ∈ fs -> lookup k gs = some w -> eq w v = true
  | [], _, _, _, _, _, _, _, hmem, _ => by
      cases hmem
  | (k', v') :: fs, gs, hf, hg, h, k, v, w, hmem, hw => by
      have hrest : eqFields fs gs = true := by
        rw [eqFields, Bool.and_eq_true] at h
        exact h.2
      rcases eqFields_iff.mp h k v hmem with ⟨w', hw', hvw⟩
      rw [hw, Option.some_inj] at hw'
      subst hw'
      have hwsound : Sound w := soundFields_mem hg (mem_of_lookup hw)
      by_cases hhead : (k, v) = (k', v')
      · injection hhead with _ hv
        subst hv
        exact eq_symm v w hf.1 hwsound hvw
      · have hmem' : (k, v) ∈ fs := by
          rcases List.mem_cons.mp hmem with heq | hmem'
          · exact absurd heq hhead
          · exact hmem'
        exact eqFields_symm fs gs hf.2 hg hrest k v w hmem' hw

end

end Value

end Dev
end Ostia
