import Mathlib.Data.List.TakeWhile
import Mathlib.Tactic.IntervalCases
import Ostia.Dev.Value
import Ostia.Foundation.Fallible

/-!
# JSON texts

The reader and the writer of Python's json module.  The writer escapes all that is
no printable ASCII, so a written document is one line.  The reader takes the last
value of a repeated key, joins the two halves of a surrogate pair and reads the
constants NaN and Infinity; half of a pair alone is read as the replacement
character.  The nesting depth is not limited here.

What was written is read back.
-/

namespace Ostia
namespace Dev

open Foundation
open Value (Sound SoundItems SoundFields maxDigits)

namespace JsonText

/-!
## Strings
-/

def hexChar (n : Nat) : Char := "0123456789abcdef".toList.getD n '0'

/-- The escape of one UTF-16 unit. -/
def unitEscape (u : Nat) : List Char :=
  ['\\', 'u', hexChar (u / 4096 % 16), hexChar (u / 256 % 16), hexChar (u / 16 % 16),
    hexChar (u % 16)]

/-- A character above the first plane is a pair of units. -/
def unitsOf (c : Char) : List Nat :=
  if c.toNat < 0x10000 then [c.toNat]
  else [0xD800 + (c.toNat - 0x10000) / 0x400, 0xDC00 + (c.toNat - 0x10000) % 0x400]

def escapeChar (c : Char) : List Char :=
  if c = '"' then ['\\', '"']
  else if c = '\\' then ['\\', '\\']
  else if c = '\n' then ['\\', 'n']
  else if c = '\r' then ['\\', 'r']
  else if c = '\t' then ['\\', 't']
  else if c = '\x0c' then ['\\', 'f']
  else if c = '\x08' then ['\\', 'b']
  else if 0x20 ≤ c.toNat ∧ c.toNat ≤ 0x7e then [c]
  else (unitsOf c).flatMap unitEscape

/-- The characters of a string and its closing quote. -/
def body (cs : List Char) : List Char := cs.flatMap escapeChar ++ ['"']

def quoted (s : String) : List Char := '"' :: body s.toList

def hexDigit? (c : Char) : Option Nat :=
  if '0' ≤ c ∧ c ≤ '9' then some (c.toNat - 48)
  else if 'a' ≤ c ∧ c ≤ 'f' then some (c.toNat - 87)
  else if 'A' ≤ c ∧ c ≤ 'F' then some (c.toNat - 55)
  else none

def hex4 (a b c d : Char) : Option Nat := do
  let a ← hexDigit? a
  let b ← hexDigit? b
  let c ← hexDigit? c
  let d ← hexDigit? d
  pure (a * 4096 + b * 256 + c * 16 + d)

/-- The character of a one-letter escape. -/
def unescape (c : Char) : Option Nat :=
  if c = '"' ∨ c = '\\' ∨ c = '/' then some c.toNat
  else if c = 'b' then some 8
  else if c = 'f' then some 12
  else if c = 'n' then some 10
  else if c = 'r' then some 13
  else if c = 't' then some 9
  else none

/-- The units of a string up to its closing quote, and what follows. -/
def units : List Char -> Option (List Nat × List Char)
  | [] => none
  | '"' :: r => some ([], r)
  | '\\' :: 'u' :: a :: b :: c :: d :: r => do
      let u ← hex4 a b c d
      let (us, rest) ← units r
      pure (u :: us, rest)
  | '\\' :: c :: r => do
      let u ← unescape c
      let (us, rest) ← units r
      pure (u :: us, rest)
  | c :: r =>
      if c.toNat < 0x20 || c == '\\' then none
      else do
        let (us, rest) ← units r
        pure (c.toNat :: us, rest)

def isHigh (u : Nat) : Bool := 0xD800 ≤ u && u < 0xDC00

def isLow (u : Nat) : Bool := 0xDC00 ≤ u && u < 0xE000

def charOf (u : Nat) : Char := if isHigh u || isLow u then '\uFFFD' else Char.ofNat u

/-- Join the halves of surrogate pairs. -/
def join : List Nat -> List Char
  | [] => []
  | [u] => [charOf u]
  | u :: v :: rest =>
      if isHigh u && isLow v then
        Char.ofNat (0x10000 + (u - 0xD800) * 0x400 + (v - 0xDC00)) :: join rest
      else charOf u :: join (v :: rest)

def scanString (cs : List Char) : Option (String × List Char) := do
  let (us, rest) ← units cs
  pure (String.ofList (join us), rest)

/-!
## Numbers
-/

def intPart : List Char -> Option (List Char × List Char)
  | [] => none
  | c :: r =>
      if c = '0' then some (['0'], r)
      else if c.isDigit then some (c :: r.takeWhile Char.isDigit, r.dropWhile Char.isDigit)
      else none

/-- A point and digits; nothing when there is no digit after the point. -/
def fracPart : List Char -> List Char × List Char
  | '.' :: c :: r =>
      if c.isDigit then ('.' :: c :: r.takeWhile Char.isDigit, r.dropWhile Char.isDigit)
      else ([], '.' :: c :: r)
  | r => ([], r)

def signPart : List Char -> List Char × List Char
  | '+' :: r => (['+'], r)
  | '-' :: r => (['-'], r)
  | r => ([], r)

/-- An exponent with its digits; nothing when there is none. -/
def expPart : List Char -> List Char × List Char
  | e :: r =>
      let (sign, digits) := signPart r
      if (e = 'e' ∨ e = 'E') ∧ (digits.takeWhile Char.isDigit) ≠ [] then
        (e :: sign ++ digits.takeWhile Char.isDigit, digits.dropWhile Char.isDigit)
      else ([], e :: r)
  | [] => ([], [])

/-- The texts of floating point numbers, as the writer and the reader convert them. -/
class FloatText (F : Type) extends PyFloat F where
  text : F -> List Char
  read : List Char -> F
  /-- A constant, or a number with a fraction or an exponent. -/
  token : forall x,
    text x = "NaN".toList ∨ text x = "Infinity".toList ∨ text x = "-Infinity".toList ∨
      exists sign digits frac exp, text x = sign ++ digits ++ frac ++ exp ∧
        (sign = [] ∨ sign = ['-']) ∧ intPart digits = some (digits, []) ∧
        fracPart frac = (frac, []) ∧ expPart exp = (exp, []) ∧ (frac ≠ [] ∨ exp ≠ [])
  /-- Printing a number and reading it gives the number. -/
  read_text : forall x, read (text x) = x

variable {F : Type} [FloatText F]

def intOf (negative : Bool) (digits : List Char) : Int :=
  if negative then -(Nat.ofDigitChars 10 digits 0 : Int) else (Nat.ofDigitChars 10 digits 0 : Int)

def unsigned (negative : Bool) (cs : List Char) : Except Exn (Value F × List Char) :=
  match intPart cs with
  | none => .error .jsonDecodeError
  | some (digits, r1) =>
      let (frac, r2) := fracPart r1
      let (exp, r3) := expPart r2
      if frac = [] ∧ exp = [] then
        if digits.length > maxDigits then
          .error (.valueError "Exceeds the limit (4300 digits) for integer string conversion")
        else .ok (.int (intOf negative digits), r3)
      else
        .ok (.float (FloatText.read ((if negative then ['-'] else []) ++ digits ++ frac ++ exp)),
          r3)

def number : List Char -> Except Exn (Value F × List Char)
  | '-' :: r => unsigned true r
  | r => unsigned false r

/-!
## Values
-/

def isSpace (c : Char) : Bool := c == ' ' || c == '\t' || c == '\n' || c == '\r'

def skip (cs : List Char) : List Char := cs.dropWhile isSpace

def literal (token : String) (cs : List Char) : Option (List Char) :=
  if token.toList.isPrefixOf cs then some (cs.drop token.length) else none

/-- A value that is no container and no string. -/
def scalar (cs : List Char) : Except Exn (Value F × List Char) :=
  match literal "null" cs, literal "true" cs, literal "false" cs, literal "NaN" cs,
      literal "Infinity" cs, literal "-Infinity" cs with
  | some r, _, _, _, _, _ => .ok (.none, r)
  | _, some r, _, _, _, _ => .ok (.bool true, r)
  | _, _, some r, _, _, _ => .ok (.bool false, r)
  | _, _, _, some r, _, _ => .ok (.float (FloatText.read "NaN".toList), r)
  | _, _, _, _, some r, _ => .ok (.float (FloatText.read "Infinity".toList), r)
  | _, _, _, _, _, some r => .ok (.float (FloatText.read "-Infinity".toList), r)
  | _, _, _, _, _, _ => number cs

mutual

/-- Scan one value; the fuel bounds the steps. -/
def value : Nat -> List Char -> Except Exn (Value F × List Char)
  | 0, _ => .error .jsonDecodeError
  | fuel + 1, cs =>
      match cs with
      | '"' :: r =>
          match scanString r with
          | some (s, rest) => .ok (.str s, rest)
          | none => .error .jsonDecodeError
      | '[' :: r =>
          match skip r with
          | ']' :: rest => .ok (.list [], rest)
          | r' => items fuel [] r'
      | '{' :: r =>
          match skip r with
          | '}' :: rest => .ok (.dict [], rest)
          | r' => members fuel [] r'
      | cs => scalar cs

def items : Nat -> List (Value F) -> List Char -> Except Exn (Value F × List Char)
  | 0, _, _ => .error .jsonDecodeError
  | fuel + 1, seen, cs => do
      let (v, r) ← value fuel cs
      match skip r with
      | ',' :: r' => items fuel (seen ++ [v]) (skip r')
      | ']' :: rest => pure (.list (seen ++ [v]), rest)
      | _ => .error .jsonDecodeError

def members : Nat -> List (String × Value F) -> List Char ->
    Except Exn (Value F × List Char)
  | 0, _, _ => .error .jsonDecodeError
  | fuel + 1, seen, cs =>
      match cs with
      | '"' :: r =>
          match scanString r with
          | none => .error .jsonDecodeError
          | some (key, r1) =>
              match skip r1 with
              | ':' :: r2 => do
                  let (v, r3) ← value fuel (skip r2)
                  let seen := Value.setKey key v seen
                  match skip r3 with
                  | ',' :: r4 => members fuel seen (skip r4)
                  | '}' :: rest => pure (.dict seen, rest)
                  | _ => .error .jsonDecodeError
              | _ => .error .jsonDecodeError
      | _ => .error .jsonDecodeError

end

/-- The value of a whole text. -/
def loads (text : String) : Except Exn (Value F) :=
  match value (2 * text.length + 2) (skip text.toList) with
  | .error e => .error e
  | .ok (v, rest) => if skip rest = [] then .ok v else .error .jsonDecodeError

def integer : Int -> List Char
  | .ofNat n => Nat.toDigits 10 n
  | .negSucc n => '-' :: Nat.toDigits 10 (n + 1)

mutual

def text : Value F -> List Char
  | .none => "null".toList
  | .bool true => "true".toList
  | .bool false => "false".toList
  | .int n => integer n
  | .float x => FloatText.text x
  | .str s => quoted s
  | .list [] => ['[', ']']
  | .list (x :: xs) => '[' :: (text x ++ textItems xs)
  | .dict [] => ['{', '}']
  | .dict ((k, v) :: fs) => '{' :: (quoted k ++ ':' :: ' ' :: (text v ++ textMembers fs))

def textItems : List (Value F) -> List Char
  | [] => [']']
  | x :: xs => ',' :: ' ' :: (text x ++ textItems xs)

def textMembers : List (String × Value F) -> List Char
  | [] => ['}']
  | (k, v) :: fs => ',' :: ' ' :: (quoted k ++ ':' :: ' ' :: (text v ++ textMembers fs))

end

def dumps (v : Value F) : String := String.ofList (text v)

/-!
## Strings are read back
-/

theorem hexDigit?_hexChar {n : Nat} (h : n < 16) : hexDigit? (hexChar n) = some n := by
  interval_cases n
  all_goals rfl

theorem units_unitEscape {u : Nat} (hu : u < 0x10000) (r : List Char) :
    units (unitEscape u ++ r) = (units r).map fun p => (u :: p.1, p.2) := by
  have hhex : hex4 (hexChar (u / 4096 % 16)) (hexChar (u / 256 % 16))
      (hexChar (u / 16 % 16)) (hexChar (u % 16)) = some u := by
    have hmod : forall n, n % 16 < 16 := fun n => Nat.mod_lt n (by decide)
    simp only [hex4, hexDigit?_hexChar (hmod _), Option.bind_eq_bind, Option.bind_some,
      Option.pure_def, Option.some_inj]
    omega
  simp only [unitEscape, List.cons_append, List.nil_append, units, hhex,
    Option.bind_eq_bind, Option.bind_some, Option.pure_def]
  cases units r <;> rfl

/-- A valid character is no half of a pair. -/
theorem not_surrogate (c : Char) : isHigh c.toNat = false ∧ isLow c.toNat = false := by
  have hvalid := c.valid
  unfold isHigh isLow
  simp only [Bool.and_eq_false_iff, decide_eq_false_iff_not]
  have hn : c.toNat < 0xD800 ∨ 0xDFFF < c.toNat ∧ c.toNat < 0x110000 := hvalid
  omega

theorem unitsOf_lt {c : Char} {u : Nat} (hu : u ∈ unitsOf c) : u < 0x10000 := by
  have hc : c.toNat < 0x110000 := by
    have hvalid : c.toNat < 0xD800 ∨ 0xDFFF < c.toNat ∧ c.toNat < 0x110000 := c.valid
    omega
  unfold unitsOf at hu
  split_ifs at hu with hlow
  · rw [List.mem_singleton] at hu
    omega
  · simp only [List.mem_cons, List.not_mem_nil, or_false] at hu
    omega

theorem units_unitEscapes {us : List Nat} (hus : forall u, u ∈ us -> u < 0x10000)
    (r : List Char) :
    units (us.flatMap unitEscape ++ r) = (units r).map fun p => (us ++ p.1, p.2) := by
  induction us with
  | nil =>
      rw [List.flatMap_nil, List.nil_append]
      cases units r <;> rfl
  | cons u us ih =>
      rw [List.flatMap_cons, List.append_assoc,
        units_unitEscape (hus u List.mem_cons_self),
        ih (fun u' hu' => hus u' (List.mem_cons_of_mem u hu'))]
      cases units r <;> rfl

theorem units_plain {c : Char} (hquote : c ≠ '"') (hslash : c ≠ '\\')
    (hctl : ¬ c.toNat < 0x20) (r : List Char) :
    units (c :: r) = (units r).map fun p => ([c.toNat] ++ p.1, p.2) := by
  rw [units]
  · simp only [hctl, decide_false, Bool.false_or, beq_iff_eq, hslash, if_false]
    cases units r <;> rfl
  · exact hquote
  · intro _ _ _ _ _ h
    exact absurd h hslash
  · intro _ _ h
    exact absurd h hslash

theorem units_escapeChar (c : Char) (r : List Char) :
    units (escapeChar c ++ r) = (units r).map fun p => (unitsOf c ++ p.1, p.2) := by
  unfold escapeChar
  split_ifs with h0 h1 h2 h3 h4 h5 h6 h7
  · rw [h0]
    cases h : units r <;> simp [units, unescape, unitsOf, h]
  · rw [h1]
    cases h : units r <;> simp [units, unescape, unitsOf, h]
  · rw [h2]
    cases h : units r <;> simp [units, unescape, unitsOf, h]
  · rw [h3]
    cases h : units r <;> simp [units, unescape, unitsOf, h]
  · rw [h4]
    cases h : units r <;> simp [units, unescape, unitsOf, h]
  · rw [h5]
    cases h : units r <;> simp [units, unescape, unitsOf, h]
  · rw [h6]
    cases h : units r <;> simp [units, unescape, unitsOf, h]
  · have hlow : c.toNat < 0x10000 := by omega
    have hctl : ¬ c.toNat < 0x20 := by omega
    rw [List.singleton_append]
    unfold unitsOf
    rw [if_pos hlow]
    exact units_plain h0 h1 hctl r
  · exact units_unitEscapes (fun u hu => unitsOf_lt hu) r

theorem charOf_toNat (c : Char) : charOf c.toNat = c := by
  rcases not_surrogate c with ⟨hhigh, hlow⟩
  unfold charOf
  rw [hhigh, hlow]
  exact Char.ofNat_toNat c

theorem join_unitsOf (c : Char) (us : List Nat) : join (unitsOf c ++ us) = c :: join us := by
  unfold unitsOf
  split_ifs with hlow
  · cases us with
    | nil => simp [join, charOf_toNat]
    | cons u us =>
        rw [List.singleton_append, join, (not_surrogate c).1]
        simp [charOf_toNat]
  · have hc : c.toNat < 0xD800 ∨ 0xDFFF < c.toNat ∧ c.toNat < 0x110000 := c.valid
    have hhi : isHigh (0xD800 + (c.toNat - 0x10000) / 0x400) = true := by
      simp only [isHigh, Bool.and_eq_true, decide_eq_true_eq]
      omega
    have hlo : isLow (0xDC00 + (c.toNat - 0x10000) % 0x400) = true := by
      simp only [isLow, Bool.and_eq_true, decide_eq_true_eq]
      omega
    rw [List.cons_append, List.cons_append, List.nil_append, join, hhi, hlo]
    have hsum : 0x10000 + (0xD800 + (c.toNat - 0x10000) / 0x400 - 0xD800) * 0x400 +
        (0xDC00 + (c.toNat - 0x10000) % 0x400 - 0xDC00) = c.toNat := by
      omega
    simp only [Bool.and_self, if_true, hsum, Char.ofNat_toNat]

theorem units_body (cs r : List Char) :
    units (body cs ++ r) = some (cs.flatMap unitsOf, r) := by
  unfold body
  induction cs with
  | nil => simp [units]
  | cons c cs ih =>
      rw [List.flatMap_cons, List.append_assoc, List.append_assoc, units_escapeChar,
        ← List.append_assoc, ih]
      rfl

theorem join_flatMap_unitsOf (cs : List Char) : join (cs.flatMap unitsOf) = cs := by
  induction cs with
  | nil => rfl
  | cons c cs ih => rw [List.flatMap_cons, join_unitsOf, ih]

theorem scanString_body (s : String) (r : List Char) :
    scanString (body s.toList ++ r) = some (s, r) := by
  unfold scanString
  rw [units_body]
  simp [join_flatMap_unitsOf]

/-!
## Numbers are read back
-/

/-- No character of a number follows. -/
def Ends (r : List Char) : Prop :=
  forall c, r.head? = some c -> c.isDigit = false ∧ c ≠ '.' ∧ c ≠ 'e' ∧ c ≠ 'E'

theorem Ends.takeWhile {r : List Char} (h : Ends r) :
    r.takeWhile Char.isDigit = [] ∧ r.dropWhile Char.isDigit = r := by
  cases r with
  | nil => exact ⟨rfl, rfl⟩
  | cons c r =>
      have hc := (h c rfl).1
      simp [hc]

/-- A run of digits ends where no digit follows. -/
theorem run_append {ds r : List Char} (hds : ds.dropWhile Char.isDigit = [])
    (hr : r.takeWhile Char.isDigit = []) :
    (ds ++ r).takeWhile Char.isDigit = ds ∧ (ds ++ r).dropWhile Char.isDigit = r := by
  rw [List.dropWhile_eq_nil_iff] at hds
  have hdrop : r.dropWhile Char.isDigit = r := by
    have hsplit := List.takeWhile_append_dropWhile (p := Char.isDigit) (l := r)
    rw [hr, List.nil_append] at hsplit
    exact hsplit
  rw [List.takeWhile_append_of_pos hds, List.dropWhile_append_of_pos hds, hr, hdrop,
    List.append_nil]
  exact ⟨rfl, rfl⟩

theorem intPart_append {ds r : List Char} (h : intPart ds = some (ds, []))
    (hr : r.takeWhile Char.isDigit = []) : intPart (ds ++ r) = some (ds, r) := by
  cases ds with
  | nil => cases h
  | cons c ds =>
      rw [intPart] at h
      rw [List.cons_append, intPart]
      split_ifs at h ⊢ with hzero hdigit
      · simp only [Option.some_inj, Prod.mk.injEq, List.cons.injEq] at h
        rw [h.2, hzero]
        rfl
      · simp only [Option.some_inj, Prod.mk.injEq] at h
        rcases run_append h.2 hr with ⟨htake, hdrop⟩
        rw [htake, hdrop]

theorem fracPart_append {frac r : List Char} (h : fracPart frac = (frac, []))
    (hfrac : frac ≠ []) (hr : r.takeWhile Char.isDigit = []) :
    fracPart (frac ++ r) = (frac, r) := by
  unfold fracPart at h
  split at h
  · rename_i c ds
    split_ifs at h with hdigit
    · simp only [Prod.mk.injEq] at h
      rcases run_append h.2 hr with ⟨htake, hdrop⟩
      simp only [List.cons_append, fracPart, hdigit, if_true, htake, hdrop]
    · simp only [Prod.mk.injEq] at h
      exact absurd h.1.symm hfrac
  · simp only [Prod.mk.injEq] at h
    exact absurd h.1.symm hfrac

theorem fracPart_of_ne {r : List Char} (h : forall c, r.head? = some c -> c ≠ '.') :
    fracPart r = ([], r) := by
  unfold fracPart
  split
  · exact absurd rfl (h '.' rfl)
  · rfl

theorem expPart_of_ne {r : List Char}
    (h : forall c, r.head? = some c -> c ≠ 'e' ∧ c ≠ 'E') : expPart r = ([], r) := by
  cases r with
  | nil => rfl
  | cons c r =>
      rcases h c rfl with ⟨he, hE⟩
      simp [expPart, he, hE]

theorem signPart_append (r : List Char) {d : List Char} (hd : (signPart d).2 ≠ []) :
    signPart (d ++ r) = ((signPart d).1, (signPart d).2 ++ r) := by
  cases d with
  | nil => exact absurd rfl hd
  | cons c d =>
      unfold signPart
      by_cases hplus : c = '+'
      · subst hplus
        rfl
      · by_cases hminus : c = '-'
        · subst hminus
          rfl
        · simp [hplus, hminus]

theorem expPart_append {exp r : List Char} (h : expPart exp = (exp, []))
    (hexp : exp ≠ []) (hr : r.takeWhile Char.isDigit = []) :
    expPart (exp ++ r) = (exp, r) := by
  cases exp with
  | nil => exact absurd rfl hexp
  | cons e ds =>
      rw [expPart] at h
      simp only at h
      split_ifs at h with hcond
      · simp only [Prod.mk.injEq, List.cons.injEq, true_and, List.cons_append] at h
        have hne : (signPart ds).2 ≠ [] := by
          intro hnil
          rw [hnil] at hcond
          exact hcond.2 rfl
        rcases run_append h.2 hr with ⟨htake, hdrop⟩
        have hall : (signPart ds).2.takeWhile Char.isDigit = (signPart ds).2 := by
          rw [List.takeWhile_eq_self_iff]
          exact List.dropWhile_eq_nil_iff.mp h.2
        rw [List.cons_append, expPart, signPart_append r hne]
        simp only [htake, hdrop]
        rw [if_pos ⟨hcond.1, hne⟩]
        rw [hall] at h
        rw [List.cons_append, h.1]
      · simp only [Prod.mk.injEq] at h
        exact absurd h.1.symm hexp

theorem toDigits_head {n : Nat} (hn : 0 < n) :
    exists c t, Nat.toDigits 10 n = c :: t ∧ c ≠ '0' := by
  induction n using Nat.strong_induction_on with
  | _ n ih =>
      by_cases hlt : n < 10
      · rw [Nat.toDigits_of_lt_base hlt]
        refine ⟨_, [], rfl, ?_⟩
        interval_cases n <;> decide
      · have hle : 10 ≤ n := Nat.not_lt.mp hlt
        rcases ih (n / 10) (Nat.div_lt_self hn (by decide)) (Nat.div_pos hle (by decide)) with
          ⟨c, t, hct, hc⟩
        rw [Nat.toDigits_of_base_le (by decide) hle, hct]
        exact ⟨c, _, rfl, hc⟩

theorem intPart_toDigits (n : Nat) :
    intPart (Nat.toDigits 10 n) = some (Nat.toDigits 10 n, []) := by
  have hdigits : forall c, c ∈ Nat.toDigits 10 n -> c.isDigit = true := fun c hc =>
    Nat.isDigit_of_mem_toDigits (by decide) (by decide) hc
  rcases Nat.eq_zero_or_pos n with rfl | hn
  · rw [Nat.toDigits_zero]
    rfl
  · rcases toDigits_head hn with ⟨c, t, hct, hc⟩
    rw [hct] at hdigits ⊢
    have ht : forall d, d ∈ t -> d.isDigit = true := fun d hd =>
      hdigits d (List.mem_cons_of_mem c hd)
    rw [intPart, if_neg hc, if_pos (hdigits c List.mem_cons_self),
      List.takeWhile_eq_self_iff.mpr ht, List.dropWhile_eq_nil_iff.mpr ht]

theorem Ends.frac {r : List Char} (h : Ends r) : fracPart r = ([], r) :=
  fracPart_of_ne fun c hc => (h c hc).2.1

theorem Ends.exp {r : List Char} (h : Ends r) : expPart r = ([], r) :=
  expPart_of_ne fun c hc => (h c hc).2.2

theorem unsigned_int {ds r : List Char} (h : intPart ds = some (ds, [])) (hr : Ends r)
    (hlen : ds.length ≤ maxDigits) (negative : Bool) :
    unsigned (F := F) negative (ds ++ r) = .ok (.int (intOf negative ds), r) := by
  unfold unsigned
  rw [intPart_append h hr.takeWhile.1]
  simp only [hr.frac, hr.exp, and_self, if_true]
  rw [if_neg (Nat.not_lt.mpr hlen)]

/-- An exponent starts with no digit and no point. -/
theorem expPart_head {exp : List Char} (h : expPart exp = (exp, [])) {c : Char}
    (hc : exp.head? = some c) : c = 'e' ∨ c = 'E' := by
  cases exp with
  | nil => cases hc
  | cons e ds =>
      rw [List.head?_cons, Option.some_inj] at hc
      rw [expPart] at h
      simp only at h
      split_ifs at h with hcond
      · rw [← hc]
        exact hcond.1
      · cases h

theorem fracPart_head {frac : List Char} (h : fracPart frac = (frac, [])) {c : Char}
    (hc : frac.head? = some c) : c = '.' := by
  unfold fracPart at h
  split at h
  · rw [List.head?_cons, Option.some_inj] at hc
    exact hc.symm
  · simp only [Prod.mk.injEq] at h
    rw [h.2] at hc
    cases hc

theorem unsigned_float {ds frac exp r : List Char} (h : intPart ds = some (ds, []))
    (hfrac : fracPart frac = (frac, [])) (hexp : expPart exp = (exp, []))
    (hsome : frac ≠ [] ∨ exp ≠ []) (hr : Ends r) (negative : Bool) :
    unsigned (F := F) negative (ds ++ frac ++ exp ++ r) =
      .ok (.float (FloatText.read
        ((if negative then ['-'] else []) ++ ds ++ frac ++ exp)), r) := by
  have hE : expPart (exp ++ r) = (exp, r) := by
    cases exp with
    | nil => exact hr.exp
    | cons e es => exact expPart_append hexp (List.cons_ne_nil e es) hr.takeWhile.1
  have hErun : (exp ++ r).takeWhile Char.isDigit = [] := by
    cases exp with
    | nil => exact hr.takeWhile.1
    | cons e es =>
        rcases expPart_head hexp (c := e) rfl with rfl | rfl
        · rfl
        · rfl
  have hF : fracPart (frac ++ (exp ++ r)) = (frac, exp ++ r) := by
    cases frac with
    | nil =>
        apply fracPart_of_ne
        intro c hc
        cases exp with
        | nil => exact (hr c hc).2.1
        | cons e es =>
            rw [List.cons_append, List.nil_append, List.head?_cons, Option.some_inj] at hc
            rcases expPart_head hexp (c := e) rfl with rfl | rfl
            · rw [← hc]
              decide
            · rw [← hc]
              decide
    | cons f fs => exact fracPart_append hfrac (List.cons_ne_nil f fs) hErun
  have hFrun : (frac ++ (exp ++ r)).takeWhile Char.isDigit = [] := by
    cases frac with
    | nil => exact hErun
    | cons f fs =>
        rw [fracPart_head hfrac (c := f) rfl]
        rfl
  unfold unsigned
  rw [List.append_assoc, List.append_assoc, intPart_append h hFrun]
  simp only [hF, hE]
  rw [if_neg]
  rintro ⟨hf, he⟩
  rcases hsome with hsome | hsome
  · exact hsome hf
  · exact hsome he

theorem intPart_head {ds : List Char} (h : intPart ds = some (ds, [])) :
    exists c t, ds = c :: t ∧ c.isDigit = true := by
  cases ds with
  | nil => cases h
  | cons c t =>
      refine ⟨c, t, rfl, ?_⟩
      rw [intPart] at h
      split_ifs at h with hzero hdigit
      · rw [hzero]
        rfl
      · exact hdigit

theorem literal_eq_none (token : String) {c d : Char} {t u : List Char}
    (htoken : token.toList = d :: u) (h : d ≠ c) : literal token (c :: t) = none := by
  unfold literal
  rw [htoken]
  simp [List.isPrefixOf, h]

/-- A text that starts like a number is read as one. -/
theorem scalar_of_digit {c : Char} {t : List Char} (hc : c.isDigit = true) :
    scalar (F := F) (c :: t) = unsigned false (c :: t) := by
  have hne : forall d : Char, d.isDigit = false -> d ≠ c := by
    rintro d hd rfl
    rw [hc] at hd
    cases hd
  unfold scalar
  rw [literal_eq_none "null" rfl (hne 'n' rfl),
    literal_eq_none "true" rfl (hne 't' rfl),
    literal_eq_none "false" rfl (hne 'f' rfl),
    literal_eq_none "NaN" rfl (hne 'N' rfl),
    literal_eq_none "Infinity" rfl (hne 'I' rfl),
    literal_eq_none "-Infinity" rfl (hne '-' rfl)]
  simp only
  unfold number
  split
  · rename_i heq
    injection heq with hminus
    exact absurd hminus.symm (hne '-' rfl)
  · rfl

theorem scalar_of_minus {c : Char} {t : List Char} (hc : c.isDigit = true) :
    scalar (F := F) ('-' :: c :: t) = unsigned true (c :: t) := by
  have hI : 'I' ≠ c := by
    rintro rfl
    cases hc
  have hinf : literal "-Infinity" ('-' :: c :: t) = none := by
    unfold literal
    have htoken : "-Infinity".toList = '-' :: 'I' :: "nfinity".toList := rfl
    rw [htoken]
    simp [List.isPrefixOf, hI]
  unfold scalar
  rw [hinf]
  rfl

/-!
## Values are read back
-/

theorem scalar_integer {n : Int} (h : (Nat.toDigits 10 n.natAbs).length ≤ maxDigits)
    {r : List Char} (hr : Ends r) :
    scalar (F := F) (integer n ++ r) = .ok (.int n, r) := by
  cases n with
  | ofNat k =>
      have hunsigned := unsigned_int (F := F) (intPart_toDigits k) hr h false
      rcases intPart_head (intPart_toDigits k) with ⟨c, t, hct, hc⟩
      rw [integer]
      rw [hct] at hunsigned ⊢
      rw [List.cons_append, scalar_of_digit hc]
      rw [List.cons_append] at hunsigned
      rw [hunsigned, intOf, ← hct, Nat.ofDigitChars_ten_toDigits]
      rfl
  | negSucc k =>
      have hunsigned := unsigned_int (F := F) (intPart_toDigits (k + 1)) hr h true
      rcases intPart_head (intPart_toDigits (k + 1)) with ⟨c, t, hct, hc⟩
      rw [integer]
      rw [hct] at hunsigned ⊢
      rw [List.cons_append, List.cons_append, scalar_of_minus hc]
      rw [List.cons_append] at hunsigned
      rw [hunsigned, intOf, ← hct, Nat.ofDigitChars_ten_toDigits]
      rfl

theorem scalar_float (x : F) {r : List Char} (hr : Ends r) :
    scalar (F := F) (FloatText.text x ++ r) = .ok (.float x, r) := by
  have hread := FloatText.read_text x
  rcases FloatText.token x with h | h | h | ⟨sign, ds, frac, exp, h, hsign, hds, hfrac, hexp, hsome⟩
  · rw [h] at hread ⊢
    rw [← hread]
    rfl
  · rw [h] at hread ⊢
    rw [← hread]
    rfl
  · rw [h] at hread ⊢
    rw [← hread]
    rfl
  · rcases intPart_head hds with ⟨c, t, hct, hc⟩
    rw [h] at hread ⊢
    rcases hsign with rfl | rfl
    · have hunsigned := unsigned_float (F := F) hds hfrac hexp hsome hr false
      rw [List.nil_append] at hread ⊢
      rw [hct] at hunsigned hread ⊢
      simp only [List.cons_append] at hunsigned ⊢
      rw [scalar_of_digit hc, hunsigned, ← hread]
      rfl
    · have hunsigned := unsigned_float (F := F) hds hfrac hexp hsome hr true
      rw [hct] at hunsigned hread ⊢
      simp only [List.cons_append, List.nil_append] at hunsigned hread ⊢
      rw [scalar_of_minus hc, hunsigned, ← hread]
      rfl

/-- The characters that start a number. -/
def Leads (c : Char) : Prop := c.isDigit = true ∨ c = '-' ∨ c = 'N' ∨ c = 'I'

theorem Leads.ne {c : Char} (h : Leads c) {d : Char} (hd : d.isDigit = false)
    (hsign : d ≠ '-' ∧ d ≠ 'N' ∧ d ≠ 'I') : c ≠ d := by
  rintro rfl
  rcases h with h | rfl | rfl | rfl
  · rw [hd] at h
    cases h
  · exact hsign.1 rfl
  · exact hsign.2.1 rfl
  · exact hsign.2.2 rfl

theorem integer_head (n : Int) : exists c t, integer n = c :: t ∧ Leads c := by
  cases n with
  | ofNat k =>
      rcases intPart_head (intPart_toDigits k) with ⟨c, t, hct, hc⟩
      exact ⟨c, t, hct, Or.inl hc⟩
  | negSucc k => exact ⟨'-', _, rfl, Or.inr (Or.inl rfl)⟩

theorem float_head (x : F) : exists c t, FloatText.text x = c :: t ∧ Leads c := by
  rcases FloatText.token x with h | h | h | ⟨sign, ds, frac, exp, h, hsign, hds, _⟩
  · exact ⟨'N', _, h, Or.inr (Or.inr (Or.inl rfl))⟩
  · exact ⟨'I', _, h, Or.inr (Or.inr (Or.inr rfl))⟩
  · exact ⟨'-', _, h, Or.inr (Or.inl rfl)⟩
  · rcases intPart_head hds with ⟨c, t, hct, hc⟩
    rcases hsign with rfl | rfl
    · rw [hct] at h
      exact ⟨c, _, h, Or.inl hc⟩
    · exact ⟨'-', _, h, Or.inr (Or.inl rfl)⟩

theorem Leads.open {c : Char} (h : Leads c) :
    isSpace c = false ∧ c ≠ ']' ∧ c ≠ '}' := by
  refine ⟨?_, h.ne rfl (by decide), h.ne rfl (by decide)⟩
  unfold isSpace
  simp only [Bool.or_eq_false_iff, beq_eq_false_iff_ne]
  exact ⟨⟨⟨h.ne rfl (by decide), h.ne rfl (by decide)⟩, h.ne rfl (by decide)⟩,
    h.ne rfl (by decide)⟩

/-- What a written value starts with. -/
theorem text_head (v : Value F) :
    exists c t, text v = c :: t ∧ isSpace c = false ∧ c ≠ ']' ∧ c ≠ '}' := by
  cases v with
  | none => exact ⟨'n', _, rfl, by decide, by decide, by decide⟩
  | bool b =>
      cases b with
      | true => exact ⟨'t', _, rfl, by decide, by decide, by decide⟩
      | false => exact ⟨'f', _, rfl, by decide, by decide, by decide⟩
  | int n =>
      rcases integer_head n with ⟨c, t, hct, hc⟩
      exact ⟨c, t, hct, hc.open⟩
  | float x =>
      rcases float_head x with ⟨c, t, hct, hc⟩
      exact ⟨c, t, hct, hc.open⟩
  | str s => exact ⟨'"', _, rfl, by decide, by decide, by decide⟩
  | list xs =>
      cases xs with
      | nil => exact ⟨'[', _, rfl, by decide, by decide, by decide⟩
      | cons x xs => exact ⟨'[', _, by rw [text], by decide, by decide, by decide⟩
  | dict fs =>
      cases fs with
      | nil => exact ⟨'{', _, rfl, by decide, by decide, by decide⟩
      | cons f fs =>
          obtain ⟨k, v⟩ := f
          exact ⟨'{', _, by rw [text], by decide, by decide, by decide⟩

theorem skip_of_head {c : Char} {t : List Char} (h : isSpace c = false) :
    skip (c :: t) = c :: t := by
  unfold skip
  simp [h]

theorem skip_text (v : Value F) (r : List Char) : skip (text v ++ r) = text v ++ r := by
  rcases text_head v with ⟨c, t, hct, hc, _⟩
  rw [hct, List.cons_append, skip_of_head hc]

theorem skip_blank_text (v : Value F) (r : List Char) :
    skip (' ' :: (text v ++ r)) = text v ++ r :=
  skip_text v r

theorem ends_cons {c : Char} (h : c = ',' ∨ c = ']' ∨ c = '}') (r : List Char) :
    Ends (c :: r) := by
  intro d hd
  rw [List.head?_cons, Option.some_inj] at hd
  rw [← hd]
  rcases h with rfl | rfl | rfl
  all_goals exact ⟨rfl, by decide, by decide, by decide⟩

theorem ends_textItems (xs : List (Value F)) (r : List Char) :
    Ends (textItems xs ++ r) := by
  cases xs with
  | nil => exact ends_cons (Or.inr (Or.inl rfl)) r
  | cons x xs =>
      rw [textItems]
      exact ends_cons (Or.inl rfl) _

theorem ends_textMembers (fs : List (String × Value F)) (r : List Char) :
    Ends (textMembers fs ++ r) := by
  cases fs with
  | nil => exact ends_cons (Or.inr (Or.inr rfl)) r
  | cons f fs =>
      obtain ⟨k, v⟩ := f
      rw [textMembers]
      exact ends_cons (Or.inl rfl) _

/-- A value that is no string and no container is scanned as a scalar. -/
theorem value_scalar {fuel : Nat} {c : Char} {t : List Char} (hquote : c ≠ '"')
    (hlist : c ≠ '[') (hdict : c ≠ '{') :
    value (F := F) (fuel + 1) (c :: t) = scalar (c :: t) := by
  rw [value]
  · intro r heq
    exact hquote (List.cons.inj heq).1
  · intro r heq
    exact hlist (List.cons.inj heq).1
  · intro r heq
    exact hdict (List.cons.inj heq).1

theorem Leads.value {fuel : Nat} {cs t : List Char} {c : Char} (hcs : cs = c :: t)
    (h : Leads c) (r : List Char) :
    JsonText.value (F := F) (fuel + 1) (cs ++ r) = scalar (cs ++ r) := by
  rw [hcs, List.cons_append]
  exact value_scalar (h.ne rfl (by decide)) (h.ne rfl (by decide)) (h.ne rfl (by decide))

omit [FloatText F] in
theorem setKey_of_not_mem {key : String} {fs : List (String × Value F)}
    (h : key ∉ fs.map Prod.fst) (v : Value F) : Value.setKey key v fs = fs ++ [(key, v)] := by
  induction fs with
  | nil => rfl
  | cons e fs ih =>
      rw [List.map_cons, List.mem_cons, not_or] at h
      rw [Value.setKey, if_neg (Ne.symm h.1), ih h.2]
      rfl

/-- The items of a list after its bracket. -/
def textList : List (Value F) -> List Char
  | [] => []
  | x :: xs => text x ++ textItems xs

/-- The members of a dictionary after its brace. -/
def textDict : List (String × Value F) -> List Char
  | [] => []
  | (k, v) :: fs => quoted k ++ ':' :: ' ' :: (text v ++ textMembers fs)

theorem textItems_cons (y : Value F) (ys : List (Value F)) :
    textItems (y :: ys) = ',' :: ' ' :: textList (y :: ys) := by
  rw [textItems]
  rfl

theorem textMembers_cons (f : String × Value F) (fs : List (String × Value F)) :
    textMembers (f :: fs) = ',' :: ' ' :: textDict (f :: fs) := by
  obtain ⟨k, v⟩ := f
  rw [textMembers]
  rfl

theorem text_list_cons (x : Value F) (xs : List (Value F)) :
    text (.list (x :: xs)) = '[' :: textList (x :: xs) := by
  rw [text]
  rfl

theorem text_dict_cons (f : String × Value F) (fs : List (String × Value F)) :
    text (.dict (f :: fs)) = '{' :: textDict (f :: fs) := by
  obtain ⟨k, v⟩ := f
  rw [text]
  rfl

theorem textList_head (x : Value F) (xs : List (Value F)) (r : List Char) :
    exists c t, textList (x :: xs) ++ r = c :: t ∧ isSpace c = false ∧ c ≠ ']' := by
  rcases text_head x with ⟨c, t, hct, hspace, hclose, _⟩
  refine ⟨c, t ++ textItems xs ++ r, ?_, hspace, hclose⟩
  rw [textList, hct]
  rfl

theorem textDict_head (f : String × Value F) (fs : List (String × Value F)) (r : List Char) :
    exists t, textDict (f :: fs) ++ r = '"' :: t := by
  obtain ⟨k, v⟩ := f
  exact ⟨_, rfl⟩

/-- A list is scanned item by item. -/
theorem value_list {fuel : Nat} {c : Char} {t : List Char} (hspace : isSpace c = false)
    (hclose : c ≠ ']') :
    value (F := F) (fuel + 1) ('[' :: c :: t) = items fuel [] (c :: t) := by
  rw [value, skip_of_head hspace]
  split
  · rename_i heq
    injection heq with hc
    exact absurd hc hclose
  · rfl

theorem value_dict {fuel : Nat} {t : List Char} :
    value (F := F) (fuel + 1) ('{' :: '"' :: t) = members fuel [] ('"' :: t) := by
  rw [value, skip_of_head (by decide)]
  rfl

mutual

/-- A written value is read back, whatever follows. -/
theorem value_text : forall (v : Value F), Sound v -> forall fuel r,
    2 * (text v).length ≤ fuel -> Ends r -> value fuel (text v ++ r) = .ok (v, r)
  | .none, _, fuel, r, hfuel, _ => by
      cases fuel with
      | zero => simp [text] at hfuel
      | succ fuel => exact value_scalar (by decide) (by decide) (by decide)
  | .bool true, _, fuel, r, hfuel, _ => by
      cases fuel with
      | zero => simp [text] at hfuel
      | succ fuel => exact value_scalar (by decide) (by decide) (by decide)
  | .bool false, _, fuel, r, hfuel, _ => by
      cases fuel with
      | zero => simp [text] at hfuel
      | succ fuel => exact value_scalar (by decide) (by decide) (by decide)
  | .int n, h, fuel, r, hfuel, hr => by
      rw [Sound] at h
      rcases integer_head n with ⟨c, t, hct, hc⟩
      rw [text] at hfuel ⊢
      cases fuel with
      | zero =>
          rw [hct] at hfuel
          simp at hfuel
      | succ fuel =>
          rw [hc.value hct]
          exact scalar_integer h hr
  | .float x, _, fuel, r, hfuel, hr => by
      rcases float_head x with ⟨c, t, hct, hc⟩
      rw [text] at hfuel ⊢
      cases fuel with
      | zero =>
          rw [hct] at hfuel
          simp at hfuel
      | succ fuel =>
          rw [hc.value hct]
          exact scalar_float x hr
  | .str s, _, fuel, r, hfuel, _ => by
      cases fuel with
      | zero => simp [text, quoted] at hfuel
      | succ fuel =>
          have hstring := scanString_body s r
          rw [text, quoted, List.cons_append, value, hstring]
  | .list [], _, fuel, r, hfuel, _ => by
      cases fuel with
      | zero => simp [text] at hfuel
      | succ fuel => rfl
  | .list (x :: xs), h, fuel, r, hfuel, _ => by
      rw [Sound] at h
      rw [text_list_cons, List.length_cons] at hfuel
      cases fuel with
      | zero => omega
      | succ fuel =>
          have hitems := items_text (x :: xs) h (List.cons_ne_nil x xs) fuel [] r (by omega)
          rcases textList_head x xs r with ⟨c, t, hct, hspace, hclose⟩
          rw [text_list_cons, List.cons_append]
          rw [hct] at hitems ⊢
          rw [value_list hspace hclose, hitems]
          rfl
  | .dict [], _, fuel, r, hfuel, _ => by
      cases fuel with
      | zero => simp [text] at hfuel
      | succ fuel => rfl
  | .dict (f :: fs), h, fuel, r, hfuel, _ => by
      rw [Sound] at h
      rw [text_dict_cons, List.length_cons] at hfuel
      cases fuel with
      | zero => omega
      | succ fuel =>
          have hmembers := members_text (f :: fs) h.2 (List.cons_ne_nil f fs) fuel [] r
            (by omega) h.1
          rcases textDict_head f fs r with ⟨t, hct⟩
          rw [text_dict_cons, List.cons_append]
          rw [hct] at hmembers ⊢
          rw [value_dict, hmembers]
          rfl

theorem items_text : forall (l : List (Value F)), SoundItems l -> l ≠ [] ->
    forall fuel seen r, 2 * (textList l).length ≤ fuel ->
    items fuel seen (textList l ++ r) = .ok (.list (seen ++ l), r)
  | [], _, hne, _, _, _, _ => absurd rfl hne
  | x :: xs, h, _, fuel, seen, r, hfuel => by
      rw [SoundItems] at h
      have hlen : (textList (x :: xs)).length = (text x).length + (textItems xs).length :=
        List.length_append
      have hpos : 1 ≤ (textItems xs).length := by
        cases xs with
        | nil => simp [textItems]
        | cons y ys => simp [textItems]
      cases fuel with
      | zero => omega
      | succ fuel =>
          have hv := value_text x h.1 fuel (textItems xs ++ r) (by omega)
            (ends_textItems xs r)
          rw [textList, List.append_assoc, items, hv]
          cases xs with
          | nil => rfl
          | cons y ys =>
              rw [textItems_cons, List.length_cons, List.length_cons] at hlen
              have hrest := items_text (y :: ys) h.2 (List.cons_ne_nil y ys) fuel
                (seen ++ [x]) r (by omega)
              rcases textList_head y ys r with ⟨c, t, hct, hspace, _⟩
              have hskip : skip (' ' :: (textList (y :: ys) ++ r)) =
                  textList (y :: ys) ++ r := by
                rw [hct]
                exact skip_of_head hspace
              have hstep : items (F := F) fuel (seen ++ [x])
                  (skip (' ' :: (textList (y :: ys) ++ r))) =
                  .ok (.list (seen ++ x :: y :: ys), r) := by
                rw [hskip, hrest, List.append_assoc]
                rfl
              rw [textItems_cons]
              exact hstep

theorem members_text : forall (l : List (String × Value F)), SoundFields l -> l ≠ [] ->
    forall fuel seen r, 2 * (textDict l).length ≤ fuel ->
    ((seen ++ l).map Prod.fst).Nodup ->
    members fuel seen (textDict l ++ r) = .ok (.dict (seen ++ l), r)
  | [], _, hne, _, _, _, _, _ => absurd rfl hne
  | (k, v) :: fs, h, _, fuel, seen, r, hfuel, hkeys => by
      rw [SoundFields] at h
      have hlen : (textDict ((k, v) :: fs)).length =
          (quoted k).length + ((text v).length + (textMembers fs).length + 2) := by
        simp [textDict]
      have hpos : 1 ≤ (textMembers fs).length := by
        cases fs with
        | nil => simp [textMembers]
        | cons f fs => rw [textMembers_cons]; simp
      cases fuel with
      | zero => omega
      | succ fuel =>
          have hv := value_text v h.1 fuel (textMembers fs ++ r) (by omega)
            (ends_textMembers fs r)
          have hkey : k ∉ seen.map Prod.fst := by
            rw [List.map_append, List.map_cons, List.nodup_append] at hkeys
            intro hmem
            exact hkeys.2.2 k hmem k List.mem_cons_self rfl
          have hset := setKey_of_not_mem hkey v
          have hstring := scanString_body k (':' :: ' ' :: (text v ++ (textMembers fs ++ r)))
          have htext : textDict ((k, v) :: fs) ++ r = '"' :: (body k.toList ++
              ':' :: ' ' :: (text v ++ (textMembers fs ++ r))) := by
            simp [textDict, quoted]
          have hskip := skip_blank_text v (textMembers fs ++ r)
          rw [htext, members, hstring]
          simp only [skip_of_head (show isSpace ':' = false by decide), hskip, hv,
            bind, Except.bind, hset]
          cases fs with
          | nil => rfl
          | cons f fs =>
              rw [textMembers_cons, List.length_cons, List.length_cons] at hlen
              have hkeys' : (((seen ++ [(k, v)]) ++ f :: fs).map Prod.fst).Nodup := by
                rw [List.append_assoc]
                exact hkeys
              have hrest := members_text (f :: fs) h.2 (List.cons_ne_nil f fs) fuel
                (seen ++ [(k, v)]) r (by omega) hkeys'
              rcases textDict_head f fs r with ⟨t, hct⟩
              have hstep : members (F := F) fuel (seen ++ [(k, v)])
                  (skip (' ' :: (textDict (f :: fs) ++ r))) =
                  .ok (.dict (seen ++ (k, v) :: f :: fs), r) := by
                have hblank : skip (' ' :: (textDict (f :: fs) ++ r)) =
                    textDict (f :: fs) ++ r := by
                  rw [hct]
                  rfl
                rw [hblank, hrest, List.append_assoc]
                rfl
              rw [textMembers_cons]
              exact hstep

end

/-- Reading a written value gives it back. -/
theorem loads_dumps {v : Value F} (h : Sound v) : loads (dumps v) = .ok v := by
  unfold loads dumps
  have hends : Ends ([] : List Char) := by
    intro c hc
    cases hc
  have hlen : (String.ofList (text v)).length = (text v).length := by simp
  have hvalue := value_text v h (2 * (text v).length + 2) [] (by omega) hends
  have hskip := skip_text v []
  rw [List.append_nil] at hvalue hskip
  rw [hlen, String.toList_ofList, hskip, hvalue]
  rfl

/-!
## What is read can be written
-/

theorem ofDigitChars_lt {ds : List Char} (h : forall c, c ∈ ds -> c.isDigit = true)
    (init : Nat) : Nat.ofDigitChars 10 ds init < (init + 1) * 10 ^ ds.length := by
  induction ds generalizing init with
  | nil => simp
  | cons c ds ih =>
      have hc : c.toNat - '0'.toNat < 10 := by
        have hdigit := h c List.mem_cons_self
        simp only [Char.isDigit, Bool.and_eq_true, decide_eq_true_eq] at hdigit
        have h9 : c.toNat ≤ 57 := hdigit.2
        have h0 : '0'.toNat = 48 := rfl
        omega
      have hrest := ih (fun d hd => h d (List.mem_cons_of_mem c hd))
        (10 * init + (c.toNat - '0'.toNat))
      rw [Nat.ofDigitChars_cons, List.length_cons, Nat.pow_succ]
      calc
        Nat.ofDigitChars 10 ds (10 * init + (c.toNat - '0'.toNat)) <
            (10 * init + (c.toNat - '0'.toNat) + 1) * 10 ^ ds.length := hrest
        _ ≤ ((init + 1) * 10) * 10 ^ ds.length := Nat.mul_le_mul_right _ (by omega)
        _ = (init + 1) * (10 ^ ds.length * 10) := by
          rw [Nat.mul_assoc, Nat.mul_comm 10]

theorem intPart_digits {cs ds r : List Char} (h : intPart cs = some (ds, r)) :
    ds ≠ [] ∧ forall c, c ∈ ds -> c.isDigit = true := by
  cases cs with
  | nil => cases h
  | cons c t =>
      rw [intPart] at h
      split_ifs at h with hzero hdigit
      · simp only [Option.some_inj, Prod.mk.injEq] at h
        rw [← h.1]
        simp
      · simp only [Option.some_inj, Prod.mk.injEq] at h
        rw [← h.1]
        refine ⟨List.cons_ne_nil _ _, ?_⟩
        intro d hd
        rcases List.mem_cons.mp hd with rfl | hd
        · exact hdigit
        · exact List.mem_takeWhile_imp hd

theorem unsigned_sound {negative : Bool} {cs r : List Char} {v : Value F}
    (h : unsigned negative cs = .ok (v, r)) : Sound v := by
  unfold unsigned at h
  split at h
  · cases h
  · rename_i ds r1 hint
    simp only at h
    split_ifs at h with hnone hlen
    · injection h with h
      injection h with hv _
      rw [← hv, Sound]
      rcases intPart_digits hint with ⟨hne, hdigits⟩
      have hpos : 0 < ds.length := List.length_pos_iff.mpr hne
      have hlt := ofDigitChars_lt hdigits 0
      rw [Nat.zero_add, Nat.one_mul] at hlt
      have habs : (intOf negative ds).natAbs = Nat.ofDigitChars 10 ds 0 := by
        unfold intOf
        split_ifs <;> simp
      rw [habs]
      exact Nat.le_trans ((Nat.length_toDigits_le_iff (by decide) hpos).mpr hlt)
        (Nat.not_lt.mp hlen)
    all_goals
      injection h with h
      injection h with hv _
      rw [← hv]
      exact True.intro

theorem scalar_sound {cs r : List Char} {v : Value F} (h : scalar cs = .ok (v, r)) :
    Sound v := by
  unfold scalar at h
  split at h
  case h_7 =>
    unfold number at h
    split at h
    · exact unsigned_sound h
    · exact unsigned_sound h
  all_goals
    injection h with h
    injection h with hv _
    rw [← hv]
    exact True.intro

omit [FloatText F] in
theorem soundItems_append {xs : List (Value F)} (h : SoundItems xs) {x : Value F}
    (hx : Sound x) : SoundItems (xs ++ [x]) := by
  induction xs with
  | nil => exact ⟨hx, True.intro⟩
  | cons y ys ih => exact ⟨h.1, ih h.2⟩

omit [FloatText F] in
/-- Setting a key keeps the keys different. -/
theorem setKey_sound {fs : List (String × Value F)} (hkeys : (fs.map Prod.fst).Nodup)
    (h : SoundFields fs) {v : Value F} (hv : Sound v) (key : String) :
    ((Value.setKey key v fs).map Prod.fst).Nodup ∧ SoundFields (Value.setKey key v fs) ∧
      forall k, k ∈ (Value.setKey key v fs).map Prod.fst -> k = key ∨ k ∈ fs.map Prod.fst := by
  induction fs with
  | nil =>
      refine ⟨List.nodup_singleton key, ⟨hv, True.intro⟩, ?_⟩
      intro k hk
      exact Or.inl (List.mem_singleton.mp hk)
  | cons e fs ih =>
      obtain ⟨k0, v0⟩ := e
      rw [List.map_cons, List.nodup_cons] at hkeys
      rw [SoundFields] at h
      rcases ih hkeys.2 h.2 with ⟨hnodup, hfields, hmem⟩
      rw [Value.setKey]
      split_ifs with hk0
      · have hk0' : k0 = key := hk0
        subst hk0'
        refine ⟨List.nodup_cons.mpr hkeys, ⟨hv, h.2⟩, ?_⟩
        intro k hk
        exact Or.inr hk
      · refine ⟨List.nodup_cons.mpr ⟨?_, hnodup⟩, ⟨h.1, hfields⟩, ?_⟩
        · intro hin
          rcases hmem k0 hin with heq | hin
          · exact hk0 heq
          · exact hkeys.1 hin
        · intro k hk
          rcases List.mem_cons.mp hk with rfl | hk
          · exact Or.inr List.mem_cons_self
          · rcases hmem k hk with heq | hin
            · exact Or.inl heq
            · exact Or.inr (List.mem_cons_of_mem _ hin)

/-- Every value that is scanned is sound. -/
theorem scan_sound : forall fuel,
    (forall cs (v : Value F) r, value fuel cs = .ok (v, r) -> Sound v) ∧
    (forall seen cs (v : Value F) r, SoundItems seen -> items fuel seen cs = .ok (v, r) ->
      Sound v) ∧
    (forall seen cs (v : Value F) r, (seen.map Prod.fst).Nodup -> SoundFields seen ->
      members fuel seen cs = .ok (v, r) -> Sound v) := by
  intro fuel
  induction fuel with
  | zero =>
      refine ⟨?_, ?_, ?_⟩
      · intro cs v r h
        cases h
      · intro seen cs v r _ h
        cases h
      · intro seen cs v r _ _ h
        cases h
  | succ fuel ih =>
      rcases ih with ⟨hvalue, hitems, hmembers⟩
      refine ⟨?_, ?_, ?_⟩
      · intro cs v r h
        rw [value.eq_def] at h
        simp only at h
        split at h
        · split at h
          · injection h with h
            injection h with hv _
            rw [← hv]
            exact True.intro
          · cases h
        · split at h
          · injection h with h
            injection h with hv _
            rw [← hv]
            exact True.intro
          · exact hitems [] _ v r True.intro h
        · split at h
          · injection h with h
            injection h with hv _
            rw [← hv]
            exact ⟨List.nodup_nil, True.intro⟩
          · exact hmembers [] _ v r List.nodup_nil True.intro h
        · exact scalar_sound h
      · intro seen cs v r hseen h
        rw [items] at h
        rcases Fallible.bind_eq_ok.mp h with ⟨⟨x, r'⟩, hx, h⟩
        have hseen' := soundItems_append hseen (hvalue cs x r' hx)
        simp only at h
        split at h
        · exact hitems _ _ v r hseen' h
        · injection h with h
          injection h with hv _
          rw [← hv]
          exact hseen'
        · cases h
      · intro seen cs v r hkeys hseen h
        rw [members.eq_def] at h
        simp only at h
        split at h
        · split at h
          · cases h
          · rename_i key r1 _
            split at h
            · rcases Fallible.bind_eq_ok.mp h with ⟨⟨x, r'⟩, hx, h⟩
              simp only at h
              have hset := setKey_sound hkeys hseen (hvalue _ x r' hx) key
              split at h
              · exact hmembers _ _ v r hset.1 hset.2.1 h
              · injection h with h
                injection h with hv _
                rw [← hv]
                exact ⟨hset.1, hset.2.1⟩
              · cases h
            · cases h
        · cases h

/-- What is read can be written and read again. -/
theorem loads_sound {t : String} {v : Value F} (h : loads t = .ok v) : Sound v := by
  unfold loads at h
  split at h
  · cases h
  · rename_i w rest hvalue
    split_ifs at h
    injection h with h
    rw [← h]
    exact (scan_sound _).1 _ _ _ hvalue

/-!
## A written value is one line
-/

def Printable (cs : List Char) : Prop := forall c, c ∈ cs -> 0x20 ≤ c.toNat ∧ c.toNat ≤ 0x7e

theorem printable_of_all {cs : List Char}
    (h : cs.all (fun c => 0x20 ≤ c.toNat && c.toNat ≤ 0x7e) = true) : Printable cs := by
  intro c hc
  have hall := List.all_eq_true.mp h c hc
  simpa using hall

theorem printable_append {cs ds : List Char} :
    Printable (cs ++ ds) <-> Printable cs ∧ Printable ds := by
  unfold Printable
  constructor
  · intro h
    exact ⟨fun c hc => h c (List.mem_append_left _ hc),
      fun c hc => h c (List.mem_append_right _ hc)⟩
  · rintro ⟨hcs, hds⟩ c hc
    rcases List.mem_append.mp hc with hc | hc
    · exact hcs c hc
    · exact hds c hc

theorem printable_cons {c : Char} {cs : List Char} :
    Printable (c :: cs) <-> (0x20 ≤ c.toNat ∧ c.toNat ≤ 0x7e) ∧ Printable cs := by
  unfold Printable
  rw [List.forall_mem_cons]

theorem printable_flatMap {A : Type} {f : A -> List Char} {xs : List A}
    (h : forall x, x ∈ xs -> Printable (f x)) : Printable (xs.flatMap f) := by
  intro c hc
  rcases List.mem_flatMap.mp hc with ⟨x, hx, hcx⟩
  exact h x hx c hcx

theorem hexChar_printable (n : Nat) : 0x20 ≤ (hexChar n).toNat ∧ (hexChar n).toNat ≤ 0x7e := by
  by_cases hn : n < 16
  · interval_cases n <;> decide
  · have hdefault : hexChar n = '0' := by
      unfold hexChar
      rw [List.getD_eq_getElem?_getD, List.getElem?_eq_none (Nat.not_lt.mp hn)]
      rfl
    rw [hdefault]
    decide

theorem unitEscape_printable (u : Nat) : Printable (unitEscape u) := by
  unfold unitEscape
  simp only [printable_cons]
  exact ⟨by decide, by decide, hexChar_printable _, hexChar_printable _,
    hexChar_printable _, hexChar_printable _, fun c hc => by cases hc⟩

theorem escapeChar_printable (c : Char) : Printable (escapeChar c) := by
  unfold escapeChar
  split_ifs with h0 h1 h2 h3 h4 h5 h6 h7
  · exact printable_of_all rfl
  · exact printable_of_all rfl
  · exact printable_of_all rfl
  · exact printable_of_all rfl
  · exact printable_of_all rfl
  · exact printable_of_all rfl
  · exact printable_of_all rfl
  · exact printable_cons.mpr ⟨h7, printable_of_all rfl⟩
  · exact printable_flatMap fun u _ => unitEscape_printable u

theorem quoted_printable (s : String) : Printable (quoted s) := by
  unfold quoted body
  rw [printable_cons, printable_append]
  exact ⟨by decide, printable_flatMap fun c _ => escapeChar_printable c,
    printable_of_all rfl⟩

theorem digits_printable {ds : List Char} (h : forall c, c ∈ ds -> c.isDigit = true) :
    Printable ds := by
  intro c hc
  have hdigit := h c hc
  simp only [Char.isDigit, Bool.and_eq_true, decide_eq_true_eq] at hdigit
  have h0 : 48 ≤ c.toNat := hdigit.1
  have h9 : c.toNat ≤ 57 := hdigit.2
  omega

theorem integer_printable (n : Int) : Printable (integer n) := by
  have hdigits : forall k, Printable (Nat.toDigits 10 k) := fun k =>
    digits_printable fun c hc => Nat.isDigit_of_mem_toDigits (by decide) (by decide) hc
  cases n with
  | ofNat k => exact hdigits k
  | negSucc k => exact printable_cons.mpr ⟨by decide, hdigits (k + 1)⟩

theorem run_printable {cs : List Char} (h : cs.dropWhile Char.isDigit = []) :
    Printable cs :=
  digits_printable (List.dropWhile_eq_nil_iff.mp h)

theorem frac_printable {frac : List Char} (h : fracPart frac = (frac, [])) :
    Printable frac := by
  unfold fracPart at h
  split at h
  · split_ifs at h with hdigit
    · simp only [Prod.mk.injEq] at h
      rw [printable_cons, printable_cons]
      refine ⟨by decide, ?_, run_printable h.2⟩
      rename_i c ds
      have hone : Printable [c] := digits_printable fun d hd => by
        rw [List.mem_singleton] at hd
        rw [hd]
        exact hdigit
      exact hone c List.mem_cons_self
    · cases h
  · simp only [Prod.mk.injEq] at h
    rw [h.2]
    intro c hc
    cases hc

theorem exp_printable {exp : List Char} (h : expPart exp = (exp, [])) : Printable exp := by
  cases exp with
  | nil =>
      intro c hc
      cases hc
  | cons e ds =>
      have hhead := expPart_head h (c := e) rfl
      rw [expPart] at h
      simp only at h
      split_ifs at h with hcond
      · simp only [Prod.mk.injEq, List.cons.injEq, true_and, List.cons_append] at h
        rw [printable_cons, ← h.1, printable_append]
        refine ⟨?_, ?_, ?_⟩
        · rcases hhead with rfl | rfl <;> decide
        · unfold signPart
          split <;> exact printable_of_all rfl
        · exact digits_printable fun c hc => List.mem_takeWhile_imp hc
      · cases h

theorem float_printable (x : F) : Printable (FloatText.text x) := by
  rcases FloatText.token x with h | h | h | ⟨sign, ds, frac, exp, h, hsign, hds, hfrac, hexp, _⟩
  · rw [h]
    exact printable_of_all rfl
  · rw [h]
    exact printable_of_all rfl
  · rw [h]
    exact printable_of_all rfl
  · rw [h, printable_append, printable_append, printable_append]
    refine ⟨⟨⟨?_, digits_printable (intPart_digits hds).2⟩, frac_printable hfrac⟩,
      exp_printable hexp⟩
    rcases hsign with rfl | rfl <;> exact printable_of_all rfl

mutual

theorem text_printable : forall v : Value F, Printable (text v)
  | .none => printable_of_all rfl
  | .bool true => printable_of_all rfl
  | .bool false => printable_of_all rfl
  | .int n => integer_printable n
  | .float x => float_printable x
  | .str s => quoted_printable s
  | .list [] => printable_of_all rfl
  | .list (x :: xs) => by
      rw [text, printable_cons, printable_append]
      exact ⟨by decide, text_printable x, textItems_printable xs⟩
  | .dict [] => printable_of_all rfl
  | .dict ((k, v) :: fs) => by
      rw [text, printable_cons, printable_append, printable_cons, printable_cons,
        printable_append]
      exact ⟨by decide, quoted_printable k, by decide, by decide, text_printable v,
        textMembers_printable fs⟩

theorem textItems_printable : forall xs : List (Value F), Printable (textItems xs)
  | [] => printable_of_all rfl
  | x :: xs => by
      rw [textItems, printable_cons, printable_cons, printable_append]
      exact ⟨by decide, by decide, text_printable x, textItems_printable xs⟩

theorem textMembers_printable : forall fs : List (String × Value F),
    Printable (textMembers fs)
  | [] => printable_of_all rfl
  | (k, v) :: fs => by
      rw [textMembers, printable_cons, printable_cons, printable_append, printable_cons,
        printable_cons, printable_append]
      exact ⟨by decide, by decide, quoted_printable k, by decide, by decide,
        text_printable v, textMembers_printable fs⟩

end

/-!
## Two numbers
-/

/-- A type with two floating point numbers, zero and one half. -/
inductive Half where
  | zero
  | half
deriving DecidableEq

instance : FloatText Half where
  value
    | .zero => .finite 0
    | .half => .finite (1 / 2)
  text
    | .zero => "0.0".toList
    | .half => "0.5".toList
  read cs := if cs = "0.0".toList then .zero else .half
  token x := by
    right
    right
    right
    cases x with
    | zero => exact ⟨[], ['0'], ['.', '0'], [], rfl, Or.inl rfl, rfl, rfl, rfl, Or.inl (by decide)⟩
    | half => exact ⟨[], ['0'], ['.', '5'], [], rfl, Or.inl rfl, rfl, rfl, rfl, Or.inl (by decide)⟩
  read_text x := by
    cases x with
    | zero => rfl
    | half => rfl

end JsonText
end Dev
end Ostia
