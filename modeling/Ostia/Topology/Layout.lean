import Mathlib.Logic.Function.Basic
import Ostia.Topology.Json

/-!
# Printers of documents

A printer is given by how it escapes the characters of a string and by the blanks it puts
between the parts of a document: members in the order of iteration, integers in decimal digits.
A float prints as a fraction, as no document that is looked at here holds one.

The text of a value followed by anything that does not continue a number determines the value,
so every such printer is injective.
-/

namespace Ostia
namespace Topology

def isBlank (c : Char) : Bool := c == ' ' || c == '\n'

/-- How a printer escapes a character, what it puts before a part and after a colon. -/
structure Layout where
  escape : Char -> List Char
  newline : Nat -> List Char
  colon : List Char
  escape_split : forall {c d : Char} {r r' : List Char}, escape c ++ r = escape d ++ r' ->
    c = d ∧ r = r'
  escape_quote : forall {c : Char} {r r' : List Char}, escape c ++ r ≠ '"' :: r'
  newline_blank : forall {d : Nat} {c : Char}, c ∈ newline d -> isBlank c = true

namespace Layout

def number : Int -> List Char
  | .ofNat n => Nat.toDigits 10 n
  | .negSucc n => '-' :: Nat.toDigits 10 (n + 1)

section Text

variable (L : Layout)

/-- The characters of a string and its closing quote. -/
def body (cs : List Char) : List Char := cs.flatMap L.escape ++ ['"']

def quoted (s : String) : List Char := '"' :: L.body s.toList

mutual

/-- The text of a value at an indentation. -/
def text (d : Nat) : Json -> List Char
  | .null => ['n', 'u', 'l', 'l']
  | .bool true => ['t', 'r', 'u', 'e']
  | .bool false => ['f', 'a', 'l', 's', 'e']
  | .int n => number n
  | .float q => number q.num ++ '/' :: number q.den
  | .str s => L.quoted s
  | .arr [] => ['[', ']']
  | .arr (x :: xs) => '[' :: L.newline (d + 2) ++ text (d + 2) x ++ items d xs
  | .obj [] => ['{', '}']
  | .obj ((k, v) :: fs) =>
      '{' :: L.newline (d + 2) ++ L.quoted k ++ ':' :: L.colon ++ text (d + 2) v ++ members d fs

def items (d : Nat) : List Json -> List Char
  | [] => L.newline d ++ [']']
  | x :: xs => ',' :: L.newline (d + 2) ++ text (d + 2) x ++ items d xs

def members (d : Nat) : List (String × Json) -> List Char
  | [] => L.newline d ++ ['}']
  | (k, v) :: fs =>
      ',' :: L.newline (d + 2) ++ L.quoted k ++ ':' :: L.colon ++ text (d + 2) v ++ members d fs

end

end Text

/-!
## Strings and numbers
-/

section Split

variable {L : Layout}

theorem body_split {cs ds r r' : List Char} (h : L.body cs ++ r = L.body ds ++ r') :
    cs = ds ∧ r = r' := by
  have hcons : forall (c : Char) (cs r : List Char),
      L.body (c :: cs) ++ r = L.escape c ++ (L.body cs ++ r) := by
    intro c cs r
    unfold body
    rw [List.flatMap_cons, List.append_assoc, List.append_assoc, List.append_assoc]
  induction cs generalizing ds with
  | nil =>
      cases ds with
      | nil => exact ⟨rfl, List.append_cancel_left h⟩
      | cons d ds =>
          rw [hcons] at h
          exact absurd h.symm L.escape_quote
  | cons c cs ih =>
      cases ds with
      | nil =>
          rw [hcons] at h
          exact absurd h L.escape_quote
      | cons d ds =>
          rw [hcons, hcons] at h
          rcases L.escape_split h with ⟨hc, hrest⟩
          rcases ih hrest with ⟨hcs, hr⟩
          rw [hc, hcs]
          exact ⟨rfl, hr⟩

theorem quoted_split {s t : String} {r r' : List Char}
    (h : L.quoted s ++ r = L.quoted t ++ r') : s = t ∧ r = r' := by
  unfold quoted at h
  simp only [List.cons_append, List.cons.injEq, true_and] at h
  rcases body_split h with ⟨hbody, hrest⟩
  exact ⟨String.toList_injective hbody, hrest⟩

theorem toDigits_injective {a b : Nat} (h : Nat.toDigits 10 a = Nat.toDigits 10 b) :
    a = b := by
  rw [← Nat.ofDigitChars_toDigits (b := 10) (n := a) (by decide) (by decide), h,
    Nat.ofDigitChars_toDigits (by decide) (by decide)]

theorem isDigit_of_mem {a : Nat} {c : Char} (h : c ∈ Nat.toDigits 10 a) :
    c.isDigit = true :=
  Nat.isDigit_of_mem_toDigits (by decide) (by decide) h

theorem number_injective : Function.Injective number := by
  intro a b h
  have hsign : forall m k : Nat, Nat.toDigits 10 m ≠ '-' :: Nat.toDigits 10 k := by
    intro m k heq
    have hmem : '-' ∈ Nat.toDigits 10 m := by
      rw [heq]
      exact List.mem_cons_self
    exact absurd (isDigit_of_mem hmem) (by decide)
  cases a with
  | ofNat m =>
      cases b with
      | ofNat k => exact congrArg Int.ofNat (toDigits_injective h)
      | negSucc k => exact absurd h (hsign m (k + 1))
  | negSucc m =>
      cases b with
      | ofNat k => exact absurd h.symm (hsign k (m + 1))
      | negSucc k =>
          have hdigits := toDigits_injective (List.cons.inj h).2
          rw [Nat.succ.inj hdigits]

/-- The characters of integers and fractions. -/
def isNumChar (c : Char) : Bool := c.isDigit || c == '-' || c == '/'

theorem number_chars {n : Int} {c : Char} (h : c ∈ number n) :
    isNumChar c = true ∧ c ≠ '/' := by
  have hdigit : forall k : Nat, c ∈ Nat.toDigits 10 k ->
      isNumChar c = true ∧ c ≠ '/' := by
    intro k hk
    have hc := isDigit_of_mem hk
    refine ⟨by simp [isNumChar, hc], ?_⟩
    rintro rfl
    exact absurd hc (by decide)
  cases n with
  | ofNat k => exact hdigit k h
  | negSucc k =>
      rcases List.mem_cons.mp h with rfl | h
      · exact ⟨by decide, by decide⟩
      · exact hdigit (k + 1) h

theorem number_ne_nil (n : Int) : number n ≠ [] := by
  cases n with
  | ofNat k => exact Nat.toDigits_ne_nil
  | negSucc k => exact List.cons_ne_nil _ _

/-- A run of characters is determined by where it stops. -/
theorem run_split {p : Char -> Bool} {a b r r' : List Char}
    (ha : forall c, c ∈ a -> p c = true) (hb : forall c, c ∈ b -> p c = true)
    (hr : forall c, r.head? = some c -> p c = false)
    (hr' : forall c, r'.head? = some c -> p c = false)
    (h : a ++ r = b ++ r') : a = b ∧ r = r' := by
  have htake : forall (x y : List Char), (forall c, c ∈ x -> p c = true) ->
      (forall c, y.head? = some c -> p c = false) -> (x ++ y).takeWhile p = x := by
    intro x y hx hy
    rw [List.takeWhile_append_of_pos hx]
    cases y with
    | nil => simp
    | cons c y => simp [hy c rfl]
  have hab : a = b := by
    rw [← htake a r ha hr, h, htake b r' hb hr']
  subst hab
  exact ⟨rfl, List.append_cancel_left h⟩

/-- What follows a value does not continue a number. -/
def Ends (r : List Char) : Prop := forall c, r.head? = some c -> isNumChar c = false

theorem float_split {p q : Rat} {r r' : List Char} (hr : Ends r) (hr' : Ends r')
    (h : number p.num ++ '/' :: number p.den ++ r =
      number q.num ++ '/' :: number q.den ++ r') : p = q ∧ r = r' := by
  rw [List.append_assoc, List.append_assoc] at h
  have hslash : forall (x : Int) c, c ∈ number x -> (c != '/') = true := by
    intro x c hc
    simpa using (number_chars hc).2
  rcases run_split (p := fun c => c != '/') (hslash _) (hslash _) (by simp) (by simp) h
    with ⟨hnum, hrest⟩
  simp only [List.cons_append, List.cons.injEq, true_and] at hrest
  rcases run_split (fun c hc => (number_chars hc).1) (fun c hc => (number_chars hc).1)
    hr hr' hrest with ⟨hden, hend⟩
  refine ⟨Rat.ext (number_injective hnum) ?_, hend⟩
  exact Int.ofNat_inj.mp (number_injective hden)

/-- An integer is no fraction. -/
theorem number_ne_float {n : Int} {q : Rat} {r r' : List Char} (hr : Ends r)
    (hr' : Ends r') :
    number n ++ r ≠ number q.num ++ '/' :: number q.den ++ r' := by
  intro h
  have hfraction : forall c, c ∈ number q.num ++ '/' :: number q.den ->
      isNumChar c = true := by
    intro c hc
    rw [List.mem_append, List.mem_cons] at hc
    rcases hc with hc | rfl | hc
    · exact (number_chars hc).1
    · decide
    · exact (number_chars hc).1
  rcases run_split (fun c hc => (number_chars hc).1) hfraction hr hr' h with ⟨heq, _⟩
  have hslash : '/' ∈ number n := by
    rw [heq]
    exact List.mem_append_right _ List.mem_cons_self
  exact (number_chars hslash).2 rfl

/-!
## Values
-/

/-- The kind of value that a character starts. -/
def leads (c : Char) : Nat :=
  if c = 'n' then 0 else if c = 't' then 1 else if c = 'f' then 2
  else if c = '"' then 3 else if c = '[' then 4 else if c = '{' then 5
  else if isNumChar c then 6 else 7

def kind : Json -> Nat
  | .null => 0
  | .bool true => 1
  | .bool false => 2
  | .str _ => 3
  | .arr _ => 4
  | .obj _ => 5
  | .int _ => 6
  | .float _ => 6

theorem leads_number {c : Char} (h : isNumChar c = true) : leads c = 6 := by
  unfold leads
  split_ifs with h0 h1 h2 h3 h4 h5
  all_goals first | rfl | (subst_vars; exact absurd h (by decide))

theorem text_head (d : Nat) (j : Json) : exists c t, L.text d j = c :: t ∧ leads c = kind j := by
  have hnumber : forall n : Int, exists c t, number n = c :: t ∧ leads c = 6 := by
    intro n
    cases hn : number n with
    | nil => exact absurd hn (number_ne_nil n)
    | cons c t =>
        refine ⟨c, t, rfl, leads_number (number_chars (n := n) ?_).1⟩
        rw [hn]
        exact List.mem_cons_self
  cases j with
  | null => exact ⟨'n', _, by rw [text], by decide⟩
  | bool b =>
      cases b with
      | true => exact ⟨'t', _, by rw [text], by decide⟩
      | false => exact ⟨'f', _, by rw [text], by decide⟩
  | int n =>
      rw [text]
      exact hnumber n
  | float q =>
      rcases hnumber q.num with ⟨c, t, heq, hlead⟩
      exact ⟨c, t ++ '/' :: number q.den, by rw [text, heq]; rfl, hlead⟩
  | str s => exact ⟨'"', _, by rw [text, quoted], by rw [kind]; decide⟩
  | arr xs =>
      cases xs with
      | nil => exact ⟨'[', _, by rw [text], by decide⟩
      | cons x xs => exact ⟨'[', _, by rw [text]; rfl, by rw [kind]; decide⟩
  | obj fs =>
      cases fs with
      | nil => exact ⟨'{', _, by rw [text], by decide⟩
      | cons f fs => exact ⟨'{', _, by rw [text]; rfl, by rw [kind]; decide⟩

theorem kind_eq {d : Nat} {a b : Json} {r r' : List Char}
    (h : L.text d a ++ r = L.text d b ++ r') : kind a = kind b := by
  rcases text_head (L := L) d a with ⟨c, t, ha, hlead⟩
  rcases text_head (L := L) d b with ⟨c', u, hb, hlead'⟩
  rw [ha, hb, List.cons_append, List.cons_append, List.cons.injEq] at h
  rw [← hlead, ← hlead', h.1]

/-- After blanks, a character that starts no value is not the start of a value or a key. -/
theorem newline_ne {d : Nat} {c e : Char} (hc : leads c = 7) (hblank : isBlank c = false)
    (he : leads e < 7) (r r' : List Char) : L.newline d ++ e :: r ≠ c :: r' := by
  intro h
  cases hline : L.newline d with
  | nil =>
      rw [hline, List.nil_append, List.cons.injEq] at h
      rw [h.1, hc] at he
      exact absurd he (by decide)
  | cons b bs =>
      rw [hline, List.cons_append, List.cons.injEq] at h
      have hb : isBlank b = true := L.newline_blank (hline ▸ List.mem_cons_self)
      rw [h.1, hblank] at hb
      cases hb

/-- An item does not start with a closing bracket. -/
theorem text_ne_close {d e : Nat} {j : Json} {c : Char} (hc : leads c = 7)
    (hblank : isBlank c = false) (r r' : List Char) :
    L.newline d ++ (L.text e j ++ r) ≠ c :: r' := by
  rcases text_head (L := L) e j with ⟨b, t, htext, hlead⟩
  rw [htext, List.cons_append]
  apply newline_ne hc hblank
  rw [hlead]
  cases j with
  | bool value => cases value <;> simp [kind]
  | _ => simp [kind]

/-- The end of a list is no further item. -/
theorem close_ne_comma {d : Nat} {c : Char} (hc : c ≠ ',') (r r' : List Char) :
    L.newline d ++ c :: r ≠ ',' :: r' := by
  intro h
  cases hline : L.newline d with
  | nil =>
      rw [hline, List.nil_append, List.cons.injEq] at h
      exact hc h.1
  | cons b bs =>
      rw [hline, List.cons_append, List.cons.injEq] at h
      have hb : isBlank b = true := L.newline_blank (hline ▸ List.mem_cons_self)
      rw [h.1] at hb
      cases hb

/-- Blanks and what closes a list end a number. -/
theorem ends_newline {d : Nat} {c : Char} (hc : isNumChar c = false) (r : List Char) :
    Ends (L.newline d ++ c :: r) := by
  intro e he
  cases hline : L.newline d with
  | nil =>
      rw [hline] at he
      cases he
      exact hc
  | cons b bs =>
      rw [hline, List.cons_append, List.head?_cons, Option.some_inj] at he
      rw [← he]
      have hb : isBlank b = true := L.newline_blank (hline ▸ List.mem_cons_self)
      unfold isBlank at hb
      rw [Bool.or_eq_true, beq_iff_eq, beq_iff_eq] at hb
      rcases hb with rfl | rfl
      · decide
      · decide

theorem ends_comma (r : List Char) : Ends (',' :: r) := by
  intro c hc
  cases hc
  decide

theorem ends_items (d : Nat) (xs : List Json) (r : List Char) : Ends (L.items d xs ++ r) := by
  cases xs with
  | nil =>
      rw [items, List.append_assoc]
      exact ends_newline (by decide) r
  | cons x xs =>
      rw [items]
      exact ends_comma _

theorem ends_members (d : Nat) (fs : List (String × Json)) (r : List Char) :
    Ends (L.members d fs ++ r) := by
  cases fs with
  | nil =>
      rw [members, List.append_assoc]
      exact ends_newline (by decide) r
  | cons f fs =>
      rw [members]
      exact ends_comma _

mutual

/-- The text of a value determines it, whatever follows. -/
theorem text_split : forall (d : Nat) (a b : Json) (r r' : List Char), Ends r -> Ends r' ->
    L.text d a ++ r = L.text d b ++ r' -> a = b ∧ r = r'
  | d, .null, b, r, r', _, _, h => by
      have hkind := kind_eq h
      cases b with
      | null => exact ⟨rfl, List.append_cancel_left h⟩
      | bool b => cases b <;> simp [kind] at hkind
      | _ => simp [kind] at hkind
  | d, .bool true, b, r, r', _, _, h => by
      have hkind := kind_eq h
      cases b with
      | bool b =>
          cases b with
          | true => exact ⟨rfl, List.append_cancel_left h⟩
          | false => simp [kind] at hkind
      | _ => simp [kind] at hkind
  | d, .bool false, b, r, r', _, _, h => by
      have hkind := kind_eq h
      cases b with
      | bool b =>
          cases b with
          | true => simp [kind] at hkind
          | false => exact ⟨rfl, List.append_cancel_left h⟩
      | _ => simp [kind] at hkind
  | d, .int n, b, r, r', hr, hr', h => by
      have hkind := kind_eq h
      cases b with
      | int m =>
          rw [text, text] at h
          rcases run_split (fun c hc => (number_chars hc).1)
            (fun c hc => (number_chars hc).1) hr hr' h with ⟨heq, hrest⟩
          exact ⟨congrArg Json.int (number_injective heq), hrest⟩
      | float q =>
          rw [text, text] at h
          exact absurd h (number_ne_float hr hr')
      | bool b => cases b <;> simp [kind] at hkind
      | _ => simp [kind] at hkind
  | d, .float q, b, r, r', hr, hr', h => by
      have hkind := kind_eq h
      cases b with
      | int m =>
          rw [text, text] at h
          exact absurd h.symm (number_ne_float hr' hr)
      | float p =>
          rw [text, text] at h
          rcases float_split hr hr' h with ⟨heq, hrest⟩
          exact ⟨congrArg Json.float heq, hrest⟩
      | bool b => cases b <;> simp [kind] at hkind
      | _ => simp [kind] at hkind
  | d, .str s, b, r, r', _, _, h => by
      have hkind := kind_eq h
      cases b with
      | str t =>
          rw [text, text] at h
          rcases quoted_split h with ⟨heq, hrest⟩
          exact ⟨congrArg Json.str heq, hrest⟩
      | bool b => cases b <;> simp [kind] at hkind
      | _ => simp [kind] at hkind
  | d, .arr [], b, r, r', _, _, h => by
      have hkind := kind_eq h
      cases b with
      | arr ys =>
          cases ys with
          | nil => exact ⟨rfl, List.append_cancel_left h⟩
          | cons y ys =>
              rw [text, text] at h
              simp only [List.cons_append, List.append_assoc, List.cons.injEq, true_and,
                List.nil_append] at h
              exact absurd h.symm (text_ne_close (by decide) (by decide) _ _)
      | bool b => cases b <;> simp [kind] at hkind
      | _ => simp [kind] at hkind
  | d, .arr (x :: xs), b, r, r', _, _, h => by
      have hkind := kind_eq h
      cases b with
      | arr ys =>
          cases ys with
          | nil =>
              rw [text, text] at h
              simp only [List.cons_append, List.append_assoc, List.cons.injEq, true_and,
                List.nil_append] at h
              exact absurd h (text_ne_close (by decide) (by decide) _ _)
          | cons y ys =>
              rw [text, text] at h
              simp only [List.cons_append, List.append_assoc, List.cons.injEq, true_and,
                List.append_cancel_left_eq] at h
              rcases text_split (d + 2) x y _ _ (ends_items d xs r) (ends_items d ys r') h with
                ⟨hx, hrest⟩
              rcases items_split d xs ys r r' hrest with ⟨hxs, hr⟩
              exact ⟨by rw [hx, hxs], hr⟩
      | bool b => cases b <;> simp [kind] at hkind
      | _ => simp [kind] at hkind
  | d, .obj [], b, r, r', _, _, h => by
      have hkind := kind_eq h
      cases b with
      | obj gs =>
          cases gs with
          | nil => exact ⟨rfl, List.append_cancel_left h⟩
          | cons g gs =>
              rw [text, text] at h
              simp only [quoted, List.cons_append, List.append_assoc, List.cons.injEq, true_and,
                List.nil_append] at h
              exact absurd h.symm (newline_ne (by decide) (by decide) (by decide) _ _)
      | bool b => cases b <;> simp [kind] at hkind
      | _ => simp [kind] at hkind
  | d, .obj ((k, v) :: fs), b, r, r', _, _, h => by
      have hkind := kind_eq h
      cases b with
      | obj gs =>
          cases gs with
          | nil =>
              rw [text, text] at h
              simp only [quoted, List.cons_append, List.append_assoc, List.cons.injEq, true_and,
                List.nil_append] at h
              exact absurd h (newline_ne (by decide) (by decide) (by decide) _ _)
          | cons g gs =>
              rw [text, text] at h
              simp only [List.cons_append, List.append_assoc, List.cons.injEq, true_and,
                List.append_cancel_left_eq] at h
              rcases quoted_split h with ⟨hk, hrest⟩
              simp only [List.cons.injEq, true_and, List.append_cancel_left_eq] at hrest
              rcases text_split (d + 2) v g.2 _ _ (ends_members d fs r) (ends_members d gs r')
                hrest with ⟨hv, hrest⟩
              rcases members_split d fs gs r r' hrest with ⟨hfs, hr⟩
              exact ⟨by rw [hk, hv, hfs], hr⟩
      | bool b => cases b <;> simp [kind] at hkind
      | _ => simp [kind] at hkind

theorem items_split : forall (d : Nat) (xs ys : List Json) (r r' : List Char),
    L.items d xs ++ r = L.items d ys ++ r' -> xs = ys ∧ r = r'
  | d, [], [], r, r', h => ⟨rfl, List.append_cancel_left h⟩
  | d, [], y :: ys, r, r', h => by
      rw [items, items] at h
      simp only [List.cons_append, List.append_assoc, List.nil_append] at h
      exact absurd h (close_ne_comma (by decide) _ _)
  | d, x :: xs, [], r, r', h => by
      rw [items, items] at h
      simp only [List.cons_append, List.append_assoc, List.nil_append] at h
      exact absurd h.symm (close_ne_comma (by decide) _ _)
  | d, x :: xs, y :: ys, r, r', h => by
      rw [items, items] at h
      simp only [List.cons_append, List.append_assoc, List.cons.injEq, true_and,
        List.append_cancel_left_eq] at h
      rcases text_split (d + 2) x y _ _ (ends_items d xs r) (ends_items d ys r') h with
        ⟨hx, hrest⟩
      rcases items_split d xs ys r r' hrest with ⟨hxs, hr⟩
      exact ⟨by rw [hx, hxs], hr⟩

theorem members_split : forall (d : Nat) (fs gs : List (String × Json)) (r r' : List Char),
    L.members d fs ++ r = L.members d gs ++ r' -> fs = gs ∧ r = r'
  | d, [], [], r, r', h => ⟨rfl, List.append_cancel_left h⟩
  | d, [], g :: gs, r, r', h => by
      rw [members, members] at h
      simp only [List.cons_append, List.append_assoc, List.nil_append] at h
      exact absurd h (close_ne_comma (by decide) _ _)
  | d, f :: fs, [], r, r', h => by
      rw [members, members] at h
      simp only [List.cons_append, List.append_assoc, List.nil_append] at h
      exact absurd h.symm (close_ne_comma (by decide) _ _)
  | d, (k, v) :: fs, (l, w) :: gs, r, r', h => by
      rw [members, members] at h
      simp only [List.cons_append, List.append_assoc, List.cons.injEq, true_and,
        List.append_cancel_left_eq] at h
      rcases quoted_split h with ⟨hk, hrest⟩
      simp only [List.cons.injEq, true_and, List.append_cancel_left_eq] at hrest
      rcases text_split (d + 2) v w _ _ (ends_members d fs r) (ends_members d gs r') hrest with
        ⟨hv, hrest⟩
      rcases members_split d fs gs r r' hrest with ⟨hfs, hr⟩
      exact ⟨by rw [hk, hv, hfs], hr⟩

end

/-- A printer that ends every document alike does not print two of them alike. -/
theorem dump_injective {last : List Char} (hlast : Ends last) :
    Function.Injective fun j : Json => String.ofList (L.text 0 j ++ last) := by
  intro a b h
  exact (text_split 0 a b _ _ hlast hlast (String.ofList_injective h)).1

end Split

/-!
## The characters of a text
-/

mutual

/-- What holds of every string of a document, keys included. -/
def AllStrings (p : String -> Prop) : Json -> Prop
  | .str s => p s
  | .arr xs => AllItems p xs
  | .obj fs => AllFields p fs
  | _ => True

def AllItems (p : String -> Prop) : List Json -> Prop
  | [] => True
  | x :: xs => AllStrings p x ∧ AllItems p xs

def AllFields (p : String -> Prop) : List (String × Json) -> Prop
  | [] => True
  | (k, v) :: fs => p k ∧ AllStrings p v ∧ AllFields p fs

end

/-- The characters that a printer writes between strings. -/
structure Marks (L : Layout) (P : Char -> Prop) : Prop where
  words : forall c, c ∈ ['n', 'u', 'l', 't', 'r', 'e', 'f', 'a', 's', '"', '[', ']', '{', '}', ',',
    ':'] -> P c
  number : forall c, isNumChar c = true -> P c
  blank : forall c, isBlank c = true -> P c
  colon : forall c, c ∈ L.colon -> P c

/-- A string of which every character is escaped by certain characters. -/
def Escapes (L : Layout) (P : Char -> Prop) (s : String) : Prop :=
  forall c, c ∈ s.toList -> forall e, e ∈ L.escape c -> P e

instance (L : Layout) (P : Char -> Prop) [DecidablePred P] (s : String) :
    Decidable (Escapes L P s) :=
  inferInstanceAs (Decidable (forall c, c ∈ s.toList -> forall e, e ∈ L.escape c -> P e))

section Chars

variable {L : Layout} {P : Char -> Prop}

theorem Marks.quoted (h : Marks L P) {s : String} (hs : Escapes L P s) :
    forall e, e ∈ L.quoted s -> P e := by
  intro e he
  unfold Layout.quoted body at he
  rcases List.mem_cons.mp he with rfl | he
  · exact h.words _ (by decide)
  rcases List.mem_append.mp he with he | he
  · rcases List.mem_flatMap.mp he with ⟨c, hc, he⟩
    exact hs c hc e he
  · rw [List.mem_singleton.mp he]
    exact h.words _ (by decide)

theorem Marks.int (h : Marks L P) (n : Int) : forall e, e ∈ Layout.number n -> P e :=
  fun e he => h.number e (number_chars he).1

/-- What stands before a value: a mark, blanks, and for a member its key. -/
theorem Marks.opened (h : Marks L P) {d : Nat} {c : Char} (hc : P c) {s : List Char}
    (hs : forall e, e ∈ s -> P e) : forall e, e ∈ c :: L.newline d ++ s -> P e := by
  intro e he
  rcases List.mem_append.mp he with he | he
  · rcases List.mem_cons.mp he with rfl | he
    · exact hc
    · exact h.blank e (L.newline_blank he)
  · exact hs e he

theorem Marks.closed (h : Marks L P) {d : Nat} {c : Char} (hc : P c) :
    forall e, e ∈ L.newline d ++ [c] -> P e := by
  intro e he
  rcases List.mem_append.mp he with he | he
  · exact h.blank e (L.newline_blank he)
  · rw [List.mem_singleton.mp he]
    exact hc

theorem forall_mem_append {s t : List Char} (hs : forall e, e ∈ s -> P e)
    (ht : forall e, e ∈ t -> P e) : forall e, e ∈ s ++ t -> P e :=
  fun e he => (List.mem_append.mp he).elim (hs e) (ht e)

theorem Marks.member (h : Marks L P) {d : Nat} {c : Char} (hc : P c) {k : String}
    (hk : Escapes L P k) {s : List Char} (hs : forall e, e ∈ s -> P e) :
    forall e, e ∈ c :: L.newline d ++ L.quoted k ++ ':' :: L.colon ++ s -> P e := by
  refine forall_mem_append (forall_mem_append (h.opened hc (h.quoted hk)) ?_) hs
  intro e he
  rcases List.mem_cons.mp he with rfl | he
  · exact h.words _ (by decide)
  · exact h.colon e he

mutual

/-- What holds of the marks of a printer and of the characters of the strings of a document. -/
theorem Marks.text (h : Marks L P) : forall (d : Nat) (j : Json), AllStrings (Escapes L P) j ->
    forall e, e ∈ L.text d j -> P e
  | d, .null, _ => by
      intro e he
      rw [Layout.text] at he
      exact h.words e (by revert e; decide)
  | d, .bool true, _ => by
      intro e he
      rw [Layout.text] at he
      exact h.words e (by revert e; decide)
  | d, .bool false, _ => by
      intro e he
      rw [Layout.text] at he
      exact h.words e (by revert e; decide)
  | d, .int n, _ => by
      rw [Layout.text]
      exact h.int n
  | d, .float q, _ => by
      rw [Layout.text]
      refine forall_mem_append (h.int q.num) ?_
      intro e he
      rcases List.mem_cons.mp he with rfl | he
      · exact h.number _ (by decide)
      · exact h.int q.den e he
  | d, .str s, hs => by
      rw [AllStrings] at hs
      rw [Layout.text]
      exact h.quoted hs
  | d, .arr [], _ => by
      intro e he
      rw [Layout.text] at he
      exact h.words e (by revert e; decide)
  | d, .arr (x :: xs), hs => by
      rw [AllStrings, AllItems] at hs
      rw [Layout.text]
      exact forall_mem_append (h.opened (h.words _ (by decide)) (Marks.text h _ x hs.1))
        (Marks.items h d xs hs.2)
  | d, .obj [], _ => by
      intro e he
      rw [Layout.text] at he
      exact h.words e (by revert e; decide)
  | d, .obj ((k, v) :: fs), hs => by
      rw [AllStrings, AllFields] at hs
      rw [Layout.text]
      exact forall_mem_append (h.member (h.words _ (by decide)) hs.1 (Marks.text h _ v hs.2.1))
        (Marks.members h d fs hs.2.2)

theorem Marks.items (h : Marks L P) : forall (d : Nat) (xs : List Json),
    AllItems (Escapes L P) xs -> forall e, e ∈ L.items d xs -> P e
  | d, [], _ => by
      rw [Layout.items]
      exact h.closed (h.words _ (by decide))
  | d, x :: xs, hs => by
      rw [AllItems] at hs
      rw [Layout.items]
      exact forall_mem_append (h.opened (h.words _ (by decide)) (Marks.text h _ x hs.1))
        (Marks.items h d xs hs.2)

theorem Marks.members (h : Marks L P) : forall (d : Nat) (fs : List (String × Json)),
    AllFields (Escapes L P) fs -> forall e, e ∈ L.members d fs -> P e
  | d, [], _ => by
      rw [Layout.members]
      exact h.closed (h.words _ (by decide))
  | d, (k, v) :: fs, hs => by
      rw [AllFields] at hs
      rw [Layout.members]
      exact forall_mem_append (h.member (h.words _ (by decide)) hs.1 (Marks.text h _ v hs.2.1))
        (Marks.members h d fs hs.2.2)

end

end Chars

end Layout
end Topology
end Ostia
