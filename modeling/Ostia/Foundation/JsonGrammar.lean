import Mathlib.Data.List.Basic

/-!
# JSON texts as trees

The grammar of JSON texts over bytes, with every blank, escape and sign in the tree, so that
each text is the text of a tree.  The tokens of a tree are its strings, numbers and literals
with their offsets and the paths that lead to their values.
-/

namespace Ostia
namespace Foundation
namespace JsonGrammar

abbrev Text := List UInt8

def text (s : String) : Text := s.toList.map Char.toUInt8

/-!
## The terminals
-/

structure Blank where
  bytes : Text
  blank : forall b, b ∈ bytes -> b ∈ text " \t\n\r"

structure Digits where
  bytes : Text
  nonempty : bytes ≠ []
  digits : forall b, b ∈ bytes -> b ∈ text "0123456789"

structure Exponent where
  upper : Bool
  /-- The sign, when there is one; it is true for a minus. -/
  sign : Option Bool
  digits : Digits

def Exponent.bytes (e : Exponent) : Text :=
  (if e.upper then text "E" else text "e") ++
    (e.sign.elim [] fun minus => if minus then text "-" else text "+") ++ e.digits.bytes

structure Number where
  minus : Bool
  int : Digits
  /-- No zero stands before other digits. -/
  leading : int.bytes.head? = (text "0").head? -> int.bytes.length = 1
  frac : Option Digits
  exp : Option Exponent

def Number.bytes (n : Number) : Text :=
  (if n.minus then text "-" else []) ++ n.int.bytes ++
    (n.frac.elim [] fun ds => text "." ++ ds.bytes) ++ (n.exp.elim [] Exponent.bytes)

inductive Literal where
  | null
  | yes
  | no

def Literal.bytes : Literal -> Text
  | .null => text "null"
  | .yes => text "true"
  | .no => text "false"

/-- A byte of a string that stands for itself; those of the longer characters are among them. -/
def Unescaped (b : UInt8) : Prop := 0x20 ≤ b ∧ b ≠ '"'.toUInt8 ∧ b ≠ '\\'.toUInt8

/-- A piece of a string. -/
inductive Piece where
  | plain (b : UInt8) (unescaped : Unescaped b)
  | escape (b : UInt8) (short : b ∈ text "\"\\/bfnrt")
  | unicode (a b c d : UInt8)
      (hex : forall x, x ∈ [a, b, c, d] -> x ∈ text "0123456789abcdefABCDEF")

def Piece.bytes : Piece -> Text
  | .plain b _ => [b]
  | .escape b _ => ['\\'.toUInt8, b]
  | .unicode a b c d _ => ['\\'.toUInt8, 'u'.toUInt8, a, b, c, d]

/-- A piece of a string in which only quotes, backslashes and slashes are escaped. -/
inductive KeyPiece where
  | plain (b : UInt8) (unescaped : Unescaped b)
  | escape (b : UInt8) (self : b ∈ text "\"\\/")

def KeyPiece.bytes : KeyPiece -> Text
  | .plain b _ => [b]
  | .escape b _ => ['\\'.toUInt8, b]

/-- The byte that a piece of a key stands for. -/
def KeyPiece.byte : KeyPiece -> UInt8
  | .plain b _ => b
  | .escape b _ => b

def quoted (bytes : Text) : Text := text "\"" ++ bytes ++ text "\""

/-- A key with its escapes. -/
abbrev Key := List KeyPiece

def Key.bytes (key : Key) : Text := quoted (key.flatMap KeyPiece.bytes)

/-- The name that a key spells. -/
def Key.name (key : Key) : Text := key.map KeyPiece.byte

/-!
## Trees
-/

mutual

inductive Value where
  | literal (l : Literal)
  | number (n : Number)
  | string (pieces : List Piece)
  | emptyArray (inside : Blank)
  | array (items : Items)
  | emptyObject (inside : Blank)
  | object (members : Members)

/-- The elements of an array, each between blanks. -/
inductive Items where
  | last (before : Blank) (value : Value) (after : Blank)
  | more (before : Blank) (value : Value) (after : Blank) (rest : Items)

/-- The members of an object, with blanks around keys and values. -/
inductive Members where
  | last (before : Blank) (key : Key) (colon : Blank) (start : Blank) (value : Value)
      (after : Blank)
  | more (before : Blank) (key : Key) (colon : Blank) (start : Blank) (value : Value)
      (after : Blank) (rest : Members)

end

mutual

def Value.bytes : Value -> Text
  | .literal l => l.bytes
  | .number n => n.bytes
  | .string pieces => quoted (pieces.flatMap Piece.bytes)
  | .emptyArray inside => text "[" ++ inside.bytes ++ text "]"
  | .array items => text "[" ++ items.bytes ++ text "]"
  | .emptyObject inside => text "\x7b" ++ inside.bytes ++ text "\x7d"
  | .object members => text "\x7b" ++ members.bytes ++ text "\x7d"

def Items.bytes : Items -> Text
  | .last before value after => before.bytes ++ value.bytes ++ after.bytes
  | .more before value after rest =>
      before.bytes ++ value.bytes ++ after.bytes ++ text "," ++ rest.bytes

def Members.bytes : Members -> Text
  | .last before key colon start value after =>
      before.bytes ++ key.bytes ++ colon.bytes ++ text ":" ++ start.bytes ++ value.bytes ++
        after.bytes
  | .more before key colon start value after rest =>
      before.bytes ++ key.bytes ++ colon.bytes ++ text ":" ++ start.bytes ++ value.bytes ++
        after.bytes ++ text "," ++ rest.bytes

end

/-- A JSON text: a value between blanks. -/
structure Document where
  before : Blank
  value : Value
  after : Blank

def Document.bytes (doc : Document) : Text :=
  doc.before.bytes ++ doc.value.bytes ++ doc.after.bytes

/-!
## Paths
-/

def Items.list : Items -> List Value
  | .last _ value _ => [value]
  | .more _ value _ rest => value :: rest.list

def Members.list : Members -> List (Text × Value)
  | .last _ key _ _ value _ => [(key.name, value)]
  | .more _ key _ _ value _ rest => (key.name, value) :: rest.list

/-- The path of reference tokens leads from a value to one inside it. -/
inductive Leads : Value -> List Text -> Value -> Prop where
  | here (value : Value) : Leads value [] value
  | item {items : Items} {i : Nat} {value target : Value} {path : List Text}
      (get : items.list[i]? = some value) (tail : Leads value path target) :
      Leads (.array items) (text (toString i) :: path) target
  | member {members : Members} {name : Text} {value target : Value} {path : List Text}
      (mem : (name, value) ∈ members.list) (tail : Leads value path target) :
      Leads (.object members) (name :: path) target

/-- A string, number or literal: it is a value, or the key of the member that holds the value. -/
structure Token where
  offset : Nat
  bytes : Text
  isKey : Bool
  value : Value
  path : List Text

mutual

/-- The tokens of a value that starts at an offset and to which a path leads. -/
def Value.tokens (offset : Nat) (path : List Text) : Value -> List Token
  | .literal l => [⟨offset, l.bytes, false, .literal l, path⟩]
  | .number n => [⟨offset, n.bytes, false, .number n, path⟩]
  | .string pieces =>
      [⟨offset, quoted (pieces.flatMap Piece.bytes), false, .string pieces, path⟩]
  | .emptyArray _ => []
  | .array items => items.tokens (offset + 1) path 0
  | .emptyObject _ => []
  | .object members => members.tokens (offset + 1) path

def Items.tokens (offset : Nat) (path : List Text) (i : Nat) : Items -> List Token
  | .last before value _ =>
      value.tokens (offset + before.bytes.length) (path ++ [text (toString i)])
  | .more before value after rest =>
      let start := offset + before.bytes.length
      value.tokens start (path ++ [text (toString i)]) ++
        rest.tokens (start + value.bytes.length + after.bytes.length + 1) path (i + 1)

def Members.tokens (offset : Nat) (path : List Text) : Members -> List Token
  | .last before key colon start value _ =>
      let keyStart := offset + before.bytes.length
      let valueStart :=
        keyStart + key.bytes.length + colon.bytes.length + 1 + start.bytes.length
      ⟨keyStart, key.bytes, true, value, path ++ [key.name]⟩ ::
        value.tokens valueStart (path ++ [key.name])
  | .more before key colon start value after rest =>
      let keyStart := offset + before.bytes.length
      let valueStart :=
        keyStart + key.bytes.length + colon.bytes.length + 1 + start.bytes.length
      ⟨keyStart, key.bytes, true, value, path ++ [key.name]⟩ ::
        (value.tokens valueStart (path ++ [key.name]) ++
          rest.tokens (valueStart + value.bytes.length + after.bytes.length + 1) path)

end

def Document.tokens (doc : Document) : List Token :=
  doc.value.tokens doc.before.bytes.length []

/-!
## Pointers
-/

def escapeToken (name : Text) : Text :=
  name.flatMap fun b =>
    if b = '~'.toUInt8 then text "~0" else if b = '/'.toUInt8 then text "~1" else [b]

/-- The JSON pointer of a path. -/
def pointer (path : List Text) : Text := path.flatMap fun name => text "/" ++ escapeToken name

theorem pointer_concat (path : List Text) (name : Text) :
    pointer (path ++ [name]) = pointer path ++ text "/" ++ escapeToken name := by
  unfold pointer
  rw [List.flatMap_append, List.flatMap_singleton, List.append_assoc]

/-- The number of an element has nothing to escape. -/
theorem escapeToken_number (i : Nat) : escapeToken (text (toString i)) = text (toString i) := by
  have hchars : forall cs : List Char, (forall c, c ∈ cs -> c.isDigit = true) ->
      escapeToken (cs.map Char.toUInt8) = cs.map Char.toUInt8 := by
    intro cs h
    induction cs with
    | nil => rfl
    | cons c cs ih =>
        rw [List.forall_mem_cons] at h
        have hrange := Char.isDigit_iff_toNat.mp h.1
        have hbyte : c.toUInt8.toNat = c.toNat := by
          have hlow : c.toNat % 256 = c.toNat := Nat.mod_eq_of_lt (by
            have hnine : '9'.toNat = 57 := by decide
            omega)
          exact hlow
        have htilde : c.toUInt8 ≠ '~'.toUInt8 := by
          intro heq
          rw [heq] at hbyte
          have hnine : '9'.toNat = 57 := by decide
          have htilde : ('~'.toUInt8).toNat = 126 := by decide
          omega
        have hslash : c.toUInt8 ≠ '/'.toUInt8 := by
          intro heq
          rw [heq] at hbyte
          have hzero : '0'.toNat = 48 := by decide
          have hslash : ('/'.toUInt8).toNat = 47 := by decide
          omega
        have htail := ih h.2
        unfold escapeToken at htail ⊢
        rw [List.map_cons, List.flatMap_cons, if_neg htilde, if_neg hslash, htail,
          List.singleton_append]
  apply hchars
  intro c hc
  rw [Nat.toString_eq_ofList_toDigits, String.toList_ofList] at hc
  exact Nat.isDigit_of_mem_toDigits (by decide) (by decide) hc

/-!
## Where the tokens stand
-/

/-- The token stands at its offset in the bytes that start at an offset, and the token of a value
is all of its text. -/
structure Token.Of (t : Token) (offset : Nat) (bytes : Text) : Prop where
  text : exists before after, bytes = before ++ t.bytes ++ after ∧
    t.offset = offset + before.length
  own : t.isKey = false -> t.bytes = t.value.bytes

theorem Token.Of.shift {t : Token} {offset : Nat} {bytes : Text} (before after : Text)
    (h : t.Of (offset + before.length) bytes) : t.Of offset (before ++ bytes ++ after) := by
  obtain ⟨⟨pre, post, hbytes, hoffset⟩, hown⟩ := h
  refine ⟨⟨before ++ pre, post ++ after, ?_, ?_⟩, hown⟩
  · rw [hbytes]
    simp only [List.append_assoc]
  · rw [hoffset, List.length_append, Nat.add_assoc]

@[simp] theorem length_text (s : String) : (text s).length = s.length := by
  rw [text, List.length_map, String.length_toList]

theorem length_member (offset : Nat) (before : Blank) (key : Key) (colon start : Blank) :
    offset + before.bytes.length + key.bytes.length + colon.bytes.length + 1 +
      start.bytes.length =
      offset + (before.bytes ++ key.bytes ++ colon.bytes ++ text ":" ++
        start.bytes).length := by
  simp only [List.length_append, length_text, Nat.add_assoc]
  rfl

mutual

theorem Value.tokens_of {v : Value} {offset : Nat} {path : List Text} {t : Token}
    (h : t ∈ v.tokens offset path) : t.Of offset v.bytes := by
  have hown : forall w : Value, t = ⟨offset, w.bytes, false, w, path⟩ ->
      t.Of offset w.bytes := by
    intro w ht
    subst ht
    exact ⟨⟨[], [], by simp, rfl⟩, fun _ => rfl⟩
  cases v with
  | literal l => exact hown (.literal l) (List.mem_singleton.mp h)
  | number n => exact hown (.number n) (List.mem_singleton.mp h)
  | string pieces => exact hown (.string pieces) (List.mem_singleton.mp h)
  | emptyArray inside => cases h
  | array items => exact (Items.tokens_of h).shift (text "[") (text "]")
  | emptyObject inside => cases h
  | object members => exact (Members.tokens_of h).shift (text "\x7b") (text "\x7d")

theorem Items.tokens_of {items : Items} {offset : Nat} {path : List Text} {i : Nat} {t : Token}
    (h : t ∈ items.tokens offset path i) : t.Of offset items.bytes := by
  cases items with
  | last before value after => exact (Value.tokens_of h).shift before.bytes after.bytes
  | more before value after rest =>
      rw [Items.tokens, List.mem_append] at h
      cases h with
      | inl h =>
          have hshift := (Value.tokens_of h).shift before.bytes
            (after.bytes ++ text "," ++ rest.bytes)
          simpa only [Items.bytes, List.append_assoc] using hshift
      | inr h =>
          have hstart : offset + before.bytes.length + value.bytes.length + after.bytes.length +
              1 = offset + (before.bytes ++ value.bytes ++ after.bytes ++ text ",").length := by
            simp only [List.length_append, length_text, Nat.add_assoc]
            rfl
          rw [hstart] at h
          have hshift := (Items.tokens_of h).shift _ []
          rwa [List.append_nil] at hshift

theorem Members.tokens_of {members : Members} {offset : Nat} {path : List Text} {t : Token}
    (h : t ∈ members.tokens offset path) : t.Of offset members.bytes := by
  cases members with
  | last before key colon start value after =>
      rw [Members.tokens, List.mem_cons] at h
      cases h with
      | inl h =>
          subst h
          exact ⟨⟨before.bytes, colon.bytes ++ text ":" ++ start.bytes ++ value.bytes ++
            after.bytes, by simp only [Members.bytes, List.append_assoc], rfl⟩, by simp⟩
      | inr h =>
          rw [length_member] at h
          exact (Value.tokens_of h).shift _ after.bytes
  | more before key colon start value after rest =>
      rw [Members.tokens, List.mem_cons, List.mem_append] at h
      cases h with
      | inl h =>
          subst h
          exact ⟨⟨before.bytes, colon.bytes ++ text ":" ++ start.bytes ++ value.bytes ++
            after.bytes ++ text "," ++ rest.bytes,
            by simp only [Members.bytes, List.append_assoc], rfl⟩, by simp⟩
      | inr h =>
          cases h with
          | inl h =>
              rw [length_member] at h
              have hshift := (Value.tokens_of h).shift _ (after.bytes ++ text "," ++ rest.bytes)
              simpa only [Members.bytes, List.append_assoc] using hshift
          | inr h =>
              have hstart : offset + before.bytes.length + key.bytes.length +
                  colon.bytes.length + 1 + start.bytes.length + value.bytes.length +
                  after.bytes.length + 1 =
                  offset + (before.bytes ++ key.bytes ++ colon.bytes ++ text ":" ++
                    start.bytes ++ value.bytes ++ after.bytes ++ text ",").length := by
                simp only [List.length_append, length_text, Nat.add_assoc]
                rfl
              rw [hstart] at h
              have hshift := (Members.tokens_of h).shift _ []
              rwa [List.append_nil] at hshift

end


mutual

theorem Value.tokens_leads {v : Value} {offset : Nat} {path : List Text} {t : Token}
    (h : t ∈ v.tokens offset path) :
    exists tail, t.path = path ++ tail ∧ Leads v tail t.value := by
  cases v with
  | literal l =>
      cases List.mem_singleton.mp h
      exact ⟨[], by simp, .here _⟩
  | number n =>
      cases List.mem_singleton.mp h
      exact ⟨[], by simp, .here _⟩
  | string pieces =>
      cases List.mem_singleton.mp h
      exact ⟨[], by simp, .here _⟩
  | emptyArray inside => cases h
  | array items =>
      obtain ⟨j, value, tail, hget, hpath, hleads⟩ := Items.tokens_leads h
      rw [Nat.zero_add] at hpath
      exact ⟨_, hpath, .item hget hleads⟩
  | emptyObject inside => cases h
  | object members =>
      obtain ⟨name, value, tail, hmem, hpath, hleads⟩ := Members.tokens_leads h
      exact ⟨_, hpath, .member hmem hleads⟩

theorem Items.tokens_leads {items : Items} {offset : Nat} {path : List Text} {i : Nat}
    {t : Token} (h : t ∈ items.tokens offset path i) :
    exists j value tail, items.list[j]? = some value ∧
      t.path = path ++ text (toString (i + j)) :: tail ∧ Leads value tail t.value := by
  cases items with
  | last before value after =>
      obtain ⟨tail, hpath, hleads⟩ := Value.tokens_leads h
      rw [List.append_assoc] at hpath
      exact ⟨0, value, tail, rfl, hpath, hleads⟩
  | more before value after rest =>
      rw [Items.tokens, List.mem_append] at h
      cases h with
      | inl h =>
          obtain ⟨tail, hpath, hleads⟩ := Value.tokens_leads h
          rw [List.append_assoc] at hpath
          exact ⟨0, value, tail, rfl, hpath, hleads⟩
      | inr h =>
          obtain ⟨j, value', tail, hget, hpath, hleads⟩ := Items.tokens_leads h
          rw [Nat.add_right_comm, Nat.add_assoc] at hpath
          exact ⟨j + 1, value', tail, hget, hpath, hleads⟩

theorem Members.tokens_leads {members : Members} {offset : Nat} {path : List Text} {t : Token}
    (h : t ∈ members.tokens offset path) :
    exists name value tail, (name, value) ∈ members.list ∧ t.path = path ++ name :: tail ∧
      Leads value tail t.value := by
  cases members with
  | last before key colon start value after =>
      rw [Members.tokens, List.mem_cons] at h
      cases h with
      | inl h =>
          subst h
          exact ⟨key.name, value, [], List.mem_singleton_self _, rfl, .here _⟩
      | inr h =>
          obtain ⟨tail, hpath, hleads⟩ := Value.tokens_leads h
          rw [List.append_assoc] at hpath
          exact ⟨key.name, value, tail, List.mem_singleton_self _, hpath, hleads⟩
  | more before key colon start value after rest =>
      rw [Members.tokens, List.mem_cons, List.mem_append] at h
      cases h with
      | inl h =>
          subst h
          exact ⟨key.name, value, [], List.mem_cons_self, rfl, .here _⟩
      | inr h =>
          cases h with
          | inl h =>
              obtain ⟨tail, hpath, hleads⟩ := Value.tokens_leads h
              rw [List.append_assoc] at hpath
              exact ⟨key.name, value, tail, List.mem_cons_self, hpath, hleads⟩
          | inr h =>
              obtain ⟨name, value', tail, hmem, hpath, hleads⟩ := Members.tokens_leads h
              exact ⟨name, value', tail, List.mem_cons_of_mem _ hmem, hpath, hleads⟩

end

end JsonGrammar
end Foundation
end Ostia
