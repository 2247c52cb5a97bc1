import Ostia.Dev.Manifest
import Ostia.Topology.Pretty

/-!
# Documents of the capture tool, read in Python

The capture tool prints its documents over several lines and leaves all but control characters,
quotes and backslashes as they are.  The strict reader gives back the document that was printed
unless it is nested too deep.

The strict reader only refuses more than json.loads: what it accepts, both read alike.
-/

namespace Ostia
namespace Dev
namespace WrittenText

open Foundation
open Ostia.Topology (Json)
open Ostia.Topology.Pretty (newline layout)
open JsonText (FloatText Ends skip isSpace units join)
open Value (maxDigits)

variable {F : Type}

mutual

/-- The same document as a value of Python. -/
def ofJson : Json -> Value F
  | .null => .none
  | .bool b => .bool b
  | .int n => .int n
  | .float _ => .none
  | .str s => .str s
  | .arr xs => .list (ofItems xs)
  | .obj fs => .dict (ofFields fs)

def ofItems : List Json -> List (Value F)
  | [] => []
  | x :: xs => ofJson x :: ofItems xs

def ofFields : List (String × Json) -> List (String × Value F)
  | [] => []
  | (k, v) :: fs => (k, ofJson v) :: ofFields fs

end

mutual

/-- A document without floats whose integers Python reads and that repeats no key. -/
def Plain : Json -> Prop
  | .int n => (Nat.toDigits 10 n.natAbs).length ≤ maxDigits
  | .float _ => False
  | .arr xs => PlainItems xs
  | .obj fs => (fs.map Prod.fst).Nodup ∧ PlainFields fs
  | _ => True

def PlainItems : List Json -> Prop
  | [] => True
  | x :: xs => Plain x ∧ PlainItems xs

def PlainFields : List (String × Json) -> Prop
  | [] => True
  | (_, v) :: fs => Plain v ∧ PlainFields fs

end

theorem keys_ofFields (fs : List (String × Json)) :
    (ofFields (F := F) fs).map Prod.fst = fs.map Prod.fst := by
  induction fs with
  | nil => rfl
  | cons f fs ih =>
      obtain ⟨k, v⟩ := f
      rw [ofFields, List.map_cons, List.map_cons, ih]

/-!
## Strings
-/

theorem units_escapeChar (c : Char) (r : List Char) :
    units (Topology.Pretty.escapeChar c ++ r) =
      (units r).map fun p => (c.toNat :: p.1, p.2) := by
  unfold Topology.Pretty.escapeChar
  split_ifs with h0 h1 h2 h3 h4 h5 h6 h7
  · rw [h0]
    cases h : units r <;> simp [units, JsonText.unescape, h]
  · rw [h1]
    cases h : units r <;> simp [units, JsonText.unescape, h]
  · rw [h2]
    cases h : units r <;> simp [units, JsonText.unescape, h]
  · rw [h3]
    cases h : units r <;> simp [units, JsonText.unescape, h]
  · rw [h4]
    cases h : units r <;> simp [units, JsonText.unescape, h]
  · rw [h5]
    cases h : units r <;> simp [units, JsonText.unescape, h]
  · rw [h6]
    cases h : units r <;> simp [units, JsonText.unescape, h]
  · have hhex : JsonText.hex4 '0' '0' (Topology.Pretty.hexChar (c.toNat / 16))
        (Topology.Pretty.hexChar (c.toNat % 16)) = some c.toNat := by
      have hdigit : forall n, n < 16 ->
          JsonText.hexDigit? (Topology.Pretty.hexChar n) = some n :=
        fun _ hn => JsonText.hexDigit?_hexChar hn
      have hzero : JsonText.hexDigit? '0' = some 0 := rfl
      simp only [JsonText.hex4, hzero, hdigit _ (show c.toNat / 16 < 16 by omega),
        hdigit _ (show c.toNat % 16 < 16 by omega), Option.bind_eq_bind, Option.bind_some,
        Option.pure_def, Option.some_inj]
      omega
    simp only [List.cons_append, List.nil_append, units, hhex, Option.bind_eq_bind,
      Option.bind_some, Option.pure_def]
    cases units r <;> rfl
  · exact JsonText.units_plain h0 h1 h7 r

theorem units_body (cs r : List Char) :
    units (layout.body cs ++ r) = some (cs.map Char.toNat, r) := by
  unfold Topology.Layout.body
  induction cs with
  | nil => simp [units]
  | cons c cs ih =>
      rw [List.flatMap_cons, List.append_assoc, List.append_assoc, Topology.Pretty.layout_escape,
        units_escapeChar,
        <- List.append_assoc, ih]
      rfl

theorem join_toNat (cs : List Char) : join (cs.map Char.toNat) = cs := by
  induction cs with
  | nil => rfl
  | cons c cs ih =>
      cases cs with
      | nil =>
          rw [List.map_cons, List.map_nil, join, JsonText.charOf_toNat]
      | cons d ds =>
          rw [List.map_cons, List.map_cons, join, (JsonText.not_surrogate c).1, Bool.false_and,
            if_neg Bool.false_ne_true, JsonText.charOf_toNat]
          rw [List.map_cons] at ih
          rw [ih]

theorem scanString_body (s : String) (r : List Char) :
    JsonText.scanString (layout.body s.toList ++ r) = some (s, r) := by
  unfold JsonText.scanString
  rw [units_body]
  simp [join_toNat]

/-!
## Blanks and scalars
-/

theorem skip_newline (d : Nat) (cs : List Char) : skip (newline d ++ cs) = skip cs := by
  have hblanks : forall n, skip (List.replicate n ' ' ++ cs) = skip cs := by
    intro n
    induction n with
    | zero => rfl
    | succ n ih =>
        rw [List.replicate_succ, List.cons_append]
        exact ih
  exact hblanks d

theorem text_head (d : Nat) (j : Json) (h : Plain j) :
    exists c t, layout.text d j = c :: t ∧ isSpace c = false ∧ c ≠ ']' ∧
      c ≠ '\x7d' := by
  cases j with
  | null => exact ⟨'n', _, by rw [Topology.Layout.text], by decide, by decide, by decide⟩
  | bool b =>
      cases b with
      | true => exact ⟨'t', _, by rw [Topology.Layout.text], by decide, by decide, by decide⟩
      | false => exact ⟨'f', _, by rw [Topology.Layout.text], by decide, by decide, by decide⟩
  | int n =>
      obtain ⟨c, t, hct, hc⟩ := JsonText.integer_head n
      refine ⟨c, t, ?_, hc.open⟩
      rw [Topology.Layout.text]
      exact hct
  | float q =>
      rw [Plain] at h
      exact absurd h id
  | str s =>
      exact ⟨'"', _, by rw [Topology.Layout.text]; rfl, by decide, by decide, by decide⟩
  | arr xs =>
      cases xs with
      | nil => exact ⟨'[', _, by rw [Topology.Layout.text], by decide, by decide, by decide⟩
      | cons x xs =>
          exact ⟨'[', _, by rw [Topology.Layout.text]; rfl, by decide, by decide, by decide⟩
  | obj fs =>
      cases fs with
      | nil => exact ⟨'\x7b', _, by rw [Topology.Layout.text], by decide, by decide, by decide⟩
      | cons f fs =>
          obtain ⟨k, v⟩ := f
          exact ⟨'\x7b', _, by rw [Topology.Layout.text]; rfl, by decide, by decide, by decide⟩

theorem skip_text {d : Nat} {j : Json} (h : Plain j) (r : List Char) :
    skip (layout.text d j ++ r) = layout.text d j ++ r := by
  obtain ⟨c, t, hct, hc, _⟩ := text_head d j h
  rw [hct, List.cons_append, JsonText.skip_of_head hc]

theorem ends_items (d : Nat) (xs : List Json) (r : List Char) :
    Ends (layout.items d xs ++ r) := by
  intro c hc
  cases xs with
  | nil =>
      rw [Topology.Layout.items] at hc
      cases hc
      decide
  | cons x xs =>
      rw [Topology.Layout.items] at hc
      cases hc
      decide

theorem ends_members (d : Nat) (fs : List (String × Json)) (r : List Char) :
    Ends (layout.members d fs ++ r) := by
  intro c hc
  cases fs with
  | nil =>
      rw [Topology.Layout.members] at hc
      cases hc
      decide
  | cons f fs =>
      obtain ⟨k, v⟩ := f
      rw [Topology.Layout.members] at hc
      cases hc
      decide

/-- The items of an array after its bracket and the blanks. -/
def textItems (d : Nat) (x : Json) (xs : List Json) : List Char :=
  layout.text (d + 2) x ++ layout.items d xs

/-- The members of an object after its brace and the blanks. -/
def textFields (d : Nat) (k : String) (v : Json) (fs : List (String × Json)) : List Char :=
  layout.quoted k ++
    ':' :: ' ' :: (layout.text (d + 2) v ++ layout.members d fs)

theorem text_arr (d : Nat) (x : Json) (xs : List Json) :
    layout.text d (.arr (x :: xs)) = '[' :: (newline (d + 2) ++ textItems d x xs) := by
  rw [Topology.Layout.text]
  simp [textItems]

theorem text_obj (d : Nat) (k : String) (v : Json) (fs : List (String × Json)) :
    layout.text d (.obj ((k, v) :: fs)) =
      '\x7b' :: (newline (d + 2) ++ textFields d k v fs) := by
  rw [Topology.Layout.text]
  simp [textFields]

theorem items_cons (d : Nat) (x : Json) (xs : List Json) :
    layout.items d (x :: xs) = ',' :: (newline (d + 2) ++ textItems d x xs) := by
  rw [Topology.Layout.items]
  simp [textItems]

theorem members_cons (d : Nat) (k : String) (v : Json) (fs : List (String × Json)) :
    layout.members d ((k, v) :: fs) =
      ',' :: (newline (d + 2) ++ textFields d k v fs) := by
  rw [Topology.Layout.members]
  simp [textFields]

theorem skip_textItems {d : Nat} {x : Json} (h : Plain x) (xs : List Json) (r : List Char) :
    skip (textItems d x xs ++ r) = textItems d x xs ++ r := by
  unfold textItems
  rw [List.append_assoc, skip_text h]

theorem skip_textFields (d : Nat) (k : String) (v : Json) (fs : List (String × Json))
    (r : List Char) : skip (textFields d k v fs ++ r) = textFields d k v fs ++ r := rfl

/-!
## Values
-/

variable [FloatText F]

/-- A value that is no string and no container is scanned as a scalar. -/
theorem value_scalar {fuel : Nat} {c : Char} {t : List Char} (hquote : c ≠ '"')
    (hlist : c ≠ '[') (hdict : c ≠ '\x7b') :
    Manifest.value (F := F) (fuel + 1) (c :: t) = Manifest.scalar (c :: t) := by
  rw [Manifest.value]
  · intro r heq
    exact hquote (List.cons.inj heq).1
  · intro r heq
    exact hlist (List.cons.inj heq).1
  · intro r heq
    exact hdict (List.cons.inj heq).1

theorem scalar_integer {n : Int} (h : (Nat.toDigits 10 n.natAbs).length ≤ maxDigits)
    {r : List Char} (hr : Ends r) :
    Manifest.scalar (F := F) (JsonText.integer n ++ r) = .ok (.int n, r) := by
  have hread := JsonText.scalar_integer (F := F) h hr
  have hnone : JsonText.literal "NaN" (JsonText.integer n ++ r) = none ∧
      JsonText.literal "Infinity" (JsonText.integer n ++ r) = none ∧
      JsonText.literal "-Infinity" (JsonText.integer n ++ r) = none := by
    have hdigits : forall k : Nat, exists c t, Nat.toDigits 10 k = c :: t ∧ c.isDigit = true :=
      fun k => JsonText.intPart_head (JsonText.intPart_toDigits k)
    have hne : forall c d : Char, c.isDigit = true -> d.isDigit = false -> d ≠ c := by
      intro c d hc hd heq
      rw [heq, hc] at hd
      cases hd
    cases n with
    | ofNat k =>
        obtain ⟨c, t, hct, hc⟩ := hdigits k
        rw [JsonText.integer, hct, List.cons_append]
        refine ⟨?_, ?_, ?_⟩
        · exact JsonText.literal_eq_none "NaN" rfl (hne c 'N' hc rfl)
        · exact JsonText.literal_eq_none "Infinity" rfl (hne c 'I' hc rfl)
        · exact JsonText.literal_eq_none "-Infinity" rfl (hne c '-' hc rfl)
    | negSucc k =>
        obtain ⟨c, t, hct, hc⟩ := hdigits (k + 1)
        rw [JsonText.integer, hct, List.cons_append, List.cons_append]
        refine ⟨?_, ?_, ?_⟩
        · exact JsonText.literal_eq_none "NaN" rfl (by decide)
        · exact JsonText.literal_eq_none "Infinity" rfl (by decide)
        · unfold JsonText.literal
          have htoken : "-Infinity".toList = '-' :: 'I' :: "nfinity".toList := rfl
          rw [htoken]
          simp [List.isPrefixOf, hne c 'I' hc rfl]
  unfold Manifest.scalar
  rw [hnone.1, hnone.2.1, hnone.2.2, hread]

/-- What the reader makes of texts for which the fuel is enough. -/
structure Reads (F : Type) [FloatText F] (fuel : Nat) : Prop where
  value : forall d j r, Plain j -> 2 * (layout.text d j).length ≤ fuel -> Ends r ->
    Manifest.value (F := F) fuel (layout.text d j ++ r) = .ok (ofJson j, r)
  items : forall d x xs seen r, Plain x -> PlainItems xs ->
    2 * (textItems d x xs).length ≤ fuel ->
    Manifest.items (F := F) fuel seen (textItems d x xs ++ r) =
      .ok (.list (seen ++ ofItems (x :: xs)), r)
  members : forall d k v fs seen r, Plain v -> PlainFields fs ->
    ((seen ++ ofFields ((k, v) :: fs)).map Prod.fst).Nodup ->
    2 * (textFields d k v fs).length ≤ fuel ->
    Manifest.members (F := F) fuel seen (textFields d k v fs ++ r) =
      .ok (.dict (seen ++ ofFields ((k, v) :: fs)), r)

variable {fuel : Nat}

theorem Reads.value_succ (ih : Reads F fuel) {d : Nat} {j : Json} {r : List Char} (h : Plain j)
    (hfuel : 2 * (layout.text d j).length ≤ fuel + 1) (hr : Ends r) :
    Manifest.value (F := F) (fuel + 1) (layout.text d j ++ r) = .ok (ofJson j, r) := by
  cases j with
  | null =>
      rw [Topology.Layout.text]
      exact value_scalar (by decide) (by decide) (by decide)
  | bool b =>
      cases b with
      | true =>
          rw [Topology.Layout.text]
          exact value_scalar (by decide) (by decide) (by decide)
      | false =>
          rw [Topology.Layout.text]
          exact value_scalar (by decide) (by decide) (by decide)
  | int n =>
      rw [Plain] at h
      obtain ⟨c, t, hct, hc⟩ := JsonText.integer_head n
      have hscalar := scalar_integer (F := F) h hr
      rw [Topology.Layout.text]
      show Manifest.value (fuel + 1) (JsonText.integer n ++ r) = _
      rw [hct, List.cons_append] at hscalar ⊢
      rw [value_scalar (hc.ne rfl (by decide)) (hc.ne rfl (by decide)) (hc.ne rfl (by decide)),
        hscalar, ofJson]
  | float q =>
      rw [Plain] at h
      exact absurd h id
  | str s =>
      have hstring := scanString_body s r
      rw [Topology.Layout.text, Topology.Layout.quoted, List.cons_append, Manifest.value, hstring,
        ofJson]
  | arr xs =>
      cases xs with
      | nil =>
          rw [Topology.Layout.text, ofJson, ofItems]
          rfl
      | cons x xs =>
          rw [Plain, PlainItems] at h
          rw [text_arr, List.length_cons, List.length_append] at hfuel
          have hitems := ih.items d x xs [] r h.1 h.2 (by omega)
          obtain ⟨c, t, hct, hspace, hclose, _⟩ := text_head (d + 2) x h.1
          rw [text_arr, List.cons_append, List.append_assoc, Manifest.value, skip_newline,
            skip_textItems h.1]
          rw [textItems, hct, List.cons_append, List.cons_append] at hitems ⊢
          split
          · rename_i heq
            exact absurd (List.cons.inj heq).1 hclose
          · rw [hitems, ofJson]
            rfl
  | obj fs =>
      cases fs with
      | nil =>
          rw [Topology.Layout.text, ofJson, ofFields]
          rfl
      | cons f fs =>
          obtain ⟨k, v⟩ := f
          rw [Plain, PlainFields] at h
          rw [text_obj, List.length_cons, List.length_append] at hfuel
          have hkeys : (([] ++ ofFields (F := F) ((k, v) :: fs)).map Prod.fst).Nodup := by
            rw [List.nil_append, keys_ofFields (F := F)]
            exact h.1
          have hmembers := ih.members d k v fs [] r h.2.1 h.2.2 hkeys (by omega)
          rw [text_obj, List.cons_append, List.append_assoc, Manifest.value, skip_newline,
            skip_textFields, ofJson]
          exact hmembers

theorem Reads.items_succ (ih : Reads F fuel) {d : Nat} {x : Json} {xs : List Json}
    {seen : List (Value F)} {r : List Char} (hx : Plain x) (hxs : PlainItems xs)
    (hfuel : 2 * (textItems d x xs).length ≤ fuel + 1) :
    Manifest.items (F := F) (fuel + 1) seen (textItems d x xs ++ r) =
      .ok (.list (seen ++ ofItems (x :: xs)), r) := by
  have hpos : 0 < (layout.items d xs).length := by
    cases xs with
    | nil =>
        rw [Topology.Layout.items]
        exact Nat.succ_pos _
    | cons y ys =>
        rw [items_cons]
        exact Nat.succ_pos _
  have hlength : (textItems d x xs).length =
      (layout.text (d + 2) x).length + (layout.items d xs).length :=
    List.length_append
  have hvalue := ih.value (d + 2) x (layout.items d xs ++ r) hx (by omega)
    (ends_items d xs r)
  rw [textItems, List.append_assoc, Manifest.items, hvalue, Fallible.ok_bind]
  simp only
  cases xs with
  | nil =>
      rw [Topology.Layout.items, List.append_assoc, Topology.Pretty.layout_newline, skip_newline]
      rfl
  | cons y ys =>
      rw [PlainItems] at hxs
      rw [items_cons, List.length_cons, List.length_append] at hlength
      have hrest := ih.items d y ys (seen ++ [ofJson x]) r hxs.1 hxs.2 (by omega)
      rw [items_cons, List.cons_append,
        JsonText.skip_of_head (show isSpace ',' = false by decide), List.append_assoc]
      show Manifest.items fuel (seen ++ [ofJson x]) (skip (newline (d + 2) ++ _)) = _
      rw [skip_newline, skip_textItems hxs.1, hrest, List.append_assoc]
      rfl

theorem Reads.members_succ (ih : Reads F fuel) {d : Nat} {k : String} {v : Json}
    {fs : List (String × Json)} {seen : List (String × Value F)} {r : List Char} (hv : Plain v)
    (hfs : PlainFields fs) (hkeys : ((seen ++ ofFields ((k, v) :: fs)).map Prod.fst).Nodup)
    (hfuel : 2 * (textFields d k v fs).length ≤ fuel + 1) :
    Manifest.members (F := F) (fuel + 1) seen (textFields d k v fs ++ r) =
      .ok (.dict (seen ++ ofFields ((k, v) :: fs)), r) := by
  have hpos : 0 < (layout.members d fs).length := by
    cases fs with
    | nil =>
        rw [Topology.Layout.members]
        exact Nat.succ_pos _
    | cons f fs =>
        obtain ⟨k', w⟩ := f
        rw [members_cons]
        exact Nat.succ_pos _
  have hlength : (textFields d k v fs).length = (layout.quoted k).length +
      ((layout.text (d + 2) v).length + (layout.members d fs).length + 2) := by
    simp [textFields]
  have hvalue := ih.value (d + 2) v (layout.members d fs ++ r) hv (by omega)
    (ends_members d fs r)
  have hstring := scanString_body k
    (':' :: ' ' :: (layout.text (d + 2) v ++ (layout.members d fs ++ r)))
  have htext : textFields d k v fs ++ r = '"' :: (layout.body k.toList ++
      ':' :: ' ' :: (layout.text (d + 2) v ++ (layout.members d fs ++ r))) := by
    simp [textFields, Topology.Layout.quoted]
  have hblank : skip (' ' :: (layout.text (d + 2) v ++
      (layout.members d fs ++ r))) = layout.text (d + 2) v ++
        (layout.members d fs ++ r) := skip_text hv _
  rw [htext, Manifest.members, hstring]
  simp only [JsonText.skip_of_head (show isSpace ':' = false by decide), hblank, hvalue,
    Fallible.ok_bind]
  cases fs with
  | nil =>
      rw [Topology.Layout.members, List.append_assoc, Topology.Pretty.layout_newline, skip_newline]
      have hone : (((seen ++ [(k, ofJson v)]) : List (String × Value F)).map Prod.fst).Nodup :=
        hkeys
      show (Manifest.noDuplicates (seen ++ [(k, ofJson v)]) >>= fun dict => pure (dict, r)) = _
      unfold Manifest.noDuplicates
      rw [if_pos hone]
      rfl
  | cons f fs =>
      obtain ⟨k', w⟩ := f
      rw [PlainFields] at hfs
      rw [members_cons, List.length_cons, List.length_append] at hlength
      have hkeys' :
          (((seen ++ [(k, ofJson v)]) ++ ofFields ((k', w) :: fs)).map Prod.fst).Nodup := by
        rw [List.append_assoc]
        exact hkeys
      have hrest := ih.members d k' w fs (seen ++ [(k, ofJson v)]) r hfs.1 hfs.2 hkeys'
        (by omega)
      rw [members_cons, List.cons_append,
        JsonText.skip_of_head (show isSpace ',' = false by decide), List.append_assoc]
      show Manifest.members fuel (seen ++ [(k, ofJson v)]) (skip (newline (d + 2) ++ _)) = _
      rw [skip_newline, skip_textFields, hrest, List.append_assoc]
      rfl

theorem reads (fuel : Nat) : Reads F fuel := by
  induction fuel with
  | zero =>
      constructor
      · intro d j r h hfuel _
        obtain ⟨c, t, hct, _⟩ := text_head d j h
        rw [hct, List.length_cons] at hfuel
        omega
      · intro d x xs seen r hx _ hfuel
        obtain ⟨c, t, hct, _⟩ := text_head (d + 2) x hx
        rw [textItems, hct, List.cons_append, List.length_cons] at hfuel
        omega
      · intro d k v fs seen r _ _ _ hfuel
        rw [textFields, Topology.Layout.quoted, List.cons_append, List.length_cons] at hfuel
        omega
  | succ fuel ih =>
      constructor
      · intro d j r h hfuel hr
        exact ih.value_succ h hfuel hr
      · intro d x xs seen r hx hxs hfuel
        exact ih.items_succ hx hxs hfuel
      · intro d k v fs seen r hv hfs hkeys hfuel
        exact ih.members_succ hv hfs hkeys hfuel

/-- The strict reader gives back the document that the capture tool has printed. -/
theorem parse_dump {py : Manifest.Python F} {j : Json} (h : Plain j)
    (hdeep : py.tooDeep (Topology.Pretty.dump j) = false) :
    Manifest.parse py (.utf8 (Topology.Pretty.dump j)) = .ok (ofJson j) := by
  have hends : Ends ['\n'] := by
    intro c hc
    cases hc
    decide
  have hread := (reads (F := F) (2 * (Topology.Pretty.dump j).length + 2)).value 0 j ['\n'] h
    (by
      unfold Topology.Pretty.dump
      rw [String.length_ofList, List.length_append]
      omega) hends
  have hskip := skip_text (d := 0) h ['\n']
  have htext : (Topology.Pretty.dump j).toList = layout.text 0 j ++ ['\n'] :=
    String.toList_ofList
  unfold Manifest.parse
  dsimp only
  rw [hdeep, if_neg Bool.false_ne_true, htext, hskip, hread]
  rfl

/-!
## The strict reader and the loose one
-/

omit [FloatText F] in
theorem setKey_of_not_mem {key : String} {v : Value F} {fields : List (String × Value F)}
    (h : key ∉ fields.map Prod.fst) : Value.setKey key v fields = fields ++ [(key, v)] := by
  induction fields with
  | nil => rfl
  | cons e rest ih =>
      rw [List.map_cons, List.mem_cons, not_or] at h
      rw [Value.setKey, if_neg (Ne.symm h.1), ih h.2]
      rfl

omit [FloatText F] in
theorem not_mem_of_nodup {key : String} {v : Value F} {seen : List (String × Value F)}
    (h : ((seen ++ [(key, v)]).map Prod.fst).Nodup) : key ∉ seen.map Prod.fst := by
  intro hmem
  rw [List.map_append, List.nodup_append] at h
  exact h.2.2 key hmem key (List.mem_singleton_self key) rfl

theorem scalar_loose {cs r : List Char} {v : Value F} (h : Manifest.scalar cs = .ok (v, r)) :
    JsonText.scalar cs = .ok (v, r) := by
  unfold Manifest.scalar at h
  split at h
  · split at h
    · rename_i heq
      cases h
      exact heq
    · cases h
  · cases h

/-- An object that is read repeats none of its keys. -/
theorem members_nodup (fuel : Nat) : forall (seen : List (String × Value F)) cs v r,
    Manifest.members fuel seen cs = .ok (v, r) -> (seen.map Prod.fst).Nodup := by
  induction fuel with
  | zero =>
      intro seen cs v r h
      cases h
  | succ fuel ih =>
      intro seen cs v r h
      have hprefix : forall e : String × Value F, ((seen ++ [e]).map Prod.fst).Nodup ->
          (seen.map Prod.fst).Nodup := by
        intro e hnodup
        rw [List.map_append] at hnodup
        exact hnodup.of_append_left
      rw [Manifest.members.eq_def] at h
      simp only at h
      split at h
      · split at h
        · cases h
        · split at h
          · obtain ⟨x, _, h⟩ := Fallible.bind_eq_ok.mp h
            split at h
            · exact hprefix _ (ih _ _ v r h)
            · obtain ⟨dict, hdict, _⟩ := Fallible.bind_eq_ok.mp h
              unfold Manifest.noDuplicates at hdict
              split_ifs at hdict with hnodup
              exact hprefix _ hnodup
            · cases h
          · cases h
      · cases h

/-- What the strict scanner returns with some fuel, the loose one returns too. -/
structure Loose (F : Type) [FloatText F] (fuel : Nat) : Prop where
  value : forall cs (v : Value F) r, Manifest.value fuel cs = .ok (v, r) ->
    JsonText.value fuel cs = .ok (v, r)
  items : forall seen cs (v : Value F) r, Manifest.items fuel seen cs = .ok (v, r) ->
    JsonText.items fuel seen cs = .ok (v, r)
  members : forall seen cs (v : Value F) r, Manifest.members fuel seen cs = .ok (v, r) ->
    JsonText.members fuel seen cs = .ok (v, r)

section Loose

variable {fuel : Nat}

theorem value_loose (ih : Loose F fuel) {cs r : List Char} {v : Value F}
    (h : Manifest.value (fuel + 1) cs = .ok (v, r)) :
    JsonText.value (fuel + 1) cs = .ok (v, r) := by
  rw [Manifest.value.eq_def] at h
  simp only at h
  split at h
  · split at h
    · rename_i heq
      rw [JsonText.value, heq]
      exact congrArg Except.ok (Except.ok.inj h)
    · cases h
  · split at h
    · rename_i heq
      rw [JsonText.value, heq]
      exact congrArg Except.ok (Except.ok.inj h)
    · rename_i hne
      rw [JsonText.value]
      split
      · rename_i heq
        exact absurd heq (hne _)
      · exact ih.items _ _ _ _ h
  · split at h
    · rename_i heq
      rw [JsonText.value, heq]
      exact congrArg Except.ok (Except.ok.inj h)
    · rename_i hne
      rw [JsonText.value]
      split
      · rename_i heq
        exact absurd heq (hne _)
      · exact ih.members _ _ _ _ h
  · rename_i hstring hlist hdict
    rw [JsonText.value]
    · exact scalar_loose h
    · exact hstring
    · exact hlist
    · exact hdict

theorem items_loose (ih : Loose F fuel) {seen : List (Value F)} {cs r : List Char} {v : Value F}
    (h : Manifest.items (fuel + 1) seen cs = .ok (v, r)) :
    JsonText.items (fuel + 1) seen cs = .ok (v, r) := by
  rw [Manifest.items] at h
  obtain ⟨x, hx, h⟩ := Fallible.bind_eq_ok.mp h
  have hvalue := ih.value _ _ _ hx
  simp only at h
  split at h
  · rename_i heq
    rw [JsonText.items, hvalue, Fallible.ok_bind]
    simp only [heq]
    exact ih.items _ _ _ _ h
  · rename_i heq
    rw [JsonText.items, hvalue, Fallible.ok_bind]
    simp only [heq]
    exact congrArg Except.ok (Except.ok.inj h)
  · cases h

theorem members_loose (ih : Loose F fuel) {seen : List (String × Value F)} {cs r : List Char}
    {v : Value F} (h : Manifest.members (fuel + 1) seen cs = .ok (v, r)) :
    JsonText.members (fuel + 1) seen cs = .ok (v, r) := by
  rw [Manifest.members.eq_def] at h
  simp only at h
  split at h
  · split at h
    · cases h
    · rename_i key r1 hkey
      split at h
      · rename_i r2 hcolon
        obtain ⟨x, hx, h⟩ := Fallible.bind_eq_ok.mp h
        have hvalue := ih.value _ _ _ hx
        split at h
        · rename_i r4 hcomma
          rw [JsonText.members, hkey]
          simp only [hcolon, hvalue, Fallible.ok_bind, hcomma]
          rw [setKey_of_not_mem (not_mem_of_nodup (members_nodup (F := F) fuel _ _ v r h))]
          exact ih.members _ _ _ _ h
        · rename_i rest hbrace
          obtain ⟨dict, hdict, h⟩ := Fallible.bind_eq_ok.mp h
          unfold Manifest.noDuplicates at hdict
          split_ifs at hdict with hnodup
          cases hdict
          rw [JsonText.members, hkey]
          simp only [hcolon, hvalue, Fallible.ok_bind, hbrace]
          rw [setKey_of_not_mem (not_mem_of_nodup hnodup)]
          exact congrArg Except.ok (Except.ok.inj h)
        · cases h
      · cases h
  · cases h

end Loose

theorem loose (fuel : Nat) : Loose F fuel := by
  induction fuel with
  | zero =>
      constructor
      · intro cs v r h
        cases h
      · intro seen cs v r h
        cases h
      · intro seen cs v r h
        cases h
  | succ fuel ih =>
      exact ⟨fun _ _ _ => value_loose ih, fun _ _ _ _ => items_loose ih,
        fun _ _ _ _ => members_loose ih⟩

/-- The loose reader agrees with the strict one wherever that accepts. -/
theorem loads_of_parse {py : Manifest.Python F} {text : String} {v : Value F}
    (h : Manifest.parse py (.utf8 text) = .ok v) :
    py.tooDeep text = false ∧ JsonText.loads text = .ok v := by
  unfold Manifest.parse at h
  dsimp only at h
  split_ifs at h with hdeep
  rw [Bool.not_eq_true] at hdeep
  split at h
  · cases h
  · rename_i w rest hvalue
    split_ifs at h with hend
    cases h
    unfold JsonText.loads
    rw [(loose _).value _ _ _ hvalue]
    simp only [if_pos hend]
    exact ⟨hdeep, trivial⟩

def nested : Json :=
  .obj [("a", .arr [.int (-5), .null, .arr []]), ("b\n", .str "\u00e9\"")]

def plainPython : Manifest.Python JsonText.Half where
  violations _ := none
  str _ := ""
  sha256 _ := ""
  tooDeep _ := false

theorem plain_nested : Plain nested := by
  simp [nested, Plain, PlainFields, PlainItems, maxDigits]
  decide

theorem loads_of_parse_nested :
    plainPython.tooDeep (Topology.Pretty.dump nested) = false ∧
      JsonText.loads (Topology.Pretty.dump nested) = .ok (ofJson (F := JsonText.Half) nested) := by
  have hparse : Manifest.parse plainPython (.utf8 (Topology.Pretty.dump nested)) =
      .ok (ofJson nested) := parse_dump plain_nested rfl
  exact loads_of_parse hparse

end WrittenText
end Dev
end Ostia
