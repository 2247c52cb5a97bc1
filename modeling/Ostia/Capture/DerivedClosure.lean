import Mathlib.Algebra.Ring.Nat
import Mathlib.Data.List.TakeWhile
import Ostia.Capture.Derived

/-!
# The second expansion

The forms of an address give no forms beyond those of the same address.  What is left are the
places where an entry gives some forms of an address but not all of them: the GUID in an IPoIB
address, an IPv6 address that is not spelled the way it is printed, and an IPv4 address that
is not.
-/

namespace Ostia
namespace Capture

open Bytes

/-!
## Texts that are entered as they are
-/

/-- A text without blanks, zero bytes and upper-case letters. -/
def Plain (text : Bytes) : Prop := forall c, c ∈ text -> isBlank c = false ∧ isUpper c = false

theorem Plain.trimmed {text : Bytes} (h : Plain text) : trimmed text = text := by
  have hdrop : text.dropWhile isBlank = text := by
    rw [List.dropWhile_eq_self_iff]
    intro hpos
    rw [(h _ (List.getElem_mem hpos)).1]
    exact Bool.false_ne_true
  unfold Bytes.trimmed
  rw [hdrop, List.rdropWhile_eq_self_iff]
  intro hne
  rw [(h _ (List.getLast_mem hne)).1]
  exact Bool.false_ne_true

theorem Plain.lowered {text : Bytes} (h : Plain text) : lowered text = text := by
  unfold Bytes.lowered
  rw [List.map_congr_left (g := id), List.map_id]
  intro c hc
  unfold lower
  rw [(h c hc).2]
  rfl

theorem Plain.cStr {text : Bytes} (h : Plain text) : cStr text = text := by
  unfold Capture.cStr
  rw [List.takeWhile_eq_self_iff]
  intro c hc
  rw [bne_iff_ne]
  rintro rfl
  have hblank := (h 0 hc).1
  revert hblank
  decide

theorem Plain.append {a b : Bytes} (ha : Plain a) (hb : Plain b) : Plain (a ++ b) := by
  intro c hc
  rcases List.mem_append.mp hc with hc | hc
  · exact ha c hc
  · exact hb c hc

/-!
## Hexadecimal bytes
-/

def isHexLower (c : UInt8) : Bool := isDigit c || ('a'.toUInt8 ≤ c && c ≤ 'f'.toUInt8)

def hexPair (b : UInt8) : Bytes :=
  [(ascii "0123456789abcdef").getD (b >>> 4).toNat 0,
    (ascii "0123456789abcdef").getD (b &&& 0x0f).toNat 0]

theorem hexOf_cons (b : UInt8) (bytes : List UInt8) :
    hexOf (b :: bytes) = hexPair b ++ hexOf bytes :=
  rfl

theorem hexOf_length (bytes : List UInt8) : (hexOf bytes).length = 2 * bytes.length := by
  induction bytes with
  | nil => rfl
  | cons b bytes ih =>
      rw [hexOf_cons, List.length_append, ih, List.length_cons]
      show 2 + _ = _
      omega

theorem mem_hexPair {b c : UInt8} (h : c ∈ hexPair b) : isHexLower c = true := by
  have hall : forall b : UInt8, (hexPair b).all isHexLower = true := by
    apply forall_byte
    decide +kernel
  exact List.all_eq_true.mp (hall b) c h

theorem mem_hexOf {bytes : List UInt8} {c : UInt8} (h : c ∈ hexOf bytes) : isHexLower c = true := by
  induction bytes with
  | nil => cases h
  | cons b bytes ih =>
      rw [hexOf_cons] at h
      rcases List.mem_append.mp h with h | h
      · exact mem_hexPair h
      · exact ih h

theorem hexLower_char {c : UInt8} (h : isHexLower c = true) :
    isBlank c = false ∧ isUpper c = false ∧ isSeparator c = false := by
  revert c
  apply forall_byte
  decide +kernel

theorem hexOf_plain (bytes : List UInt8) : Plain (hexOf bytes) := by
  intro c hc
  have h := hexLower_char (mem_hexOf hc)
  exact ⟨h.1, h.2.1⟩

theorem normalisedHex_hexOf (bytes : List UInt8) : normalisedHex (hexOf bytes) = hexOf bytes := by
  unfold normalisedHex
  rw [List.filter_eq_self.mpr]
  · exact (hexOf_plain bytes).lowered
  · intro c hc
    rw [(hexLower_char (mem_hexOf hc)).2.2]
    rfl

theorem hexBytes_pairs {text : Bytes} (h : text ≠ []) : hexBytes text = hexBytes.pairs text := by
  cases text with
  | nil => exact absurd rfl h
  | cons c text => rfl

theorem pairs_hexOf (bytes : List UInt8) : hexBytes.pairs (hexOf bytes) = some bytes := by
  have hpair : forall b : UInt8, exists x y high low, hexPair b = [x, y] ∧ hexDigit? x = some high ∧
      hexDigit? y = some low ∧ high * 16 + low = b := by
    intro b
    have hdigits :
        (hexDigit? ((ascii "0123456789abcdef").getD (b >>> 4).toNat 0)) = some (b >>> 4) ∧
        (hexDigit? ((ascii "0123456789abcdef").getD (b &&& 0x0f).toNat 0)) = some (b &&& 0x0f) ∧
        (b >>> 4) * 16 + (b &&& 0x0f) = b := by
      revert b
      apply forall_byte
      decide +kernel
    exact ⟨_, _, _, _, rfl, hdigits.1, hdigits.2.1, hdigits.2.2⟩
  induction bytes with
  | nil => rfl
  | cons b bytes ih =>
      rcases hpair b with ⟨x, y, high, low, hxy, hhigh, hlow, hb⟩
      rw [hexOf_cons, hxy]
      show hexBytes.pairs (x :: y :: hexOf bytes) = _
      rw [hexBytes.pairs, hhigh, hlow, ih]
      simp only [Option.bind_eq_bind, Option.bind_some, hb]
      rfl

theorem hexBytes_hexOf {bytes : List UInt8} (h : bytes ≠ []) :
    hexBytes (hexOf bytes) = some bytes := by
  rw [hexBytes_pairs, pairs_hexOf]
  intro hnil
  have hlen := congrArg List.length hnil
  rw [hexOf_length, List.length_nil] at hlen
  apply h
  rw [← List.length_eq_zero_iff]
  omega

theorem hexOf_injective : Function.Injective hexOf := by
  intro a b h
  have hpairs := congrArg hexBytes.pairs h
  rw [pairs_hexOf, pairs_hexOf, Option.some_inj] at hpairs
  exact hpairs

theorem hexPair_of_digits {x y high low : UInt8} (hx : lower x = x) (hy : lower y = y)
    (hhigh : hexDigit? x = some high) (hlow : hexDigit? y = some low) :
    hexPair (high * 16 + low) = [x, y] := by
  have hchecked : forall x : UInt8, lower x = x -> (hexDigit? x).all (fun d =>
      (ascii "0123456789abcdef").getD d.toNat 0 == x && decide (d.toNat < 16)) = true := by
    apply forall_byte
    decide +kernel
  have hdigits : forall x : UInt8, lower x = x -> forall d, hexDigit? x = some d ->
      (ascii "0123456789abcdef").getD d.toNat 0 = x ∧ d.toNat < 16 := by
    intro x hx d hd
    have hall := hchecked x hx
    rw [hd, Option.all_some, Bool.and_eq_true, beq_iff_eq, decide_eq_true_eq] at hall
    exact hall
  have hbyte : forall high low : Fin 16,
      (UInt8.ofNat high.val * 16 + UInt8.ofNat low.val) >>> 4 = UInt8.ofNat high.val ∧
      (UInt8.ofNat high.val * 16 + UInt8.ofNat low.val) &&& 0x0f = UInt8.ofNat low.val := by
    decide +kernel
  rcases hdigits x hx high hhigh with ⟨hxchar, hhigh16⟩
  rcases hdigits y hy low hlow with ⟨hychar, hlow16⟩
  have hparts := hbyte ⟨high.toNat, hhigh16⟩ ⟨low.toNat, hlow16⟩
  simp only [UInt8.ofNat_toNat] at hparts
  unfold hexPair
  rw [hparts.1, hparts.2, hxchar, hychar]

/-- The bytes of a lower-case text spell it. -/
theorem hexOf_of_pairs {text : Bytes} (hlower : lowered text = text) {bytes : List UInt8}
    (h : hexBytes.pairs text = some bytes) : hexOf bytes = text := by
  induction text using hexBytes.pairs.induct generalizing bytes with
  | case1 =>
      injection h with h
      rw [← h]
      rfl
  | case2 c => cases h
  | case3 x y rest ih =>
      rw [hexBytes.pairs] at h
      simp only [Option.bind_eq_bind, Option.bind_eq_some_iff] at h
      rcases h with ⟨high, hhigh, low, hlow, bytes', hbytes', hpure⟩
      injection hpure with hpure
      unfold lowered at hlower
      rw [List.map_cons, List.map_cons] at hlower
      injection hlower with hx hlower
      injection hlower with hy hrest
      rw [← hpure, hexOf_cons, hexPair_of_digits hx hy hhigh hlow, ih hrest hbytes']
      rfl

theorem hexOf_of_hexBytes {text : Bytes} (hlower : lowered text = text) {bytes : List UInt8}
    (h : hexBytes text = some bytes) : hexOf bytes = text := by
  cases text with
  | nil => cases h
  | cons c text => exact hexOf_of_pairs hlower h

/-!
## Mapped addresses
-/

theorem isMapped_mappedOf (q : Ip4) : isMapped (mappedOf q) = true := by
  rw [mappedOf_eq]
  rfl

theorem quadOf_mappedOf (q : Ip4) : quadOf (mappedOf q) = q := by
  rw [mappedOf_eq]
  apply Vector.toList_inj.mp
  rw [quad_toList q]
  rfl

theorem mappedOf_quadOf {gid : Ip6} (h : isMapped gid = true) : mappedOf (quadOf gid) = gid := by
  rcases isMapped_iff.mp h with ⟨hzero, h10, h11⟩
  rw [mappedOf_eq]
  apply Vector.ext
  intro i hi
  match i, hi with
  | 0, _ | 1, _ | 2, _ | 3, _ | 4, _ | 5, _ | 6, _ | 7, _ | 8, _ | 9, _ =>
      exact (hzero ⟨_, by decide⟩).symm
  | 10, _ => exact h10.symm
  | 11, _ => exact h11.symm
  | 12, _ | 13, _ | 14, _ | 15, _ => rfl
  | i + 16, hi => exact absurd hi (by omega)

theorem linkLocal_toList (id : Vector UInt8 8) :
    (linkLocal id).toList = [0xfe, 0x80, 0, 0, 0, 0, 0, 0] ++ id.toList := Vector.toList_append

theorem isMapped_linkLocal (id : Vector UInt8 8) : isMapped (linkLocal id) = false := by
  unfold isMapped
  rw [linkLocal_toList]
  rfl

/-!
## The address conversions

What the C library documents: the characters of an address, and that an address is read back
from its text.
-/

structure Inet.Standard (inet : Inet) : Prop where
  pton4_chars : forall text q, inet.pton4 text = some q ->
    forall c, c ∈ text -> isDigit c = true ∨ c = '.'.toUInt8
  pton4_point : forall text q, inet.pton4 text = some q -> '.'.toUInt8 ∈ text
  pton6_colon : forall text b, inet.pton6 text = some b -> ':'.toUInt8 ∈ text
  ntop6_chars : forall b text, inet.ntop6 b = some text ->
    forall c, c ∈ text -> isHexLower c = true ∨ c = ':'.toUInt8 ∨ c = '.'.toUInt8
  pton6_ntop6 : forall b text, inet.ntop6 b = some text -> inet.pton6 text = some b
  ntop6_loopback : forall b text, inet.ntop6 b = some text ->
    b.toList = List.replicate 15 0 ++ [1] -> text = ascii "::1"
  /-- The second half of a mapped address may be written in hex groups. -/
  pton6_groups : forall q, inet.pton6 (groupsText q) = some (mappedOf q)

section Addresses

variable {inet : Inet} (hstd : inet.Standard)

theorem plain_char {c : UInt8} (h : isHexLower c = true ∨ c = ':'.toUInt8 ∨ c = '.'.toUInt8) :
    isBlank c = false ∧ isUpper c = false := by
  rcases h with h | rfl | rfl
  · exact ⟨(hexLower_char h).1, (hexLower_char h).2.1⟩
  · decide
  · decide

theorem mem_decimal {b c : UInt8} (h : c ∈ decimal b) : isDigit c = true := by
  have hall : forall b : UInt8, (decimal b).all isDigit = true := by
    apply forall_byte
    decide +kernel
  exact List.all_eq_true.mp (hall b) c h

theorem digit_char {c : UInt8} (h : isDigit c = true) : isHexLower c = true := by
  unfold isHexLower
  rw [h]
  rfl

theorem mem_dotted {q : Ip4} {c : UInt8} (h : c ∈ dotted q) :
    isDigit c = true ∨ c = '.'.toUInt8 := by
  have hpoint : forall c, c ∈ ascii "." -> c = '.'.toUInt8 := fun c hc => List.mem_singleton.mp hc
  unfold dotted at h
  simp only [List.mem_append] at h
  rcases h with (((((h | h) | h) | h) | h) | h) | h
  · exact Or.inl (mem_decimal h)
  · exact Or.inr (hpoint c h)
  · exact Or.inl (mem_decimal h)
  · exact Or.inr (hpoint c h)
  · exact Or.inl (mem_decimal h)
  · exact Or.inr (hpoint c h)
  · exact Or.inl (mem_decimal h)

theorem dotted_plain (q : Ip4) : Plain (dotted q) := by
  intro c hc
  apply plain_char
  rcases mem_dotted hc with h | h
  · exact Or.inl (digit_char h)
  · exact Or.inr (Or.inr h)

theorem mem_intercalate {sep : Bytes} {texts : List Bytes} {c : UInt8}
    (h : c ∈ sep.intercalate texts) : c ∈ sep ∨ exists text, text ∈ texts ∧ c ∈ text := by
  induction texts with
  | nil => cases h
  | cons text texts ih =>
      cases texts with
      | nil =>
          rw [List.intercalate_singleton] at h
          exact Or.inr ⟨text, List.mem_cons_self, h⟩
      | cons text' texts =>
          rw [List.intercalate_cons_cons, List.append_assoc, List.mem_append, List.mem_append] at h
          rcases h with h | h | h
          · exact Or.inr ⟨text, List.mem_cons_self, h⟩
          · exact Or.inl h
          · rcases ih h with h | ⟨t, ht, hc⟩
            · exact Or.inl h
            · exact Or.inr ⟨t, List.mem_cons_of_mem text ht, hc⟩

theorem mem_groups {bytes : List UInt8} {g : Bytes} (h : g ∈ hexGroups.groups bytes) {c : UInt8}
    (hc : c ∈ g) : isHexLower c = true := by
  induction bytes using hexGroups.groups.induct with
  | case1 a b rest ih =>
      rw [hexGroups.groups] at h
      rcases List.mem_cons.mp h with h | h
      · subst h
        split_ifs at hc with hnil
        · rw [List.mem_singleton.mp hc]
          decide
        · exact mem_hexOf ((List.dropWhile_suffix _).subset hc)
      · exact ih h
  | case2 bytes hbytes =>
      rw [hexGroups.groups] at h
      · cases h
      · exact hbytes

theorem groupsText_plain (q : Ip4) : Plain (groupsText q) := by
  apply Plain.append
  · intro c hc
    revert c
    decide
  · intro c hc
    apply plain_char
    unfold hexGroups at hc
    rcases mem_intercalate hc with hc | ⟨g, hg, hc⟩
    · exact Or.inr (Or.inl (List.mem_singleton.mp hc))
    · exact Or.inl (mem_groups hg hc)

theorem mem_dashedText {q : Ip4} {c : UInt8} (h : c ∈ dashedText q) :
    isDigit c = true ∨ c ∈ ascii "ip-" := by
  unfold dashedText at h
  rcases List.mem_append.mp h with h | h
  · have hip : forall c, c ∈ ascii "ip" -> c ∈ ascii "ip-" := by decide
    exact Or.inr (hip c h)
  · rcases List.mem_flatMap.mp h with ⟨octet, _, h⟩
    rcases List.mem_append.mp h with h | h
    · have hdash : forall c, c ∈ ascii "-" -> c ∈ ascii "ip-" := by decide
      exact Or.inr (hdash c h)
    · exact Or.inl (mem_decimal h)

theorem dashedText_plain (q : Ip4) : Plain (dashedText q) := by
  intro c hc
  rcases mem_dashedText hc with h | h
  · exact plain_char (Or.inl (digit_char h))
  · have hplain : forall c, c ∈ ascii "ip-" -> isBlank c = false ∧ isUpper c = false := by decide
    exact hplain c h

theorem colon_not_mem_hexOf (bytes : List UInt8) : ':'.toUInt8 ∉ hexOf bytes := by
  intro h
  have hhex := mem_hexOf h
  revert hhex
  decide

include hstd

theorem ipv6Text_plain (b : Ip6) : Plain (ipv6Text inet b) := by
  intro c hc
  unfold ipv6Text at hc
  cases htext : inet.ntop6 b with
  | none =>
      rw [htext] at hc
      cases hc
  | some text =>
      rw [htext] at hc
      exact plain_char (hstd.ntop6_chars b text htext c hc)

/-- A text with a character that no IPv4 address has is none. -/
theorem parseIpv4_of_char {text : Bytes} (hplain : Plain text) {c : UInt8} (hc : c ∈ text)
    (hdigit : isDigit c = false) (hpoint : c ≠ '.'.toUInt8) : parseIpv4 inet text = none := by
  unfold parseIpv4
  rw [hplain.cStr]
  cases h : inet.pton4 text with
  | none => rfl
  | some q =>
      rcases hstd.pton4_chars text q h c hc with hc | hc
      · rw [hc] at hdigit
        cases hdigit
      · exact absurd hc hpoint

theorem parseIpv6_of_colon {text : Bytes} (hplain : Plain text) (h : ':'.toUInt8 ∉ text) :
    parseIpv6 inet text = none := by
  unfold parseIpv6
  rw [hplain.cStr]
  cases h6 : inet.pton6 text with
  | none => rfl
  | some b => exact absurd (hstd.pton6_colon text b h6) h

theorem parseIpv4_hexOf (bytes : List UInt8) : parseIpv4 inet (hexOf bytes) = none := by
  unfold parseIpv4
  rw [(hexOf_plain bytes).cStr]
  cases h : inet.pton4 (hexOf bytes) with
  | none => rfl
  | some q =>
      have hhex : isHexLower '.'.toUInt8 = true := mem_hexOf (hstd.pton4_point _ q h)
      exact absurd hhex (by decide)

theorem parseIpv6_hexOf (bytes : List UInt8) : parseIpv6 inet (hexOf bytes) = none :=
  parseIpv6_of_colon hstd (hexOf_plain bytes) (colon_not_mem_hexOf bytes)

theorem parseIpv6_dotted (q : Ip4) : parseIpv6 inet (dotted q) = none := by
  apply parseIpv6_of_colon hstd (dotted_plain q)
  intro h
  rcases mem_dotted h with h | h
  · revert h
    decide
  · revert h
    decide

theorem parseIpv6_ipv6Text {b : Ip6} (h : ipv6Text inet b ≠ []) :
    parseIpv6 inet (ipv6Text inet b) = some b := by
  unfold parseIpv6
  rw [(ipv6Text_plain hstd b).cStr]
  unfold ipv6Text at h ⊢
  cases htext : inet.ntop6 b with
  | none =>
      rw [htext] at h
      exact absurd rfl h
  | some text => exact hstd.pton6_ntop6 b text htext

theorem parseIpv4_ipv6Text (b : Ip6) : parseIpv4 inet (ipv6Text inet b) = none := by
  by_cases hnil : ipv6Text inet b = []
  · unfold parseIpv4
    rw [hnil]
    cases h : inet.pton4 (cStr []) with
    | none => rfl
    | some q =>
        have hpoint := hstd.pton4_point _ q h
        cases hpoint
  · apply parseIpv4_of_char hstd (ipv6Text_plain hstd b) (c := ':'.toUInt8)
    · have h6 := parseIpv6_ipv6Text hstd hnil
      unfold parseIpv6 at h6
      rw [(ipv6Text_plain hstd b).cStr] at h6
      exact hstd.pton6_colon _ b h6
    · decide
    · decide

theorem parseIpv6_groupsText (q : Ip4) : parseIpv6 inet (groupsText q) = some (mappedOf q) := by
  unfold parseIpv6
  rw [(groupsText_plain q).cStr]
  exact hstd.pton6_groups q

theorem parseIpv4_groupsText (q : Ip4) : parseIpv4 inet (groupsText q) = none := by
  apply parseIpv4_of_char hstd (groupsText_plain q) (c := ':'.toUInt8)
  · exact List.mem_append_left _ (by decide)
  · decide
  · decide

theorem parseIpv4_dashedText (q : Ip4) : parseIpv4 inet (dashedText q) = none := by
  apply parseIpv4_of_char hstd (dashedText_plain q) (c := 'i'.toUInt8)
  · exact List.mem_append_left _ (by decide)
  · decide
  · decide

theorem parseIpv6_dashedText (q : Ip4) : parseIpv6 inet (dashedText q) = none := by
  apply parseIpv6_of_colon hstd (dashedText_plain q)
  intro h
  rcases mem_dashedText h with h | h
  · revert h
    decide
  · revert h
    decide

/-!
## Keys of forms
-/

/-- The bytes of a hex needle that is not entered: all zero or all ones. -/
def Uniform (bytes : List UInt8) : Prop :=
  (bytes.all (· == 0) || bytes.all (· == 0xff)) = true

instance (bytes : List UInt8) : Decidable (Uniform bytes) := inferInstanceAs (Decidable (_ = true))

omit hstd in
theorem hexOf_all {b : UInt8} {c : UInt8}
    (h : forall b', (hexPair b').all (· == c) = (b' == b)) (bytes : List UInt8) :
    (hexOf bytes).all (· == c) = bytes.all (· == b) := by
  induction bytes with
  | nil => rfl
  | cons b' bytes ih => rw [hexOf_cons, List.all_append, h, ih, List.all_cons]

omit hstd in
theorem uniform_iff (bytes : List UInt8) :
    ((hexOf bytes).all (· == '0'.toUInt8) || (hexOf bytes).all (· == 'f'.toUInt8)) = true <->
      Uniform bytes := by
  have hzero : forall b', (hexPair b').all (· == '0'.toUInt8) = (b' == 0) := by
    apply forall_byte
    decide +kernel
  have hones : forall b', (hexPair b').all (· == 'f'.toUInt8) = (b' == 0xff) := by
    apply forall_byte
    decide +kernel
  rw [hexOf_all hzero, hexOf_all hones]
  rfl

omit hstd in
/-- A value that is no address text of the kind is not dropped. -/
theorem isDropped_of_none {value : Bytes} (h4 : parseIpv4 inet value = none)
    (h6 : parseIpv6 inet value = none) (kind : IdKind) : isDropped inet kind value = false := by
  unfold isDropped
  rw [h4, h6]
  cases kind with
  | _ => rfl

omit hstd in
theorem entered_of_needle {kind : IdKind} {value : Bytes} {mode : MatchMode}
    (hplain : Plain value) (hneedle : needleOf mode value = value) {needle : Bytes}
    (h : entered inet kind value mode = some needle) :
    isDropped inet kind value = false ∧ needle = value := by
  unfold entered at h
  simp only [hplain.trimmed, hneedle] at h
  split_ifs at h with hdropped
  injection h with h
  exact ⟨by simpa using hdropped, h.symm⟩

omit hstd in
/-- Only dropping depends on the kind. -/
theorem entered_kind {kind kind' : IdKind} {value : Bytes} {mode : MatchMode}
    (hplain : Plain value) (hdropped : isDropped inet kind' value = false) {needle : Bytes}
    (h : entered inet kind value mode = some needle) :
    entered inet kind' value mode = some needle := by
  unfold entered at h ⊢
  simp only [hplain.trimmed] at h ⊢
  rw [if_neg (by rw [hdropped]; decide)]
  split_ifs at h with h1 h2 h3 h4
  rw [if_neg h2, if_neg h3, if_pos h4]
  exact h

/-- A form whose value is its needle. -/
structure Form.Needle (f : Form) : Prop where
  plain : Plain f.value
  needle : needleOf f.mode f.value = f.value

omit hstd in
theorem hexForm_needle (bytes : List UInt8) : Form.Needle ⟨hexOf bytes, .hex⟩ :=
  ⟨hexOf_plain bytes, normalisedHex_hexOf bytes⟩

omit hstd in
theorem token_needle {value : Bytes} (h : Plain value) : Form.Needle ⟨value, .token⟩ :=
  ⟨h, h.lowered⟩

omit hstd in
theorem Form.Needle.key {f : Form} (hf : f.Needle) {kind : IdKind} {key : MatchMode × Bytes}
    (h : f.key inet kind = some key) :
    isDropped inet kind f.value = false ∧ key = (f.mode, f.value) := by
  unfold Form.key at h
  rcases Option.map_eq_some_iff.mp h with ⟨needle, hneedle, hkey⟩
  rcases entered_of_needle hf.plain hf.needle hneedle with ⟨hdropped, hvalue⟩
  rw [← hkey, hvalue]
  exact ⟨hdropped, rfl⟩

omit hstd in
theorem Form.Needle.key_kind {f : Form} (hf : f.Needle) {kind kind' : IdKind}
    (hdropped : isDropped inet kind' f.value = false) {key : MatchMode × Bytes}
    (h : f.key inet kind = some key) : f.key inet kind' = some key := by
  unfold Form.key at h ⊢
  rcases Option.map_eq_some_iff.mp h with ⟨needle, hneedle, hkey⟩
  rw [entered_kind hf.plain hdropped hneedle, ← hkey]
  rfl

omit hstd in
/-- The key of a form that is neither dropped nor short. -/
theorem Form.Needle.key_eq {f : Form} (hf : f.Needle) {kind : IdKind}
    (hdropped : isDropped inet kind f.value = false)
    (huniform : f.mode = .hex ->
      ¬ (f.value.all (· == '0'.toUInt8) || f.value.all (· == 'f'.toUInt8)) = true)
    (hlong : kMinNeedle ≤ f.value.length) : f.key inet kind = some (f.mode, f.value) := by
  have hne : f.value ≠ [] := by
    intro hnil
    rw [hnil] at hlong
    exact absurd hlong (by decide)
  unfold Form.key entered
  simp only [hf.plain.trimmed, hf.needle, hdropped]
  rw [if_neg Bool.false_ne_true, if_neg hne, if_neg (fun h => huniform h.1 h.2), if_pos hlong]
  rfl

theorem isDropped_hexOf (kind : IdKind) (bytes : List UInt8) :
    isDropped inet kind (hexOf bytes) = false :=
  isDropped_of_none (parseIpv4_hexOf hstd bytes) (parseIpv6_hexOf hstd bytes) kind

theorem key_hexOf {kind : IdKind} {bytes : List UInt8} (hlen : 3 ≤ bytes.length)
    (huniform : ¬ Uniform bytes) :
    (Form.mk (hexOf bytes) .hex).key inet kind = some (.hex, hexOf bytes) := by
  apply (hexForm_needle bytes).key_eq (isDropped_hexOf hstd kind bytes)
  · intro _ h
    exact huniform ((uniform_iff bytes).mp h)
  · show kMinNeedle ≤ (hexOf bytes).length
    rw [hexOf_length]
    unfold kMinNeedle
    omega

omit hstd in
theorem not_uniform_of_key {kind : IdKind} {bytes : List UInt8} {key : MatchMode × Bytes}
    (h : (Form.mk (hexOf bytes) .hex).key inet kind = some key) : ¬ Uniform bytes := by
  intro huniform
  unfold Form.key at h
  rcases Option.map_eq_some_iff.mp h with ⟨needle, hneedle, _⟩
  have hvalue : needleOf .hex (hexOf bytes) = hexOf bytes := normalisedHex_hexOf bytes
  unfold entered at hneedle
  simp only [(hexOf_plain bytes).trimmed, hvalue] at hneedle
  split_ifs at hneedle with h1 h2 h3
  exact h3 ⟨trivial, (uniform_iff bytes).mpr huniform⟩

/-!
## Forms of an address
-/

omit hstd in
theorem sized_toList {n : Nat} (b : Vector UInt8 n) : sized n b.toList = some b := by
  unfold sized
  rw [dif_pos (by simp)]
  exact congrArg some (Vector.toList_inj.mp rfl)

omit hstd in
theorem sized_ne {n : Nat} {bytes : List UInt8} (h : bytes.length ≠ n) : sized n bytes = none := by
  unfold sized
  rw [dif_neg (by simpa using h)]

omit hstd in
theorem sized_eq {n : Nat} {bytes : List UInt8} {b : Vector UInt8 n} (h : sized n bytes = some b) :
    b.toList = bytes := by
  unfold sized at h
  split_ifs at h with hsize
  injection h with h
  rw [← h]
  rfl

/-- The port GUID at the end of an IPoIB address. -/
def guidOf (b : Vector UInt8 20) : Vector UInt8 8 := b.drop 12

/-- The GID that a MAC address, a GUID, a GID or an IPoIB address names. -/
def gidOf (bytes : List UInt8) : Option Ip6 :=
  if let some b := sized 6 bytes then some (linkLocal (euiOf b))
  else if let some b := sized 8 bytes then some (linkLocal b)
  else if let some gid := sized 16 bytes then some gid
  else if let some b := sized 20 bytes then some (b.drop 4 : Ip6)
  else none

variable (inet) in
/-- The spellings of an address, in full and as text, and those of the IPv4 address in it. -/
def addressForms (a : Ip6) : List Form := hexForm a :: textForm inet a :: mappedForms inet a

omit hstd in
theorem mappedForms_of_not_mapped {a : Ip6} (h : isMapped a = false) : mappedForms inet a = [] := by
  unfold mappedForms
  rw [h]
  rfl

omit hstd in
theorem mappedForms_mappedOf (q : Ip4) :
    mappedForms inet (mappedOf q) = dottedForm q :: quadForms inet q := by
  unfold mappedForms
  rw [if_pos (isMapped_mappedOf q), quadOf_mappedOf]

/-- How the bytes of a hex entry give the forms of the GID they name. -/
inductive BytesForms (inet : Inet) : List UInt8 -> Prop where
  | mac (b : Vector UInt8 6)
      (names : gidOf b.toList = some (linkLocal (euiOf b)))
      (forms : bytesForms inet b.toList =
        hexForm (euiOf b) :: addressForms inet (linkLocal (euiOf b))) : BytesForms inet b.toList
  | guid (b : Vector UInt8 8)
      (names : gidOf b.toList = some (linkLocal b))
      (forms : bytesForms inet b.toList = addressForms inet (linkLocal b)) :
      BytesForms inet b.toList
  | gid (a : Ip6)
      (names : gidOf a.toList = some a)
      (forms : bytesForms inet a.toList = textForm inet a :: mappedForms inet a) :
      BytesForms inet a.toList
  | ipoib (b : Vector UInt8 20)
      (names : gidOf b.toList = some (b.drop 4 : Ip6))
      (forms : bytesForms inet b.toList =
        addressForms inet (b.drop 4 : Ip6) ++ [hexForm (guidOf b)]) : BytesForms inet b.toList
  | other (bytes : List UInt8)
      (names : gidOf bytes = none)
      (forms : bytesForms inet bytes = []) : BytesForms inet bytes

omit hstd in
theorem bytesForms_cases (bytes : List UInt8) : BytesForms inet bytes := by
  cases h6 : sized 6 bytes with
  | some b =>
      have hbytes := sized_eq h6
      subst hbytes
      apply BytesForms.mac b
      · unfold gidOf
        rw [h6]
      · unfold bytesForms addressForms
        rw [h6, mappedForms_of_not_mapped (isMapped_linkLocal _)]
  | none =>
      cases h8 : sized 8 bytes with
      | some b =>
          have hbytes := sized_eq h8
          subst hbytes
          apply BytesForms.guid b
          · unfold gidOf
            rw [h6, h8]
          · unfold bytesForms addressForms
            rw [h6, h8, mappedForms_of_not_mapped (isMapped_linkLocal _)]
      | none =>
          cases h16 : sized 16 bytes with
          | some a =>
              have hbytes := sized_eq h16
              subst hbytes
              apply BytesForms.gid a
              · unfold gidOf
                rw [h6, h8, h16]
              · unfold bytesForms
                rw [h6, h8, h16]
          | none =>
              cases h20 : sized 20 bytes with
              | some b =>
                  have hbytes := sized_eq h20
                  subst hbytes
                  have hguid : b.toList.drop 12 = (guidOf b).toList := by
                    exact (Vector.toList_drop ..).symm
                  apply BytesForms.ipoib b
                  · unfold gidOf
                    rw [h6, h8, h16, h20]
                  · unfold bytesForms addressForms
                    rw [h6, h8, h16, h20]
                    simp only [hguid]
                    rfl
              | none =>
                  apply BytesForms.other
                  · unfold gidOf
                    rw [h6, h8, h16, h20]
                  · unfold bytesForms
                    rw [h6, h8, h16, h20]

variable (inet) in
/-- The IPv6 address that an entry names; an IPv4 text names none. -/
def RawEntry.names (e : RawEntry) : Option Ip6 :=
  match e.mode with
  | .hex => (hexBytes e.needle).bind gidOf
  | .token =>
      match parseIpv4 inet e.needle with
      | some _ => none
      | none => parseIpv6 inet e.needle

omit hstd in
omit hstd in
theorem hexBytes_toList {n : Nat} [NeZero n] (b : Vector UInt8 n) :
    hexBytes (hexOf b.toList) = some b.toList := by
  apply hexBytes_hexOf
  intro hnil
  have hlen := congrArg List.length hnil
  rw [Vector.length_toList] at hlen
  exact NeZero.ne n hlen

omit hstd in
theorem forms_hexForm {n : Nat} [NeZero n] (b : Vector UInt8 n) {e : RawEntry}
    (h : e.key = (.hex, hexOf b.toList)) : forms inet e = bytesForms inet b.toList := by
  unfold RawEntry.key at h
  injection h with hmode hneedle
  unfold forms
  rw [hmode, hneedle, hexBytes_toList]
  rfl

omit hstd in
theorem bytesForms_guid (b : Vector UInt8 8) :
    bytesForms inet b.toList = addressForms inet (linkLocal b) := by
  have h6 : sized 6 b.toList = none := sized_ne (by simp)
  unfold bytesForms addressForms
  rw [h6, sized_toList, mappedForms_of_not_mapped (isMapped_linkLocal _)]

omit hstd in
theorem bytesForms_gid (a : Ip6) :
    bytesForms inet a.toList = textForm inet a :: mappedForms inet a := by
  have h6 : sized 6 a.toList = none := sized_ne (by simp)
  have h8 : sized 8 a.toList = none := sized_ne (by simp)
  unfold bytesForms
  rw [h6, h8, sized_toList]

omit hstd in
theorem bytesForms_ipoib (b : Vector UInt8 20) :
    bytesForms inet b.toList = addressForms inet (b.drop 4 : Ip6) ++ [hexForm (guidOf b)] := by
  have h6 : sized 6 b.toList = none := sized_ne (by simp)
  have h8 : sized 8 b.toList = none := sized_ne (by simp)
  have h16 : sized 16 b.toList = none := sized_ne (by simp)
  have hguid : b.toList.drop 12 = (guidOf b).toList := (Vector.toList_drop ..).symm
  unfold bytesForms addressForms
  rw [h6, h8, h16, sized_toList]
  simp only [hguid]
  rfl

omit hstd in
theorem gidOf_gid (a : Ip6) : gidOf a.toList = some a := by
  have h6 : sized 6 a.toList = none := sized_ne (by simp)
  have h8 : sized 8 a.toList = none := sized_ne (by simp)
  unfold gidOf
  rw [h6, h8, sized_toList]

omit hstd in
theorem forms_quad {e : RawEntry} (hmode : e.mode = .token) {q : Ip4}
    (h : parseIpv4 inet e.needle = some q) : forms inet e = quadForms inet q := by
  unfold forms
  rw [hmode, h]

omit hstd in
theorem forms_token {e : RawEntry} (hmode : e.mode = .token) {a : Ip6}
    (h : e.names inet = some a) : forms inet e = hexForm a :: mappedForms inet a := by
  unfold RawEntry.names at h
  unfold forms
  rw [hmode] at h ⊢
  simp only at h ⊢
  cases h4 : parseIpv4 inet e.needle with
  | some q =>
      rw [h4] at h
      cases h
  | none =>
      rw [h4] at h
      simp only at h ⊢
      rw [h]

omit hstd in
theorem forms_token_none {e : RawEntry} (hmode : e.mode = .token)
    (h4 : parseIpv4 inet e.needle = none) (h6 : parseIpv6 inet e.needle = none) :
    forms inet e = [] := by
  unfold forms
  rw [hmode]
  simp only [h4, h6]

omit hstd in
theorem names_token {e : RawEntry} (hmode : e.mode = .token)
    (h4 : parseIpv4 inet e.needle = none) : e.names inet = parseIpv6 inet e.needle := by
  unfold RawEntry.names
  rw [hmode]
  simp only [h4]

omit hstd in
theorem needle_eq {e : RawEntry} {mode : MatchMode} {needle : Bytes} (h : e.key = (mode, needle)) :
    e.mode = mode ∧ e.needle = needle := by
  unfold RawEntry.key at h
  injection h with hmode hneedle
  exact ⟨hmode, hneedle⟩

theorem quadForms_needle {q : Ip4} {f : Form} (hf : f ∈ quadForms inet q) : f.Needle := by
  unfold quadForms at hf
  simp only [List.mem_cons, List.not_mem_nil, or_false] at hf
  rcases hf with rfl | rfl | rfl | rfl
  · exact hexForm_needle _
  · exact token_needle (ipv6Text_plain hstd _)
  · exact token_needle (groupsText_plain q)
  · exact token_needle (dashedText_plain q)

theorem mappedForms_needle {a : Ip6} {f : Form} (hf : f ∈ mappedForms inet a) : f.Needle := by
  unfold mappedForms at hf
  split_ifs at hf
  · rcases List.mem_cons.mp hf with rfl | hf
    · exact token_needle (dotted_plain _)
    · exact quadForms_needle hstd hf
  · cases hf

theorem addressForms_needle {a : Ip6} {f : Form} (hf : f ∈ addressForms inet a) : f.Needle := by
  unfold addressForms at hf
  rcases List.mem_cons.mp hf with rfl | hf
  · exact hexForm_needle _
  · rcases List.mem_cons.mp hf with rfl | hf
    · exact token_needle (ipv6Text_plain hstd _)
    · exact mappedForms_needle hstd hf

omit hstd in
theorem quadForms_subset {q : Ip4} {f : Form} (hf : f ∈ quadForms inet q) :
    f ∈ addressForms inet (mappedOf q) := by
  unfold addressForms
  rw [mappedForms_mappedOf]
  exact List.mem_cons_of_mem _ (List.mem_cons_of_mem _ (List.mem_cons_of_mem _ hf))

omit hstd in
/-- An entry whose key is that of a spelling gives only spellings of the same address. -/
theorem forms_of_hexForm {a : Ip6} {e : RawEntry} (h : e.key = (.hex, hexOf a.toList)) {g : Form}
    (hg : g ∈ forms inet e) : g ∈ addressForms inet a := by
  rw [forms_hexForm a h, bytesForms_gid] at hg
  exact List.mem_cons_of_mem _ hg

theorem forms_of_textForm {a : Ip6} {e : RawEntry} (h : e.key = (.token, ipv6Text inet a))
    {g : Form} (hg : g ∈ forms inet e) : g ∈ addressForms inet a := by
  rcases needle_eq h with ⟨hmode, hneedle⟩
  by_cases hnil : ipv6Text inet a = []
  · rw [forms_token_none hmode] at hg
    · cases hg
    · rw [hneedle]
      exact parseIpv4_ipv6Text hstd a
    · rw [hneedle, hnil]
      exact parseIpv6_of_colon hstd (fun c hc => by cases hc) (by decide)
  · have hnames : e.names inet = some a := by
      rw [names_token hmode]
      · rw [hneedle]
        exact parseIpv6_ipv6Text hstd hnil
      · rw [hneedle]
        exact parseIpv4_ipv6Text hstd a
    rw [forms_token hmode hnames] at hg
    unfold addressForms
    rcases List.mem_cons.mp hg with rfl | hg
    · exact List.mem_cons_self
    · exact List.mem_cons_of_mem _ (List.mem_cons_of_mem _ hg)

theorem forms_of_quadForm {q : Ip4} {f : Form} (hf : f ∈ quadForms inet q) {e : RawEntry}
    (h : e.key = (f.mode, f.value)) {g : Form} (hg : g ∈ forms inet e) :
    g ∈ addressForms inet (mappedOf q) := by
  unfold quadForms at hf
  simp only [List.mem_cons, List.not_mem_nil, or_false] at hf
  rcases hf with rfl | rfl | rfl | rfl
  · exact forms_of_hexForm h hg
  · exact forms_of_textForm hstd h hg
  · rcases needle_eq h with ⟨hmode, hneedle⟩
    have hnames : e.names inet = some (mappedOf q) := by
      rw [names_token hmode]
      · rw [hneedle]
        exact parseIpv6_groupsText hstd q
      · rw [hneedle]
        exact parseIpv4_groupsText hstd q
    rw [forms_token hmode hnames] at hg
    unfold addressForms
    rcases List.mem_cons.mp hg with rfl | hg
    · exact List.mem_cons_self
    · exact List.mem_cons_of_mem _ (List.mem_cons_of_mem _ hg)
  · rcases needle_eq h with ⟨hmode, hneedle⟩
    rw [forms_token_none hmode] at hg
    · cases hg
    · rw [hneedle]
      exact parseIpv4_dashedText hstd q
    · rw [hneedle]
      exact parseIpv6_dashedText hstd q

theorem forms_of_addressForm {a : Ip6} {f : Form} (hf : f ∈ addressForms inet a) {e : RawEntry}
    (h : e.key = (f.mode, f.value)) {g : Form} (hg : g ∈ forms inet e) :
    g ∈ addressForms inet a := by
  unfold addressForms at hf
  rcases List.mem_cons.mp hf with rfl | hf
  · exact forms_of_hexForm h hg
  · rcases List.mem_cons.mp hf with rfl | hf
    · exact forms_of_textForm hstd h hg
    · unfold mappedForms at hf
      split_ifs at hf with hmapped
      · have ha := mappedOf_quadOf hmapped
        rcases List.mem_cons.mp hf with rfl | hf
        · rcases needle_eq h with ⟨hmode, hneedle⟩
          have h4 : parseIpv4 inet e.needle = some (quadOf a) := by
            rw [hneedle]
            exact parseIpv4_dotted (quadOf a)
          rw [forms_quad hmode h4] at hg
          rw [← ha]
          exact quadForms_subset hg
        · rw [← ha]
          exact forms_of_quadForm hstd hf h hg
      · cases hf

end Addresses

end Capture
end Ostia
