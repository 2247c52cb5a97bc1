import Mathlib.Algebra.Group.Nat.Defs
import Mathlib.Data.List.Basic
import Mathlib.Data.List.TakeWhile
import Mathlib.Data.List.DropRight
import Ostia.Capture.Bytes

/-!
# Vital product data

The serial numbers in the VPD image of a PCI device.  The image is a list of resources with
two kinds of headers; the sections among them are lists of fields with a keyword.  The reader
clips every length to what is left of the image.

An image is read back as it was written, and the front of any string of bytes gives the front
of what the whole string gives, with its last value cut.
-/

namespace Ostia
namespace Capture
namespace Vpd

open Bytes

/-!
## The reader

A read outside a view is none.
-/

def kLargeResource : UInt8 := 0x80

def kVpdReadOnly : UInt8 := 0x10

def kVpdWritable : UInt8 := 0x11

def kSmallEnd : UInt8 := 0x0f

/-- Part of a view, clipped at its end; to start past the end throws. -/
def substr (view : Bytes) (pos count : Nat) : Option Bytes :=
  if pos ≤ view.length then some ((view.drop pos).take count) else none

def isVendor (keyword : Bytes) : Option Bool := do
  let first <- keyword[0]?
  if first = 'V'.toUInt8 then do
    let second <- keyword[1]?
    pure (isDigit second || isUpper second)
  else pure false

/-- The values that the fields of a section give from a position on. -/
def sectionIdentifiers (body : Bytes) (k : Nat) : Option (List Bytes) :=
  if k + 3 ≤ body.length then do
    let keyword <- substr body k 2
    let field <- body[k + 2]?
    let value <- substr body (k + 3) (min field.toNat (body.length - k - 3))
    let vendor <- isVendor keyword
    let out <- sectionIdentifiers body (k + 3 + field.toNat)
    if keyword = ascii "SN" ∨ vendor then
      let text := trimmed value
      pure (if text ≠ [] then text :: out else out)
    else pure out
  else pure []
termination_by body.length - k

/-- The values that the resources of an image give from a position on. -/
def identifiersFrom (vpd : Bytes) (pos : Nat) : Option (List Bytes) :=
  if pos < vpd.length then do
    let tag <- vpd[pos]?
    if tag &&& kLargeResource = 0 then
      -- Bits 6-3 of a small resource name the item, bits 2-0 give its length.
      if (tag >>> 3) &&& 0x0f = kSmallEnd then pure []
      else identifiersFrom vpd (pos + (1 + (tag &&& 0x07).toNat))
    else if pos + 3 > vpd.length then pure []
    else do
      let low <- vpd[pos + 1]?
      let high <- vpd[pos + 2]?
      let len := low.toNat ||| high.toNat <<< 8
      let data := pos + 3
      let body <- substr vpd data (min len (vpd.length - data))
      let name := tag &&& 0x7f
      let out <-
        if name = kVpdReadOnly ∨ name = kVpdWritable then sectionIdentifiers body 0 else pure []
      let rest <- identifiersFrom vpd (data + len)
      pure (out ++ rest)
  else pure []
termination_by vpd.length - pos

def vpdIdentifiers (vpd : Bytes) : Option (List Bytes) := identifiersFrom vpd 0

/-!
## Reading from the front

What is left of a view decides what it gives.
-/

/-- The keywords whose values identify a device. -/
def identifying : List Bytes :=
  ascii "SN" :: (ascii "0123456789ABCDEFGHIJKLMNOPQRSTUVWXYZ").map fun c => ['V'.toUInt8, c]

/-- What a field gives. -/
def identifier (keyword value : Bytes) : List Bytes :=
  if keyword ∈ identifying ∧ trimmed value ≠ [] then [trimmed value] else []

/-- What the fields at the front of a text give. -/
def fieldsOf : Bytes -> List Bytes
  | a :: b :: n :: rest =>
      identifier [a, b] (rest.take n.toNat) ++ fieldsOf (rest.drop n.toNat)
  | _ => []
termination_by view => view.length

def isSection (tag : UInt8) : Prop := tag &&& 0x7f = kVpdReadOnly ∨ tag &&& 0x7f = kVpdWritable

instance (tag : UInt8) : Decidable (isSection tag) := inferInstanceAs (Decidable (_ ∨ _))

def largeLength (low high : UInt8) : Nat := low.toNat ||| high.toNat <<< 8

/-- What the resources at the front of a text give. -/
def resourcesOf : Bytes -> List Bytes
  | [] => []
  | tag :: rest =>
      if tag &&& kLargeResource = 0 then
        if (tag >>> 3) &&& 0x0f = kSmallEnd then []
        else resourcesOf (rest.drop (tag &&& 0x07).toNat)
      else
        match rest with
        | low :: high :: rest =>
            (if isSection tag then fieldsOf (rest.take (largeLength low high)) else []) ++
              resourcesOf (rest.drop (largeLength low high))
        | _ => []
termination_by view => view.length
decreasing_by
  · simp only [List.length_drop, List.length_cons]
    omega
  · simp only [List.length_drop, List.length_cons]
    omega

theorem isVendor_pair (a b : UInt8) :
    isVendor [a, b] = some (decide (a = 'V'.toUInt8) && (isDigit b || isUpper b)) := by
  unfold isVendor
  by_cases ha : a = 'V'.toUInt8
  · simp [ha]
  · simp [ha]

theorem isDigit_or_isUpper (b : UInt8) :
    (isDigit b || isUpper b) = decide (b ∈ ascii "0123456789ABCDEFGHIJKLMNOPQRSTUVWXYZ") := by
  revert b
  apply forall_byte
  decide +kernel

theorem mem_identifying {a b : UInt8} :
    [a, b] ∈ identifying <->
      [a, b] = ascii "SN" ∨ (decide (a = 'V'.toUInt8) && (isDigit b || isUpper b)) = true := by
  unfold identifying
  rw [List.mem_cons, List.mem_map, isDigit_or_isUpper, Bool.and_eq_true, decide_eq_true_eq,
    decide_eq_true_eq]
  apply or_congr_right
  constructor
  · intro ⟨c, hc, heq⟩
    injection heq with ha hb
    injection hb with hb
    rw [← ha, ← hb]
    exact ⟨rfl, hc⟩
  · intro ⟨ha, hb⟩
    exact ⟨b, hb, by rw [ha]⟩

theorem fieldsOf_short {view : Bytes} (h : view.length < 3) : fieldsOf view = [] := by
  match view, h with
  | [], _ => simp [fieldsOf]
  | [_], _ => simp [fieldsOf]
  | [_, _], _ => simp [fieldsOf]

/-- Three bytes and what follows them. -/
theorem drop_eq_three {view : Bytes} {k : Nat} (h : k + 3 ≤ view.length) :
    view.drop k = view[k] :: view[k + 1] :: view[k + 2] :: view.drop (k + 3) := by
  rw [List.drop_eq_getElem_cons (by omega), List.drop_eq_getElem_cons (by omega),
    List.drop_eq_getElem_cons (by omega)]

theorem take_min_drop (view : Bytes) (pos count : Nat) :
    (view.drop pos).take (min count (view.length - pos)) = (view.drop pos).take count := by
  rw [← List.length_drop, List.take_eq_take_iff]
  omega

/-- The fields of a section are read inside it, and give what is left of it. -/
theorem sectionIdentifiers_eq (body : Bytes) (k : Nat) :
    sectionIdentifiers body k = some (fieldsOf (body.drop k)) := by
  rw [sectionIdentifiers]
  split_ifs with h
  · have ih : forall field : UInt8,
        sectionIdentifiers body (k + 3 + field.toNat) =
          some (fieldsOf (body.drop (k + 3 + field.toNat))) :=
      fun field => sectionIdentifiers_eq body (k + 3 + field.toNat)
    have hkeyword : substr body k 2 = some [body[k], body[k + 1]] := by
      unfold substr
      rw [if_pos (by omega), drop_eq_three h]
      rfl
    have hvalue : forall field : UInt8,
        substr body (k + 3) (min field.toNat (body.length - k - 3)) =
          some ((body.drop (k + 3)).take field.toNat) := by
      intro field
      unfold substr
      rw [if_pos h, Nat.sub_sub, take_min_drop]
    rw [hkeyword, List.getElem?_eq_getElem (by omega), drop_eq_three h, fieldsOf]
    simp only [Option.bind_eq_bind, Option.bind_some, hvalue, isVendor_pair, ih]
    rw [List.drop_drop]
    unfold identifier
    simp only [mem_identifying]
    by_cases hkeyword : [body[k], body[k + 1]] = ascii "SN" ∨
        (decide (body[k] = 'V'.toUInt8) && (isDigit body[k + 1] || isUpper body[k + 1])) = true
    · rw [if_pos hkeyword]
      by_cases htext : trimmed ((body.drop (k + 3)).take body[k + 2].toNat) ≠ []
      · rw [if_pos htext, if_pos ⟨hkeyword, htext⟩]
        rfl
      · rw [if_neg htext, if_neg (fun h => htext h.2)]
        rfl
    · rw [if_neg hkeyword, if_neg (fun h => hkeyword h.1)]
      rfl
  · rw [fieldsOf_short]
    · rfl
    · rw [List.length_drop]
      omega
termination_by body.length - k

theorem resourcesOf_small {tag : UInt8} {view : Bytes} (htag : tag &&& kLargeResource = 0) :
    resourcesOf (tag :: view) =
      if (tag >>> 3) &&& 0x0f = kSmallEnd then []
      else resourcesOf (view.drop (tag &&& 0x07).toNat) := by
  match view with
  | [] => rw [resourcesOf, if_pos htag]; simp
  | [_] => rw [resourcesOf, if_pos htag]; simp
  | _ :: _ :: _ => rw [resourcesOf, if_pos htag]

theorem resourcesOf_large_short {tag : UInt8} {view : Bytes} (htag : tag &&& kLargeResource ≠ 0)
    (h : view.length < 2) : resourcesOf (tag :: view) = [] := by
  match view, h with
  | [], _ => rw [resourcesOf, if_neg htag]; simp
  | [_], _ => rw [resourcesOf, if_neg htag]; simp

theorem resourcesOf_large {tag low high : UInt8} {view : Bytes}
    (htag : tag &&& kLargeResource ≠ 0) :
    resourcesOf (tag :: low :: high :: view) =
      (if isSection tag then fieldsOf (view.take (largeLength low high)) else []) ++
        resourcesOf (view.drop (largeLength low high)) := by
  rw [resourcesOf, if_neg htag]

/-- The resources of an image are read inside it, and give what is left of it. -/
theorem identifiersFrom_eq (vpd : Bytes) (pos : Nat) :
    identifiersFrom vpd pos = some (resourcesOf (vpd.drop pos)) := by
  rw [identifiersFrom]
  by_cases hpos : pos < vpd.length
  · rw [if_pos hpos, List.getElem?_eq_getElem hpos, List.drop_eq_getElem_cons hpos]
    simp only [Option.bind_eq_bind, Option.bind_some]
    generalize htag : vpd[pos] = tag
    by_cases hsmall : tag &&& kLargeResource = 0
    · rw [if_pos hsmall, resourcesOf_small hsmall]
      by_cases hend : (tag >>> 3) &&& 0x0f = kSmallEnd
      · rw [if_pos hend, if_pos hend]
        rfl
      · rw [if_neg hend, if_neg hend, identifiersFrom_eq, List.drop_drop, Nat.add_assoc]
    · rw [if_neg hsmall]
      by_cases hshort : pos + 3 > vpd.length
      · rw [if_pos hshort, resourcesOf_large_short hsmall]
        · rfl
        · rw [List.length_drop]
          omega
      · rw [if_neg hshort, List.getElem?_eq_getElem (by omega), List.getElem?_eq_getElem (by omega),
          List.drop_eq_getElem_cons (show pos + 1 < vpd.length by omega),
          List.drop_eq_getElem_cons (show pos + 1 + 1 < vpd.length by omega),
          resourcesOf_large hsmall]
        simp only [Option.bind_some]
        have hbody : forall len : Nat,
            substr vpd (pos + 3) (min len (vpd.length - (pos + 3))) =
              some ((vpd.drop (pos + 3)).take len) := by
          intro len
          unfold substr
          rw [if_pos (by omega), take_min_drop]
        have hlen : vpd[pos + 1].toNat ||| vpd[pos + 2].toNat <<< 8 =
            largeLength vpd[pos + 1] vpd[pos + 2] := rfl
        rw [hlen, hbody, identifiersFrom_eq, List.drop_drop]
        simp only [Option.bind_some]
        by_cases hsection : isSection tag
        · have hname : tag &&& 0x7f = kVpdReadOnly ∨ tag &&& 0x7f = kVpdWritable := hsection
          rw [if_pos hsection, if_pos hname, sectionIdentifiers_eq, List.drop_zero]
          rfl
        · have hname : ¬ (tag &&& 0x7f = kVpdReadOnly ∨ tag &&& 0x7f = kVpdWritable) := hsection
          rw [if_neg hsection, if_neg hname]
          rfl
  · rw [if_neg hpos, List.drop_eq_nil_of_le (not_lt.mp hpos), resourcesOf]
    rfl
termination_by vpd.length - pos

theorem vpdIdentifiers_eq (vpd : Bytes) : vpdIdentifiers vpd = some (resourcesOf vpd) :=
  identifiersFrom_eq vpd 0

/-!
## Images

An image is a list of resources and an end tag.  The lengths that a header can hold are part
of the types.
-/

structure Field where
  keyword : UInt8 × UInt8
  value : Bytes
  short : value.length ≤ 255

def Field.bytes (f : Field) : Bytes :=
  f.keyword.1 :: f.keyword.2 :: UInt8.ofNat f.value.length :: f.value

/-- What a field gives: the trimmed value, when it is not empty and the keyword identifies. -/
def Field.identifiers (f : Field) : List Bytes := identifier [f.keyword.1, f.keyword.2] f.value

def fieldBytes (fields : List Field) : Bytes := fields.flatMap Field.bytes

inductive Resource where
  /-- A small resource other than an end tag. -/
  | small (item : Fin 15) (data : Bytes) (short : data.length ≤ 7)
  | identifierString (text : Bytes) (short : text.length < 2 ^ 16)
  | readOnly (fields : List Field) (short : (fieldBytes fields).length < 2 ^ 16)
  | readWrite (fields : List Field) (short : (fieldBytes fields).length < 2 ^ 16)

/-- A large resource: its tag, its length with the low byte first, and its data. -/
def large (name : UInt8) (data : Bytes) : Bytes :=
  (kLargeResource ||| name) :: UInt8.ofNat (data.length % 256) ::
    UInt8.ofNat (data.length / 256) :: data

def Resource.bytes : Resource -> Bytes
  | .small item data _ => UInt8.ofNat (item.val * 8 + data.length) :: data
  | .identifierString text _ => large 0x02 text
  | .readOnly fields _ => large kVpdReadOnly (fieldBytes fields)
  | .readWrite fields _ => large kVpdWritable (fieldBytes fields)

def Resource.identifiers : Resource -> List Bytes
  | .small _ _ _ => []
  | .identifierString _ _ => []
  | .readOnly fields _ => fields.flatMap Field.identifiers
  | .readWrite fields _ => fields.flatMap Field.identifiers

/-- An end tag; its data, a checksum when there is one, follows it. -/
def endTag (length : Fin 8) : UInt8 := UInt8.ofNat (15 * 8 + length.val)

/-- The image of a list of resources, with whatever follows the end tag. -/
def image (resources : List Resource) (length : Fin 8) (trailing : Bytes) : Bytes :=
  resources.flatMap Resource.bytes ++ endTag length :: trailing

/-!
## Reading what was written
-/

theorem fieldsOf_field (f : Field) (rest : Bytes) :
    fieldsOf (f.bytes ++ rest) = f.identifiers ++ fieldsOf rest := by
  have hlen : (UInt8.ofNat f.value.length).toNat = f.value.length := by
    rw [UInt8.toNat_ofNat']
    exact Nat.mod_eq_of_lt (Nat.lt_of_le_of_lt f.short (by decide))
  unfold Field.bytes
  rw [List.cons_append, List.cons_append, List.cons_append, fieldsOf, hlen, List.take_left,
    List.drop_left]
  rfl

theorem fieldsOf_fieldBytes (fields : List Field) :
    fieldsOf (fieldBytes fields) = fields.flatMap Field.identifiers := by
  induction fields with
  | nil => simp [fieldBytes, fieldsOf]
  | cons f fields ih =>
      show fieldsOf (f.bytes ++ fieldBytes fields) = _
      rw [fieldsOf_field, ih, List.flatMap_cons]

theorem largeLength_eq (low high : UInt8) :
    largeLength low high = low.toNat + 256 * high.toNat := by
  unfold largeLength
  rw [Nat.or_comm, ← Nat.shiftLeft_add_eq_or_of_lt low.toNat_lt, Nat.shiftLeft_eq]
  omega

theorem largeLength_ofNat {n : Nat} (h : n < 2 ^ 16) :
    largeLength (UInt8.ofNat (n % 256)) (UInt8.ofNat (n / 256)) = n := by
  rw [largeLength_eq, UInt8.toNat_ofNat', UInt8.toNat_ofNat']
  omega

/-- A large resource gives what the fields of its data give, when it is a section. -/
theorem resourcesOf_large_append {name : UInt8} (hname : name &&& kLargeResource = 0)
    {data : Bytes} (hdata : data.length < 2 ^ 16) (rest : Bytes) :
    resourcesOf (large name data ++ rest) =
      (if name = kVpdReadOnly ∨ name = kVpdWritable then fieldsOf data else []) ++
        resourcesOf rest := by
  have hbits : (kLargeResource ||| name) &&& kLargeResource ≠ 0 ∧
      (isSection (kLargeResource ||| name) <-> name = kVpdReadOnly ∨ name = kVpdWritable) := by
    revert name
    apply forall_byte
    decide +kernel
  unfold large
  rw [List.cons_append, List.cons_append, List.cons_append, resourcesOf_large hbits.1,
    largeLength_ofNat hdata, List.take_left, List.drop_left]
  simp only [hbits.2]

theorem resourcesOf_smallTag (item : Fin 15) {n : Nat} (hn : n ≤ 7) (view : Bytes) :
    resourcesOf (UInt8.ofNat (item.val * 8 + n) :: view) = resourcesOf (view.drop n) := by
  have hbits : forall (item : Fin 15) (m : Fin 8),
      UInt8.ofNat (item.val * 8 + m.val) &&& kLargeResource = 0 ∧
      (UInt8.ofNat (item.val * 8 + m.val) >>> 3) &&& 0x0f ≠ kSmallEnd ∧
      (UInt8.ofNat (item.val * 8 + m.val) &&& 0x07).toNat = m.val := by
    decide +kernel
  rcases hbits item ⟨n, by omega⟩ with ⟨hsmall, hend, hlen⟩
  rw [resourcesOf_small hsmall, if_neg hend, hlen]

theorem resourcesOf_bytes (r : Resource) (rest : Bytes) :
    resourcesOf (r.bytes ++ rest) = r.identifiers ++ resourcesOf rest := by
  cases r with
  | small item data short =>
      show resourcesOf (_ :: (data ++ rest)) = _
      rw [resourcesOf_smallTag item short, List.drop_left]
      rfl
  | identifierString text short =>
      show resourcesOf (large 0x02 text ++ rest) = _
      rw [resourcesOf_large_append (by decide) short]
      rfl
  | readOnly fields short =>
      show resourcesOf (large kVpdReadOnly (fieldBytes fields) ++ rest) = _
      rw [resourcesOf_large_append (by decide) short, if_pos (Or.inl rfl), fieldsOf_fieldBytes]
      rfl
  | readWrite fields short =>
      show resourcesOf (large kVpdWritable (fieldBytes fields) ++ rest) = _
      rw [resourcesOf_large_append (by decide) short, if_pos (Or.inr rfl), fieldsOf_fieldBytes]
      rfl

/-- Nothing after an end tag is read. -/
theorem resourcesOf_endTag (length : Fin 8) (trailing : Bytes) :
    resourcesOf (endTag length :: trailing) = [] := by
  have hbits : forall length : Fin 8, endTag length &&& kLargeResource = 0 ∧
      (endTag length >>> 3) &&& 0x0f = kSmallEnd := by
    decide +kernel
  rcases hbits length with ⟨hsmall, hend⟩
  rw [resourcesOf_small hsmall, if_pos hend]

theorem resourcesOf_image (resources : List Resource) (length : Fin 8) (trailing : Bytes) :
    resourcesOf (image resources length trailing) = resources.flatMap Resource.identifiers := by
  unfold image
  induction resources with
  | nil => exact resourcesOf_endTag length trailing
  | cons r resources ih =>
      rw [List.flatMap_cons, List.append_assoc, resourcesOf_bytes, ih, List.flatMap_cons]

/-!
## Truncated images
-/

/-- The front of a list of values, whose last one may be cut. -/
def UpToLast (out full : List Bytes) : Prop :=
  out <+: full ∨
    exists front last value rest, out = front ++ [last] ∧ full = front ++ value :: rest ∧
      last <+: value

theorem UpToLast.append_left (front : List Bytes) {out full : List Bytes}
    (h : UpToLast out full) : UpToLast (front ++ out) (front ++ full) := by
  rcases h with h | ⟨front', last, value, rest, hout, hfull, hlast⟩
  · exact Or.inl ((List.prefix_append_right_inj front).mpr h)
  · right
    refine ⟨front ++ front', last, value, rest, ?_, ?_, hlast⟩
    · rw [hout, List.append_assoc]
    · rw [hfull, List.append_assoc]

theorem UpToLast.append_right {out full : List Bytes} (h : UpToLast out full)
    (more : List Bytes) : UpToLast out (full ++ more) := by
  rcases h with h | ⟨front, last, value, rest, hout, hfull, hlast⟩
  · exact Or.inl (h.trans (List.prefix_append full more))
  · right
    refine ⟨front, last, value, rest ++ more, hout, ?_, hlast⟩
    rw [hfull, List.append_assoc, List.cons_append]

theorem upToLast_nil (full : List Bytes) : UpToLast [] full := Or.inl (List.nil_prefix)

theorem dropWhile_front {p : UInt8 -> Bool} {front whole : Bytes} (h : front <+: whole) :
    front.dropWhile p <+: whole.dropWhile p := by
  rcases h with ⟨rest, h⟩
  rw [← h, List.dropWhile_append]
  split_ifs with hnil
  · rw [List.isEmpty_iff.mp hnil]
    exact List.nil_prefix
  · exact List.prefix_append _ _

theorem rdropWhile_front {p : UInt8 -> Bool} {front whole : Bytes} (h : front <+: whole) :
    front.rdropWhile p <+: whole.rdropWhile p := by
  rcases h with ⟨rest, h⟩
  unfold List.rdropWhile
  rw [← h, List.reverse_append, List.dropWhile_append]
  split_ifs with hnil
  · exact List.prefix_refl _
  · rw [List.reverse_append, List.reverse_reverse]
    exact (List.rdropWhile_prefix p front).trans (List.prefix_append _ _)

/-- A cut value without its blanks is the front of the whole one without them. -/
theorem trimmed_take (value : Bytes) (n : Nat) : trimmed (value.take n) <+: trimmed value :=
  rdropWhile_front (dropWhile_front (List.take_prefix n value))

theorem identifier_take (keyword value : Bytes) (n : Nat) :
    UpToLast (identifier keyword (value.take n)) (identifier keyword value) := by
  have hcut := trimmed_take value n
  unfold identifier
  by_cases hkeyword : keyword ∈ identifying
  · by_cases hempty : trimmed (value.take n) = []
    · rw [if_neg (fun h => h.2 hempty)]
      exact upToLast_nil _
    · have hfull : trimmed value ≠ [] := by
        intro hnil
        rw [hnil] at hcut
        exact hempty (List.prefix_nil.mp hcut)
      rw [if_pos ⟨hkeyword, hempty⟩, if_pos ⟨hkeyword, hfull⟩]
      exact Or.inr ⟨[], _, _, [], rfl, rfl, hcut⟩
  · rw [if_neg (fun h => hkeyword h.1)]
    exact upToLast_nil _

theorem fieldsOf_take (view : Bytes) (n : Nat) :
    UpToLast (fieldsOf (view.take n)) (fieldsOf view) := by
  match view with
  | a :: b :: c :: rest =>
      match n with
      | n + 3 =>
          rw [List.take_succ_cons, List.take_succ_cons, List.take_succ_cons, fieldsOf, fieldsOf]
          by_cases hcut : n ≤ c.toNat
          · have hnil : (rest.take n).drop c.toNat = [] := by
              rw [List.drop_eq_nil_iff, List.length_take]
              omega
            rw [hnil, fieldsOf_short (by decide), List.append_nil, List.take_take,
              min_eq_right hcut, show rest.take n = (rest.take c.toNat).take n by
                rw [List.take_take, min_eq_left hcut]]
            exact (identifier_take _ _ n).append_right _
          · rw [List.take_take, min_eq_left (by omega), List.drop_take]
            exact (fieldsOf_take (rest.drop c.toNat) (n - c.toNat)).append_left _
      | 0 | 1 | 2 =>
          rw [fieldsOf_short (by simp)]
          exact upToLast_nil _
  | [] | [_] | [_, _] =>
      rw [fieldsOf_short
        (by simp only [List.length_take, List.length_cons, List.length_nil]; omega)]
      exact upToLast_nil _
termination_by view.length

theorem resourcesOf_take (view : Bytes) (n : Nat) :
    UpToLast (resourcesOf (view.take n)) (resourcesOf view) := by
  match view, n with
  | [], n =>
      rw [List.take_nil]
      exact Or.inl (List.prefix_refl _)
  | tag :: rest, 0 =>
      rw [List.take_zero, resourcesOf]
      exact upToLast_nil _
  | tag :: rest, n + 1 =>
      rw [List.take_succ_cons]
      by_cases hsmall : tag &&& kLargeResource = 0
      · rw [resourcesOf_small hsmall, resourcesOf_small hsmall]
        split_ifs
        · exact upToLast_nil _
        · rw [List.drop_take]
          exact resourcesOf_take _ _
      · match rest, n with
        | low :: high :: rest, n + 2 =>
            rw [List.take_succ_cons, List.take_succ_cons, resourcesOf_large hsmall,
              resourcesOf_large hsmall]
            generalize largeLength low high = len
            by_cases hcut : n ≤ len
            · have hnil : (rest.take n).drop len = [] := by
                rw [List.drop_eq_nil_iff, List.length_take]
                omega
              rw [hnil, resourcesOf, List.append_nil]
              apply UpToLast.append_right
              split_ifs
              · rw [List.take_take, Nat.min_comm, ← List.take_take]
                exact fieldsOf_take _ _
              · exact upToLast_nil _
            · rw [List.take_take, min_eq_left (by omega), List.drop_take]
              exact (resourcesOf_take (rest.drop len) (n - len)).append_left _
        | [], n | [_], n | _, 0 | _, 1 =>
            rw [resourcesOf_large_short hsmall (by
              simp only [List.length_take, List.length_cons, List.length_nil]
              omega)]
            exact upToLast_nil _
termination_by view.length

theorem vpdIdentifiers_image_take :
    (forall (resources : List Resource) (length : Fin 8) (trailing : Bytes),
      vpdIdentifiers (image resources length trailing) =
        some (resources.flatMap Resource.identifiers)) ∧
    forall (vpd : Bytes) (n : Nat), exists out full, vpdIdentifiers (vpd.take n) = some out ∧
      vpdIdentifiers vpd = some full ∧ UpToLast out full := by
  constructor
  · intro resources length trailing
    rw [vpdIdentifiers_eq, resourcesOf_image]
  · intro vpd n
    exact ⟨_, _, vpdIdentifiers_eq _, vpdIdentifiers_eq _, resourcesOf_take vpd n⟩

end Vpd
end Capture
end Ostia
