import Ostia.Capture.Hex
import Ostia.Topology.Schema

/-!
# PCI bus IDs

The reader that accepts the spellings of a bus ID, and the one format in which the tools print
it.
-/

namespace Ostia
namespace Capture

open Ostia.Topology (Schema.isBusId)
open Bytes Hex

/-- The four numbers of a bus ID. -/
structure BusId where
  domain : Nat
  bus : Nat
  dev : Nat
  func : Nat
deriving DecidableEq

namespace BusId

def kMaxDomain : Nat := 0xffff

/-- What a formatted text leaves in a buffer, up to its terminating zero. -/
def buffered (size : Nat) (text : Bytes) : Bytes := text.take (size - 1)

/-- The format `%04x:%02x:%02x.%01x`. -/
def formatted (id : BusId) : Bytes :=
  padded 4 id.domain ++ ascii ":" ++ padded 2 id.bus ++ ascii ":" ++ padded 2 id.dev ++
    ascii "." ++ padded 1 id.func

/-- One field of a bus ID: exactly `digits` hex digits, or 1-8 when digits is 0. -/
def hexField (text : Bytes) (digits : Nat) : Option Nat :=
  if text = [] ∨ (digits ≠ 0 ∧ text.length ≠ digits) ∨ 8 < text.length then none
  else
    match fromChars text with
    | some (v, []) => some v
    | _ => none

/-- The four fields of a bus ID, between the first separators. -/
def fields (text : Bytes) : Option (Bytes × Bytes × Bytes × Bytes) :=
  match find text (ascii ":") 0 with
  | none => none
  | some colon1 =>
      match find text (ascii ":") (colon1 + 1) with
      | none => none
      | some colon2 =>
          match find text (ascii ".") (colon2 + 1) with
          | none => none
          | some dot =>
              some (text.take colon1, (text.drop (colon1 + 1)).take (colon2 - colon1 - 1),
                (text.drop (colon2 + 1)).take (dot - colon2 - 1), text.drop (dot + 1))

/-- The numbers of four fields. -/
def numbers (fs : Bytes × Bytes × Bytes × Bytes) : Option BusId :=
  match hexField fs.1 0, hexField fs.2.1 2, hexField fs.2.2.1 2, hexField fs.2.2.2 1 with
  | some domain, some bus, some dev, some func =>
      if func > 7 then none else some ⟨domain, bus, dev, func⟩
  | _, _, _, _ => none

def normalizeBusId (text : Bytes) : Except String Bytes :=
  match (fields text).bind numbers with
  | none => .error "bus_id_format"
  | some id =>
      if id.domain > kMaxDomain then .error "bus_id_domain"
      else .ok (buffered 16 id.formatted)

/-!
## Fields between separators
-/

theorem notMem_of_allHex {text : Bytes} {c : UInt8} (h : AllHex text)
    (hc : isHexDigit c = false) : c ∉ text := by
  intro hmem
  rw [h c hmem] at hc
  cases hc

/-- Fields without separators are the ones that are read. -/
theorem fields_append {domain bus dev func : Bytes} (hdomain : ':'.toUInt8 ∉ domain)
    (hbus : ':'.toUInt8 ∉ bus) (hdev : '.'.toUInt8 ∉ dev) :
    fields (domain ++ ascii ":" ++ bus ++ ascii ":" ++ dev ++ ascii "." ++ func) =
      some (domain, bus, dev, func) := by
  have htext : domain ++ ascii ":" ++ bus ++ ascii ":" ++ dev ++ ascii "." ++ func =
      domain ++ ':'.toUInt8 :: (bus ++ ':'.toUInt8 :: (dev ++ '.'.toUInt8 :: func)) := by
    simp only [List.append_assoc]
    rfl
  rw [htext]
  generalize htext : domain ++ ':'.toUInt8 :: (bus ++ ':'.toUInt8 :: (dev ++ '.'.toUInt8 :: func))
    = text
  obtain ⟨hcolon1, htake1, hdrop1⟩ := @find_cut text domain _ _ 0 htext.symm hdomain
  obtain ⟨hcolon2, htake2, hdrop2⟩ := find_cut hdrop1 hbus
  obtain ⟨hdot, htake3, hdrop3⟩ := find_cut hdrop2 hdev
  have hdigits : forall a b : Nat, a + 1 + b - a - 1 = b := by
    intro a b
    omega
  unfold fields
  rw [show ascii ":" = [':'.toUInt8] from rfl, show ascii "." = ['.'.toUInt8] from rfl, hcolon1]
  simp only
  rw [hcolon2]
  simp only
  rw [hdot]
  simp only
  rw [hdigits, hdigits, htake2, htake3, hdrop3, Nat.zero_add, <- htext, List.take_left]

/-- A text whose fields are read is made of them. -/
theorem append_of_fields {text domain bus dev func : Bytes}
    (h : fields text = some (domain, bus, dev, func)) :
    text = domain ++ ascii ":" ++ bus ++ ascii ":" ++ dev ++ ascii "." ++ func := by
  unfold fields at h
  cases hcolon1 : find text (ascii ":") 0 with
  | none =>
      rw [hcolon1] at h
      cases h
  | some colon1 =>
      rw [hcolon1] at h
      simp only at h
      cases hcolon2 : find text (ascii ":") (colon1 + 1) with
      | none =>
          rw [hcolon2] at h
          cases h
      | some colon2 =>
          rw [hcolon2] at h
          simp only at h
          cases hdot : find text (ascii ".") (colon2 + 1) with
          | none =>
              rw [hdot] at h
              cases h
          | some dot =>
              rw [hdot] at h
              simp only [Option.some_inj, Prod.mk.injEq] at h
              obtain ⟨rfl, rfl, rfl, rfl⟩ := h
              have hcut1 := cut_of_find hcolon1
              have hcut2 := cut_of_find hcolon2
              have hcut3 := cut_of_find hdot
              rw [List.drop_zero, Nat.sub_zero, hcut2, hcut3] at hcut1
              rw [Nat.sub_sub, Nat.sub_sub]
              refine hcut1.trans ?_
              simp only [List.append_assoc]
              rfl

/-!
## Spellings
-/

/-- What a bus ID may look like: the hexadecimal digits of its fields. -/
structure Spelling where
  domain : Bytes
  bus : Bytes
  dev : Bytes
  func : UInt8
  hex : AllHex domain ∧ AllHex bus ∧ AllHex dev
  short : 1 ≤ domain.length ∧ domain.length ≤ 8
  two : bus.length = 2 ∧ dev.length = 2
  octal : func ∈ ascii "01234567"

def Spelling.text (s : Spelling) : Bytes :=
  s.domain ++ ascii ":" ++ s.bus ++ ascii ":" ++ s.dev ++ ascii "." ++ [s.func]

def Spelling.id (s : Spelling) : BusId :=
  ⟨value s.domain, value s.bus, value s.dev, value [s.func]⟩

/-- The text is a spelling of four numbers. -/
def Spells (text : Bytes) (id : BusId) : Prop :=
  exists s : Spelling, s.text = text ∧ s.id = id

theorem hexField_eq_some {text : Bytes} {digits v : Nat} :
    hexField text digits = some v <->
      text ≠ [] ∧ (digits ≠ 0 -> text.length = digits) ∧ text.length ≤ 8 ∧ AllHex text ∧
        v = value text := by
  unfold hexField
  constructor
  · intro h
    split_ifs at h with hbad
    rw [not_or, not_or, not_and, not_not, Nat.not_lt] at hbad
    cases hread : fromChars text with
    | none =>
        rw [hread] at h
        cases h
    | some result =>
        obtain ⟨w, rest⟩ := result
        rw [hread] at h
        cases rest with
        | cons c rest => cases h
        | nil =>
            cases h
            obtain ⟨hhex, hvalue⟩ := allHex_of_fromChars hread
            exact ⟨hbad.1, hbad.2.1, hbad.2.2, hhex, hvalue⟩
  · intro h
    obtain ⟨hne, hdigits, hlength, hhex, rfl⟩ := h
    rw [if_neg]
    · rw [fromChars_of_allHex hne hhex hlength]
    · rw [not_or, not_or, not_and, not_not, Nat.not_lt]
      exact ⟨hne, hdigits, hlength⟩

theorem octal_iff {c : UInt8} : (isHexDigit c = true ∧ value [c] ≤ 7) <-> c ∈ ascii "01234567" := by
  revert c
  apply forall_byte
  decide +kernel

namespace Spelling

theorem fields_text (s : Spelling) : fields s.text = some (s.domain, s.bus, s.dev, [s.func]) :=
  fields_append (notMem_of_allHex s.hex.1 (by decide)) (notMem_of_allHex s.hex.2.1 (by decide))
    (notMem_of_allHex s.hex.2.2 (by decide))

theorem allHex_func (s : Spelling) : AllHex [s.func] := by
  intro c hc
  rw [List.mem_singleton.mp hc]
  exact (octal_iff.mpr s.octal).1

theorem numbers_text (s : Spelling) : (fields s.text).bind numbers = some s.id := by
  have hnonempty : forall {text : Bytes} {k : Nat}, text.length = k -> 0 < k -> text ≠ [] := by
    intro text k hk hpos
    exact List.ne_nil_of_length_pos (by omega)
  have hdomain : hexField s.domain 0 = some (value s.domain) :=
    hexField_eq_some.mpr ⟨List.ne_nil_of_length_pos s.short.1, fun h => absurd rfl h, s.short.2,
      s.hex.1, rfl⟩
  have hbus : hexField s.bus 2 = some (value s.bus) :=
    hexField_eq_some.mpr ⟨hnonempty s.two.1 (by decide), fun _ => s.two.1,
      by rw [s.two.1]; decide, s.hex.2.1, rfl⟩
  have hdev : hexField s.dev 2 = some (value s.dev) :=
    hexField_eq_some.mpr ⟨hnonempty s.two.2 (by decide), fun _ => s.two.2,
      by rw [s.two.2]; decide, s.hex.2.2, rfl⟩
  have hfunc : hexField [s.func] 1 = some (value [s.func]) :=
    hexField_eq_some.mpr ⟨List.cons_ne_nil _ _, fun _ => rfl, Nat.le_add_left 1 7,
      s.allHex_func, rfl⟩
  rw [fields_text, Option.bind_some]
  unfold numbers
  simp only [hdomain, hbus, hdev, hfunc]
  rw [if_neg (Nat.not_lt.mpr (octal_iff.mpr s.octal).2)]
  rfl

theorem exists_of_numbers {text : Bytes} {id : BusId}
    (h : (fields text).bind numbers = some id) : Spells text id := by
  rw [Option.bind_eq_some_iff] at h
  obtain ⟨⟨domain, bus, dev, func⟩, hfields, hnumbers⟩ := h
  have htext := append_of_fields hfields
  unfold numbers at hnumbers
  simp only at hnumbers
  split at hnumbers
  · rename_i d b v f hdomain hbus hdev hfunc
    split_ifs at hnumbers with hoctal
    cases hnumbers
    rw [hexField_eq_some] at hdomain hbus hdev hfunc
    obtain ⟨hdomainNe, _, hdomainLe, hdomainHex, rfl⟩ := hdomain
    obtain ⟨_, hbusLength, _, hbusHex, rfl⟩ := hbus
    obtain ⟨_, hdevLength, _, hdevHex, rfl⟩ := hdev
    obtain ⟨_, hfuncLength, _, hfuncHex, rfl⟩ := hfunc
    obtain ⟨c, rfl⟩ := List.length_eq_one_iff.mp (hfuncLength (by decide))
    have hc : c ∈ ascii "01234567" :=
      octal_iff.mp ⟨hfuncHex c (List.mem_singleton_self c), Nat.not_lt.mp hoctal⟩
    exact ⟨⟨domain, bus, dev, c, ⟨hdomainHex, hbusHex, hdevHex⟩,
      ⟨List.length_pos_of_ne_nil hdomainNe, hdomainLe⟩,
      ⟨hbusLength (by decide), hdevLength (by decide)⟩, hc⟩, htext.symm, rfl⟩
  · cases hnumbers

end Spelling

theorem spells_iff {text : Bytes} {id : BusId} :
    Spells text id <-> (fields text).bind numbers = some id := by
  constructor
  · intro h
    obtain ⟨s, rfl, rfl⟩ := h
    exact s.numbers_text
  · exact Spelling.exists_of_numbers

/-- The numbers that a spelling can have. -/
structure Bounded (id : BusId) : Prop where
  bus : id.bus < 16 ^ 2
  dev : id.dev < 16 ^ 2
  func : id.func < 8

theorem Spells.bounded {text : Bytes} {id : BusId} (h : Spells text id) : id.Bounded := by
  obtain ⟨s, _, rfl⟩ := h
  have hbus := value_lt s.bus
  have hdev := value_lt s.dev
  have hfunc := (octal_iff.mpr s.octal).2
  rw [s.two.1] at hbus
  rw [s.two.2] at hdev
  exact ⟨hbus, hdev, Nat.lt_succ_of_le hfunc⟩

theorem normalizeBusId_eq_ok {text r : Bytes} :
    normalizeBusId text = .ok r <->
      exists id, Spells text id ∧ id.domain ≤ kMaxDomain ∧ r = buffered 16 id.formatted := by
  unfold normalizeBusId
  constructor
  · intro h
    cases hid : (fields text).bind numbers with
    | none =>
        rw [hid] at h
        cases h
    | some id =>
        rw [hid] at h
        simp only at h
        split_ifs at h with hbig
        cases h
        exact ⟨id, spells_iff.mpr hid, Nat.not_lt.mp hbig, rfl⟩
  · intro h
    obtain ⟨id, hspells, hdomain, rfl⟩ := h
    rw [spells_iff.mp hspells]
    simp only
    rw [if_neg (Nat.not_lt.mpr hdomain)]

/-!
## The canonical spelling
-/

theorem length_padded_eq {width n : Nat} (h : n < 16 ^ width) :
    (padded width n).length = width :=
  le_antisymm (length_padded le_rfl h) (le_length_padded width n)

theorem length_formatted (id : BusId) :
    id.formatted.length = (padded 4 id.domain).length + (padded 2 id.bus).length +
      (padded 2 id.dev).length + (padded 1 id.func).length + 3 := by
  unfold formatted
  simp only [List.length_append]
  rw [show (ascii ":").length = 1 from rfl, show (ascii ".").length = 1 from rfl]
  omega

theorem buffered_eq {size : Nat} {text : Bytes} (h : text.length < size) :
    buffered size text = text := by
  apply List.take_of_length_le
  omega

theorem fields_formatted (id : BusId) :
    fields id.formatted =
      some (padded 4 id.domain, padded 2 id.bus, padded 2 id.dev, padded 1 id.func) :=
  fields_append (notMem_of_allHex (allHex_padded _ _) (by decide))
    (notMem_of_allHex (allHex_padded _ _) (by decide))
    (notMem_of_allHex (allHex_padded _ _) (by decide))

/-- Printed numbers spell themselves, if they spell anything. -/
theorem eq_of_spells_formatted {id id' : BusId} (h : Spells id.formatted id') : id' = id := by
  rw [spells_iff, fields_formatted, Option.bind_some] at h
  unfold numbers at h
  simp only at h
  split at h
  · rename_i d b v f hdomain hbus hdev hfunc
    split_ifs at h
    cases h
    rw [hexField_eq_some, value_padded] at hdomain hbus hdev hfunc
    rw [hdomain.2.2.2.2, hbus.2.2.2.2, hdev.2.2.2.2, hfunc.2.2.2.2]
  · cases h

theorem exists_octal {n : Nat} (h : n < 8) :
    exists c, padded 1 n = [c] ∧ c ∈ ascii "01234567" := by
  obtain ⟨c, hc⟩ := List.length_eq_one_iff.mp (length_padded_eq (show n < 16 ^ 1 by omega))
  have hvalue : value [c] = n := by rw [<- hc, value_padded]
  refine ⟨c, hc, octal_iff.mp ⟨?_, ?_⟩⟩
  · apply allHex_padded 1 n
    rw [hc]
    exact List.mem_singleton_self c
  · rw [hvalue]
    exact Nat.le_of_lt_succ h

theorem spells_formatted {id : BusId} (h : id.Bounded) (hdomain : id.domain ≤ kMaxDomain) :
    Spells id.formatted id := by
  have hdomain' : id.domain < 16 ^ 4 := Nat.lt_succ_of_le hdomain
  obtain ⟨c, hc, hoctal⟩ := exists_octal h.func
  have hvalue : value [c] = id.func := by rw [<- hc, value_padded]
  refine ⟨⟨padded 4 id.domain, padded 2 id.bus, padded 2 id.dev, c, ⟨allHex_padded _ _,
    allHex_padded _ _, allHex_padded _ _⟩, ?_, ⟨length_padded_eq h.bus, length_padded_eq h.dev⟩,
    hoctal⟩, ?_, ?_⟩
  · rw [length_padded_eq hdomain']
    decide
  · unfold Spelling.text formatted
    rw [hc]
  · unfold Spelling.id
    simp only [value_padded, hvalue]

theorem length_formatted_eq {id : BusId} (h : id.Bounded) (hdomain : id.domain ≤ kMaxDomain) :
    id.formatted.length = 12 := by
  rw [length_formatted, length_padded_eq (Nat.lt_succ_of_le hdomain), length_padded_eq h.bus,
    length_padded_eq h.dev, length_padded_eq (h.func.trans (by decide))]

/-- What is read is printed whole. -/
theorem normalizeBusId_of_spells {text : Bytes} {id : BusId} (h : Spells text id)
    (hdomain : id.domain ≤ kMaxDomain) : normalizeBusId text = .ok id.formatted := by
  apply normalizeBusId_eq_ok.mpr
  refine ⟨id, h, hdomain, ?_⟩
  rw [buffered_eq]
  rw [length_formatted_eq h.bounded hdomain]
  decide

theorem exists_of_normalizeBusId {text r : Bytes} (h : normalizeBusId text = .ok r) :
    exists id, Spells text id ∧ id.domain ≤ kMaxDomain ∧ r = id.formatted := by
  obtain ⟨id, hspells, hdomain, _⟩ := normalizeBusId_eq_ok.mp h
  rw [normalizeBusId_of_spells hspells hdomain] at h
  exact ⟨id, hspells, hdomain, (Except.ok.inj h).symm⟩

/-- The text of ASCII bytes. -/
def characters (text : Bytes) : String :=
  String.ofList (text.map fun c => Char.ofNat c.toNat)

theorem lower_character {c : UInt8} (h : c ∈ ascii "0123456789abcdef") :
    (Char.ofNat c.toNat).toUInt8 = c ∧ Topology.Schema.isHex (Char.ofNat c.toNat) = true := by
  revert c
  decide

theorem octal_character {c : UInt8} (h : c ∈ ascii "01234567") :
    (Char.ofNat c.toNat).toUInt8 = c ∧
      ('0' ≤ Char.ofNat c.toNat && Char.ofNat c.toNat ≤ '7') = true := by
  revert c
  decide

/-- A printed bus ID matches the pattern of the schemas. -/
theorem isBusId_formatted {id : BusId} (h : id.Bounded) (hdomain : id.domain ≤ kMaxDomain) :
    id.formatted = ascii (characters id.formatted) ∧
      Schema.isBusId (characters id.formatted) = true := by
  obtain ⟨a, b, c, d, hdom⟩ := List.length_eq_four.mp
    (length_padded_eq (show id.domain < 16 ^ 4 from Nat.lt_succ_of_le hdomain))
  obtain ⟨e, f, hbus⟩ := List.length_eq_two.mp (length_padded_eq h.bus)
  obtain ⟨g, k, hdev⟩ := List.length_eq_two.mp (length_padded_eq h.dev)
  obtain ⟨o, hfunc, hoctal⟩ := exists_octal h.func
  have hlower : forall x, x ∈ [a, b, c, d, e, f, g, k] -> x ∈ ascii "0123456789abcdef" := by
    intro x hx
    have hmem : x ∈ padded 4 id.domain ++ padded 2 id.bus ++ padded 2 id.dev := by
      rw [hdom, hbus, hdev]
      exact hx
    rw [List.mem_append, List.mem_append] at hmem
    exact hmem.elim (fun hmem => hmem.elim (padded_lower _ _ x) (padded_lower _ _ x))
      (padded_lower _ _ x)
  have hformatted : id.formatted =
      [a, b, c, d, ':'.toUInt8, e, f, ':'.toUInt8, g, k, '.'.toUInt8, o] := by
    unfold formatted
    rw [hdom, hbus, hdev, hfunc]
    rfl
  simp only [List.forall_mem_cons] at hlower
  obtain ⟨ha, hb, hc, hd, he, hf, hg, hk, -⟩ := hlower
  rw [hformatted]
  constructor
  · unfold ascii characters
    rw [String.toList_ofList]
    simp only [List.map_cons, List.map_nil, (lower_character ha).1, (lower_character hb).1,
      (lower_character hc).1, (lower_character hd).1, (lower_character he).1,
      (lower_character hf).1, (lower_character hg).1, (lower_character hk).1,
      (octal_character hoctal).1]
    rfl
  · unfold Schema.isBusId characters
    rw [String.toList_ofList]
    show (([a, b, c, d, e, f, g, k].map fun c => Char.ofNat c.toNat).all Topology.Schema.isHex &&
      ('0' ≤ Char.ofNat o.toNat && Char.ofNat o.toNat ≤ '7')) = true
    rw [Bool.and_eq_true]
    constructor
    · simp only [List.map_cons, List.map_nil, List.all_cons, List.all_nil,
        (lower_character ha).2, (lower_character hb).2, (lower_character hc).2,
        (lower_character hd).2, (lower_character he).2, (lower_character hf).2,
        (lower_character hg).2, (lower_character hk).2]
      rfl
    · exact (octal_character hoctal).2

end BusId
end Capture
end Ostia
