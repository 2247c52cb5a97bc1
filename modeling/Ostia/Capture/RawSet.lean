import Mathlib.Data.List.Nodup
import Mathlib.Data.Vector.Basic
import Ostia.Capture.Bytes

/-!
# The raw identifiers of a machine

The identifiers that must not leave the machine, normalised for the way in which
they are matched, and the forms that are derived from them.
-/

namespace Ostia
namespace Capture

inductive IdKind where
  | mac
  | guid
  | gid
  | ipv4
  | ipv6
  | ipoib
  | uuid
  | serial
  | hostname
  | machineId
  | dmi
  | instanceId
  | extra
  /-- Not an identifier: a file that could not be read. -/
  | unreadable
deriving DecidableEq

inductive MatchMode where
  | hex
  | token
deriving DecidableEq

structure RawEntry where
  kind : IdKind
  mode : MatchMode
  needle : Bytes
deriving DecidableEq

open Bytes

def kMinNeedle : Nat := 6

/-- A needle is lower case and not short, and a hex needle has no separators. -/
structure RawEntry.Normal (e : RawEntry) : Prop where
  long : kMinNeedle ≤ e.needle.length
  lowered : lowered e.needle = e.needle
  stripped : e.mode = .hex -> forall c, c ∈ e.needle -> isSeparator c = false

/-- Entries that are normalised and listed once for each mode and needle. -/
structure RawSet where
  entries : List RawEntry
  seen : List (MatchMode × Bytes)
  skippedShort : Nat
  normal : forall e, e ∈ entries -> e.Normal
  seen_eq : seen = entries.map fun e => (e.mode, e.needle)
  nodup : seen.Nodup

def RawSet.empty : RawSet where
  entries := []
  seen := []
  skippedShort := 0
  normal := fun _ h => by cases h
  seen_eq := rfl
  nodup := List.nodup_nil

/-!
## Addresses
-/

abbrev Ip4 := Vector UInt8 4

abbrev Ip6 := Vector UInt8 16

/-- The text of a C string ends before its first zero byte. -/
def cStr (text : Bytes) : Bytes := text.takeWhile (· != 0)

def decimal (b : UInt8) : Bytes := ascii (toString b.toNat)

def dotted (b : Ip4) : Bytes :=
  decimal b[0] ++ ascii "." ++ decimal b[1] ++ ascii "." ++ decimal b[2] ++ ascii "." ++
    decimal b[3]

/-- The address conversions of the C library. -/
structure Inet where
  pton4 : Bytes -> Option Ip4
  pton6 : Bytes -> Option Ip6
  ntop6 : Ip6 -> Option Bytes
  pton4_dotted : forall b, pton4 (cStr (dotted b)) = some b

section Values

variable (inet : Inet)

def parseIpv4 (text : Bytes) : Option Ip4 := inet.pton4 (cStr text)

def parseIpv6 (text : Bytes) : Option Ip6 := inet.pton6 (cStr text)

def ipv6Text (b : Ip6) : Bytes := (inet.ntop6 b).getD []

def isDroppedIpv4 (b : Ip4) : Bool := b[0] == 127 || b.all (· == 0)

/-- The v4-mapped addresses. -/
def isMapped (b : Ip6) : Bool :=
  (b.toList.take 10).all (· == 0) && b[10] == 0xff && b[11] == 0xff

def isDroppedIpv6 (b : Ip6) : Bool :=
  if (b.toList.take 15).all (· == 0) && b[15] ≤ 1 then true
  else isMapped b && b[12] == 127

/-- Loopback and unspecified addresses, which need the original spelling. -/
def isDropped (kind : IdKind) (value : Bytes) : Bool :=
  match kind with
  | .ipv4 =>
      match parseIpv4 inet value with
      | some b => isDroppedIpv4 b
      | none => false
  | .ipv6 =>
      match parseIpv6 inet value with
      | some b => isDroppedIpv6 b
      | none => false
  | _ => false

def defaultMode : IdKind -> MatchMode
  | .mac => .hex
  | .guid => .hex
  | .gid => .hex
  | .ipoib => .hex
  | .uuid => .hex
  | .machineId => .hex
  | _ => .token

def needleOf (mode : MatchMode) (value : Bytes) : Bytes :=
  match mode with
  | .hex => normalisedHex value
  | .token => lowered value

theorem needleOf_normal {kind : IdKind} {mode : MatchMode} {value : Bytes}
    (h : kMinNeedle ≤ (needleOf mode value).length) :
    RawEntry.Normal ⟨kind, mode, needleOf mode value⟩ := by
  cases mode with
  | hex =>
      refine ⟨h, lowered_normalisedHex value, ?_⟩
      intro _ c hc
      rcases List.mem_map.mp hc with ⟨d, hd, rfl⟩
      rw [isSeparator_lower]
      simpa using (List.mem_filter.mp hd).2
  | token =>
      refine ⟨h, lowered_lowered value, ?_⟩
      intro hmode
      cases hmode

/-- Put a normalised entry in, unless it is there. -/
def RawSet.emplace (raw : RawSet) (e : RawEntry) (he : e.Normal) : RawSet :=
  if h : (e.mode, e.needle) ∈ raw.seen then raw
  else
    { entries := raw.entries ++ [e]
      seen := raw.seen ++ [(e.mode, e.needle)]
      skippedShort := raw.skippedShort
      normal := by
        intro e' he'
        rcases List.mem_append.mp he' with he' | he'
        · exact raw.normal e' he'
        · rw [List.mem_singleton.mp he']
          exact he
      seen_eq := by
        rw [raw.seen_eq, List.map_append]
        rfl
      nodup := by
        rw [← List.concat_eq_append]
        exact raw.nodup.concat h }

def RawSet.addAs (raw : RawSet) (kind : IdKind) (value : Bytes) (mode : MatchMode) : RawSet :=
  let value := trimmed value
  if isDropped inet kind value then raw
  else
    let needle := needleOf mode value
    if needle = [] then raw
    else if mode = .hex ∧ (needle.all (· == '0'.toUInt8) || needle.all (· == 'f'.toUInt8)) then
      raw
    else if h : kMinNeedle ≤ needle.length then
      raw.emplace ⟨kind, mode, needle⟩ (needleOf_normal h)
    else { raw with skippedShort := raw.skippedShort + 1 }

def RawSet.add (raw : RawSet) (kind : IdKind) (value : Bytes) : RawSet :=
  raw.addAs inet kind value (defaultMode kind)

/-!
## Derived forms
-/

def hexBytes (hex : Bytes) : Option (List UInt8) :=
  match hex with
  | [] => none
  | _ => pairs hex
where
  pairs : Bytes -> Option (List UInt8)
    | [] => some []
    | [_] => none
    | a :: b :: rest => do
        let high ← hexDigit? a
        let low ← hexDigit? b
        let bytes ← pairs rest
        pure ((high * 16 + low) :: bytes)

def hexOf (bytes : List UInt8) : Bytes :=
  let digits := ascii "0123456789abcdef"
  bytes.flatMap fun b : UInt8 =>
    [digits.getD (b >>> 4).toNat 0, digits.getD (b &&& 0x0f).toNat 0]

/-- The 16-bit groups of an address without leading zeros. -/
def hexGroups (bytes : List UInt8) : Bytes := List.intercalate (ascii ":") (groups bytes)
where
  groups : List UInt8 -> List Bytes
    | a :: b :: rest =>
        let group := (hexOf [a, b]).dropWhile (· == '0'.toUInt8)
        (if group = [] then ascii "0" else group) :: groups rest
    | _ => []

def linkLocal (interfaceId : Vector UInt8 8) : Ip6 :=
  (#v[0xfe, 0x80, 0, 0, 0, 0, 0, 0] : Vector UInt8 8) ++ interfaceId

def mappedOf (b : Ip4) : Ip6 :=
  (#v[0, 0, 0, 0, 0, 0, 0, 0, 0, 0, 0xff, 0xff] : Vector UInt8 12) ++ b

/-- The vector of the bytes when there are as many. -/
def sized (n : Nat) (bytes : List UInt8) : Option (Vector UInt8 n) :=
  if h : bytes.toArray.size = n then some ⟨bytes.toArray, h⟩ else none

/-- The instance ID that starts at an offset: i- and 8 to 17 hexadecimal digits. -/
def instanceIdAt (text : Bytes) (i : Nat) : Option Bytes :=
  let rest := text.drop i
  if rest.take 2 = ascii "i-" then
    if i > 0 && isAlnum (text.getD (i - 1) 0) then none
    else
      let digits := (rest.drop 2).takeWhile isHexDigit
      let bounded :=
        match rest.drop (2 + digits.length) with
        | [] => true
        | c :: _ => !isAlnum c
      if 8 ≤ digits.length && digits.length ≤ 17 && bounded then
        some (rest.take (2 + digits.length))
      else none
  else none

def instanceIds (text : Bytes) : List Bytes :=
  (List.range (text.length - 1)).filterMap (instanceIdAt text)

def RawSet.addIpv6Forms (raw : RawSet) (kind : IdKind) (b : Ip6) : RawSet :=
  (raw.addAs inet kind (hexOf b.toList) .hex).addAs inet kind (ipv6Text inet b) .token

def RawSet.expandIpv4 (raw : RawSet) (kind : IdKind) (b : Ip4) : RawSet :=
  let raw := raw.addIpv6Forms inet kind (mappedOf b)
  let raw := raw.addAs inet kind (ascii "::ffff:" ++ hexGroups b.toList) .token
  let host := ascii "ip" ++ b.toList.flatMap fun octet => ascii "-" ++ decimal octet
  raw.addAs inet kind host .token

-- A mapped address is expanded as the IPv4 address in it, which takes the first branch.
mutual

def RawSet.addMappedIpv4 (raw : RawSet) (kind : IdKind) (gid : Ip6) : RawSet :=
  if isMapped gid then
    let b : Ip4 := #v[gid[12], gid[13], gid[14], gid[15]]
    (raw.addAs inet kind (dotted b) .token).expandToken ⟨kind, .token, dotted b⟩
  else raw
termination_by 1
decreasing_by
  unfold parseIpv4
  rw [inet.pton4_dotted]
  exact Nat.one_pos

def RawSet.expandToken (raw : RawSet) (entry : RawEntry) : RawSet :=
  match _h : parseIpv4 inet entry.needle with
  | some b => raw.expandIpv4 inet entry.kind b
  | none =>
      match parseIpv6 inet entry.needle with
      | some b =>
          (raw.addAs inet entry.kind (hexOf b.toList) .hex).addMappedIpv4 entry.kind b
      | none =>
          if entry.kind = .dmi ∨ entry.kind = .serial then
            (instanceIds entry.needle).foldl
              (fun raw id => raw.addAs inet .instanceId id .token) raw
          else raw
termination_by if (parseIpv4 inet entry.needle).isSome then 0 else 2
decreasing_by
  rw [‹parseIpv4 inet entry.needle = none›]
  decide

end

def RawSet.expandHex (raw : RawSet) (entry : RawEntry) : RawSet :=
  if entry.kind = .uuid ∧
      ((ascii "gpu").isPrefixOf entry.needle || (ascii "mig").isPrefixOf entry.needle) then
    raw.addAs inet entry.kind (entry.needle.drop 3) .hex
  else
    match hexBytes entry.needle with
    | none => raw
    | some bytes =>
        if let some b := sized 6 bytes then
          -- EUI-64: ff:fe in the middle, the universal/local bit flipped.
          let eui : Vector UInt8 8 :=
            #v[b[0] ^^^ 0x02, b[1], b[2], 0xff, 0xfe, b[3], b[4], b[5]]
          let raw := raw.addAs inet entry.kind (hexOf eui.toList) .hex
          raw.addIpv6Forms inet entry.kind (linkLocal eui)
        else if let some b := sized 8 bytes then
          raw.addIpv6Forms inet entry.kind (linkLocal b)
        else if let some gid := sized 16 bytes then
          let raw := raw.addAs inet entry.kind (ipv6Text inet gid) .token
          raw.addMappedIpv4 inet entry.kind gid
        else if let some b := sized 20 bytes then
          -- 4 bytes of flags and queue pair number, then the port GID.
          let gid : Ip6 := b.drop 4
          let raw := raw.addIpv6Forms inet entry.kind gid
          let raw := raw.addMappedIpv4 inet entry.kind gid
          raw.addAs inet entry.kind (hexOf (b.toList.drop 12)) .hex
        else raw

def expandDerived (raw : RawSet) : RawSet :=
  raw.entries.foldl
    (fun raw entry =>
      match entry.mode with
      | .hex => raw.expandHex inet entry
      | .token => raw.expandToken inet entry)
    raw

end Values

/-!
## The bytes of addresses
-/

/-- The IPv4 half of an address. -/
def quadOf (gid : Ip6) : Ip4 := #v[gid[12], gid[13], gid[14], gid[15]]

/-- EUI-64: ff:fe in the middle, the universal/local bit flipped. -/
def euiOf (b : Vector UInt8 6) : Vector UInt8 8 :=
  #v[b[0] ^^^ 0x02, b[1], b[2], 0xff, 0xfe, b[3], b[4], b[5]]

theorem quad_toList (q : Ip4) : q.toList = [q[0], q[1], q[2], q[3]] := by
  apply List.ext_getElem
  · simp
  · intro i h1 h2
    have hi : i < 4 := by simpa using h2
    rw [Vector.getElem_toList]
    match i, hi with
    | 0, _ | 1, _ | 2, _ | 3, _ => rfl

theorem mappedOf_toList (q : Ip4) :
    (mappedOf q).toList = [0, 0, 0, 0, 0, 0, 0, 0, 0, 0, 0xff, 0xff] ++ q.toList :=
  Vector.toList_append

theorem mappedOf_eq (q : Ip4) :
    mappedOf q = (#v[0, 0, 0, 0, 0, 0, 0, 0, 0, 0, 0xff, 0xff, q[0], q[1], q[2], q[3]] : Ip6) := by
  apply Vector.toList_inj.mp
  rw [mappedOf_toList, quad_toList]
  rfl

theorem isMapped_iff {b : Ip6} :
    isMapped b = true <-> (forall i : Fin 10, b[i.val] = 0) ∧ b[10] = 0xff ∧ b[11] = 0xff := by
  unfold isMapped
  simp only [Bool.and_eq_true, beq_iff_eq, List.all_eq_true, and_assoc]
  apply and_congr_left
  intro _
  constructor
  · intro h i
    apply h
    rw [List.mem_take_iff_getElem]
    exact ⟨i.val, by simp, by simp⟩
  · intro h c hc
    rw [List.mem_take_iff_getElem] at hc
    rcases hc with ⟨i, hi, hget⟩
    have hi10 : i < 10 := by
      simp at hi
      omega
    rw [← hget, Vector.getElem_toList]
    exact h ⟨i, hi10⟩

end Capture
end Ostia
