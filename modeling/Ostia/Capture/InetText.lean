import Ostia.Capture.DerivedClosure

/-!
# Texts of addresses

The address conversions, written out: dotted decimals without leading zeros, and groups of
hexadecimal digits with the longest run of zero groups left out.
-/

namespace Ostia
namespace Capture
namespace InetText

open Bytes

/-!
## IPv4
-/

def point : UInt8 := '.'.toUInt8

def colon : UInt8 := ':'.toUInt8

/-- The byte that a decimal without leading zeros spells. -/
def byte? (text : Bytes) : Option UInt8 :=
  let n := text.foldl (fun n c => 10 * n + (c - '0'.toUInt8).toNat) 0
  if n < 256 ∧ decimal (UInt8.ofNat n) = text then some (UInt8.ofNat n) else none

def pton4 (text : Bytes) : Option Ip4 :=
  match text.splitOn point with
  | [a, b, c, d] => do
      let a <- byte? a
      let b <- byte? b
      let c <- byte? c
      let d <- byte? d
      pure #v[a, b, c, d]
  | _ => none

theorem byte?_decimal (b : UInt8) : byte? (decimal b) = some b := by
  revert b
  apply forall_byte
  decide +kernel

theorem decimal_of_byte? {text : Bytes} {b : UInt8} (h : byte? text = some b) :
    text = decimal b := by
  unfold byte? at h
  simp only at h
  split_ifs at h with hspell
  injection h with h
  rw [← h]
  exact hspell.2.symm

theorem dotted_eq (q : Ip4) : dotted q = [point].intercalate (q.toList.map decimal) := by
  have hpoint : ascii "." = [point] := rfl
  unfold dotted
  rw [quad_toList]
  simp only [hpoint, List.map_cons, List.map_nil, List.intercalate_cons_cons,
    List.intercalate_singleton, List.append_assoc]

theorem splitOn_dotted (q : Ip4) : (dotted q).splitOn point = q.toList.map decimal := by
  rw [dotted_eq]
  apply List.splitOn_intercalate
  · intro text htext hmem
    obtain ⟨b, _, rfl⟩ := List.mem_map.mp htext
    have hdigit : isDigit point = true := mem_decimal hmem
    exact absurd hdigit (by decide)
  · rw [quad_toList]
    exact List.cons_ne_nil _ _

theorem pton4_dotted (q : Ip4) : pton4 (dotted q) = some q := by
  unfold pton4
  rw [splitOn_dotted, quad_toList]
  simp only [List.map_cons, List.map_nil, byte?_decimal, Option.bind_eq_bind, Option.bind_some]
  congr 1
  apply Vector.toList_inj.mp
  rw [quad_toList q]
  rfl

theorem dotted_of_pton4 {text : Bytes} {q : Ip4} (h : pton4 text = some q) : text = dotted q := by
  unfold pton4 at h
  split at h
  · rename_i a b c d hsplit
    simp only [Option.bind_eq_bind, Option.bind_eq_some_iff] at h
    rcases h with ⟨a', ha, b', hb, c', hc, d', hd, hq⟩
    injection hq with hq
    calc
      text = [point].intercalate (text.splitOn point) := (List.intercalate_splitOn point).symm
      _ = [point].intercalate [decimal a', decimal b', decimal c', decimal d'] := by
        rw [hsplit, decimal_of_byte? ha, decimal_of_byte? hb, decimal_of_byte? hc,
          decimal_of_byte? hd]
      _ = dotted q := by
        rw [dotted_eq, ← hq]
        rfl
  · cases h

theorem point_mem_dotted (q : Ip4) : point ∈ dotted q := by
  unfold dotted
  simp only [List.mem_append]
  exact Or.inl (Or.inl (Or.inl (Or.inl (Or.inl (Or.inr (by decide))))))

theorem pton4_none {text : Bytes} (h : point ∉ text) : pton4 text = none := by
  cases hq : pton4 text with
  | none => rfl
  | some q =>
      rw [dotted_of_pton4 hq] at h
      exact absurd (point_mem_dotted q) h

/-!
## IPv6
-/

/-- The two bytes of a group of one to four hexadecimal digits. -/
def group? (text : Bytes) : Option (List UInt8) :=
  if text = [] ∨ 4 < text.length then none
  else hexBytes (List.replicate (4 - text.length) '0'.toUInt8 ++ text)

/-- The bytes of groups; the last one may be a dotted IPv4 address. -/
def groups? : List Bytes -> Option (List UInt8)
  | [] => some []
  | [last] =>
      match pton4 last with
      | some q => some q.toList
      | none => group? last
  | text :: rest => do
      let front <- group? text
      let back <- groups? rest
      pure (front ++ back)

/-- The groups after an empty piece; at either end of the text it is written twice. -/
def afterGap (front : List Bytes) : List Bytes -> Option (List Bytes)
  | [[]] => if front = [] then none else some []
  | [[], []] => if front = [] then some [] else none
  | [] :: rest => if front = [] then some rest else none
  | rest => if front = [] then none else some rest

def pieces? (pieces : List Bytes) : Option Ip6 :=
  let front := pieces.takeWhile fun text => !text.isEmpty
  match pieces.dropWhile fun text => !text.isEmpty with
  | [] => (groups? pieces).bind (sized 16)
  | _ :: rest => do
      let back <- afterGap front rest
      let low <- front.mapM group?
      let high <- groups? back
      let zeros := 16 - low.flatten.length - high.length
      if zeros = 0 then none else sized 16 (low.flatten ++ List.replicate zeros 0 ++ high)

def pton6 (text : Bytes) : Option Ip6 := pieces? (text.splitOn colon)

/-- The number of zero groups at the front. -/
def zeroRun : List UInt8 -> Nat
  | 0 :: 0 :: rest => zeroRun rest + 1
  | _ => 0

/-- Where the longest run of zero groups starts; the first one of several. -/
def longestRun (bytes : List UInt8) : Nat :=
  (List.range 8).foldl
    (fun best i =>
      if zeroRun (bytes.drop (2 * best)) < zeroRun (bytes.drop (2 * i)) then i else best) 0

/-- The pieces around a gap. -/
def gapPieces (front back : List Bytes) : List Bytes :=
  (if front = [] then [[]] else front) ++ [[]] ++ (if back = [] then [[]] else back)

def piecesOf (b : Ip6) : List Bytes :=
  let bytes := b.toList
  if isMapped b then gapPieces [] [ascii "ffff", dotted (quadOf b)]
  else if (bytes.take 12).all (· == 0) && !(bytes.drop 12).take 2 == [0, 0] then
    gapPieces [] [dotted (quadOf b)]
  else
    let start := longestRun bytes
    let run := zeroRun (bytes.drop (2 * start))
    if 2 ≤ run then
      gapPieces (hexGroups.groups (bytes.take (2 * start)))
        (hexGroups.groups (bytes.drop (2 * start + 2 * run)))
    else hexGroups.groups bytes

def ntop6 (b : Ip6) : Option Bytes := some ([colon].intercalate (piecesOf b))

def inet : Inet where
  pton4 := pton4
  pton6 := pton6
  ntop6 := ntop6
  pton4_dotted := fun q => by rw [(dotted_plain q).cStr, pton4_dotted]

/-!
## Groups
-/

theorem groupText_pad {digits : Bytes} (hlen : digits.length = 4) :
    let group := digits.dropWhile (· == '0'.toUInt8)
    let text := if group = [] then ascii "0" else group
    text ≠ [] ∧ text.length ≤ 4 ∧
      List.replicate (4 - text.length) '0'.toUInt8 ++ text = digits := by
  intro group text
  have hsplit : digits.takeWhile (· == '0'.toUInt8) ++ group = digits :=
    List.takeWhile_append_dropWhile
  have hzeros : digits.takeWhile (· == '0'.toUInt8) =
      List.replicate (digits.takeWhile (· == '0'.toUInt8)).length '0'.toUInt8 := by
    rw [List.eq_replicate_iff]
    constructor
    · rfl
    · intro c hc
      have hzero := List.mem_takeWhile_imp (p := fun x => x == '0'.toUInt8) hc
      exact beq_iff_eq.mp hzero
  have htotal := congrArg List.length hsplit
  rw [List.length_append, hlen] at htotal
  by_cases hnil : group = []
  · have htext : text = ascii "0" := if_pos hnil
    rw [hnil, List.length_nil, Nat.add_zero] at htotal
    rw [hnil, List.append_nil] at hsplit
    rw [htotal] at hzeros
    rw [htext]
    refine ⟨by decide, by decide, ?_⟩
    calc
      List.replicate (4 - (ascii "0").length) '0'.toUInt8 ++ ascii "0" =
          List.replicate 4 '0'.toUInt8 := rfl
      _ = digits.takeWhile (· == '0'.toUInt8) := hzeros.symm
      _ = digits := hsplit
  · have htext : text = group := if_neg hnil
    rw [htext]
    refine ⟨hnil, by omega, ?_⟩
    rw [show 4 - group.length = (digits.takeWhile (· == '0'.toUInt8)).length by omega, ← hzeros]
    exact hsplit

/-- A group that is printed is read back. -/
theorem group?_groupText (a b : UInt8) :
    let group := (hexOf [a, b]).dropWhile (· == '0'.toUInt8)
    let text := if group = [] then ascii "0" else group
    text ≠ [] ∧ group? text = some [a, b] := by
  intro group text
  rcases groupText_pad (hexOf_length [a, b]) with ⟨hne, hlen, hpad⟩
  refine ⟨hne, ?_⟩
  unfold group?
  rw [if_neg, hpad]
  · exact hexBytes_hexOf (List.cons_ne_nil _ _)
  · rw [not_or, not_lt]
    exact ⟨hne, hlen⟩

theorem groups_cons (a b : UInt8) (rest : List UInt8) :
    exists text, hexGroups.groups (a :: b :: rest) = text :: hexGroups.groups rest ∧
      text ≠ [] ∧ group? text = some [a, b] := by
  rcases group?_groupText a b with ⟨hne, hgroup⟩
  exact ⟨_, rfl, hne, hgroup⟩

theorem mem_groups_ne_nil {bytes : List UInt8} {text : Bytes} (h : text ∈ hexGroups.groups bytes) :
    text ≠ [] := by
  induction bytes using hexGroups.groups.induct with
  | case1 a b rest ih =>
      rcases groups_cons a b rest with ⟨text', heq, hne, _⟩
      rw [heq] at h
      rcases List.mem_cons.mp h with h | h
      · rw [h]
        exact hne
      · exact ih h
  | case2 bytes hbytes =>
      rw [hexGroups.groups] at h
      · cases h
      · exact hbytes

theorem groups_char {bytes : List UInt8} {text : Bytes} (h : text ∈ hexGroups.groups bytes) :
    colon ∉ text ∧ point ∉ text := by
  constructor
  · intro hc
    exact absurd (mem_groups h hc) (by decide)
  · intro hc
    exact absurd (mem_groups h hc) (by decide)

theorem mapM_group? {bytes : List UInt8} (heven : bytes.length % 2 = 0) :
    exists low, (hexGroups.groups bytes).mapM group? = some low ∧ low.flatten = bytes := by
  induction bytes using hexGroups.groups.induct with
  | case1 a b rest ih =>
      have hrest : rest.length % 2 = 0 := by
        rw [List.length_cons, List.length_cons] at heven
        omega
      rcases ih hrest with ⟨low, hlow, hflat⟩
      rcases groups_cons a b rest with ⟨text, heq, _, hgroup⟩
      refine ⟨[a, b] :: low, ?_, ?_⟩
      · rw [heq, List.mapM_cons, hgroup, hlow]
        rfl
      · rw [List.flatten_cons, hflat]
        rfl
  | case2 bytes hbytes =>
      cases bytes with
      | nil => exact ⟨[], rfl, rfl⟩
      | cons a bytes =>
          cases bytes with
          | nil => cases heven
          | cons b rest => exact absurd rfl (hbytes a b rest)

theorem groups?_cons {text : Bytes} (hpoint : point ∉ text) (rest : List Bytes) :
    groups? (text :: rest) = (do
      let front <- group? text
      let back <- groups? rest
      pure (front ++ back)) := by
  cases rest with
  | nil =>
      have hlast : groups? [text] = group? text := by
        unfold groups?
        rw [pton4_none hpoint]
      rw [hlast, groups?]
      cases group? text with
      | none => rfl
      | some front =>
          show some front = some (front ++ [])
          rw [List.append_nil]
  | cons text' rest => rw [groups?]; simp

theorem groups?_groups {bytes : List UInt8} (heven : bytes.length % 2 = 0) :
    groups? (hexGroups.groups bytes) = some bytes := by
  induction bytes using hexGroups.groups.induct with
  | case1 a b rest ih =>
      have hrest : rest.length % 2 = 0 := by
        rw [List.length_cons, List.length_cons] at heven
        omega
      rcases groups_cons a b rest with ⟨text, heq, _, hgroup⟩
      have hmem : text ∈ hexGroups.groups (a :: b :: rest) := by
        rw [heq]
        exact List.mem_cons_self
      have hpoint : point ∉ text := (groups_char hmem).2
      rw [heq, groups?_cons hpoint, hgroup, ih hrest]
      rfl
  | case2 bytes hbytes =>
      cases bytes with
      | nil => rfl
      | cons a bytes =>
          cases bytes with
          | nil => cases heven
          | cons b rest => exact absurd rfl (hbytes a b rest)

/-!
## Pieces
-/

theorem afterGap_gapPieces {front back : List Bytes} (hback : forall text, text ∈ back -> text ≠ [])
    (rest : List Bytes)
    (h : [] :: rest = (if front = [] then [[], []] else [[]]) ++
      (if back = [] then [[]] else back)) :
    afterGap front rest = some back := by
  by_cases hfront : front = []
  · rw [if_pos hfront, List.cons_append, List.cons_append, List.nil_append] at h
    injection h with _ h
    subst h
    match back, hback with
    | [], _ => simp [afterGap, hfront]
    | [text], hback =>
        have hne := hback text List.mem_cons_self
        cases text with
        | nil => exact absurd rfl hne
        | cons c text => simp [afterGap, hfront]
    | text :: text' :: back, _ => simp [afterGap, hfront]
  · rw [if_neg hfront, List.cons_append, List.nil_append] at h
    injection h with _ h
    subst h
    match back, hback with
    | [], _ => simp [afterGap, hfront]
    | text :: back, hback =>
        have hne := hback text List.mem_cons_self
        cases text with
        | nil => exact absurd rfl hne
        | cons c text => simp [afterGap, hfront]

theorem gapPieces_front {front back : List Bytes}
    (hfront : forall text, text ∈ front -> text ≠ []) :
    (gapPieces front back).takeWhile (fun text => !text.isEmpty) = front ∧
      (gapPieces front back).dropWhile (fun text => !text.isEmpty) =
        (if front = [] then [[], []] else [[]]) ++ (if back = [] then [[]] else back) := by
  have hall : forall text, text ∈ front -> (!text.isEmpty) = true := by
    intro text htext
    have hne := hfront text htext
    cases text with
    | nil => exact absurd rfl hne
    | cons c text => rfl
  unfold gapPieces
  by_cases hnil : front = []
  · simp [hnil]
  · rw [if_neg hnil, if_neg hnil, List.append_assoc, List.takeWhile_append_of_pos hall,
      List.dropWhile_append_of_pos hall]
    simp

/-- What the pieces around a gap spell. -/
theorem pieces?_gapPieces {front back : List Bytes}
    (hfront : forall text, text ∈ front -> text ≠ [])
    (hback : forall text, text ∈ back -> text ≠ []) {low : List (List UInt8)} {high : List UInt8}
    (hlow : front.mapM group? = some low) (hhigh : groups? back = some high)
    (hlen : low.flatten.length + high.length < 16) :
    pieces? (gapPieces front back) =
      sized 16
        (low.flatten ++ List.replicate (16 - low.flatten.length - high.length) 0 ++ high) := by
  rcases @gapPieces_front front back hfront with ⟨htake, hdrop⟩
  unfold pieces?
  simp only [htake]
  have hhead : exists rest, (if front = [] then [[], []] else [[]]) ++
      (if back = [] then [[]] else back) = [] :: rest := by
    split_ifs
    · exact ⟨_, rfl⟩
    · exact ⟨_, rfl⟩
    · exact ⟨_, rfl⟩
    · exact ⟨_, rfl⟩
  rcases hhead with ⟨rest, hrest⟩
  rw [hdrop, hrest]
  simp only [afterGap_gapPieces hback rest hrest.symm, hlow, hhigh, Option.bind_eq_bind,
    Option.bind_some]
  rw [if_neg (by omega)]

/-!
## Runs of zero groups
-/

theorem zeroRun_split (bytes : List UInt8) :
    bytes = List.replicate (2 * zeroRun bytes) 0 ++ bytes.drop (2 * zeroRun bytes) := by
  induction bytes using zeroRun.induct with
  | case1 rest ih =>
      rw [zeroRun, Nat.mul_succ, List.replicate_succ, List.replicate_succ, List.drop_succ_cons,
        List.drop_succ_cons, List.cons_append, List.cons_append, ← ih]
  | case2 bytes hbytes =>
      have hzero : zeroRun bytes = 0 := by
        rw [zeroRun]
        exact hbytes
      rw [hzero]
      rfl

/-- The bytes before a run of zeros, the zeros, and the bytes after it. -/
theorem gap_split (bytes : List UInt8) (start : Nat) :
    bytes = bytes.take (2 * start) ++
      List.replicate (2 * zeroRun (bytes.drop (2 * start))) 0 ++
      bytes.drop (2 * start + 2 * zeroRun (bytes.drop (2 * start))) := by
  have hsplit := zeroRun_split (bytes.drop (2 * start))
  rw [List.drop_drop] at hsplit
  rw [List.append_assoc, ← hsplit, List.take_append_drop]

/-!
## Reading what is printed
-/

theorem gapPieces_chars {front back : List Bytes} {P : UInt8 -> Prop}
    (hfront : forall text, text ∈ front -> forall c, c ∈ text -> P c)
    (hback : forall text, text ∈ back -> forall c, c ∈ text -> P c) :
    forall text, text ∈ gapPieces front back -> forall c, c ∈ text -> P c := by
  intro text htext c hc
  have hempty : text ∉ [([] : Bytes)] := by
    intro h
    rw [List.mem_singleton.mp h] at hc
    cases hc
  unfold gapPieces at htext
  rcases List.mem_append.mp htext with htext | htext
  · rcases List.mem_append.mp htext with htext | htext
    · split_ifs at htext
      · exact absurd htext hempty
      · exact hfront text htext c hc
    · exact absurd htext hempty
  · split_ifs at htext
    · exact absurd htext hempty
    · exact hback text htext c hc

/-- The pieces of a printed address hold hexadecimal digits and points. -/
theorem piecesOf_chars (b : Ip6) :
    forall text, text ∈ piecesOf b -> forall c, c ∈ text -> isHexLower c = true ∨ c = point := by
  have hnone : forall text, text ∈ ([] : List Bytes) ->
      forall c, c ∈ text -> isHexLower c = true ∨ c = point := fun _ h => by cases h
  have hdotted : forall c, c ∈ dotted (quadOf b) -> isHexLower c = true ∨ c = point := by
    intro c hc
    rcases mem_dotted hc with hc | hc
    · exact Or.inl (digit_char hc)
    · exact Or.inr hc
  have hones : forall c, c ∈ ascii "ffff" -> isHexLower c = true ∨ c = point := by decide
  have hgroups : forall (bytes : List UInt8) text, text ∈ hexGroups.groups bytes ->
      forall c, c ∈ text -> isHexLower c = true ∨ c = point :=
    fun bytes text htext c hc => Or.inl (mem_groups htext hc)
  unfold piecesOf
  simp only
  split_ifs
  · apply gapPieces_chars hnone
    intro text htext
    rcases List.mem_pair.mp htext with htext | htext
    · rw [htext]
      exact hones
    · rw [htext]
      exact hdotted
  · apply gapPieces_chars hnone
    intro text htext
    rw [List.mem_singleton.mp htext]
    exact hdotted
  · exact gapPieces_chars (hgroups _) (hgroups _)
  · exact hgroups _

theorem groups_ne_nil {bytes : List UInt8} (h : 2 ≤ bytes.length) :
    hexGroups.groups bytes ≠ [] := by
  match bytes, h with
  | a :: b :: rest, _ =>
      rcases groups_cons a b rest with ⟨text, heq, _⟩
      rw [heq]
      exact List.cons_ne_nil _ _

theorem gapPieces_ne_nil (front back : List Bytes) : gapPieces front back ≠ [] := by
  unfold gapPieces
  simp

theorem piecesOf_splitOn (b : Ip6) :
    ([colon].intercalate (piecesOf b)).splitOn colon = piecesOf b := by
  apply List.splitOn_intercalate
  · intro text htext hmem
    exact absurd (piecesOf_chars b text htext colon hmem) (by decide)
  · unfold piecesOf
    simp only
    split_ifs
    · exact gapPieces_ne_nil _ _
    · exact gapPieces_ne_nil _ _
    · exact gapPieces_ne_nil _ _
    · exact groups_ne_nil (by simp)

theorem quadOf_drop (b : Ip6) : (quadOf b).toList = b.toList.drop 12 := by
  rw [List.drop_eq_getElem_cons (by simp), List.drop_eq_getElem_cons (by simp),
    List.drop_eq_getElem_cons (by simp), List.drop_eq_getElem_cons (by simp),
    List.drop_eq_nil_of_le (by simp)]
  rfl

theorem sized_of_toList {b : Ip6} {bytes : List UInt8} (h : bytes = b.toList) :
    sized 16 bytes = some b := by
  rw [h]
  exact sized_toList b

theorem groups?_dotted (q : Ip4) : groups? [dotted q] = some q.toList := by
  unfold groups?
  rw [pton4_dotted]

theorem groups?_mapped (q : Ip4) :
    groups? [ascii "ffff", dotted q] = some (0xff :: 0xff :: q.toList) := by
  have hones : group? (ascii "ffff") = some [0xff, 0xff] := by decide
  rw [groups?_cons (by decide), hones, groups?_dotted]
  rfl

theorem dotted_ne_nil (q : Ip4) : dotted q ≠ [] := List.ne_nil_of_mem (point_mem_dotted q)

/-- Groups with a run of zeros left out. -/
theorem pieces?_gap {b : Ip6} {start : Nat} (hrun : 2 ≤ zeroRun (b.toList.drop (2 * start))) :
    pieces? (gapPieces (hexGroups.groups (b.toList.take (2 * start)))
      (hexGroups.groups
        (b.toList.drop (2 * start + 2 * zeroRun (b.toList.drop (2 * start)))))) = some b := by
  have hsplit := gap_split b.toList start
  generalize hzeros : zeroRun (b.toList.drop (2 * start)) = run at hrun hsplit ⊢
  have hlen := congrArg List.length hsplit
  simp only [List.length_append, List.length_replicate, Vector.length_toList] at hlen
  have hfront : (b.toList.take (2 * start)).length % 2 = 0 := by
    rw [List.length_take, Vector.length_toList]
    omega
  have hback : (b.toList.drop (2 * start + 2 * run)).length % 2 = 0 := by
    omega
  rcases mapM_group? hfront with ⟨low, hlow, hflat⟩
  rw [pieces?_gapPieces (fun _ h => mem_groups_ne_nil h) (fun _ h => mem_groups_ne_nil h) hlow
    (groups?_groups hback) (by rw [hflat]; omega)]
  apply sized_of_toList
  rw [hflat, show 16 - (b.toList.take (2 * start)).length -
    (b.toList.drop (2 * start + 2 * run)).length = 2 * run by omega]
  exact hsplit.symm

/-- An address is read back from its pieces. -/
theorem pieces?_piecesOf (b : Ip6) : pieces? (piecesOf b) = some b := by
  unfold piecesOf
  simp only
  split_ifs with hmapped hcompat hrun
  · have hne : forall text, text ∈ [ascii "ffff", dotted (quadOf b)] -> text ≠ [] := by
      intro text htext
      rcases List.mem_pair.mp htext with htext | htext
      · rw [htext]
        decide
      · rw [htext]
        exact dotted_ne_nil _
    rw [pieces?_gapPieces (fun _ h => by cases h) hne rfl (groups?_mapped (quadOf b)) (by simp)]
    apply sized_of_toList
    have hlist := mappedOf_toList (quadOf b)
    rw [mappedOf_quadOf hmapped] at hlist
    rw [hlist]
    simp
  · rw [Bool.and_eq_true] at hcompat
    have hzeros : b.toList.take 12 = List.replicate 12 0 := by
      rw [List.eq_replicate_iff]
      constructor
      · simp
      · intro c hc
        exact beq_iff_eq.mp (List.all_eq_true.mp hcompat.1 c hc)
    have hne : forall text, text ∈ [dotted (quadOf b)] -> text ≠ [] := by
      intro text htext
      rw [List.mem_singleton.mp htext]
      exact dotted_ne_nil _
    rw [pieces?_gapPieces (fun _ h => by cases h) hne rfl (groups?_dotted (quadOf b)) (by simp)]
    apply sized_of_toList
    calc
      ([] : List (List UInt8)).flatten ++
          List.replicate
            (16 - ([] : List (List UInt8)).flatten.length - (quadOf b).toList.length) 0 ++
          (quadOf b).toList = List.replicate 12 0 ++ (quadOf b).toList := by simp
      _ = b.toList := by rw [← hzeros, quadOf_drop, List.take_append_drop]
  · exact pieces?_gap hrun
  · have hall : forall text, text ∈ hexGroups.groups b.toList -> (!text.isEmpty) = true := by
      intro text htext
      have hne := mem_groups_ne_nil htext
      cases text with
      | nil => exact absurd rfl hne
      | cons c text => rfl
    unfold pieces?
    rw [List.dropWhile_eq_nil_iff.mpr hall, groups?_groups (by simp)]
    exact sized_toList b

theorem pton6_ntop6 {b : Ip6} {text : Bytes} (h : ntop6 b = some text) : pton6 text = some b := by
  injection h with h
  unfold pton6
  rw [← h, piecesOf_splitOn, pieces?_piecesOf]

/-!
## What the library documents holds
-/

theorem hexBytes_length {text : Bytes} {bytes : List UInt8} (h : hexBytes.pairs text = some bytes) :
    text.length = 2 * bytes.length := by
  induction text using hexBytes.pairs.induct generalizing bytes with
  | case1 =>
      injection h with h
      rw [← h]
      rfl
  | case2 c => cases h
  | case3 x y rest ih =>
      rw [hexBytes.pairs] at h
      simp only [Option.bind_eq_bind, Option.bind_eq_some_iff] at h
      rcases h with ⟨_, _, _, _, bytes', hbytes', hpure⟩
      injection hpure with hpure
      rw [← hpure, List.length_cons, List.length_cons, List.length_cons, ih hbytes']
      omega

/-- One piece is too short for an address. -/
theorem pieces?_single (text : Bytes) : pieces? [text] = none := by
  cases text with
  | nil => rfl
  | cons c text =>
      have hgroups : pieces? [c :: text] = (groups? [c :: text]).bind (sized 16) := rfl
      rw [hgroups]
      unfold groups?
      cases pton4 (c :: text) with
      | some q =>
          apply sized_ne
          simp
      | none =>
          show (group? (c :: text)).bind (sized 16) = none
          unfold group?
          by_cases hlong : c :: text = [] ∨ 4 < (c :: text).length
          · rw [if_pos hlong]
            rfl
          · rw [if_neg hlong, hexBytes_pairs (by simp)]
            rw [not_or, not_lt] at hlong
            cases hpairs :
                hexBytes.pairs
                  (List.replicate (4 - (c :: text).length) '0'.toUInt8 ++ c :: text) with
            | none => rfl
            | some bytes =>
                have hlen := hexBytes_length hpairs
                rw [List.length_append, List.length_replicate] at hlen
                apply sized_ne
                omega

theorem pton6_colon {text : Bytes} {b : Ip6} (h : pton6 text = some b) : colon ∈ text := by
  by_contra hnone
  have hsplit : text.splitOn colon = [text] := by
    have hself : ([colon].intercalate [text]).splitOn colon = [text] := by
      apply List.splitOn_intercalate
      · intro piece hpiece
        rw [List.mem_singleton.mp hpiece]
        exact hnone
      · exact List.cons_ne_nil _ _
    rw [List.intercalate_singleton] at hself
    exact hself
  unfold pton6 at h
  rw [hsplit, pieces?_single] at h
  cases h

theorem groupsText_eq (q : Ip4) :
    groupsText q =
      [colon].intercalate (gapPieces [] (ascii "ffff" :: hexGroups.groups q.toList)) := by
  have hne : hexGroups.groups q.toList ≠ [] := groups_ne_nil (by simp)
  have hpieces : gapPieces [] (ascii "ffff" :: hexGroups.groups q.toList) =
      [] :: [] :: ascii "ffff" :: hexGroups.groups q.toList := rfl
  rw [hpieces, List.intercalate_cons_cons, List.intercalate_cons_cons,
    List.intercalate_cons_of_ne_nil hne]
  rfl

theorem pton6_groupsText (q : Ip4) : pton6 (groupsText q) = some (mappedOf q) := by
  have hones : group? (ascii "ffff") = some [0xff, 0xff] := by decide
  have hback : forall text, text ∈ ascii "ffff" :: hexGroups.groups q.toList -> text ≠ [] := by
    rw [List.forall_mem_cons]
    exact ⟨by decide, fun _ h => mem_groups_ne_nil h⟩
  have hsplit : (groupsText q).splitOn colon =
      gapPieces [] (ascii "ffff" :: hexGroups.groups q.toList) := by
    rw [groupsText_eq]
    apply List.splitOn_intercalate
    · intro text htext hmem
      have hhex : forall text, text ∈ ascii "ffff" :: hexGroups.groups q.toList ->
          forall c, c ∈ text -> isHexLower c = true := by
        rw [List.forall_mem_cons]
        exact ⟨by decide, fun _ h _ hc => mem_groups h hc⟩
      have hcolon := gapPieces_chars (fun _ h => by cases h) hhex text htext colon hmem
      exact absurd hcolon (by decide)
    · exact gapPieces_ne_nil _ _
  have hgroups : groups? (ascii "ffff" :: hexGroups.groups q.toList) =
      some (0xff :: 0xff :: q.toList) := by
    rw [groups?_cons (by decide), hones, groups?_groups (by simp)]
    rfl
  unfold pton6
  rw [hsplit, pieces?_gapPieces (fun _ h => by cases h) hback rfl hgroups (by simp)]
  apply sized_of_toList
  rw [mappedOf_toList]
  simp

theorem inet_standard : inet.Standard where
  pton4_chars := fun text q h c hc => by
    rw [dotted_of_pton4 h] at hc
    exact mem_dotted hc
  pton4_point := fun text q h => by
    rw [dotted_of_pton4 h]
    exact point_mem_dotted q
  pton6_colon := fun text b h => pton6_colon h
  ntop6_chars := fun b text h c hc => by
    injection h with h
    rw [← h] at hc
    rcases mem_intercalate hc with hc | ⟨piece, hpiece, hc⟩
    · exact Or.inr (Or.inl (List.mem_singleton.mp hc))
    · rcases piecesOf_chars b piece hpiece c hc with hc | hc
      · exact Or.inl hc
      · exact Or.inr (Or.inr hc)
  pton6_ntop6 := fun b text h => pton6_ntop6 h
  ntop6_loopback := fun b text h hlist => by
    have hb : b = (#v[0, 0, 0, 0, 0, 0, 0, 0, 0, 0, 0, 0, 0, 0, 0, 1] : Ip6) :=
      Vector.toList_inj.mp hlist
    subst hb
    injection h with h
    rw [← h]
    decide +kernel
  pton6_groups := pton6_groupsText

end InetText
end Capture
end Ostia
