import Ostia.Capture.DerivedClosure
import Ostia.Capture.InetText

/-!
# When one expansion is enough

The expansion goes through the entries that were there before it.  It reaches its fixed point
exactly when the three places where an entry gives only some forms of an address are covered
by other entries.
-/

namespace Ostia
namespace Capture

open Bytes

section Condition

variable (inet : Inet)

/-- The port GUID in an IPoIB address. -/
def RawEntry.portGuid (e : RawEntry) : Option (Vector UInt8 8) :=
  match e.mode with
  | .hex => ((hexBytes e.needle).bind (sized 20)).map guidOf
  | .token => none

def RawSet.HasHex (raw : RawSet) (a : Ip6) : Prop :=
  exists e, e ∈ raw.entries ∧ e.names inet = some a

/-- An entry is the printed text of the address, or names it in hexadecimal digits. -/
def RawSet.HasText (raw : RawSet) (a : Ip6) : Prop :=
  exists e, e ∈ raw.entries ∧
    (e.key = (.token, ipv6Text inet a) ∨ (e.mode = .hex ∧ e.names inet = some a))

/-- An entry is the dotted text of the address, or names its mapped address. -/
def RawSet.HasDotted (raw : RawSet) (q : Ip4) : Prop :=
  exists e, e ∈ raw.entries ∧
    (e.key = (.token, dotted q) ∨
      (e.names inet = some (mappedOf q) ∧ ¬ (e.kind = .ipv4 ∧ isDroppedIpv4 q = true)))

def Short (text : Bytes) : Prop := text.length < kMinNeedle

/--
What other entries have to cover: the link-local GID of each GUID in an IPoIB address, the
printed text of each IPv6 address, and the dotted text of each IPv4 address.  A mapped address
gives all its spellings by itself.
-/
structure RawSet.Covered (raw : RawSet) : Prop where
  guid : forall e, e ∈ raw.entries -> forall id, e.portGuid = some id -> ¬ Uniform id.toList ->
    raw.HasHex inet (linkLocal id) ∧
      (Short (ipv6Text inet (linkLocal id)) ∨ raw.HasText inet (linkLocal id))
  text : forall e, e ∈ raw.entries -> e.mode = .token -> forall a, e.names inet = some a ->
    isMapped a = false -> ¬ Uniform a.toList ->
    Short (ipv6Text inet a) ∨ raw.HasText inet a
  /-- A loopback address is dropped with the kind of an earlier entry that spells it mapped. -/
  quad : forall before e after, raw.entries = before ++ e :: after -> e.mode = .token ->
    forall q, parseIpv4 inet e.needle = some q ->
    raw.HasDotted inet q ∨
      (isDroppedIpv4 q = true ∧
        exists e', e' ∈ before ∧ e'.kind = .ipv4 ∧ e'.names inet = some (mappedOf q))

/-- A second expansion adds no entry. -/
def Fixed (raw : RawSet) : Prop :=
  (expandDerived inet (expandDerived inet raw)).entries = (expandDerived inet raw).entries

/-- The set that values make, each added with the default mode of its kind. -/
def addValues (values : List (IdKind × Bytes)) : RawSet :=
  values.foldl (fun raw v => raw.add inet v.1 v.2) RawSet.empty

end Condition

/-!
## Entries of values
-/

section Entries

variable {inet : Inet}

/-- What is known of the entries that address values make. -/
structure RawEntry.OfAddress (inet : Inet) (e : RawEntry) : Prop where
  kind : e.kind.isAddress = true
  mode : e.mode = defaultMode e.kind
  kept : e.kind = .ipv4 -> forall q, parseIpv4 inet e.needle = some q -> isDroppedIpv4 q = false

theorem cStr_lowered (text : Bytes) : cStr (lowered text) = lowered (cStr text) := by
  have hzero : forall c, (lower c != 0) = (c != 0) := by
    apply forall_byte
    decide +kernel
  unfold cStr lowered
  rw [List.takeWhile_map]
  congr 2
  funext c
  exact hzero c

theorem ofAddress_of_entered (hstd : inet.Standard) {kind : IdKind} (hkind : kind.isAddress = true)
    {value : Bytes} {e : RawEntry} (hk : e.kind = kind) (hm : e.mode = defaultMode kind)
    (h : entered inet kind value (defaultMode kind) = some e.needle) : e.OfAddress inet := by
  refine ⟨by rw [hk]; exact hkind, by rw [hm, hk], ?_⟩
  intro h4 q hq
  rw [hk] at h4
  subst h4
  unfold entered at h
  simp only at h
  split_ifs at h with hdropped
  injection h with hneedle
  -- The digits and points of an address are not changed by lowering.
  have hlower : forall c, isDigit (lower c) = true ∨ lower c = '.'.toUInt8 -> lower c = c := by
    apply forall_byte
    decide +kernel
  unfold parseIpv4 at hq
  rw [← hneedle] at hq
  change inet.pton4 (cStr (lowered (trimmed value))) = some q at hq
  have hsame : cStr (lowered (trimmed value)) = cStr (trimmed value) := by
    rw [cStr_lowered] at hq ⊢
    unfold lowered at hq ⊢
    rw [List.map_congr_left (g := id), List.map_id]
    intro c hc
    exact hlower c (hstd.pton4_chars _ q hq (lower c) (List.mem_map_of_mem hc))
  rw [hsame] at hq
  unfold isDropped parseIpv4 at hdropped
  rw [hq] at hdropped
  simpa using hdropped

theorem addValues_ofAddress (hstd : inet.Standard) {values : List (IdKind × Bytes)}
    (h : forall v, v ∈ values -> v.1.isAddress = true) {e : RawEntry}
    (he : e ∈ (addValues inet values).entries) : e.OfAddress inet := by
  have hrun : forall (vs : List (IdKind × Bytes)) (raw : RawSet),
      (forall v, v ∈ vs -> v.1.isAddress = true) ->
      (forall e, e ∈ raw.entries -> e.OfAddress inet) ->
      forall e, e ∈ (vs.foldl (fun raw v => raw.add inet v.1 v.2) raw).entries ->
        e.OfAddress inet := by
    intro vs
    induction vs with
    | nil => exact fun raw _ hraw => hraw
    | cons v vs ih =>
        intro raw hvs hraw
        apply ih
        · exact fun v' hv' => hvs v' (List.mem_cons_of_mem v hv')
        · intro e he
          rcases mem_addAs.mp he with he | ⟨_, hkind, hmode, hentered⟩
          · exact hraw e he
          · exact ofAddress_of_entered hstd (hvs v List.mem_cons_self) hkind hmode hentered
  exact hrun values RawSet.empty h (fun e he => by cases he) e he

/-!
## Where a form comes from
-/

/-- The address, GUID or quad of an entry that a form spells. -/
inductive Source (inet : Inet) (e : RawEntry) (f : Form) : Prop where
  | address (a : Ip6) (names : e.names inet = some a) (mem : f ∈ addressForms inet a)
  | eui (b : Vector UInt8 6)
      (forms : forms inet e = hexForm (euiOf b) :: addressForms inet (linkLocal (euiOf b)))
      (eq : f = hexForm (euiOf b))
  | guid (id : Vector UInt8 8) (port : e.portGuid = some id) (eq : f = hexForm id)
  | quad (q : Ip4) (mode : e.mode = .token) (parse : parseIpv4 inet e.needle = some q)
      (mem : f ∈ quadForms inet q)

theorem forms_source {e : RawEntry} {f : Form} (hf : f ∈ forms inet e) : Source inet e f := by
  cases hmode : e.mode with
  | hex =>
      have hforms : forms inet e = (hexBytes e.needle).elim [] (bytesForms inet) := by
        unfold forms
        rw [hmode]
      have hnames : e.names inet = (hexBytes e.needle).bind gidOf := by
        unfold RawEntry.names
        rw [hmode]
      rw [hforms] at hf
      cases hbytes : hexBytes e.needle with
      | none =>
          rw [hbytes] at hf
          cases hf
      | some bytes =>
          rw [hbytes] at hf hnames hforms
          change f ∈ bytesForms inet bytes at hf
          change e.names inet = gidOf bytes at hnames
          change forms inet e = bytesForms inet bytes at hforms
          cases @bytesForms_cases inet bytes with
          | mac b names list =>
              rw [list] at hf
              rcases List.mem_cons.mp hf with hf | hf
              · exact Source.eui b (hforms.trans list) hf
              · exact Source.address _ (hnames.trans names) hf
          | guid b names list =>
              rw [list] at hf
              exact Source.address _ (hnames.trans names) hf
          | gid a names list =>
              rw [list] at hf
              exact Source.address _ (hnames.trans names) (List.mem_cons_of_mem _ hf)
          | ipoib b names list =>
              rw [list] at hf
              rcases List.mem_append.mp hf with hf | hf
              · exact Source.address _ (hnames.trans names) hf
              · refine Source.guid (guidOf b) ?_ (List.mem_singleton.mp hf)
                unfold RawEntry.portGuid
                rw [hmode, hbytes]
                simp only [Option.bind_some, sized_toList, Option.map_some]
          | other _ names list =>
              rw [list] at hf
              cases hf
  | token =>
      cases h4 : parseIpv4 inet e.needle with
      | some q =>
          rw [forms_quad hmode h4] at hf
          exact Source.quad q hmode h4 hf
      | none =>
          cases h6 : parseIpv6 inet e.needle with
          | some a =>
              have hnames : e.names inet = some a := by rw [names_token hmode h4, h6]
              rw [forms_token hmode hnames] at hf
              apply Source.address a hnames
              rcases List.mem_cons.mp hf with rfl | hf
              · exact List.mem_cons_self
              · exact List.mem_cons_of_mem _ (List.mem_cons_of_mem _ hf)
          | none =>
              rw [forms_token_none hmode h4 h6] at hf
              cases hf

/-!
## What entries give
-/

variable (inet) in
/-- The keys of the set after one expansion. -/
def RawSet.Given (raw : RawSet) (key : MatchMode × Bytes) : Prop :=
  key ∈ raw.seen ∨ exists e, e ∈ raw.entries ∧ e.Gives inet key

/-- A hex entry gives every spelling of the address that it names. -/
theorem given_of_hex {raw : RawSet} {e : RawEntry} (he : e ∈ raw.entries) (hmode : e.mode = .hex)
    {a : Ip6} (hnames : e.names inet = some a) {g : Form} (hg : g ∈ addressForms inet a)
    {key : MatchMode × Bytes} (hkey : g.key inet e.kind = some key) : raw.Given inet key := by
  have hgive : g ∈ forms inet e -> raw.Given inet key := fun h => Or.inr ⟨e, he, g, h, hkey⟩
  unfold RawEntry.names at hnames
  rw [hmode] at hnames
  simp only at hnames
  cases hbytes : hexBytes e.needle with
  | none =>
      rw [hbytes] at hnames
      cases hnames
  | some bytes =>
      rw [hbytes, Option.bind_some] at hnames
      have hforms : forms inet e = bytesForms inet bytes := by
        unfold forms
        rw [hmode, hbytes]
        rfl
      have hneedle := hexOf_of_hexBytes (raw.normal e he).lowered hbytes
      cases @bytesForms_cases inet bytes with
      | mac b names list =>
          rw [hnames, Option.some_inj] at names
          subst names
          apply hgive
          rw [hforms, list]
          exact List.mem_cons_of_mem _ hg
      | guid b names list =>
          rw [hnames, Option.some_inj] at names
          subst names
          apply hgive
          rw [hforms, list]
          exact hg
      | gid a' names list =>
          rw [hnames, Option.some_inj] at names
          subst names
          unfold addressForms at hg
          rcases List.mem_cons.mp hg with rfl | hg
          · left
            rw [((hexForm_needle a.toList).key hkey).2]
            apply RawSet.mem_seen.mpr
            refine ⟨e, he, ?_⟩
            unfold RawEntry.key
            rw [hmode, ← hneedle]
          · apply hgive
            rw [hforms, list]
            exact hg
      | ipoib b names list =>
          rw [hnames, Option.some_inj] at names
          subst names
          apply hgive
          rw [hforms, list]
          exact List.mem_append_left _ hg
      | other _ names list =>
          rw [hnames] at names
          cases names

variable (hstd : inet.Standard)

include hstd

theorem isDropped_ipv6Text {kind : IdKind} {a : Ip6} (h : kind = .ipv6 -> isDroppedIpv6 a = false) :
    isDropped inet kind (ipv6Text inet a) = false := by
  by_cases hnil : ipv6Text inet a = []
  · apply isDropped_of_none (parseIpv4_ipv6Text hstd a)
    rw [hnil]
    exact parseIpv6_of_colon hstd (fun c hc => by cases hc) (by decide)
  · unfold isDropped
    rw [parseIpv4_ipv6Text hstd, parseIpv6_ipv6Text hstd hnil]
    cases kind with
    | ipv6 => exact h rfl
    | _ => rfl

theorem isDropped_dotted {kind : IdKind} {q : Ip4} (h : kind = .ipv4 -> isDroppedIpv4 q = false) :
    isDropped inet kind (dotted q) = false := by
  unfold isDropped
  rw [parseIpv4_dotted, parseIpv6_dotted hstd]
  cases kind with
  | ipv4 => exact h rfl
  | _ => rfl

theorem given_of_hasHex {raw : RawSet} {a : Ip6} (h : raw.HasHex inet a) {kind : IdKind}
    {key : MatchMode × Bytes} (hkey : (hexForm a).key inet kind = some key) :
    raw.Given inet key := by
  rcases h with ⟨e, he, hnames⟩
  have hkind : (hexForm a).key inet e.kind = some key :=
    (hexForm_needle a.toList).key_kind (isDropped_hexOf hstd e.kind a.toList) hkey
  cases hmode : e.mode with
  | hex => exact given_of_hex he hmode hnames List.mem_cons_self hkind
  | token =>
      refine Or.inr ⟨e, he, hexForm a, ?_, hkind⟩
      rw [forms_token hmode hnames]
      exact List.mem_cons_self

theorem given_of_hasText {raw : RawSet} (hraw : forall e, e ∈ raw.entries -> e.OfAddress inet)
    {a : Ip6} (h : raw.HasText inet a) {kind : IdKind} {key : MatchMode × Bytes}
    (hkey : (textForm inet a).key inet kind = some key) : raw.Given inet key := by
  have hneedle : (textForm inet a).Needle := token_needle (ipv6Text_plain hstd a)
  rcases h with ⟨e, he, heq | ⟨hmode, hnames⟩⟩
  · left
    rw [(hneedle.key hkey).2]
    exact RawSet.mem_seen.mpr ⟨e, he, heq⟩
  · apply given_of_hex he hmode hnames (List.mem_cons_of_mem _ List.mem_cons_self)
    apply hneedle.key_kind _ hkey
    apply isDropped_ipv6Text hstd
    intro hkind
    have hdefault := (hraw e he).mode
    rw [hmode, hkind] at hdefault
    cases hdefault

theorem given_of_hasDotted {raw : RawSet} {q : Ip4} (h : raw.HasDotted inet q) {kind : IdKind}
    {key : MatchMode × Bytes} (hkey : (dottedForm q).key inet kind = some key) :
    raw.Given inet key := by
  have hneedle : (dottedForm q).Needle := token_needle (dotted_plain q)
  rcases h with ⟨e, he, heq | ⟨hnames, hkept⟩⟩
  · left
    rw [(hneedle.key hkey).2]
    exact RawSet.mem_seen.mpr ⟨e, he, heq⟩
  · have hkind : (dottedForm q).key inet e.kind = some key := by
      apply hneedle.key_kind _ hkey
      apply isDropped_dotted hstd
      intro h4
      rw [← Bool.not_eq_true]
      exact fun hdrop => hkept ⟨h4, hdrop⟩
    have hmem : dottedForm q ∈ mappedForms inet (mappedOf q) := by
      rw [mappedForms_mappedOf]
      exact List.mem_cons_self
    cases hmode : e.mode with
    | hex =>
        exact given_of_hex he hmode hnames
          (List.mem_cons_of_mem _ (List.mem_cons_of_mem _ hmem)) hkind
    | token =>
        refine Or.inr ⟨e, he, dottedForm q, ?_, hkind⟩
        rw [forms_token hmode hnames]
        exact List.mem_cons_of_mem _ hmem

/-!
## What a given key says of the entries
-/

omit hstd in
theorem hexForm_eq {n m : Nat} {a : Vector UInt8 n} {b : Vector UInt8 m}
    (h : hexOf a.toList = hexOf b.toList) : n = m ∧ a.toList = b.toList := by
  have hlist := hexOf_injective h
  have hlen := congrArg List.length hlist
  rw [Vector.length_toList, Vector.length_toList] at hlen
  exact ⟨hlen, hlist⟩

theorem forms_needle {e : RawEntry} {f : Form} (hf : f ∈ forms inet e) : f.Needle := by
  cases forms_source hf with
  | address a _ mem => exact addressForms_needle hstd mem
  | eui b _ eq =>
      rw [eq]
      exact hexForm_needle _
  | guid id _ eq =>
      rw [eq]
      exact hexForm_needle _
  | quad q _ _ mem => exact quadForms_needle hstd mem

/-- The hex spelling of an address is given by an entry that names it or is its IPv4 text. -/
theorem names_of_gives_hex {e : RawEntry} {a : Ip6} (h : e.Gives inet (.hex, hexOf a.toList)) :
    e.names inet = some a ∨
      exists q, e.mode = .token ∧ parseIpv4 inet e.needle = some q ∧ mappedOf q = a := by
  rcases h with ⟨f, hf, hkey⟩
  have heq := ((forms_needle hstd hf).key hkey).2
  injection heq with hmode hvalue
  have hquad : forall q, f ∈ quadForms inet q -> mappedOf q = a := by
    intro q hmem
    unfold quadForms at hmem
    simp only [List.mem_cons, List.not_mem_nil, or_false] at hmem
    rcases hmem with rfl | rfl | rfl | rfl
    · exact Vector.toList_inj.mp (hexForm_eq hvalue).2.symm
    · cases hmode
    · cases hmode
    · cases hmode
  cases forms_source hf with
  | address b names mem =>
      left
      rw [names]
      congr 1
      unfold addressForms at mem
      rcases List.mem_cons.mp mem with rfl | mem
      · exact Vector.toList_inj.mp (hexForm_eq hvalue).2.symm
      · rcases List.mem_cons.mp mem with rfl | mem
        · cases hmode
        · unfold mappedForms at mem
          split_ifs at mem with hmapped
          · rw [← mappedOf_quadOf hmapped]
            rcases List.mem_cons.mp mem with rfl | mem
            · cases hmode
            · exact hquad _ mem
          · cases mem
  | eui b _ eq =>
      rw [eq] at hvalue
      have hlen : 16 = 8 := (hexForm_eq hvalue).1
      exact absurd hlen (by decide)
  | guid id _ eq =>
      rw [eq] at hvalue
      have hlen : 16 = 8 := (hexForm_eq hvalue).1
      exact absurd hlen (by decide)
  | quad q mode parse mem => exact Or.inr ⟨q, mode, parse, hquad q mem⟩

theorem hasHex_of_given {raw : RawSet} {a : Ip6} (hmapped : isMapped a = false)
    (h : raw.Given inet (.hex, hexOf a.toList)) : raw.HasHex inet a := by
  rcases h with hseen | ⟨e, he, hgives⟩
  · rcases RawSet.mem_seen.mp hseen with ⟨e, he, hkey⟩
    rcases needle_eq hkey with ⟨hmode, hneedle⟩
    refine ⟨e, he, ?_⟩
    unfold RawEntry.names
    rw [hmode, hneedle, hexBytes_toList]
    exact gidOf_gid a
  · rcases names_of_gives_hex hstd hgives with hnames | ⟨q, _, _, hq⟩
    · exact ⟨e, he, hnames⟩
    · rw [← hq, isMapped_mappedOf] at hmapped
      cases hmapped

/-- What an IPv4 address gives is no printed text of another address. -/
theorem quadForm_ne_text {q : Ip4} {f : Form} (hf : f ∈ dottedForm q :: quadForms inet q)
    {a : Ip6} (hmapped : isMapped a = false) (hne : ipv6Text inet a ≠ [])
    (heq : (MatchMode.token, ipv6Text inet a) = (f.mode, f.value)) : False := by
  injection heq with hmode hvalue
  have hparse := parseIpv6_ipv6Text hstd hne
  have hnot : mappedOf q ≠ a := by
    intro hq
    rw [← hq, isMapped_mappedOf] at hmapped
    cases hmapped
  unfold quadForms at hf
  simp only [List.mem_cons, List.not_mem_nil, or_false] at hf
  rcases hf with rfl | rfl | rfl | rfl | rfl
  · change ipv6Text inet a = dotted q at hvalue
    rw [hvalue, parseIpv6_dotted hstd] at hparse
    cases hparse
  · cases hmode
  · change ipv6Text inet a = ipv6Text inet (mappedOf q) at hvalue
    rw [hvalue] at hne
    rw [hvalue, parseIpv6_ipv6Text hstd hne, Option.some_inj] at hparse
    exact hnot hparse
  · change ipv6Text inet a = groupsText q at hvalue
    rw [hvalue, parseIpv6_groupsText hstd, Option.some_inj] at hparse
    exact hnot hparse
  · change ipv6Text inet a = dashedText q at hvalue
    rw [hvalue, parseIpv6_dashedText hstd] at hparse
    cases hparse

theorem hasText_of_given {raw : RawSet} {a : Ip6} (hmapped : isMapped a = false)
    (hne : ipv6Text inet a ≠ []) (h : raw.Given inet (.token, ipv6Text inet a)) :
    raw.HasText inet a := by
  rcases h with hseen | ⟨e, he, f, hf, hkey⟩
  · rcases RawSet.mem_seen.mp hseen with ⟨e, he, hkey⟩
    exact ⟨e, he, Or.inl hkey⟩
  · have heq := ((forms_needle hstd hf).key hkey).2
    cases forms_source hf with
    | address b names mem =>
        unfold addressForms at mem
        rcases List.mem_cons.mp mem with rfl | mem
        · injection heq with hmode
          cases hmode
        · rcases List.mem_cons.mp mem with rfl | mem
          · injection heq with _ hvalue
            change ipv6Text inet a = ipv6Text inet b at hvalue
            have hparse := parseIpv6_ipv6Text hstd hne
            rw [hvalue] at hne
            rw [hvalue, parseIpv6_ipv6Text hstd hne, Option.some_inj] at hparse
            subst hparse
            cases hmode : e.mode with
            | hex => exact ⟨e, he, Or.inr ⟨hmode, names⟩⟩
            | token =>
                rw [forms_token hmode names, mappedForms_of_not_mapped hmapped] at hf
                have hmode := congrArg Form.mode (List.mem_singleton.mp hf)
                cases hmode
          · unfold mappedForms at mem
            split_ifs at mem
            · exact absurd heq (fun heq => quadForm_ne_text hstd mem hmapped hne heq)
            · cases mem
    | eui b _ eq =>
        rw [eq] at heq
        injection heq with hmode
        cases hmode
    | guid id _ eq =>
        rw [eq] at heq
        injection heq with hmode
        cases hmode
    | quad q _ _ mem =>
        exact absurd heq (fun heq =>
          quadForm_ne_text hstd (List.mem_cons_of_mem _ mem) hmapped hne heq)

omit hstd in
theorem dotted_injective (inet : Inet) {q q' : Ip4} (h : dotted q = dotted q') : q = q' := by
  have hparse := @parseIpv4_dotted inet q
  rw [h, parseIpv4_dotted, Option.some_inj] at hparse
  exact hparse.symm

/-- The dotted text of an address is none of the other forms of an IPv4 address. -/
theorem quadForm_ne_dotted {q q' : Ip4} {f : Form} (hf : f ∈ quadForms inet q')
    (heq : (MatchMode.token, dotted q) = (f.mode, f.value)) : False := by
  injection heq with hmode hvalue
  have hparse := @parseIpv4_dotted inet q
  unfold quadForms at hf
  simp only [List.mem_cons, List.not_mem_nil, or_false] at hf
  rcases hf with rfl | rfl | rfl | rfl
  · cases hmode
  · change dotted q = ipv6Text inet (mappedOf q') at hvalue
    rw [hvalue, parseIpv4_ipv6Text hstd] at hparse
    cases hparse
  · change dotted q = groupsText q' at hvalue
    rw [hvalue, parseIpv4_groupsText hstd] at hparse
    cases hparse
  · change dotted q = dashedText q' at hvalue
    rw [hvalue, parseIpv4_dashedText hstd] at hparse
    cases hparse

theorem hasDotted_of_given {raw : RawSet} {q : Ip4} (h : raw.Given inet (.token, dotted q)) :
    raw.HasDotted inet q := by
  rcases h with hseen | ⟨e, he, f, hf, hkey⟩
  · rcases RawSet.mem_seen.mp hseen with ⟨e, he, hkey⟩
    exact ⟨e, he, Or.inl hkey⟩
  · rcases (forms_needle hstd hf).key hkey with ⟨hdropped, heq⟩
    cases forms_source hf with
    | address b names mem =>
        unfold addressForms at mem
        rcases List.mem_cons.mp mem with rfl | mem
        · injection heq with hmode
          cases hmode
        · rcases List.mem_cons.mp mem with rfl | mem
          · injection heq with _ hvalue
            change dotted q = ipv6Text inet b at hvalue
            have hparse := @parseIpv4_dotted inet q
            rw [hvalue, parseIpv4_ipv6Text hstd] at hparse
            cases hparse
          · unfold mappedForms at mem
            split_ifs at mem with hmapped
            · rcases List.mem_cons.mp mem with rfl | mem
              · injection heq with _ hvalue
                have hq : q = quadOf b := dotted_injective inet hvalue
                refine ⟨e, he, Or.inr ⟨?_, ?_⟩⟩
                · rw [names, hq, mappedOf_quadOf hmapped]
                · intro hboth
                  obtain ⟨h4, hdrop⟩ := hboth
                  rw [h4] at hdropped
                  have hparse : parseIpv4 inet (dottedForm (quadOf b)).value = some (quadOf b) :=
                    parseIpv4_dotted _
                  simp only [isDropped, hparse] at hdropped
                  rw [← hq, hdrop] at hdropped
                  cases hdropped
              · exact absurd heq (fun heq => quadForm_ne_dotted hstd mem heq)
            · cases mem
    | eui b _ eq =>
        rw [eq] at heq
        injection heq with hmode
        cases hmode
    | guid id _ eq =>
        rw [eq] at heq
        injection heq with hmode
        cases hmode
    | quad q' _ _ mem => exact absurd heq (fun heq => quadForm_ne_dotted hstd mem heq)

/-!
## Enough
-/

omit hstd in
theorem not_short_of_key {f : Form} (hf : f.Needle) {kind : IdKind} {key : MatchMode × Bytes}
    (h : f.key inet kind = some key) : ¬ Short f.value := by
  unfold Form.key at h
  rcases Option.map_eq_some_iff.mp h with ⟨needle, hneedle, _⟩
  unfold entered at hneedle
  simp only [hf.plain.trimmed, hf.needle] at hneedle
  split_ifs at hneedle with h1 h2 h3 h4
  exact not_lt.mpr h4

omit hstd in
/-- No form of an IPv4 address but its dotted text is dropped with the IPv4 kind. -/
theorem quadForm_kept (hstd : inet.Standard) {q : Ip4} {f : Form} (hf : f ∈ quadForms inet q) :
    isDropped inet .ipv4 f.value = false := by
  have hkept : forall value, parseIpv4 inet value = none ->
      isDropped inet .ipv4 value = false := by
    intro value hnone
    simp only [isDropped, hnone]
  unfold quadForms at hf
  simp only [List.mem_cons, List.not_mem_nil, or_false] at hf
  rcases hf with rfl | rfl | rfl | rfl
  · exact hkept _ (parseIpv4_hexOf hstd _)
  · exact hkept _ (parseIpv4_ipv6Text hstd _)
  · exact hkept _ (parseIpv4_groupsText hstd _)
  · exact hkept _ (parseIpv4_dashedText hstd _)

/-- The spellings of an address that a token names. -/
theorem given_of_token {raw : RawSet} (hraw : forall e, e ∈ raw.entries -> e.OfAddress inet)
    (hcovered : raw.Covered inet) {e : RawEntry} (he : e ∈ raw.entries) (hmode : e.mode = .token)
    {a : Ip6} (hnames : e.names inet = some a) {f : Form} (hf : f ∈ forms inet e)
    {key : MatchMode × Bytes} (hfkey : f.key inet e.kind = some key) {g : Form}
    (hg : g ∈ addressForms inet a) {key' : MatchMode × Bytes}
    (hkey : g.key inet e.kind = some key') : raw.Given inet key' := by
  have hforms := forms_token hmode hnames
  have hgive : g ∈ forms inet e -> raw.Given inet key' := fun h => Or.inr ⟨e, he, g, h, hkey⟩
  unfold addressForms at hg
  rcases List.mem_cons.mp hg with rfl | hg
  · apply hgive
    rw [hforms]
    exact List.mem_cons_self
  · rcases List.mem_cons.mp hg with rfl | hg
    · cases hmapped : isMapped a with
      | true =>
          apply hgive
          rw [hforms]
          apply List.mem_cons_of_mem
          rw [← mappedOf_quadOf hmapped, mappedForms_mappedOf]
          apply List.mem_cons_of_mem
          exact List.mem_cons_of_mem _ List.mem_cons_self
      | false =>
          rw [hforms, mappedForms_of_not_mapped hmapped, List.mem_singleton] at hf
          subst hf
          rcases hcovered.text e he hmode a hnames hmapped (not_uniform_of_key hfkey) with
            hshort | htext
          · exact absurd hshort (not_short_of_key (token_needle (ipv6Text_plain hstd a)) hkey)
          · exact given_of_hasText hstd hraw htext hkey
    · apply hgive
      rw [hforms]
      exact List.mem_cons_of_mem _ hg

theorem given_of_new {raw : RawSet} (hraw : forall e, e ∈ raw.entries -> e.OfAddress inet)
    (hcovered : raw.Covered inet) {before after : List RawEntry} {e d : RawEntry}
    (hsplit : raw.entries = before ++ e :: after) (hkind : d.kind = e.kind)
    (hgives : e.Gives inet d.key) (hfirst : forall e', e' ∈ before -> ¬ e'.Gives inet d.key)
    {key : MatchMode × Bytes} (h : d.Gives inet key) : raw.Given inet key := by
  have he : e ∈ raw.entries := by
    rw [hsplit]
    exact List.mem_append_right _ List.mem_cons_self
  rcases hgives with ⟨f, hf, hfkey⟩
  rcases h with ⟨g, hg, hkey⟩
  rw [hkind] at hkey
  have hdkey := ((forms_needle hstd hf).key hfkey).2
  have hgive : g ∈ forms inet e -> raw.Given inet key := fun h => Or.inr ⟨e, he, g, h, hkey⟩
  cases forms_source hf with
  | address a names mem =>
      have hg := forms_of_addressForm hstd mem hdkey hg
      cases hmode : e.mode with
      | hex => exact given_of_hex he hmode names hg hkey
      | token => exact given_of_token hstd hraw hcovered he hmode names hf hfkey hg hkey
  | eui b list eq =>
      rw [eq] at hdkey
      rw [forms_hexForm (euiOf b) hdkey, bytesForms_guid] at hg
      apply hgive
      rw [list]
      exact List.mem_cons_of_mem _ hg
  | guid id port eq =>
      subst eq
      rw [forms_hexForm id hdkey, bytesForms_guid] at hg
      unfold addressForms at hg
      rw [mappedForms_of_not_mapped (isMapped_linkLocal id)] at hg
      simp only [List.mem_cons, List.not_mem_nil, or_false] at hg
      rcases hcovered.guid e he id port (not_uniform_of_key hfkey) with ⟨hhex, htext⟩
      rcases hg with rfl | rfl
      · exact given_of_hasHex hstd hhex hkey
      · rcases htext with hshort | htext
        · exact absurd hshort (not_short_of_key (token_needle (ipv6Text_plain hstd _)) hkey)
        · exact given_of_hasText hstd hraw htext hkey
  | quad q mode parse mem =>
      have hforms := forms_quad mode parse
      have hg := forms_of_quadForm hstd mem hdkey hg
      unfold addressForms at hg
      rw [mappedForms_mappedOf] at hg
      rcases List.mem_cons.mp hg with rfl | hg
      · apply hgive
        rw [hforms]
        exact List.mem_cons_self
      · rcases List.mem_cons.mp hg with rfl | hg
        · apply hgive
          rw [hforms]
          exact List.mem_cons_of_mem _ List.mem_cons_self
        · rcases List.mem_cons.mp hg with rfl | hg
          · rcases hcovered.quad before e after hsplit mode q parse with
              hdotted | ⟨_, e', he', hkind', hnames⟩
            · exact given_of_hasDotted hstd hdotted hkey
            · -- An earlier entry gives the same key, so this one is not the first.
              have hmem : e' ∈ raw.entries := by
                rw [hsplit]
                exact List.mem_append_left _ he'
              have hmode' : e'.mode = .token := by
                rw [(hraw e' hmem).mode, hkind']
                rfl
              apply absurd _ (hfirst e' he')
              refine ⟨f, ?_, ?_⟩
              · rw [forms_token hmode' hnames, mappedForms_mappedOf]
                exact List.mem_cons_of_mem _ (List.mem_cons_of_mem _ mem)
              · rw [hkind']
                exact (forms_needle hstd hf).key_kind (quadForm_kept hstd mem) hfkey
          · apply hgive
            rw [hforms]
            exact hg

omit hstd in
theorem addresses_of_ofAddress {raw : RawSet}
    (hraw : forall e, e ∈ raw.entries -> e.OfAddress inet) : raw.Addresses :=
  fun e he => (hraw e he).kind

theorem fixed_of_covered {raw : RawSet} (hraw : forall e, e ∈ raw.entries -> e.OfAddress inet)
    (hcovered : raw.Covered inet) : Fixed inet raw := by
  have haddresses := addresses_of_ofAddress hraw
  apply (expandDerived_fixed_iff_gives haddresses).mpr
  intro d hd key hgives
  rw [mem_seen_expandDerived haddresses]
  rw [expandDerived_eq haddresses] at hd
  rcases mem_addDerived hd with hd | ⟨_, before, e, after, hsplit, hkind, hsource, hfirst⟩
  · exact Or.inr ⟨d, hd, hgives⟩
  · exact given_of_new hstd hraw hcovered hsplit hkind hsource hfirst hgives

/-!
## Necessary
-/

omit hstd in
theorem linkLocal_not_uniform (id : Vector UInt8 8) : ¬ Uniform (linkLocal id).toList := by
  unfold Uniform
  rw [linkLocal_toList]
  simp

omit hstd in
theorem linkLocal_not_dropped (id : Vector UInt8 8) : isDroppedIpv6 (linkLocal id) = false := by
  unfold isDroppedIpv6
  rw [isMapped_linkLocal, linkLocal_toList]
  rfl

/-- An address that is dropped and not mapped has a short text. -/
theorem short_of_dropped {a : Ip6} (hdrop : isDroppedIpv6 a = true) (hmapped : isMapped a = false)
    (huniform : ¬ Uniform a.toList) : Short (ipv6Text inet a) := by
  unfold isDroppedIpv6 at hdrop
  rw [hmapped, Bool.false_and] at hdrop
  split_ifs at hdrop with hlow
  rw [Bool.and_eq_true, decide_eq_true_eq] at hlow
  have hzeros : a.toList.take 15 = List.replicate 15 0 := by
    rw [List.eq_replicate_iff]
    constructor
    · simp
    · intro c hc
      exact beq_iff_eq.mp (List.all_eq_true.mp hlow.1 c hc)
  have hlast : a.toList.drop 15 = [a[15]] := by
    rw [List.drop_eq_getElem_cons (by simp), List.drop_eq_nil_of_le (by simp)]
    simp
  have hlist : a.toList = List.replicate 15 (0 : UInt8) ++ [a[15]] := by
    rw [← hzeros, ← hlast, List.take_append_drop]
  have hone : a[15] = 1 := by
    have hbit : forall c : UInt8, c ≤ 1 -> c = 0 ∨ c = 1 := by
      apply forall_byte
      decide +kernel
    rcases hbit a[15] hlow.2 with h0 | h1
    · apply absurd _ huniform
      unfold Uniform
      rw [hlist, h0]
      rfl
    · exact h1
  rw [hone] at hlist
  unfold ipv6Text
  cases htext : inet.ntop6 a with
  | none =>
      unfold Short
      decide
  | some text =>
      rw [Option.getD_some, hstd.ntop6_loopback a text htext hlist]
      unfold Short
      decide

omit hstd in
/-- An entry that is given in a fixed set gives nothing new. -/
theorem given_of_fixed {raw : RawSet} (hraw : forall e, e ∈ raw.entries -> e.OfAddress inet)
    (hfixed : Fixed inet raw) {key : MatchMode × Bytes} (hgiven : raw.Given inet key) :
    exists d, d.key = key ∧ d ∈ (expandDerived inet raw).entries ∧
      forall key', d.Gives inet key' -> raw.Given inet key' := by
  have haddresses := addresses_of_ofAddress hraw
  have hseen := (mem_seen_expandDerived haddresses).mpr hgiven
  rcases RawSet.mem_seen.mp hseen with ⟨d, hd, hkey⟩
  refine ⟨d, hkey, hd, ?_⟩
  intro key' hgives
  exact (mem_seen_expandDerived haddresses).mp
    ((expandDerived_fixed_iff_gives haddresses).mp hfixed d hd key' hgives)

theorem textForm_key {kind : IdKind} {a : Ip6} (hdrop : kind = .ipv6 -> isDroppedIpv6 a = false)
    (hshort : ¬ Short (ipv6Text inet a)) :
    (textForm inet a).key inet kind = some (.token, ipv6Text inet a) := by
  apply (token_needle (ipv6Text_plain hstd a)).key_eq (isDropped_ipv6Text hstd hdrop)
  · intro hmode
    cases hmode
  · exact not_lt.mp hshort

theorem dottedForm_key {kind : IdKind} {q : Ip4} (hdrop : kind = .ipv4 -> isDroppedIpv4 q = false) :
    (dottedForm q).key inet kind = some (.token, dotted q) := by
  apply (token_needle (dotted_plain q)).key_eq (isDropped_dotted hstd hdrop)
  · intro hmode
    cases hmode
  · have hdecimal : forall b, 1 ≤ (decimal b).length := by
      apply forall_byte
      decide +kernel
    show kMinNeedle ≤ (dotted q).length
    unfold dotted
    simp only [List.length_append]
    have h0 := hdecimal q[0]
    have h1 := hdecimal q[1]
    have h2 := hdecimal q[2]
    have h3 := hdecimal q[3]
    have hpoint : (ascii ".").length = 1 := rfl
    unfold kMinNeedle
    omega

omit hstd in
theorem ne_nil_of_not_short {text : Bytes} (h : ¬ Short text) : text ≠ [] := by
  intro hnil
  rw [hnil] at h
  apply h
  unfold Short
  decide

theorem covered_guid {raw : RawSet} (hraw : forall e, e ∈ raw.entries -> e.OfAddress inet)
    (hfixed : Fixed inet raw) {e : RawEntry} (he : e ∈ raw.entries) {id : Vector UInt8 8}
    (hport : e.portGuid = some id) (huniform : ¬ Uniform id.toList) :
    raw.HasHex inet (linkLocal id) ∧
      (Short (ipv6Text inet (linkLocal id)) ∨ raw.HasText inet (linkLocal id)) := by
  have hmem : hexForm id ∈ forms inet e := by
    unfold RawEntry.portGuid at hport
    unfold forms
    cases hmode : e.mode with
    | token =>
        rw [hmode] at hport
        cases hport
    | hex =>
        rw [hmode] at hport
        simp only at hport ⊢
        rcases Option.map_eq_some_iff.mp hport with ⟨b, hb, hguid⟩
        rcases Option.bind_eq_some_iff.mp hb with ⟨bytes, hbytes, hsized⟩
        rw [hbytes, Option.elim_some, ← sized_eq hsized, bytesForms_ipoib, hguid]
        exact List.mem_append_right _ List.mem_cons_self
  have hgiven : raw.Given inet (.hex, hexOf id.toList) :=
    Or.inr ⟨e, he, hexForm id, hmem, key_hexOf hstd (by simp) huniform⟩
  rcases given_of_fixed hraw hfixed hgiven with ⟨d, hkey, _, hd⟩
  have hforms : forms inet d = addressForms inet (linkLocal id) := by
    rw [forms_hexForm id hkey, bytesForms_guid]
  constructor
  · apply hasHex_of_given hstd (isMapped_linkLocal id)
    apply hd
    refine ⟨hexForm (linkLocal id), ?_, key_hexOf hstd (by simp) (linkLocal_not_uniform id)⟩
    rw [hforms]
    exact List.mem_cons_self
  · by_cases hshort : Short (ipv6Text inet (linkLocal id))
    · exact Or.inl hshort
    · right
      apply hasText_of_given hstd (isMapped_linkLocal id) (ne_nil_of_not_short hshort)
      apply hd
      refine ⟨textForm inet (linkLocal id), ?_,
        textForm_key hstd (fun _ => linkLocal_not_dropped id) hshort⟩
      rw [hforms]
      exact List.mem_cons_of_mem _ List.mem_cons_self

theorem covered_text {raw : RawSet} (hraw : forall e, e ∈ raw.entries -> e.OfAddress inet)
    (hfixed : Fixed inet raw) {e : RawEntry} (he : e ∈ raw.entries) (hmode : e.mode = .token)
    {a : Ip6} (hnames : e.names inet = some a) (hmapped : isMapped a = false)
    (huniform : ¬ Uniform a.toList) : Short (ipv6Text inet a) ∨ raw.HasText inet a := by
  by_cases hshort : Short (ipv6Text inet a)
  · exact Or.inl hshort
  · right
    have hmem : hexForm a ∈ forms inet e := by
      rw [forms_token hmode hnames]
      exact List.mem_cons_self
    have hgiven : raw.Given inet (.hex, hexOf a.toList) :=
      Or.inr ⟨e, he, hexForm a, hmem, key_hexOf hstd (by simp) huniform⟩
    rcases given_of_fixed hraw hfixed hgiven with ⟨d, hkey, _, hd⟩
    apply hasText_of_given hstd hmapped (ne_nil_of_not_short hshort)
    apply hd
    refine ⟨textForm inet a, ?_, textForm_key hstd ?_ hshort⟩
    · rw [forms_hexForm a hkey, bytesForms_gid]
      exact List.mem_cons_self
    · intro _
      rw [← Bool.not_eq_true]
      exact fun hdrop => hshort (short_of_dropped hstd hdrop hmapped huniform)

omit hstd in
theorem mappedOf_not_uniform (q : Ip4) : ¬ Uniform (mappedOf q).toList := by
  unfold Uniform
  rw [mappedOf_eq]
  simp

theorem covered_quad {raw : RawSet} (hraw : forall e, e ∈ raw.entries -> e.OfAddress inet)
    (hfixed : Fixed inet raw) {before after : List RawEntry} {e : RawEntry}
    (hsplit : raw.entries = before ++ e :: after) (hmode : e.mode = .token) {q : Ip4}
    (hparse : parseIpv4 inet e.needle = some q) :
    raw.HasDotted inet q ∨
      (isDroppedIpv4 q = true ∧
        exists e', e' ∈ before ∧ e'.kind = .ipv4 ∧ e'.names inet = some (mappedOf q)) := by
  by_cases hdotted : raw.HasDotted inet q
  · exact Or.inl hdotted
  · right
    have he : e ∈ raw.entries := by
      rw [hsplit]
      exact List.mem_append_right _ List.mem_cons_self
    have hgives : e.Gives inet (.hex, hexOf (mappedOf q).toList) := by
      refine ⟨hexForm (mappedOf q), ?_, key_hexOf hstd (by simp) (mappedOf_not_uniform q)⟩
      rw [forms_quad hmode hparse]
      exact List.mem_cons_self
    rcases given_of_fixed hraw hfixed (Or.inr ⟨e, he, hgives⟩) with ⟨d, hkey, hd, hclosed⟩
    -- The mapped address gives the dotted text unless it is dropped with the kind of its entry.
    have hdrop : d.kind = .ipv4 ∧ isDroppedIpv4 q = true := by
      by_contra hnot
      apply hdotted
      apply hasDotted_of_given hstd
      apply hclosed
      refine ⟨dottedForm q, ?_, dottedForm_key hstd ?_⟩
      · rw [forms_hexForm (mappedOf q) hkey, bytesForms_gid, mappedForms_mappedOf]
        exact List.mem_cons_of_mem _ List.mem_cons_self
      · intro h4
        rw [← Bool.not_eq_true]
        exact fun h => hnot ⟨h4, h⟩
    refine ⟨hdrop.2, ?_⟩
    rw [expandDerived_eq (addresses_of_ofAddress hraw)] at hd
    rcases mem_addDerived hd with hd | ⟨_, before', e', after', hsplit', hkind, hgives', hfirst⟩
    · have hdefault := (hraw d hd).mode
      rw [(needle_eq hkey).1, hdrop.1] at hdefault
      cases hdefault
    · rw [hkey] at hgives' hfirst
      have he' : e' ∈ raw.entries := by
        rw [hsplit']
        exact List.mem_append_right _ List.mem_cons_self
      have hnames : e'.names inet = some (mappedOf q) := by
        rcases names_of_gives_hex hstd hgives' with hnames | ⟨q', _, hparse', hq'⟩
        · exact hnames
        · have heq : q' = q := by
            rw [← quadOf_mappedOf q', hq', quadOf_mappedOf]
          subst heq
          have hkept := (hraw e' he').kept (by rw [← hkind, hdrop.1]) _ hparse'
          rw [hkept] at hdrop
          cases hdrop.2
      refine ⟨e', ?_, by rw [← hkind, hdrop.1], hnames⟩
      have hne : e' ≠ e := by
        rintro rfl
        unfold RawEntry.names at hnames
        rw [hmode] at hnames
        simp only [hparse] at hnames
        cases hnames
      rw [hsplit] at hsplit'
      rcases List.append_eq_append_iff.mp hsplit' with ⟨mid, hbefore, hrest⟩ | ⟨mid, hbefore, hrest⟩
      · cases mid with
        | nil =>
            injection hrest with hhead
            exact absurd hhead.symm hne
        | cons m mid =>
            injection hrest with hhead
            subst hhead
            apply absurd hgives
            apply hfirst
            rw [hbefore]
            exact List.mem_append_right _ List.mem_cons_self
      · cases mid with
        | nil =>
            injection hrest with hhead
            exact absurd hhead hne
        | cons m mid =>
            injection hrest with hhead
            rw [hbefore, hhead]
            exact List.mem_append_right _ List.mem_cons_self

theorem fixed_iff_covered {raw : RawSet} (hraw : forall e, e ∈ raw.entries -> e.OfAddress inet) :
    Fixed inet raw <-> raw.Covered inet := by
  constructor
  · intro hfixed
    exact
      { guid := fun e he id hport huniform => covered_guid hstd hraw hfixed he hport huniform
        text := fun e he hmode a hnames hmapped huniform =>
          covered_text hstd hraw hfixed he hmode hnames hmapped huniform
        quad := fun before e after hsplit hmode q hparse =>
          covered_quad hstd hraw hfixed hsplit hmode hparse }
  · exact fixed_of_covered hstd hraw

omit hstd in
theorem expandDerived_fixed_iff (inet : Inet) (hstd : inet.Standard)
    (values : List (IdKind × Bytes)) (h : forall v, v ∈ values -> v.1.isAddress = true) :
    Fixed inet (addValues inet values) <-> (addValues inet values).Covered inet :=
  fixed_iff_covered hstd fun _ he => addValues_ofAddress hstd h he

end Entries

/-!
## Two IPoIB addresses

The GID of the first one has the default prefix, so it is the link-local GID of its GUID.
-/

def defaultPrefix : List (IdKind × Bytes) :=
  [(.ipoib, ascii "00:00:10:48:fe:80:00:00:00:00:00:00:00:03:00:04:00:05:00:06")]

def otherPrefix : List (IdKind × Bytes) :=
  [(.ipoib, ascii "00:00:10:48:20:01:0d:b8:00:01:00:02:00:03:00:04:00:05:00:06")]

/-- An address that is not spelled the way it is printed. -/
def longSpelling : List (IdKind × Bytes) := [(.ipv6, ascii "2001:db8:0:0:0:0:0:1")]

theorem entries_defaultPrefix :
    (addValues InetText.inet defaultPrefix).entries =
      [⟨.ipoib, .hex, ascii "00001048fe800000000000000003000400050006"⟩] := by
  decide +kernel

theorem expandDerived_fixed_defaultPrefix :
    Fixed InetText.inet (addValues InetText.inet defaultPrefix) := by
  apply (expandDerived_fixed_iff InetText.inet InetText.inet_standard defaultPrefix (by decide)).mpr
  have hnames : RawEntry.names InetText.inet
      ⟨.ipoib, .hex, ascii "00001048fe800000000000000003000400050006"⟩ =
      some (linkLocal #v[0, 3, 0, 4, 0, 5, 0, 6]) := by
    decide +kernel
  have hport : RawEntry.portGuid ⟨.ipoib, .hex, ascii "00001048fe800000000000000003000400050006"⟩ =
      some #v[0, 3, 0, 4, 0, 5, 0, 6] := by
    decide +kernel
  constructor
  · intro e he id hid _
    rw [entries_defaultPrefix, List.mem_singleton] at he
    subst he
    rw [hport, Option.some_inj] at hid
    subst hid
    constructor
    · exact ⟨_, by rw [entries_defaultPrefix]; exact List.mem_cons_self, hnames⟩
    · exact Or.inr ⟨_, by rw [entries_defaultPrefix]; exact List.mem_cons_self,
        Or.inr ⟨rfl, hnames⟩⟩
  · intro e he hmode
    rw [entries_defaultPrefix, List.mem_singleton] at he
    subst he
    cases hmode
  · intro before e after hsplit hmode
    have he : e ∈ (addValues InetText.inet defaultPrefix).entries := by
      rw [hsplit]
      exact List.mem_append_right _ List.mem_cons_self
    rw [entries_defaultPrefix, List.mem_singleton] at he
    subst he
    cases hmode

theorem expandDerived_not_fixed :
    ¬ Fixed InetText.inet (addValues InetText.inet otherPrefix) ∧
      ¬ Fixed InetText.inet (addValues InetText.inet longSpelling) := by
  constructor
  · intro hfixed
    have hentries : (addValues InetText.inet otherPrefix).entries =
        [⟨.ipoib, .hex, ascii "0000104820010db8000100020003000400050006"⟩] := by
      decide +kernel
    have hcovered := (fixed_iff_covered InetText.inet_standard fun _ he =>
      @addValues_ofAddress _ InetText.inet_standard otherPrefix (by decide) _ he).mp hfixed
    rcases (hcovered.guid _ (by rw [hentries]; exact List.mem_cons_self)
      #v[0, 3, 0, 4, 0, 5, 0, 6] (by decide +kernel) (by decide)).1 with ⟨e, he, hnames⟩
    rw [hentries, List.mem_singleton] at he
    subst he
    revert hnames
    decide +kernel
  · intro hfixed
    have hentries : (addValues InetText.inet longSpelling).entries =
        [⟨.ipv6, .token, ascii "2001:db8:0:0:0:0:0:1"⟩] := by
      decide +kernel
    have hcovered := (fixed_iff_covered InetText.inet_standard fun _ he =>
      @addValues_ofAddress _ InetText.inet_standard longSpelling (by decide) _ he).mp hfixed
    rcases hcovered.text _ (by rw [hentries]; exact List.mem_cons_self) rfl
      #v[0x20, 1, 0xd, 0xb8, 0, 0, 0, 0, 0, 0, 0, 0, 0, 0, 0, 1] (by decide +kernel) (by decide)
      (by decide) with hshort | ⟨e, he, hkey⟩
    · revert hshort
      unfold Short
      decide +kernel
    · rw [hentries, List.mem_singleton] at he
      subst he
      revert hkey
      decide +kernel

end Capture
end Ostia
