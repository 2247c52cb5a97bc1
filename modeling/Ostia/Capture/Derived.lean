import Ostia.Capture.RawSet

/-!
# Derived forms as a list

The forms that an entry gives, listed in the order in which they are added, and what adding
them leaves in a set: each key that was not there before belongs to the first entry that
gives it.
-/

namespace Ostia
namespace Capture

open Bytes

/-- A derived form: its text and how it is matched. -/
structure Form where
  value : Bytes
  mode : MatchMode
deriving DecidableEq

/-- The kinds whose values are addresses. -/
def IdKind.isAddress : IdKind -> Bool
  | .mac | .guid | .gid | .ipoib | .ipv4 | .ipv6 => true
  | _ => false

/-- The mapped address with its IPv4 half in hex groups. -/
def groupsText (q : Ip4) : Bytes := ascii "::ffff:" ++ hexGroups q.toList

/-- The host name that carries an IPv4 address. -/
def dashedText (q : Ip4) : Bytes :=
  ascii "ip" ++ q.toList.flatMap fun octet => ascii "-" ++ decimal octet

section Forms

variable (inet : Inet)

def hexForm {n : Nat} (b : Vector UInt8 n) : Form := ⟨hexOf b.toList, .hex⟩

def textForm (b : Ip6) : Form := ⟨ipv6Text inet b, .token⟩

def dottedForm (q : Ip4) : Form := ⟨dotted q, .token⟩

/-- What an IPv4 address gives. -/
def quadForms (q : Ip4) : List Form :=
  [hexForm (mappedOf q), textForm inet (mappedOf q), ⟨groupsText q, .token⟩, ⟨dashedText q, .token⟩]

/-- What a v4-mapped address gives besides its own spellings. -/
def mappedForms (gid : Ip6) : List Form :=
  if isMapped gid then dottedForm (quadOf gid) :: quadForms inet (quadOf gid) else []

/-- What the bytes of a hex entry give. -/
def bytesForms (bytes : List UInt8) : List Form :=
  if let some b := sized 6 bytes then
    [hexForm (euiOf b), hexForm (linkLocal (euiOf b)), textForm inet (linkLocal (euiOf b))]
  else if let some b := sized 8 bytes then
    [hexForm (linkLocal b), textForm inet (linkLocal b)]
  else if let some gid := sized 16 bytes then textForm inet gid :: mappedForms inet gid
  else if let some b := sized 20 bytes then
    let gid : Ip6 := b.drop 4
    hexForm gid :: textForm inet gid :: (mappedForms inet gid ++
      [⟨hexOf (b.toList.drop 12), .hex⟩])
  else []

/-- What an entry that is an address gives. -/
def forms (e : RawEntry) : List Form :=
  match e.mode with
  | .hex => (hexBytes e.needle).elim [] (bytesForms inet)
  | .token =>
      match parseIpv4 inet e.needle with
      | some q => quadForms inet q
      | none =>
          match parseIpv6 inet e.needle with
          | some b => hexForm b :: mappedForms inet b
          | none => []

def RawSet.addForms (raw : RawSet) (kind : IdKind) (fs : List Form) : RawSet :=
  fs.foldl (fun raw f => raw.addAs inet kind f.value f.mode) raw

variable {inet}

theorem addForms_append (raw : RawSet) (kind : IdKind) (fs gs : List Form) :
    raw.addForms inet kind (fs ++ gs) = (raw.addForms inet kind fs).addForms inet kind gs :=
  List.foldl_append

theorem addForms_cons (raw : RawSet) (kind : IdKind) (f : Form) (fs : List Form) :
    raw.addForms inet kind (f :: fs) =
      (raw.addAs inet kind f.value f.mode).addForms inet kind fs := List.foldl_cons ..

theorem expandIpv4_eq (raw : RawSet) (kind : IdKind) (q : Ip4) :
    raw.expandIpv4 inet kind q = raw.addForms inet kind (quadForms inet q) := rfl

theorem parseIpv4_dotted (q : Ip4) : parseIpv4 inet (dotted q) = some q := inet.pton4_dotted q

theorem expandToken_ipv4 {raw : RawSet} {e : RawEntry} {q : Ip4}
    (h : parseIpv4 inet e.needle = some q) :
    raw.expandToken inet e = raw.addForms inet e.kind (quadForms inet q) := by
  rw [RawSet.expandToken]
  split
  · rename_i q' hq'
    rw [h] at hq'
    injection hq' with hq'
    rw [hq', expandIpv4_eq]
  · rename_i hnone
    rw [h] at hnone
    cases hnone

theorem addMappedIpv4_eq (raw : RawSet) (kind : IdKind) (gid : Ip6) :
    raw.addMappedIpv4 inet kind gid = raw.addForms inet kind (mappedForms inet gid) := by
  rw [RawSet.addMappedIpv4]
  unfold mappedForms
  split_ifs with h
  · rw [addForms_cons]
    exact expandToken_ipv4 (e := ⟨kind, .token, dotted (quadOf gid)⟩)
      (parseIpv4_dotted (quadOf gid))
  · rfl

theorem expandToken_eq {raw : RawSet} {e : RawEntry} (hkind : e.kind.isAddress = true)
    (hmode : e.mode = .token) :
    raw.expandToken inet e = raw.addForms inet e.kind (forms inet e) := by
  unfold forms
  rw [hmode]
  cases h4 : parseIpv4 inet e.needle with
  | some q => exact expandToken_ipv4 h4
  | none =>
      rw [RawSet.expandToken]
      split
      · rename_i q hq
        rw [h4] at hq
        cases hq
      · cases h6 : parseIpv6 inet e.needle with
        | some b => exact addMappedIpv4_eq _ e.kind b
        | none =>
            have hplain : ¬ (e.kind = .dmi ∨ e.kind = .serial) := by
              rintro (h | h)
              · rw [h] at hkind
                cases hkind
              · rw [h] at hkind
                cases hkind
            simp only [if_neg hplain]
            rfl

theorem expandHex_eq {raw : RawSet} {e : RawEntry} (hkind : e.kind.isAddress = true)
    (hmode : e.mode = .hex) :
    raw.expandHex inet e = raw.addForms inet e.kind (forms inet e) := by
  have huuid : ¬ (e.kind = .uuid ∧ ((ascii "gpu").isPrefixOf e.needle ||
      (ascii "mig").isPrefixOf e.needle)) := by
    intro h
    rw [h.1] at hkind
    cases hkind
  unfold RawSet.expandHex forms
  rw [hmode, if_neg huuid]
  cases hbytes : hexBytes e.needle with
  | none => rfl
  | some bytes =>
      show _ = raw.addForms inet e.kind (bytesForms inet bytes)
      unfold bytesForms
      simp only
      cases sized 6 bytes with
      | some b => rfl
      | none =>
          cases sized 8 bytes with
          | some b => rfl
          | none =>
              cases sized 16 bytes with
              | some gid => exact addMappedIpv4_eq _ e.kind gid
              | none =>
                  cases sized 20 bytes with
                  | some b =>
                      simp only [addMappedIpv4_eq]
                      show _ = raw.addForms inet e.kind
                        ([hexForm _, textForm inet _] ++ (_ ++ [_]))
                      rw [addForms_append, addForms_append]
                      rfl
                  | none => rfl

/-- The expansion of one entry. -/
theorem expand_eq {raw : RawSet} {e : RawEntry} (hkind : e.kind.isAddress = true) :
    (match e.mode with
      | .hex => raw.expandHex inet e
      | .token => raw.expandToken inet e) = raw.addForms inet e.kind (forms inet e) := by
  cases hmode : e.mode with
  | hex => exact expandHex_eq hkind hmode
  | token => exact expandToken_eq hkind hmode

theorem expandDerived_eq {raw : RawSet} (h : forall e, e ∈ raw.entries -> e.kind.isAddress = true) :
    expandDerived inet raw =
      raw.entries.foldl (fun set e => set.addForms inet e.kind (forms inet e)) raw := by
  unfold expandDerived
  apply List.foldl_ext
  intro set e he
  exact expand_eq (h e he)

/-!
## What adding leaves in a set
-/

variable (inet)

/-- The needle under which a value is entered, when it is. -/
def entered (kind : IdKind) (value : Bytes) (mode : MatchMode) : Option Bytes :=
  let value := trimmed value
  if isDropped inet kind value then none
  else
    let needle := needleOf mode value
    if needle = [] then none
    else if mode = .hex ∧ (needle.all (· == '0'.toUInt8) || needle.all (· == 'f'.toUInt8)) then none
    else if kMinNeedle ≤ needle.length then some needle
    else none

def RawEntry.key (e : RawEntry) : MatchMode × Bytes := (e.mode, e.needle)

/-- The key under which a form of an entry of the kind is entered. -/
def Form.key (kind : IdKind) (f : Form) : Option (MatchMode × Bytes) :=
  (entered inet kind f.value f.mode).map fun needle => (f.mode, needle)

/-- An entry gives a key when one of its forms is entered under it. -/
def RawEntry.Gives (e : RawEntry) (key : MatchMode × Bytes) : Prop :=
  exists f, f ∈ forms inet e ∧ f.key inet e.kind = some key

variable {inet}

theorem RawSet.mem_seen {raw : RawSet} {key : MatchMode × Bytes} :
    key ∈ raw.seen <-> exists e, e ∈ raw.entries ∧ e.key = key := by
  rw [raw.seen_eq, List.mem_map]
  rfl

/-- A value leaves the set as it is, or puts an entry with a new key at its end. -/
theorem addAs_cases (raw : RawSet) (kind : IdKind) (value : Bytes) (mode : MatchMode) :
    ((raw.addAs inet kind value mode).entries = raw.entries ∧
      forall needle, entered inet kind value mode = some needle -> (mode, needle) ∈ raw.seen) ∨
    exists needle, entered inet kind value mode = some needle ∧ (mode, needle) ∉ raw.seen ∧
      (raw.addAs inet kind value mode).entries = raw.entries ++ [⟨kind, mode, needle⟩] := by
  unfold RawSet.addAs entered
  simp only
  split_ifs with h1 h2 h3 h4
  · exact Or.inl ⟨rfl, fun _ h => by cases h⟩
  · exact Or.inl ⟨rfl, fun _ h => by cases h⟩
  · exact Or.inl ⟨rfl, fun _ h => by cases h⟩
  · unfold RawSet.emplace
    split_ifs with hseen
    · left
      constructor
      · rfl
      · intro needle hneedle
        injection hneedle with hneedle
        rw [← hneedle]
        exact hseen
    · exact Or.inr ⟨_, rfl, hseen, rfl⟩
  · exact Or.inl ⟨rfl, fun _ h => by cases h⟩

theorem mem_addAs {raw : RawSet} {kind : IdKind} {value : Bytes} {mode : MatchMode}
    {e : RawEntry} :
    e ∈ (raw.addAs inet kind value mode).entries <->
      e ∈ raw.entries ∨
        (e.key ∉ raw.seen ∧ e.kind = kind ∧ e.mode = mode ∧
          entered inet kind value mode = some e.needle) := by
  rcases @addAs_cases inet raw kind value mode with ⟨heq, hseen⟩ | ⟨n, hn, hnew, heq⟩
  · rw [heq]
    constructor
    · exact Or.inl
    · rintro (he | ⟨hkey, hkind, hmode, hn⟩)
      · exact he
      · apply absurd (hseen _ hn)
        rw [← hmode]
        exact hkey
  · rw [heq, List.mem_append, List.mem_singleton, hn, Option.some_inj]
    constructor
    · rintro (he | rfl)
      · exact Or.inl he
      · exact Or.inr ⟨hnew, rfl, rfl, rfl⟩
    · rintro (he | ⟨_, hkind, hmode, hn⟩)
      · exact Or.inl he
      · right
        rw [← hkind, ← hmode, hn]

theorem mem_seen_addAs {raw : RawSet} {kind : IdKind} {value : Bytes} {mode : MatchMode}
    {key : MatchMode × Bytes} :
    key ∈ (raw.addAs inet kind value mode).seen <->
      key ∈ raw.seen ∨ (Form.mk value mode).key inet kind = some key := by
  have hkey : (Form.mk value mode).key inet kind = some key <->
      key.1 = mode ∧ entered inet kind value mode = some key.2 := by
    unfold Form.key
    rw [Option.map_eq_some_iff]
    constructor
    · rintro ⟨n, hn, rfl⟩
      exact ⟨rfl, hn⟩
    · rintro ⟨rfl, hn⟩
      exact ⟨key.2, hn, rfl⟩
  rw [hkey]
  constructor
  · intro h
    rcases RawSet.mem_seen.mp h with ⟨e, he, heq⟩
    rcases mem_addAs.mp he with he | ⟨_, _, hmode, hn⟩
    · exact Or.inl (RawSet.mem_seen.mpr ⟨e, he, heq⟩)
    · right
      rw [← heq]
      exact ⟨hmode, hn⟩
  · intro h
    by_cases hseen : key ∈ raw.seen
    · rcases RawSet.mem_seen.mp hseen with ⟨e, he, heq⟩
      exact RawSet.mem_seen.mpr ⟨e, mem_addAs.mpr (Or.inl he), heq⟩
    · rcases h with h | ⟨hmode, hn⟩
      · exact absurd h hseen
      · apply RawSet.mem_seen.mpr
        refine ⟨⟨kind, key.1, key.2⟩, mem_addAs.mpr (Or.inr ⟨hseen, rfl, hmode, hn⟩), rfl⟩

theorem mem_seen_addForms {raw : RawSet} {kind : IdKind} {fs : List Form}
    {key : MatchMode × Bytes} :
    key ∈ (raw.addForms inet kind fs).seen <->
      key ∈ raw.seen ∨ exists f, f ∈ fs ∧ f.key inet kind = some key := by
  induction fs generalizing raw with
  | nil =>
      constructor
      · exact Or.inl
      · rintro (h | ⟨f, hf, _⟩)
        · exact h
        · cases hf
  | cons f fs ih =>
      rw [addForms_cons, ih, mem_seen_addAs, or_assoc]
      simp only [List.mem_cons, exists_eq_or_imp]

/-- The entries that forms put in have new keys and the kind of their source. -/
theorem mem_addForms {raw : RawSet} {kind : IdKind} {fs : List Form} {e : RawEntry}
    (h : e ∈ (raw.addForms inet kind fs).entries) :
    e ∈ raw.entries ∨
      (e.key ∉ raw.seen ∧ e.kind = kind ∧ exists f, f ∈ fs ∧ f.key inet kind = some e.key) := by
  induction fs generalizing raw with
  | nil => exact Or.inl h
  | cons f fs ih =>
      rw [addForms_cons] at h
      rcases ih h with h | ⟨hkey, hkind, g, hg, hgkey⟩
      · rcases mem_addAs.mp h with h | ⟨hkey, hkind, hmode, hn⟩
        · exact Or.inl h
        · refine Or.inr ⟨hkey, hkind, f, List.mem_cons_self, ?_⟩
          unfold Form.key RawEntry.key
          rw [hn, hmode]
          rfl
      · refine Or.inr ⟨?_, hkind, g, List.mem_cons_of_mem f hg, hgkey⟩
        exact fun hseen => hkey (mem_seen_addAs.mpr (Or.inl hseen))

/-- Forms whose keys are there put nothing in. -/
theorem addForms_entries {raw : RawSet} {kind : IdKind} {fs : List Form}
    (h : forall f, f ∈ fs -> forall key, f.key inet kind = some key -> key ∈ raw.seen) :
    (raw.addForms inet kind fs).entries = raw.entries := by
  induction fs generalizing raw with
  | nil => rfl
  | cons f fs ih =>
      have hentries : (raw.addAs inet kind f.value f.mode).entries = raw.entries := by
        rcases @addAs_cases inet raw kind f.value f.mode with ⟨heq, _⟩ | ⟨n, hn, hnew, _⟩
        · exact heq
        · apply absurd _ hnew
          apply h f List.mem_cons_self
          unfold Form.key
          rw [hn]
          rfl
      rw [addForms_cons, ih, hentries]
      intro g hg key hkey
      exact mem_seen_addAs.mpr (Or.inl (h g (List.mem_cons_of_mem f hg) key hkey))

variable (inet)

/-- The forms of a list of entries, put into a set. -/
def RawSet.addDerived (raw : RawSet) (sources : List RawEntry) : RawSet :=
  sources.foldl (fun set e => set.addForms inet e.kind (forms inet e)) raw

variable {inet}

theorem mem_seen_addDerived {raw : RawSet} {sources : List RawEntry} {key : MatchMode × Bytes} :
    key ∈ (raw.addDerived inet sources).seen <->
      key ∈ raw.seen ∨ exists e, e ∈ sources ∧ e.Gives inet key := by
  induction sources generalizing raw with
  | nil =>
      constructor
      · exact Or.inl
      · rintro (h | ⟨e, he, _⟩)
        · exact h
        · cases he
  | cons e sources ih =>
      show key ∈ ((raw.addForms inet e.kind (forms inet e)).addDerived inet sources).seen <-> _
      rw [ih, mem_seen_addForms, or_assoc]
      simp only [List.mem_cons, exists_eq_or_imp]
      rfl

/-- A new entry has the kind of the first source that gives its key. -/
theorem mem_addDerived {raw : RawSet} {sources : List RawEntry} {d : RawEntry}
    (h : d ∈ (raw.addDerived inet sources).entries) :
    d ∈ raw.entries ∨
      (d.key ∉ raw.seen ∧ exists before e after, sources = before ++ e :: after ∧
        d.kind = e.kind ∧ e.Gives inet d.key ∧
          forall e', e' ∈ before -> ¬ e'.Gives inet d.key) := by
  induction sources generalizing raw with
  | nil => exact Or.inl h
  | cons e sources ih =>
      have hkeys := @mem_seen_addForms inet raw e.kind (forms inet e) d.key
      rcases @ih (raw.addForms inet e.kind (forms inet e)) h with
        hd | ⟨hnew, before, e', after, hsplit, hkind, hgives, hfirst⟩
      · rcases mem_addForms hd with hd | ⟨hnew, hkind, hgives⟩
        · exact Or.inl hd
        · exact Or.inr ⟨hnew, [], e, sources, rfl, hkind, hgives, fun _ he' => by cases he'⟩
      · rw [hkeys, not_or] at hnew
        right
        refine ⟨hnew.1, e :: before, e', after, ?_, hkind, hgives, ?_⟩
        · rw [hsplit, List.cons_append]
        · rw [List.forall_mem_cons]
          exact ⟨hnew.2, hfirst⟩

theorem addDerived_entries {raw : RawSet} {sources : List RawEntry}
    (h : forall e, e ∈ sources -> forall key, e.Gives inet key -> key ∈ raw.seen) :
    (raw.addDerived inet sources).entries = raw.entries := by
  induction sources generalizing raw with
  | nil => rfl
  | cons e sources ih =>
      have hentries : (raw.addForms inet e.kind (forms inet e)).entries = raw.entries :=
        addForms_entries fun f hf key hkey => h e List.mem_cons_self key ⟨f, hf, hkey⟩
      show ((raw.addForms inet e.kind (forms inet e)).addDerived inet sources).entries = _
      rw [ih, hentries]
      intro e' he' key hkey
      rw [mem_seen_addForms]
      exact Or.inl (h e' (List.mem_cons_of_mem e he') key hkey)

/-- The kinds of the entries of a set are those of addresses. -/
def RawSet.Addresses (raw : RawSet) : Prop :=
  forall e, e ∈ raw.entries -> e.kind.isAddress = true

theorem expandDerived_addresses {raw : RawSet} (h : raw.Addresses) :
    (expandDerived inet raw).Addresses := by
  intro d hd
  rw [expandDerived_eq h] at hd
  rcases mem_addDerived hd with hd | ⟨_, before, e, after, hsplit, hkind, _⟩
  · exact h d hd
  · rw [hkind]
    apply h e
    rw [hsplit]
    exact List.mem_append_right _ List.mem_cons_self

/-- A second expansion adds nothing exactly when the first one has every form of its entries. -/
theorem expandDerived_fixed_iff_gives {raw : RawSet} (h : raw.Addresses) :
    (expandDerived inet (expandDerived inet raw)).entries = (expandDerived inet raw).entries <->
      forall d, d ∈ (expandDerived inet raw).entries ->
        forall key, d.Gives inet key -> key ∈ (expandDerived inet raw).seen := by
  rw [expandDerived_eq (expandDerived_addresses h)]
  constructor
  · intro heq d hd key hgives
    have hseen : key ∈ ((expandDerived inet raw).addDerived inet
        (expandDerived inet raw).entries).seen := mem_seen_addDerived.mpr (Or.inr ⟨d, hd, hgives⟩)
    rcases RawSet.mem_seen.mp hseen with ⟨e, he, hkey⟩
    have he' : e ∈ (expandDerived inet raw).entries := heq ▸ he
    exact RawSet.mem_seen.mpr ⟨e, he', hkey⟩
  · exact addDerived_entries

theorem mem_seen_expandDerived {raw : RawSet} (h : raw.Addresses) {key : MatchMode × Bytes} :
    key ∈ (expandDerived inet raw).seen <->
      key ∈ raw.seen ∨ exists e, e ∈ raw.entries ∧ e.Gives inet key := by
  rw [expandDerived_eq h]
  exact mem_seen_addDerived

end Forms

end Capture
end Ostia
