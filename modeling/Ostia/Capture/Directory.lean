import Ostia.Capture.Bytes
import Ostia.Foundation.OrdMap
import Mathlib.Data.String.Basic

/-!
# The output directory

The entries of a directory under their names, and the operations of a capture on it: a file
is written in place, removed, or renamed over another one.  An operation that the file
system refuses leaves the directory as it was.
-/

namespace Ostia
namespace Capture

open Foundation

inductive Content where
  | file (bytes : Bytes)
  /-- A symbolic link, with what is read through it. -/
  | link (target : Option Bytes)
  | tree

/-- An entry of a directory, and whether its removal fails. -/
structure Entry where
  content : Content
  stuck : Bool

abbrev Files := OrdMap String Entry

inductive Out where
  | absent
  /-- Something that is not a directory. -/
  | other
  | directory (files : Files)

namespace Out

def entry : Out -> String -> Option Entry
  | directory files, name => files.find? name
  | _, _ => none

/-- The bytes of a regular file. -/
def file? (out : Out) (name : String) : Option Bytes :=
  match out.entry name with
  | some ⟨.file bytes, _⟩ => some bytes
  | _ => none

/-- What reading a name gives: a link is followed, a directory cannot be read. -/
def read? (out : Out) (name : String) : Option Bytes :=
  match out.entry name with
  | some ⟨.file bytes, _⟩ => some bytes
  | some ⟨.link target, _⟩ => target
  | _ => none

/-- Whether a name can be opened for writing: links are not followed. -/
def opens (out : Out) (name : String) (exclusive : Bool) : Bool :=
  match out with
  | directory files =>
      match files.find? name with
      | none => true
      | some ⟨.file _, _⟩ => !exclusive
      | some _ => false
  | _ => false

def write (out : Out) (name : String) (bytes : Bytes) : Out :=
  match out with
  | directory files =>
      let stuck := ((files.find? name).map Entry.stuck).getD false
      directory (files.insert name ⟨.file bytes, stuck⟩)
  | out => out

def remove (out : Out) (name : String) : Out :=
  match out with
  | directory files =>
      match files.find? name with
      | some e => if e.stuck then out else directory (files.erase name)
      | none => out
  | out => out

def replaceable (out : Out) (name : String) : Bool :=
  match out.entry name with
  | none => true
  | some ⟨.tree, _⟩ => false
  | some e => !e.stuck

/-- Move an entry onto a name. -/
def rename (out : Out) (source target : String) : Out :=
  match out with
  | directory files =>
      match files.find? source with
      | some e => directory ((files.erase source).insert target e)
      | none => out
  | out => out

/-- Remove a name that is not a directory. -/
def unlink (out : Out) (name : String) : Out :=
  match out.entry name with
  | some ⟨.tree, _⟩ => out
  | _ => out.remove name

/-- Remove the directory when it is empty. -/
def rmdir : Out -> Out
  | directory files => if files.entries.isEmpty then absent else directory files
  | out => out

/-!
## Entries after an operation
-/

def IsDirectory : Out -> Prop
  | directory _ => True
  | _ => False

section Entries

variable {out : Out} {name : String}

theorem isDirectory_write {bytes : Bytes} (h : out.IsDirectory) :
    (out.write name bytes).IsDirectory := by
  cases out with
  | absent => cases h
  | other => cases h
  | directory files => trivial

theorem isDirectory_remove (h : out.IsDirectory) : (out.remove name).IsDirectory := by
  cases out with
  | absent => cases h
  | other => cases h
  | directory files =>
      unfold remove
      dsimp only
      split
      · split_ifs
        · trivial
        · trivial
      · trivial

theorem isDirectory_rename {target : String} (h : out.IsDirectory) :
    (out.rename name target).IsDirectory := by
  cases out with
  | absent => cases h
  | other => cases h
  | directory files =>
      unfold rename
      dsimp only
      split
      · trivial
      · trivial

theorem isDirectory_unlink (h : out.IsDirectory) : (out.unlink name).IsDirectory := by
  unfold unlink
  split
  · exact h
  · exact isDirectory_remove h

/-- A name that can be opened is free or a file. -/
theorem entry_of_opens {exclusive : Bool} (h : out.opens name exclusive = true) :
    out.entry name = none ∨
      exclusive = false ∧ exists bytes stuck, out.entry name = some ⟨.file bytes, stuck⟩ := by
  cases out with
  | absent => cases h
  | other => cases h
  | directory files =>
      change files.find? name = none ∨ _
      unfold opens at h
      dsimp only at h
      split at h
      case h_1 hnone => exact Or.inl hnone
      case h_2 bytes stuck hfile =>
        cases exclusive with
        | false => exact Or.inr ⟨rfl, bytes, stuck, hfile⟩
        | true => cases h
      case h_3 => cases h

theorem entry_write (bytes : Bytes) (h : out.IsDirectory) (other : String) :
    (out.write name bytes).entry other =
      if other = name then some ⟨.file bytes, ((out.entry name).map Entry.stuck).getD false⟩
      else out.entry other := by
  cases out with
  | absent => cases h
  | other => cases h
  | directory files => exact OrdMap.find?_insert files name _ other

theorem entry_remove (other : String) :
    (out.remove name).entry other =
      if other = name then (out.entry name).filter Entry.stuck else out.entry other := by
  cases out with
  | absent =>
      split_ifs
      · rfl
      · rfl
  | other =>
      split_ifs
      · rfl
      · rfl
  | directory files =>
      unfold remove
      dsimp only
      change _ = if other = name then (files.find? name).filter Entry.stuck
        else files.find? other
      cases he : files.find? name with
      | none =>
          change files.find? other = _
          split_ifs with hname
          · rw [hname, he]
            rfl
          · rfl
      | some e =>
          dsimp only
          cases hstuck : e.stuck with
          | true =>
              rw [if_pos rfl]
              change files.find? other = _
              split_ifs with hname
              · rw [hname, he, Option.filter_some, if_pos hstuck]
              · rfl
          | false =>
              rw [if_neg Bool.false_ne_true]
              change (files.erase name).find? other = _
              rw [OrdMap.find?_erase]
              split_ifs
              · rw [Option.filter_some, hstuck, if_neg Bool.false_ne_true]
              · rfl

theorem entry_unlink_of_ne {other : String} (h : other ≠ name) :
    (out.unlink name).entry other = out.entry other := by
  unfold unlink
  split
  · rfl
  · rw [entry_remove, if_neg h]

theorem entry_rename {target : String} {e : Entry} (h : out.entry name = some e)
    (other : String) :
    (out.rename name target).entry other =
      if other = target then some e else if other = name then none else out.entry other := by
  cases out with
  | absent => cases h
  | other => cases h
  | directory files =>
      change files.find? name = some e at h
      unfold rename
      dsimp only
      rw [h]
      change ((files.erase name).insert target e).find? other = _
      rw [OrdMap.find?_insert, OrdMap.find?_erase]
      rfl

theorem rename_of_none {target : String} (h : out.entry name = none) :
    out.rename name target = out := by
  cases out with
  | absent => rfl
  | other => rfl
  | directory files =>
      change files.find? name = none at h
      unfold rename
      dsimp only
      rw [h]

/-- The last writing of a name is the one that stays. -/
theorem write_write (out : Out) (name : String) (bytes bytes' : Bytes) :
    (out.write name bytes).write name bytes' = out.write name bytes' := by
  cases out with
  | absent => rfl
  | other => rfl
  | directory files =>
      unfold write
      dsimp only
      rw [OrdMap.find?_insert_self]
      apply congrArg directory
      apply OrdMap.ext_find?
      intro other
      rw [OrdMap.find?_insert, OrdMap.find?_insert, OrdMap.find?_insert]
      split_ifs
      · rfl
      · rfl

end Entries

/-!
## What a run changes

A run begins in a directory where the names it can write are free, or are directories that
it can neither open nor remove.  It changes such a directory by files of its own only.
-/

/-- A name is free for a run. -/
def Clear (base : Out) (name : String) : Prop :=
  base.entry name = none ∨ base.entry name = some ⟨.tree, true⟩

/-- A file that a run made where nothing was. -/
def Owned (base out : Out) (name : String) : Prop :=
  base.entry name = none ∧ exists bytes, out.entry name = some ⟨.file bytes, false⟩

/-- Every change is a file of the run's own, under one of its names. -/
structure Changes (base : Out) (names : String -> Prop) (out : Out) : Prop where
  directory : out.IsDirectory
  owned : forall name, out.entry name ≠ base.entry name -> names name ∧ Owned base out name

namespace Changes

variable {base out : Out} {names names' : String -> Prop} {name : String}

theorem refl (h : base.IsDirectory) : Changes base names base :=
  ⟨h, fun _ hne => absurd rfl hne⟩

theorem mono (h : Changes base names out) (hsub : forall name, names name -> names' name) :
    Changes base names' out :=
  ⟨h.directory, fun name hne => ⟨hsub name (h.owned name hne).1, (h.owned name hne).2⟩⟩

/-- A change of one name to a file of the run's own, or back. -/
theorem update {out' : Out} (h : Changes base names out) (hdirectory : out'.IsDirectory)
    (hother : forall other, other ≠ name -> out'.entry other = out.entry other)
    (hname : out'.entry name = base.entry name ∨ names name ∧ Owned base out' name) :
    Changes base names out' := by
  refine ⟨hdirectory, ?_⟩
  intro other hne
  by_cases hother' : other = name
  · subst hother'
    rcases hname with hname | hname
    · exact absurd hname hne
    · exact hname
  · rw [hother other hother'] at hne
    rcases h.owned other hne with ⟨hnames, hfree, bytes, hbytes⟩
    exact ⟨hnames, hfree, bytes, (hother other hother').trans hbytes⟩

/-- A name that can be opened was free when the run began. -/
theorem free_of_opens {exclusive : Bool} (h : Changes base names out) (hclear : base.Clear name)
    (hopens : out.opens name exclusive = true) :
    base.entry name = none ∧ ((out.entry name).map Entry.stuck).getD false = false := by
  by_cases hsame : out.entry name = base.entry name
  · rcases entry_of_opens hopens with hnone | ⟨_, bytes, stuck, hfile⟩
    · rw [hnone]
      exact ⟨hsame.symm.trans hnone, rfl⟩
    · rcases hclear with hfree | htree
      · rw [hsame, hfree]
        exact ⟨rfl, rfl⟩
      · rw [hsame, htree] at hfile
        cases hfile
  · rcases h.owned name hsame with ⟨_, hfree, bytes, hbytes⟩
    rw [hbytes]
    exact ⟨hfree, rfl⟩

theorem entry_write_self {exclusive : Bool} (h : Changes base names out)
    (hclear : base.Clear name) (hopens : out.opens name exclusive = true) (bytes : Bytes) :
    (out.write name bytes).entry name = some ⟨.file bytes, false⟩ := by
  rw [entry_write bytes h.directory, if_pos rfl, (h.free_of_opens hclear hopens).2]

theorem write {exclusive : Bool} (h : Changes base names out) (hname : names name)
    (hclear : base.Clear name) (hopens : out.opens name exclusive = true) (bytes : Bytes) :
    Changes base names (out.write name bytes) := by
  apply h.update (isDirectory_write h.directory)
  · intro other hne
    rw [entry_write bytes h.directory, if_neg hne]
  · exact Or.inr ⟨hname, (h.free_of_opens hclear hopens).1, bytes,
      h.entry_write_self hclear hopens bytes⟩

/-- Removing a name of the run's own brings back what was there. -/
theorem entry_remove_self (h : Changes base names out) (hclear : base.Clear name) :
    (out.remove name).entry name = base.entry name := by
  rw [entry_remove, if_pos rfl]
  by_cases hsame : out.entry name = base.entry name
  · rw [hsame]
    rcases hclear with hfree | htree
    · rw [hfree]
      rfl
    · rw [htree]
      rfl
  · rcases h.owned name hsame with ⟨_, hfree, bytes, hbytes⟩
    rw [hbytes, hfree]
    rfl

theorem remove (h : Changes base names out) (hclear : base.Clear name) :
    Changes base names (out.remove name) := by
  apply h.update (isDirectory_remove h.directory)
  · intro other hne
    rw [entry_remove, if_neg hne]
  · exact Or.inl (h.entry_remove_self hclear)

theorem entry_unlink_self (h : Changes base names out) (hclear : base.Clear name) :
    (out.unlink name).entry name = base.entry name := by
  unfold unlink
  split
  case h_1 stuck htree =>
    by_contra hne
    rcases h.owned name hne with ⟨_, _, bytes, hbytes⟩
    rw [htree] at hbytes
    cases hbytes
  case h_2 => exact h.entry_remove_self hclear

theorem unlink (h : Changes base names out) (hclear : base.Clear name) :
    Changes base names (out.unlink name) := by
  apply h.update (isDirectory_unlink h.directory)
  · intro other hne
    exact entry_unlink_of_ne hne
  · exact Or.inl (h.entry_unlink_self hclear)

/-- A file of the run's own is renamed over a name that was free. -/
theorem rename {target : String} {bytes : Bytes} (h : Changes base names out)
    (hsource : out.entry name = some ⟨.file bytes, false⟩) (hclear : base.Clear name)
    (htarget : names target) (hfree : base.entry target = none) :
    Changes base names (out.rename name target) := by
  have hgone : base.entry name = none := by
    by_cases hsame : out.entry name = base.entry name
    · rcases hclear with hnone | htree
      · exact hnone
      · rw [hsource, htree] at hsame
        cases hsame
    · exact (h.owned name hsame).2.1
  have hentry : forall other, (out.rename name target).entry other = _ :=
    entry_rename hsource
  refine ⟨isDirectory_rename h.directory, ?_⟩
  intro other hne
  by_cases hother : other = target
  · rw [hother]
    refine ⟨htarget, hfree, bytes, ?_⟩
    rw [hentry, if_pos rfl]
  · rw [hentry, if_neg hother] at hne
    by_cases hname : other = name
    · rw [if_pos hname, hname] at hne
      exact absurd hgone.symm hne
    · rw [if_neg hname] at hne
      rcases h.owned other hne with ⟨hnames, hfree', bytes', hbytes'⟩
      refine ⟨hnames, hfree', bytes', ?_⟩
      rw [hentry, if_neg hother, if_neg hname]
      exact hbytes'

end Changes
end Out
end Capture
end Ostia
