import Mathlib.Algebra.BigOperators.Group.List.Basic
import Mathlib.Algebra.Ring.Nat
import Mathlib.Data.List.Dedup
import Mathlib.Data.List.Sort
import Ostia.Dev.PosixPath
import Ostia.Dev.Text
import Ostia.Foundation.Sorting

/-!
# The upload and its count check

The host builds a tarball of the working tree from what git lists and counts its regular files.
The pod extracts it and counts the lines that find prints, without the supervisor's directories.
-/

namespace Ostia
namespace Dev
namespace Upload

open Foundation PosixPath

/-!
## The tarball
-/

def maxBytes : Nat := 500 * 1024 ^ 2

def secretPatterns : List Name :=
  [".env", ".env.*", "*.pem", "*.key", "*.p12", "id_rsa*", "id_ed25519*", ".netrc", ".pypirc",
    ".npmrc", "*kubeconfig*"].map String.toList

def secretDirs : List Name := [".kube".toList]

def looksSecret (path : Name) : Bool :=
  let p := parts path
  p.dropLast.any (fun part => secretDirs.contains part) ||
    secretPatterns.any fun pat => fnmatch (p.getLast?.getD []) pat

/-- What stands at a path of the working tree. -/
inductive Entry where
  | symlink (target : Name)
  | file (data : List UInt8) (executable : Bool)
  | other

/-- The lists that git gives and the files below the root. -/
structure Worktree where
  cachedOrOther : List Name
  deleted : List Name
  untracked : List Name
  look : Name -> Entry

inductive MemberType where
  | symlink (target : Name)
  | regular (data : List UInt8)
deriving DecidableEq

structure Member where
  name : Name
  type : MemberType
  mode : Nat
deriving DecidableEq

structure Tarball where
  members : List Member
  files : List Name
  fileCount : Nat
  skipped : List Name
deriving DecidableEq

/-- The error names the size and the largest files. -/
structure UsageError where
  total : Nat
  largest : List (Name × Nat)
deriving DecidableEq

def mode (executable : Bool) : Nat := if executable then 0o755 else 0o644

def Member.isRegular (m : Member) : Bool :=
  match m.type with
  | .regular _ => true
  | .symlink _ => false

structure Collected where
  entries : List Member
  sizes : List (Name × Nat)
  count : Nat

/-- One file of the listing; what is no symbolic link and no regular file is passed over. -/
def collect (tree : Worktree) (c : Collected) (f : Name) : Collected :=
  match tree.look f with
  | .symlink target => { c with entries := c.entries ++ [⟨f, .symlink target, 0o777⟩] }
  | .other => c
  | .file data executable =>
      { entries := c.entries ++ [⟨f, .regular data, mode executable⟩]
        sizes := c.sizes ++ [(f, data.length)]
        count := c.count + 1 }

def skipped (tree : Worktree) : List Name :=
  Sorting.sorted (tree.untracked.dedup.filter looksSecret)

def uploaded (tree : Worktree) : List Name :=
  Sorting.sorted (tree.cachedOrOther.dedup.filter fun f =>
    !tree.deleted.contains f && !(skipped tree).contains f)

def Entry.isFile : Entry -> Bool
  | .file _ _ => true
  | _ => false

/-- The regular files among those uploaded. -/
def regularFiles (tree : Worktree) : List Name :=
  (uploaded tree).filter fun f => (tree.look f).isFile

def fromWorktree (tree : Worktree) : Except UsageError Tarball :=
  let c := (uploaded tree).foldl (collect tree) ⟨[], [], 0⟩
  let total := (c.sizes.map Prod.snd).sum
  if total > maxBytes then
    .error ⟨total, (Sorting.stableSort (fun kv => -(kv.2 : Int)) c.sizes).take 10⟩
  else
    .ok
      { members := Sorting.stableSort Member.name c.entries
        files := c.entries.map Member.name
        fileCount := c.count
        skipped := skipped tree }

/-!
## The count check
-/

def work : Name := "/w".toList

/-- What the pod's work directory holds at a path below it. -/
structure WorkEntry where
  path : Name
  regular : Bool
deriving DecidableEq

/-- The directories below the work directory whose files are not counted. -/
def uncounted : List Name := [".ostia", "home", "cache"].map String.toList

/-- The path that find tests and prints. -/
def fullPath (path : Name) : Name := work ++ '/' :: path

/-- Whether find prints a regular file: its path matches none of the patterns. -/
def printed (path : Name) : Bool :=
  uncounted.all fun dir => !fnmatch (fullPath path) (fullPath dir ++ "/*".toList)

def findOutput (entries : List WorkEntry) : Name :=
  (entries.filter fun e => e.regular && printed e.path).flatMap fun e => fullPath e.path ++ ['\n']

/-- The output of the count: the number of line ends, on a line. -/
def wordCount (output : Name) : String := toString (output.count '\n') ++ "\n"

structure InfraError where
  problem : String
  detail : String
  fix : String
  step : String
  see : String
deriving DecidableEq

def uploadFailed (profile detail : String) : InfraError :=
  { problem := "the upload into the pod failed"
    detail := detail
    fix := "a dropped connection, or /w is full: raise ephemeral_storage in " ++
      "[remote.k8s.profiles." ++ profile ++ "], then rerun"
    step := "upload"
    see := "RFC-0005 §4.10" }

/-- The upload into one pod, by the exit code of tar and what the work directory holds then. -/
def uploadOne (profile : String) (tarball : Tarball) (tarExit : Int) (entries : List WorkEntry) :
    Except InfraError Unit :=
  if tarExit ≠ 0 then .error (uploadFailed profile ("tar -x exited " ++ toString tarExit))
  else
    let got := Text.strip (wordCount (findOutput entries))
    if got ≠ toString tarball.fileCount then
      .error (uploadFailed profile
        ((if got = "" then "?" else got) ++ " files arrived, the tarball has " ++
          toString tarball.fileCount))
    else .ok ()

/-!
## What the work directory holds
-/

/-- The path is in one of the supervisor's directories. -/
def Supervised (path : Name) : Prop := exists dir, dir ∈ uncounted ∧ dir ++ ['/'] <+: path

instance : DecidablePred Supervised := fun _ =>
  inferInstanceAs (Decidable (exists dir, dir ∈ uncounted ∧ _))

/-- Every member of the tarball was extracted, and no other regular file is there but for those
of the supervisor. -/
structure Complete (tarball : Tarball) (entries : List WorkEntry) : Prop where
  paths : (entries.map WorkEntry.path).Nodup
  arrived : forall m, m ∈ tarball.members -> ⟨m.name, m.isRegular⟩ ∈ entries
  only : forall e, e ∈ entries -> e.regular = true ->
    Supervised e.path ∨ exists m, m ∈ tarball.members ∧ m.name = e.path ∧ m.isRegular = true

theorem printed_iff (path : Name) : printed path = true <-> ¬Supervised path := by
  have hpattern : forall dir, dir ∈ uncounted ->
      (fnmatch (fullPath path) (fullPath dir ++ "/*".toList) = true <->
        dir ++ ['/'] <+: path) := by
    intro dir hdir
    have hstars : forall dir, dir ∈ uncounted -> '*' ∉ fullPath dir ++ ['/'] := by
      decide
    have hsplit : fullPath dir ++ "/*".toList = (fullPath dir ++ ['/']) ++ ['*'] := by
      rw [List.append_assoc]
      exact congrArg _ (by decide)
    rw [hsplit, fnmatch_literal (hstars dir hdir)]
    constructor
    · intro h
      obtain ⟨back, hback, _⟩ := h
      refine ⟨back, ?_⟩
      unfold fullPath at hback
      rw [List.append_assoc, List.append_assoc, List.cons_append] at hback
      have htail := (List.cons.inj (List.append_cancel_left hback)).2
      rw [htail, List.append_assoc]
    · intro h
      obtain ⟨back, hback⟩ := h
      refine ⟨back, ?_, fnmatch_star.mpr ⟨back, [], (List.append_nil back).symm, rfl⟩⟩
      unfold fullPath
      rw [← hback, List.append_assoc, List.append_assoc, List.append_assoc, List.cons_append]
      rfl
  unfold printed Supervised
  rw [List.all_eq_true]
  push Not
  apply forall_congr'
  intro dir
  apply imp_congr_right
  intro hdir
  rw [← hpattern dir hdir, Bool.not_eq_true', Bool.not_eq_true]

/-!
## Counting
-/

theorem foldl_collect (tree : Worktree) (files : List Name) (c : Collected)
    (hcount : c.count = (c.entries.filter Member.isRegular).length) :
    let r := files.foldl (collect tree) c
    r.count = (r.entries.filter Member.isRegular).length ∧
      (r.entries.filter Member.isRegular).map Member.name =
        (c.entries.filter Member.isRegular).map Member.name ++
          files.filter (fun f => (tree.look f).isFile) ∧
      exists kept, kept.Sublist files ∧ r.entries.map Member.name =
        c.entries.map Member.name ++ kept := by
  induction files generalizing c with
  | nil =>
      exact ⟨hcount, (List.append_nil _).symm, [], List.Sublist.refl [],
        (List.append_nil _).symm⟩
  | cons f files ih =>
      rw [List.foldl_cons]
      have hnext : (collect tree c f).count =
          ((collect tree c f).entries.filter Member.isRegular).length := by
        unfold collect
        cases tree.look f with
        | symlink target => simpa [Member.isRegular] using hcount
        | other => exact hcount
        | file data executable =>
            show c.count + 1 = ((c.entries ++ [_]).filter Member.isRegular).length
            rw [List.filter_append, List.length_append, ← hcount]
            rfl
      obtain ⟨hend, hregular, kept, hkept, hnames⟩ := ih (collect tree c f) hnext
      constructor
      · exact hend
      · rw [hregular, hnames]
        cases hlook : tree.look f with
        | symlink target =>
            constructor
            · simp [collect, hlook, Member.isRegular, Entry.isFile]
            · refine ⟨f :: kept, hkept.cons_cons f, ?_⟩
              simp [collect, hlook]
        | other =>
            constructor
            · simp [collect, hlook, Entry.isFile]
            · refine ⟨kept, hkept.cons f, ?_⟩
              simp [collect, hlook]
        | file data executable =>
            constructor
            · simp [collect, hlook, List.filter_cons, Member.isRegular, Entry.isFile]
            · refine ⟨f :: kept, hkept.cons_cons f, ?_⟩
              simp [collect, hlook]

/-- The tarball has each file once, counts its regular files, and they are those of the tree. -/
theorem fromWorktree_spec {tree : Worktree} {tarball : Tarball}
    (h : fromWorktree tree = .ok tarball) :
    tarball.fileCount = (tarball.members.filter Member.isRegular).length ∧
      ((tarball.members.filter Member.isRegular).map Member.name).Perm (regularFiles tree) ∧
      (tarball.members.map Member.name).Nodup := by
  unfold fromWorktree at h
  simp only at h
  split_ifs at h with htotal
  cases h
  obtain ⟨hcount, hregular, kept, hkept, hnames⟩ :=
    foldl_collect tree (uploaded tree) ⟨[], [], 0⟩ rfl
  have hperm := Sorting.stableSort_perm Member.name
    ((uploaded tree).foldl (collect tree) ⟨[], [], 0⟩).entries
  constructor
  · rw [hcount]
    exact ((hperm.filter _).length_eq).symm
  · constructor
    · refine ((hperm.filter _).map _).trans (List.Perm.of_eq ?_)
      exact hregular
    · rw [(hperm.map _).nodup_iff, hnames]
      apply List.Nodup.sublist hkept
      rw [uploaded, (Sorting.sorted_perm _).nodup_iff]
      exact (List.nodup_dedup _).filter _

/-- The line ends in the paths that find prints, one for each path and those of its name. -/
theorem count_findOutput (entries : List WorkEntry) :
    (findOutput entries).count '\n' =
      (((entries.filter fun e => e.regular && printed e.path).map WorkEntry.path).map
        fun path => path.count '\n' + 1).sum := by
  unfold findOutput
  rw [List.count_flatMap, List.map_map]
  congr 1
  apply List.map_congr_left
  intro e _
  have hwork : work.count '\n' = 0 := by decide
  simp [fullPath, hwork]

/-- The regular files that find prints. -/
def counted (tree : Worktree) : List Name := (regularFiles tree).filter printed

/-- The regular files in the supervisor's directories. -/
def passedOver (tree : Worktree) : List Name :=
  (regularFiles tree).filter fun f => decide (Supervised f)

theorem findOutput_complete {tree : Worktree} {tarball : Tarball} {entries : List WorkEntry}
    (h : fromWorktree tree = .ok tarball) (hcomplete : Complete tarball entries) :
    (findOutput entries).count '\n' =
      ((counted tree).map fun path => path.count '\n').sum + (counted tree).length := by
  obtain ⟨_, hregular, hnodup⟩ := fromWorktree_spec h
  have hperm : ((entries.filter fun e => e.regular && printed e.path).map WorkEntry.path).Perm
      (counted tree) := by
    refine List.Perm.trans ?_ (hregular.filter printed)
    rw [List.perm_ext_iff_of_nodup]
    · intro path
      simp only [List.mem_map, List.mem_filter, Bool.and_eq_true]
      constructor
      · intro hpath
        obtain ⟨e, ⟨he, hregular, hprinted⟩, rfl⟩ := hpath
        rcases hcomplete.only e he hregular with hsupervised | ⟨m, hm, hname, hm'⟩
        · exact absurd hsupervised ((printed_iff _).mp hprinted)
        · exact ⟨⟨m, ⟨hm, hm'⟩, hname⟩, hprinted⟩
      · intro hpath
        obtain ⟨⟨m, ⟨hm, hregular⟩, rfl⟩, hprinted⟩ := hpath
        exact ⟨⟨m.name, m.isRegular⟩, ⟨hcomplete.arrived m hm, hregular, hprinted⟩, rfl⟩
    · exact hcomplete.paths.sublist (List.filter_sublist.map _)
    · exact (hnodup.sublist (List.filter_sublist.map _)).filter _
  rw [count_findOutput, (hperm.map _).sum_eq]
  generalize counted tree = names
  induction names with
  | nil => rfl
  | cons name names ih =>
      rw [List.map_cons, List.sum_cons, ih, List.map_cons, List.sum_cons, List.length_cons]
      omega

theorem regular_split (tree : Worktree) :
    (regularFiles tree).length = (counted tree).length + (passedOver tree).length := by
  rw [List.length_eq_length_filter_add printed, counted, passedOver]
  congr 2
  apply List.filter_congr
  intro f _
  cases h : printed f with
  | true => simp [(printed_iff f).mp h]
  | false =>
      have hsupervised : Supervised f := by
        by_contra hnot
        rw [(printed_iff f).mpr hnot] at h
        cases h
      simp [hsupervised]

/-- The digits of a number are no white space. -/
theorem isSpace_of_mem_toString {n : Nat} {c : Char} (hc : c ∈ (toString n).toList) :
    Text.isSpace c = false := by
  rw [Nat.toString_eq_ofList_toDigits, String.toList_ofList] at hc
  have hrange := Char.isDigit_iff_toNat.mp
    (Nat.isDigit_of_mem_toDigits (by decide) (by decide) hc)
  have hzero : '0'.toNat = 48 := by decide
  have hnine : '9'.toNat = 57 := by decide
  unfold Text.isSpace
  simp
  omega

theorem strip_line {text : String} (hne : text ≠ "")
    (htext : forall c, c ∈ text.toList -> Text.isSpace c = false) :
    Text.strip (text ++ "\n") = text := by
  have hlist : (text ++ "\n").toList = text.toList ++ ['\n'] := by
    rw [String.toList_append]
    rfl
  have hne' : text.toList ≠ [] := by
    intro h
    exact hne (String.toList_eq_nil_iff.mp h)
  have hstart : forall tail : List Char, forall l : List Char, l ≠ [] ->
      (forall c, c ∈ l -> Text.isSpace c = false) ->
      (l ++ tail).dropWhile Text.isSpace = l ++ tail := by
    intro tail l hl hall
    cases l with
    | nil => exact absurd rfl hl
    | cons c rest =>
        rw [List.cons_append, List.dropWhile_cons_of_neg]
        rw [hall c List.mem_cons_self]
        exact Bool.false_ne_true
  have hback : (text.toList.reverse).dropWhile Text.isSpace = text.toList.reverse := by
    have h := hstart [] text.toList.reverse (by simpa using hne')
      (fun c hc => htext c (List.mem_reverse.mp hc))
    rwa [List.append_nil] at h
  unfold Text.strip
  rw [hlist, hstart ['\n'] text.toList hne' htext, List.reverse_append]
  show String.ofList ((('\n' :: text.toList.reverse).dropWhile Text.isSpace).reverse) = text
  rw [List.dropWhile_cons_of_pos (by decide), hback, List.reverse_reverse, String.ofList_toList]

theorem strip_wordCount (output : Name) :
    Text.strip (wordCount output) = toString (output.count '\n') := by
  apply strip_line
  · intro h
    have hdigits := congrArg String.toList h
    rw [Nat.toString_eq_ofList_toDigits, String.toList_ofList] at hdigits
    exact Nat.toDigits_ne_nil hdigits
  · intro c hc
    exact isSpace_of_mem_toString hc

theorem toString_injective {n m : Nat} (h : toString n = toString m) : n = m := by
  rw [Nat.toString_eq_ofList_toDigits, Nat.toString_eq_ofList_toDigits] at h
  have hdigits : Nat.toDigits 10 n = Nat.toDigits 10 m := by
    simpa using congrArg String.toList h
  have hvalue := congrArg (Nat.ofDigitChars 10 · 0) hdigits
  simpa using hvalue

theorem uploadOne_ok_iff {profile : String} {tarball : Tarball} {entries : List WorkEntry} :
    uploadOne profile tarball 0 entries = .ok () <->
      (findOutput entries).count '\n' = tarball.fileCount := by
  unfold uploadOne
  rw [if_neg (by simp), strip_wordCount]
  constructor
  · intro h
    by_contra hne
    rw [if_pos] at h
    · cases h
    · intro heq
      exact hne (toString_injective heq)
  · intro h
    rw [h]
    simp

/-- A working tree with a directory, a symbolic link and a secret. -/
def plainTree : Worktree :=
  { cachedOrOther := ["src/a".toList, "link".toList, "local.key".toList]
    deleted := []
    untracked := ["local.key".toList]
    look := fun f => if f = "link".toList then .symlink "src/a".toList else .file [1] false }

def plainTarball : Tarball :=
  { members := [⟨"link".toList, .symlink "src/a".toList, 0o777⟩,
      ⟨"src/a".toList, .regular [1], 0o644⟩]
    files := ["link".toList, "src/a".toList]
    fileCount := 1
    skipped := ["local.key".toList] }

def plainEntries : List WorkEntry :=
  [⟨"link".toList, false⟩, ⟨"src/a".toList, true⟩, ⟨"home/.bashrc".toList, true⟩]

theorem plainTree_tarball : fromWorktree plainTree = .ok plainTarball := by
  decide

theorem plainTree_complete : Complete plainTarball plainEntries := by
  constructor
  · decide
  · decide
  · decide

/-- A working tree with one file, in a directory of the supervisor's name. -/
def homeTree : Worktree :=
  { cachedOrOther := ["home/notes".toList]
    deleted := []
    untracked := []
    look := fun _ => .file [] false }

def homeTarball : Tarball :=
  { members := [⟨"home/notes".toList, .regular [], 0o644⟩]
    files := ["home/notes".toList]
    fileCount := 1
    skipped := [] }

/-- What the pod holds after the extraction. -/
def homeEntries : List WorkEntry := [⟨"home/notes".toList, true⟩]

theorem homeTree_tarball : fromWorktree homeTree = .ok homeTarball := by
  decide

theorem homeTree_complete : Complete homeTarball homeEntries := by
  constructor
  · decide
  · intro m hm
    rw [List.mem_singleton.mp hm]
    exact List.mem_singleton.mpr rfl
  · intro e he _
    rw [List.mem_singleton.mp he]
    exact Or.inl (by decide)

end Upload
end Dev
end Ostia
