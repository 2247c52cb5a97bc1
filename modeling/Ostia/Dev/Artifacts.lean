import Mathlib.Algebra.BigOperators.Group.List.Basic
import Mathlib.Algebra.Ring.Nat
import Ostia.Dev.PosixPath
import Ostia.Foundation.Deciding
import Ostia.Foundation.Fallible

/-!
# Artifacts of a run

The tar of artifacts comes from an untrusted pod.  Each member passes the data filter of the
tar library, then an allowlist that maps its name, and the rules on links and size.
-/

namespace Ostia
namespace Dev
namespace Artifacts

open Foundation PosixPath

/-!
## Members and the library
-/

inductive Kind where
  | regular
  | directory
  | symlink
  | hardlink
  | special
deriving DecidableEq

structure Member where
  name : Name
  kind : Kind
  size : Nat
deriving DecidableEq

/-- What is used of the tar library and of the file system. -/
structure Python where
  /-- The member as filtered for a destination; none when the filter refuses it. -/
  dataFilter : Member -> Name -> Option Member
  realpath : Name -> Name
  /-- Whether a file can be created after those that were written. -/
  creates : List Name -> Name -> Bool

def control : List Name :=
  ["steps.json".toList, "tests.json".toList, "log.txt".toList, "fingerprint.txt".toList]

def capBytes : Nat := 2 * 1024 ^ 3

def testing : Name := "Testing/".toList

def buildAllow : List Name := ["ostia-summary.txt".toList, "junit*.xml".toList, "Testing/*".toList]

def bench : Name := "bench/results/".toList

/-!
## Extraction
-/

/-- The name that a member is written under, if the allowlist has one for it. -/
def target (name buildRel : Name) : Option Name :=
  let pre := stripSlashes buildRel ++ ['/']
  if pre <+: name then
    let rel := name.drop pre.length
    if (buildAllow.any fun pat => fnmatch rel pat) ∧ '/' ∉ before testing rel then some rel
    else none
  else if bench <+: name ∧ name ≠ bench then some name
  else none

/-- A member that was written, with the name and size it was written with. -/
structure Written where
  member : Member
  file : Member
deriving DecidableEq

structure Extraction where
  written : List Written
  dropped : List Name
  total : Nat
deriving DecidableEq

section Extract

variable (py : Python) (dest buildRel : Name)

def root : Name := py.realpath dest ++ ['/']

def Extraction.drop (ex : Extraction) (name : Name) : Extraction :=
  { ex with dropped := ex.dropped ++ [name] }

/-- The filter of the extraction: it adds to the dropped names and the total. -/
def keep (ex : Extraction) (member : Member) : Extraction × Option Member :=
  match py.dataFilter member dest with
  | none => (ex.drop member.name, none)
  | some filtered =>
      if filtered.name ≠ member.name then (ex.drop member.name, none)
      else if filtered.kind = .directory then (ex, none)
      else if filtered.kind ≠ .regular then (ex.drop member.name, none)
      else
        match target member.name buildRel with
        | none => (ex.drop member.name, none)
        | some name =>
            if ['.', '.'] ∈ parts name ∨ ¬root py dest <+: py.realpath (join dest name) ∨
                ex.total + filtered.size > capBytes then
              (ex.drop member.name, none)
            else
              ({ ex with total := ex.total + filtered.size }, some { filtered with name := name })

/-- A name whose last segment is a dot is a directory's, and cannot be written to.  Slashes at
the end of a name do not count. -/
def opens (name : Name) : Bool :=
  ((segments name).filter (· ≠ [])).getLast? ≠ some ['.']

/-- The extraction of one member; an error leaves what was done before it. -/
def extractMember (ex : Extraction) (member : Member) : Except Extraction Extraction :=
  match keep py dest buildRel ex member with
  | (ex, none) => .ok ex
  | (ex, some file) =>
      if opens file.name && py.creates (ex.written.map fun w => w.file.name) file.name then
        .ok { ex with written := ex.written ++ [⟨member, file⟩] }
      else .error ex

def extractArtifacts (members : List Member) : Except Extraction Extraction :=
  members.foldlM (extractMember py dest buildRel) ⟨[], [], 0⟩

/-!
## What the extraction promises
-/

/-- The relative paths that may be written. -/
def Allowed (name : Name) : Prop :=
  parts name = ["ostia-summary.txt".toList] ∨
    (exists file, parts name = [file] ∧ fnmatch file "junit*.xml".toList = true) ∨
    (exists below, below ≠ [] ∧ parts name = "Testing".toList :: below) ∨
    exists below, below ≠ [] ∧ parts name = "bench".toList :: "results".toList :: below

/-- A relative path without a step to a parent directory. -/
def Inside (name : Name) : Prop := isAbsolute name = false ∧ ['.', '.'] ∉ parts name

/-- Only regular files are written, inside the destination at allowed paths and not at those of
the control files, and they fit the cap. -/
structure Safe (ex : Extraction) : Prop where
  regular : forall w, w ∈ ex.written -> w.file.kind = .regular
  inside : forall w, w ∈ ex.written ->
    Inside w.file.name ∧ root py dest <+: py.realpath (join dest w.file.name)
  allowed : forall w, w ∈ ex.written -> Allowed w.file.name
  control : forall w, w ∈ ex.written -> forall c, c ∈ control -> parts w.file.name ≠ [c]
  size : (ex.written.map fun w => w.file.size).sum ≤ capBytes

/-- Every member is written safely or listed, but for directories. -/
structure Confined (members : List Member) (ex : Extraction) : Prop extends Safe py dest ex where
  listed : forall m, m ∈ members -> m.kind ≠ .directory ->
    m.name ∈ ex.dropped ∨ m ∈ ex.written.map Written.member

end Extract

/-!
## The names that the allowlist lets through
-/

def junit : Name := "junit".toList

def xml : Name := ".xml".toList

/-- The names that the allowlist lets through though they are none of its paths: a report's name
with a directory that ends in `Testing`, and the two directories themselves as files. -/
def Misplaced (name : Name) : Prop :=
  (exists y z, '/' ∉ y ∧ name = junit ++ y ++ testing ++ z ++ xml) ∨
    (exists slashes, (forall c, c ∈ slashes -> c = '/') ∧ name = testing ++ slashes) ∨
    exists slashes, slashes ≠ [] ∧ (forall c, c ∈ slashes -> c = '/') ∧ name = bench ++ slashes

/-- The parts of the patterns and of the directories. -/
theorem literals :
    "junit*.xml".toList = junit ++ '*' :: xml ∧ "Testing/*".toList = testing ++ ['*'] ∧
      testing = "Testing".toList ++ ['/'] ∧
      bench = "bench".toList ++ '/' :: ("results".toList ++ ['/']) := by decide

theorem fnmatch_junit {name : Name} :
    fnmatch name "junit*.xml".toList = true <-> exists y, name = junit ++ y ++ xml := by
  rw [literals.1, fnmatch_literal (by decide)]
  constructor
  · intro h
    obtain ⟨back, rfl, hback⟩ := h
    obtain ⟨y, rest, rfl, hrest⟩ := fnmatch_star.mp hback
    rw [← List.append_nil xml, fnmatch_literal (by decide)] at hrest
    obtain ⟨last, rfl, hlast⟩ := hrest
    rw [fnmatch_nil.mp hlast, List.append_nil]
    exact ⟨y, by rw [List.append_assoc]⟩
  · intro h
    obtain ⟨y, rfl⟩ := h
    refine ⟨y ++ xml, List.append_assoc _ _ _, fnmatch_star.mpr ⟨y, xml, rfl, ?_⟩⟩
    rw [← List.append_nil xml, fnmatch_literal (by decide)]
    exact ⟨[], rfl, rfl⟩

theorem fnmatch_testing {name : Name} :
    fnmatch name "Testing/*".toList = true <-> exists z, name = testing ++ z := by
  rw [literals.2.1, fnmatch_literal (by decide)]
  constructor
  · intro h
    obtain ⟨z, hz, _⟩ := h
    exact ⟨z, hz⟩
  · intro h
    obtain ⟨z, hz⟩ := h
    exact ⟨z, hz, fnmatch_star.mpr ⟨z, [], (List.append_nil z).symm, rfl⟩⟩

theorem fnmatch_summary {name : Name} :
    fnmatch name "ostia-summary.txt".toList = true <-> name = "ostia-summary.txt".toList := by
  have hpattern : "ostia-summary.txt".toList = "ostia-summary.txt".toList ++ [] :=
    (List.append_nil _).symm
  conv_lhs => rw [hpattern]
  rw [fnmatch_literal (by decide)]
  constructor
  · intro h
    obtain ⟨back, rfl, hback⟩ := h
    rw [fnmatch_nil.mp hback, List.append_nil]
  · intro h
    exact ⟨[], by rw [h, List.append_nil], rfl⟩

/-- A report's name with a slash that stands after `Testing`. -/
theorem junit_split {y front later : Name} (hfront : '/' ∉ front)
    (h : junit ++ y ++ xml = front ++ testing ++ later) :
    exists y' z, '/' ∉ y' ∧ junit ++ y ++ xml = junit ++ y' ++ testing ++ z ++ xml := by
  have htesting : exists rest, testing = 'T' :: rest := ⟨"esting/".toList, by decide⟩
  obtain ⟨rest, hrest⟩ := htesting
  have hstart : junit <+: front := by
    rw [List.append_assoc, List.append_assoc, hrest] at h
    exact prefix_of_append_eq (by decide) h
  have hend : xml <:+ later := by
    rw [literals.2.2.1, ← List.append_assoc, List.append_assoc _ ['/']] at h
    exact suffix_of_append_eq (by decide) h
  obtain ⟨y', rfl⟩ := hstart
  obtain ⟨z, rfl⟩ := hend
  refine ⟨y', z, fun hmem => hfront (List.mem_append_right _ hmem), ?_⟩
  rw [h, ← List.append_assoc]

/-- The names that the allowlist gives. -/
theorem target_cases {name buildRel file : Name} (h : target name buildRel = some file) :
    file = "ostia-summary.txt".toList ∨
      (exists y, '/' ∉ file ∧ file = junit ++ y ++ xml) ∨
      (exists z, file = testing ++ z) ∨
      (exists y z, '/' ∉ y ∧ file = junit ++ y ++ testing ++ z ++ xml) ∨
      exists z, z ≠ [] ∧ file = bench ++ z := by
  unfold target at h
  simp only at h
  split_ifs at h with hpre hallow hbench
  · cases h
    generalize name.drop (stripSlashes buildRel ++ ['/']).length = rel at hallow
    obtain ⟨hany, hbefore⟩ := hallow
    rw [buildAllow, List.any_cons, List.any_cons, List.any_cons, List.any_nil, Bool.or_false,
      Bool.or_eq_true, Bool.or_eq_true, fnmatch_summary, fnmatch_junit, fnmatch_testing] at hany
    rcases hany with hsummary | ⟨y, hjunit⟩ | htesting
    · exact Or.inl hsummary
    · rcases before_spec testing rel with hwhole | ⟨later, hlater⟩
      · rw [hwhole] at hbefore
        exact Or.inr (Or.inl ⟨y, hbefore, hjunit⟩)
      · have hsplit : junit ++ y ++ xml = before testing rel ++ testing ++ later := by
          rw [← hjunit]
          exact hlater
        obtain ⟨y', z, hy', heq⟩ := junit_split hbefore hsplit
        exact Or.inr (Or.inr (Or.inr (Or.inl ⟨y', z, hy', hjunit.trans heq⟩)))
    · exact Or.inr (Or.inr (Or.inl htesting))
  · cases h
    obtain ⟨⟨z, hz⟩, hne⟩ := hbench
    refine Or.inr (Or.inr (Or.inr (Or.inr ⟨z, ?_, hz.symm⟩)))
    intro hnil
    rw [hnil, List.append_nil] at hz
    exact hne hz.symm

theorem parts_testing (z : Name) : parts (testing ++ z) = "Testing".toList :: parts z := by
  rw [literals.2.2.1, List.append_assoc]
  exact parts_append (by decide) (by decide) (by decide) z

theorem parts_bench (z : Name) :
    parts (bench ++ z) = "bench".toList :: "results".toList :: parts z := by
  rw [literals.2.2.2, List.append_assoc, List.cons_append, List.append_assoc,
    parts_append (by decide) (by decide) (by decide)]
  exact congrArg _ (parts_append (by decide) (by decide) (by decide) z)

/-- A directory whose name starts like a report's. -/
theorem parts_junitTesting {y : Name} (hy : '/' ∉ y) (rest : Name) :
    parts (junit ++ y ++ testing ++ rest) =
      (junit ++ y ++ "Testing".toList) :: parts rest := by
  rw [literals.2.2.1, ← List.append_assoc, List.append_assoc _ ['/']]
  have hjunit : exists c tail, junit = c :: tail ∧ c ≠ '.' :=
    ⟨'j', "unit".toList, by decide, by decide⟩
  obtain ⟨c, tail, hc, hdot⟩ := hjunit
  refine parts_append ?_ ?_ ?_ rest
  · rw [List.mem_append, List.mem_append, not_or, not_or]
    exact ⟨⟨by decide, hy⟩, by decide⟩
  · rw [hc]
    exact List.cons_ne_nil _ _
  · rw [hc]
    exact fun heq => hdot (List.cons.inj heq).1

theorem parts_junit {y : Name} (hslash : '/' ∉ junit ++ y ++ xml) :
    parts (junit ++ y ++ xml) = [junit ++ y ++ xml] := by
  have hjunit : exists c tail, junit = c :: tail ∧ c ≠ '.' :=
    ⟨'j', "unit".toList, by decide, by decide⟩
  obtain ⟨c, tail, hc, hdot⟩ := hjunit
  refine parts_single hslash ?_ ?_
  · rw [hc]
    exact List.cons_ne_nil _ _
  · rw [hc]
    exact fun heq => hdot (List.cons.inj heq).1

/-- What stands below directories opens when the whole name does. -/
theorem opens_of_append (dir : Name) {rest : Name} (hslash : '/' ∉ dir)
    (h : opens (dir ++ '/' :: rest)) :
    ((segments rest).filter (· ≠ [])).getLast? ≠ some ['.'] := by
  intro hlast
  rw [opens, decide_eq_true_iff, segments_append hslash, ← List.singleton_append,
    List.filter_append, List.getLast?_append, hlast] at h
  exact h rfl

theorem allowed_of_target {name buildRel file : Name} (h : target name buildRel = some file)
    (hopens : opens file = true) (hplaced : ¬Misplaced file) : Allowed file := by
  rcases target_cases h with rfl | ⟨y, hslash, rfl⟩ | ⟨z, rfl⟩ | ⟨y, z, hy, rfl⟩ | ⟨z, hne, rfl⟩
  · exact Or.inl (by decide)
  · exact Or.inr (Or.inl ⟨_, parts_junit hslash, fnmatch_junit.mpr ⟨y, rfl⟩⟩)
  · refine Or.inr (Or.inr (Or.inl ⟨parts z, ?_, parts_testing z⟩))
    intro hempty
    rw [literals.2.2.1, List.append_assoc] at hopens
    have hslashes := eq_slash_of_parts hempty (opens_of_append _ (by decide) hopens)
    exact hplaced (Or.inr (Or.inl ⟨z, hslashes, rfl⟩))
  · exact absurd (Or.inl ⟨y, z, hy, rfl⟩) hplaced
  · refine Or.inr (Or.inr (Or.inr ⟨parts z, ?_, parts_bench z⟩))
    intro hempty
    have hrest : opens ("bench".toList ++ '/' :: ("results".toList ++ '/' :: z)) = true := by
      rw [literals.2.2.2, List.append_assoc, List.cons_append, List.append_assoc] at hopens
      exact hopens
    have hbelow : opens ("results".toList ++ '/' :: z) = true := by
      rw [opens, decide_eq_true_iff]
      exact opens_of_append _ (by decide) hrest
    have hslashes := eq_slash_of_parts hempty (opens_of_append _ (by decide) hbelow)
    exact hplaced (Or.inr (Or.inr ⟨z, hne, hslashes, rfl⟩))

theorem not_allowed_of_misplaced {file : Name} (h : Misplaced file) : ¬Allowed file := by
  rcases h with ⟨y, z, hy, rfl⟩ | ⟨z, hz, rfl⟩ | ⟨z, _, hz, rfl⟩
  · have hparts : parts (junit ++ y ++ testing ++ z ++ xml) =
        (junit ++ y ++ "Testing".toList) :: parts (z ++ xml) := by
      rw [List.append_assoc _ z, parts_junitTesting hy]
    have hhead : (junit ++ y ++ "Testing".toList).head? = some 'j' := by
      rw [List.append_assoc, List.head?_append]
      have hj : junit.head? = some 'j' := by decide
      rw [hj]
      rfl
    have hfirst : forall first : Name, first.head? ≠ some 'j' -> forall rest,
        parts (junit ++ y ++ testing ++ z ++ xml) ≠ first :: rest := by
      intro first hne rest heq
      rw [hparts] at heq
      rw [(List.cons.inj heq).1] at hhead
      exact hne hhead
    rintro (hsummary | ⟨file, hfile, hjunit⟩ | ⟨below, _, htesting⟩ | ⟨below, _, hbench⟩)
    · exact hfirst _ (by decide) _ hsummary
    · rw [hparts] at hfile
      obtain ⟨y', hy'⟩ := fnmatch_junit.mp hjunit
      rw [← (List.cons.inj hfile).1] at hy'
      have hlast := congrArg List.getLast? hy'
      have hg : ("Testing".toList).getLast? = some 'g' := by decide
      have hl : xml.getLast? = some 'l' := by decide
      simp only [List.getLast?_append, hg, hl, Option.some_or] at hlast
      exact absurd hlast (by decide)
    · exact hfirst _ (by decide) _ htesting
    · exact hfirst _ (by decide) _ hbench
  · rintro (hsummary | ⟨file, hfile, hjunit⟩ | ⟨below, hbelow, htesting⟩ | ⟨below, _, hbench⟩)
    · rw [parts_testing, parts_slashes hz] at hsummary
      exact absurd hsummary (by decide)
    · rw [parts_testing, parts_slashes hz] at hfile
      cases hfile
      exact absurd hjunit (by decide)
    · rw [parts_testing, parts_slashes hz] at htesting
      exact hbelow (List.cons.inj htesting).2.symm
    · rw [parts_testing, parts_slashes hz] at hbench
      exact absurd (List.cons.inj hbench).1 (by decide)
  · rintro (hsummary | ⟨file, hfile, hjunit⟩ | ⟨below, hbelow, htesting⟩ | ⟨below, hne, hbench⟩)
    · rw [parts_bench] at hsummary
      cases (List.cons.inj hsummary).2
    · rw [parts_bench] at hfile
      cases (List.cons.inj hfile).2
    · rw [parts_bench] at htesting
      exact absurd (List.cons.inj htesting).1 (by decide)
    · rw [parts_bench, parts_slashes hz] at hbench
      exact hne (List.cons.inj (List.cons.inj hbench).2).2.symm

theorem inside_of_target {name buildRel file : Name} (h : target name buildRel = some file)
    (hdots : ['.', '.'] ∉ parts file) : Inside file := by
  have hhead : forall (a b : Name) (c : Char), a.head? = some c -> c ≠ '/' ->
      isAbsolute (a ++ b) = false := by
    intro a b c ha hc
    rw [isAbsolute, List.head?_append, ha, decide_eq_false_iff_not]
    exact fun heq => hc (Option.some.inj heq)
  refine ⟨?_, hdots⟩
  rcases target_cases h with rfl | ⟨y, _, rfl⟩ | ⟨z, rfl⟩ | ⟨y, z, _, rfl⟩ | ⟨z, _, rfl⟩
  · decide
  · rw [List.append_assoc]
    exact hhead _ _ 'j' (by decide) (by decide)
  · exact hhead _ _ 'T' (by decide) (by decide)
  · rw [List.append_assoc, List.append_assoc, List.append_assoc]
    exact hhead _ _ 'j' (by decide) (by decide)
  · exact hhead _ _ 'b' (by decide) (by decide)

/-- No control file is at an allowed path. -/
theorem not_control_of_allowed {file : Name} (h : Allowed file) :
    forall c, c ∈ control -> parts file ≠ [c] := by
  have hnames : forall c, c ∈ control ->
      c ≠ "ostia-summary.txt".toList ∧ fnmatch c "junit*.xml".toList = false := by
    decide
  intro c hc heq
  rcases h with hsummary | ⟨name, hname, hjunit⟩ | ⟨below, hne, htesting⟩ | ⟨below, _, hbench⟩
  · rw [heq] at hsummary
    exact (hnames c hc).1 (List.cons.inj hsummary).1
  · rw [heq] at hname
    rw [← (List.cons.inj hname).1, (hnames c hc).2] at hjunit
    cases hjunit
  · rw [heq] at htesting
    exact hne (List.cons.inj htesting).2.symm
  · rw [heq] at hbench
    cases (List.cons.inj hbench).2

/-!
## What an extraction writes
-/

section Run

variable (py : Python) (dest buildRel : Name)

/-- A member as it is written when it fits the cap. -/
def eligible (member : Member) : Option Member :=
  match py.dataFilter member dest with
  | none => none
  | some filtered =>
      if filtered.name ≠ member.name ∨ filtered.kind ≠ .regular then none
      else
        match target member.name buildRel with
        | none => none
        | some name =>
            if ['.', '.'] ∈ parts name ∨ ¬root py dest <+: py.realpath (join dest name) then none
            else some { filtered with name := name }

/-- The size of the eligible members of a list that fit the cap one after the other. -/
def used (members : List Member) : Nat :=
  members.foldl
    (fun total m =>
      match eligible py dest buildRel m with
      | none => total
      | some file => if total + file.size ≤ capBytes then total + file.size else total)
    0

/-- No eligible member that fits the cap has a misplaced name. -/
def Clean (members : List Member) : Prop :=
  forall before m after file, members = before ++ m :: after ->
    eligible py dest buildRel m = some file ->
    used py dest buildRel before + file.size ≤ capBytes -> ¬Misplaced file.name

/-- What holds after the members so far. -/
structure Ran (members : List Member) (ex : Extraction) : Prop where
  total : ex.total = used py dest buildRel members
  size : (ex.written.map fun w => w.file.size).sum = ex.total
  cap : ex.total ≤ capBytes
  written : forall w, w ∈ ex.written -> opens w.file.name = true ∧
    eligible py dest buildRel w.member = some w.file ∧
    exists before after, members = before ++ w.member :: after ∧
      used py dest buildRel before + w.file.size ≤ capBytes
  all : forall before m after file, members = before ++ m :: after ->
    eligible py dest buildRel m = some file ->
    used py dest buildRel before + file.size ≤ capBytes -> ⟨m, file⟩ ∈ ex.written
  listed : forall m, m ∈ members -> m.name ∈ ex.dropped ∨ m ∈ ex.written.map Written.member ∨
    exists filtered, py.dataFilter m dest = some filtered ∧ filtered.kind = .directory

variable {py dest buildRel}

theorem eligible_spec {m file : Member} (h : eligible py dest buildRel m = some file) :
    file.kind = .regular ∧ target m.name buildRel = some file.name ∧
      ['.', '.'] ∉ parts file.name ∧
      root py dest <+: py.realpath (join dest file.name) := by
  unfold eligible at h
  cases hfilter : py.dataFilter m dest with
  | none => simp [hfilter] at h
  | some filtered =>
      simp only [hfilter] at h
      split_ifs at h with hsame
      rw [not_or, not_not, not_not] at hsame
      cases htarget : target m.name buildRel with
      | none => simp [htarget] at h
      | some name =>
          simp only [htarget] at h
          split_ifs at h with hrefused
          rw [not_or, not_not] at hrefused
          cases h
          exact ⟨hsame.2, rfl, hrefused⟩

variable (py dest buildRel) in
/-- The filter drops a member, passes a directory over, or keeps an eligible member that fits. -/
theorem keep_cases (ex : Extraction) (m : Member) :
    (keep py dest buildRel ex m = (ex.drop m.name, none) ∧
      forall file, eligible py dest buildRel m = some file ->
        capBytes < ex.total + file.size) ∨
    (keep py dest buildRel ex m = (ex, none) ∧ eligible py dest buildRel m = none ∧
      exists filtered, py.dataFilter m dest = some filtered ∧ filtered.kind = .directory) ∨
    exists file, eligible py dest buildRel m = some file ∧ ex.total + file.size ≤ capBytes ∧
      keep py dest buildRel ex m = ({ ex with total := ex.total + file.size }, some file) := by
  unfold keep eligible
  cases hfilter : py.dataFilter m dest with
  | none => exact Or.inl ⟨rfl, fun file h => nomatch h⟩
  | some filtered =>
      by_cases hname : filtered.name ≠ m.name
      · simp only [if_pos hname, if_pos (Or.inl hname : _ ∨ filtered.kind ≠ .regular)]
        exact Or.inl ⟨trivial, fun file h => nomatch h⟩
      simp only [if_neg hname]
      by_cases hdir : filtered.kind = .directory
      · have hkind : filtered.kind ≠ .regular := by
          rw [hdir]
          decide
        simp only [if_pos hdir, if_pos (Or.inr hkind : filtered.name ≠ m.name ∨ _)]
        exact Or.inr (Or.inl ⟨trivial, trivial, filtered, rfl, hdir⟩)
      simp only [if_neg hdir]
      by_cases hkind : filtered.kind ≠ .regular
      · simp only [if_pos hkind, if_pos (Or.inr hkind : filtered.name ≠ m.name ∨ _)]
        exact Or.inl ⟨trivial, fun file h => nomatch h⟩
      have hneither : ¬(filtered.name ≠ m.name ∨ filtered.kind ≠ .regular) := not_or.mpr
        ⟨hname, hkind⟩
      simp only [if_neg hkind, if_neg hneither]
      cases htarget : target m.name buildRel with
      | none => exact Or.inl ⟨rfl, fun file h => nomatch h⟩
      | some name =>
          simp only
          by_cases hrefused : ['.', '.'] ∈ parts name ∨
              ¬root py dest <+: py.realpath (join dest name)
          · rw [if_pos (hrefused.imp_right Or.inl), if_pos hrefused]
            exact Or.inl ⟨rfl, fun file h => nomatch h⟩
          · rw [if_neg hrefused]
            rw [not_or] at hrefused
            by_cases hfull : ex.total + filtered.size > capBytes
            · rw [if_pos (Or.inr (Or.inr hfull))]
              refine Or.inl ⟨rfl, ?_⟩
              intro file h
              cases h
              exact hfull
            · rw [if_neg (by simp only [not_or]; exact ⟨hrefused.1, hrefused.2, hfull⟩)]
              exact Or.inr (Or.inr ⟨_, rfl, Nat.le_of_not_lt hfull, rfl⟩)

theorem used_concat (members : List Member) (m : Member) :
    used py dest buildRel (members ++ [m]) =
      match eligible py dest buildRel m with
      | none => used py dest buildRel members
      | some file =>
          if used py dest buildRel members + file.size ≤ capBytes then
            used py dest buildRel members + file.size
          else used py dest buildRel members := by
  unfold used
  rw [List.foldl_append, List.foldl_cons, List.foldl_nil]

/-- A split of a list with one more element is at that element or in the list. -/
theorem concat_split {members before after : List Member} {m last : Member}
    (h : members ++ [last] = before ++ m :: after) :
    (before = members ∧ m = last) ∨ exists rest, members = before ++ m :: rest := by
  rcases List.eq_nil_or_concat after with rfl | ⟨rest, final, rfl⟩
  · have hconcat := List.append_inj' h rfl
    exact Or.inl ⟨hconcat.1.symm, (List.cons.inj hconcat.2).1.symm⟩
  · right
    refine ⟨rest, ?_⟩
    have hcancel : members ++ [last] = (before ++ m :: rest) ++ [final] := by
      rw [h, List.append_assoc, List.cons_append]
      simp
    exact (List.append_inj' hcancel rfl).1

/-- A member that is not eligible, or does not fit, leaves what was written. -/
theorem Ran.skip {members : List Member} {ex : Extraction} {m : Member} {dropped : List Name}
    (h : Ran py dest buildRel members ex)
    (hout : forall file, eligible py dest buildRel m = some file ->
      capBytes < ex.total + file.size)
    (hdropped : forall name, name ∈ ex.dropped -> name ∈ dropped)
    (hlisted : m.name ∈ dropped ∨
      exists filtered, py.dataFilter m dest = some filtered ∧ filtered.kind = .directory) :
    Ran py dest buildRel (members ++ [m])
      { ex with dropped := dropped } := by
  have hused : used py dest buildRel (members ++ [m]) = used py dest buildRel members := by
    rw [used_concat]
    cases hm : eligible py dest buildRel m with
    | none => rfl
    | some file =>
        have hfull := hout file hm
        rw [h.total] at hfull
        exact if_neg (by omega)
  refine ⟨h.total.trans hused.symm, h.size, h.cap, ?_, ?_, ?_⟩
  · intro w hw
    obtain ⟨hopens, helig, before, after, hsplit, hfits⟩ := h.written w hw
    refine ⟨hopens, helig, before, after ++ [m], ?_, hfits⟩
    rw [hsplit, List.append_assoc, List.cons_append]
  · intro before m' after file hsplit helig hfits
    rcases concat_split hsplit with ⟨rfl, rfl⟩ | ⟨rest, hrest⟩
    · have hfull := hout file helig
      rw [h.total] at hfull
      omega
    · exact h.all before m' rest file hrest helig hfits
  · intro m' hm'
    rcases List.mem_append.mp hm' with hm' | hm'
    · rcases h.listed m' hm' with hname | hrest
      · exact Or.inl (hdropped _ hname)
      · exact Or.inr hrest
    · rw [List.mem_singleton.mp hm']
      exact hlisted.imp_right Or.inr

theorem Ran.write {members : List Member} {ex : Extraction} {m file : Member}
    (h : Ran py dest buildRel members ex)
    (helig : eligible py dest buildRel m = some file) (hfits : ex.total + file.size ≤ capBytes)
    (hopens : opens file.name = true) :
    Ran py dest buildRel (members ++ [m])
      { ex with total := ex.total + file.size, written := ex.written ++ [⟨m, file⟩] } := by
  have hroom : used py dest buildRel members + file.size ≤ capBytes := by
    rw [← h.total]
    exact hfits
  refine ⟨?_, ?_, hfits, ?_, ?_, ?_⟩
  · rw [used_concat, helig]
    simp only
    rw [if_pos hroom, h.total]
  · rw [List.map_append, List.sum_append, h.size, List.map_singleton, List.sum_singleton]
  · intro w hw
    rcases List.mem_append.mp hw with hw | hw
    · obtain ⟨hopens, helig, before, after, hsplit, hfits⟩ := h.written w hw
      refine ⟨hopens, helig, before, after ++ [m], ?_, hfits⟩
      rw [hsplit, List.append_assoc, List.cons_append]
    · rw [List.mem_singleton.mp hw]
      exact ⟨hopens, helig, members, [], rfl, hroom⟩
  · intro before m' after file' hsplit helig' hfits'
    rcases concat_split hsplit with ⟨_, rfl⟩ | ⟨rest, hrest⟩
    · rw [helig] at helig'
      cases helig'
      exact List.mem_append_right _ (List.mem_singleton_self _)
    · exact List.mem_append_left _ (h.all before m' rest file' hrest helig' hfits')
  · intro m' hm'
    rw [List.map_append]
    rcases List.mem_append.mp hm' with hm' | hm'
    · rcases h.listed m' hm' with hname | hwritten | hdir
      · exact Or.inl hname
      · exact Or.inr (Or.inl (List.mem_append_left _ hwritten))
      · exact Or.inr (Or.inr hdir)
    · rw [List.mem_singleton.mp hm']
      exact Or.inr (Or.inl (List.mem_append_right _ (List.mem_singleton_self _)))

/-- One more member: what was done goes on, or stays when the member cannot be written. -/
theorem Ran.extractMember {members : List Member} {ex : Extraction} (m : Member)
    (h : Ran py dest buildRel members ex) :
    match extractMember py dest buildRel ex m with
    | .ok ex' => Ran py dest buildRel (members ++ [m]) ex'
    | .error ex' => ex'.written = ex.written := by
  unfold Artifacts.extractMember
  rcases keep_cases py dest buildRel ex m with
    ⟨hkeep, hout⟩ | ⟨hkeep, hnone, hdir⟩ | ⟨file, helig, hfits, hkeep⟩
  · rw [hkeep]
    exact h.skip hout (fun name hname => List.mem_append_left _ hname)
      (Or.inl (List.mem_append_right _ (List.mem_singleton_self _)))
  · rw [hkeep]
    exact h.skip (fun file hfile => by rw [hnone] at hfile; cases hfile) (fun name hname => hname)
      (Or.inr hdir)
  · rw [hkeep]
    simp only
    split
    · rename_i hresult
      split_ifs at hresult with hcreated
      cases hresult
      rw [Bool.and_eq_true] at hcreated
      exact h.write helig hfits hcreated.1
    · rename_i hresult
      split_ifs at hresult with hcreated
      cases hresult
      rfl

theorem ran_nil : Ran py dest buildRel [] ⟨[], [], 0⟩ := by
  refine ⟨rfl, rfl, Nat.zero_le _, fun w hw => (List.not_mem_nil hw).elim, ?_,
    fun m hm => (List.not_mem_nil hm).elim⟩
  intro before m after file hsplit
  cases before with
  | nil => cases hsplit
  | cons b before => cases hsplit

variable (py dest buildRel) in
/-- An extraction that returns went through all members; one that raises went through some. -/
theorem extractArtifacts_ran (members : List Member) :
    match extractArtifacts py dest buildRel members with
    | .ok ex => Ran py dest buildRel members ex
    | .error ex => exists before after ex', members = before ++ after ∧
        Ran py dest buildRel before ex' ∧
        ex.written = ex'.written := by
  unfold extractArtifacts
  induction members using List.reverseRecOn with
  | nil => exact ran_nil
  | append_singleton members m ih =>
      rw [List.foldlM_append]
      cases hrun : members.foldlM (Artifacts.extractMember py dest buildRel)
          (⟨[], [], 0⟩ : Extraction) with
      | error ex =>
          rw [hrun] at ih
          obtain ⟨before, after, ex', hsplit, hran, hwritten⟩ := ih
          exact ⟨before, after ++ [m], ex', by rw [hsplit, List.append_assoc], hran, hwritten⟩
      | ok ex =>
          rw [hrun] at ih
          have hstep := Ran.extractMember m ih
          rw [Fallible.ok_bind, List.foldlM_cons]
          cases hone : Artifacts.extractMember py dest buildRel ex m with
          | error ex' =>
              rw [hone] at hstep
              exact ⟨members, [m], ex, rfl, ih, hstep⟩
          | ok ex' =>
              rw [hone] at hstep
              exact hstep

theorem Ran.safe {members : List Member} {ex ex' : Extraction}
    (h : Ran py dest buildRel members ex) (hclean : Clean py dest buildRel members)
    (hwritten : ex'.written = ex.written) : Safe py dest ex' := by
  have hspec : forall w, w ∈ ex'.written -> eligible py dest buildRel w.member = some w.file ∧
      Allowed w.file.name := by
    intro w hw
    rw [hwritten] at hw
    obtain ⟨hopens, helig, before, after, hsplit, hfits⟩ := h.written w hw
    exact ⟨helig, allowed_of_target (eligible_spec helig).2.1 hopens
      (hclean before w.member after w.file hsplit helig hfits)⟩
  refine ⟨?_, ?_, fun w hw => (hspec w hw).2, ?_, ?_⟩
  · exact fun w hw => (eligible_spec (hspec w hw).1).1
  · intro w hw
    obtain ⟨_, htarget, hdots, hroot⟩ := eligible_spec (hspec w hw).1
    exact ⟨inside_of_target htarget hdots, hroot⟩
  · exact fun w hw => not_control_of_allowed (hspec w hw).2
  · rw [hwritten, h.size]
    exact h.cap

theorem Clean.before {before after : List Member}
    (h : Clean py dest buildRel (before ++ after)) : Clean py dest buildRel before := by
  intro front m rest file hsplit
  apply h front m (rest ++ after) file
  rw [hsplit, List.append_assoc, List.cons_append]

/-- An extraction that returns is confined exactly when no eligible member that fits the cap has
a misplaced name; one that raises wrote nothing else then either. -/
theorem extractArtifacts_confined
    (hkind : forall m filtered, py.dataFilter m dest = some filtered -> filtered.kind = m.kind)
    (members : List Member) :
    (forall ex, extractArtifacts py dest buildRel members = .ok ex ->
      (Confined py dest members ex <-> Clean py dest buildRel members)) ∧
    forall ex, extractArtifacts py dest buildRel members = .error ex ->
      Clean py dest buildRel members -> Safe py dest ex := by
  have hran := extractArtifacts_ran py dest buildRel members
  constructor
  · intro ex hex
    rw [hex] at hran
    constructor
    · intro hconfined before m after file hsplit helig hfits hmisplaced
      have hwritten := hran.all before m after file hsplit helig hfits
      exact not_allowed_of_misplaced hmisplaced (hconfined.allowed _ hwritten)
    · intro hclean
      refine ⟨hran.safe hclean rfl, ?_⟩
      intro m hm hdir
      rcases hran.listed m hm with hname | hwritten | ⟨filtered, hfilter, hfiltered⟩
      · exact Or.inl hname
      · exact Or.inr hwritten
      · rw [hkind m filtered hfilter] at hfiltered
        exact absurd hfiltered hdir
  · intro ex hex hclean
    rw [hex] at hran
    obtain ⟨before, after, ex', rfl, hran, hwritten⟩ := hran
    exact hran.safe hclean.before hwritten

end Run

/-- A library and an empty destination where every path is as it is written. -/
def plainPython : Python where
  dataFilter m _ :=
    if m.kind = .special then none else some { m with name := m.name.dropWhile (· = '/') }
  realpath path := path
  creates written name := !written.contains name

def plainMember (name : String) : Member := ⟨name.toList, .regular, 1⟩

theorem plainPython_kind : forall m filtered,
    plainPython.dataFilter m "out".toList = some filtered ->
    filtered.kind = m.kind := by
  intro m filtered h
  simp only [plainPython] at h
  split_ifs at h
  cases h
  rfl

/-- Reports and a benchmark's results, and members that nothing allows. -/
def reportMembers : List Member :=
  [⟨"build".toList, .directory, 0⟩, plainMember "build/junit.xml",
    plainMember "build/Testing/x.log", plainMember "bench/results/0/a.jsonl",
    plainMember "bench/results/../../a", plainMember "build/junit.txt",
    ⟨"build/junit-1.xml".toList, .symlink, 0⟩]

/-- A member that nothing is written for, or that is written at an allowed path. -/
theorem clean_of_allowed {py : Python} {dest buildRel : Name} {members : List Member}
    (h : forall m, m ∈ members -> forall name, target m.name buildRel = some name ->
      Allowed name) : Clean py dest buildRel members := by
  intro front m after file hsplit helig _ hmisplaced
  have hm : m ∈ members := hsplit ▸ List.mem_append_right front List.mem_cons_self
  exact not_allowed_of_misplaced hmisplaced (h m hm _ (eligible_spec helig).2.1)

theorem extractArtifacts_confined_report :
    exists ex, extractArtifacts plainPython "out".toList "build".toList reportMembers = .ok ex ∧
      ex.written.map (fun w => w.file.name) = ["junit.xml".toList, "Testing/x.log".toList,
        "bench/results/0/a.jsonl".toList] ∧
      ex.dropped = ["bench/results/../../a".toList, "build/junit.txt".toList,
        "build/junit-1.xml".toList] ∧
      Confined plainPython "out".toList reportMembers ex := by
  let written : List Written :=
    [⟨plainMember "build/junit.xml", plainMember "junit.xml"⟩,
      ⟨plainMember "build/Testing/x.log", plainMember "Testing/x.log"⟩,
      ⟨plainMember "bench/results/0/a.jsonl", plainMember "bench/results/0/a.jsonl"⟩]
  have hrun : extractArtifacts plainPython "out".toList "build".toList reportMembers =
      .ok ⟨written, ["bench/results/../../a".toList, "build/junit.txt".toList,
        "build/junit-1.xml".toList], 3⟩ := by decide +kernel
  have hclean : Clean plainPython "out".toList "build".toList reportMembers := by
    apply clean_of_allowed
    intro m hm name hname
    have htarget : name ∈ reportMembers.filterMap fun m => target m.name "build".toList :=
      List.mem_filterMap.mpr ⟨m, hm, hname⟩
    have htargets : (reportMembers.filterMap fun m => target m.name "build".toList) =
        ["junit.xml".toList, "Testing/x.log".toList, "bench/results/0/a.jsonl".toList,
          "bench/results/../../a".toList, "junit-1.xml".toList] := by decide +kernel
    rw [htargets] at htarget
    simp only [List.mem_cons, List.not_mem_nil, or_false] at htarget
    rcases htarget with rfl | rfl | rfl | rfl | rfl
    · exact Or.inr (Or.inl ⟨"junit.xml".toList, by decide, by decide⟩)
    · exact Or.inr (Or.inr (Or.inl ⟨["x.log".toList], by decide, by decide⟩))
    · exact Or.inr (Or.inr (Or.inr ⟨["0".toList, "a.jsonl".toList], by decide, by decide⟩))
    · exact Or.inr (Or.inr (Or.inr ⟨["..".toList, "..".toList, "a".toList], by decide, by decide⟩))
    · exact Or.inr (Or.inl ⟨"junit-1.xml".toList, by decide, by decide⟩)
  exact ⟨_, hrun, rfl, rfl,
    ((extractArtifacts_confined plainPython_kind reportMembers).1 _ hrun).mpr hclean⟩

/-- A file in a directory whose name starts like a report's and ends in `Testing` is written. -/
theorem report_directory_written :
    exists ex, extractArtifacts plainPython "out".toList "build".toList
        [plainMember "build/junit-Testing/x.xml"] = .ok ex ∧
      (exists w, w ∈ ex.written ∧ w.file.name = "junit-Testing/x.xml".toList ∧
        ¬Allowed w.file.name) ∧
      ¬Confined plainPython "out".toList [plainMember "build/junit-Testing/x.xml"] ex := by
  let written : Written :=
    ⟨plainMember "build/junit-Testing/x.xml", plainMember "junit-Testing/x.xml"⟩
  have hrun : extractArtifacts plainPython "out".toList "build".toList
      [plainMember "build/junit-Testing/x.xml"] = .ok ⟨[written], [], 1⟩ := by decide
  have hname : "junit-Testing/x.xml".toList = junit ++ ['-'] ++ testing ++ ['x'] ++ xml := by
    decide
  have hnot : ¬Allowed "junit-Testing/x.xml".toList :=
    not_allowed_of_misplaced (Or.inl ⟨['-'], ['x'], by decide, hname⟩)
  have hmem : written ∈ [written] := List.mem_singleton_self written
  exact ⟨_, hrun, ⟨written, hmem, rfl, hnot⟩, fun h => hnot (h.allowed written hmem)⟩

end Artifacts
end Dev
end Ostia
