import Ostia.Telemetry.Catalog
import Ostia.Telemetry.Lines

/-!
# Well-formed headers

The header of a catalog should hold its fixed lines, the handle declarations of the catalog and
comments, and nothing else.  It does exactly when no metric shares its handle with an event and
no text of the catalog breaks out of its comment.
-/

namespace Ostia
namespace Telemetry

open Foundation

variable {S : Type}

/-- The lines are comments and the declarations, in their order. -/
inductive Reads (cr : Bool) : List (List Char) -> List Declaration -> Prop where
  | nil : Reads cr [] []
  | quiet {line : List Char} {lines : List (List Char)} {ds : List Declaration}
      (h : isQuiet cr line = true) (rest : Reads cr lines ds) : Reads cr (line :: lines) ds
  | declaration {d : Declaration} {lines : List (List Char)} {ds : List Declaration}
      (rest : Reads cr lines ds) : Reads cr (d.text :: lines) (d :: ds)

def Catalog.declarations (catalog : Catalog S) : List Declaration :=
  (catalog.metrics.zipIdx.map fun m => .metric m.1.handle m.2 m.1.kind) ++
    catalog.events.zipIdx.map fun e => .event e.1.handle e.2

/--
Between the fixed lines stand comments and one handle declaration for each metric and event, in
the order of the catalog with the indices from zero, and their identifiers are distinct.
-/
def WellFormed (cr : Bool) (component source : String) (catalog : Catalog S)
    (text : List Char) : Prop :=
  (catalog.declarations.map Declaration.handle).Nodup ∧
    exists body, linesOf cr text = (headerLines component source).flatMap (linesOf cr) ++ body ++
      (footerLines component).flatMap (linesOf cr) ∧ Reads cr body catalog.declarations

/-- The texts of a metric stay in its comment. -/
structure Metric.Clean (py : Python S) (cr : Bool) (m : Metric S) : Prop where
  name : Contained cr m.name.toList
  unit : Contained cr (py.text m.unit).toList
  dimensions : forall items, iterate m.dimensions = .ok items ->
    forall name, .str name ∈ items -> Contained cr name.toList
  description : py.isTrue m.description = true -> Closing cr (py.text m.description).toList

structure Event.Clean (py : Python S) (cr : Bool) (e : Event S) : Prop where
  name : Contained cr e.name.toList
  args : forall arg, arg ∈ e.args ->
    Contained cr (py.text arg.1).toList ∧ Contained cr (py.text arg.2).toList

/-- No metric shares its handle with an event, and every text stays in its comment. -/
structure Catalog.Clean (py : Python S) (cr : Bool) (catalog : Catalog S) : Prop where
  handles : forall m e, m ∈ catalog.metrics -> e ∈ catalog.events -> m.handle ≠ e.handle
  metrics : forall m, m ∈ catalog.metrics -> m.Clean py cr
  events : forall e, e ∈ catalog.events -> e.Clean py cr

/-!
## What a loaded catalog holds
-/

/-- The names of the metrics differ and are handles behind their prefix. -/
structure LoadedMetrics (component : String) (metrics : List (Metric S)) : Prop where
  names : (metrics.map Metric.name).Nodup
  name : forall m, m ∈ metrics -> m.name.toList = (metricPrefix component).toList ++ m.handle
  handle : forall m, m ∈ metrics -> snake m.handle = true
  kind : forall m, m ∈ metrics -> m.kind ∈ kinds
  dimensions : forall m, m ∈ metrics -> exists items, iterate m.dimensions = .ok items

structure LoadedEvents (component : String) (events : List (Event S)) : Prop where
  names : (events.map Event.name).Nodup
  name : forall e, e ∈ events -> e.name.toList = (eventPrefix component).toList ++ e.handle
  handle : forall e, e ∈ events -> snake e.handle = true

theorem handleOf_ok {name start what : String} {handle : List Char}
    (h : handleOf name start what = .ok handle) :
    name.toList = start.toList ++ handle ∧ snake handle = true := by
  unfold handleOf at h
  dsimp only at h
  split_ifs at h with hstart hsnake
  injection h with h
  rw [Bool.not_eq_true, Bool.not_eq_false', List.isPrefixOf_iff_prefix] at hstart
  obtain ⟨rest, hrest⟩ := hstart
  rw [← hrest, List.drop_left] at h
  rw [← hrest, List.drop_left, Bool.not_eq_true, Bool.not_eq_false'] at hsnake
  rw [← h]
  exact ⟨hrest.symm, hsnake⟩

theorem nodup_snoc {K : Type} {ks : List K} {k : K} (hks : ks.Nodup) (hk : k ∉ ks) :
    (ks ++ [k]).Nodup := by
  rw [List.nodup_append]
  refine ⟨hks, List.nodup_singleton k, ?_⟩
  intro a ha b hb heq
  rw [List.mem_singleton] at hb
  exact hk (hb ▸ heq ▸ ha)

theorem forall_mem_snoc {A : Type} {P : A -> Prop} {xs : List A} {x : A}
    (hxs : forall y, y ∈ xs -> P y) (hx : P x) : forall y, y ∈ xs ++ [x] -> P y := by
  intro y hy
  rw [List.mem_append, List.mem_singleton] at hy
  cases hy with
  | inl hy => exact hxs y hy
  | inr hy => exact hy ▸ hx

theorem LoadedMetrics.addMetric {py : Python S} {component : String}
    {attributes : List (Toml S)} {metrics metrics' : List (Metric S)} {entry : Toml S}
    (hold : LoadedMetrics component metrics)
    (h : addMetric py component attributes metrics entry = .ok metrics') :
    LoadedMetrics component metrics' := by
  unfold Telemetry.addMetric at h
  obtain ⟨name, _, h⟩ := Fallible.bind_eq_ok.mp h
  obtain ⟨handle, hhandle, h⟩ := Fallible.bind_eq_ok.mp h
  split_ifs at h with hseen
  obtain ⟨kind, _, h⟩ := Fallible.bind_eq_ok.mp h
  split at h
  · rename_i kind
    split_ifs at h with hkind
    obtain ⟨unit, _, h⟩ := Fallible.bind_eq_ok.mp h
    dsimp only at h
    split_ifs at h
    obtain ⟨dimensions, _, h⟩ := Fallible.bind_eq_ok.mp h
    obtain ⟨items, hitems, h⟩ := Fallible.bind_eq_ok.mp h
    obtain ⟨_, _, h⟩ := Fallible.bind_eq_ok.mp h
    obtain ⟨description, _, h⟩ := Fallible.bind_eq_ok.mp h
    injection h with h
    rw [← h]
    constructor
    · rw [List.map_append, List.map_singleton]
      exact nodup_snoc hold.names hseen
    · exact forall_mem_snoc hold.name (handleOf_ok hhandle).1
    · exact forall_mem_snoc hold.handle (handleOf_ok hhandle).2
    · exact forall_mem_snoc hold.kind hkind
    · exact forall_mem_snoc hold.dimensions ⟨items, hitems⟩
  · cases h

theorem LoadedEvents.addEvent {py : Python S} {component : String} {metrics : List (Metric S)}
    {events events' : List (Event S)} {entry : Toml S} (hold : LoadedEvents component events)
    (h : addEvent py component metrics events entry = .ok events') :
    LoadedEvents component events' := by
  unfold Telemetry.addEvent at h
  obtain ⟨name, _, h⟩ := Fallible.bind_eq_ok.mp h
  obtain ⟨handle, hhandle, h⟩ := Fallible.bind_eq_ok.mp h
  split_ifs at h with hseen
  rw [not_or] at hseen
  obtain ⟨value, _, h⟩ := Fallible.bind_eq_ok.mp h
  obtain ⟨args, _, h⟩ := Fallible.bind_eq_ok.mp h
  injection h with h
  rw [← h]
  constructor
  · rw [List.map_append, List.map_singleton]
    exact nodup_snoc hold.names hseen.2
  · exact forall_mem_snoc hold.name (handleOf_ok hhandle).1
  · exact forall_mem_snoc hold.handle (handleOf_ok hhandle).2

theorem load_ok {py : Python S} {component : String} {data : List (String × Toml S)}
    {catalog : Catalog S} (h : load py component data = .ok catalog) :
    LoadedMetrics component catalog.metrics ∧ LoadedEvents component catalog.events := by
  unfold load at h
  obtain ⟨attributeRows, _, h⟩ := Fallible.bind_eq_ok.mp h
  obtain ⟨attributes, _, h⟩ := Fallible.bind_eq_ok.mp h
  obtain ⟨metricRows, _, h⟩ := Fallible.bind_eq_ok.mp h
  obtain ⟨metrics, hmetrics, h⟩ := Fallible.bind_eq_ok.mp h
  obtain ⟨eventRows, _, h⟩ := Fallible.bind_eq_ok.mp h
  obtain ⟨events, hevents, h⟩ := Fallible.bind_eq_ok.mp h
  injection h with h
  rw [← h]
  have hnoMetrics : LoadedMetrics component ([] : List (Metric S)) :=
    ⟨List.nodup_nil, by simp, by simp, by simp, by simp⟩
  have hnoEvents : LoadedEvents component ([] : List (Event S)) :=
    ⟨List.nodup_nil, by simp, by simp⟩
  constructor
  · exact Fallible.foldlM_rule (fun _ _ _ _ hold hadd => hold.addMetric hadd) hnoMetrics hmetrics
  · exact Fallible.foldlM_rule (fun _ _ _ _ hold hadd => hold.addEvent hadd) hnoEvents hevents

/-!
## Handles
-/

/-- A handle is a word, or one with a line feed at its end. -/
theorem snakeRest_cases {text : List Char} (h : snakeRest text = true) :
    (forall c, c ∈ text -> isWord c = true) ∨ exists word, text = word ++ ['\n'] := by
  induction text with
  | nil => exact Or.inl (by simp)
  | cons c rest ih =>
      unfold snakeRest at h
      rw [Bool.or_eq_true, Bool.and_eq_true, Bool.and_eq_true, beq_iff_eq] at h
      cases h with
      | inl hlast =>
          rw [hlast.1, List.isEmpty_iff.mp hlast.2]
          exact Or.inr ⟨[], rfl⟩
      | inr hword =>
          cases ih hword.2 with
          | inl hall =>
              left
              intro d hd
              cases List.mem_cons.mp hd with
              | inl heq => exact heq ▸ hword.1
              | inr hmem => exact hall d hmem
          | inr hend =>
              obtain ⟨word, hrest⟩ := hend
              exact Or.inr ⟨c :: word, by rw [hrest]; rfl⟩

theorem snake_cases {handle : List Char} (h : snake handle = true) :
    (handle ≠ [] ∧ forall c, c ∈ handle -> isWord c = true) ∨
      exists word, handle = word ++ ['\n'] := by
  cases handle with
  | nil => cases h
  | cons c rest =>
      unfold snake at h
      rw [Bool.and_eq_true] at h
      cases snakeRest_cases h.2 with
      | inl hall =>
          left
          refine ⟨List.cons_ne_nil c rest, ?_⟩
          intro d hd
          cases List.mem_cons.mp hd with
          | inl heq =>
              unfold isWord
              rw [heq, h.1]
              rfl
          | inr hmem => exact hall d hmem
      | inr hend =>
          obtain ⟨word, hrest⟩ := hend
          exact Or.inr ⟨c :: word, by rw [hrest]; rfl⟩

theorem word_plain {c : Char} (h : isWord c = true) (cr : Bool) :
    ends cr c = false ∧ isBlank cr c = false ∧ c ≠ '\\' ∧ c ≠ '/' := by
  have hnot : forall d : Char, isWord d = false -> c ≠ d := by
    intro d hd heq
    rw [heq, hd] at h
    cases h
  have hblank : [' ', '\t', '\x0b', '\x0c', '\r'].contains c = false := by
    simp only [List.contains_cons, List.contains_nil, Bool.or_false, Bool.or_eq_false_iff,
      beq_eq_false_iff_ne]
    exact ⟨hnot _ (by decide), hnot _ (by decide), hnot _ (by decide), hnot _ (by decide),
      hnot _ (by decide)⟩
  refine ⟨?_, ?_, hnot _ (by decide), hnot _ (by decide)⟩
  · unfold ends
    rw [beq_eq_false_iff_ne.mpr (hnot '\n' (by decide)),
      beq_eq_false_iff_ne.mpr (hnot '\r' (by decide)), Bool.and_false]
    rfl
  · unfold isBlank
    rw [hblank, Bool.and_false]

/-- A handle without a line feed is a joint. -/
theorem word_joint {handle : List Char} (hne : handle ≠ [])
    (hword : forall c, c ∈ handle -> isWord c = true) (cr : Bool) :
    isJoint cr handle = true ∧ handle.head? ≠ some '/' := by
  have hlast : isWord (handle.getLast hne) = true := hword _ (List.getLast_mem hne)
  have hreverse : handle.reverse = handle.getLast hne :: handle.dropLast.reverse := by
    conv_lhs => rw [← List.dropLast_append_getLast hne]
    rw [List.reverse_append]
    rfl
  obtain ⟨_, hblank, hback, _⟩ := word_plain hlast cr
  have hdrop : handle.reverse.dropWhile (isBlank cr) =
      handle.getLast hne :: handle.dropLast.reverse := by
    rw [hreverse, List.dropWhile_cons, hblank]
    rfl
  constructor
  · unfold isJoint spliced
    rw [hdrop, Bool.and_eq_true, Bool.and_eq_true, List.all_eq_true]
    refine ⟨⟨?_, rfl⟩, ?_⟩
    · intro c hc
      rw [(word_plain (hword c hc) cr).1]
      rfl
    · simp [hback]
  · intro hhead
    have hmem : '/' ∈ handle := List.mem_of_mem_head? hhead
    exact (word_plain (hword '/' hmem) cr).2.2.2 rfl

/-- A name that stays in a comment ends in its handle, without a line feed. -/
theorem word_of_contained {cr : Bool} {start handle : List Char} (hsnake : snake handle = true)
    (h : Contained cr (start ++ handle)) :
    handle ≠ [] ∧ forall c, c ∈ handle -> isWord c = true := by
  cases snake_cases hsnake with
  | inl hword => exact hword
  | inr hend =>
      obtain ⟨word, rfl⟩ := hend
      have hlast := (h (start ++ word) '\n' [] (by simp) rfl).2
      cases hlast with
      | inl hslashes => exact absurd hslashes (by decide)
      | inr hnext =>
          obtain ⟨c, later, hnil, _⟩ := hnext
          cases hnil

/-- At the end of a comment and inside it a name asks for the same. -/
theorem closing_name {cr : Bool} {start handle : List Char} (hne : handle ≠ [])
    (hword : forall c, c ∈ handle -> isWord c = true) :
    Closing cr (start ++ handle) <-> Contained cr (start ++ handle) := by
  obtain ⟨hjoint, hstart⟩ := word_joint hne hword cr
  have hclosing := Closing.iff_joint hjoint hstart start []
  have hcontained := Contained.iff_joint hjoint hstart start []
  rw [List.append_nil] at hclosing hcontained
  rw [hclosing, hcontained]
  simp only [Closing.nil, Contained.nil]

/-!
## Declarations
-/

theorem noEnd_append {cr : Bool} {xs ys : List Char} (hxs : forall c, c ∈ xs -> ends cr c = false)
    (hys : forall c, c ∈ ys -> ends cr c = false) :
    forall c, c ∈ xs ++ ys -> ends cr c = false := by
  intro c hc
  cases List.mem_append.mp hc with
  | inl hc => exact hxs c hc
  | inr hc => exact hys c hc

/-- A fixed text has no line end for either compiler. -/
theorem noEnd_of_all {text : List Char} (htrue : text.all (fun c => !ends true c) = true)
    (hfalse : text.all (fun c => !ends false c) = true) (cr : Bool) :
    forall c, c ∈ text -> ends cr c = false := by
  intro c hc
  cases cr with
  | false => simpa using List.all_eq_true.mp hfalse c hc
  | true => simpa using List.all_eq_true.mp htrue c hc

theorem digits_noEnd (cr : Bool) (n : Nat) :
    forall c, c ∈ (toString n).toList -> ends cr c = false := by
  intro c hc
  rw [Nat.toString_eq_ofList_toDigits, String.toList_ofList] at hc
  have hdigit := Nat.isDigit_of_mem_toDigits (by decide) (by decide) hc
  cases hend : ends cr c with
  | false => rfl
  | true =>
      unfold ends at hend
      rw [Bool.or_eq_true, Bool.and_eq_true, beq_iff_eq, beq_iff_eq] at hend
      cases hend with
      | inl hfeed =>
          rw [hfeed] at hdigit
          cases hdigit
      | inr hreturn =>
          rw [hreturn.2] at hdigit
          cases hdigit

/-- The declaration of a loaded entry. -/
structure Declaration.Loaded (d : Declaration) : Prop where
  handle : snake d.handle = true
  kind : forall handle index kind, d = .metric handle index kind -> kind ∈ kinds

theorem kind_noEnd {kind : String} (h : kind ∈ kinds) (cr : Bool) :
    forall c, c ∈ kind.toList -> ends cr c = false := by
  revert kind
  unfold kinds
  simp only [List.forall_mem_cons]
  have hall := fun text htrue hfalse => @noEnd_of_all text htrue hfalse cr
  exact ⟨hall _ (by decide) (by decide), hall _ (by decide) (by decide),
    hall _ (by decide) (by decide), hall _ (by decide) (by decide), by simp⟩

/-- What stands before and after the handle. -/
def Declaration.before : Declaration -> List Char
  | .metric _ _ _ => "inline constexpr ::ostia::telemetry::MetricHandle ".toList
  | .event _ _ => "inline constexpr ::ostia::telemetry::EventHandle ".toList

def Declaration.after : Declaration -> List Char
  | .metric _ index kind =>
      "\x7b".toList ++ ((toString index).toList ++
        (", ::ostia::telemetry::MetricKind::".toList ++ (kind.toList ++ "\x7d;".toList)))
  | .event _ index => "\x7b".toList ++ ((toString index).toList ++ "\x7d;".toList)

theorem Declaration.text_eq (d : Declaration) : d.text = d.before ++ (d.handle ++ d.after) := by
  cases d with
  | metric handle index kind =>
      unfold Declaration.text Declaration.before Declaration.handle Declaration.after
      simp only [List.append_assoc]
  | event handle index =>
      unfold Declaration.text Declaration.before Declaration.handle Declaration.after
      simp only [List.append_assoc]

theorem Declaration.before_noEnd (d : Declaration) (cr : Bool) :
    forall c, c ∈ d.before -> ends cr c = false := by
  cases d with
  | metric handle index kind =>
      exact @noEnd_of_all "inline constexpr ::ostia::telemetry::MetricHandle ".toList
        (by decide) (by decide) cr
  | event handle index =>
      exact @noEnd_of_all "inline constexpr ::ostia::telemetry::EventHandle ".toList
        (by decide) (by decide) cr

theorem Declaration.Loaded.after_noEnd {d : Declaration} (h : d.Loaded) (cr : Bool) :
    forall c, c ∈ d.after -> ends cr c = false := by
  have hopen := @noEnd_of_all "\x7b".toList (by decide) (by decide) cr
  have hclose := @noEnd_of_all "\x7d;".toList (by decide) (by decide) cr
  cases d with
  | metric handle index kind =>
      have hkind := kind_noEnd (h.kind handle index kind rfl) cr
      have hmiddle := @noEnd_of_all ", ::ostia::telemetry::MetricKind::".toList
        (by decide) (by decide) cr
      exact noEnd_append hopen (noEnd_append (digits_noEnd cr index)
        (noEnd_append hmiddle (noEnd_append hkind hclose)))
  | event handle index =>
      exact noEnd_append hopen (noEnd_append (digits_noEnd cr index) hclose)

theorem Declaration.code (d : Declaration) (cr : Bool) (rest : List Char) :
    1 ≤ codeLines cr (linesOf cr (d.before ++ rest)) := by
  have hend : ends cr 'i' = false := by
    cases cr with
    | false => rfl
    | true => rfl
  cases d with
  | metric handle index kind => exact codeLines_pos hend (by decide) _
  | event handle index => exact codeLines_pos hend (by decide) _

/-- The declaration of a handle without a line feed is one line. -/
theorem Declaration.Loaded.lines {d : Declaration} (h : d.Loaded)
    (hword : forall c, c ∈ d.handle -> isWord c = true) (cr : Bool) :
    linesOf cr d.text = [d.text] := by
  apply linesOf_noEnd
  rw [d.text_eq]
  exact noEnd_append (d.before_noEnd cr)
    (noEnd_append (fun c hc => (word_plain (hword c hc) cr).1) (h.after_noEnd cr))

/-- The declaration of another handle is two lines of code. -/
theorem Declaration.two_lines {d : Declaration} {word : List Char}
    (h : d.handle = word ++ ['\n']) (cr : Bool) : 2 ≤ codeLines cr (linesOf cr d.text) := by
  have hfeed : ends cr '\n' = true := rfl
  have htext : d.text = (d.before ++ word) ++ '\n' :: d.after := by
    rw [d.text_eq, h]
    simp
  have hbrace : ends cr '{' = false := by
    cases cr with
    | false => rfl
    | true => rfl
  have hafter : 1 ≤ codeLines cr (linesOf cr d.after) := by
    cases d with
    | metric handle index kind => exact codeLines_pos hbrace (by decide) _
    | event handle index => exact codeLines_pos hbrace (by decide) _
  rw [htext, linesOf_append cr _ hfeed, codeLines_append]
  exact Nat.add_le_add (d.code cr word) hafter

/-!
## Reading the lines back
-/

theorem Declaration.not_quiet (d : Declaration) (cr : Bool) : isQuiet cr d.text = false := by
  cases d with
  | metric handle index kind => exact code_of_start (by decide) _
  | event handle index => exact code_of_start (by decide) _

theorem Reads.length_eq {cr : Bool} {lines : List (List Char)} {ds : List Declaration}
    (h : Reads cr lines ds) : codeLines cr lines = ds.length := by
  unfold codeLines
  induction h with
  | nil => rfl
  | quiet hquiet _ ih => rw [List.countP_cons, ih, hquiet]; rfl
  | declaration _ ih => rw [List.countP_cons, ih, Declaration.not_quiet]; rfl

theorem Reads.append {cr : Bool} {lines rest : List (List Char)} {ds : List Declaration}
    (h : forall line, line ∈ lines -> isQuiet cr line = true) (hrest : Reads cr rest ds) :
    Reads cr (lines ++ rest) ds := by
  induction lines with
  | nil => exact hrest
  | cons line lines ih =>
      exact Reads.quiet (h line List.mem_cons_self)
        (ih fun l hl => h l (List.mem_cons_of_mem line hl))

/-- The lines of entries: a comment and a declaration for each. -/
def entryLines (cr : Bool) (entries : List (List Char × Declaration)) : List (List Char) :=
  entries.flatMap fun e => linesOf cr e.1 ++ linesOf cr e.2.text

theorem codeLines_entry (cr : Bool) (e : List Char × Declaration)
    (entries : List (List Char × Declaration)) :
    codeLines cr (entryLines cr (e :: entries)) = codeLines cr (linesOf cr e.1) +
      codeLines cr (linesOf cr e.2.text) + codeLines cr (entryLines cr entries) := by
  unfold entryLines
  rw [List.flatMap_cons, codeLines_append, codeLines_append]

theorem length_le_codeLines (cr : Bool) (entries : List (List Char × Declaration)) :
    entries.length ≤ codeLines cr (entryLines cr entries) := by
  induction entries with
  | nil => exact Nat.zero_le _
  | cons e entries ih =>
      have hcode : 1 ≤ codeLines cr (linesOf cr e.2.text) := by
        rw [e.2.text_eq]
        exact e.2.code cr _
      rw [codeLines_entry, List.length_cons]
      omega

/-- The lines are comments and the declarations exactly when every comment is and every
handle is a word. -/
theorem reads_iff {cr : Bool} {entries : List (List Char × Declaration)}
    (hloaded : forall e, e ∈ entries -> e.2.Loaded) :
    Reads cr (entryLines cr entries) (entries.map Prod.snd) <->
      forall e, e ∈ entries -> (forall line, line ∈ linesOf cr e.1 -> isQuiet cr line = true) ∧
        forall c, c ∈ e.2.handle -> isWord c = true := by
  constructor
  · intro hreads
    have hcount := hreads.length_eq
    rw [List.length_map] at hcount
    clear hreads
    induction entries with
    | nil => simp
    | cons e entries ih =>
        have hcode : 1 ≤ codeLines cr (linesOf cr e.2.text) := by
          rw [e.2.text_eq]
          exact e.2.code cr _
        have hrest := length_le_codeLines cr entries
        rw [codeLines_entry, List.length_cons] at hcount
        rw [List.forall_mem_cons]
        refine ⟨⟨codeLines_eq_zero.mp (by omega), ?_⟩,
          ih (fun e' he' => hloaded e' (List.mem_cons_of_mem e he')) (by omega)⟩
        cases snake_cases (hloaded e List.mem_cons_self).handle with
        | inl hword => exact hword.2
        | inr hend =>
            obtain ⟨word, hhandle⟩ := hend
            have htwo := Declaration.two_lines hhandle cr
            omega
  · intro hall
    induction entries with
    | nil => exact Reads.nil
    | cons e entries ih =>
        obtain ⟨hquiet, hword⟩ := hall e List.mem_cons_self
        have hrest := ih (fun e' he' => hloaded e' (List.mem_cons_of_mem e he'))
          (fun e' he' => hall e' (List.mem_cons_of_mem e he'))
        unfold entryLines at hrest ⊢
        rw [List.flatMap_cons, (hloaded e List.mem_cons_self).lines hword, List.append_assoc]
        exact Reads.append hquiet (Reads.declaration hrest)

/-!
## Comments
-/

/-- A fixed text is a joint for either compiler. -/
theorem joint_of {text : List Char} (htrue : isJoint true text = true)
    (hfalse : isJoint false text = true) (cr : Bool) : isJoint cr text = true := by
  cases cr with
  | false => exact hfalse
  | true => exact htrue

theorem slashes_joint (cr : Bool) : isJoint cr "// ".toList = true :=
  joint_of (by decide) (by decide) cr

theorem strings_ok {items : List (Toml S)} {names : List (List Char)}
    (h : strings items = .ok names) (name : List Char) :
    name ∈ names <-> exists s, .str s ∈ items ∧ s.toList = name := by
  have hrows := Fallible.mapM_eq_ok.mp h
  clear h
  induction hrows with
  | nil => simp
  | @cons item text items texts hrow _ ih =>
      cases item with
      | str s =>
          have hrest : name ∈ texts <-> exists t, Toml.str t ∈ items ∧ t.toList = name := ih
          injection hrow with hrow
          rw [List.mem_cons, hrest, ← hrow]
          constructor
          · intro hname
            cases hname with
            | inl hname => exact ⟨s, List.mem_cons_self, hname.symm⟩
            | inr hname =>
                obtain ⟨t, ht, htext⟩ := hname
                exact ⟨t, List.mem_cons_of_mem _ ht, htext⟩
          · intro hname
            obtain ⟨t, ht, htext⟩ := hname
            cases List.mem_cons.mp ht with
            | inl heq =>
                injection heq with heq
                left
                rw [← htext, heq]
            | inr hmem => exact Or.inr ⟨t, hmem, htext⟩
      | _ => cases hrow

/-- What the dimensions of a metric ask of a text before them. -/
theorem contained_dimensions {py : Python S} {cr : Bool} {dimensions : Toml S}
    {dims : List Char} (h : py.dimensionText dimensions = .ok dims) (text : List Char)
    (hiterable : exists items, iterate dimensions = .ok items) :
    Contained cr (text ++ dims) <-> Contained cr text ∧
      forall items, iterate dimensions = .ok items ->
        forall name, .str name ∈ items -> Contained cr name.toList := by
  obtain ⟨items, hitems⟩ := hiterable
  have hforall : (forall items', iterate dimensions = .ok items' ->
      forall name, .str name ∈ items' -> Contained cr name.toList) <->
        forall name, .str name ∈ items -> Contained cr name.toList := by
    rw [hitems]
    constructor
    · intro hall
      exact hall items rfl
    · intro hall items' heq
      injection heq with heq
      rw [← heq]
      exact hall
  have hcomma : isJoint cr ", ".toList = true := joint_of (by decide) (by decide) cr
  have hlabel : isJoint cr ", dimensions: ".toList = true := joint_of (by decide) (by decide) cr
  rw [hforall]
  unfold Python.dimensionText at h
  split_ifs at h with htrue
  · rw [hitems, Fallible.ok_bind] at h
    obtain ⟨names, hnames, h⟩ := Fallible.bind_eq_ok.mp h
    injection h with h
    rw [← h, Contained.iff_joint hlabel (by decide), Contained.iff_intercalate hcomma (by decide)]
    apply and_congr_right
    intro _
    constructor
    · intro hall name hname
      exact hall name.toList ((strings_ok hnames _).mpr ⟨name, hname, rfl⟩)
    · intro hall name hname
      obtain ⟨s, hs, rfl⟩ := (strings_ok hnames name).mp hname
      exact hall s hs
  · injection h with h
    have hempty : items = [] := by
      cases dimensions with
      | str s =>
          injection hitems with hitems
          have hs : s = "" := by simpa [Python.isTrue] using htrue
          rw [← hitems, hs]
          rfl
      | scalar x => cases hitems
      | array xs =>
          injection hitems with hitems
          have hxs : xs = [] := by simpa [Python.isTrue] using htrue
          rw [← hitems, hxs]
      | table fields =>
          injection hitems with hitems
          have hfields : fields = [] := by simpa [Python.isTrue] using htrue
          rw [← hitems, hfields]
          rfl
    rw [← h, hempty, List.append_nil]
    simp

theorem closing_about {py : Python S} {cr : Bool} (description : Toml S) :
    Closing cr (py.about description) <->
      (py.isTrue description = true -> Closing cr (py.text description).toList) := by
  have hcolon : isJoint cr ": ".toList = true := joint_of (by decide) (by decide) cr
  unfold Python.about
  split_ifs with htrue
  · rw [Closing.iff_first hcolon]
    simp [htrue]
  · simp [Closing.nil, htrue]

theorem kind_joint {kind : String} (h : kind ∈ kinds) (cr : Bool) :
    isJoint cr (" (".toList ++ kind.toList ++ ", unit ".toList) = true := by
  revert kind
  unfold kinds
  simp only [List.forall_mem_cons]
  exact ⟨joint_of (by decide) (by decide) cr, joint_of (by decide) (by decide) cr,
    joint_of (by decide) (by decide) cr, joint_of (by decide) (by decide) cr, by simp⟩

/-- The comment of a metric holds exactly when its texts do. -/
theorem metric_closing {py : Python S} {cr : Bool} {m : Metric S} {comment : List Char}
    (h : m.comment py = .ok comment) (hkind : m.kind ∈ kinds)
    (hiterable : exists items, iterate m.dimensions = .ok items) :
    Closing cr comment <-> m.Clean py cr := by
  unfold Metric.comment at h
  obtain ⟨dims, hdims, h⟩ := Fallible.bind_eq_ok.mp h
  injection h with h
  have hclose : isJoint cr ")".toList = true := joint_of (by decide) (by decide) cr
  have hshape : comment = ("// ".toList ++ m.name.toList) ++
      ((" (".toList ++ m.kind.toList ++ ", unit ".toList) ++
        (((py.text m.unit).toList ++ dims) ++ (")".toList ++ py.about m.description))) := by
    rw [← h]
    simp only [List.append_assoc]
  rw [hshape, Closing.iff_joint (kind_joint hkind cr) (by simp),
    Contained.iff_first (slashes_joint cr), Closing.iff_joint hclose (by decide),
    contained_dimensions hdims _ hiterable, closing_about]
  constructor
  · intro hall
    exact ⟨hall.1, hall.2.1.1, hall.2.1.2, hall.2.2⟩
  · intro hclean
    exact ⟨hclean.name, ⟨hclean.unit, hclean.dimensions⟩, hclean.description⟩

theorem contained_argument {py : Python S} {cr : Bool} (arg : Toml S × Toml S) :
    Contained cr (py.argument arg) <->
      Contained cr (py.text arg.1).toList ∧ Contained cr (py.text arg.2).toList := by
  have hequals : isJoint cr "=".toList = true := joint_of (by decide) (by decide) cr
  unfold Python.argument
  rw [List.append_assoc, Contained.iff_joint hequals (by decide)]

theorem event_closing {py : Python S} {cr : Bool} {e : Event S} {start : List Char}
    (hname : e.name.toList = start ++ e.handle) (hne : e.handle ≠ [])
    (hword : forall c, c ∈ e.handle -> isWord c = true) :
    Closing cr (e.comment py) <-> e.Clean py cr := by
  have hcomma : isJoint cr ", ".toList = true := joint_of (by decide) (by decide) cr
  have hopen : isJoint cr " (".toList = true := joint_of (by decide) (by decide) cr
  have hclose : isJoint cr ")".toList = true := joint_of (by decide) (by decide) cr
  have hargs : Contained cr (", ".toList.intercalate (e.args.map py.argument)) <->
      forall arg, arg ∈ e.args ->
        Contained cr (py.text arg.1).toList ∧ Contained cr (py.text arg.2).toList := by
    rw [Contained.iff_intercalate hcomma (by decide), List.forall_mem_map]
    simp only [contained_argument]
  unfold Event.comment
  dsimp only
  split_ifs with hempty
  · rw [List.append_nil, Closing.iff_first (slashes_joint cr), hname, closing_name hne hword]
    constructor
    · intro hcontained
      refine ⟨hname ▸ hcontained, hargs.mp ?_⟩
      rw [List.isEmpty_iff.mp hempty]
      exact Contained.nil cr
    · intro hclean
      exact hname ▸ hclean.name
  · have hshape : forall args : List Char, "// ".toList ++ e.name.toList ++
        (" (".toList ++ args ++ ")".toList) =
          ("// ".toList ++ e.name.toList) ++ (" (".toList ++ (args ++ (")".toList ++ []))) := by
      intro args
      simp only [List.append_assoc, List.append_nil]
    rw [hshape, Closing.iff_joint hopen (by decide), Contained.iff_first (slashes_joint cr),
      Closing.iff_joint hclose (by decide), hargs]
    constructor
    · intro hall
      exact ⟨hall.1, hall.2.1⟩
    · intro hclean
      exact ⟨hclean.name, hclean.args, Closing.nil cr⟩

/-!
## The header of a catalog
-/

def Metric.commentText (py : Python S) (m : Metric S) : List Char :=
  match m.comment py with
  | .ok comment => comment
  | .error _ => []

/-- The comments of a catalog with their declarations. -/
def Catalog.entries (py : Python S) (catalog : Catalog S) : List (List Char × Declaration) :=
  (catalog.metrics.zipIdx.map fun m =>
      (m.1.commentText py, .metric m.1.handle m.2 m.1.kind)) ++
    catalog.events.zipIdx.map fun e => (e.1.comment py, .event e.1.handle e.2)

theorem Catalog.entries_snd (py : Python S) (catalog : Catalog S) :
    (catalog.entries py).map Prod.snd = catalog.declarations := by
  unfold Catalog.entries Catalog.declarations
  rw [List.map_append, List.map_map, List.map_map]
  rfl

theorem forall_mem_zipIdx {A : Type} {P : A -> Prop} (xs : List A) :
    (forall e, e ∈ xs.zipIdx -> P e.1) <-> forall x, x ∈ xs -> P x := by
  have hmap := List.forall_mem_map (f := Prod.fst) (l := xs.zipIdx) (P := P)
  rw [List.zipIdx_map_fst] at hmap
  exact hmap.symm

/-- The lines of a header that is rendered. -/
theorem render_ok {py : Python S} {component source : String} {catalog : Catalog S}
    {text : List Char} (h : render py component catalog source = .ok text) (cr : Bool) :
    (forall m, m ∈ catalog.metrics -> m.comment py = .ok (m.commentText py)) ∧
      linesOf cr text = (headerLines component source).flatMap (linesOf cr) ++
        entryLines cr (catalog.entries py) ++ (footerLines component).flatMap (linesOf cr) := by
  unfold render at h
  obtain ⟨metrics, hmetrics, h⟩ := Fallible.bind_eq_ok.mp h
  injection h with h
  have hcomment : forall m, m ∈ catalog.metrics -> m.comment py = .ok (m.commentText py) := by
    rw [← forall_mem_zipIdx]
    intro e he
    obtain ⟨lines, _, hlines⟩ := Fallible.forall₂_mem_left (Fallible.mapM_eq_ok.mp hmetrics) he
    unfold Metric.lines at hlines
    obtain ⟨comment, hcomment, _⟩ := Fallible.bind_eq_ok.mp hlines
    unfold Metric.commentText
    rw [hcomment]
  have hrows : metrics = catalog.metrics.zipIdx.map fun e =>
      [e.1.commentText py, (Declaration.metric e.1.handle e.2 e.1.kind).text] := by
    apply Fallible.mapM_eq_map hmetrics
    intro e he
    unfold Metric.lines
    rw [(forall_mem_zipIdx catalog.metrics).mpr hcomment e he]
    rfl
  refine ⟨hcomment, ?_⟩
  rw [← h, linesOf_intercalate cr (by simp [headerLines]), List.flatMap_append,
    List.flatMap_append, List.flatMap_append, hrows]
  unfold entryLines Catalog.entries Event.lines
  simp only [List.flatMap_append, List.flatMap_map, List.flatten_eq_flatMap, List.flatMap_assoc,
    id_eq, List.flatMap_cons, List.flatMap_nil, List.append_nil, List.append_assoc]

theorem handles_nodup_iff {component : String} {catalog : Catalog S}
    (hmetrics : LoadedMetrics component catalog.metrics)
    (hevents : LoadedEvents component catalog.events) :
    (catalog.declarations.map Declaration.handle).Nodup <->
      forall m e, m ∈ catalog.metrics -> e ∈ catalog.events -> m.handle ≠ e.handle := by
  have hmap : catalog.declarations.map Declaration.handle =
      catalog.metrics.map Metric.handle ++ catalog.events.map Event.handle := by
    unfold Catalog.declarations
    rw [List.map_append, List.map_map, List.map_map]
    conv_rhs => rw [← List.zipIdx_map_fst 0 catalog.metrics, ← List.zipIdx_map_fst 0 catalog.events]
    rw [List.map_map, List.map_map]
    rfl
  have hm : (catalog.metrics.map Metric.handle).Nodup := by
    apply List.Nodup.map_on
    · intro m hm m' hm' heq
      apply List.inj_on_of_nodup_map hmetrics.names hm hm'
      apply String.toList_injective
      rw [hmetrics.name m hm, hmetrics.name m' hm', heq]
    · exact List.Nodup.of_map _ hmetrics.names
  have he : (catalog.events.map Event.handle).Nodup := by
    apply List.Nodup.map_on
    · intro e he e' he' heq
      apply List.inj_on_of_nodup_map hevents.names he he'
      apply String.toList_injective
      rw [hevents.name e he, hevents.name e' he', heq]
    · exact List.Nodup.of_map _ hevents.names
  rw [hmap, List.nodup_append]
  constructor
  · intro h m e hm' he'
    exact h.2.2 _ (List.mem_map_of_mem hm') _ (List.mem_map_of_mem he')
  · intro h
    refine ⟨hm, he, ?_⟩
    intro a ha b hb
    obtain ⟨m, hm', rfl⟩ := List.mem_map.mp ha
    obtain ⟨e, he', rfl⟩ := List.mem_map.mp hb
    exact h m e hm' he'

theorem entries_loaded {py : Python S} {component : String} {catalog : Catalog S}
    (hmetrics : LoadedMetrics component catalog.metrics)
    (hevents : LoadedEvents component catalog.events) :
    forall e, e ∈ catalog.entries py -> e.2.Loaded := by
  intro e he
  unfold Catalog.entries at he
  cases List.mem_append.mp he with
  | inl he =>
      obtain ⟨m, hm, rfl⟩ := List.mem_map.mp he
      have hmem := List.fst_mem_of_mem_zipIdx hm
      constructor
      · exact hmetrics.handle m.1 hmem
      · intro handle index kind heq
        injection heq with _ _ heq
        rw [← heq]
        exact hmetrics.kind m.1 hmem
  | inr he =>
      obtain ⟨v, hv, rfl⟩ := List.mem_map.mp he
      constructor
      · exact hevents.handle v.1 (List.fst_mem_of_mem_zipIdx hv)
      · intro handle index kind heq
        cases heq

/-- The lines of a metric are well formed exactly when its texts stay in the comment. -/
theorem metric_lines_iff {py : Python S} {cr : Bool} {component : String}
    {metrics : List (Metric S)} (hloaded : LoadedMetrics component metrics) {m : Metric S}
    (hm : m ∈ metrics) (hcomment : m.comment py = .ok (m.commentText py)) :
    ((forall line, line ∈ linesOf cr (m.commentText py) -> isQuiet cr line = true) ∧
      forall c, c ∈ m.handle -> isWord c = true) <-> m.Clean py cr := by
  have hslashes : "//".toList <+: m.commentText py := by
    have htext := hcomment
    unfold Metric.comment at htext
    obtain ⟨dims, _, htext⟩ := Fallible.bind_eq_ok.mp htext
    injection htext with htext
    rw [← htext]
    simp
  rw [lines_quiet_iff hslashes,
    metric_closing hcomment (hloaded.kind m hm) (hloaded.dimensions m hm)]
  constructor
  · intro h
    exact h.1
  · intro hclean
    have hname := hclean.name
    rw [hloaded.name m hm] at hname
    exact ⟨hclean, (word_of_contained (hloaded.handle m hm) hname).2⟩

theorem event_lines_iff {py : Python S} {cr : Bool} {component : String}
    {events : List (Event S)} (hloaded : LoadedEvents component events) {e : Event S}
    (he : e ∈ events) :
    ((forall line, line ∈ linesOf cr (e.comment py) -> isQuiet cr line = true) ∧
      forall c, c ∈ e.handle -> isWord c = true) <-> e.Clean py cr := by
  have hslashes : "//".toList <+: e.comment py := by
    unfold Event.comment
    simp
  have hhandle := hloaded.handle e he
  rw [lines_quiet_iff hslashes]
  constructor
  · intro h
    have hne : e.handle ≠ [] := by
      intro hnil
      rw [hnil] at hhandle
      cases hhandle
    exact (event_closing (hloaded.name e he) hne h.2).mp h.1
  · intro hclean
    have hname := hclean.name
    rw [hloaded.name e he] at hname
    obtain ⟨hne, hword⟩ := word_of_contained hhandle hname
    exact ⟨(event_closing (hloaded.name e he) hne hword).mpr hclean, hword⟩

/-- The lines between the fixed ones are read as the declarations exactly when every text stays
in its comment. -/
theorem reads_entries_iff {py : Python S} {cr : Bool} {component : String} {catalog : Catalog S}
    (hmetrics : LoadedMetrics component catalog.metrics)
    (hevents : LoadedEvents component catalog.events)
    (hcomment : forall m, m ∈ catalog.metrics -> m.comment py = .ok (m.commentText py)) :
    Reads cr (entryLines cr (catalog.entries py)) catalog.declarations <->
      (forall m, m ∈ catalog.metrics -> m.Clean py cr) ∧
        forall e, e ∈ catalog.events -> e.Clean py cr := by
  rw [← Catalog.entries_snd py, reads_iff (entries_loaded hmetrics hevents)]
  unfold Catalog.entries
  rw [List.forall_mem_append, List.forall_mem_map, List.forall_mem_map]
  apply and_congr
  · rw [← forall_mem_zipIdx catalog.metrics]
    apply forall₂_congr
    intro m hm
    have hmem := List.fst_mem_of_mem_zipIdx hm
    exact metric_lines_iff hmetrics hmem (hcomment m.1 hmem)
  · rw [← forall_mem_zipIdx catalog.events]
    apply forall₂_congr
    intro e he
    exact event_lines_iff hevents (List.fst_mem_of_mem_zipIdx he)

/--
The header of an accepted catalog is well formed exactly when no metric shares its handle with
an event and every text of the catalog stays in its comment.
-/
theorem render_wellFormed_iff {py : Python S} {component source : String}
    {data : List (String × Toml S)} {catalog : Catalog S}
    (hload : load py component data = .ok catalog) {text : List Char}
    (hrender : render py component catalog source = .ok text) (cr : Bool) :
    WellFormed cr component source catalog text <-> catalog.Clean py cr := by
  obtain ⟨hmetrics, hevents⟩ := load_ok hload
  obtain ⟨hcomment, hlines⟩ := render_ok hrender cr
  have hreads := @reads_entries_iff S py cr component catalog hmetrics hevents hcomment
  unfold WellFormed
  rw [handles_nodup_iff hmetrics hevents, hlines]
  constructor
  · intro h
    obtain ⟨hhandles, body, hbody, hread⟩ := h
    rw [← List.append_cancel_left (List.append_cancel_right hbody)] at hread
    exact ⟨hhandles, (hreads.mp hread).1, (hreads.mp hread).2⟩
  · intro hclean
    exact ⟨hclean.handles, _, rfl, hreads.mpr ⟨hclean.metrics, hclean.events⟩⟩

/-- A Python whose scalars are integers. -/
def plainPython : Python Int :=
  { str := fun _ => ""
    truth := fun n => n != 0
    same := fun m n => m == n }

/-- A counter and an event of the component. -/
def plainData : List (String × Toml Int) :=
  [("metric", .array [.table [("name", .str "ostia.fabric.sent"), ("kind", .str "counter"),
      ("unit", .str "By"), ("description", .str "Bytes sent.")]]),
    ("event", .array [.table [("name", .str "fabric.send"),
      ("args", .table [("arg0", .str "bytes")])]])]

def plainCatalog : Catalog Int :=
  ⟨[⟨"ostia.fabric.sent", "sent".toList, "counter", .str "By", .str "Bytes sent.", .array []⟩],
    [⟨"fabric.send", "send".toList, [(.str "arg0", .str "bytes")]⟩]⟩

theorem render_wellFormed_iff_plain :
    load plainPython "fabric" plainData = .ok plainCatalog ∧
      exists text, render plainPython "fabric" plainCatalog "telemetry.toml" = .ok text ∧
        (WellFormed true "fabric" "telemetry.toml" plainCatalog text <->
          plainCatalog.Clean plainPython true) := by
  have hload : load plainPython "fabric" plainData = .ok plainCatalog := by rfl
  refine ⟨hload, _, rfl, ?_⟩
  exact render_wellFormed_iff hload rfl true

/-- A counter and an event of one handle. -/
def sharedData : List (String × Toml Int) :=
  [("metric", .array [.table [("name", .str "ostia.fabric.send"), ("kind", .str "counter"),
      ("unit", .str "By")]]),
    ("event", .array [.table [("name", .str "fabric.send")]])]

/-- The catalog is accepted, and its header declares one identifier twice. -/
theorem shared_handle_refuted :
    exists catalog text, load plainPython "fabric" sharedData = .ok catalog ∧
      render plainPython "fabric" catalog "telemetry.toml" = .ok text ∧
        ¬ WellFormed false "fabric" "telemetry.toml" catalog text := by
  refine ⟨_, _, rfl, rfl, ?_⟩
  intro h
  have hhandles := h.1
  revert hhandles
  decide

end Telemetry
end Ostia
