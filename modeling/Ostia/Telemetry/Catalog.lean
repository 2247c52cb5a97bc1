import Mathlib.Data.List.Nodup
import Mathlib.Data.List.Zip
import Mathlib.Data.String.Basic
import Ostia.Foundation.Fallible

/-!
# Telemetry catalogs

The generator reads a component's catalog of metrics, attributes and events and renders a
header with one handle for each metric and event.
-/

namespace Ostia
namespace Telemetry

open Foundation

/-!
## Documents
-/

/-- The values of a TOML document.  What is neither text nor a collection is a scalar. -/
inductive Toml (S : Type) where
  | str (s : String)
  | scalar (x : S)
  | array (items : List (Toml S))
  | table (fields : List (String × Toml S))

/-- What the generator takes from Python: the text of a value that is no string, and the truth
and the equality of scalars. -/
structure Python (S : Type) where
  str : Toml S -> String
  truth : S -> Bool
  same : S -> S -> Bool

/-- How a catalog can be refused: with its own error or another exception. -/
inductive Failure where
  | catalog (message : String)
  | raised (exception : String)
deriving DecidableEq

variable {S : Type}

def Python.text (py : Python S) : Toml S -> String
  | .str s => s
  | v => py.str v

def Python.isTrue (py : Python S) : Toml S -> Bool
  | .str s => s != ""
  | .scalar x => py.truth x
  | .array items => !items.isEmpty
  | .table fields => !fields.isEmpty

/-- The values that a loop visits. -/
def iterate : Toml S -> Except Failure (List (Toml S))
  | .str s => .ok (s.toList.map fun c => .str (String.singleton c))
  | .scalar _ => .error (.raised "TypeError")
  | .array items => .ok items
  | .table fields => .ok (fields.map fun e => .str e.1)

/-- The get method of a dictionary; other values have none. -/
def get (v : Toml S) (key : String) : Except Failure (Option (Toml S)) :=
  match v with
  | .table fields => .ok (fields.lookup key)
  | _ => .error (.raised "AttributeError")

def getD (v : Toml S) (key : String) (default : Toml S) : Except Failure (Toml S) := do
  let found ← get v key
  pure (found.getD default)

def subscript (v : Toml S) (key : String) : Except Failure (Toml S) :=
  match v with
  | .table fields =>
      match fields.lookup key with
      | some w => .ok w
      | none => .error (.raised "KeyError")
  | _ => .error (.raised "TypeError")

/-- Arrays and tables are no members of sets and no keys. -/
def hashable : Toml S -> Except Failure Unit
  | .str _ => .ok ()
  | .scalar _ => .ok ()
  | _ => .error (.raised "TypeError")

def Python.equal (py : Python S) : Toml S -> Toml S -> Bool
  | .str s, .str t => s == t
  | .scalar x, .scalar y => py.same x y
  | _, _ => false

/-!
## The dictionary of the arguments of an event
-/

/-- An assignment: in place for a key that is there, else at the end. -/
def Python.assign (py : Python S) (key value : Toml S) :
    List (Toml S × Toml S) -> List (Toml S × Toml S)
  | [] => [(key, value)]
  | e :: rest =>
      if py.equal e.1 key then (e.1, value) :: rest else e :: py.assign key value rest

/-- An item of a sequence of pairs that becomes a dictionary. -/
def Python.addPair (py : Python S) (fields : List (Toml S × Toml S)) (item : Toml S) :
    Except Failure (List (Toml S × Toml S)) := do
  let parts ← iterate item
  match parts with
  | [key, value] => do
      hashable key
      pure (py.assign key value fields)
  | _ => .error (.raised "ValueError")

def Python.dict (py : Python S) : Toml S -> Except Failure (List (Toml S × Toml S))
  | .table fields => .ok (fields.map fun e => (.str e.1, e.2))
  | v => do
      let items ← iterate v
      items.foldlM py.addPair []

/-!
## Loading
-/

def kinds : List String := ["counter", "updown", "histogram", "gauge"]

structure Metric (S : Type) where
  name : String
  handle : List Char
  kind : String
  unit : Toml S
  description : Toml S
  dimensions : Toml S

structure Event (S : Type) where
  name : String
  handle : List Char
  args : List (Toml S × Toml S)

structure Catalog (S : Type) where
  metrics : List (Metric S)
  events : List (Event S)

def isLower (c : Char) : Bool := 'a' ≤ c && c ≤ 'z'

def isWord (c : Char) : Bool := isLower c || ('0' ≤ c && c ≤ '9') || c == '_'

/-- The end of the pattern matches before a last line feed as well. -/
def snakeRest : List Char -> Bool
  | [] => true
  | c :: rest => (c == '\n' && rest.isEmpty) || (isWord c && snakeRest rest)

/-- The pattern of lower_snake_case. -/
def snake : List Char -> Bool
  | [] => false
  | c :: rest => isLower c && snakeRest rest

def handleOf (name start what : String) : Except Failure (List Char) :=
  if !start.toList.isPrefixOf name.toList then
    .error (.catalog (what ++ " '" ++ name ++ "' must start with " ++ start))
  else
    let handle := name.toList.drop start.toList.length
    if !snake handle then
      .error (.catalog (what ++ " '" ++ name ++ "': the part after " ++ start ++
        " must be lower_snake_case"))
    else .ok handle

/-- The name of an entry has the methods of strings. -/
def entryName (entry : Toml S) : Except Failure String := do
  match ← getD entry "name" (.str "") with
  | .str name => .ok name
  | _ => .error (.raised "AttributeError")

def attributeName (entry : Toml S) : Except Failure (Toml S) := do
  let name ← subscript entry "name"
  hashable name
  pure name

def checkDimension (py : Python S) (attributes : List (Toml S)) (name : String) (_ : Unit)
    (dimension : Toml S) : Except Failure Unit := do
  hashable dimension
  if attributes.any fun a => py.equal a dimension then pure ()
  else .error (.catalog ("metric '" ++ name ++ "' uses undeclared attribute '" ++
    py.text dimension ++ "'"))

def metricPrefix (component : String) : String := "ostia." ++ component ++ "."

def eventPrefix (component : String) : String := component ++ "."

def addMetric (py : Python S) (component : String) (attributes : List (Toml S))
    (metrics : List (Metric S)) (entry : Toml S) : Except Failure (List (Metric S)) := do
  let name ← entryName entry
  let handle ← handleOf name (metricPrefix component) "metric"
  if name ∈ metrics.map Metric.name then
    .error (.catalog ("metric '" ++ name ++ "' is declared twice"))
  else
    match ← get entry "kind" with
    | some (.str kind) =>
        if kind ∈ kinds then do
          let unit := (← get entry "unit").getD (.str "")
          if !py.isTrue unit then
            .error (.catalog ("metric '" ++ name ++ "' needs a unit (UCUM, e.g. By, ns, 1)"))
          else do
            let dimensions ← getD entry "dimensions" (.array [])
            (← iterate dimensions).foldlM (checkDimension py attributes name) ()
            let description ← getD entry "description" (.str "")
            pure (metrics ++ [⟨name, handle, kind, unit, description, dimensions⟩])
        else .error (.catalog ("metric '" ++ name ++ "': kind must be one of " ++
          ", ".intercalate kinds))
    | _ => .error (.catalog ("metric '" ++ name ++ "': kind must be one of " ++
        ", ".intercalate kinds))

def addEvent (py : Python S) (component : String) (metrics : List (Metric S))
    (events : List (Event S)) (entry : Toml S) : Except Failure (List (Event S)) := do
  let name ← entryName entry
  let handle ← handleOf name (eventPrefix component) "event"
  if name ∈ metrics.map Metric.name ∨ name ∈ events.map Event.name then
    .error (.catalog ("event '" ++ name ++ "' is declared twice"))
  else do
    let args ← py.dict (← getD entry "args" (.table []))
    pure (events ++ [⟨name, handle, args⟩])

/-- The catalog of a document. -/
def load (py : Python S) (component : String) (data : List (String × Toml S)) :
    Except Failure (Catalog S) := do
  let attributes ← (← iterate ((data.lookup "attribute").getD (.array []))).mapM attributeName
  let metrics ← (← iterate ((data.lookup "metric").getD (.array []))).foldlM
    (addMetric py component attributes) []
  let events ← (← iterate ((data.lookup "event").getD (.array []))).foldlM
    (addEvent py component metrics) []
  pure ⟨metrics, events⟩

/-!
## Rendering
-/

/-- The texts that join takes. -/
def strings (items : List (Toml S)) : Except Failure (List (List Char)) :=
  items.mapM fun
    | .str s => .ok s.toList
    | _ => .error (.raised "TypeError")

/-- What a handle declaration says. -/
inductive Declaration where
  | metric (handle : List Char) (index : Nat) (kind : String)
  | event (handle : List Char) (index : Nat)
deriving DecidableEq

def Declaration.handle : Declaration -> List Char
  | .metric handle _ _ => handle
  | .event handle _ => handle

def Declaration.text : Declaration -> List Char
  | .metric handle index kind =>
      "inline constexpr ::ostia::telemetry::MetricHandle ".toList ++ handle ++ "\x7b".toList ++
        (toString index).toList ++ ", ::ostia::telemetry::MetricKind::".toList ++ kind.toList ++
        "\x7d;".toList
  | .event handle index =>
      "inline constexpr ::ostia::telemetry::EventHandle ".toList ++ handle ++ "\x7b".toList ++
        (toString index).toList ++ "\x7d;".toList

def Python.dimensionText (py : Python S) (dimensions : Toml S) : Except Failure (List Char) :=
  if py.isTrue dimensions then do
    let names ← strings (← iterate dimensions)
    pure (", dimensions: ".toList ++ ", ".toList.intercalate names)
  else pure []

def Python.about (py : Python S) (description : Toml S) : List Char :=
  if py.isTrue description then ": ".toList ++ (py.text description).toList else []

/-- The comment over the handle of a metric. -/
def Metric.comment (py : Python S) (m : Metric S) : Except Failure (List Char) := do
  let dims ← py.dimensionText m.dimensions
  pure ("// ".toList ++ m.name.toList ++ " (".toList ++ m.kind.toList ++ ", unit ".toList ++
    (py.text m.unit).toList ++ dims ++ ")".toList ++ py.about m.description)

def Python.argument (py : Python S) (e : Toml S × Toml S) : List Char :=
  (py.text e.1).toList ++ "=".toList ++ (py.text e.2).toList

/-- The comment over the handle of an event. -/
def Event.comment (py : Python S) (e : Event S) : List Char :=
  let args := ", ".toList.intercalate (e.args.map py.argument)
  "// ".toList ++ e.name.toList ++
    (if args.isEmpty then [] else " (".toList ++ args ++ ")".toList)

def Metric.lines (py : Python S) (entry : Metric S × Nat) : Except Failure (List (List Char)) := do
  let comment ← entry.1.comment py
  pure [comment, (Declaration.metric entry.1.handle entry.2 entry.1.kind).text]

def Event.lines (py : Python S) (entry : Event S × Nat) : List (List Char) :=
  [entry.1.comment py, (Declaration.event entry.1.handle entry.2).text]

def headerLines (component source : String) : List (List Char) :=
  ["// Generated by telemetry/tools/gen_catalog.py from ".toList ++ source.toList ++
      ". Do not edit.".toList,
    ("// Storage-free handles for every build level, including off " ++
      "(RFC-0001 §5, RFC-0002 §1).").toList,
    "#pragma once".toList, [], "#include <ostia/telemetry/handles.hpp>".toList, [],
    "namespace ostia::".toList ++ component.toList ++ "::catalog \x7b".toList, []]

def footerLines (component : String) : List (List Char) :=
  [[], "\x7d // namespace ostia::".toList ++ component.toList ++ "::catalog".toList, []]

/-- The text of the header. -/
def render (py : Python S) (component : String) (catalog : Catalog S) (source : String) :
    Except Failure (List Char) := do
  let metrics ← catalog.metrics.zipIdx.mapM (Metric.lines py)
  let events := catalog.events.zipIdx.map (Event.lines py)
  pure ("\n".toList.intercalate (headerLines component source ++ metrics.flatten ++
    events.flatten ++ footerLines component))

end Telemetry
end Ostia
