import Mathlib.Data.Rat.Defs
import Mathlib.Data.String.Basic
import Ostia.Foundation.OrdMap

/-!
# JSON documents

The values of a JSON library whose objects are ordered maps.  Integers are
exact; a number read with a fraction or an exponent is kept apart from the
integers, by its value.
-/

namespace Ostia
namespace Topology

open Foundation

/-- A JSON value; the fields of an object are listed in the order of iteration. -/
inductive Json where
  | null
  | bool (b : Bool)
  | int (n : Int)
  | float (q : Rat)
  | str (s : String)
  | arr (items : List Json)
  | obj (fields : List (String × Json))

namespace Json

def isObject : Json -> Bool
  | obj _ => true
  | _ => false

def isArray : Json -> Bool
  | arr _ => true
  | _ => false

def isString : Json -> Bool
  | str _ => true
  | _ => false

def isNumberInteger : Json -> Bool
  | int _ => true
  | _ => false

def isNumber : Json -> Bool
  | int _ => true
  | float _ => true
  | _ => false

def isBoolean : Json -> Bool
  | bool _ => true
  | _ => false

def isNull : Json -> Bool
  | null => true
  | _ => false

def typeName : Json -> String
  | null => "null"
  | bool _ => "boolean"
  | int _ => "number"
  | float _ => "number"
  | str _ => "string"
  | arr _ => "array"
  | obj _ => "object"

/-- The member of an object; nothing for a missing key or a value of another type. -/
def get? : Json -> String -> Option Json
  | obj fields, key => OrdMap.lookup key fields
  | _, _ => none

def contains (j : Json) (key : String) : Bool := (j.get? key).isSome

/-- An object from the entries of an ordered map. -/
def ofMap (m : OrdMap String Json) : Json := obj m.entries

theorem ofMap_injective : Function.Injective ofMap := by
  intro m m' h
  injection h with hentries
  cases m
  cases m'
  cases hentries
  rfl

end Json
end Topology
end Ostia
