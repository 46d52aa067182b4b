/-!
# JSON values

An object keeps its fields in order. Reading gives every key once, so the first field of a name is
the only one.
-/

namespace Douro

/-- A JSON value. A number with a fraction or an exponent is kept as it is written. -/
inductive Json where
  | null
  | bool (value : Bool)
  | int (value : Int)
  | real (text : String)
  | string (value : String)
  | array (items : List Json)
  | object (fields : List (String × Json))

namespace Json

/-- The value of a key of an object. -/
def field? (key : String) : Json → Option Json
  | object fields => fields.lookup key
  | _ => none

/-- Give a key a value: in its place if the key is there, at the end otherwise. -/
def putField (key : String) (value : Json) : List (String × Json) → List (String × Json)
  | [] => [(key, value)]
  | (name, old) :: fields =>
    if name = key then (name, value) :: fields else (name, old) :: putField key value fields

end Json

end Douro
