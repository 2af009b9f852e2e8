/-!
# JSON values

The values that programs and reports are exchanged as. Integers are kept exactly. A number
written with a fraction, an exponent or a negative zero is no integer and is kept as it is
written. A string with an escape that names half of a surrogate pair stands for no text.
-/

namespace Intcode

/-- A JSON value. -/
inductive Json
  | null
  | bool (b : Bool)
  | integer (n : Int)
  /-- A number that is not written as an integer. -/
  | decimal (literal : String)
  /-- A string, or none if it stands for no text. -/
  | text (s : Option String)
  | array (elements : List Json)
  | object (fields : List (Option String × Json))
deriving Repr

namespace Json

/-- Read an integer from `0` up to `bound - 1`. -/
def natBelow? (bound : Nat) : Json → Option Nat
  | integer (.ofNat n) => if n < bound then some n else none
  | _ => none

/-- The one value of a field, if it is given exactly once. -/
def soleField? (fields : List (Option String × Json)) (name : String) : Option Json :=
  match fields.filter fun field => field.1 == some name with
  | [field] => some field.2
  | _ => none

/-- Read a record with the given fields: either an object that has each of them once, and
possibly others, or an array of their values. -/
def record? (names : List String) : Json → Option (List Json)
  | object fields =>
    if fields.all fun field => field.1.isSome then names.mapM (soleField? fields) else none
  | array elements => if elements.length = names.length then some elements else none
  | _ => none

/-- Read a constant by its name, given alone or as the key of an object that holds a null. -/
def constant? {α : Type} (ofName? : String → Option α) : Json → Option α
  | text (some name) => ofName? name
  | object [(some name, null)] => ofName? name
  | _ => none

end Json

end Intcode
