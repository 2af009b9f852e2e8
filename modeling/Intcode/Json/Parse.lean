import Intcode.Json
import Intcode.Json.Token

/-!
# Reading JSON text

Tokens are taken one by one, with the containers that are begun and not yet closed kept on a
stack. A text is accepted if its tokens make up exactly one value.
-/

namespace Intcode.Json

/-- The fields of an object read so far, last first. -/
abbrev Fields := List (Option String × Json)

/-- A container that is not closed yet, with what it holds so far, last first. -/
inductive Frame
  | array (done : List Json)
  | object (done : Fields) (key : Option String)

/-- What may come next. -/
inductive Expected
  | value
  /-- The first element of an array or its end. -/
  | element
  /-- The first key of an object or its end. -/
  | firstKey
  | key (done : Fields)
  | colon (done : Fields) (key : Option String)
  /-- A comma or the end of the container, after a value. -/
  | after (v : Json)

/-- The progress of reading. -/
abbrev Progress := Expected × List Frame

/-- Begin a value. -/
def beginValue (stack : List Frame) : Token → Option Progress
  | .null => some (.after .null, stack)
  | .bool b => some (.after (.bool b), stack)
  | .integer n => some (.after (.integer n), stack)
  | .decimal literal => some (.after (.decimal literal), stack)
  | .text s => some (.after (.text s), stack)
  | .openArray => some (.element, .array [] :: stack)
  | .openObject => some (.firstKey, stack)
  | .closeArray | .closeObject | .comma | .colon => none

/-- Go on after a value in the container on top of the stack. -/
def afterValue (v : Json) : List Frame → Token → Option Progress
  | .array done :: stack, .comma => some (.value, .array (v :: done) :: stack)
  | .array done :: stack, .closeArray => some (.after (.array (v :: done).reverse), stack)
  | .object done key :: stack, .comma => some (.key ((key, v) :: done), stack)
  | .object done key :: stack, .closeObject =>
    some (.after (.object ((key, v) :: done).reverse), stack)
  | _, _ => none

/-- Take one token. -/
def advance : Progress → Token → Option Progress
  | (.value, stack), t => beginValue stack t
  | (.element, .array [] :: stack), .closeArray => some (.after (.array []), stack)
  | (.element, stack), t => beginValue stack t
  | (.firstKey, stack), .closeObject => some (.after (.object []), stack)
  | (.firstKey, stack), .text k => some (.colon [] k, stack)
  | (.key done, stack), .text k => some (.colon done k, stack)
  | (.colon done k, stack), .colon => some (.value, .object done k :: stack)
  | (.after v, stack), t => afterValue v stack t
  | _, _ => none

/-- Read the value that a list of tokens makes up. -/
def ofTokens? (tokens : List Token) : Option Json :=
  match tokens.foldlM advance (.value, []) with
  | some (.after v, []) => some v
  | _ => none

/-- Read the value that a text makes up. -/
def parse? (s : String) : Option Json := do ofTokens? (← tokenize? s.toList)

end Intcode.Json
