import Intcode.Text

/-!
# Programs

A program is the image that a machine's memory holds at first. It is written as integers separated
by commas, with blanks allowed around each of them. A text of blanks alone is the empty program.
Reading stops at the first field that is no integer. The samples are small programs with a known
purpose.
-/

namespace Intcode

/-- The initial contents of memory. -/
structure Program where
  image : Array Int
deriving DecidableEq, Repr, Inhabited

/-- A program from its cells. -/
def Program.ofList (cells : List Int) : Program := ⟨cells.toArray⟩

namespace Program

/-- A field of a program text that is no integer. -/
structure TextError where
  index : Nat
  token : String
deriving DecidableEq, Repr

/-- Say which field of the text is wrong. -/
def TextError.message (e : TextError) : String :=
  "invalid integer " ++ Text.quoted e.token ++ " at position " ++ toString e.index

/-- Cut a text at every comma. -/
def fields : List Char → List (List Char)
  | [] => [[]]
  | c :: cs =>
    if c = ',' then [] :: fields cs
    else
      match fields cs with
      | [] => [[c]]
      | f :: fs => (c :: f) :: fs

/-- Read the field at an index. -/
def readField (field : List Char) (index : Nat) : Except TextError Int :=
  match Decimal.read? (Text.trim field) with
  | some v => .ok v
  | none => .error ⟨index, String.ofList (Text.trim field)⟩

/-- Read a program text. -/
def parse (text : String) : Except TextError Program :=
  match Text.trim text.toList with
  | [] => .ok ⟨#[]⟩
  | body => return ofList (← (fields body).zipIdx.mapM fun (field, i) => readField field i)

/-- Write a program text without blanks. -/
def text (p : Program) : String := ",".intercalate (p.image.toList.map toString)

/-- Add cell 0 to itself, which leaves 2 there. -/
def addSelf : Program := ofList [1, 0, 0, 0, 99]

/-- Send the one input back. -/
def echo : Program := ofList [3, 0, 4, 0, 99]

/-- Send 0 if the input is zero and 1 otherwise, with jumps in position mode. -/
def isNonzero : Program := ofList [3, 12, 6, 12, 15, 1, 13, 14, 13, 4, 13, 99, -1, 0, 1, 9]

/-- Send 999, 1000 or 1001 if the input is below, equal to or above 8. -/
def compareToEight : Program := ofList
  [3, 21, 1008, 21, 8, 20, 1005, 20, 22, 107, 8, 21, 20, 1006, 20, 31, 1106, 0, 36, 98, 0, 0,
    1002, 21, 125, 20, 4, 20, 1105, 1, 46, 104, 999, 1105, 1, 46, 1101, 1000, 1, 20, 4, 20,
    1105, 1, 46, 98, 99]

/-- Send the cells of this very program. -/
def quine : Program := ofList
  [109, 1, 204, -1, 1001, 100, 1, 100, 1008, 100, 16, 101, 1006, 101, 0, 99]

/-- Send the square of 34915192. -/
def largeProduct : Program := ofList [1102, 34915192, 34915192, 7, 4, 7, 99, 0]

/-- Send the number 1125899906842624. -/
def largeLiteral : Program := ofList [104, 1125899906842624, 99]

/-- Read a phase and a signal, and send ten times the signal plus the phase. -/
def amplifier : Program := ofList
  [3, 15, 3, 16, 1002, 16, 10, 16, 1, 16, 15, 15, 4, 15, 99, 0, 0]

/-- Read a phase, then five times read a signal and send twice the signal plus the phase less 4. -/
def feedbackAmplifier : Program := ofList
  [3, 26, 1001, 26, -4, 26, 3, 27, 1002, 27, 2, 27, 1, 27, 26, 27, 4, 27, 1001, 28, -1, 28,
    1005, 28, 6, 99, 0, 0, 5]

/-- The samples that can be asked for by name. -/
def named : List (String × Program) :=
  [("ADD_SELF", addSelf), ("ECHO", echo), ("IS_NONZERO", isNonzero),
    ("COMPARE_TO_EIGHT", compareToEight), ("QUINE", quine), ("LARGE_PRODUCT", largeProduct),
    ("LARGE_LITERAL", largeLiteral)]

end Program

end Intcode
