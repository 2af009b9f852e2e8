import Intcode.Json
import Intcode.Json.Token

/-!
# Writing JSON text

A value is written either without any blanks or laid out on lines, two blanks to a level. Both
forms consist of the same tokens.
-/

namespace Intcode.Json

mutual

/-- The tokens of a value. -/
def tokens : Json → List Token
  | null => [.null]
  | bool b => [.bool b]
  | integer n => [.integer n]
  | decimal literal => [.decimal literal]
  | text s => [.text s]
  | array [] => [.openArray, .closeArray]
  | array (v :: vs) => .openArray :: v.tokens ++ moreElements vs
  | object [] => [.openObject, .closeObject]
  | object ((k, v) :: fs) => .openObject :: .text k :: .colon :: v.tokens ++ moreFields fs

/-- The tokens of the further elements of an array, and its end. -/
def moreElements : List Json → List Token
  | [] => [.closeArray]
  | v :: vs => .comma :: v.tokens ++ moreElements vs

/-- The tokens of the further fields of an object, and its end. -/
def moreFields : List (Option String × Json) → List Token
  | [] => [.closeObject]
  | (k, v) :: fs => .comma :: .text k :: .colon :: v.tokens ++ moreFields fs

end

/-- Write a value without blanks. -/
def compact (v : Json) : String := String.ofList (v.tokens.flatMap Token.spell)

/-- A token or the blanks between two tokens. -/
inductive Piece
  | token (t : Token)
  | blank
  /-- A new line at a depth of nesting. -/
  | line (depth : Nat)

/-- Write a piece. -/
def Piece.spell : Piece → List Char
  | token t => t.spell
  | blank => [' ']
  | line depth => '\n' :: List.replicate (2 * depth) ' '

mutual

/-- Lay out a value at a depth of nesting. -/
def layout (depth : Nat) : Json → List Piece
  | null => [.token .null]
  | bool b => [.token (.bool b)]
  | integer n => [.token (.integer n)]
  | decimal literal => [.token (.decimal literal)]
  | text s => [.token (.text s)]
  | array [] => [.token .openArray, .token .closeArray]
  | array (v :: vs) =>
    .token .openArray :: .line (depth + 1) :: v.layout (depth + 1) ++ layoutElements depth vs
  | object [] => [.token .openObject, .token .closeObject]
  | object ((k, v) :: fs) =>
    .token .openObject :: .line (depth + 1) :: .token (.text k) :: .token .colon :: .blank ::
      v.layout (depth + 1) ++ layoutFields depth fs

/-- Lay out the further elements of an array, and its end. -/
def layoutElements (depth : Nat) : List Json → List Piece
  | [] => [.line depth, .token .closeArray]
  | v :: vs =>
    .token .comma :: .line (depth + 1) :: v.layout (depth + 1) ++ layoutElements depth vs

/-- Lay out the further fields of an object, and its end. -/
def layoutFields (depth : Nat) : List (Option String × Json) → List Piece
  | [] => [.line depth, .token .closeObject]
  | (k, v) :: fs =>
    .token .comma :: .line (depth + 1) :: .token (.text k) :: .token .colon :: .blank ::
      v.layout (depth + 1) ++ layoutFields depth fs

end

/-- Write a value on lines. -/
def pretty (v : Json) : String := String.ofList ((v.layout 0).flatMap Piece.spell)

end Intcode.Json
