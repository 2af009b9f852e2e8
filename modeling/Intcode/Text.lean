import Intcode.Text.Unprintable

/-!
# Texts

Blanks, the characters with the Unicode property `White_Space`, are removed from both ends of a
text. Text inside messages stands between double quotes, where quotes, backslashes and the common
controls are escaped by a letter and other unprintable characters by their code point in
hexadecimal. An integer is written as an optional sign, a digit, and then digits and underscores
in any number. Underscores only group the digits.
-/

namespace Intcode

namespace Text

/-- Whether a character is white space. -/
def isBlank (c : Char) : Bool :=
  let n := c.toNat
  (9 ≤ n && n ≤ 13) || n == 32 || n == 133 || n == 160 || n == 5760 ||
    (8192 ≤ n && n ≤ 8202) || n == 8232 || n == 8233 || n == 8239 || n == 8287 || n == 12288

/-- Remove the blanks at both ends. -/
def trim (s : List Char) : List Char :=
  ((s.dropWhile isBlank).reverse.dropWhile isBlank).reverse

/-- The escape that names a code point in lower case hexadecimal digits. -/
def numericEscape (c : Char) : List Char :=
  ['\\', 'u', '\x7b'] ++ Nat.toDigits 16 c.toNat ++ ['\x7d']

/-- Write one character of a quoted text. -/
def quoteChar : Char → List Char
  | '"' => ['\\', '"']
  | '\\' => ['\\', '\\']
  | '\t' => ['\\', 't']
  | '\r' => ['\\', 'r']
  | '\n' => ['\\', 'n']
  | '\x00' => ['\\', '0']
  | c => if isUnprintable c then numericEscape c else [c]

/-- Put a text between double quotes. -/
def quoted (s : String) : String :=
  String.ofList ('"' :: s.toList.flatMap quoteChar ++ ['"'])

end Text

namespace Decimal

/-- Whether a text is a digit followed by digits and underscores. -/
def isNumeral : List Char → Bool
  | [] => false
  | c :: cs => c.isDigit && cs.all fun d => d.isDigit || d == '_'

/-- The number that the digits of a text denote. -/
def magnitude (cs : List Char) : Nat := Nat.ofDigitChars 10 (cs.filter Char.isDigit) 0

/-- Read an unsigned integer. -/
def readNat? (cs : List Char) : Option Nat :=
  if isNumeral cs then some (magnitude cs) else none

/-- Read an integer with an optional sign. -/
def read? : List Char → Option Int
  | '+' :: cs => (readNat? cs).map Int.ofNat
  | '-' :: cs => (readNat? cs).map fun n => -Int.ofNat n
  | cs => (readNat? cs).map Int.ofNat

end Decimal

end Intcode
