/-!
# JSON tokens

The words of JSON text: how each is written, and how a text is cut into them. Blanks may stand
between tokens. Names and numbers extend as far as their characters go.
-/

namespace Intcode.Json

/-- The words of JSON text. -/
inductive Token
  | openArray
  | closeArray
  | openObject
  | closeObject
  | comma
  | colon
  | null
  | bool (b : Bool)
  | integer (n : Int)
  | decimal (literal : String)
  | text (s : Option String)
deriving DecidableEq, Repr

/-- The escape of a code unit, four lower case hexadecimal digits. -/
def unitEscape (n : Nat) : List Char :=
  ['\\', 'u'] ++ (Nat.toDigits 16 n).leftpad 4 '0'

/-- Write one character of a string. -/
def escapeChar : Char → List Char
  | '"' => ['\\', '"']
  | '\\' => ['\\', '\\']
  | '\x08' => ['\\', 'b']
  | '\x0c' => ['\\', 'f']
  | '\n' => ['\\', 'n']
  | '\r' => ['\\', 'r']
  | '\t' => ['\\', 't']
  | c => if c.toNat < 32 then unitEscape c.toNat else [c]

/-- Write a token. A string that stands for no text is written as half of a surrogate pair. -/
def Token.spell : Token → List Char
  | openArray => ['[']
  | closeArray => [']']
  | openObject => ['\x7b']
  | closeObject => ['\x7d']
  | comma => [',']
  | colon => [':']
  | null => "null".toList
  | bool true => "true".toList
  | bool false => "false".toList
  | integer n => (toString n).toList
  | decimal literal => literal.toList
  | text (some s) => '"' :: s.toList.flatMap escapeChar ++ ['"']
  | text none => '"' :: unitEscape 0xd800 ++ ['"']

/-- The characters that may stand between tokens. -/
def isSpace (c : Char) : Bool := c == ' ' || c == '\n' || c == '\t' || c == '\r'

/-- The tokens of a single character. -/
def punctuation? : Char → Option Token
  | '[' => some .openArray
  | ']' => some .closeArray
  | '\x7b' => some .openObject
  | '\x7d' => some .closeObject
  | ',' => some .comma
  | ':' => some .colon
  | _ => none

/-- The characters of names and numbers. -/
def isWordChar (c : Char) : Bool := c.isAlphanum || c == '-' || c == '+' || c == '.'

/-- Whether a text is empty or an exponent. -/
def isExponent : List Char → Bool
  | [] => true
  | e :: rest =>
    let digits := match rest with
      | '+' :: r | '-' :: r => r
      | r => r
    (e == 'e' || e == 'E') && !digits.isEmpty && digits.all Char.isDigit

/-- Whether a text is a fraction or an exponent, or one after the other, or empty. -/
def isFraction : List Char → Bool
  | '.' :: rest =>
    !(rest.takeWhile Char.isDigit).isEmpty && isExponent (rest.dropWhile Char.isDigit)
  | rest => isExponent rest

/-- Read an unsigned number: digits without a leading zero, then possibly a fraction. -/
def readNumber? (negative : Bool) (cs : List Char) : Option Token :=
  let digits := cs.takeWhile Char.isDigit
  let rest := cs.dropWhile Char.isDigit
  let n := Nat.ofDigitChars 10 digits 0
  let literal := String.ofList (if negative then '-' :: cs else cs)
  if digits.isEmpty || (digits.head? == some '0' && digits.length != 1) then none
  else if !rest.isEmpty then if isFraction rest then some (.decimal literal) else none
  else if negative then some (if n = 0 then .decimal literal else .integer (-n))
  else some (.integer n)

/-- Read a name or a number. -/
def readWord? (cs : List Char) : Option Token :=
  if cs = "null".toList then some .null
  else if cs = "true".toList then some (.bool true)
  else if cs = "false".toList then some (.bool false)
  else
    match cs with
    | '-' :: rest => readNumber? true rest
    | _ => readNumber? false cs

/-- The value of a hexadecimal digit. -/
def hexDigit? (c : Char) : Option Nat :=
  if '0' ≤ c ∧ c ≤ '9' then some (c.toNat - 48)
  else if 'a' ≤ c ∧ c ≤ 'f' then some (c.toNat - 87)
  else if 'A' ≤ c ∧ c ≤ 'F' then some (c.toNat - 55)
  else none

/-- The value of four hexadecimal digits. -/
def hexUnit? (a b c d : Char) : Option Nat := do
  return ((← hexDigit? a) * 16 + (← hexDigit? b)) * 256 + (← hexDigit? c) * 16 + (← hexDigit? d)

/-- The character that a single-letter escape stands for. -/
def escaped? : Char → Option Char
  | '"' => some '"'
  | '\\' => some '\\'
  | '/' => some '/'
  | 'b' => some '\x08'
  | 'f' => some '\x0c'
  | 'n' => some '\n'
  | 'r' => some '\r'
  | 't' => some '\t'
  | _ => none

/-- Read the rest of a string, up to its closing quote, as code points and code units. -/
def readString? : List Char → Option (List Nat × List Char)
  | [] => none
  | '"' :: rest => some ([], rest)
  | '\\' :: 'u' :: a :: b :: c :: d :: rest => do
    let unit ← hexUnit? a b c d
    let (units, rest) ← readString? rest
    return (unit :: units, rest)
  | '\\' :: c :: rest => do
    let c ← escaped? c
    let (units, rest) ← readString? rest
    return (c.toNat :: units, rest)
  | c :: rest =>
    if c.toNat < 32 || c == '\\' then none
    else do
      let (units, rest) ← readString? rest
      return (c.toNat :: units, rest)

/-- Join surrogate pairs and refuse the halves that are left over. -/
def joinUnits? : List Nat → Option (List Char)
  | [] => some []
  | high :: rest =>
    if 0xd800 ≤ high ∧ high < 0xdc00 then
      match rest with
      | low :: rest =>
        if 0xdc00 ≤ low ∧ low < 0xe000 then
          let point := 0x10000 + (high - 0xd800) * 0x400 + (low - 0xdc00)
          (joinUnits? rest).map (Char.ofNat point :: ·)
        else none
      | [] => none
    else if 0xdc00 ≤ high ∧ high < 0xe000 then none
    else (joinUnits? rest).map (Char.ofNat high :: ·)

/-- A string is read up to a point further on. -/
theorem readString?_shorter {cs rest : List Char} {units : List Nat}
    (h : readString? cs = some (units, rest)) : rest.length < cs.length := by
  fun_induction readString? cs generalizing units rest with
  | case1 => simp at h
  | case2 => simp_all
  | case3 a b c d r ih =>
    simp only [Option.bind_eq_bind, Option.bind_eq_some_iff, Option.pure_def] at h
    obtain ⟨_, _, ⟨u, r'⟩, hr, h⟩ := h
    have := ih hr
    simp only [Option.some.injEq, Prod.mk.injEq] at h
    simp only [List.length_cons, ← h.2]
    omega
  | case4 c r _ ih =>
    simp only [Option.bind_eq_bind, Option.bind_eq_some_iff, Option.pure_def] at h
    obtain ⟨_, _, ⟨u, r'⟩, hr, h⟩ := h
    have := ih hr
    simp only [Option.some.injEq, Prod.mk.injEq] at h
    simp only [List.length_cons, ← h.2]
    omega
  | case5 => simp at h
  | case6 c r _ _ _ _ ih =>
    simp only [Option.bind_eq_bind, Option.bind_eq_some_iff, Option.pure_def] at h
    obtain ⟨⟨u, r'⟩, hr, h⟩ := h
    have := ih hr
    simp only [Option.some.injEq, Prod.mk.injEq] at h
    simp only [List.length_cons, ← h.2]
    omega

/-- Cut a text into tokens. -/
def tokenize? (cs : List Char) : Option (List Token) :=
  match cs with
  | [] => some []
  | c :: rest =>
    if isSpace c then tokenize? rest
    else if c = '"' then
      match h : readString? rest with
      | some (units, after) =>
        have := readString?_shorter h
        (tokenize? after).map (.text ((joinUnits? units).map String.ofList) :: ·)
      | none => none
    else if isWordChar c then do
      let token ← readWord? (c :: rest.takeWhile isWordChar)
      have := (List.dropWhile_sublist (l := rest) isWordChar).length_le
      let tokens ← tokenize? (rest.dropWhile isWordChar)
      return token :: tokens
    else do
      let token ← punctuation? c
      let tokens ← tokenize? rest
      return token :: tokens
termination_by cs.length

end Intcode.Json
