/-!
# Operations and parameter modes

An instruction names its operation and the modes of its parameters by number. There are ten
operations and three modes. A parameter cell holds an address, the operand itself, or an offset
from the relative base, and the result of an operation that produces one goes to the cell named by
its last parameter. A number that stands for nothing is reported together with the table that it
was looked up in.
-/

namespace Intcode

/-- The tables that an instruction's digits index. -/
inductive CodeTable
  | opcode
  | mode
deriving DecidableEq, Repr

/-- Name a table in messages. -/
def CodeTable.label : CodeTable → String
  | .opcode => "opcode"
  | .mode => "parameter mode"

/-- A number without an entry in its table. -/
structure UnknownCode where
  table : CodeTable
  code : Nat
deriving DecidableEq, Repr

/-- Say which number is missing from which table. -/
def UnknownCode.message (e : UnknownCode) : String :=
  e.table.label ++ " with code " ++ toString e.code ++ " is not supported"

/-- The ways in which a parameter names its operand. -/
inductive Mode
  /-- The parameter is the address of the operand. -/
  | position
  /-- The parameter cell is the operand. -/
  | immediate
  /-- The parameter plus the relative base is the address of the operand. -/
  | relative
deriving DecidableEq, Repr, Inhabited

namespace Mode

/-- Every mode, in listing order. -/
def all : List Mode := [position, immediate, relative]

/-- The digit that stands for a mode in an instruction. -/
def code : Mode → Nat
  | position => 0
  | immediate => 1
  | relative => 2

/-- Find the mode with a given digit. -/
def ofCode : Nat → Except UnknownCode Mode
  | 0 => .ok position
  | 1 => .ok immediate
  | 2 => .ok relative
  | n => .error ⟨.mode, n⟩

@[simp] theorem ofCode_code (m : Mode) : ofCode m.code = .ok m := by
  cases m <;> rfl

/-- The name of a mode in exchanged data. -/
def name : Mode → String
  | position => "Position"
  | immediate => "Immediate"
  | relative => "Relative"

/-- Find the mode with a given name. -/
def ofName? (s : String) : Option Mode :=
  all.find? fun m => m.name == s

/-- The mark of a mode in listings. -/
def sigil : Mode → String
  | position => "%"
  | immediate => "#"
  | relative => "@"

end Mode

/-- The operations, in the order in which tables list them. -/
inductive Opcode
  /-- Store the sum of two operands. -/
  | add
  /-- Store the product of two operands. -/
  | mul
  /-- Store a value taken from the input channel. -/
  | input
  /-- Send an operand to the output channel. -/
  | output
  /-- Jump to the second operand if the first is not zero. -/
  | jumpIfTrue
  /-- Jump to the second operand if the first is zero. -/
  | jumpIfFalse
  /-- Store one if the first operand is below the second, and zero otherwise. -/
  | lessThan
  /-- Store one if the operands are equal, and zero otherwise. -/
  | equals
  /-- Add an operand to the relative base. -/
  | adjustBase
  /-- Stop the machine. -/
  | halt
deriving DecidableEq, Repr, Inhabited

namespace Opcode

/-- Every operation, in listing order. -/
def all : List Opcode :=
  [add, mul, input, output, jumpIfTrue, jumpIfFalse, lessThan, equals, adjustBase, halt]

/-- The list of all operations leaves none out. -/
theorem mem_all (op : Opcode) : op ∈ all := by
  cases op <;> decide

/-- The number that stands for an operation in an instruction. -/
def code : Opcode → Nat
  | add => 1
  | mul => 2
  | input => 3
  | output => 4
  | jumpIfTrue => 5
  | jumpIfFalse => 6
  | lessThan => 7
  | equals => 8
  | adjustBase => 9
  | halt => 99

/-- Find the operation with a given number. -/
def ofCode : Nat → Except UnknownCode Opcode
  | 1 => .ok add
  | 2 => .ok mul
  | 3 => .ok input
  | 4 => .ok output
  | 5 => .ok jumpIfTrue
  | 6 => .ok jumpIfFalse
  | 7 => .ok lessThan
  | 8 => .ok equals
  | 9 => .ok adjustBase
  | 99 => .ok halt
  | n => .error ⟨.opcode, n⟩

@[simp] theorem ofCode_code (op : Opcode) : ofCode op.code = .ok op := by
  cases op <;> rfl

/-- The name of an operation in reports and other exchanged data. -/
def name : Opcode → String
  | add => "ADD"
  | mul => "MUL"
  | input => "IN"
  | output => "OUT"
  | jumpIfTrue => "JNZ"
  | jumpIfFalse => "JZ"
  | lessThan => "LT"
  | equals => "EQ"
  | adjustBase => "ARB"
  | halt => "HALT"

/-- Find the operation with a given name. -/
def ofName? (s : String) : Option Opcode :=
  all.find? fun op => op.name == s

/-- The short word for an operation in listings and messages. -/
def mnemonic : Opcode → String
  | add => "add"
  | mul => "mul"
  | input => "in"
  | output => "out"
  | jumpIfTrue => "jnz"
  | jumpIfFalse => "jz"
  | lessThan => "lt"
  | equals => "eq"
  | adjustBase => "arb"
  | halt => "halt"

/-- The number of parameters that follow an operation's cell. -/
def arity : Opcode → Nat
  | add | mul | lessThan | equals => 3
  | jumpIfTrue | jumpIfFalse => 2
  | input | output | adjustBase => 1
  | halt => 0

/-- Whether the last parameter names the cell that receives a result. -/
def writesResult : Opcode → Bool
  | add | mul | input | lessThan | equals => true
  | output | jumpIfTrue | jumpIfFalse | adjustBase | halt => false

/-- The place of an operation in the list of all operations. -/
def index : Opcode → Fin 10
  | add => 0
  | mul => 1
  | input => 2
  | output => 3
  | jumpIfTrue => 4
  | jumpIfFalse => 5
  | lessThan => 6
  | equals => 7
  | adjustBase => 8
  | halt => 9

theorem index_inj {a b : Opcode} : a.index = b.index ↔ a = b := by
  cases a <;> cases b <;> decide

end Opcode

end Intcode
