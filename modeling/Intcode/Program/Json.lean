import Intcode.Json.Parse
import Intcode.Json.Print
import Intcode.Program

/-!
# The JSON form of programs

A program is a record with one field, its image. An integer is a pair of its sign and its
magnitude, which is a list of digits to the base 2³², least significant first.
-/

namespace Intcode

/-- The base of the digits that magnitudes are exchanged in. -/
def limbBase : Nat := Nat.pow 2 32

/-- The digits of a magnitude, least significant first, without leading zeros. -/
def limbs (n : Nat) : List Nat :=
  if n = 0 then [] else n % limbBase :: limbs (n / limbBase)
termination_by n
decreasing_by exact Nat.div_lt_self (by omega) (by decide)

/-- The magnitude with given digits, least significant first. -/
def ofLimbs : List Nat → Nat
  | [] => 0
  | d :: ds => d + limbBase * ofLimbs ds

/-- Digits and magnitude determine each other. -/
@[simp] theorem ofLimbs_limbs (n : Nat) : ofLimbs (limbs n) = n := by
  fun_induction limbs n with
  | case1 => rfl
  | case2 n _ ih => rw [ofLimbs, ih, Nat.mod_add_div]

namespace Json

/-- The JSON form of an integer. -/
def ofInt (n : Int) : Json :=
  array [integer n.sign, array ((limbs n.natAbs).map fun d => integer (Int.ofNat d))]

/-- Read an integer. The sign must be -1, 0 or 1, and a sign of 0 makes the integer 0. -/
def toInt? : Json → Option Int
  | array [integer sign, array digits] => do
    let digits ← digits.mapM (natBelow? limbBase)
    if sign = -1 ∨ sign = 0 ∨ sign = 1 then some (sign * ofLimbs digits) else none
  | _ => none

end Json

namespace Program

/-- The JSON form of a program. -/
def toJson (p : Program) : Json :=
  .object [(some "image", .array (p.image.toList.map Json.ofInt))]

/-- Read a program from its JSON form. -/
def ofJson? (v : Json) : Option Program :=
  match v.record? ["image"] with
  | some [.array cells] => do return ofList (← cells.mapM Json.toInt?)
  | _ => none

/-- Write a program as JSON text. -/
def jsonText (p : Program) : String := p.toJson.compact

/-- Read a program from JSON text. -/
def ofJsonText? (s : String) : Option Program := do ofJson? (← Json.parse? s)

end Program

end Intcode
