import Abacus.Expr.Basic

/-!
# Arithmetic on 64-bit words

Checked arithmetic gives the exact result or says why there is none; wrapping arithmetic reduces
modulo two to the sixty-fourth and fails only on a zero divisor. Quotients are truncated toward
zero in both. The checks look at words only: a sum has overflowed when it lies on the wrong side
of its first term, a product when dividing it does not give a factor back.
-/
namespace Abacus

inductive ArithmeticError where
  | divisionByZero
  | overflow
deriving DecidableEq, Inhabited

namespace ArithmeticError

def text : ArithmeticError → String
  | .divisionByZero => "division by zero"
  | .overflow => "integer overflow"

end ArithmeticError

namespace Checked

def add (a b : Int64) : Except ArithmeticError Int64 :=
  let c := a + b
  if decide (a < c) = decide (0 < b) then .ok c else .error .overflow

def sub (a b : Int64) : Except ArithmeticError Int64 :=
  let c := a - b
  if decide (c < a) = decide (0 < b) then .ok c else .error .overflow

def mul (a b : Int64) : Except ArithmeticError Int64 :=
  if a = 0 ∨ b = 0 then .ok 0
  else
    let c := a * b
    if (a = -1 ∧ b = Int64.minValue) ∨ (b = -1 ∧ a = Int64.minValue) ∨ c / b ≠ a then
      .error .overflow
    else .ok c

def div (a b : Int64) : Except ArithmeticError Int64 :=
  if b = 0 then .error .divisionByZero
  else if a = Int64.minValue ∧ b = -1 then .error .overflow
  else .ok (a / b)

def neg (a : Int64) : Except ArithmeticError Int64 :=
  if a = Int64.minValue then .error .overflow else .ok (-a)

end Checked

namespace Wrapping

def div (a b : Int64) : Except ArithmeticError Int64 :=
  if b = 0 then .error .divisionByZero
  else if b = -1 then .ok (-a)
  else .ok (a / b)

end Wrapping

/-- What the operators do to words. -/
structure Arithmetic where
  binary : BinaryOp → Int64 → Int64 → Except ArithmeticError Int64
  negate : Int64 → Except ArithmeticError Int64

namespace Arithmetic

def checked : Arithmetic where
  binary
    | .add, a, b => Checked.add a b
    | .sub, a, b => Checked.sub a b
    | .mul, a, b => Checked.mul a b
    | .div, a, b => Checked.div a b
  negate := Checked.neg

def wrapping : Arithmetic where
  binary
    | .add, a, b => .ok (a + b)
    | .sub, a, b => .ok (a - b)
    | .mul, a, b => .ok (a * b)
    | .div, a, b => Wrapping.div a b
  negate a := .ok (-a)

end Arithmetic
end Abacus
