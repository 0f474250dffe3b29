import Abacus.Fault

/-!
# The value of a tree

Operands are evaluated left to right, and the first failure is the answer. A node with an unknown
operator fails before its operands are looked at.
-/
namespace Abacus
namespace Expr

def applyUnary (arith : Arithmetic) : UnaryOp → Int64 → Except ArithmeticError Int64
  | .identity, v => .ok v
  | .negate, v => arith.negate v

def evalWith (arith : Arithmetic) : Expr → Except Fault Int64
  | .hole _ => .error (Fault.compile .missingNode)
  | .int _ _ v => .ok v
  | .unary _ (.unknown _) _ => .error (Fault.compile .unknownOperator)
  | .unary _ (.known op) x => do
    let v ← x.evalWith arith
    (applyUnary arith op v).mapError (Fault.arithmetic none)
  | .binary _ (.unknown _) _ _ => .error (Fault.compile .unknownOperator)
  | .binary _ (.known op) x y => do
    let a ← x.evalWith arith
    let b ← y.evalWith arith
    (arith.binary op a b).mapError (Fault.arithmetic none)

/-- The exact value, if every intermediate result is a word. -/
def eval (e : Expr) : Except Fault Int64 :=
  e.evalWith .checked

/-- The value modulo two to the sixty-fourth. -/
def wrapping (e : Expr) : Except Fault Int64 :=
  e.evalWith .wrapping

end Expr
end Abacus
