import Abacus.Text.Bytes
import Abacus.Source.Position

/-!
# Expression trees

A tree read from source text consists of integers, unary and binary nodes. Trees may also be put
together by hand, so a node's operator can be a code that names none, and an operand can be
missing. A missing node is a hole; its kind says which node was expected there.
-/
namespace Abacus

inductive UnaryOp where
  | identity
  | negate
deriving DecidableEq, Inhabited

inductive BinaryOp where
  | add
  | sub
  | mul
  | div
deriving DecidableEq, Inhabited

/-- The operator of a node: one of the language's, or a code that names none. -/
inductive Operator (α : Type) where
  | known (op : α)
  | unknown (code : UInt8)
deriving DecidableEq, Inhabited

inductive Hole where
  | node
  | int
  | unary
  | binary
deriving DecidableEq, Inhabited

inductive Expr where
  | hole (kind : Hole)
  | int (pos : Position) (literal : Bytes) (value : Int64)
  | unary (pos : Position) (op : Operator UnaryOp) (x : Expr)
  | binary (pos : Position) (op : Operator BinaryOp) (x y : Expr)
deriving DecidableEq, Inhabited

namespace UnaryOp

def ofCode (code : UInt8) : Operator UnaryOp :=
  if code = 1 then .known .identity
  else if code = 2 then .known .negate
  else .unknown code

def symbol : UnaryOp → UInt8
  | .identity => Bytes.plus
  | .negate => Bytes.minus

end UnaryOp

namespace BinaryOp

def ofCode (code : UInt8) : Operator BinaryOp :=
  if code = 1 then .known .add
  else if code = 2 then .known .sub
  else if code = 3 then .known .mul
  else if code = 4 then .known .div
  else .unknown code

def symbol : BinaryOp → UInt8
  | .add => Bytes.plus
  | .sub => Bytes.minus
  | .mul => Bytes.star
  | .div => Bytes.slash

/-- Operators of higher precedence bind tighter; those of equal precedence group to the left. -/
def precedence : BinaryOp → Nat
  | .add => 1
  | .sub => 1
  | .mul => 2
  | .div => 2

end BinaryOp

namespace Operator

/-- The sign of an operator; one that names none is shown as a question mark. -/
def symbol {α : Type} (sign : α → UInt8) : Operator α → UInt8
  | .known op => sign op
  | .unknown _ => Bytes.questionMark

end Operator

namespace Expr

/-- An integer that comes from no source text. -/
def ofInt (v : Int64) : Expr :=
  .int {} [] v

def ofUnary (op : UnaryOp) (x : Expr) : Expr :=
  .unary {} (.known op) x

def ofBinary (op : BinaryOp) (x y : Expr) : Expr :=
  .binary {} (.known op) x y

/-- The position of the first byte of a node, if no hole is on the way to it. -/
def start? : Expr → Option Position
  | .hole _ => none
  | .int p _ _ => some p
  | .unary p _ _ => some p
  | .binary _ _ x _ => x.start?

/-- The position just after a node, if no hole is on the way to it. -/
def stop? : Expr → Option Position
  | .hole _ => none
  | .int p literal _ => some (p.along literal.length)
  | .unary _ _ x => x.stop?
  | .binary _ _ _ y => y.stop?

/-- The height of a tree. A missing operand adds nothing, and a missing operator node has none. -/
def depth? : Expr → Option Nat
  | .hole .node => some 0
  | .hole .int => some 1
  | .hole .unary => none
  | .hole .binary => none
  | .int _ _ _ => some 1
  | .unary _ _ x => x.depth?.map (1 + ·)
  | .binary _ _ x y => do
    let dx ← x.depth?
    let dy ← y.depth?
    return 1 + max dx dy

end Expr
end Abacus
