import Abacus.Expr.Basic

/-!
# The text of a tree

Every operator node stands in parentheses, so the text reads back as the same tree. Negative
integers are written as a negation, and the least one, whose absolute value is no literal, as a
difference.
-/
namespace Abacus
namespace Expr

def intText (v : Int64) : Bytes :=
  if v = Int64.minValue then
    [Bytes.lparen, Bytes.minus] ++ Bytes.decimal Int64.maxValue.toInt.natAbs ++
      [Bytes.space, Bytes.minus, Bytes.space] ++ Bytes.decimal 1 ++ [Bytes.rparen]
  else if v < 0 then
    [Bytes.lparen, Bytes.minus] ++ Bytes.decimal v.toInt.natAbs ++ [Bytes.rparen]
  else Bytes.decimal v.toInt.natAbs

/-- The text of a tree in front of the text that follows. -/
def textOnto? : Expr → Bytes → Option Bytes
  | .hole _, _ => none
  | .int _ _ v, rest => some (intText v ++ rest)
  | .unary _ op x, rest => do
    let rest ← x.textOnto? (Bytes.rparen :: rest)
    return Bytes.lparen :: op.symbol UnaryOp.symbol :: rest
  | .binary _ op x y, rest => do
    let rest ← y.textOnto? (Bytes.rparen :: rest)
    let rest ← x.textOnto? (Bytes.space :: op.symbol BinaryOp.symbol :: Bytes.space :: rest)
    return Bytes.lparen :: rest

/-- The text of a tree; a tree with a hole has none. -/
def text? (e : Expr) : Option Bytes :=
  e.textOnto? []

/-- The text of a tree as a string; it is ASCII. -/
def string? (e : Expr) : Option String :=
  e.text?.map Bytes.toText

end Expr
end Abacus
