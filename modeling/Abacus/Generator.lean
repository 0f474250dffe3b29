import Abacus.Expr.Basic
import Abacus.Lagged
import Abacus.Opcode

/-!
# Random trees

A generator draws from a source of randomness: a byte string, for trees that a caller determines,
or a seeded sequence. The draws are made in a fixed order: the shape of a node, its operator, then
its operands from left to right.
-/
namespace Abacus

/-- A source of random numbers with its state. -/
structure Randomness (σ : Type) where
  /-- A number from zero up to a positive bound, and zero for any other bound. -/
  below : Int64 → σ → Int64 × σ
  /-- A number of 63 bits. -/
  wide : σ → Int64 × σ

namespace Randomness

/-- The number with the given bytes, least first. -/
def littleEndian (bs : Bytes) : UInt64 :=
  bs.foldr (fun b n => n <<< 8 ||| b.toUInt64) 0

/-- Draws from a byte string; once it is used up, every draw is zero. -/
def ofBytes : Randomness Bytes where
  below
    | _, [] => (0, [])
    | n, b :: bs => if n ≤ 0 then (0, b :: bs) else (b.toUInt64.toInt64 % n, bs)
  wide bs := ((littleEndian (bs.take 8) >>> 1).toInt64, bs.drop 8)

/-- Draws from a sequence that a seed determines. A number below a bound is what a draw leaves over
when divided by it; draws behind the last multiple of the bound are passed over, so that no number
is more frequent than another. -/
def seeded : Randomness Lagged where
  below n s :=
    if n ≤ 0 then (0, s)
    else
      let (dropped, range) : UInt64 × UInt64 :=
        if n < 2147483648 then (32, 2147483648) else (0, 9223372036854775808)
      let bound := n.toUInt64
      let (v, s) := (Lagged.drawBelow dropped (range - range % bound) Lagged.states s).getD (0, s)
      ((v % bound).toInt64, s)
  wide s :=
    let (v, s) := s.draw
    (v.toInt64, s)

end Randomness

structure Generator where
  maxDepth : Nat := 8
  /-- The greatest magnitude of a small literal. -/
  bound : Int64 := 127
  division : Bool := false
  /-- Whether literals that need the constant pool are drawn too. -/
  large : Bool := false

namespace Generator

variable {σ : Type}

/-- A depth counts from zero up. -/
def withMaxDepth (g : Generator) (d : Int) : Generator :=
  { g with maxDepth := d.toNat }

/-- A bound is taken by its magnitude. -/
def withBound (g : Generator) (b : Int64) : Generator :=
  { g with bound := if b < 0 then -b else b }

def operators (g : Generator) : List BinaryOp :=
  if g.division then [.add, .sub, .mul, .div] else [.add, .sub, .mul]

/-- A literal outside the inline range; its magnitude stays near forty bits. -/
def largeLiteral (r : Randomness σ) (s : σ) : Int64 × σ :=
  let (n, s) := r.wide s
  let v := n % 1099511627776 + 32768
  let (sign, s) := r.below 2 s
  (if sign = 0 then -v else v, s)

def smallLiteral (g : Generator) (r : Randomness σ) (s : σ) : Int64 × σ :=
  if g.bound = 0 then (0, s)
  else
    let (n, s) := r.below (2 * g.bound + 1) s
    (n - g.bound, s)

def literal (g : Generator) (r : Randomness σ) (s : σ) : Int64 × σ :=
  if g.large then
    let (choice, s) := r.below 4 s
    if choice = 0 then largeLiteral r s else g.smallLiteral r s
  else g.smallLiteral r s

/-- A tree with at most the given number of operators above each literal. -/
def exprWithin (g : Generator) (r : Randomness σ) : Nat → σ → Expr × σ
  | 0, s =>
    let (v, s) := g.literal r s
    (.ofInt v, s)
  | d + 1, s =>
    let (shape, s) := r.below 4 s
    if shape = 0 then
      let (v, s) := g.literal r s
      (.ofInt v, s)
    else if shape = 1 then
      let (sign, s) := r.below 3 s
      let (x, s) := exprWithin g r d s
      (.ofUnary (if sign = 0 then .identity else .negate) x, s)
    else
      let (i, s) := r.below (Int64.ofNat g.operators.length) s
      let (x, s) := exprWithin g r d s
      let (y, s) := exprWithin g r d s
      (.ofBinary (g.operators.getD i.toInt.toNat .add) x y, s)

def expr (g : Generator) (r : Randomness σ) (s : σ) : Expr × σ :=
  g.exprWithin r g.maxDepth s

/-- Trees drawn one after the other. -/
def exprs (g : Generator) (r : Randomness σ) : Nat → σ → List Expr
  | 0, _ => []
  | n + 1, s =>
    let (e, s) := g.expr r s
    e :: exprs g r n s

end Generator
end Abacus
