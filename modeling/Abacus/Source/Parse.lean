import Abacus.Expr.Basic
import Abacus.Source.Diagnostic
import Abacus.Source.Scan

/-!
# Reading expressions

The reader goes once through the tokens. It keeps a stack of frames, one for each operand that
has been begun and not finished: an open parenthesis, a unary sign, or a binary operator with its
left operand. After an operand, the next token decides which frames are finished: a binary
operator finishes the unary signs and the binary operators that bind at least as tightly, and
everything else finishes all frames up to the innermost parenthesis.

The depth of an operand is one more than the number of frames around it.
-/
namespace Abacus

structure Limits where
  maxDepth : Int := 500
  interruption : Option Interruption := none

namespace Parse

inductive Frame where
  | group
  | unary (op : UnaryOp) (pos : Position)
  | binary (left : Expr) (op : BinaryOp) (pos : Position)
deriving DecidableEq

inductive State where
  /-- An operand has to follow. -/
  | operand (frames : List Frame)
  /-- An operand has just ended. -/
  | operator (frames : List Frame) (last : Expr)
deriving DecidableEq

/-- A reason with the token it is about. -/
structure Complaint where
  reason : ParseError.Reason
  found : Token
deriving DecidableEq

def unaryOp? : Token.Kind → Option UnaryOp
  | .plus => some .identity
  | .minus => some .negate
  | _ => none

def binaryOp? : Token.Kind → Option BinaryOp
  | .plus => some .add
  | .minus => some .sub
  | .star => some .mul
  | .slash => some .div
  | _ => none

/-- Finishes the frames that an operator of the given precedence leaves complete. -/
def close (precedence : Nat) : List Frame → Expr → List Frame × Expr
  | .unary op p :: frames, e => close precedence frames (.unary p (.known op) e)
  | .binary left op p :: frames, e =>
    if precedence ≤ op.precedence then close precedence frames (.binary p (.known op) left e)
    else (.binary left op p :: frames, e)
  | frames, e => (frames, e)

/-- What can forbid an operand at a token before its kind is looked at. -/
def allow (limits : Limits) (frames : List Frame) (t : Token) : Except ParseError.Reason Unit :=
  if frames = [] ∧ t.kind = .eof then .error .empty
  else match limits.interruption with
    | some i => .error (.interrupted i)
    | none => if frames.length + 1 > limits.maxDepth then .error .tooDeep else .ok ()

/-- The token that begins an operand. -/
def beginOperand (frames : List Frame) (t : Token) : Except ParseError.Reason State :=
  match t.kind with
  | .int =>
    let n := Bytes.readDecimal t.literal
    if n ≤ Int64.maxValue.toInt then .ok (.operator frames (.int t.start t.literal (Int64.ofNat n)))
    else .error .outOfRange
  | .lparen => .ok (.operand (.group :: frames))
  | kind =>
    match unaryOp? kind with
    | some op => .ok (.operand (.unary op t.start :: frames))
    | none => .error .noOperand

/-- The token after an operand. -/
def endOperand (frames : List Frame) (last : Expr) (t : Token) : Except ParseError.Reason State :=
  match binaryOp? t.kind with
  | some op =>
    let r := close op.precedence frames last
    .ok (.operand (.binary r.2 op t.start :: r.1))
  | none =>
    match close 0 frames last with
    | (.group :: frames, e) =>
      if t.kind = .rparen then .ok (.operator frames e) else .error .unclosedGroup
    | _ => .error .trailing

/-- Refuses an illegal byte as soon as it is the next token. -/
def lookahead : List Token → Except Complaint Unit
  | t :: _ =>
    match t.kind with
    | .illegal b => .error ⟨.illegalByte b, t⟩
    | _ => .ok ()
  | [] => .ok ()

def complain {α : Type} (t : Token) (r : Except ParseError.Reason α) : Except Complaint α :=
  r.mapError (⟨·, t⟩)

/-- Reads all tokens. Where an operand begins, the token after it has been looked at already. -/
def run (limits : Limits) : State → List Token → Except Complaint State
  | s, [] => .ok s
  | .operand frames, t :: ts => do
    lookahead ts
    complain t (allow limits frames t)
    let s ← complain t (beginOperand frames t)
    run limits s ts
  | .operator frames last, t :: ts => do
    let s ← complain t (endOperand frames last t)
    lookahead ts
    run limits s ts

/-- What the end of the input makes of a state. -/
def finish (limits : Limits) (last : Token) : State → Except Complaint Expr
  | .operand frames => do
    complain last (allow limits frames last)
    .error ⟨.noOperand, last⟩
  | .operator frames e =>
    match close 0 frames e with
    | ([], e) => .ok e
    | _ => .error ⟨.unclosedGroup, last⟩

def tokens (limits : Limits) (scan : Scan) : Except Complaint Expr := do
  lookahead scan.tokens
  let s ← run limits (.operand []) scan.tokens
  finish limits scan.last s

/-- The line that holds a position, without its line feed and trailing carriage returns. -/
def lineAt (source : Bytes) (p : Position) : Bytes :=
  let line := (source.drop p.lineStart.toNat).takeWhile (· ≠ Bytes.lineFeed)
  (line.reverse.dropWhile (· = Bytes.carriageReturn)).reverse

/-- An interruption has no place in the source; every other reason is shown on its line. -/
def Complaint.toError (source : Bytes) (c : Complaint) : ParseError :=
  match c.reason with
  | .interrupted i => ⟨.interrupted i, ⟨.eof, [], {}, {}⟩, []⟩
  | reason => ⟨reason, c.found, lineAt source c.found.start⟩

end Parse

/-- Reads a source text as one expression. -/
def parse (source : Bytes) (limits : Limits := {}) : Except ParseError Expr :=
  (Parse.tokens limits (Scan.ofBytes source)).mapError (Parse.Complaint.toError source)

end Abacus
