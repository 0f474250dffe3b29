import Abacus.Source.Token

/-!
# Reports on source text

A report names what is wrong, where it starts and ends, and the line it stands on. Shown to a
reader, the line is printed with carets under the text complained about.
-/
namespace Abacus

structure Diagnostic where
  category : String
  text : String
  /-- The text of an underlying failure, which takes the place of `text` in messages. -/
  cause : Option String
  start : Position
  stop : Position
  line : Bytes
deriving DecidableEq, Inhabited

namespace Diagnostic

def message (d : Diagnostic) : String :=
  let what := d.cause.getD d.text
  if d.category.isEmpty then what else d.category ++ ": " ++ what

/-- The number of carets: the width of the text on its line, and one where it has none or ends on
another line. -/
def width (d : Diagnostic) : Nat :=
  let w := Position.word (d.stop.column - d.start.column)
  if w < 1 || d.stop.line ≠ d.start.line then 1 else w.toNat

def heading (d : Diagnostic) : String :=
  d.message ++ " (" ++ toString d.start.lineNumber ++ ":" ++ toString d.start.columnNumber ++ ")\n"

/-- The two lines below the heading: the source line, and the carets under it. -/
def underlined (d : Diagnostic) : Bytes :=
  Bytes.ofString " | " ++ d.line ++ Bytes.ofString "\n | " ++
    List.replicate d.start.column.toNat Bytes.space ++
    List.replicate d.width Bytes.caret ++ [Bytes.lineFeed]

/-- Lines are laid out up to this length: what a machine can address. -/
def longestLine : Nat := 1 <<< 48

/-- The report as shown to a reader. It cannot be laid out when the column is negative, or when
the blanks or the carets would be longer than any line. -/
def friendly? (d : Diagnostic) : Option Bytes :=
  if d.line = [] then some (Bytes.ofString d.heading)
  else if d.start.column < 0 ∨ d.start.column ≥ longestLine ∨ d.width ≥ longestLine then none
  else some (Bytes.ofString d.heading ++ d.underlined)

end Diagnostic

/-- Why a reading was broken off from outside. -/
inductive Interruption where
  | canceled
  | deadlineExceeded
deriving DecidableEq, Inhabited

def Interruption.message : Interruption → String
  | .canceled => "context canceled"
  | .deadlineExceeded => "context deadline exceeded"

namespace ParseError

inductive Reason where
  | illegalByte (b : UInt8)
  | interrupted (i : Interruption)
  | empty
  | tooDeep
  | noOperand
  | outOfRange
  | unclosedGroup
  | trailing
deriving DecidableEq, Inhabited

end ParseError

/-- Why a source text is rejected: the reason, the token complained about, and its line. -/
structure ParseError where
  reason : ParseError.Reason
  found : Token
  line : Bytes
deriving DecidableEq, Inhabited

namespace ParseError

def category (e : ParseError) : String :=
  match e.reason with
  | .illegalByte _ => "syntax error"
  | .interrupted _ => "context error"
  | _ => "parse error"

def text (e : ParseError) : String :=
  match e.reason with
  | .illegalByte _ => ""
  | .interrupted i => i.message
  | .empty => "empty expression"
  | .tooDeep => "maximum nesting depth exceeded"
  | .noOperand => "invalid syntax (unexpected " ++ e.found.describe ++ ")"
  | .outOfRange => "invalid integer: " ++ e.found.literalText
  | .unclosedGroup =>
    "unexpected " ++ e.found.describe ++ " while parsing grouped expression (expected ))"
  | .trailing => "unexpected " ++ e.found.describe ++ " after expression"

def cause (e : ParseError) : Option String :=
  match e.reason with
  | .illegalByte b => some (Token.unexpectedCharacter b)
  | _ => none

def diagnostic (e : ParseError) : Diagnostic :=
  ⟨e.category, e.text, e.cause, e.found.start, e.found.stop, e.line⟩

end ParseError
end Abacus
