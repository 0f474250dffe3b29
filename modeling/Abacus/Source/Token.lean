import Abacus.Text.Bytes
import Abacus.Text.Quoted
import Abacus.Source.Position

/-!
# Tokens

The alphabet is decimal integers, the four signs and parentheses. Blanks part tokens and are
otherwise skipped; every other byte is an illegal token of its own.
-/
namespace Abacus

namespace Token

inductive Kind where
  | plus
  | minus
  | star
  | slash
  | lparen
  | rparen
  | int
  | illegal (byte : UInt8)
  | eof
deriving DecidableEq, Inhabited

def Kind.name : Kind → String
  | .plus => "+"
  | .minus => "-"
  | .star => "*"
  | .slash => "/"
  | .lparen => "("
  | .rparen => ")"
  | .int => "INT"
  | .illegal _ => "ILLEGAL"
  | .eof => "EOF"

/-- The kind of a token that is a single byte of the alphabet. -/
def Kind.ofByte? (b : UInt8) : Option Kind :=
  if b = Bytes.plus then some .plus
  else if b = Bytes.minus then some .minus
  else if b = Bytes.star then some .star
  else if b = Bytes.slash then some .slash
  else if b = Bytes.lparen then some .lparen
  else if b = Bytes.rparen then some .rparen
  else none

end Token

structure Token where
  kind : Token.Kind
  literal : Bytes
  start : Position
  stop : Position
deriving DecidableEq, Inhabited

namespace Token

/-- The complaint about a byte outside the alphabet. -/
def unexpectedCharacter (b : UInt8) : String :=
  "unexpected character " ++ Quoted.char (Char.ofNat b.toNat)

/-- The literal of an illegal token: the character whose code point is the byte, in UTF-8. -/
def illegalLiteral (b : UInt8) : Bytes :=
  Bytes.ofString (Char.ofNat b.toNat).toString

def literalText (t : Token) : String :=
  match t.kind with
  | .illegal b => (Char.ofNat b.toNat).toString
  | _ => t.literal.toText

/-- How messages name a token. -/
def describe (t : Token) : String :=
  match t.kind with
  | .eof => "end of input"
  | _ => Quoted.string t.literalText

end Token
end Abacus
