/-!
# Positions in source text

A position holds the byte offset, the offset at which its line starts, and the line and column
that follow from them, all counted from zero. Positions of a text in memory never leave the range
of 64-bit words. One that a caller makes up may, and what is computed from it wraps.
-/
namespace Abacus

structure Position where
  offset : Int := 0
  lineStart : Int := 0
  line : Int := 0
  column : Int := 0
deriving DecidableEq, Inhabited

namespace Position

/-- The position of nodes and reports that come from no source text. -/
def none : Position := {}

/-- A number as a signed word of 64 bits holds it. -/
def word (n : Int) : Int :=
  n.bmod UInt64.size

theorem word_eq_self {n : Int} (lower : Int64.minValue.toInt ≤ n)
    (upper : n ≤ Int64.maxValue.toInt) : word n = n := by
  have hlower : Int64.minValue.toInt = -9223372036854775808 := rfl
  have hupper : Int64.maxValue.toInt = 9223372036854775807 := rfl
  have hsize : UInt64.size = 18446744073709551616 := rfl
  unfold word
  rw [Int.bmod_eq_of_le] <;> omega

def lineNumber (p : Position) : Int :=
  word (p.line + 1)

def columnNumber (p : Position) : Int :=
  word (p.column + 1)

/-- The position `n` bytes further on the same line of a text. -/
def along (p : Position) (n : Nat) : Position :=
  { p with offset := p.offset + n, column := p.column + n }

/-- The position a signed distance away on the same line, in words. -/
def advance (p : Position) (n : Int) : Position :=
  { p with offset := word (p.offset + n), column := word (p.column + n) }

/-- The start of the next line, when the byte at `p` is a line feed. -/
def newline (p : Position) : Position :=
  { offset := p.offset + 1, lineStart := p.offset + 1, line := p.line + 1, column := 0 }

def isSet (p : Position) : Bool :=
  p.line > 0 || p.column > 0 || p.offset > 0

end Position
end Abacus
