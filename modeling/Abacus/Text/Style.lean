import Abacus.Text.Bytes

/-!
# Terminal styles

Text is set in a style by escape sequences around it, also when it is empty. Without colors a
style changes nothing.
-/
namespace Abacus

inductive Style where
  | red
  | green
  | yellow
  | cyan
  | bold
deriving DecidableEq, Inhabited

namespace Style

def opening : Style → String
  | .red => "\x1b[31m"
  | .green => "\x1b[32m"
  | .yellow => "\x1b[33m"
  | .cyan => "\x1b[36m"
  | .bold => "\x1b[1m"

def closing : Style → String
  | .bold => "\x1b[22m"
  | _ => "\x1b[0m"

def paint (s : Style) (colors : Bool) (text : String) : String :=
  if colors then s.opening ++ text ++ s.closing else text

end Style

/-- How a command shows its results. -/
structure Display where
  colors : Bool
  /-- Listings and documents stay plain although colors are on. -/
  muted : Bool := false

/-- Whether a byte may stand between the bracket and the `m` of an escape sequence. -/
def isStyleParameter (b : UInt8) : Bool :=
  Bytes.isDigit b || b = Bytes.semicolon

/-- What follows an escape sequence for a style at the start of a text. -/
def afterStyle? : Bytes → Option Bytes
  | a :: b :: bs =>
    if a = Bytes.escape ∧ b = Bytes.lbracket then
      match bs.dropWhile isStyleParameter with
      | c :: rest => if c = Bytes.letterM then some rest else none
      | [] => none
    else none
  | _ => none

theorem length_afterStyle? {bs rest : Bytes} (h : afterStyle? bs = some rest) :
    rest.length < bs.length := by
  unfold afterStyle? at h
  split at h
  · rename_i a b bs
    have hl := (List.dropWhile_sublist isStyleParameter (l := bs)).length_le
    split at h
    · split at h
      · rename_i c r heq
        rw [heq, List.length_cons] at hl
        split at h
        · cases h
          simp only [List.length_cons]
          omega
        · cases h
      · cases h
    · cases h
  · cases h

/-- A text without its escape sequences for styles. -/
def unstyled (bs : Bytes) : Bytes :=
  match h : afterStyle? bs with
  | some rest =>
    have := length_afterStyle? h
    unstyled rest
  | none =>
    match bs with
    | [] => []
    | b :: bs => b :: unstyled bs
termination_by bs.length

end Abacus
