import Abacus.Binary64.Shortest
import Abacus.Text.Numeral

/-!
# Settings

The value of a setting has the type its origin gives it, and is read as the type that is asked
for. Nothing is refused: what does not fit counts as empty, false or zero.
-/
namespace Abacus

inductive Setting where
  | text (s : String)
  /-- Bytes that encode no text. -/
  | data (bs : Bytes)
  | bool (b : Bool)
  | int (n : Int64)
  /-- An integer above the greatest signed word. -/
  | word (n : UInt64)
  | float (x : Binary64)
  /-- A value of another kind, which has a text and is no truth value or number. -/
  | shown (s : String)
  | missing
deriving DecidableEq, Inhabited

namespace Setting

def asText : Setting → Bytes
  | .text s => Bytes.ofString s
  | .data bs => bs
  | .bool b => Bytes.ofString (if b then "true" else "false")
  | .int n => Bytes.ofString (toString n.toInt)
  | .word n => Bytes.ofString (toString n.toNat)
  | .float x => Bytes.ofString x.text
  | .shown s => Bytes.ofString s
  | .missing => []

/-- What is no truth value counts as false. Numbers other than zero are true. -/
def asBool : Setting → Bool
  | .text s => (Numeral.parseBool? s).getD false
  | .data _ => false
  | .bool b => b
  | .int n => n ≠ 0
  | .word n => n ≠ 0
  | .float x => x.isNonzero
  | .shown _ => false
  | .missing => false

/-- Removes a fraction of zeros at the end of a text, given backwards: what follows a point behind
which there are only points and at least one zero. -/
def withoutZeros (zero : Bool) : List Char → Option (List Char)
  | '.' :: cs => if zero then some cs else withoutZeros zero cs
  | '0' :: cs => withoutZeros true cs
  | _ => none

def trimZeroFraction (s : String) : String :=
  match withoutZeros false s.toList.reverse with
  | some cs => String.ofList cs.reverse
  | none => s

/-- What is no integer counts as zero. Fractions are cut off, and words that are too great wrap. -/
def asInt : Setting → Int64
  | .text s =>
    match Numeral.parseInt (trimZeroFraction s) with
    | .ok n => n
    | .error _ => 0
  | .data _ => 0
  | .bool b => if b then 1 else 0
  | .int n => n
  | .word n => n.toInt64
  | .float x => x.truncate
  | .shown _ => 0
  | .missing => 0

end Setting
end Abacus
