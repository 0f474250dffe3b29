import Abacus.Text.Bytes
import Abacus.Text.Printable

/-!
# Quoted text

Characters and strings inside messages stand between quotes, and what a reader could not see is
written as an escape.
-/
namespace Abacus
namespace Quoted

def hexDigits (width n : Nat) : String :=
  let ds := String.ofList (Nat.toDigits 16 n)
  String.ofList (List.replicate (width - ds.length) '0') ++ ds

/-- The letter that stands after the backslash for a control character with a name. -/
def named? (c : Char) : Option Char :=
  match c.toNat with
  | 7 => some 'a'
  | 8 => some 'b'
  | 12 => some 'f'
  | 10 => some 'n'
  | 13 => some 'r'
  | 9 => some 't'
  | 11 => some 'v'
  | _ => none

/-- One character as it stands between the quotes `quote`. -/
def escape (quote c : Char) : String :=
  if c = quote || c = '\\' then "\\" ++ c.toString
  else if Printable.isPrintable c then c.toString
  else match named? c with
    | some l => "\\" ++ l.toString
    | none =>
      let n := c.toNat
      if n < 0x20 || n = 0x7f then "\\x" ++ hexDigits 2 n
      else if n < 0x10000 then "\\u" ++ hexDigits 4 n
      else "\\U" ++ hexDigits 8 n

def char (c : Char) : String :=
  "'" ++ escape '\'' c ++ "'"

def string (s : String) : String :=
  "\"" ++ String.join (s.toList.map (escape '"')) ++ "\""

/-- The bytes after the next `skip` ones as they stand between quotes. What encodes no character is
written byte by byte. -/
def escapeFrom (skip : Nat) : Bytes → String
  | [] => ""
  | b :: bs =>
    match skip, Bytes.front? (b :: bs) with
    | skip + 1, _ => escapeFrom skip bs
    | 0, some (c, k) => escape '"' c ++ escapeFrom (k - 1) bs
    | 0, none => "\\x" ++ hexDigits 2 b.toNat ++ escapeFrom 0 bs

def bytes (bs : Bytes) : String :=
  "\"" ++ escapeFrom 0 bs ++ "\""

end Quoted
end Abacus
