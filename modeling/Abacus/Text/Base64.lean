import Abacus.Text.Bytes

/-!
# Base 64

Four characters stand for three bytes, six bits each. The last four may end with one or two pads,
and then stand for two bytes or one; the bits left over there do not count. Line breaks between
characters are ignored.
-/
namespace Abacus
namespace Base64

def sextet? (c : Char) : Option Nat :=
  if 'A' ≤ c ∧ c ≤ 'Z' then some (c.toNat - 65)
  else if 'a' ≤ c ∧ c ≤ 'z' then some (c.toNat - 71)
  else if '0' ≤ c ∧ c ≤ '9' then some (c.toNat + 4)
  else if c = '+' then some 62
  else if c = '/' then some 63
  else none

/-- The first `n` of the three bytes that four sextets hold. -/
def octets (n : Nat) (a b c d : Nat) : Bytes :=
  let word := ((a * 64 + b) * 64 + c) * 64 + d
  [UInt8.ofNat (word / 65536), UInt8.ofNat (word / 256), UInt8.ofNat word].take n

/-- Decodes characters without line breaks. Pads can only stand at the very end. -/
def decodeDense? : List Char → Option Bytes
  | [] => some []
  | [a, b, '=', '='] => do
    return octets 1 (← sextet? a) (← sextet? b) 0 0
  | [a, b, c, '='] => do
    return octets 2 (← sextet? a) (← sextet? b) (← sextet? c) 0
  | a :: b :: c :: d :: rest => do
    let front := octets 3 (← sextet? a) (← sextet? b) (← sextet? c) (← sextet? d)
    return front ++ (← decodeDense? rest)
  | _ => none

def decode? (s : String) : Option Bytes :=
  decodeDense? (s.toList.filter fun c => c ≠ '\n' ∧ c ≠ '\r')

end Base64
end Abacus
