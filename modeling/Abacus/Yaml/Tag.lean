import Abacus.Text.Bytes
import Abacus.Yaml.Scalar

/-!
# Tags of YAML

A tag names the kind of a node. It is any byte string: characters that have no place in a tag are
written as escapes, a percent sign and two hexadecimal digits for each byte. Escapes have to group
into characters by their leading bits, and nothing more is asked of them.
-/
namespace Abacus
namespace Yaml

structure Tag where
  name : Bytes
deriving DecidableEq, Inhabited

namespace Tag

def ofString (s : String) : Tag := ⟨Bytes.ofString s⟩

def null : Tag := ofString "!!null"

def bool : Tag := ofString "!!bool"

def int : Tag := ofString "!!int"

def float : Tag := ofString "!!float"

def text : Tag := ofString "!!str"

def time : Tag := ofString "!!timestamp"

def binary : Tag := ofString "!!binary"

def merge : Tag := ofString "!!merge"

def sequence : Tag := ofString "!!seq"

def mapping : Tag := ofString "!!map"

/-- The stem of the tags that the language itself defines. -/
def coreStem : Bytes := Bytes.ofString "tag:yaml.org,2002:"

/-- The tag of a full name. That stem has a short form. -/
def ofName (name : Bytes) : Tag :=
  match coreStem.isPrefixOf? name with
  | some rest => ⟨Bytes.ofString "!!" ++ rest⟩
  | none => ⟨name⟩

/-- Characters of a tag after its handle. -/
def isTagChar (c : Char) : Bool :=
  isNameChar c ||
    [';', '/', '?', ':', '@', '&', '=', '+', '$', ',', '.', '!', '~', '*', '\'', '(', ')', '[',
      ']'].contains c

/-- The number of bytes that follow a leading one in the encoding of a character. -/
def trailing? (octet : Nat) : Option Nat :=
  if octet < 0x80 then some 0
  else if octet / 32 = 6 then some 1
  else if octet / 16 = 14 then some 2
  else if octet / 8 = 30 then some 3
  else none

/-- The bytes that the characters of a tag stand for, and what follows the tag. The next `due`
escapes have to be trailing bytes. -/
def read (due : Nat) : List Char → Except Problem (Bytes × List Char)
  | '%' :: a :: b :: cs =>
    match Quoted.hexValue? 2 0 [a, b], due with
    | none, _ => .error .missingOctet
    | some n, 0 =>
      match trailing? n with
      | none => .error .badLeadingOctet
      | some due => (read due cs).map fun r => (UInt8.ofNat n :: r.1, r.2)
    | some n, due + 1 =>
      if n / 64 = 2 then (read due cs).map fun r => (UInt8.ofNat n :: r.1, r.2)
      else .error .badTrailingOctet
  | c :: cs =>
    if due > 0 || c = '%' then .error .missingOctet
    else if isTagChar c then (read 0 cs).map fun r => (UInt8.ofNat c.toNat :: r.1, r.2)
    else .ok ([], c :: cs)
  | [] => if due > 0 then .error .missingOctet else .ok ([], [])

end Tag
end Yaml
end Abacus
