/-!
# Byte strings

Source text is any sequence of bytes: offsets count bytes, and no input has to be well-formed
UTF-8. Decimal numerals are the only numbers written in it.
-/
namespace Abacus

abbrev Bytes := List UInt8

namespace Bytes

def ofString (s : String) : Bytes :=
  s.toUTF8.toList

/-- The text that the bytes encode, if they encode one. -/
def toString? (bs : Bytes) : Option String :=
  String.fromUTF8? ⟨bs.toArray⟩

/-- The character at the front, and the length of its encoding. -/
def front? (bs : Bytes) : Option (Char × Nat) :=
  [1, 2, 3, 4].findSome? fun k =>
    (toString? (bs.take k)).bind fun s => s.toList.head?.map (·, k)

/-- The characters of the bytes after the next `skip` ones. A byte that no character begins with
stands for the replacement character. -/
def charsFrom (skip : Nat) : Bytes → List Char
  | [] => []
  | b :: bs =>
    match skip, front? (b :: bs) with
    | skip + 1, _ => charsFrom skip bs
    | 0, some (c, k) => c :: charsFrom (k - 1) bs
    | 0, none => '\ufffd' :: charsFrom 0 bs

/-- The text whose characters have the bytes as code points. On ASCII this is the usual reading. -/
def toText (bs : Bytes) : String :=
  String.ofList (bs.map fun b => Char.ofNat b.toNat)

abbrev tab : UInt8 := 9

abbrev lineFeed : UInt8 := 10

abbrev carriageReturn : UInt8 := 13

abbrev escape : UInt8 := 27

abbrev space : UInt8 := 32

abbrev lparen : UInt8 := 40

abbrev rparen : UInt8 := 41

abbrev star : UInt8 := 42

abbrev plus : UInt8 := 43

abbrev minus : UInt8 := 45

abbrev slash : UInt8 := 47

abbrev semicolon : UInt8 := 59

abbrev questionMark : UInt8 := 63

abbrev lbracket : UInt8 := 91

abbrev caret : UInt8 := 94

abbrev letterM : UInt8 := 109

abbrev bar : UInt8 := 124

def isDigit (b : UInt8) : Bool :=
  48 ≤ b && b ≤ 57

def digit (n : Nat) : UInt8 :=
  UInt8.ofNat (48 + n)

/-- The decimal numeral of `n`, without leading zeros. -/
def decimal (n : Nat) : Bytes :=
  if n < 10 then [digit n] else decimal (n / 10) ++ [digit (n % 10)]
termination_by n

/-- The number that a run of digits denotes; leading zeros are allowed. -/
def readDecimal (ds : Bytes) : Nat :=
  ds.foldl (fun n b => 10 * n + (b.toNat - 48)) 0

end Bytes
end Abacus
