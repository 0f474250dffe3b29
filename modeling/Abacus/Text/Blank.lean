import Abacus.Text.Bytes

/-!
# White space around text

The white space of Unicode, trimmed from both ends of a byte string. Bytes that are not the
encoding of a white space character stop the trimming, whatever they are.
-/
namespace Abacus
namespace Blank

/-- The encodings of all white space characters. -/
def encodings : List Bytes :=
  [[9], [10], [11], [12], [13], [32], [0xc2, 0x85], [0xc2, 0xa0], [0xe1, 0x9a, 0x80]] ++
    (List.range 11).map (fun i => [0xe2, 0x80, UInt8.ofNat (0x80 + i)]) ++
    [[0xe2, 0x80, 0xa8], [0xe2, 0x80, 0xa9], [0xe2, 0x80, 0xaf], [0xe2, 0x81, 0x9f],
      [0xe3, 0x80, 0x80]]

/-- Drops the given byte strings from the front, at most `fuel` times. -/
def dropLeading (codes : List Bytes) : Nat → Bytes → Bytes
  | 0, bs => bs
  | fuel + 1, bs =>
    match codes.findSome? (·.isPrefixOf? bs) with
    | some rest => dropLeading codes fuel rest
    | none => bs

def trim (bs : Bytes) : Bytes :=
  let front := dropLeading encodings bs.length bs
  (dropLeading (encodings.map List.reverse) front.length front.reverse).reverse

end Blank
end Abacus
