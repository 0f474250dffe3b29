/-!
# Ranges of code points

A class of characters given by the ranges of its code points, ends included.
-/
namespace Abacus

abbrev Ranges := List (Nat × Nat)

def Ranges.contains (rs : Ranges) (c : Char) : Bool :=
  rs.any fun r => r.1 ≤ c.toNat && c.toNat ≤ r.2

end Abacus
