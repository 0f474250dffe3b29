import Abacus.Binary64.Basic

/-!
# Shortest decimals

The text of a value has the fewest digits that read back as it, and of those the nearest. The
decimals that read back are those between the midpoints to the two neighbours, ends included when
the integer part of the value's form is even.
-/
namespace Abacus
namespace Binary64

/-- The positive value `m * 2 ^ q`. -/
structure Positive where
  m : Nat
  q : Int

namespace Positive

/-- Compares `d * 10 ^ g` with `n * 2 ^ e`. -/
def compareScaled (d : Nat) (g : Int) (n : Nat) (e : Int) : Ordering :=
  let (a, b) := scale d 10 g
  let (x, y) := scale n 2 e
  compare (a * y) (x * b)

/-- Below a power of two the neighbours lie twice as close. -/
def isNarrowBelow (v : Positive) : Bool :=
  v.m = 1 <<< 52 && v.q > leastExponent

/-- Whether `d * 10 ^ g` reads back as the value. -/
def readsBack (v : Positive) (d : Nat) (g : Int) : Bool :=
  let low := 4 * v.m - (if v.isNarrowBelow then 1 else 2)
  let high := 4 * v.m + 2
  let closed := v.m % 2 = 0
  (match compareScaled d g low (v.q - 2) with
    | .gt => true
    | .eq => closed
    | .lt => false) &&
  match compareScaled d g high (v.q - 2) with
    | .lt => true
    | .eq => closed
    | .gt => false

/-- The least power of ten above the value, looked for upward from where the range starts. -/
def magnitude (v : Positive) : Int :=
  let least : Int := -330
  least + ((List.range 700).find? fun (k : Nat) =>
    compareScaled 1 (least + k) v.m v.q = .gt).getD 0

/-- The decimal on the grid `10 ^ g` that reads back, if there is one: of the value's two
neighbours the nearer, of equally near ones the even one. -/
def onGrid? (v : Positive) (g : Int) : Option Nat :=
  let (num, two) := scale v.m 2 v.q
  let (below, above) := scale 1 10 g
  let num := num * above
  let den := two * below
  let floor := num / den
  match v.readsBack floor g, v.readsBack (floor + 1) g with
  | true, true => some (roundDiv num den)
  | true, false => some floor
  | false, true => some (floor + 1)
  | false, false => none

/-- Removes the zeros at the end of a fraction. -/
def trim : Nat → Nat → Int → Nat × Int
  | 0, d, g => (d, g)
  | fuel + 1, d, g => if g < 0 ∧ d % 10 = 0 then trim fuel (d / 10) (g + 1) else (d, g)

/-- The fewest digits that read back, with their exponent. Seventeen always do. -/
def shortest (v : Positive) : Nat × Int :=
  let k := v.magnitude
  match (List.range 17).findSome? fun n =>
      let g := k - (n + 1 : Nat)
      (v.onGrid? g).map (·, g) with
  | some (d, g) => trim 20 d g
  | none => (0, 0)

end Positive

/-- The digits of `d * 10 ^ g` without an exponent. -/
def positional (d : Nat) (g : Int) : String :=
  let ds := Nat.toDigits 10 d
  if g ≥ 0 then String.ofList (ds ++ List.replicate g.toNat '0')
  else
    let places := (-g).toNat
    let ds := List.replicate (places + 1 - ds.length) '0' ++ ds
    String.ofList (ds.take (ds.length - places) ++ '.' :: ds.drop (ds.length - places))

/-- The digits of `d * 10 ^ g` with one of them before the point. -/
def scientific (d : Nat) (g : Int) : String :=
  let ds := Nat.toDigits 10 d
  let e := g + (ds.length - 1 : Nat)
  let places := (ds.tail.reverse.dropWhile (· = '0')).reverse
  let power := Nat.toDigits 10 e.natAbs
  String.ofList (ds.take 1 ++ (if places.isEmpty then [] else '.' :: places) ++
    ['e', if e < 0 then '-' else '+'] ++ List.replicate (2 - power.length) '0' ++ power)

/-- The digits of `d * 10 ^ g`, with an exponent if the first digit stands at the sixth place before
the point or further, or at the fifth after it or further. -/
def compact (d : Nat) (g : Int) : String :=
  let e := g + ((Nat.toDigits 10 d).length - 1 : Nat)
  if d ≠ 0 ∧ (e < -4 ∨ e ≥ 6) then scientific d g else positional d g

/-- The shortest decimal of a value, written by `write`. -/
def render (write : Nat → Int → String) : Binary64 → String
  | .finite negative m q =>
    let (d, g) := if m = 0 then (0, 0) else Positive.shortest ⟨m, q⟩
    (if negative then "-" else "") ++ write d g
  | .infinite negative => if negative then "-Inf" else "+Inf"
  | .nan => "NaN"

/-- A value without an exponent. -/
def text : Binary64 → String :=
  render positional

/-- A value with an exponent if it is large or small. -/
def general : Binary64 → String :=
  render compact

end Binary64
end Abacus
