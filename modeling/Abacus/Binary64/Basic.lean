/-!
# Binary floating point with 64 bits

A finite value is an integer of at most 53 bits times a power of two. A decimal is read as the
nearest such value, of two equally near ones as the even one. All arithmetic is exact, on natural
numbers.
-/
namespace Abacus

/-- The finite value `m * 2 ^ q` with a sign, or one of the values that are not finite. -/
inductive Binary64 where
  | finite (negative : Bool) (m : Nat) (q : Int)
  | infinite (negative : Bool)
  | nan
deriving DecidableEq, Inhabited

namespace Binary64

/-- The least exponent of a finite value. -/
def leastExponent : Int := -1074

/-- The greatest exponent of a finite value. -/
def greatestExponent : Int := 971

/-- A quotient rounded to the nearest integer, a half to the even one. -/
def roundDiv (num den : Nat) : Nat :=
  let floor := num / den
  match compare (2 * (num % den)) den with
  | .lt => floor
  | .gt => floor + 1
  | .eq => floor + floor % 2

/-- A number times a power of a base, over the power that a negative exponent leaves below. -/
def scale (n base : Nat) (e : Int) : Nat × Nat :=
  (n * Nat.pow base e.toNat, Nat.pow base (-e).toNat)

/-- The exponent of the greatest power of two that is not above a positive quotient. -/
def floorLog2 (num den : Nat) : Int :=
  let e : Int := (num.log2 : Int) - den.log2
  if den <<< e.toNat ≤ num <<< (-e).toNat then e else e - 1

/-- The value nearest to a quotient. Beyond the greatest finite value it is infinite. -/
def ofQuotient (negative : Bool) (num den : Nat) : Binary64 :=
  if num = 0 then .finite negative 0 leastExponent
  else
    let q := max (floorLog2 num den - 52) leastExponent
    let m := roundDiv (num <<< (-q).toNat) (den <<< q.toNat)
    let (m, q) := if m = 1 <<< 53 then (1 <<< 52, q + 1) else (m, q)
    if q > greatestExponent then .infinite negative else .finite negative m q

/-- The value nearest to `digits * 10 ^ e`. Where that is far beyond the range of finite values,
or far below the least of them, no power is computed. -/
def ofDecimal (negative : Bool) (digits : Nat) (e : Int) : Binary64 :=
  let size : Int := (Nat.toDigits 10 digits).length
  if digits = 0 ∨ size + e < -400 then .finite negative 0 leastExponent
  else if size + e > 400 then .infinite negative
  else
    let (num, den) := scale digits 10 e
    ofQuotient negative num den

/-- The value of an integer. -/
def ofInt (n : Int) : Binary64 :=
  ofQuotient (n < 0) n.natAbs 1

/-- Whether a value differs from both zeros. -/
def isNonzero : Binary64 → Bool
  | .finite _ m _ => m ≠ 0
  | _ => true

/-- The integer part as a word; a value without one in range gives the least word. -/
def truncate : Binary64 → Int64
  | .finite negative m q =>
    let (num, den) := scale m 2 q
    let n : Int := (num / den : Nat)
    let n := if negative then -n else n
    if n < Int64.minValue.toInt ∨ n > Int64.maxValue.toInt then Int64.minValue else Int64.ofInt n
  | _ => Int64.minValue

/-- A finite value in units of the least one. -/
def units (negative : Bool) (m : Nat) (q : Int) : Int :=
  let n : Int := (m <<< (q - leastExponent).toNat : Nat)
  if negative then -n else n

/-- The order of values. What is no number comes before all that are. -/
def le : Binary64 → Binary64 → Bool
  | .nan, _ => true
  | _, .nan => false
  | .infinite true, _ => true
  | _, .infinite false => true
  | .finite s m q, .finite t n r => units s m q ≤ units t n r
  | _, _ => false

end Binary64
end Abacus
