/-!
# The text of durations

A duration in nanoseconds is shown in the largest unit below a second that gives it a whole part,
or else in hours, minutes and seconds. Fractions have no trailing zeros.
-/
namespace Abacus
namespace Duration

def dropZeros (digits : List Char) : List Char :=
  (digits.reverse.dropWhile (· = '0')).reverse

/-- The quotient of `n` by `10 ^ places`, written exactly. -/
def fraction (n places : Nat) : String :=
  let digits := (toString (n % Nat.pow 10 places)).toList
  let padded := List.replicate (places - digits.length) '0' ++ digits
  let shown := dropZeros padded
  toString (n / Nat.pow 10 places) ++ if shown.isEmpty then "" else "." ++ String.ofList shown

/-- The text of a number of nanoseconds without its sign. -/
def magnitude (n : Nat) : String :=
  if n = 0 then "0s"
  else if n < 1000 then toString n ++ "ns"
  else if n < 1000000 then fraction n 3 ++ "µs"
  else if n < 1000000000 then fraction n 6 ++ "ms"
  else
    let minutes := n / 60000000000
    let seconds := fraction (n % 60000000000) 9 ++ "s"
    if minutes = 0 then seconds
    else if minutes < 60 then toString minutes ++ "m" ++ seconds
    else toString (minutes / 60) ++ "h" ++ toString (minutes % 60) ++ "m" ++ seconds

/-- The nearest whole number of microseconds; a half goes away from zero. -/
def toMicroseconds (ns : Int64) : Int64 :=
  if ns < 0 then (ns - 500) / 1000 * 1000 else (ns + 500) / 1000 * 1000

def text (ns : Int64) : String :=
  (if ns < 0 then "-" else "") ++ magnitude ns.toInt.natAbs

end Duration
end Abacus
