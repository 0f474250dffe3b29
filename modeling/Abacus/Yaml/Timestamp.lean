import Abacus.Text.Numeral

/-!
# Points in time

A scalar may be a date, or a date with a time of day. The time follows a `T` and ends with a zone,
or follows a blank and has none. Months, days, hours, minutes and seconds have one or two digits.
-/
namespace Abacus
namespace Yaml

structure Timestamp where
  year : Nat
  month : Nat
  day : Nat
  hour : Nat := 0
  minute : Nat := 0
  second : Nat := 0
  nanosecond : Nat := 0
  /-- The minutes by which the clock is ahead of universal time, if they are given. -/
  zone : Option Int := none
deriving DecidableEq, Inhabited

namespace Timestamp

def isLeap (year : Nat) : Bool :=
  year % 4 = 0 && (year % 100 ≠ 0 || year % 400 = 0)

def daysIn (year month : Nat) : Nat :=
  if month = 2 then (if isLeap year then 29 else 28)
  else if [4, 6, 9, 11].contains month then 30
  else 31

def isValid (t : Timestamp) : Bool :=
  1 ≤ t.month && t.month ≤ 12 && 1 ≤ t.day && t.day ≤ daysIn t.year t.month &&
    t.hour < 24 && t.minute < 60 && t.second < 60

/-- A number of one or two digits, and what follows. -/
def number? (cs : List Char) : Option (Nat × List Char) :=
  match (cs.take 2).takeWhile (·.isDigit) with
  | [] => none
  | ds => some (Numeral.value ds, cs.drop ds.length)

def after? (mark : Char) (cs : List Char) : Option (List Char) :=
  match cs with
  | c :: cs => if c = mark then some cs else none
  | [] => none

/-- A fraction of a second in nanoseconds, as far as nine digits give it. -/
def fraction (cs : List Char) : Nat × List Char :=
  match cs with
  | c :: d :: cs =>
    if (c = '.' || c = ',') && d.isDigit then
      let ds := (d :: cs).takeWhile (·.isDigit)
      let kept := ds.take 9
      (Numeral.value kept * Nat.pow 10 (9 - kept.length), (d :: cs).drop ds.length)
    else (0, c :: d :: cs)
  | cs => (0, cs)

/-- Adds the time of day at the start of `cs` to a date. -/
def clock? (t : Timestamp) (cs : List Char) : Option (Timestamp × List Char) := do
  let (hour, cs) ← number? cs
  let (minute, cs) ← number? (← after? ':' cs)
  let (second, cs) ← number? (← after? ':' cs)
  let (nanosecond, cs) := fraction cs
  return ({ t with hour, minute, second, nanosecond }, cs)

/-- A zone: `Z`, or a sign with hours and minutes of two digits each. -/
def zone? (cs : List Char) : Option (Option Int × List Char) :=
  match cs with
  | 'Z' :: cs => some (none, cs)
  | sign :: a :: b :: ':' :: c :: d :: cs =>
    let hours := Numeral.value [a, b]
    let minutes := Numeral.value [c, d]
    let ahead : Int := (60 * hours + minutes : Nat)
    if !([a, b, c, d].all (·.isDigit)) || hours > 24 || minutes > 60 then none
    else if sign = '+' then some (some ahead, cs)
    else if sign = '-' then some (some (-ahead), cs)
    else none
  | _ => none

def date? (cs : List Char) : Option (Timestamp × List Char) := do
  let year := cs.takeWhile (·.isDigit)
  guard (year.length = 4)
  let (month, cs) ← number? (← after? '-' (cs.drop 4))
  let (day, cs) ← number? (← after? '-' cs)
  return ({ year := Numeral.value year, month, day }, cs)

def parse? (s : String) : Option Timestamp := do
  let (date, cs) ← date? s.toList
  let t ← match cs with
    | [] => some date
    | ' ' :: cs =>
      match clock? date (cs.dropWhile (· = ' ')) with
      | some (t, []) => some t
      | _ => none
    | c :: cs =>
      if c = 'T' || c = 't' then
        match clock? date cs with
        | some (t, cs) =>
          match zone? cs with
          | some (zone, []) => some { t with zone }
          | _ => none
        | none => none
      else none
  if t.isValid then some t else none

def padded (width n : Nat) : String :=
  let ds := Nat.toDigits 10 n
  String.ofList (List.replicate (width - ds.length) '0' ++ ds)

/-- The digits after the point, without zeros at the end. -/
def fractionText (nanosecond : Nat) : String :=
  if nanosecond = 0 then ""
  else "." ++ String.ofList ((padded 9 nanosecond).toList.reverse.dropWhile (· = '0')).reverse

def zoneText (zone : Int) : String :=
  (if zone < 0 then "-" else "+") ++ padded 2 (zone.natAbs / 60) ++ padded 2 (zone.natAbs % 60)

/-- A point in time with its zone, which is named when it is universal time. -/
def text (t : Timestamp) : String :=
  let zone := t.zone.getD 0
  padded 4 t.year ++ "-" ++ padded 2 t.month ++ "-" ++ padded 2 t.day ++ " " ++
    padded 2 t.hour ++ ":" ++ padded 2 t.minute ++ ":" ++ padded 2 t.second ++
    fractionText t.nanosecond ++ " " ++ zoneText zone ++ " " ++
    (if zone = 0 then "UTC" else zoneText zone)

/-- The seconds since the year zero began, in universal time. -/
def seconds (t : Timestamp) : Int :=
  let leaps := (t.year + 3) / 4 - (t.year + 99) / 100 + (t.year + 399) / 400
  let months := (List.range (t.month - 1)).foldl (fun n m => n + daysIn t.year (m + 1)) 0
  let days := 365 * t.year + leaps + months + t.day
  let minutes : Int := ((days * 24 + t.hour) * 60 + t.minute : Nat)
  (minutes - t.zone.getD 0) * 60 + t.second

def monthNames : List String :=
  ["January", "February", "March", "April", "May", "June", "July", "August", "September",
    "October", "November", "December"]

/-- A point in time as complaints spell it. -/
def spelled (t : Timestamp) : String :=
  let month := "time." ++ (monthNames[t.month - 1]?).getD ""
  let rest := [t.day, t.hour, t.minute, t.second, t.nanosecond].map toString
  let zone := match t.zone with
    | none => "time.UTC"
    | some 0 => "time.Local"
    | some _ => "time.Location(\"\")"
  "time.Date(" ++ ", ".intercalate (toString t.year :: month :: rest ++ [zone]) ++ ")"

end Timestamp
end Yaml
end Abacus
