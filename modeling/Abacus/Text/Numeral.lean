import Abacus.Text.Quoted

/-!
# Numerals in settings

An integer may have a sign and a mark for its base, `0x`, `0o` or `0b`, or a leading zero for base
eight; single underscores may stand between its digits. A truth value is one of six words either
way.
-/
namespace Abacus
namespace Numeral

inductive Error where
  | syntaxError
  | outOfRange
deriving DecidableEq, Inhabited

def Error.text : Error → String
  | .syntaxError => "invalid syntax"
  | .outOfRange => "value out of range"

/-- The base of an unsigned numeral, and the digits after its mark. -/
def base (cs : List Char) : Nat × List Char :=
  match cs with
  | '0' :: c :: d :: rest =>
    match c.toLower with
    | 'b' => (2, d :: rest)
    | 'o' => (8, d :: rest)
    | 'x' => (16, d :: rest)
    | _ => (8, c :: d :: rest)
  | '0' :: rest => (8, rest)
  | _ => (10, cs)

def digit? (c : Char) : Option Nat :=
  if '0' ≤ c ∧ c ≤ '9' then some (c.toNat - 48)
  else if 'a' ≤ c.toLower ∧ c.toLower ≤ 'z' then some (c.toLower.toNat - 87)
  else none

/-- The number that decimal digits give. -/
def value (ds : List Char) : Nat :=
  ds.foldl (fun n c => 10 * n + (c.toNat - 48)) 0

/-- Adds digits to `n`. A number that leaves 64 bits is out of range whatever follows. -/
def digits (b : Nat) : Nat → List Char → Except Error Nat
  | n, [] => .ok n
  | n, '_' :: cs => digits b n cs
  | n, c :: cs =>
    match digit? c with
    | none => .error .syntaxError
    | some d =>
      if d ≥ b then .error .syntaxError
      else if n * b + d ≥ UInt64.size then .error .outOfRange
      else digits b (n * b + d) cs

/-- Whether each underscore stands between digits; the mark of a base counts as one. -/
def underscoresOk (cs : List Char) : Bool :=
  match cs with
  | '0' :: c :: rest =>
    match c.toLower with
    | 'b' => go false true rest
    | 'o' => go false true rest
    | 'x' => go true true rest
    | _ => go false false cs
  | _ => go false false cs
where
  go (hex afterDigit : Bool) : List Char → Bool
    | [] => true
    | '_' :: cs =>
      afterDigit && match cs with
        | c :: _ => isDigit hex c && go hex false cs
        | [] => false
    | c :: cs => go hex (isDigit hex c) cs
  isDigit (hex : Bool) (c : Char) : Bool :=
    ('0' ≤ c && c ≤ '9') || (hex && 'a' ≤ c.toLower && c.toLower ≤ 'f')

def unsigned (cs : List Char) : Except Error Nat :=
  if cs.isEmpty then .error .syntaxError
  else do
    let (b, ds) := base cs
    let n ← digits b 0 ds
    if cs.contains '_' && !underscoresOk cs then .error .syntaxError else .ok n

def splitSign : List Char → Bool × List Char
  | '-' :: cs => (true, cs)
  | '+' :: cs => (false, cs)
  | cs => (false, cs)

/-- A magnitude with its sign as a word. -/
def signed (negative : Bool) (n : Nat) : Except Error Int64 :=
  if negative then
    if -(n : Int) < Int64.minValue.toInt then .error .outOfRange else .ok (Int64.ofInt (-(n : Int)))
  else if n > Int64.maxValue.toInt then .error .outOfRange else .ok (Int64.ofNat n)

def parseInt (s : String) : Except Error Int64 := do
  let (negative, cs) := splitSign s.toList
  signed negative (← unsigned cs)

/-- Reads digits of a given base, which have no mark for it. -/
def parseIntIn (b : Nat) (cs : List Char) : Except Error Int64 := do
  let (negative, ds) := splitSign cs
  if ds.isEmpty then throw .syntaxError
  signed negative (← digits b 0 ds)

def parseWord (s : String) : Except Error UInt64 := do
  return UInt64.ofNat (← unsigned s.toList)

def parseBool? (s : String) : Option Bool :=
  if ["1", "t", "T", "TRUE", "true", "True"].contains s then some true
  else if ["0", "f", "F", "FALSE", "false", "False"].contains s then some false
  else none

/-- The complaint about a text that is no integer. -/
def intComplaint (s : String) (e : Error) : String :=
  "strconv.ParseInt: parsing " ++ Quoted.string s ++ ": " ++ e.text

def boolComplaint (s : String) : String :=
  "strconv.ParseBool: parsing " ++ Quoted.string s ++ ": " ++ Error.syntaxError.text

end Numeral
end Abacus
