import Abacus.Binary64.Shortest
import Abacus.Text.Base64
import Abacus.Yaml.Node
import Abacus.Yaml.Timestamp

/-!
# Atoms of YAML

A plain scalar is nothing, a truth value, a number or a point in time if it reads as one, and text
otherwise. Quoted scalars and blocks are text. A tag may demand a kind, and a scalar that does not
read as that kind is an error; a tag may also say that a scalar is written in base 64.
-/
namespace Abacus
namespace Yaml

inductive Atom where
  | null
  | bool (b : Bool)
  | int (n : Int64)
  /-- An integer above the greatest signed word. -/
  | word (n : UInt64)
  | float (x : Binary64)
  | text (s : String)
  /-- Bytes that encode no text. -/
  | data (bs : Bytes)
  | time (t : Timestamp)
deriving DecidableEq, Inhabited

namespace Atom

def tag : Atom → Tag
  | .null => .null
  | .bool _ => .bool
  | .int _ => .int
  | .word _ => .int
  | .float _ => .float
  | .text _ => .text
  | .data _ => .text
  | .time _ => .time

def ofBytes (bs : Bytes) : Atom :=
  match Bytes.toString? bs with
  | some s => .text s
  | none => .data bs

/-- The words with a meaning of their own. -/
def ofWord? (s : String) : Option Atom :=
  if ["", "~", "null", "Null", "NULL"].contains s then some .null
  else if ["true", "True", "TRUE"].contains s then some (.bool true)
  else if ["false", "False", "FALSE"].contains s then some (.bool false)
  else if [".nan", ".NaN", ".NAN"].contains s then some (.float .nan)
  else if [".inf", ".Inf", ".INF", "+.inf", "+.Inf", "+.INF"].contains s then
    some (.float (.infinite false))
  else if ["-.inf", "-.Inf", "-.INF"].contains s then some (.float (.infinite true))
  else none

/-- The exponent after the digits of a decimal, if nothing else follows them. -/
def exponent? : List Char → Option Int
  | [] => some 0
  | e :: cs =>
    let (negative, ds) := Numeral.splitSign cs
    if (e = 'e' || e = 'E') && !ds.isEmpty && ds.all (·.isDigit) then
      let n : Int := (Numeral.value ds : Nat)
      some (if negative then -n else n)
    else none

/-- A decimal with an optional sign, fraction and exponent. There is a digit before the point, or
one right after it. -/
def decimal? (cs : List Char) : Option Binary64 := do
  let (negative, cs) := Numeral.splitSign cs
  let whole := cs.takeWhile (·.isDigit)
  let cs := cs.drop whole.length
  let fraction := if cs.head? = some '.' then cs.tail else []
  let places := fraction.takeWhile (·.isDigit)
  let cs := if cs.head? = some '.' then fraction.drop places.length else cs
  guard (!(whole.isEmpty && places.isEmpty))
  let e ← exponent? cs
  match Binary64.ofDecimal negative (Numeral.value (whole ++ places)) (e - places.length) with
  | .infinite _ => none
  | x => some x

/-- Digits in base two or eight after a mark that is followed by a sign. -/
def signedAfterMark? (cs : List Char) : Option Int64 :=
  match cs with
  | '0' :: 'b' :: ds => (Numeral.parseIntIn 2 ds).toOption
  | '0' :: 'o' :: ds => (Numeral.parseIntIn 8 ds).toOption
  | _ => none

/-- A number that starts with a digit or a sign. Underscores in it do not count. -/
def number? (s : String) : Option Atom :=
  let cs := s.toList.filter (· ≠ '_')
  let s := String.ofList cs
  match Numeral.parseInt s, Numeral.parseWord s with
  | .ok n, _ => some (.int n)
  | .error _, .ok n => some (.word n)
  | .error _, .error _ =>
    match decimal? cs with
    | some x => some (.float x)
    | none => (signedAfterMark? cs).map .int

/-- A number that starts with a point, in which an underscore may stand between two digits. -/
def fraction? (s : String) : Option Atom :=
  let cs := s.toList
  if Numeral.underscoresOk cs then (decimal? (cs.filter (· ≠ '_'))).map .float else none

/-- The value of a plain scalar. -/
def ofPlain (times : Bool) (s : String) : Atom :=
  match ofWord? s, s.toList with
  | some v, _ => v
  | none, [] => .null
  | none, c :: _ =>
    let found :=
      if c = '.' then fraction? s
      else if c = '+' || c = '-' || c.isDigit then
        match (if times then Timestamp.parse? s else none) with
        | some t => some (.time t)
        | none => number? s
      else none
    found.getD (.text s)

/-- The kinds that a tag can demand of a scalar. -/
def demandable : List Tag :=
  [.bool, .int, .float, .null, .time]

def ofScalar (tag : Option Tag) (s : String) (style : ScalarStyle) : Except Error Atom :=
  match tag, style with
  | none, .plain => .ok (ofPlain true s)
  | none, _ => .ok (.text s)
  | some tag, _ =>
    if tag = .binary then
      match Base64.decode? s with
      | some bs => .ok (ofBytes bs)
      | none => .error .badBinary
    else if !demandable.contains tag then .ok (.text s)
    else
      let v := ofPlain (tag = .time) s
      if v.tag = tag then .ok v
      else match v with
        | .int n => if tag = .float then .ok (.float (.ofInt n.toInt))
          else .error (.undecodable v.tag s tag)
        | v => .error (.undecodable v.tag s tag)

/-- An atom as complaints spell it. -/
def spelled : Atom → String
  | .null => "interface \x7b\x7d(nil)"
  | .bool b => if b then "true" else "false"
  | .int n => toString n.toInt
  | .word n => "0x" ++ String.ofList (Nat.toDigits 16 n.toNat)
  | .float x => x.general
  | .text s => Abacus.Quoted.string s
  | .data bs => Abacus.Quoted.bytes bs
  | .time t => t.spelled

def toBytes : Atom → Bytes
  | .text s => Bytes.ofString s
  | .data bs => bs
  | _ => []

/-- The place of an atom's kind in the order of keys. -/
def rank : Atom → Nat
  | .null => 0
  | .bool _ => 1
  | .float _ => 2
  | .int _ => 3
  | .text _ => 4
  | .data _ => 4
  | .word _ => 5
  | .time _ => 6

/-- The order in which complaints list keys: by kind, and each kind by its own order. Points in time
go by the fraction of a second first. -/
def le : Atom → Atom → Bool
  | .bool a, .bool b => !a || b
  | .float x, .float y => x.le y
  | .int m, .int n => m ≤ n
  | .word m, .word n => m ≤ n
  | .time t, .time u => t.nanosecond < u.nanosecond ||
      (t.nanosecond = u.nanosecond && t.seconds ≤ u.seconds)
  | a, b => if a.rank = b.rank then a.toBytes ≤ b.toBytes else a.rank < b.rank

end Atom
end Yaml
end Abacus
