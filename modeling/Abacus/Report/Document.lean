import Abacus.Text.Style

/-!
# Structured output

A document is made of strings, numbers, lists and records. It is written as indented JSON, as the
same with colors and sorted keys, or as YAML in block style.
-/
namespace Abacus

inductive Document where
  | string (s : String)
  | number (text : String)
  /-- A scalar that is never quoted where quoting is optional, such as a duration. -/
  | plain (json yaml : String)
  | list (items : List Document)
  | record (fields : List (String × Document))

namespace Document

def int (n : Int) : Document :=
  .number (toString n)

def indent (depth : Nat) : String :=
  String.ofList (List.replicate (2 * depth) ' ')

/-- A string between double quotes, with the escapes of JSON. -/
def quoted (s : String) : String :=
  "\"" ++ String.join (s.toList.map escape) ++ "\""
where
  hex (n : Nat) : String :=
    let ds := String.ofList (Nat.toDigits 16 n)
    "\\u" ++ String.ofList (List.replicate (4 - ds.length) '0') ++ ds
  escape (c : Char) : String :=
    if c = '"' then "\\\"" else if c = '\\' then "\\\\"
    else if c = '\n' then "\\n" else if c = '\r' then "\\r" else if c = '\t' then "\\t"
    else if c = '\x08' then "\\b" else if c = '\x0c' then "\\f"
    else if c.toNat < 32 || c = '<' || c = '>' || c = '&' || c.toNat = 0x2028 || c.toNat = 0x2029
    then hex c.toNat
    else c.toString

/-- How the parts of a document are set off from the punctuation. -/
structure Palette where
  key : String → String
  string : String → String
  number : String → String
  sorted : Bool

def monochrome : Palette :=
  ⟨id, id, id, false⟩

def ordered : Palette :=
  ⟨id, id, id, true⟩

def colored : Palette :=
  let paint := fun (code text : String) => "\x1b[" ++ code ++ ";1m" ++ text ++ "\x1b[0;22m"
  ⟨paint "34", paint "32", paint "36", true⟩

def byKey (a b : String × String) : Bool :=
  a.1 ≤ b.1

mutual

/-- A document as JSON at a depth of indentation. -/
def json (p : Palette) (depth : Nat) : Document → String
  | .string s => p.string (quoted s)
  | .number n => p.number n
  | .plain j _ => p.number j
  | .list items =>
    match jsonItems p (depth + 1) items with
    | [] => "[]"
    | lines => "[\n" ++ String.intercalate ",\n" lines ++ "\n" ++ indent depth ++ "]"
  | .record fields =>
    let lines := jsonFields p (depth + 1) fields
    let lines := if p.sorted then lines.mergeSort byKey else lines
    match lines with
    | [] => "\x7b\x7d"
    | lines =>
      "\x7b\n" ++ String.intercalate ",\n" (lines.map (·.2)) ++ "\n" ++ indent depth ++ "\x7d"

def jsonItems (p : Palette) (depth : Nat) : List Document → List String
  | [] => []
  | d :: ds => (indent depth ++ json p depth d) :: jsonItems p depth ds

/-- The lines of the fields, each with its key. -/
def jsonFields (p : Palette) (depth : Nat) : List (String × Document) → List (String × String)
  | [] => []
  | (k, d) :: fields =>
    (k, indent depth ++ p.key (quoted k) ++ ": " ++ json p depth d) :: jsonFields p depth fields

end

/-- Whether a plain scalar would be read as a number. -/
def looksNumeric (s : String) : Bool :=
  let cs := match s.toList with
    | '-' :: cs => cs
    | '+' :: cs => cs
    | cs => cs
  !cs.isEmpty && cs.all fun c => '0' ≤ c && c ≤ '9'

def hasColonSpace : List Char → Bool
  | ':' :: ' ' :: _ => true
  | _ :: cs => hasColonSpace cs
  | [] => false

/-- A string as a YAML scalar: quoted where its plain form would be read otherwise. -/
def scalar (s : String) : String :=
  if s.isEmpty || looksNumeric s then "\"" ++ s ++ "\""
  else if s.toList.head? = some '#' || hasColonSpace s.toList then
    "'" ++ s.replace "'" "''" ++ "'"
  else s

mutual

/-- The lines of a document in YAML. -/
def yamlLines : Document → List String
  | .string s => [scalar s]
  | .number n => [n]
  | .plain _ y => [y]
  | .list items => if items.isEmpty then ["[]"] else yamlItems items
  | .record fields => if fields.isEmpty then ["\x7b\x7d"] else yamlFields fields

def yamlItems : List Document → List String
  | [] => []
  | d :: ds =>
    (match yamlLines d with
      | [] => ["-"]
      | l :: ls => ("- " ++ l) :: ls.map ("  " ++ ·)) ++ yamlItems ds

def yamlFields : List (String × Document) → List String
  | [] => []
  | (k, d) :: fields => yamlField k d ++ yamlFields fields

/-- A scalar stands beside its key, and anything else below it. -/
def yamlField (k : String) : Document → List String
  | .string s => [k ++ ": " ++ scalar s]
  | .number n => [k ++ ": " ++ n]
  | .plain _ y => [k ++ ": " ++ y]
  | .list items =>
    if items.isEmpty then [k ++ ": []"] else (k ++ ":") :: (yamlItems items).map ("  " ++ ·)
  | .record fields =>
    if fields.isEmpty then [k ++ ": \x7b\x7d"]
    else (k ++ ":") :: (yamlFields fields).map ("  " ++ ·)

end

def yaml (d : Document) : String :=
  String.join ((yamlLines d).map (· ++ "\n"))

def toJson (view : Display) (d : Document) : String :=
  let palette := if !view.colors then monochrome else if view.muted then ordered else colored
  json palette 0 d ++ "\n"

end Document
end Abacus
