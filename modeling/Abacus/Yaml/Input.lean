/-!
# Input of the YAML reader

A document is read character by character, and each place in it is marked by its line and column.
Line breaks are a line feed or one of the two separators of Unicode; the other ways to break a
line are turned into line feeds first.
-/
namespace Abacus
namespace Yaml

/-- A place in a document; all numbers count from zero. -/
structure Mark where
  index : Nat := 0
  line : Nat := 0
  column : Nat := 0
deriving DecidableEq, Inhabited

/-- What is wrong with the form of a document. -/
inductive Problem where
  | blockEntryNotAllowed
  | keyNotAllowed
  | valueNotAllowed
  | missingColon
  | badStart
  | tabIndentation
  | documentIndicator
  | unexpectedEnd
  | unknownEscape
  | missingHexadecimal
  | invalidEscape
  | zeroIndentation
  | missingLineEnd
  | tabInBlock
  | missingName
  | missingTagUri
  | missingOctet
  | badLeadingOctet
  | badTrailingOctet
  | unclosedTag
  | missingBlankAfterTag
  | missingBlank
  | missingDirectiveName
  | badDirectiveName
  | unknownDirective
  | missingVersion
  | missingVersionPoint
  | missingTagMark
  | incompatibleVersion
  | repeatedVersion
  | repeatedTag
  | undefinedHandle
  | missingDocumentStart
  | missingContent
  | missingKey
  | missingEntry
  | unclosedSequence
  | unclosedMapping
  | tooDeep
deriving DecidableEq, Inhabited

def Problem.text : Problem → String
  | .blockEntryNotAllowed => "block sequence entries are not allowed in this context"
  | .keyNotAllowed => "mapping keys are not allowed in this context"
  | .valueNotAllowed => "mapping values are not allowed in this context"
  | .missingColon => "could not find expected ':'"
  | .badStart => "found character that cannot start any token"
  | .tabIndentation => "found a tab character that violates indentation"
  | .documentIndicator => "found unexpected document indicator"
  | .unexpectedEnd => "found unexpected end of stream"
  | .unknownEscape => "found unknown escape character"
  | .missingHexadecimal => "did not find expected hexdecimal number"
  | .invalidEscape => "found invalid Unicode character escape code"
  | .zeroIndentation => "found an indentation indicator equal to 0"
  | .missingLineEnd => "did not find expected comment or line break"
  | .tabInBlock => "found a tab character where an indentation space is expected"
  | .missingName => "did not find expected alphabetic or numeric character"
  | .missingTagUri => "did not find expected tag URI"
  | .missingOctet => "did not find URI escaped octet"
  | .badLeadingOctet => "found an incorrect leading UTF-8 octet"
  | .badTrailingOctet => "found an incorrect trailing UTF-8 octet"
  | .unclosedTag => "did not find the expected '>'"
  | .missingBlankAfterTag => "did not find expected whitespace or line break"
  | .missingBlank => "did not find expected whitespace"
  | .missingDirectiveName => "could not find expected directive name"
  | .badDirectiveName => "found unexpected non-alphabetical character"
  | .unknownDirective => "found unknown directive name"
  | .missingVersion => "did not find expected version number"
  | .missingVersionPoint => "did not find expected digit or '.' character"
  | .missingTagMark => "did not find expected '!'"
  | .incompatibleVersion => "found incompatible YAML document"
  | .repeatedVersion => "found duplicate %YAML directive"
  | .repeatedTag => "found duplicate %TAG directive"
  | .undefinedHandle => "found undefined tag handle"
  | .missingDocumentStart => "did not find expected <document start>"
  | .missingContent => "did not find expected node content"
  | .missingKey => "did not find expected key"
  | .missingEntry => "did not find expected '-' indicator"
  | .unclosedSequence => "did not find expected ',' or ']'"
  | .unclosedMapping => "did not find expected ',' or '\x7d'"
  | .tooDeep => "exceeded max depth of 10000"

/-- A complaint about the form of a document, with the line it names if it names one. -/
structure Malformed where
  problem : Problem
  line : Option Nat
deriving DecidableEq, Inhabited

namespace Malformed

/-- The line of the construct that was begun, or else of the place where it went wrong. The first
line of a document is never named. -/
def lineOf (start place : Mark) : Option Nat :=
  if start.line ≠ 0 then some start.line
  else if place.line ≠ 0 then some place.line
  else none

/-- A complaint about characters. -/
def ofText (problem : Problem) (start place : Mark) : Malformed :=
  ⟨problem, (lineOf start place).map (· + 1)⟩

/-- A complaint about the order of tokens, whose lines count from zero. -/
def ofTokens (problem : Problem) (start place : Mark) : Malformed :=
  ⟨problem, lineOf start place⟩

def text (e : Malformed) : String :=
  match e.line with
  | some n => "line " ++ toString n ++ ": " ++ e.problem.text
  | none => e.problem.text

end Malformed

def isBreak (c : Char) : Bool :=
  c = '\n' || c.toNat = 0x2028 || c.toNat = 0x2029

def isBlank (c : Char) : Bool :=
  c = ' ' || c = '\t'

def isSpace (c : Char) : Bool :=
  isBlank c || isBreak c

/-- Whether a word ends before these characters. -/
def endsWord : List Char → Bool
  | [] => true
  | c :: _ => isSpace c

/-- Characters of names of anchors, handles and directives. -/
def isNameChar (c : Char) : Bool :=
  c.isAlphanum || c = '_' || c = '-'

def Mark.over (m : Mark) (c : Char) : Mark :=
  if isBreak c then ⟨m.index + 1, m.line + 1, 0⟩ else ⟨m.index + 1, m.line, m.column + 1⟩

/-- What is left of a document, and the place where it starts. -/
structure Input where
  rest : List Char
  mark : Mark := {}

namespace Input

def step (i : Input) : Input :=
  match i.rest with
  | [] => i
  | c :: cs => ⟨cs, i.mark.over c⟩

def skip (i : Input) (n : Nat) : Input :=
  n.repeat step i

def skipWhile (i : Input) (p : Char → Bool) : Input :=
  i.skip (i.rest.takeWhile p).length

def startsWith (i : Input) (c : Char) : Bool :=
  i.rest.head? = some c

/-- Whether a line starts with three marks `c` that stand alone. -/
def atIndicator (i : Input) (c : Char) : Bool :=
  i.mark.column = 0 && match i.rest with
    | x :: y :: z :: rest => x = c && y = c && z = c && endsWord rest
    | _ => false

/-- Whether a document starts or ends here. -/
def atDocumentIndicator (i : Input) : Bool :=
  i.atIndicator '-' || i.atIndicator '.'

end Input

/-- Characters a document may hold. -/
def isAllowed (c : Char) : Bool :=
  let n := c.toNat
  n = 0x09 || n = 0x0a || n = 0x0d || (0x20 ≤ n && n ≤ 0x7e) || n = 0x85 ||
    (0xa0 ≤ n && n ≤ 0xfffd && n ≠ 0xfeff) || 0x10000 ≤ n

/-- Turns carriage returns, alone or before a line feed, and next-line characters into line
feeds. -/
def withLineFeeds : List Char → List Char
  | '\r' :: '\n' :: cs => '\n' :: withLineFeeds cs
  | '\r' :: cs => '\n' :: withLineFeeds cs
  | c :: cs => (if c.toNat = 0x85 then '\n' else c) :: withLineFeeds cs
  | [] => []

/-- A document without a byte order mark. -/
def withoutByteOrderMark : List Char → List Char
  | [] => []
  | c :: cs => if c.toNat = 0xfeff then cs else c :: cs

end Yaml
end Abacus
