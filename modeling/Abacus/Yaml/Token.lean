import Abacus.Text.Numeral
import Abacus.Yaml.Tag

/-!
# Tokens of YAML

Indentation is turned into tokens that open and close blocks. Whether a scalar is a key is known
only at the colon after it, so the place of a possible key is kept, and the tokens for a key are put
in there later. A key stands on one line, and at the indentation of a block it has to be one.
-/
namespace Abacus
namespace Yaml

namespace Token

inductive Kind where
  | streamStart
  | streamEnd
  | version (major minor : Nat)
  | tagDirective (handle : String) (stem : Bytes)
  | documentStart
  | documentEnd
  | blockSequenceStart
  | blockMappingStart
  | blockEnd
  | flowSequenceStart
  | flowSequenceEnd
  | flowMappingStart
  | flowMappingEnd
  | blockEntry
  | flowEntry
  | key
  | value
  | reference (name : String)
  | anchor (name : String)
  | tag (handle : String) (suffix : Bytes)
  | scalar (text : String) (style : ScalarStyle)
deriving DecidableEq, Inhabited

end Token

structure Token where
  kind : Token.Kind
  start : Mark
deriving DecidableEq, Inhabited

/-- A place where a key may have begun. -/
structure PossibleKey where
  required : Bool
  /-- The number of tokens before it. -/
  index : Nat
  mark : Mark

structure Scanner where
  input : Input
  tokens : Array Token := #[⟨.streamStart, {}⟩]
  /-- The column of the innermost block, and of those around it. -/
  indent : Int := -1
  indents : List Int := []
  keyAllowed : Bool := true
  /-- The possible key of each open flow collection, innermost first, and of the block around. -/
  keys : List (Option PossibleKey) := [none]
  ended : Bool := false

namespace Scanner

def mark (s : Scanner) : Mark := s.input.mark

def inFlow (s : Scanner) : Bool :=
  match s.keys with
  | _ :: _ :: _ => true
  | _ => false

/-- The greatest number of collections inside each other, for flow and for blocks. -/
def maxDepth : Nat := 10000

def push (s : Scanner) (kind : Token.Kind) (start : Mark) : Scanner :=
  { s with tokens := s.tokens.push ⟨kind, start⟩ }

def insert (s : Scanner) (index : Nat) (t : Token) : Scanner :=
  { s with tokens := s.tokens.extract 0 index ++ #[t] ++ s.tokens.extract index s.tokens.size }

/-- How far a comment is looked for. -/
def commentReach : Nat := 512

/-- Whether another comment follows the line break after one, with nothing but blanks and breaks
between them. -/
def leadsToComment (cs : List Char) : Bool :=
  let gap := cs.takeWhile fun c => isBlank c || c = '\n'
  gap.length + 1 < commentReach && (cs.drop gap.length).head? = some '#'

/-- Where skipping has got to. -/
inductive Gap where
  | blank
  | comment
  /-- Between two comments that follow each other. -/
  | between
deriving DecidableEq

/-- Skips blanks, comments and breaks. A tab is no blank where a key may begin, except between
comments, and in a block each new line may begin a key. -/
def skipToToken (flow : Bool) : Bool → Gap → List Char → Mark → Input × Bool
  | keyAllowed, _, [], m => (⟨[], m⟩, keyAllowed)
  | keyAllowed, gap, c :: cs, m =>
    if isBreak c then
      let gap := if gap = .between || (gap = .comment && c = '\n' && leadsToComment cs) then .between
        else Gap.blank
      skipToToken flow (keyAllowed || !flow) gap cs (m.over c)
    else if gap = .comment || c = '#' then skipToToken flow keyAllowed .comment cs (m.over c)
    else if c = ' ' || (c = '\t' && (flow || !keyAllowed || gap = .between)) then
      skipToToken flow keyAllowed gap cs (m.over c)
    else (⟨c :: cs, m⟩, keyAllowed)

/-- Skips a comment that ends the line of a token. -/
def lineComment (s : Scanner) : Scanner :=
  let blanks := (s.input.rest.takeWhile isBlank).length
  let after := s.input.skip blanks
  if blanks < commentReach && after.startsWith '#' then
    { s with input := after.skipWhile (!isBreak ·) }
  else s

/-- Closes the blocks that are indented further than `column`. -/
def closeBlocks (column : Int) (place : Mark) :
    Array Token → Int → List Int → Array Token × Int × List Int
  | tokens, indent, [] => (tokens, indent, [])
  | tokens, indent, outer :: rest =>
    if indent > column then closeBlocks column place (tokens.push ⟨.blockEnd, place⟩) outer rest
    else (tokens, indent, outer :: rest)

def unindent (s : Scanner) (column : Int) (place : Mark) : Scanner :=
  if s.inFlow then s
  else
    let (tokens, indent, indents) := closeBlocks column place s.tokens s.indent s.indents
    { s with tokens, indent, indents }

/-- Opens a block before the token number `index` if `column` is indented further. -/
def openBlock (s : Scanner) (kind : Token.Kind) (column : Nat) (index : Nat) (start : Mark) :
    Except Malformed Scanner :=
  if s.inFlow || s.indent ≥ column then .ok s
  else if s.indents.length ≥ maxDepth then .error (.ofText .tooDeep start s.mark)
  else .ok <|
    { s with indents := s.indent :: s.indents, indent := column }.insert index ⟨kind, start⟩

/-- Gives up the possible key of the current level. -/
def dropKey (s : Scanner) : Except Malformed Scanner :=
  match s.keys with
  | some k :: rest =>
    if k.required then .error (.ofText .missingColon k.mark s.mark)
    else .ok { s with keys := none :: rest }
  | _ => .ok s

/-- Notes that a key may begin here. -/
def saveKey (s : Scanner) : Except Malformed Scanner :=
  if s.keyAllowed then do
    let required := !s.inFlow && s.indent = s.mark.column
    let s ← s.dropKey
    return { s with keys := some ⟨required, s.tokens.size, s.mark⟩ :: s.keys.tail }
  else .ok s

/-- A key ends on the line it begins, and is not longer than 1024 characters. -/
def isStale (s : Scanner) (k : PossibleKey) : Bool :=
  k.mark.line < s.mark.line || k.mark.index + 1024 < s.mark.index

/-- The possible key of the current level, if it can still be one. -/
def currentKey? (s : Scanner) : Except Malformed (Option PossibleKey) :=
  match s.keys with
  | some k :: _ =>
    if !s.isStale k then .ok (some k)
    else if k.required then .error (.ofText .missingColon k.mark s.mark)
    else .ok none
  | _ => .ok none

def streamEnd (s : Scanner) : Except Malformed Scanner := do
  let m := s.mark
  let m : Mark := if m.column = 0 then m else { m with line := m.line + 1, column := 0 }
  let s := { s with input := { s.input with mark := m } }
  let s ← (s.unindent (-1) m).dropKey
  return { s with keyAllowed := false, ended := true }.push .streamEnd m

def documentIndicator (s : Scanner) (kind : Token.Kind) : Except Malformed Scanner := do
  let start := s.mark
  let s ← (s.unindent (-1) start).dropKey
  return { s with keyAllowed := false, input := s.input.skip 3 }.push kind start

def openFlow (s : Scanner) (kind : Token.Kind) : Except Malformed Scanner := do
  let start := s.mark
  let s ← s.saveKey
  if s.keys.length > maxDepth then throw (.ofText .tooDeep start start)
  return { s with keys := none :: s.keys, keyAllowed := true, input := s.input.step }.push kind start

def closeFlow (s : Scanner) (kind : Token.Kind) : Except Malformed Scanner := do
  let start := s.mark
  let s ← s.dropKey
  let keys := if s.inFlow then s.keys.tail else s.keys
  return { s with keys, keyAllowed := false, input := s.input.step }.push kind start

def flowEntry (s : Scanner) : Except Malformed Scanner := do
  let start := s.mark
  let s ← s.dropKey
  return { s with keyAllowed := true, input := s.input.step }.push .flowEntry start

/-- Opens a block for an entry or a key that has a sign of its own. -/
def openFor (s : Scanner) (kind : Token.Kind) (problem : Problem) : Except Malformed Scanner :=
  if s.inFlow then .ok s
  else if !s.keyAllowed then .error (.ofText problem s.mark s.mark)
  else s.openBlock kind s.mark.column s.tokens.size s.mark

def blockEntry (s : Scanner) : Except Malformed Scanner := do
  let start := s.mark
  let s ← (← s.openFor .blockSequenceStart .blockEntryNotAllowed).dropKey
  return { s with keyAllowed := true, input := s.input.step }.push .blockEntry start

def explicitKey (s : Scanner) : Except Malformed Scanner := do
  let start := s.mark
  let s ← (← s.openFor .blockMappingStart .keyNotAllowed).dropKey
  return { s with keyAllowed := !s.inFlow, input := s.input.step }.push .key start

/-- A colon: what stands before it on the line becomes a key. -/
def colon (s : Scanner) : Except Malformed Scanner := do
  let start := s.mark
  match ← s.currentKey? with
  | some k =>
    let s := s.insert k.index ⟨.key, k.mark⟩
    let s ← s.openBlock .blockMappingStart k.mark.column k.index k.mark
    return { s with
      keys := none :: s.keys.tail
      keyAllowed := false
      input := s.input.step }.push .value start
  | none =>
    let s ← s.openFor .blockMappingStart .valueNotAllowed
    return { s with keyAllowed := !s.inFlow, input := s.input.step }.push .value start

/-- Whether the name of an anchor may end before these characters. -/
def endsName : List Char → Bool
  | [] => true
  | c :: _ => isSpace c || ['?', ':', ',', ']', '\x7d', '%', '@', '\x60'].contains c

/-- An anchor or an alias, whose name follows its sign. -/
def named (s : Scanner) (kind : String → Token.Kind) : Except Malformed Scanner := do
  let start := s.mark
  let s ← s.saveKey
  let name := s.input.step.rest.takeWhile isNameChar
  let input := s.input.skip (1 + name.length)
  if name.isEmpty || !endsName input.rest then throw (.ofText .missingName start input.mark)
  return { s with keyAllowed := false, input }.push (kind (String.ofList name)) start

/-- The rest of a tag that begins at `start`. -/
def readTagUri (start : Mark) (i : Input) : Except Malformed (Bytes × Input) :=
  match Tag.read 0 i.rest with
  | .error problem => .error (.ofText problem start i.mark)
  | .ok (name, rest) => .ok (name, i.skip (i.rest.length - rest.length))

/-- The handle and the suffix of a tag, and what follows it. -/
def readTag (i : Input) : Except Malformed (String × Bytes × Input) := do
  let start := i.mark
  let after := i.step
  if after.startsWith '<' then
    let (name, i) ← readTagUri start after.step
    if name.isEmpty then throw (.ofText .missingTagUri start i.mark)
    unless i.startsWith '>' do throw (.ofText .unclosedTag start i.mark)
    return ("", name, i.step)
  let name := after.rest.takeWhile isNameChar
  let i := after.skip name.length
  if i.startsWith '!' then
    let (suffix, i) ← readTagUri start i.step
    if suffix.isEmpty then throw (.ofText .missingTagUri start i.mark)
    return ("!" ++ String.ofList name ++ "!", suffix, i)
  let (more, i) ← readTagUri start i
  match Bytes.ofString (String.ofList name) ++ more with
  | [] => return ("", Bytes.ofString "!", i)
  | suffix => return ("!", suffix, i)

def tag (s : Scanner) : Except Malformed Scanner := do
  let start := s.mark
  let s ← s.saveKey
  let (handle, suffix, input) ← readTag s.input
  unless endsWord input.rest do throw (.ofText .missingBlankAfterTag start input.mark)
  return { s with keyAllowed := false, input }.push (.tag handle suffix) start

def blockScalar (s : Scanner) (literal : Bool) : Except Malformed Scanner := do
  let start := s.mark
  let s ← s.dropKey
  let (text, input) ← Block.read literal s.indent s.input
  return { s with keyAllowed := true, input }.push
    (.scalar (String.ofList text.reverse) .block) start

def quotedScalar (s : Scanner) (quote : Char) : Except Malformed Scanner := do
  let start := s.mark
  let s ← s.saveKey
  let (text, input) ← Quoted.read quote start (s.input.rest.length + 1) [] s.input.step
  return { s with keyAllowed := false, input }.push
    (.scalar (String.ofList text.reverse) .quoted) start

def plainScalar (s : Scanner) : Except Malformed Scanner := do
  let start := s.mark
  let s ← s.saveKey
  let (text, newLine, input) ←
    Plain.read s.inFlow (s.indent + 1).toNat start (s.input.rest.length + 1) [] [] s.input
  let s := { s with keyAllowed := newLine, input }.push
    (.scalar (String.ofList text.reverse) .plain) start
  return if newLine then s else s.lineComment

/-- A number of a version. -/
def versionNumber (start : Mark) (i : Input) : Except Malformed (Nat × Input) :=
  let ds := i.rest.takeWhile (·.isDigit)
  if ds.isEmpty then .error (.ofText .missingVersion start i.mark)
  else .ok (Numeral.value ds, i.skip ds.length)

def versionDirective (start : Mark) (i : Input) : Except Malformed (Token.Kind × Input) := do
  let (major, i) ← versionNumber start (i.skipWhile isBlank)
  unless i.startsWith '.' do throw (.ofText .missingVersionPoint start i.mark)
  let (minor, i) ← versionNumber start i.step
  return (.version major minor, i)

def tagDirective (start : Mark) (i : Input) : Except Malformed (Token.Kind × Input) := do
  let i := i.skipWhile isBlank
  unless i.startsWith '!' do throw (.ofText .missingTagMark start i.mark)
  let name := i.step.rest.takeWhile isNameChar
  let j := i.skip (1 + name.length)
  unless name.isEmpty || j.startsWith '!' do throw (.ofText .missingTagMark start j.mark)
  let closing := if j.startsWith '!' then 1 else 0
  let handle := i.rest.take (1 + name.length + closing)
  let j := j.skip closing
  unless j.rest.head?.any isBlank do throw (.ofText .missingBlank start j.mark)
  let j := j.skipWhile isBlank
  let (stem, j) ← readTagUri start j
  if stem.isEmpty then throw (.ofText .missingTagUri start j.mark)
  unless endsWord j.rest do throw (.ofText .missingBlankAfterTag start j.mark)
  return (.tagDirective (String.ofList handle) stem, j)

def directive (s : Scanner) : Except Malformed Scanner := do
  let start := s.mark
  let s ← (s.unindent (-1) start).dropKey
  let name := s.input.step.rest.takeWhile isNameChar
  let i := s.input.skip (1 + name.length)
  if name.isEmpty then throw (.ofText .missingDirectiveName start i.mark)
  unless endsWord i.rest do throw (.ofText .badDirectiveName start i.mark)
  let (kind, i) ← match String.ofList name with
    | "YAML" => versionDirective start i
    | "TAG" => tagDirective start i
    | _ => throw (.ofText .unknownDirective start i.mark)
  let i := i.skipWhile isBlank
  let i := if i.startsWith '#' then i.skipWhile (!isBreak ·) else i
  unless i.rest.head?.all isBreak do throw (.ofText .missingLineEnd start i.mark)
  return { s with keyAllowed := false, input := i.step }.push kind start

/-- Signs that never begin a plain scalar. -/
def isIndicator (c : Char) : Bool :=
  [',', '[', ']', '\x7b', '\x7d', '#', '&', '*', '!', '|', '>', '\'', '"', '%', '@',
    '\x60'].contains c

/-- Whether a plain scalar begins here. A dash, a question mark and a colon begin one if no blank
follows. -/
def startsPlain (flow : Bool) : List Char → Bool
  | [] => false
  | c :: cs =>
    if c = '-' then !cs.head?.any isBlank
    else if c = '?' || c = ':' then !flow && !endsWord cs
    else !isSpace c && !isIndicator c

/-- Reads a token that may be followed by a comment on its line. -/
def content (s : Scanner) (c : Char) (cs : List Char) : Except Malformed Scanner :=
  match c with
  | '[' => s.openFlow .flowSequenceStart
  | '\x7b' => s.openFlow .flowMappingStart
  | ']' => s.closeFlow .flowSequenceEnd
  | '\x7d' => s.closeFlow .flowMappingEnd
  | ',' => s.flowEntry
  | '*' => s.named .reference
  | '&' => s.named .anchor
  | '!' => s.tag
  | '\'' => s.quotedScalar '\''
  | '"' => s.quotedScalar '"'
  | c =>
    if c = '?' && (s.inFlow || endsWord cs) then s.explicitKey
    else if c = ':' && (s.inFlow || endsWord cs) then s.colon
    else .error (.ofText .badStart s.mark s.mark)

/-- Reads the next token, with the tokens that indentation puts before it. -/
def next (s : Scanner) : Except Malformed Scanner :=
  let before := s.mark
  let (input, keyAllowed) := skipToToken s.inFlow s.keyAllowed .blank s.input.rest s.input.mark
  let s := { s with input, keyAllowed }.unindent input.mark.column before
  match input.rest with
  | [] => s.streamEnd
  | c :: cs =>
    if input.mark.column = 0 && c = '%' then s.directive
    else if input.atIndicator '-' then s.documentIndicator .documentStart
    else if input.atIndicator '.' then s.documentIndicator .documentEnd
    else if c = '-' && endsWord cs then s.blockEntry
    else if (c = '|' || c = '>') && !s.inFlow then s.blockScalar (c = '|')
    else if startsPlain s.inFlow input.rest then s.plainScalar
    else (s.content c cs).map lineComment

/-- The tokens that can be handed on although reading failed after them. Two tokens are read ahead,
and a possible key is not handed on before it is known whether it is one. -/
def settled (s : Scanner) : List Token :=
  let pending := s.keys.filterMap fun k => k.bind fun k => if s.isStale k then none else some k.index
  (s.tokens.extract 0 (pending.foldl min (s.tokens.size - 2))).toList

/-- A key that has to be one and has ended without a colon, once it has been read past. -/
def failedKey? (s : Scanner) : Option PossibleKey :=
  match s.keys.getLast? with
  | some (some k) =>
    if k.required && s.isStale k && (s.ended || s.tokens.size > k.index + 2) then some k else none
  | _ => none

/-- Reads all tokens. -/
def run : Nat → Scanner → List Token × Option Malformed
  | 0, s => (s.tokens.toList, none)
  | fuel + 1, s =>
    match s.failedKey? with
    | some k =>
      ((s.tokens.extract 0 k.index).toList, some (.ofText .missingColon k.mark s.mark))
    | none =>
      if s.ended then (s.tokens.toList, none)
      else match s.next with
        | .ok s => run fuel s
        | .error e => (s.settled, some e)

end Scanner

/-- The tokens of a document. Where it is malformed, those before the complaint. -/
def Token.scan (cs : List Char) : List Token × Option Malformed :=
  Scanner.run (cs.length + 3) { input := ⟨cs, {}⟩ }

end Yaml
end Abacus
