import Abacus.Yaml.Input

/-!
# Texts of scalars

A scalar is plain, stands between single or double quotes, or is a block of lines. In the first
three forms blanks around a line break are dropped and the break is folded: one break becomes a
blank, and of several the first is dropped. Blocks keep their breaks or fold them, and their end is
clipped, stripped or kept.
-/
namespace Abacus
namespace Yaml

inductive ScalarStyle where
  | plain
  | quoted
  | block
deriving DecidableEq, Inhabited

/-- What blanks and breaks between two words stand for. -/
def fold (gap : List Char) : List Char :=
  match gap.filter isBreak with
  | [] => gap
  | first :: later =>
    if first = '\n' then (if later.isEmpty then [' '] else later) else first :: later

namespace Plain

/-- Whether a plain scalar stops before these characters. -/
def stopsAt (flow : Bool) : List Char → Bool
  | [] => true
  | c :: cs =>
    isSpace c || (c = ':' && endsWord cs) || (flow && [',', '?', '[', ']', '\x7b', '\x7d'].contains c)

/-- The characters up to the next place where a plain scalar may stop. -/
def word (flow : Bool) : List Char → List Char
  | [] => []
  | c :: cs => if stopsAt flow (c :: cs) then [] else c :: word flow cs

/-- The first tab that indents a line by less than `indent` columns. -/
def badTab? (indent : Nat) (afterBreak : Bool) (m : Mark) : List Char → Option Mark
  | [] => none
  | c :: cs =>
    if afterBreak && c = '\t' && m.column < indent then some m
    else badTab? indent (afterBreak || isBreak c) (m.over c) cs

/-- Reads on, `gap` being the blanks and breaks since the last word. Gives the text latest
character first, and whether a line break follows it. -/
def read (flow : Bool) (indent : Nat) (start : Mark) :
    Nat → List Char → List Char → Input → Except Malformed (List Char × Bool × Input)
  | 0, acc, gap, i => .ok (acc, gap.any isBreak, i)
  | fuel + 1, acc, gap, i =>
    if i.atDocumentIndicator || i.startsWith '#' then .ok (acc, gap.any isBreak, i)
    else
      let w := word flow i.rest
      let (acc, gap) := if w.isEmpty then (acc, gap) else (w.reverse ++ (fold gap).reverse ++ acc, [])
      let i := i.skip w.length
      let next := i.rest.takeWhile isSpace
      if next.isEmpty then .ok (acc, gap.any isBreak, i)
      else match badTab? indent false i.mark next with
        | some m => .error (.ofText .tabIndentation start m)
        | none =>
          let i := i.skip next.length
          if !flow && i.mark.column < indent then .ok (acc, next.any isBreak, i)
          else read flow indent start fuel acc next i

end Plain

namespace Quoted

/-- The character that a letter after a backslash stands for. -/
def escape? : Char → Option Char
  | '0' => some (Char.ofNat 0)
  | 'a' => some (Char.ofNat 7)
  | 'b' => some (Char.ofNat 8)
  | 't' => some '\t'
  | '\t' => some '\t'
  | 'n' => some '\n'
  | 'v' => some (Char.ofNat 11)
  | 'f' => some (Char.ofNat 12)
  | 'r' => some '\r'
  | 'e' => some (Char.ofNat 27)
  | ' ' => some ' '
  | '"' => some '"'
  | '\'' => some '\''
  | '\\' => some '\\'
  | 'N' => some (Char.ofNat 0x85)
  | '_' => some (Char.ofNat 0xa0)
  | 'L' => some (Char.ofNat 0x2028)
  | 'P' => some (Char.ofNat 0x2029)
  | _ => none

/-- The number of hexadecimal digits after a letter that takes some. -/
def codeLength? : Char → Option Nat
  | 'x' => some 2
  | 'u' => some 4
  | 'U' => some 8
  | _ => none

def hexDigit? (c : Char) : Option Nat :=
  if '0' ≤ c ∧ c ≤ '9' then some (c.toNat - 48)
  else if 'a' ≤ c.toLower ∧ c.toLower ≤ 'f' then some (c.toLower.toNat - 87)
  else none

/-- The number that `k` hexadecimal digits give. -/
def hexValue? : Nat → Nat → List Char → Option Nat
  | 0, n, _ => some n
  | _ + 1, _, [] => none
  | k + 1, n, c :: cs =>
    match hexDigit? c with
    | some d => hexValue? k (16 * n + d) cs
    | none => none

/-- The character of a code after `letter`, which takes `k` digits. -/
def code (k : Nat) (start : Mark) (i : Input) (digits : List Char) : Except Malformed Char :=
  match hexValue? k 0 digits with
  | none => .error (.ofText .missingHexadecimal start i.mark)
  | some n =>
    if (0xd800 ≤ n && n ≤ 0xdfff) || n > 0x10ffff then .error (.ofText .invalidEscape start i.mark)
    else .ok (Char.ofNat n)

/-- Reads what a backslash begins: the characters it stands for, latest first, and what follows. -/
def readEscape (start : Mark) (i : Input) : Except Malformed (List Char × Input) :=
  match i.rest with
  | _ :: c :: cs =>
    if isBreak c then
      let gap := cs.takeWhile isSpace
      .ok ((gap.filter isBreak).reverse, i.skip (2 + gap.length))
    else match escape? c with
      | some x => .ok ([x], i.skip 2)
      | none =>
        match codeLength? c with
        | some k => do
          let x ← code k start (i.skip 2) cs
          return ([x], i.skip (2 + k))
        | none => .error (.ofText .unknownEscape start i.mark)
  | _ => .error (.ofText .unknownEscape start i.mark)

/-- Reads on to the closing quote. Gives the text latest character first. -/
def read (quote : Char) (start : Mark) :
    Nat → List Char → Input → Except Malformed (List Char × Input)
  | 0, _, i => .error (.ofText .unexpectedEnd start i.mark)
  | fuel + 1, acc, i =>
    if i.atDocumentIndicator then .error (.ofText .documentIndicator start i.mark)
    else match i.rest with
      | [] => .error (.ofText .unexpectedEnd start i.mark)
      | c :: cs =>
        if isSpace c then
          let gap := i.rest.takeWhile isSpace
          read quote start fuel ((fold gap).reverse ++ acc) (i.skip gap.length)
        else if c = quote then
          if quote = '\'' && cs.head? = some '\'' then
            read quote start fuel ('\'' :: acc) (i.skip 2)
          else .ok (acc, i.step)
        else if c = '\\' && quote = '"' then do
          let (xs, i) ← readEscape start i
          read quote start fuel (xs ++ acc) i
        else read quote start fuel (c :: acc) i.step

end Quoted

namespace Block

/-- What becomes of the breaks at the end of a block. -/
inductive Chomping where
  | clip
  | strip
  | keep
deriving DecidableEq, Inhabited

/-- The marks after the sign of a block, in either order. -/
structure Header where
  chomping : Chomping := .clip
  increment : Nat := 0

def chomping? : List Char → Option Chomping
  | '+' :: _ => some .keep
  | '-' :: _ => some .strip
  | _ => none

/-- A digit that says how far a block is indented. -/
def increment (start : Mark) (i : Input) : Except Malformed (Nat × Input) :=
  match i.rest with
  | c :: _ =>
    if c = '0' then .error (.ofText .zeroIndentation start i.mark)
    else if c.isDigit then .ok (c.toNat - 48, i.step)
    else .ok (0, i)
  | [] => .ok (0, i)

def header (start : Mark) (i : Input) : Except Malformed (Header × Input) := do
  match chomping? i.rest with
  | some c =>
    let (n, i) ← increment start i.step
    return (⟨c, n⟩, i)
  | none =>
    let (n, i) ← increment start i
    match n, chomping? i.rest with
    | 0, _ => return (⟨.clip, 0⟩, i)
    | _, some c => return (⟨c, n⟩, i.step)
    | _, none => return (⟨.clip, n⟩, i)

/-- Skips indentation and empty lines. Gives the indentation of the block, which is found here if
it is not known yet, and the breaks that were skipped, latest first. -/
def breaks (start : Mark) (least : Nat) :
    Nat → Nat → Nat → List Char → Input → Except Malformed (Nat × List Char × Input)
  | 0, indent, _, acc, i => .ok (indent, acc, i)
  | fuel + 1, indent, widest, acc, i =>
    let blanks := (i.rest.takeWhile (· = ' ')).length
    let i := i.skip (if indent = 0 then blanks else min blanks (indent - i.mark.column))
    let widest := max widest i.mark.column
    match i.rest with
    | c :: _ =>
      if c = '\t' && (indent = 0 || i.mark.column < indent) then
        .error (.ofText .tabInBlock start i.mark)
      else if isBreak c then breaks start least fuel indent widest (c :: acc) i.step
      else .ok (if indent = 0 then max widest least else indent, acc, i)
    | [] => .ok (if indent = 0 then max widest least else indent, acc, i)

/-- What has been read of a block: its text, the break after its last line and the empty lines
after that, all latest first, and whether that line starts with a blank. -/
structure Content where
  text : List Char := []
  lineEnd : List Char := []
  empty : List Char := []
  blankLine : Bool := false

/-- Reads the lines of a block. -/
def lines (literal : Bool) (start : Mark) (least : Nat) :
    Nat → Nat → Content → Input → Except Malformed (Content × Input)
  | 0, _, b, i => .ok (b, i)
  | fuel + 1, indent, b, i =>
    if i.mark.column ≠ indent || i.rest.isEmpty then .ok (b, i)
    else do
      let blankLine := i.rest.head?.any isBlank
      let joint :=
        if !literal && !b.blankLine && !blankLine && b.lineEnd = ['\n'] then
          if b.empty.isEmpty then [' '] else []
        else b.lineEnd
      let line := i.rest.takeWhile (!isBreak ·)
      let i := i.skip line.length
      let lineEnd := i.rest.take 1
      let (indent, empty, i) ← breaks start least (i.rest.length + 1) indent 0 [] i.step
      let text := line.reverse ++ b.empty ++ joint ++ b.text
      lines literal start least fuel indent ⟨text, lineEnd, empty, blankLine⟩ i

/-- Reads a block whose sign stands at `start`. Blocks inside a collection are indented further
than it. -/
def read (literal : Bool) (parent : Int) (i : Input) : Except Malformed (List Char × Input) := do
  let start := i.mark
  let (h, i) ← header start i.step
  let i := i.skipWhile isBlank
  let i := if i.startsWith '#' then i.skipWhile (!isBreak ·) else i
  unless i.rest.head?.all isBreak do throw (.ofText .missingLineEnd start i.mark)
  let least := max (parent + 1).toNat 1
  let indent := if h.increment = 0 then 0 else parent.toNat + h.increment
  let fuel := i.rest.length + 1
  let (indent, empty, i) ← breaks start least fuel indent 0 [] i.step
  let (b, i) ← lines literal start least fuel indent { empty } i
  match h.chomping with
  | .strip => return (b.text, i)
  | .clip => return (b.lineEnd ++ b.text, i)
  | .keep => return (b.empty ++ b.lineEnd ++ b.text, i)

end Block
end Yaml
end Abacus
