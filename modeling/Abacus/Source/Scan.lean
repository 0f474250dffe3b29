import Abacus.Source.Token

/-!
# Scanning

A cursor is the unread input with the position at which it starts. Each call of `next` skips
blanks and takes the longest token, so a run of digits is one integer. Scanning goes on after an
illegal byte, and the end of the input is reported as often as it is asked for.
-/
namespace Abacus

structure Cursor where
  rest : Bytes
  pos : Position := {}

namespace Cursor

def isBlank (b : UInt8) : Bool :=
  b = Bytes.space || b = Bytes.tab || b = Bytes.carriageReturn || b = Bytes.lineFeed

def skipBlanks : Bytes → Position → Cursor
  | [], p => ⟨[], p⟩
  | b :: rest, p =>
    if b = Bytes.lineFeed then skipBlanks rest p.newline
    else if isBlank b then skipBlanks rest (p.along 1)
    else ⟨b :: rest, p⟩

/-- A token of the given bytes at `p`, which lie on one line. -/
def token (kind : Token.Kind) (literal : Bytes) (p : Position) (width : Nat) : Token :=
  ⟨kind, literal, p, p.along width⟩

/-- The token that starts with the byte `b`, and the bytes after it. -/
def lexeme (b : UInt8) (rest : Bytes) (p : Position) : Token × Bytes :=
  if Bytes.isDigit b then
    let ds := b :: rest.takeWhile Bytes.isDigit
    (token .int ds p ds.length, rest.dropWhile Bytes.isDigit)
  else match Token.Kind.ofByte? b with
    | some kind => (token kind [b] p 1, rest)
    | none => (token (.illegal b) (Token.illegalLiteral b) p 1, rest)

def next (c : Cursor) : Token × Cursor :=
  let c := skipBlanks c.rest c.pos
  match c.rest with
  | [] => (token .eof [] c.pos 0, c)
  | b :: rest =>
    let r := lexeme b rest c.pos
    (r.1, ⟨r.2, r.1.stop⟩)

theorem length_skipBlanks (bs : Bytes) (p : Position) :
    (skipBlanks bs p).rest.length ≤ bs.length := by
  induction bs generalizing p with
  | nil => simp [skipBlanks]
  | cons b rest ih =>
    unfold skipBlanks
    split
    · exact Nat.le_succ_of_le (ih _)
    · split
      · exact Nat.le_succ_of_le (ih _)
      · simp

theorem length_lexeme (b : UInt8) (rest : Bytes) (p : Position) :
    (lexeme b rest p).2.length ≤ rest.length := by
  unfold lexeme
  split
  · exact (List.dropWhile_sublist _).length_le
  · split <;> exact Nat.le_refl _

/-- Every token but the end of input takes at least one byte. -/
theorem next_length_lt (c : Cursor) (h : c.next.1.kind ≠ .eof) :
    c.next.2.rest.length < c.rest.length := by
  have hs := length_skipBlanks c.rest c.pos
  revert h
  unfold next
  simp only
  split
  · intro h
    exact absurd rfl h
  · rename_i b rest heq
    intro _
    have hl := length_lexeme b rest (skipBlanks c.rest c.pos).pos
    rw [heq, List.length_cons] at hs
    exact Nat.lt_of_le_of_lt hl hs

/-- Collects tokens up to the end of the input, latest first. -/
def collect (c : Cursor) (acc : List Token) : List Token × Token :=
  let t := c.next.1
  if t.kind = .eof then (acc.reverse, t) else collect c.next.2 (t :: acc)
termination_by c.rest.length
decreasing_by exact next_length_lt c ‹_›

end Cursor

/-- The tokens of a source text, and the end of input that follows them. -/
structure Scan where
  tokens : List Token
  last : Token

namespace Scan

def ofBytes (source : Bytes) : Scan :=
  let r := Cursor.collect ⟨source, {}⟩ []
  ⟨r.1, r.2⟩

/-- The tokens before the first illegal one, and its byte; without one, all of them with the end
of input. -/
def untilIllegal (s : Scan) : List Token × Option UInt8 :=
  go s.last s.tokens
where
  go (last : Token) : List Token → List Token × Option UInt8
    | [] => ([last], none)
    | t :: ts =>
      match t.kind with
      | .illegal b => ([], some b)
      | _ => let r := go last ts; (t :: r.1, r.2)

/-- The first `n` answers of a cursor at the start of the text. -/
def firstTokens (source : Bytes) (n : Nat) : List Token :=
  go ⟨source, {}⟩ n
where
  go (c : Cursor) : Nat → List Token
    | 0 => []
    | n + 1 => c.next.1 :: go c.next.2 n

end Scan
end Abacus
