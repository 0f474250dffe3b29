import Abacus.Text.Bytes
import Abacus.Text.Quoted
import Abacus.Yaml.Token

/-!
# Nodes of YAML

A document is a tree of scalars, sequences and mappings. Each node knows its line, counted from
one, and the tag it was given. An alias holds the node that its anchor names; inside that node
itself it can only be marked as a cycle.
-/
namespace Abacus
namespace Yaml

inductive Node where
  | scalar (line : Nat) (tag : Option Tag) (text : String) (style : ScalarStyle)
  | sequence (line : Nat) (tag : Option Tag) (items : List Node)
  | mapping (line : Nat) (tag : Option Tag) (entries : List (Node × Node))
  | reference (line : Nat) (name : String) (target : Node)
  | cycle (line : Nat) (name : String)

namespace Node

def line : Node → Nat
  | .scalar l _ _ _ => l
  | .sequence l _ _ => l
  | .mapping l _ _ => l
  | .reference l _ _ => l
  | .cycle l _ => l

/-- A scalar that is not written. -/
def empty (m : Mark) : Node :=
  .scalar (m.line + 1) none "" .plain

/-- What two keys of a mapping must not share: the kind of the node, and its text or the name it
refers to. -/
def identity : Node → Nat × String
  | .scalar _ _ text _ => (0, text)
  | .sequence _ _ _ => (1, "")
  | .mapping _ _ _ => (2, "")
  | .reference _ name _ => (3, name)
  | .cycle _ name => (3, name)

end Node

/-- A value that does not fit the place it is read into. -/
inductive Mismatch where
  | repeatedKey (line : Nat) (key : String) (first : Nat)
  | wrongKind (line : Nat) (tag : Tag) (text : Option String) (wanted : String)
deriving DecidableEq, Inhabited

namespace Mismatch

/-- A text as complaints show it: long ones are cut after seven bytes. -/
def excerpt (text : String) : Bytes :=
  let bs := Bytes.ofString text
  Bytes.ofString " \x60" ++ (if bs.length > 10 then bs.take 7 ++ Bytes.ofString "..." else bs) ++
    Bytes.ofString "\x60"

def message : Mismatch → Bytes
  | .repeatedKey line key first =>
    Bytes.ofString ("line " ++ toString line ++ ": mapping key " ++ Abacus.Quoted.string key ++
      " already defined at line " ++ toString first)
  | .wrongKind line tag text wanted =>
    Bytes.ofString ("line " ++ toString line ++ ": cannot unmarshal ") ++ tag.name ++
      (text.map excerpt).getD [] ++ Bytes.ofString (" into " ++ wanted)

end Mismatch

/-- Why a document cannot be read. -/
inductive Error where
  | controlCharacter
  | malformed (e : Malformed)
  | unknownAnchor (name : String)
  | containsItself (name : String)
  | undecodable (found : Tag) (text : String) (wanted : Tag)
  | badBinary
  | badMerge
  | invalidKey (spelled : String)
  | excessiveAliasing
  | mismatches (ms : List Mismatch)
deriving DecidableEq, Inhabited

def Error.message : Error → Bytes
  | .controlCharacter => Bytes.ofString "yaml: control characters are not allowed"
  | .malformed e => Bytes.ofString ("yaml: " ++ e.text)
  | .unknownAnchor name => Bytes.ofString ("yaml: unknown anchor '" ++ name ++ "' referenced")
  | .containsItself name => Bytes.ofString ("yaml: anchor '" ++ name ++ "' value contains itself")
  | .undecodable found text wanted =>
    Bytes.ofString "yaml: cannot decode " ++ found.name ++
      Bytes.ofString (" \x60" ++ text ++ "\x60 as a ") ++ wanted.name
  | .badBinary => Bytes.ofString "yaml: !!binary value contains invalid base64 data"
  | .badMerge => Bytes.ofString "yaml: map merge requires map or sequence of maps as the value"
  | .invalidKey spelled => Bytes.ofString ("yaml: invalid map key: " ++ spelled)
  | .excessiveAliasing => Bytes.ofString "yaml: document contains excessive aliasing"
  | .mismatches ms =>
    Bytes.ofString "yaml: unmarshal errors:" ++ ms.flatMap (Bytes.ofString "\n  " ++ ·.message)

/-- The tokens not read yet, and what has been declared so far. -/
structure Reader where
  tokens : List Token
  failure : Option Malformed
  handles : List (String × Bytes) := []
  /-- Anchors, latest first; one has no node while that is being read. -/
  anchors : List (String × Option Node) := []

abbrev Reading := StateT Reader (Except Error)

namespace Reading

def peek : Reading Token := do
  let r ← get
  match r.tokens, r.failure with
  | t :: _, _ => return t
  | [], some e => throw (.malformed e)
  | [], none => return ⟨.streamEnd, {}⟩

def skip : Reading Unit :=
  modify fun r => { r with tokens := r.tokens.tail }

/-- Skips a token and looks at the one after it. -/
def advance : Reading Token := do
  skip
  peek

def complain {α : Type} (problem : Problem) (start place : Mark) : Reading α :=
  throw (.malformed (.ofTokens problem start place))

/-- The tag that a handle and a suffix stand for. A lone mark gives no tag. -/
def resolveTag (handle : String) (suffix : Bytes) (start place : Mark) : Reading (Option Tag) := do
  if handle.isEmpty then
    return if suffix == Bytes.ofString "!" then none else some (.ofName suffix)
  match (← get).handles.lookup handle with
  | some stem => return some (.ofName (stem ++ suffix))
  | none => complain .undefinedHandle start place

/-- What may stand before a node: an anchor and a tag, in either order. -/
structure Properties where
  anchor : Option String := none
  tag : Option (String × Bytes × Mark) := none

def properties : Reading Properties := do
  let t ← peek
  match t.kind with
  | .anchor name =>
    let t ← advance
    match t.kind with
    | .tag handle suffix => do skip; return ⟨some name, some (handle, suffix, t.start)⟩
    | _ => return ⟨some name, none⟩
  | .tag handle suffix =>
    let after ← advance
    match after.kind with
    | .anchor name => do skip; return ⟨some name, some (handle, suffix, t.start)⟩
    | _ => return ⟨none, some (handle, suffix, t.start)⟩
  | _ => return {}

def declare (name : Option String) : Reading Unit :=
  match name with
  | none => return
  | some name => modify fun r => { r with anchors := (name, none) :: r.anchors }

/-- Gives the anchor of a node that has been read its node. -/
def settle (name : Option String) (n : Node) : Reading Unit :=
  match name with
  | none => return
  | some name => modify fun r => { r with
      anchors := r.anchors.map fun a => if a.1 == name && a.2.isNone then (name, some n) else a }

def dereference (name : String) (start : Mark) : Reading Node := do
  skip
  match (← get).anchors.lookup name with
  | none => throw (.unknownAnchor name)
  | some none => return .cycle (start.line + 1) name
  | some (some n) => return .reference (start.line + 1) name n

/-- Whether a node in a block is left out before a token. -/
def isBlockGap : Token.Kind → Bool
  | .key => true
  | .value => true
  | .blockEnd => true
  | _ => false

mutual

/-- Reads a node. In a block, a sequence that is a value need not be indented. -/
def node (block unindented : Bool) : Nat → Reading Node
  | 0 => return .empty {}
  | fuel + 1 => do
    let first ← peek
    match first.kind with
    | .reference name => dereference name first.start
    | _ =>
      let start := first.start
      let p ← properties
      let tag ← match p.tag with
        | none => pure none
        | some (handle, suffix, place) => resolveTag handle suffix start place
      declare p.anchor
      let t ← peek
      let line := start.line + 1
      let n ← match t.kind, block with
        | .scalar text style, _ => do skip; pure (.scalar line tag text style)
        | .flowSequenceStart, _ => do
          skip
          pure (.sequence line tag (← flowItems t.start true fuel))
        | .flowMappingStart, _ => do
          skip
          pure (.mapping line tag (← flowEntries t.start true fuel))
        | .blockSequenceStart, true => do
          skip
          pure (.sequence line tag (← blockItems t.start fuel))
        | .blockMappingStart, true => do
          skip
          pure (.mapping line tag (← blockEntries t.start fuel))
        | kind, _ =>
          if unindented && kind = .blockEntry then do
            pure (.sequence line tag (← unindentedItems fuel))
          else if p.anchor.isSome || p.tag.isSome then pure (.scalar line tag "" .plain)
          else complain .missingContent start t.start
      settle p.anchor n
      return n

/-- The node after a dash, which may be left out. -/
def blockItem (place : Mark) (left : Bool) : Nat → Reading Node
  | 0 => return .empty place
  | fuel + 1 => if left then return .empty place else node true false fuel

def blockItems (start : Mark) : Nat → Reading (List Node)
  | 0 => return []
  | fuel + 1 => do
    let t ← peek
    match t.kind with
    | .blockEntry => do
      let after ← advance
      let left := after.kind = .blockEntry || after.kind = .blockEnd
      let n ← blockItem t.start left fuel
      return n :: (← blockItems start fuel)
    | .blockEnd => do skip; return []
    | _ => complain .missingEntry start t.start

def unindentedItems : Nat → Reading (List Node)
  | 0 => return []
  | fuel + 1 => do
    let t ← peek
    match t.kind with
    | .blockEntry => do
      let after ← advance
      let n ← blockItem t.start (after.kind = .blockEntry || isBlockGap after.kind) fuel
      return n :: (← unindentedItems fuel)
    | _ => return []

/-- The key or the value of an entry in a block, which may be left out. -/
def blockPart (place : Mark) : Nat → Reading Node
  | 0 => return .empty place
  | fuel + 1 => do
    let t ← peek
    if isBlockGap t.kind then return .empty place else node true true fuel

def blockEntries (start : Mark) : Nat → Reading (List (Node × Node))
  | 0 => return []
  | fuel + 1 => do
    let t ← peek
    match t.kind with
    | .key => do
      skip
      let k ← blockPart t.start fuel
      let colon ← peek
      let v ← if colon.kind = .value then do skip; blockPart colon.start fuel
        else pure (.empty colon.start)
      return (k, v) :: (← blockEntries start fuel)
    | .blockEnd => do skip; return []
    | _ => complain .missingKey start t.start

/-- The value after a key in a flow collection, which ends with `closing`. -/
def flowValue (closing : Token.Kind) : Nat → Reading Node
  | 0 => return .empty {}
  | fuel + 1 => do
    let t ← peek
    if t.kind = .value then
      let after ← advance
      if after.kind = .flowEntry || after.kind = closing then return .empty after.start
      else node false false fuel
    else return .empty t.start

/-- An entry of a flow sequence that is itself a key with a value. -/
def flowPair (place : Mark) : Nat → Reading Node
  | 0 => return .empty place
  | fuel + 1 => do
    let t ← peek
    let k ← if t.kind = .value || t.kind = .flowEntry || t.kind = .flowSequenceEnd then do
        skip
        pure (.empty t.start)
      else node false false fuel
    let v ← flowValue .flowSequenceEnd fuel
    return .mapping (place.line + 1) none [(k, v)]

def flowItems (start : Mark) (first : Bool) : Nat → Reading (List Node)
  | 0 => return []
  | fuel + 1 => do
    let t ← peek
    if t.kind = .flowSequenceEnd then
      skip
      return []
    let t ← if first then pure t
      else if t.kind = .flowEntry then advance
      else complain .unclosedSequence start t.start
    if t.kind = .flowSequenceEnd then
      skip
      return []
    let n ← if t.kind = .key then do skip; flowPair t.start fuel else node false false fuel
    return n :: (← flowItems start false fuel)

def flowEntries (start : Mark) (first : Bool) : Nat → Reading (List (Node × Node))
  | 0 => return []
  | fuel + 1 => do
    let t ← peek
    if t.kind = .flowMappingEnd then
      skip
      return []
    let t ← if first then pure t
      else if t.kind = .flowEntry then advance
      else complain .unclosedMapping start t.start
    if t.kind = .flowMappingEnd then
      skip
      return []
    let e ← if t.kind = .key then do
        let after ← advance
        let left := after.kind = .value || after.kind = .flowEntry || after.kind = .flowMappingEnd
        let k ← if left then pure (.empty after.start) else node false false fuel
        let v ← flowValue .flowMappingEnd fuel
        pure (k, v)
      else do
        let k ← node false false fuel
        pure (k, .empty t.start)
    return e :: (← flowEntries start false fuel)

end

/-- Reads the directives before a document. -/
def directives (version : Bool) (handles : List (String × Bytes)) :
    Nat → Reading (List (String × Bytes))
  | 0 => return handles
  | fuel + 1 => do
    let t ← peek
    match t.kind with
    | .version major minor =>
      if version then complain .repeatedVersion {} t.start
      if major ≠ 1 || minor ≠ 1 then complain .incompatibleVersion {} t.start
      skip
      directives true handles fuel
    | .tagDirective handle stem =>
      if handles.any (·.1 == handle) then complain .repeatedTag {} t.start
      skip
      directives version ((handle, stem) :: handles) fuel
    | _ => return handles

/-- The handles that need no directive. -/
def usualHandles : List (String × Bytes) :=
  [("!", Bytes.ofString "!"), ("!!", Tag.coreStem)]

/-- Whether a document has no content before a token. -/
def endsDocument : Token.Kind → Bool
  | .version _ _ => true
  | .tagDirective _ _ => true
  | .documentStart => true
  | .documentEnd => true
  | .streamEnd => true
  | _ => false

/-- Reads the first document, if there is one, up to the token after it. -/
def document (fuel : Nat) : Reading (Option Node) := do
  let t ← advance
  match t.kind with
  | .streamEnd => return none
  | .version _ _ => explicit
  | .tagDirective _ _ => explicit
  | .documentStart => explicit
  | _ => content
where
  content : Reading (Option Node) := do
    modify fun r => { r with handles := r.handles ++ usualHandles }
    let n ← node true false fuel
    let _ ← peek
    return some n
  explicit : Reading (Option Node) := do
    let handles ← directives false [] fuel
    modify fun r => { r with handles }
    let t ← peek
    unless t.kind = .documentStart do complain .missingDocumentStart {} t.start
    let t ← advance
    if endsDocument t.kind then return some (.empty t.start) else content

end Reading

/-- The tree of the first document in a text. -/
def Node.parse? (text : String) : Except Error (Option Node) := do
  let cs := withoutByteOrderMark text.toList
  unless cs.all isAllowed do throw .controlCharacter
  let (tokens, failure) := Token.scan (withLineFeeds cs)
  let r ← (Reading.document (4 * tokens.length + 8)).run { tokens, failure }
  return r.1

end Yaml
end Abacus
