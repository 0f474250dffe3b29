import Abacus.Yaml.Value

/-!
# From nodes to values

Keys of a mapping differ from each other, and a merge key adds the entries of other mappings whose
keys it does not have. Values that do not fit are noted and left out, and all notes are reported
together. A document may expand its aliases, but not without bound: what they add to the work is
held against all of it.
-/
namespace Abacus
namespace Yaml

/-- What decoding has noted, and how many nodes it has visited. -/
structure Progress where
  mismatches : List Mismatch := []
  visited : Nat := 0
  /-- The nodes that were visited through an alias. -/
  aliased : Nat := 0
  /-- The aliases that are being followed. -/
  depth : Nat := 0

namespace Progress

/-- Up to so many visits nearly all may be due to aliases. -/
def lenient : Nat := 400000

/-- From so many visits on a tenth may be due to aliases. -/
def strict : Nat := 4000000

/-- Whether the share of aliases is too large. The share that is allowed falls from 99 to 10 percent
between the two limits. -/
def isExcessive (p : Progress) : Bool :=
  p.aliased > 100 && p.visited > 1000 &&
    if p.visited ≤ lenient then p.aliased * 100 > p.visited * 99
    else if p.visited ≥ strict then p.aliased * 10 > p.visited
    else p.aliased * (100 * (strict - lenient)) >
      p.visited * (99 * (strict - lenient) - 89 * (p.visited - lenient))

end Progress

abbrev Decoding := StateT Progress (Except Error)

namespace Decoding

def note (ms : List Mismatch) : Decoding Unit :=
  modify fun p => { p with mismatches := p.mismatches ++ ms }

/-- Counts a visit to a node. -/
def visit : Decoding Unit := do
  modify fun p => { p with
    visited := p.visited + 1
    aliased := if p.depth > 0 then p.aliased + 1 else p.aliased }
  if (← get).isExcessive then throw .excessiveAliasing

/-- Decodes what an alias stands for. -/
def following {α : Type} (x : Decoding α) : Decoding α := do
  modify fun p => { p with depth := p.depth + 1 }
  let a ← x
  modify fun p => { p with depth := p.depth - 1 }
  return a

/-- The keys of a mapping that repeat an earlier one. -/
def repeatedKeys : List (Node × Node) → List Mismatch
  | [] => []
  | (k, _) :: entries =>
    (entries.filterMap fun e =>
      if e.1.identity = k.identity then
        some (.repeatedKey e.1.line e.1.identity.2 k.line)
      else none) ++ repeatedKeys entries

/-- Whether a key asks for the entries of other mappings. -/
def isMerge : Node → Bool
  | .scalar _ tag text style =>
    text == "<<" && ((tag.isNone && style = .plain) || tag = some .merge)
  | _ => false

def isTextTag (tag : Tag) : Bool :=
  tag = .text || tag = .merge

/-- Whether a key can only be text. -/
def isText : Node → Bool
  | .scalar _ (some tag) _ _ => isTextTag tag
  | .scalar _ none text style => style ≠ .plain || (Atom.ofPlain true text).tag = .text
  | .sequence _ tag _ => tag.any isTextTag
  | .mapping _ tag _ => tag.any isTextTag
  | .reference _ _ target => isText target
  | .cycle _ _ => false

/-- A sequence or mapping where something else is wanted. -/
def wrongCollection (line : Nat) (tag : Tag) (wanted : String) : Mismatch :=
  .wrongKind line tag (if tag = .sequence || tag = .mapping then none else some "") wanted

/-- The key that a node gives where keys have to be texts. -/
def textKey : Node → Decoding (Option Atom)
  | .scalar _ tag text style => do
    visit
    match ← Atom.ofScalar tag text style with
    | .null => return none
    | a => return some (if tag = some .binary then a else .text text)
  | .sequence line tag _ => do
    visit
    note [wrongCollection line (tag.getD .sequence) "string"]
    return none
  | .mapping line tag entries => do
    visit
    match repeatedKeys entries with
    | [] => note [wrongCollection line (tag.getD .mapping) "string"]
    | ms => note ms
    return none
  | .reference _ _ target => do
    visit
    following (textKey target)
  | .cycle _ name => throw (.containsItself name)

/-- The key that a value gives. Only atoms can be keys. -/
def atomKey : Option Value → Decoding (Option Atom)
  | none => return none
  | some (.atom a) => return some a
  | some v => throw (.invalidKey v.spelled)

/-- A map while it is filled. While other mappings are merged into it, the keys in `taken` stay as
they are. -/
structure Filling where
  entries : List (Atom × Value) := []
  taken : Option (List Atom) := none

namespace Filling

/-- Whether an entry with this key is left out. -/
def isTaken (f : Filling) (k : Atom) : Bool :=
  f.taken.any (·.contains k)

def take (f : Filling) (k : Atom) : Filling :=
  { f with taken := f.taken.map (k :: ·) }

/-- Sets the value of a key. -/
def put (f : Filling) (k : Atom) (v : Value) : Filling :=
  { f with entries :=
      if f.entries.any (·.1 == k) then f.entries.map fun e => if e.1 == k then (k, v) else e
      else f.entries ++ [(k, v)] }

end Filling

mutual

/-- The value of a node. A mapping with repeated keys has none. -/
def value : Node → Decoding (Option Value)
  | .scalar _ tag text style => do
    visit
    return some (.atom (← Atom.ofScalar tag text style))
  | .sequence _ _ items => do
    visit
    return some (.list (← values items))
  | .mapping _ _ entries => do
    visit
    let texts := entries.all fun e => isText e.1
    return (← mapping texts entries {}).map fun f => .map texts f.entries
  | .reference _ _ target => do
    visit
    following (value target)
  | .cycle _ name => throw (.containsItself name)
termination_by n => (sizeOf n, 0)

def values : List Node → Decoding (List Value)
  | [] => return []
  | n :: ns => do
    let v ← value n
    let vs ← values ns
    return v.toList ++ vs
termination_by ns => (sizeOf ns, 0)

/-- Adds the entries of a mapping, and after them those that it merges. -/
def mapping (texts : Bool) (entries : List (Node × Node)) (f : Filling) :
    Decoding (Option Filling) := do
  match repeatedKeys entries with
  | [] =>
    let f ← own texts entries f
    if entries.any fun e => isMerge e.1 then
      let taken ← match f.taken with
        | some ks => pure ks
        | none => keys entries
      let merged ← merge texts entries { f with taken := some taken }
      return some { merged with taken := if f.taken.isSome then merged.taken else none }
    else return some f
  | ms =>
    note ms
    return none
termination_by (sizeOf entries, 1)

/-- Adds the entries that a mapping writes out itself. -/
def own (texts : Bool) : List (Node × Node) → Filling → Decoding Filling
  | [], f => return f
  | (k, v) :: entries, f => do
    if isMerge k then own texts entries f
    else
      let key ← if texts then textKey k else do atomKey (← value k)
      match key with
      | none => own texts entries f
      | some key =>
        if f.isTaken key then own texts entries f
        else
          let f := f.take key
          match ← value v with
          | none => own texts entries f
          | some v => own texts entries (f.put key v)
termination_by entries => (sizeOf entries, 0)

/-- The keys of a mapping. -/
def keys : List (Node × Node) → Decoding (List Atom)
  | [] => return []
  | (k, _) :: entries => do
    let found ← value k
    let rest ← keys entries
    match found with
    | some (.atom a) => return a :: rest
    | _ => return rest
termination_by entries => (sizeOf entries, 0)

/-- Adds the entries that the last merge key of a mapping asks for. -/
def merge (texts : Bool) : List (Node × Node) → Filling → Decoding Filling
  | [], f => return f
  | (k, v) :: entries, f => do
    if isMerge k && !entries.any (fun e => isMerge e.1) then
      mergeOne texts true v f
    else merge texts entries f
termination_by entries => (sizeOf entries, 0)

/-- Adds the entries of a mapping to another, or of several where that is allowed. -/
def mergeOne (texts several : Bool) : Node → Filling → Decoding Filling
  | .mapping _ _ entries, f => do
    visit
    return (← mapping texts entries f).getD f
  | .reference _ _ (.mapping _ _ entries), f => do
    visit
    following do
      visit
      return (← mapping texts entries f).getD f
  | .sequence _ _ items, f => if several then mergeAll texts items f else throw .badMerge
  | .cycle _ name, _ => throw (.containsItself name)
  | _, _ => throw .badMerge
termination_by n => (sizeOf n, 0)

def mergeAll (texts : Bool) : List Node → Filling → Decoding Filling
  | [], f => return f
  | n :: ns, f => do
    let f ← mergeOne texts false n f
    mergeAll texts ns f
termination_by ns => (sizeOf ns, 0)

end

/-- The kind of value a document has to be. -/
def wanted : String := "map[string]interface \x7b\x7d"

/-- The entries of a document. One without content has none. -/
def document (n : Node) : Decoding (List (Atom × Value)) := do
  visit
  match n with
  | .scalar line tag text style =>
    visit
    match ← Atom.ofScalar tag text style with
    | .null => return []
    | a =>
      note [.wrongKind line (tag.getD a.tag) (some text) wanted]
      return []
  | .sequence line tag _ =>
    visit
    note [wrongCollection line (tag.getD .sequence) wanted]
    return []
  | .mapping _ _ entries =>
    visit
    match ← mapping true entries {} with
    | none => return []
    | some f => return f.entries
  | .reference _ name _ => throw (.unknownAnchor name)
  | .cycle _ name => throw (.containsItself name)

end Decoding

/-- The entries of the first document in a text. -/
def entries (text : String) : Except Error (List (String × Value)) := do
  match ← Node.parse? text with
  | none => return []
  | some n =>
    let (es, p) ← (Decoding.document n).run {}
    if !p.mismatches.isEmpty then throw (.mismatches p.mismatches)
    return es.filterMap fun e =>
      match e.1 with
      | .text k => some (k, e.2)
      | _ => none

end Yaml
end Abacus
