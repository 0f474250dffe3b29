import Abacus.Text.GraphemeBreak

/-!
# Grapheme clusters

A cluster is what a reader takes for one character: a base with its marks, a Hangul syllable in
parts, a pair of regional indicators, or pictographs held together by joiners. Whether a cluster
goes on at a character depends on the break property of that character and on a state that sums up
the characters before it.
-/
namespace Abacus
namespace Cluster

/-- What the characters so far leave open. -/
inductive State where
  | closed
  | carriageReturn
  | control
  | leading
  | vowel
  | trailing
  | prepend
  | pictograph
  | joinedPictograph
  /-- An odd number of regional indicators in a row. -/
  | regional
deriving DecidableEq, Inhabited

namespace State

/-- The state after a character, whatever came before it. -/
def after : GraphemeBreak → State
  | .carriageReturn => .carriageReturn
  | .lineFeed => .control
  | .control => .control
  | .leading => .leading
  | .vowel => .vowel
  | .openSyllable => .vowel
  | .trailing => .trailing
  | .closedSyllable => .trailing
  | .prepend => .prepend
  | .pictograph => .pictograph
  | .regional => .regional
  | .extend => .closed
  | .joiner => .closed
  | .spacingMark => .closed
  | .other => .closed

def next (s : State) (b : GraphemeBreak) : State :=
  match s, b with
  | .pictograph, .extend => .pictograph
  | .pictograph, .joiner => .joinedPictograph
  | .regional, .regional => .closed
  | _, b => after b

def endsLine : GraphemeBreak → Bool
  | .carriageReturn => true
  | .lineFeed => true
  | .control => true
  | _ => false

/-- Whether a character belongs to the cluster before it because of what it is. -/
def isMark : GraphemeBreak → Bool
  | .extend => true
  | .joiner => true
  | .spacingMark => true
  | _ => false

/-- Whether a cluster goes on at a character. -/
def joins (s : State) (b : GraphemeBreak) : Bool :=
  match s, b with
  | .carriageReturn, b => b = .lineFeed
  | .control, _ => false
  | .leading, .leading => true
  | .leading, .vowel => true
  | .leading, .openSyllable => true
  | .leading, .closedSyllable => true
  | .vowel, .vowel => true
  | .vowel, .trailing => true
  | .trailing, .trailing => true
  | .prepend, b => !endsLine b
  | .joinedPictograph, .pictograph => true
  | .regional, .regional => true
  | _, b => isMark b

end State

/-- The characters that end the cluster begun before them, and the clusters after it. -/
def splitFrom (s : State) : List Char → List Char × List (List Char)
  | [] => ([], [])
  | c :: cs =>
    let b := GraphemeBreak.ofChar c
    let r := splitFrom (s.next b) cs
    if s.joins b then (c :: r.1, r.2) else ([], (c :: r.1) :: r.2)

/-- The clusters of a text. -/
def split (cs : List Char) : List (List Char) :=
  match splitFrom .closed cs with
  | ([], clusters) => clusters
  | (first, clusters) => first :: clusters

end Cluster
end Abacus
