import Abacus.Agreement
import Abacus.Generator

/-!
# Checking random trees

A seed determines a sequence of trees. Each of them is checked for agreement, and the summary
counts the trees that pass and keeps the first failures.
-/
namespace Abacus

structure FuzzConfig where
  count : Int := 0
  seed : Int64 := 0
  /-- Zero or less takes the generator's own depth. -/
  maxDepth : Int := 0
  division : Bool := false
  large : Bool := false
  /-- How many failures are kept; zero or less keeps ten. -/
  maxFailures : Int := 0

structure FuzzFailure where
  index : Nat
  expr : String
  error : String

structure FuzzSummary where
  seed : Int64
  checked : Nat := 0
  passed : Nat := 0
  failed : Nat := 0
  failures : List FuzzFailure := []

namespace FuzzConfig

def generator (c : FuzzConfig) : Generator :=
  let g : Generator := { division := c.division, large := c.large }
  if c.maxDepth > 0 then g.withMaxDepth c.maxDepth else g

def keep (c : FuzzConfig) : Nat :=
  if c.maxFailures ≤ 0 then 10 else c.maxFailures.toNat

end FuzzConfig

/-- Several failures as one text. -/
def listFailures (texts : List String) : String :=
  let head := if texts.length = 1 then "1 error occurred:"
    else toString texts.length ++ " errors occurred:"
  head ++ "\n\t" ++ String.intercalate "\n\t" (texts.map ("* " ++ ·)) ++ "\n\n"

/-- What is wrong with a tree, if anything. -/
def verdict (e : Expr) : Option String :=
  match check e with
  | none => some "expression has no text"
  | some (.error f) => some f.text
  | some (.ok report) =>
    match report.discrepancies with
    | [] => none
    | ds => some (listFailures (ds.map (·.text)))

namespace FuzzSummary

def add (keep : Nat) (s : FuzzSummary) (e : Expr) : FuzzSummary :=
  match verdict e with
  | none => { s with checked := s.checked + 1, passed := s.passed + 1 }
  | some error =>
    let failures := if s.failures.length < keep
      then s.failures ++ [⟨s.checked, e.string?.getD "", error⟩] else s.failures
    { s with checked := s.checked + 1, failed := s.failed + 1, failures }

def ok (s : FuzzSummary) : Bool :=
  s.failed = 0

end FuzzSummary

/-- Draws and checks trees one after the other. -/
def fuzzFrom (g : Generator) (keep : Nat) : Nat → Lagged → FuzzSummary → FuzzSummary
  | 0, _, summary => summary
  | n + 1, s, summary =>
    let (e, s) := g.expr Randomness.seeded s
    fuzzFrom g keep n s (summary.add keep e)

def fuzz (c : FuzzConfig) : FuzzSummary :=
  fuzzFrom c.generator c.keep c.count.toNat (.ofSeed c.seed) { seed := c.seed }

end Abacus
