import Abacus.Backend
import Abacus.Expr.Printer
import Abacus.Expr.Value

/-!
# Agreement of all runs

A tree is evaluated directly, and its six runs, three encodings in two modes, are compared with
that: a checked run with the exact value, a trusted one with the wrapped value. Failures agree
when a run fails in arithmetic for the same cause. The slots that a successful checked run
touches have to be as many as were declared.
-/
namespace Abacus

structure Outcome where
  value : Int64
  failure : Option Failure
deriving DecidableEq, Inhabited

/-- What failures are compared by: the arithmetic cause, or else the whole text. -/
def Failure.essence (e : Failure) : String :=
  match e.cause? with
  | some (.arithmetic c) => c.text
  | _ => e.text

namespace Outcome

def of (value : Int64) (failure : Option Failure) : Outcome :=
  ⟨if failure.isSome then 0 else value, failure⟩

def ofResult : Except Failure Int64 → Outcome
  | .ok v => ⟨v, none⟩
  | .error e => ⟨0, some e⟩

def ofEval (r : Except Fault Int64) : Outcome :=
  ofResult (r.mapError .fault)

def ofRun (r : Except Stop Int64) : Outcome :=
  ofResult (r.mapError .ofStop)

/-- The text of the failure; empty for a value. -/
def message (o : Outcome) : String :=
  match o.failure with
  | some e => e.text
  | none => ""

def text (o : Outcome) : String :=
  match o.failure with
  | some e => "error: " ++ e.essence
  | none => toString o.value.toInt

def agrees (want got : Outcome) : Bool :=
  match want.failure, got.failure with
  | none, none => want.value = got.value
  | some w, some g => g.isArithmetic && w.essence == g.essence
  | _, _ => false

end Outcome

inductive Discrepancy where
  | outcome (backend mode want got : String)
  | size (backend : String) (computed observed : Int)
deriving DecidableEq, Inhabited

namespace Discrepancy

def text : Discrepancy → String
  | .outcome backend mode want got =>
    backend ++ "/" ++ mode ++ ": want " ++ want ++ ", got " ++ got
  | .size backend computed observed =>
    backend ++ ": computed storage size " ++ toString computed ++ ", observed " ++
      toString observed

end Discrepancy

structure RunReport where
  backend : Backend
  mode : Mode
  outcome : Outcome
  /-- The slots touched by a checked run; zero for a trusted one. -/
  peak : Nat

structure Report where
  expr : String
  oracle : Outcome
  wrapping : Outcome
  runs : List RunReport
  rpnDepth : Int
  stackSize : Int
  registerCount : Int

namespace Report

/-- The two runs of a program. -/
def runsOf (x : Executable) : List RunReport :=
  let r := x.observe SlotUsage.observer {}
  [⟨x.backend, .checked, .ofRun r.1, r.2.peak⟩, ⟨x.backend, .trusted, .ofRun x.runTrusted, 0⟩]

/-- Everything of a run that is not as it should be. -/
def discrepanciesOf (oracle wrapping : Outcome) (size : Int) (r : RunReport) :
    List Discrepancy :=
  let want := match r.mode with
    | .checked => oracle
    | .trusted => wrapping
  let outcome := if want.agrees r.outcome then []
    else [.outcome r.backend.name r.mode.name want.text r.outcome.text]
  let size := if r.mode = .checked ∧ r.outcome.failure = none ∧ (r.peak : Int) ≠ size
    then [.size r.backend.name size r.peak] else []
  outcome ++ size

def size (r : Report) : Backend → Int
  | .rpn => r.rpnDepth
  | .stack => r.stackSize
  | .register => r.registerCount

def discrepancies (r : Report) : List Discrepancy :=
  r.runs.flatMap fun run => discrepanciesOf r.oracle r.wrapping (r.size run.backend) run

end Report

/-- Compares the runs of a tree. The answer is a report or, where some encoder refuses the tree,
its fault. A tree that has no text but fails in arithmetic before a hole is reached has neither. -/
def check (e : Expr) : Option (Except Failure Report) :=
  match e.eval with
  | .error f@⟨.compile, _, _, _⟩ => some (.error (.fault f))
  | oracle => do
    let expr ← e.string?
    return do
      let rpn ← (compile .rpn e).mapError .fault
      let stack ← (compile .stack e).mapError .fault
      let register ← (compile .register e).mapError .fault
      return {
        expr, oracle := .ofEval oracle, wrapping := .ofEval e.wrapping
        runs := [rpn, stack, register].flatMap Report.runsOf
        rpnDepth := rpn.stats.storageSize
        stackSize := stack.stats.storageSize
        registerCount := register.stats.storageSize }

end Abacus
