import Abacus.Fault
import Abacus.Source.Diagnostic

/-!
# Failures

Whatever a command can fail with: a rejected source text, a fault, a bare cause, or plain words.
A failure may stand inside a labelled context, which only prefixes its text.
-/
namespace Abacus

inductive Failure where
  | rejected (e : ParseError)
  | fault (f : Fault)
  | cause (c : Cause)
  | words (text : String)
  | within (label : String) (inner : Failure)
deriving DecidableEq, Inhabited

namespace Failure

/-- A context around a failure. Around none it still says that something was to be reported. -/
def wrap (label : String) : Option Failure → Failure
  | some inner => .within label inner
  | none => .within label (.words "%!w(<nil>)")

def text : Failure → String
  | .rejected e => e.diagnostic.message
  | .fault f => f.text
  | .cause c => c.text
  | .words t => t
  | .within label inner => label ++ ": " ++ inner.text

/-- The fault under all contexts. -/
def fault? : Failure → Option Fault
  | .fault f => some f
  | .within _ inner => inner.fault?
  | _ => none

def cause? : Failure → Option Cause
  | .fault f => f.cause
  | .cause c => some c
  | .within _ inner => inner.cause?
  | _ => none

def code (e : Failure) : String :=
  match e.cause? with
  | some c => c.code
  | none => ""

def kind? (e : Failure) : Option Fault.Kind :=
  e.fault?.map (·.kind)

def isArithmetic (e : Failure) : Bool :=
  e.kind? = some .arithmetic

def isInvariant (e : Failure) : Bool :=
  e.kind? = some .invariant

end Failure
end Abacus
