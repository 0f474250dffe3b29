import Abacus.Arithmetic
import Abacus.Opcode

/-!
# Faults of encoders and machines

A fault has a kind, a message, and where they are known the cause and the instruction at which it
was raised. Every listed cause has a code, which classes causes by their first digit: 2 for trees
that cannot be encoded, 3 for arithmetic, 4 for malformed programs, 5 for refused or halted runs.
-/
namespace Abacus

inductive Cause where
  | tooManyConstants
  | tooManyRegisters
  | missingNode
  | unknownOperator
  | arithmetic (e : ArithmeticError)
  | stackUnderflow
  | stackOverflow
  | stackImbalance
  | slotOutOfRange
  | constantOutOfRange
  | unknownOpcode
  | untrusted
  | halted
  | other (text : String)
deriving DecidableEq, Inhabited

namespace Cause

def text : Cause → String
  | .tooManyConstants => "number of constants exceeded limits"
  | .tooManyRegisters => "number of registers exceeded limits"
  | .missingNode => "nil expression"
  | .unknownOperator => "unknown expression type"
  | .arithmetic e => e.text
  | .stackUnderflow => "stack underflow"
  | .stackOverflow => "stack overflow"
  | .stackImbalance => "stack imbalance"
  | .slotOutOfRange => "slot out of range"
  | .constantOutOfRange => "constant index out of range"
  | .unknownOpcode => "unknown opcode"
  | .untrusted => "program was not produced by the compiler"
  | .halted => "execution halted by observer"
  | .other text => text

/-- The code of a cause; a cause that is not listed has the empty one. -/
def code : Cause → String
  | .tooManyConstants => "E2001"
  | .tooManyRegisters => "E2002"
  | .missingNode => "E2003"
  | .unknownOperator => "E2004"
  | .arithmetic .divisionByZero => "E3001"
  | .arithmetic .overflow => "E3002"
  | .stackUnderflow => "E4001"
  | .stackOverflow => "E4002"
  | .stackImbalance => "E4003"
  | .slotOutOfRange => "E4004"
  | .constantOutOfRange => "E4005"
  | .unknownOpcode => "E4006"
  | .untrusted => "E5001"
  | .halted => "E5002"
  | .other _ => ""

def listed : List Cause :=
  [.tooManyConstants, .tooManyRegisters, .missingNode, .unknownOperator,
    .arithmetic .divisionByZero, .arithmetic .overflow, .stackUnderflow, .stackOverflow,
    .stackImbalance, .slotOutOfRange, .constantOutOfRange, .unknownOpcode, .untrusted, .halted]

def ofCode? (code : String) : Option Cause :=
  listed.find? (·.code == code)

/-- The text that stands for a cause in a message, also for one that is missing. -/
def shown : Option Cause → String
  | some c => c.text
  | none => "%!s(<nil>)"

end Cause

/-- The instruction at which a fault was raised. -/
structure Location where
  ip : Int
  opcode : Opcode
deriving DecidableEq, Inhabited

namespace Location

def text (l : Location) : String :=
  "ip " ++ toString l.ip ++ ", " ++ l.opcode.label

end Location

namespace Fault

inductive Kind where
  | arithmetic
  | invariant
  | compile
  | runtime
  | other
deriving DecidableEq, Inhabited

def Kind.name : Kind → String
  | .arithmetic => "arithmetic error"
  | .invariant => "internal invariant error"
  | .compile => "compile error"
  | .runtime => "runtime error"
  | .other => "error"

end Fault

structure Fault where
  kind : Fault.Kind
  message : String
  cause : Option Cause := none
  site : Option Location := none
deriving DecidableEq, Inhabited

namespace Fault

def code (f : Fault) : String :=
  match f.cause with
  | some c => c.code
  | none => ""

def siteText (f : Fault) : String :=
  match f.site with
  | some l => l.text
  | none => ""

/-- The fault on one line. -/
def text (f : Fault) : String :=
  let head := f.kind.name ++ ": " ++ f.message
  match f.site with
  | none => head
  | some l => head ++ " (" ++ l.text ++ ")"

/-- The fault as shown to a reader, with its code and, on a line of its own, its place. -/
def friendly (f : Fault) : String :=
  let code := if f.code.isEmpty then "" else "[" ++ f.code ++ "]"
  let head := f.kind.name ++ code ++ ": " ++ f.message ++ "\n"
  match f.site with
  | none => head
  | some l => head ++ " --> " ++ l.text ++ "\n"

def ofCause (kind : Kind) (site : Option Location) (cause : Option Cause) : Fault :=
  ⟨kind, Cause.shown cause, cause, site⟩

/-- A violated invariant; the detail follows the cause in the message. -/
def invariantOf (site : Option Location) (cause : Option Cause) (detail : String) : Fault :=
  let shown := Cause.shown cause
  ⟨.invariant, if detail.isEmpty then shown else shown ++ ": " ++ detail, cause, site⟩

def compile (cause : Cause) : Fault :=
  ofCause .compile none (some cause)

def arithmetic (site : Option Location) (e : ArithmeticError) : Fault :=
  ofCause .arithmetic site (some (.arithmetic e))

def invariant (site : Option Location) (cause : Cause) (detail : String) : Fault :=
  invariantOf site (some cause) detail

def unknownUnary (code : UInt8) : Fault :=
  { kind := .compile, message := "unknown unary operator " ++ toString code.toNat,
    cause := some .unknownOperator }

def unknownBinary (code : UInt8) : Fault :=
  { kind := .compile, message := "unknown binary operator " ++ toString code.toNat,
    cause := some .unknownOperator }

def halted (site : Location) : Fault :=
  ofCause .runtime (some site) (some .halted)

def untrusted (encoding : String) : Fault :=
  { kind := .runtime, message := "refusing " ++ encoding ++ " program: " ++ Cause.untrusted.text,
    cause := some .untrusted }

end Fault
end Abacus
