import Abacus.Failure
import Abacus.Listing
import Abacus.Machine.Register
import Abacus.Machine.Rpn
import Abacus.Machine.Stack
import Abacus.Source.Parse

/-!
# Evaluating source text

A backend is one of the three encodings, and a mode says which of its machines runs the program.
Evaluation reads the source, encodes the tree, and runs the result; the first of these that fails
gives the answer.
-/
namespace Abacus

inductive Backend where
  | rpn
  | stack
  | register
deriving DecidableEq, Inhabited

namespace Backend

def all : List Backend :=
  [.rpn, .stack, .register]

def name : Backend → String
  | .rpn => "rpn"
  | .stack => "stack"
  | .register => "register"

def ofName? (name : String) : Option Backend :=
  all.find? (·.name == name)

/-- The backend of a name that a caller has chosen. -/
def select (name : String) : Except Failure Backend :=
  match ofName? name with
  | some b => .ok b
  | none => .error (.words ("unknown backend " ++ Quoted.string name))

/-- The backend of a name that a user has typed. -/
def parse (name : Bytes) : Except Failure Backend :=
  match all.find? fun b => Bytes.ofString b.name == name with
  | some b => .ok b
  | none =>
    .error (.words ("unknown backend " ++ Quoted.bytes name ++
      " (want rpn, stack or register)"))

end Backend

inductive Mode where
  | checked
  | trusted
deriving DecidableEq, Inhabited

namespace Mode

def all : List Mode :=
  [.checked, .trusted]

def name : Mode → String
  | .checked => "checked"
  | .trusted => "trusted"

def ofName? (name : String) : Option Mode :=
  all.find? (·.name == name)

/-- The mode of a name that a caller has chosen. -/
def select (name : String) : Except Failure Mode :=
  match ofName? name with
  | some m => .ok m
  | none => .error (.words ("unknown mode " ++ Quoted.string name))

/-- The mode of a name that a user has typed. -/
def parse (name : Bytes) : Except Failure Mode :=
  match all.find? fun m => Bytes.ofString m.name == name with
  | some m => .ok m
  | none =>
    .error (.words ("unknown mode " ++ Quoted.bytes name ++ " (want checked or trusted)"))

end Mode

/-- A program in one of the encodings. -/
inductive Executable where
  | rpn (p : Program Rpn.Instr)
  | stack (p : Program Stack.Instr)
  | register (p : Program Register.Instr)

namespace Executable

def backend : Executable → Backend
  | .rpn _ => .rpn
  | .stack _ => .stack
  | .register _ => .register

def trusted : Executable → Bool
  | .rpn p => p.trusted
  | .stack p => p.trusted
  | .register p => p.trusted

def stats : Executable → Stats
  | .rpn p => Rpn.stats p
  | .stack p => Stack.stats p
  | .register p => Register.stats p

def listing : Executable → Listing
  | .rpn p => Rpn.listing p
  | .stack p => Stack.listing p
  | .register p => Register.listing p

def run : Executable → Except Stop Int64
  | .rpn p => Rpn.run p
  | .stack p => Stack.run p
  | .register p => Register.run p

def runTrusted : Executable → Except Stop Int64
  | .rpn p => Rpn.runTrusted p
  | .stack p => Stack.runTrusted p
  | .register p => Register.runTrusted p

def observe {ω : Type} (o : Observer ω) (w : ω) : Executable → Except Stop Int64 × ω
  | .rpn p => Rpn.observe o p w
  | .stack p => Stack.observe o p w
  | .register p => Register.observe o p w

end Executable

def compile (b : Backend) (e : Expr) : Except Fault Executable :=
  match b with
  | .rpn => (Rpn.compile e).map .rpn
  | .stack => (Stack.compile e).map .stack
  | .register => (Register.compile e).map .register

namespace Failure

def ofStop : Stop → Failure
  | .fault f => .fault f
  | .stray => .words "stray access to storage"

end Failure

structure EvalOptions where
  backend : String := "register"
  mode : String := "checked"
  maxDepth : Int := 0
  interruption : Option Interruption := none

/-- A depth of zero or less leaves the limit of the reader as it is. -/
def EvalOptions.limits (opts : EvalOptions) : Limits :=
  if 0 < opts.maxDepth then ⟨opts.maxDepth, opts.interruption⟩
  else { interruption := opts.interruption }

/-- The tree of a source text. -/
def EvalOptions.read (opts : EvalOptions) (source : Bytes) : Except ParseError Expr :=
  parse source opts.limits

/-- The program of a source text. -/
def prepare (opts : EvalOptions) (source : Bytes) : Except Failure Executable := do
  let e ← (opts.read source).mapError .rejected
  let b ← Backend.select opts.backend
  (compile b e).mapError .fault

/-- Runs a program in the mode of a name; only checked runs are observed. -/
def Executable.runMode {ω : Type} (o : Observer ω) (w : ω) (mode : String) (x : Executable) :
    Except Failure Int64 × ω :=
  match Mode.select mode with
  | .error e => (.error e, w)
  | .ok .checked =>
    let r := x.observe o w
    (r.1.mapError .ofStop, r.2)
  | .ok .trusted => (x.runTrusted.mapError .ofStop, w)

def evaluateObserved {ω : Type} (o : Observer ω) (w : ω) (opts : EvalOptions) (source : Bytes) :
    Except Failure Int64 × ω :=
  match prepare opts source with
  | .error e => (.error e, w)
  | .ok x => x.runMode o w opts.mode

def evaluate (opts : EvalOptions) (source : Bytes) : Except Failure Int64 :=
  (evaluateObserved .idle () opts source).1

end Abacus
