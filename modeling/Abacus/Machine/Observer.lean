import Abacus.Opcode

/-!
# Observers

An observer is told of the steps and of the slot accesses of a checked run, as far as its
configuration asks for them, and may end the run at a step. It carries a state of its own.
-/
namespace Abacus

structure StepEvent where
  ip : Nat
  opcode : Opcode
  /-- The depth of the operand stack before the instruction; zero on a register machine. -/
  depth : Nat
deriving DecidableEq, Inhabited

structure SlotEvent where
  ip : Nat
  slot : Nat
  write : Bool
  value : Int64
deriving DecidableEq, Inhabited

inductive StepMode where
  | all
  | none
  | sampled
  | other (code : UInt8)
deriving DecidableEq, Inhabited

namespace StepMode

def ofCode (code : UInt8) : StepMode :=
  if code = 0 then .all
  else if code = 1 then .none
  else if code = 2 then .sampled
  else .other code

def code : StepMode → UInt8
  | .all => 0
  | .none => 1
  | .sampled => 2
  | .other c => c

end StepMode

structure ObserverConfig where
  stepMode : StepMode
  interval : Int := 1000
  slots : Bool := true
deriving DecidableEq, Inhabited

namespace ObserverConfig

/-- An interval that is no distance counts as one. It matters only where steps are sampled. -/
def normalize (c : ObserverConfig) : ObserverConfig :=
  if c.stepMode = .sampled ∧ c.interval ≤ 0 then { c with interval := 1 } else c

/-- Whether the step at an instruction is reported. -/
def wantsStep (c : ObserverConfig) (ip : Nat) : Bool :=
  match c.stepMode with
  | .none => false
  | .sampled => (ip : Int) % c.interval = 0
  | _ => true

end ObserverConfig

structure Observer (ω : Type) where
  config : ObserverConfig
  /-- Told of a step before it is made; the answer `false` ends the run. -/
  onStep : StepEvent → ω → Bool × ω
  onSlot : SlotEvent → ω → ω

namespace Observer

variable {ω : Type}

def step (o : Observer ω) (e : StepEvent) (w : ω) : Bool × ω :=
  if o.config.normalize.wantsStep e.ip then o.onStep e w else (true, w)

def slots (o : Observer ω) (es : List SlotEvent) (w : ω) : ω :=
  if o.config.normalize.slots then es.foldl (fun w e => o.onSlot e w) w else w

/-- Asks for everything and does nothing. -/
def idle : Observer ω where
  config := { stepMode := .all }
  onStep _ w := (true, w)
  onSlot _ w := w

end Observer

/-- The number of slot accesses, and one more than the highest slot accessed. -/
structure SlotUsage where
  peak : Nat := 0
  accesses : Nat := 0
deriving DecidableEq, Inhabited

def SlotUsage.observer : Observer SlotUsage where
  config := { stepMode := .none }
  onStep _ u := (true, u)
  onSlot e u := ⟨max u.peak (e.slot + 1), u.accesses + 1⟩

end Abacus
