import Abacus.Fault

/-!
# Programs

A program is a list of instructions with a constant pool and a declared storage size. Where it
came from decides whether it may run without checks: only what the encoders produce is trusted.
-/
namespace Abacus

inductive Origin where
  | compiler
  | unsealed
deriving DecidableEq, Inhabited

namespace Origin

def name : Origin → String
  | .compiler => "compiler"
  | .unsealed => "unsealed"

end Origin

structure Program (ι : Type) where
  code : List ι
  constants : Array Int64 := #[]
  size : Int := 0
  origin : Origin := .unsealed

def Program.trusted {ι : Type} (p : Program ι) : Bool :=
  p.origin = .compiler

/-- Counts over a program: its instructions, pool entries, literals held in instructions and
literals loaded from the pool, and the slots it needs. -/
structure Stats where
  instructions : Nat
  constants : Nat
  inlineLiterals : Nat
  poolLiterals : Nat
  storageSize : Int
deriving DecidableEq, Inhabited

namespace Depth

/-- The greatest depth that a list of opcodes reaches from an empty stack. -/
def peak (ops : List Opcode) : Int :=
  go 0 0 ops
where
  go (d top : Int) : List Opcode → Int
    | [] => top
    | op :: ops =>
      let d := d + op.stackEffect
      go d (if top < d then d else top) ops

end Depth
end Abacus
