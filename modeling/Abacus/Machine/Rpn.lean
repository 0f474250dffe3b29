import Abacus.Code.Rpn
import Abacus.Machine.Basic

/-!
# Running rpn code

The checked machine keeps its operands at the end of an array that grows. The trusted one takes a
store of the depth that the opcodes' effects add up to, and does not look at what it does there.
-/
namespace Abacus
namespace Rpn

def step (ip : Nat) (i : Instr) (s : Store) : Effect Store :=
  let site : Location := ⟨ip, i.op⟩
  match i.op with
  | .loadInt => ([⟨ip, s.size, true, i.value⟩], .ok (s.push i.value))
  | .binary op =>
    if s.size < 2 then Effect.fault (Malformed.underflow site s.size 2)
    else
      (Effect.read ip s (s.size - 1)).andThen fun b =>
        (Effect.read ip s (s.size - 2)).andThen fun a =>
          (Effect.arithmetic site (Arithmetic.checked.binary op a b)).andThen fun r =>
            Effect.write ip s.pop (s.size - 2) r
  | .negate =>
    if s.size < 1 then Effect.fault (Malformed.underflow site s.size 1)
    else
      (Effect.read ip s (s.size - 1)).andThen fun a =>
        (Effect.arithmetic site (Arithmetic.checked.negate a)).andThen fun r =>
          Effect.write ip s (s.size - 1) r
  | _ => Effect.fault (Malformed.opcode site)

def machine : Machine Instr Store where
  opcode := (·.op)
  depth := (·.size)
  step := step

/-- A balanced program leaves exactly its result. -/
def result (s : Store) : Except Stop Int64 :=
  if s.size = 1 then s.read 0 else .error (.fault (Malformed.imbalance s.size))

def run (p : Program Instr) : Except Stop Int64 :=
  machine.exec 0 p.code #[] >>= result

/-- The same run under an observer. -/
def observe {ω : Type} (o : Observer ω) (p : Program Instr) (w : ω) : Except Stop Int64 × ω :=
  let r := machine.run o 0 p.code #[] w
  (r.1 >>= result, r.2)

/-- An instruction without checks; the result wraps. -/
def trustedStep (ip : Nat) (i : Instr) (s : Slots) : Except Stop Slots :=
  match i.op, s.sp with
  | .loadInt, sp => do
    let store ← s.store.write sp i.value
    return ⟨store, sp + 1⟩
  | .negate, sp + 1 => do
    let a ← s.store.read sp
    let store ← s.store.write sp (-a)
    return ⟨store, sp + 1⟩
  | .binary op, sp + 2 => do
    let a ← s.store.read sp
    let b ← s.store.read (sp + 1)
    let r ← (Arithmetic.wrapping.binary op a b).mapError fun e =>
      .fault (Fault.arithmetic (some ⟨ip, i.op⟩) e)
    let store ← s.store.write sp r
    return ⟨store, sp + 1⟩
  | _, _ => .error .stray

def trustedMachine : Machine Instr Slots where
  opcode := (·.op)
  depth := (·.sp)
  step ip i s := ([], trustedStep ip i s)

def trustedFrom (p : Program Instr) (store : Store) : Except Stop Int64 := do
  let s ← trustedMachine.exec 0 p.code ⟨store, 0⟩
  s.store.read 0

def runTrusted (p : Program Instr) : Except Stop Int64 :=
  if p.trusted then trustedFrom p (Store.zeros (depth p.code).toNat)
  else .error (.fault (Fault.untrusted "rpn"))

end Rpn
end Abacus
