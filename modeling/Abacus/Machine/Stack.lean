import Abacus.Code.Stack
import Abacus.Machine.Basic

/-!
# Running stack code

Both machines hold the stack in a store of the declared size. The checked one first makes sure
that the size is no larger than the number of instructions, since every slot needs a load to fill
it.
-/
namespace Abacus
namespace Stack

def push (site : Location) (ip : Nat) (s : Slots) (v : Int64) : Effect Slots :=
  if s.store.size ≤ s.sp then Effect.fault (Malformed.overflow site s.sp s.store.size)
  else (Effect.write ip s.store s.sp v).andThen fun store => ([], .ok ⟨store, s.sp + 1⟩)

def step (constants : Store) (ip : Nat) (i : Instr) (s : Slots) : Effect Slots :=
  let site : Location := ⟨ip, i.op⟩
  match i.op with
  | .loadInline => push site ip s i.literal
  | .loadConst => (Effect.constant site constants i.arg.toNat).andThen (push site ip s)
  | .binary op =>
    if s.sp < 2 then Effect.fault (Malformed.underflow site s.sp 2)
    else
      (Effect.read ip s.store (s.sp - 1)).andThen fun b =>
        (Effect.read ip s.store (s.sp - 2)).andThen fun a =>
          (Effect.arithmetic site (Arithmetic.checked.binary op a b)).andThen fun r =>
            (Effect.write ip s.store (s.sp - 2) r).andThen fun store =>
              ([], .ok ⟨store, s.sp - 1⟩)
  | .negate =>
    if s.sp < 1 then Effect.fault (Malformed.underflow site s.sp 1)
    else
      (Effect.read ip s.store (s.sp - 1)).andThen fun a =>
        (Effect.arithmetic site (Arithmetic.checked.negate a)).andThen fun r =>
          (Effect.write ip s.store (s.sp - 1) r).andThen fun store => ([], .ok ⟨store, s.sp⟩)
  | _ => Effect.fault (Malformed.opcode site)

def machine (constants : Store) : Machine Instr Slots where
  opcode := (·.op)
  depth := (·.sp)
  step := step constants

/-- A balanced program leaves exactly its result. -/
def result (s : Slots) : Except Stop Int64 :=
  if s.sp = 1 then s.store.read 0 else .error (.fault (Malformed.imbalance s.sp))

def size (p : Program Instr) : Except Stop Nat :=
  checkedSize "stack" p.size p.code.length

/-- The run on a store with any contents. -/
def runFrom (p : Program Instr) (store : Store) : Except Stop Int64 :=
  (machine p.constants).exec 0 p.code ⟨store, 0⟩ >>= result

def run (p : Program Instr) : Except Stop Int64 := do
  let n ← size p
  runFrom p (Store.zeros n)

/-- The same run under an observer. -/
def observe {ω : Type} (o : Observer ω) (p : Program Instr) (w : ω) : Except Stop Int64 × ω :=
  match size p with
  | .error stop => (.error stop, w)
  | .ok n =>
    let r := (machine p.constants).run o 0 p.code ⟨Store.zeros n, 0⟩ w
    (r.1 >>= result, r.2)

/-- An instruction without checks; the result wraps. -/
def trustedStep (constants : Store) (ip : Nat) (i : Instr) (s : Slots) : Except Stop Slots :=
  match i.op, s.sp with
  | .loadInline, sp => do
    let store ← s.store.write sp i.literal
    return ⟨store, sp + 1⟩
  | .loadConst, sp => do
    let v ← constants.read i.arg.toNat
    let store ← s.store.write sp v
    return ⟨store, sp + 1⟩
  | .negate, sp + 1 => do
    let a ← s.store.read sp
    let store ← s.store.write sp (-a)
    return ⟨store, sp + 1⟩
  | .binary op, sp + 2 => do
    let a ← s.store.read sp
    let b ← s.store.read (sp + 1)
    let r ← (Arithmetic.wrapping.binary op a b).mapError fun e =>
      .fault (Fault.arithmetic (some ⟨ip, i.op⟩) e)
    let store ← s.store.write sp r
    return ⟨store, sp + 1⟩
  | _, _ => .error .stray

def trustedMachine (constants : Store) : Machine Instr Slots where
  opcode := (·.op)
  depth := (·.sp)
  step ip i s := ([], trustedStep constants ip i s)

def trustedFrom (p : Program Instr) (store : Store) : Except Stop Int64 := do
  let s ← (trustedMachine p.constants).exec 0 p.code ⟨store, 0⟩
  s.store.read 0

def runTrusted (p : Program Instr) : Except Stop Int64 :=
  if p.trusted then trustedFrom p (Store.zeros p.size.toNat)
  else .error (.fault (Fault.untrusted "stack"))

end Stack
end Abacus
