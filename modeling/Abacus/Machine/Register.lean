import Abacus.Code.Register
import Abacus.Machine.Basic

/-!
# Running register code

Both machines work on a store of the declared number of registers and leave the result in the
first one.
-/
namespace Abacus
namespace Register

/-- An effect that needs the given registers, checked in order. -/
def requiring {α : Type} (site : Location) (s : Store) (rs : List UInt8) (e : Effect α) :
    Effect α :=
  match rs.find? (s.size ≤ ·.toNat) with
  | some r => Effect.fault (Malformed.register site r s.size)
  | none => e

def set (site : Location) (ip : Nat) (s : Store) (dst : UInt8) (v : Int64) : Effect Store :=
  requiring site s [dst] (Effect.write ip s dst.toNat v)

def step (constants : Store) (ip : Nat) (i : Instr) (s : Store) : Effect Store :=
  let site : Location := ⟨ip, i.op⟩
  match i.op with
  | .loadInline => set site ip s i.dst i.literal
  | .loadConst => (Effect.constant site constants i.arg.toNat).andThen (set site ip s i.dst)
  | .binary op =>
    requiring site s [i.lhs, i.rhs, i.dst] <|
      (Effect.read ip s i.lhs.toNat).andThen fun a =>
        (Effect.read ip s i.rhs.toNat).andThen fun b =>
          (Effect.arithmetic site (Arithmetic.checked.binary op a b)).andThen fun r =>
            Effect.write ip s i.dst.toNat r
  | .negate =>
    requiring site s [i.lhs, i.dst] <|
      (Effect.read ip s i.lhs.toNat).andThen fun a =>
        (Effect.arithmetic site (Arithmetic.checked.negate a)).andThen fun r =>
          Effect.write ip s i.dst.toNat r
  | _ => Effect.fault (Malformed.opcode site)

def machine (constants : Store) : Machine Instr Store where
  opcode := (·.op)
  depth _ := 0
  step := step constants

def result (s : Store) : Except Stop Int64 :=
  if s.size = 0 then .error (.fault Malformed.noResult) else s.read 0

def size (p : Program Instr) : Except Stop Nat :=
  checkedSize "register" p.size maxRegisters

/-- The run on registers with any contents. -/
def runFrom (p : Program Instr) (store : Store) : Except Stop Int64 :=
  (machine p.constants).exec 0 p.code store >>= result

def run (p : Program Instr) : Except Stop Int64 := do
  let n ← size p
  runFrom p (Store.zeros n)

/-- The same run under an observer. -/
def observe {ω : Type} (o : Observer ω) (p : Program Instr) (w : ω) : Except Stop Int64 × ω :=
  match size p with
  | .error stop => (.error stop, w)
  | .ok n =>
    let r := (machine p.constants).run o 0 p.code (Store.zeros n) w
    (r.1 >>= result, r.2)

/-- An instruction without checks; the result wraps. -/
def trustedStep (constants : Store) (ip : Nat) (i : Instr) (s : Store) : Except Stop Store :=
  match i.op with
  | .loadInline => s.write i.dst.toNat i.literal
  | .loadConst => do
    let v ← constants.read i.arg.toNat
    s.write i.dst.toNat v
  | .negate => do
    let a ← s.read i.lhs.toNat
    s.write i.dst.toNat (-a)
  | .binary op => do
    let a ← s.read i.lhs.toNat
    let b ← s.read i.rhs.toNat
    let r ← (Arithmetic.wrapping.binary op a b).mapError fun e =>
      .fault (Fault.arithmetic (some ⟨ip, i.op⟩) e)
    s.write i.dst.toNat r
  | _ => .error .stray

def trustedMachine (constants : Store) : Machine Instr Store where
  opcode := (·.op)
  depth _ := 0
  step ip i s := ([], trustedStep constants ip i s)

def trustedFrom (p : Program Instr) (store : Store) : Except Stop Int64 := do
  let s ← (trustedMachine p.constants).exec 0 p.code store
  s.read 0

def runTrusted (p : Program Instr) : Except Stop Int64 :=
  if p.trusted then trustedFrom p (Store.zeros p.size.toNat)
  else .error (.fault (Fault.untrusted "register"))

end Register
end Abacus
