import Abacus.Machine.Malformed
import Abacus.Machine.Observer

/-!
# Running code

A machine is given by what one instruction does: the slots it touches, in order, and the state it
leaves. Running code folds this over the instructions and reports to an observer as it goes; it is
the same loop for every encoding.

Storage is an array, read and written by index. An access outside of it stops the machine as
stray. A machine that checks its operands never gets there, and one that does not relies on its
program.
-/
namespace Abacus

/-- Why a run ends without a result. -/
inductive Stop where
  | fault (f : Fault)
  | stray
deriving DecidableEq, Inhabited

abbrev Store := Array Int64

namespace Store

def zeros (n : Nat) : Store :=
  Array.replicate n 0

def read (s : Store) (i : Nat) : Except Stop Int64 :=
  match s[i]? with
  | some v => .ok v
  | none => .error .stray

def write (s : Store) (i : Nat) (v : Int64) : Except Stop Store :=
  if h : i < s.size then .ok (s.set i v h) else .error .stray

end Store

/-- A stack in a store: its first `sp` slots. -/
structure Slots where
  store : Store
  sp : Nat
deriving DecidableEq, Inhabited

/-- What an instruction did: the slots it touched, and what came of it. -/
abbrev Effect (α : Type) := List SlotEvent × Except Stop α

namespace Effect

variable {α β : Type}

def fault (f : Fault) : Effect α :=
  ([], .error (.fault f))

/-- Adds an effect that follows. -/
@[inline]
def andThen (e : Effect α) (next : α → Effect β) : Effect β :=
  match e with
  | (touched, .ok a) =>
    let r := next a
    (touched ++ r.1, r.2)
  | (touched, .error stop) => (touched, .error stop)

def read (ip : Nat) (s : Store) (slot : Nat) : Effect Int64 :=
  match s.read slot with
  | .ok v => ([⟨ip, slot, false, v⟩], .ok v)
  | .error stop => ([], .error stop)

def write (ip : Nat) (s : Store) (slot : Nat) (v : Int64) : Effect Store :=
  match s.write slot v with
  | .ok s => ([⟨ip, slot, true, v⟩], .ok s)
  | .error stop => ([], .error stop)

/-- A result of arithmetic at an instruction. -/
def arithmetic (site : Location) (r : Except ArithmeticError α) : Effect α :=
  match r with
  | .ok v => ([], .ok v)
  | .error e => fault (Fault.arithmetic (some site) e)

/-- A constant, after its index has been checked. -/
def constant (site : Location) (constants : Store) (index : Nat) : Effect Int64 :=
  if constants.size ≤ index then fault (Malformed.constant site index constants.size)
  else ([], constants.read index)

end Effect

/-- A declared storage size, which has to be in range before anything is stored. -/
def checkedSize (kind : String) (size : Int) (limit : Nat) : Except Stop Nat :=
  if size < 0 ∨ limit < size then .error (.fault (Malformed.storage kind size limit))
  else .ok size.toNat

structure Machine (ι σ : Type) where
  opcode : ι → Opcode
  /-- The depth reported with a step. -/
  depth : σ → Nat
  step : Nat → ι → σ → Effect σ

namespace Machine

variable {ι σ ω : Type}

/-- Runs code from the instruction number `ip`. -/
def run (m : Machine ι σ) (o : Observer ω) : Nat → List ι → σ → ω → Except Stop σ × ω
  | _, [], s, w => (.ok s, w)
  | ip, i :: code, s, w =>
    match o.step ⟨ip, m.opcode i, m.depth s⟩ w with
    | (false, w) => (.error (.fault (Fault.halted ⟨ip, m.opcode i⟩)), w)
    | (true, w) =>
      match m.step ip i s with
      | (touched, .error stop) => (.error stop, o.slots touched w)
      | (touched, .ok s) => run m o (ip + 1) code s (o.slots touched w)

/-- Runs code that nobody observes. -/
def exec (m : Machine ι σ) (ip : Nat) : List ι → σ → Except Stop σ
  | [], s => .ok s
  | i :: code, s =>
    match m.step ip i s with
    | (_, .error stop) => .error stop
    | (_, .ok s) => exec m (ip + 1) code s

end Machine
end Abacus
