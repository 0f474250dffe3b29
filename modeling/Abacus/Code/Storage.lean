import Abacus.Code.Block
import Abacus.Code.Program

/-!
# Constants, stack slots and registers

What the encoders keep count of. The pool hands out an index for each literal, also for equal
ones; the depth counter remembers the highest depth; registers are taken in ascending order, and
freeing one frees all above it.
-/
namespace Abacus

structure Pool where
  values : Array Int64 := #[]

namespace Pool

@[inline]
def add (pool : Pool) (v : Int64) : Except Fault (UInt16 × Pool) :=
  if pool.values.size < maxConstants then
    .ok (UInt16.ofNat pool.values.size, ⟨pool.values.push v⟩)
  else .error (Fault.compile .tooManyConstants)

/-- The entry at an index, if there is one. -/
def at? (pool : Pool) (i : Int) : Option Int64 :=
  if i < 0 then none else pool.values[i.toNat]?

end Pool

structure StackDepth where
  current : Int := 0
  peak : Int := 0
deriving DecidableEq, Inhabited

namespace StackDepth

def push (d : StackDepth) : StackDepth :=
  let n := d.current + 1
  ⟨n, if d.peak < n then n else d.peak⟩

def pop (d : StackDepth) : StackDepth :=
  { d with current := d.current - 1 }

end StackDepth

structure Registers where
  live : Nat := 0
  peak : Nat := 0
deriving DecidableEq, Inhabited

namespace Registers

def alloc (r : Registers) : Except Fault (UInt8 × Registers) :=
  if r.live < maxRegisters then
    let n := r.live + 1
    .ok (UInt8.ofNat r.live, ⟨n, if r.peak < n then n else r.peak⟩)
  else .error (Fault.compile .tooManyRegisters)

def free (r : Registers) (reg : UInt8) : Registers :=
  { r with live := reg.toNat }

end Registers
end Abacus
