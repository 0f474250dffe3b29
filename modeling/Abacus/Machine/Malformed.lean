import Abacus.Fault

/-!
# Faults of malformed programs

What a checked machine says of a program that its operands, slots or constants do not allow. No
encoder produces one.
-/
namespace Abacus
namespace Malformed

def underflow (site : Location) (depth need : Nat) : Fault :=
  Fault.invariant (some site) .stackUnderflow
    ("depth " ++ toString depth ++ ", need " ++ toString need)

def overflow (site : Location) (slot size : Nat) : Fault :=
  Fault.invariant (some site) .stackOverflow
    ("slot " ++ toString slot ++ ", stack size " ++ toString size)

def imbalance (depth : Nat) : Fault :=
  Fault.invariant none .stackImbalance
    (toString depth ++ " values left on the stack, want 1")

def constant (site : Location) (index size : Nat) : Fault :=
  Fault.invariant (some site) .constantOutOfRange
    ("index " ++ toString index ++ ", pool size " ++ toString size)

def register (site : Location) (r : UInt8) (count : Nat) : Fault :=
  Fault.invariant (some site) .slotOutOfRange
    ("register r" ++ toString r.toNat ++ ", register count " ++ toString count)

def noResult : Fault :=
  Fault.invariant none .slotOutOfRange "result register 0, register count 0"

def storage (kind : String) (size : Int) (limit : Nat) : Fault :=
  Fault.invariant none .slotOutOfRange
    (kind ++ " size " ++ toString size ++ ", limit " ++ toString limit)

def opcode (site : Location) : Fault :=
  Fault.invariant (some site) .unknownOpcode ("opcode " ++ toString site.opcode.code.toNat)

end Malformed
end Abacus
