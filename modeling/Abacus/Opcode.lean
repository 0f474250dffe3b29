import Abacus.Expr.Basic

/-!
# Opcodes

Eight opcodes do something. Code zero is reserved and marked invalid, and the rest of the byte
range is free for programs put together by hand to get wrong.
-/
namespace Abacus

inductive Opcode where
  | invalid
  | loadInt
  | loadInline
  | loadConst
  | binary (op : BinaryOp)
  | negate
  | other (code : UInt8)
deriving DecidableEq, Inhabited

namespace Opcode

def ofCode (code : UInt8) : Opcode :=
  if code = 0 then .invalid
  else if code = 10 then .loadInt
  else if code = 11 then .loadInline
  else if code = 12 then .loadConst
  else if code = 20 then .binary .add
  else if code = 21 then .binary .sub
  else if code = 22 then .binary .mul
  else if code = 23 then .binary .div
  else if code = 24 then .negate
  else .other code

def code : Opcode → UInt8
  | .invalid => 0
  | .loadInt => 10
  | .loadInline => 11
  | .loadConst => 12
  | .binary .add => 20
  | .binary .sub => 21
  | .binary .mul => 22
  | .binary .div => 23
  | .negate => 24
  | .other c => c

/-- The name of an opcode; one that is not in use has none. -/
def name : Opcode → String
  | .invalid => "INVALID"
  | .loadInt => "LOAD_INT"
  | .loadInline => "LOAD_INLINE"
  | .loadConst => "LOAD_CONST"
  | .binary .add => "ADD"
  | .binary .sub => "SUB"
  | .binary .mul => "MUL"
  | .binary .div => "DIV"
  | .negate => "NEGATE"
  | .other _ => ""

def isKnown : Opcode → Bool
  | .other _ => false
  | _ => true

/-- Whether a machine can execute the opcode. -/
def isValid : Opcode → Bool
  | .invalid => false
  | .other _ => false
  | _ => true

def isBinary : Opcode → Bool
  | .binary _ => true
  | _ => false

def isLoad : Opcode → Bool
  | .loadInt => true
  | .loadInline => true
  | .loadConst => true
  | _ => false

def symbol : Opcode → String
  | .binary op => Bytes.toText [op.symbol]
  | .negate => Bytes.toText [UnaryOp.negate.symbol]
  | _ => ""

/-- The change in the depth of the operand stack. -/
def stackEffect : Opcode → Int
  | .loadInt => 1
  | .loadInline => 1
  | .loadConst => 1
  | .binary _ => -1
  | _ => 0

/-- The number of an opcode in the form shown where it has no name. -/
def numbered (op : Opcode) : String :=
  "op(" ++ toString op.code.toNat ++ ")"

/-- How locations name an opcode. -/
def label (op : Opcode) : String :=
  if op.isKnown then op.name else op.numbered

/-- How listings name an opcode: only what can be executed goes by its name. -/
def listed (op : Opcode) : String :=
  if op.isValid then op.name else op.numbered

end Opcode

/-- The limits of the encodings: literals of sixteen bits, a pool indexed by sixteen bits, and
registers numbered by eight. -/
def fitsInline (v : Int64) : Bool :=
  -32768 ≤ v && v ≤ 32767

def maxConstants : Nat := UInt16.size

def maxRegisters : Nat := UInt8.size

end Abacus
