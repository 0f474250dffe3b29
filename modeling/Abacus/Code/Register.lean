import Abacus.Code.Storage

/-!
# The register encoding

Three-address code. A tree is encoded into a destination register: the left operand goes to the
destination itself, and the right one to the next free register, which is given back afterwards.
Literals are placed as in the stack encoding.
-/
namespace Abacus
namespace Register

structure Instr where
  op : Opcode
  dst : UInt8 := 0
  lhs : UInt8 := 0
  rhs : UInt8 := 0
  arg : UInt16 := 0
deriving DecidableEq, Inhabited

def nameOf (r : UInt8) : String :=
  "r" ++ toString r.toNat

namespace Instr

/-- The literal held in the argument, with its sign. -/
def literal (i : Instr) : Int64 :=
  i.arg.toInt16.toInt64

def ofBinary (op : BinaryOp) (dst lhs rhs : UInt8) : Instr :=
  { op := .binary op, dst, lhs, rhs }

def ofNegate (dst src : UInt8) : Instr :=
  { op := .negate, dst, lhs := src }

def text (i : Instr) : String :=
  match i.op with
  | .loadInline => i.op.name ++ " " ++ nameOf i.dst ++ ", " ++ toString i.literal.toInt
  | .loadConst => i.op.name ++ " " ++ nameOf i.dst ++ ", #" ++ toString i.arg.toNat
  | .negate => i.op.name ++ " " ++ nameOf i.dst ++ ", " ++ nameOf i.lhs
  | .binary _ =>
    i.op.name ++ " " ++ nameOf i.dst ++ ", " ++ nameOf i.lhs ++ ", " ++ nameOf i.rhs
  | op => op.name

end Instr

/-- What encoding a tree adds to: the pool, and the registers in use. -/
structure State where
  pool : Pool := {}
  registers : Registers := {}

/-- The load of a literal into a register, through the pool where it does not fit. -/
def load (v : Int64) (dst : UInt8) (pool : Pool) : Except Fault (Instr × Pool) :=
  if fitsInline v then .ok ({ op := .loadInline, dst, arg := v.toInt16.toUInt16 }, pool)
  else do
    let (i, pool) ← pool.add v
    return ({ op := .loadConst, dst, arg := i }, pool)

def encode : Expr → UInt8 → State → Except Fault (Block Instr × State)
  | .hole _, _, _ => .error (Fault.compile .missingNode)
  | .int _ _ v, dst, s => do
    let (i, pool) ← load v dst s.pool
    return (.single i, { s with pool })
  | .unary _ (.unknown c) _, _, _ => .error (Fault.unknownUnary c)
  | .unary _ (.known .identity) x, dst, s => encode x dst s
  | .unary _ (.known .negate) x, dst, s => do
    let (cx, s) ← encode x dst s
    return (cx ++ .single (.ofNegate dst dst), s)
  | .binary _ (.unknown c) _ _, _, _ => .error (Fault.unknownBinary c)
  | .binary _ (.known op) x y, dst, s => do
    let (cx, s) ← encode x dst s
    let (rhs, registers) ← s.registers.alloc
    let (cy, s) ← encode y rhs { s with registers }
    return (cx ++ cy ++ .single (.ofBinary op dst dst rhs),
      { s with registers := s.registers.free rhs })

def compile (e : Expr) : Except Fault (Program Instr) := do
  let (dst, registers) ← Registers.alloc {}
  let (block, s) ← encode e dst { registers }
  return {
    code := block.toList, constants := s.pool.values, size := s.registers.peak, origin := .compiler }

def stats (p : Program Instr) : Stats where
  instructions := p.code.length
  constants := p.constants.size
  inlineLiterals := p.code.countP (·.op = .loadInline)
  poolLiterals := p.code.countP (·.op = .loadConst)
  storageSize := p.size

end Register
end Abacus
