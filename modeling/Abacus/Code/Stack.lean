import Abacus.Code.Storage

/-!
# The stack encoding

Postfix order on a stack of declared size. A literal of sixteen bits is part of its load, and any
other is an entry of the constant pool.
-/
namespace Abacus
namespace Stack

structure Instr where
  op : Opcode
  arg : UInt16 := 0
deriving DecidableEq, Inhabited

namespace Instr

def ofOp (op : Opcode) : Instr := ⟨op, 0⟩

/-- The literal held in the argument, with its sign. -/
def literal (i : Instr) : Int64 :=
  i.arg.toInt16.toInt64

def text (i : Instr) : String :=
  match i.op with
  | .loadInline => i.op.name ++ " " ++ toString i.literal.toInt
  | .loadConst => i.op.name ++ " #" ++ toString i.arg.toNat
  | op => op.name

end Instr

/-- What encoding a tree adds to: the pool, and the depth of the stack. -/
structure State where
  pool : Pool := {}
  depth : StackDepth := {}

/-- The load of a literal, through the pool where it does not fit. -/
def load (v : Int64) (pool : Pool) : Except Fault (Instr × Pool) :=
  if fitsInline v then .ok (⟨.loadInline, v.toInt16.toUInt16⟩, pool)
  else do
    let (i, pool) ← pool.add v
    return (⟨.loadConst, i⟩, pool)

def encode : Expr → State → Except Fault (Block Instr × State)
  | .hole _, _ => .error (Fault.compile .missingNode)
  | .int _ _ v, s => do
    let (i, pool) ← load v s.pool
    return (.single i, ⟨pool, s.depth.push⟩)
  | .unary _ (.unknown c) _, _ => .error (Fault.unknownUnary c)
  | .unary _ (.known .identity) x, s => encode x s
  | .unary _ (.known .negate) x, s => do
    let (cx, s) ← encode x s
    return (cx ++ .single (.ofOp .negate), s)
  | .binary _ (.unknown c) _ _, _ => .error (Fault.unknownBinary c)
  | .binary _ (.known op) x y, s => do
    let (cx, s) ← encode x s
    let (cy, s) ← encode y s
    return (cx ++ cy ++ .single (.ofOp (.binary op)), { s with depth := s.depth.pop })

def compile (e : Expr) : Except Fault (Program Instr) := do
  let (block, s) ← encode e {}
  return {
    code := block.toList, constants := s.pool.values, size := s.depth.peak, origin := .compiler }

def stats (p : Program Instr) : Stats where
  instructions := p.code.length
  constants := p.constants.size
  inlineLiterals := p.code.countP (·.op = .loadInline)
  poolLiterals := p.code.countP (·.op = .loadConst)
  storageSize := p.size

end Stack
end Abacus
