import Abacus.Code.Storage

/-!
# The rpn encoding

Instructions in postfix order on a stack that grows as needed. A literal is part of its load, so
there is no pool.
-/
namespace Abacus
namespace Rpn

structure Instr where
  op : Opcode
  value : Int64 := 0
deriving DecidableEq, Inhabited

namespace Instr

def load (v : Int64) : Instr := ⟨.loadInt, v⟩

def ofOp (op : Opcode) : Instr := ⟨op, 0⟩

def text (i : Instr) : String :=
  match i.op with
  | .loadInt => i.op.name ++ " " ++ toString i.value.toInt
  | op => op.name

end Instr

/-- The code of a tree, in postfix order. A unary plus leaves nothing behind. -/
def encode : Expr → Except Fault (Block Instr)
  | .hole _ => .error (Fault.compile .missingNode)
  | .int _ _ v => .ok (.single (.load v))
  | .unary _ (.unknown c) _ => .error (Fault.unknownUnary c)
  | .unary _ (.known .identity) x => encode x
  | .unary _ (.known .negate) x => do
    let cx ← encode x
    return cx ++ .single (.ofOp .negate)
  | .binary _ (.unknown c) _ _ => .error (Fault.unknownBinary c)
  | .binary _ (.known op) x y => do
    let cx ← encode x
    let cy ← encode y
    return cx ++ cy ++ .single (.ofOp (.binary op))

/-- The depth that the stack of a program reaches, by the effects of its opcodes. -/
def depth (code : List Instr) : Int :=
  Depth.peak (code.map (·.op))

def compile (e : Expr) : Except Fault (Program Instr) := do
  let block ← encode e
  return { code := block.toList, origin := .compiler }

def stats (p : Program Instr) : Stats where
  instructions := p.code.length
  constants := 0
  inlineLiterals := p.code.countP (·.op = .loadInt)
  poolLiterals := 0
  storageSize := depth p.code

end Rpn
end Abacus
