import Abacus.Code.Register
import Abacus.Code.Rpn
import Abacus.Code.Stack
import Abacus.Text.Table

/-!
# Listings

A program is listed line by line: the offset, the name and the operands of an instruction, and a
note on its effect. In the stack encodings the note is the depth after the instruction, added up
from the effects of the opcodes; in the register encoding it is the assignment made.
-/
namespace Abacus

inductive Annotation where
  | none
  | depth (d : Int)
  /-- The depth after a load from the pool, and the constant if there is one. -/
  | constant (d : Int) (v : Option Int64)
  | assignment (dst : UInt8) (value : String)
deriving DecidableEq, Inhabited

structure ListingLine where
  offset : Nat
  name : String
  operands : List String
  annotation : Annotation
deriving DecidableEq, Inhabited

abbrev Listing := List ListingLine

namespace Listing

def constantText : Option Int64 → String
  | some v => toString v.toInt
  | none => "<out of range>"

end Listing

namespace Annotation

def text : Annotation → String
  | .none => ""
  | .depth d => "depth " ++ toString d
  | .constant d v => "depth " ++ toString d ++ ", " ++ Listing.constantText v
  | .assignment dst value => Register.nameOf dst ++ " = " ++ value

end Annotation

namespace Rpn

def lineOf (offset : Nat) (d : Int) (i : Instr) : ListingLine :=
  let operands := match i.op with
    | .loadInt => [toString i.value.toInt]
    | _ => []
  ⟨offset, i.op.listed, operands, .depth d⟩

/-- Lists code from an offset and a depth on. -/
def listFrom (offset : Nat) (d : Int) : List Instr → Listing
  | [] => []
  | i :: code =>
    let d := d + i.op.stackEffect
    lineOf offset d i :: listFrom (offset + 1) d code

def listing (p : Program Instr) : Listing :=
  listFrom 0 0 p.code

end Rpn

namespace Stack

def lineOf (constants : Array Int64) (offset : Nat) (d : Int) (i : Instr) : ListingLine :=
  match i.op with
  | .loadInline => ⟨offset, i.op.listed, [toString i.literal.toInt], .depth d⟩
  | .loadConst =>
    ⟨offset, i.op.listed, ["#" ++ toString i.arg.toNat], .constant d constants[i.arg.toNat]?⟩
  | op => ⟨offset, op.listed, [], .depth d⟩

/-- Lists code from an offset and a depth on. -/
def listFrom (constants : Array Int64) (offset : Nat) (d : Int) : List Instr → Listing
  | [] => []
  | i :: code =>
    let d := d + i.op.stackEffect
    lineOf constants offset d i :: listFrom constants (offset + 1) d code

def listing (p : Program Instr) : Listing :=
  listFrom p.constants 0 0 p.code

end Stack

namespace Register

def lineOf (constants : Array Int64) (offset : Nat) (i : Instr) : ListingLine :=
  let line := fun operands note =>
    (⟨offset, i.op.listed, nameOf i.dst :: operands, .assignment i.dst note⟩ : ListingLine)
  match i.op with
  | .loadInline => line [toString i.literal.toInt] (toString i.literal.toInt)
  | .loadConst =>
    line ["#" ++ toString i.arg.toNat] (Listing.constantText constants[i.arg.toNat]?)
  | .negate => line [nameOf i.lhs] ("-" ++ nameOf i.lhs)
  | .binary _ =>
    line [nameOf i.lhs, nameOf i.rhs] (nameOf i.lhs ++ " " ++ i.op.symbol ++ " " ++ nameOf i.rhs)
  | op => ⟨offset, op.listed, [], .none⟩

def listing (p : Program Instr) : Listing :=
  p.code.mapIdx (lineOf p.constants)

end Register

namespace Listing

/-- A listing as a table; with colors the names stand out. -/
def render (colors : Bool) (l : Listing) : String :=
  let rows := l.map fun line =>
    [toString line.offset, Style.cyan.paint colors line.name,
      String.intercalate ", " line.operands, line.annotation.text]
  Table.text ["OFFSET", "OPCODE", "OPERANDS", "INFO"] rows [.right, .left, .left, .left]

end Listing
end Abacus
