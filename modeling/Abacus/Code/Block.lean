/-!
# Blocks of code

An encoder puts code together from the code of operands. Blocks are joined in constant time and
laid out as a list once, when the whole program is known; a joint is laid out as its first part
followed by its second.
-/
namespace Abacus

inductive Block (ι : Type) where
  | single (i : ι)
  | joint (first second : Block ι)

namespace Block

variable {ι : Type}

/-- The instructions of a block in front of the code that follows. -/
def onto : Block ι → List ι → List ι
  | .single i, code => i :: code
  | .joint a b, code => a.onto (b.onto code)

def toList (b : Block ι) : List ι :=
  b.onto []

theorem onto_eq (b : Block ι) (code : List ι) : b.onto code = b.toList ++ code := by
  induction b generalizing code with
  | single i => rfl
  | joint a b iha ihb =>
    rw [toList, onto, onto, iha, iha (b.onto []), ihb, ihb [], List.append_nil, List.append_assoc]

@[simp]
theorem toList_single (i : ι) : (single i).toList = [i] :=
  rfl

@[simp]
theorem toList_joint (a b : Block ι) : (joint a b).toList = a.toList ++ b.toList := by
  rw [toList, onto, onto_eq]
  rfl

instance : Append (Block ι) :=
  ⟨joint⟩

@[simp]
theorem toList_append (a b : Block ι) : (a ++ b).toList = a.toList ++ b.toList :=
  toList_joint a b

end Block
end Abacus
