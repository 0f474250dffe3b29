import Abacus.Expr.Basic
import Abacus.Source.Token

/-!
# The grammar of expressions

A sum is made of products, a product of signed operands, and a signed operand is a primary, that
is an integer or a sum in parentheses, behind any number of signs. Binary operators group to the
left, so the left operand of an operator is a phrase of the level of the operator and the right
operand is one of the next tighter level.

A derivation has a tree and a depth. The tree does without parentheses, and the depth is the
largest number of operands that are begun and not finished at one time.
-/
namespace Abacus

namespace Bytes

/-- The number that a run of digits denotes, each of them by its place. -/
def placeValue : Bytes → Nat
  | [] => 0
  | b :: ds => (b.toNat - 48) * Nat.pow 10 ds.length + placeValue ds

theorem foldl_eq_placeValue (ds : Bytes) (n : Nat) :
    ds.foldl (fun n b => 10 * n + (b.toNat - 48)) n = n * Nat.pow 10 ds.length + placeValue ds := by
  induction ds generalizing n with
  | nil => simp [placeValue]
  | cons b ds ih =>
    rw [List.foldl_cons, ih, placeValue, List.length_cons, ← Nat.add_assoc]
    congr 1
    have hpow : Nat.pow 10 (ds.length + 1) = 10 * Nat.pow 10 ds.length := Nat.pow_succ'
    rw [hpow, Nat.add_mul, Nat.mul_comm 10 n, Nat.mul_assoc]

theorem readDecimal_eq_placeValue (ds : Bytes) : readDecimal ds = placeValue ds := by
  rw [readDecimal, foldl_eq_placeValue, Nat.zero_mul, Nat.zero_add]

end Bytes

namespace Token

def Legal (t : Token) : Prop :=
  ∀ b, t.kind ≠ .illegal b

def InRange (t : Token) : Prop :=
  t.kind = .int → Bytes.placeValue t.literal ≤ 9223372036854775807

end Token

namespace Grammar

inductive Level where
  | sum
  | product
  | signed
  | primary

namespace Level

def tighter : Level → Level
  | .sum => .product
  | .product => .signed
  | .signed => .primary
  | .primary => .primary

def rank : Level → Nat
  | .sum => 1
  | .product => 2
  | .signed => 3
  | .primary => 4

theorem rank_pos (l : Level) : 1 ≤ l.rank := by
  cases l <;> decide

theorem rank_le_tighter (l : Level) : l.rank ≤ l.tighter.rank := by
  cases l <;> decide

theorem rank_tighter {l : Level} (h : l.rank < 4) : l.tighter.rank = l.rank + 1 := by
  cases l with
  | primary => exact absurd h (Nat.lt_irrefl 4)
  | _ => rfl

theorem rank_inj {l l' : Level} (h : l.rank = l'.rank) : l = l' := by
  cases l <;> cases l' <;> first | rfl | cases h

end Level

inductive UnarySign : Token.Kind → UnaryOp → Prop
  | plus : UnarySign .plus .identity
  | minus : UnarySign .minus .negate

inductive BinarySign : Level → Token.Kind → BinaryOp → Prop
  | plus : BinarySign .sum .plus .add
  | minus : BinarySign .sum .minus .sub
  | star : BinarySign .product .star .mul
  | slash : BinarySign .product .slash .div

theorem UnarySign.legal {t : Token} {op : UnaryOp} (h : UnarySign t.kind op) : t.Legal := by
  intro b hb
  rw [hb] at h
  cases h

theorem BinarySign.legal {l : Level} {t : Token} {op : BinaryOp} (h : BinarySign l t.kind op) :
    t.Legal := by
  intro b hb
  rw [hb] at h
  cases h

theorem BinarySign.precedence_eq {l : Level} {k : Token.Kind} {op : BinaryOp}
    (h : BinarySign l k op) : op.precedence = l.rank := by
  cases h <;> rfl

/-- The tokens form a phrase of the level, with this tree and this depth. -/
inductive Derives : Level → List Token → Expr → Nat → Prop
  | int {t} : t.kind = .int →
      Derives .primary [t] (.int t.start t.literal (Int64.ofNat (Bytes.placeValue t.literal))) 1
  | group {t t' ts e n} : t.kind = .lparen → t'.kind = .rparen → Derives .sum ts e n →
      Derives .primary (t :: ts ++ [t']) e (1 + n)
  | unary {t op ts e n} : UnarySign t.kind op → Derives .signed ts e n →
      Derives .signed (t :: ts) (.unary t.start (.known op) e) (1 + n)
  | binary {l t op xs ys x y m n} : BinarySign l t.kind op → Derives l xs x m →
      Derives l.tighter ys y n →
      Derives l (xs ++ t :: ys) (.binary t.start (.known op) x y) (max m (1 + n))
  | lift {l ts e n} : Derives l.tighter ts e n → Derives l ts e n

namespace Derives

variable {l l' : Level} {ts : List Token} {e : Expr} {n : Nat}

theorem loosen (h : Derives l ts e n) (hl : l'.rank ≤ l.rank) : Derives l' ts e n := by
  have hmax : l.rank ≤ 4 := by cases l <;> decide
  obtain ⟨k, hk⟩ := Nat.le.dest hl
  induction k generalizing l' with
  | zero => rwa [Level.rank_inj hk]
  | succ k ih =>
    have htighter : l'.tighter.rank = l'.rank + 1 := Level.rank_tighter (by omega)
    exact .lift (ih (by omega) (by omega))

theorem ne_nil (h : Derives l ts e n) : ts ≠ [] := by
  induction h with
  | int _ => exact List.cons_ne_nil _ _
  | group _ _ _ _ => exact List.cons_ne_nil _ _
  | unary _ _ _ => exact List.cons_ne_nil _ _
  | binary _ _ _ _ _ => simp
  | lift _ ih => exact ih

theorem legal (h : Derives l ts e n) : ∀ t ∈ ts, t.Legal := by
  induction h with
  | int ht => exact List.forall_mem_singleton.mpr (by simp [Token.Legal, ht])
  | group ht ht' _ ih =>
    refine List.forall_mem_append.mpr ⟨List.forall_mem_cons.mpr ⟨?_, ih⟩, ?_⟩
    · simp [Token.Legal, ht]
    · exact List.forall_mem_singleton.mpr (by simp [Token.Legal, ht'])
  | unary ht _ ih => exact List.forall_mem_cons.mpr ⟨ht.legal, ih⟩
  | binary ht _ _ ihx ihy =>
    exact List.forall_mem_append.mpr ⟨ihx, List.forall_mem_cons.mpr ⟨ht.legal, ihy⟩⟩
  | lift _ ih => exact ih

end Derives
end Grammar
end Abacus
