import Abacus.Proofs.CompiledRuns
import Abacus.Proofs.RoundTrip

/-!
# Trees recovered from code

Code in postorder says which operands belong to which operator: to carry out its actions on a
stack of trees, joining them instead of computing, leaves the tree that was encoded. Only unary
plus is missing, for which there is no action. So two trees have the same code exactly if they are
equal up to unary plus, positions and the text of literals.
-/
namespace Abacus

/-- An action on a stack of trees: an operator takes its operands and puts itself above them. -/
def Action.graft : List Expr → Action → List Expr
  | stk, .load v => .ofInt v :: stk
  | x :: stk, .negate => .ofUnary .negate x :: stk
  | y :: x :: stk, .binary op => .ofBinary op x y :: stk
  | stk, _ => stk

namespace Expr

def withoutPlus : Expr → Expr
  | .hole kind => .hole kind
  | .int p literal v => .int p literal v
  | .unary _ (.known .identity) x => x.withoutPlus
  | .unary p op x => .unary p op x.withoutPlus
  | .binary p op x y => .binary p op x.withoutPlus y.withoutPlus

/-- The actions of a tree put it together on top of whatever trees are there. -/
theorem graft_actions {e : Expr} (h : e.WellFormed) (stk : List Expr) :
    e.actions.foldl Action.graft stk = e.withoutPlus.bare :: stk := by
  induction h generalizing stk with
  | int => rfl
  | @unary p op x _ ih =>
    cases op with
    | identity => exact ih stk
    | negate =>
      rw [actions, List.foldl_append, ih]
      rfl
  | binary _ _ ihx ihy =>
    rw [actions, List.foldl_append, List.foldl_append, ihx, ihy]
    rfl

theorem eq_of_actions_eq {e₁ e₂ : Expr} (h₁ : e₁.WellFormed) (h₂ : e₂.WellFormed)
    (h : e₁.actions = e₂.actions) : e₁.withoutPlus.bare = e₂.withoutPlus.bare := by
  have hgraft : e₁.withoutPlus.bare :: [] = e₂.withoutPlus.bare :: [] := by
    rw [← graft_actions h₁, ← graft_actions h₂, h]
  exact List.head_eq_of_cons_eq hgraft

end Expr

theorem Aligned.unique {ι : Type} {Does : ι → Nat → Action → Prop}
    (hunique : ∀ i d a b, Does i d a → Does i d b → a = b) {d : Nat} {code : List ι}
    {acts acts' : List Action} (h : Aligned Does d code acts) (h' : Aligned Does d code acts') :
    acts = acts' := by
  induction h generalizing acts' with
  | nil =>
    cases h'
    rfl
  | cons hi _ ih =>
    cases h' with
    | cons hi' htail =>
      cases hunique _ _ _ _ hi hi'
      rw [ih htail]

/-- An encoder whose instructions each stand for one action, with the constants at hand, and that
makes nothing of a unary plus, of positions or of the text of literals. -/
structure Legible {ι : Type} (compile : Expr → Except Fault (Program ι)) where
  Does : Store → ι → Nat → Action → Prop
  unique : ∀ constants i d a b, Does constants i d a → Does constants i d b → a = b
  aligned : ∀ e p, compile e = .ok p →
    e.WellFormed ∧ Aligned (Does p.constants) 0 p.code e.actions
  withoutPlus : ∀ e, compile e.withoutPlus.bare = compile e

/-- Legible code is that of one tree. -/
theorem Legible.code_eq_iff {ι : Type} {compile : Expr → Except Fault (Program ι)}
    (L : Legible compile) {e₁ e₂ : Expr} {p q : Program ι} (hp : compile e₁ = .ok p)
    (hq : compile e₂ = .ok q) :
    p.code = q.code ∧ p.constants = q.constants ↔
      e₁.withoutPlus.bare = e₂.withoutPlus.bare := by
  constructor
  · rintro ⟨hcode, hconstants⟩
    obtain ⟨he₁, hc₁⟩ := L.aligned e₁ p hp
    obtain ⟨he₂, hc₂⟩ := L.aligned e₂ q hq
    rw [← hcode, ← hconstants] at hc₂
    exact Expr.eq_of_actions_eq he₁ he₂ (hc₁.unique (L.unique p.constants) hc₂)
  · intro htree
    have hq₁ : compile e₁ = .ok q := by
      rw [← L.withoutPlus, htree, L.withoutPlus, hq]
    cases hp.symm.trans hq₁
    exact ⟨rfl, rfl⟩

namespace Rpn

theorem encode_withoutPlus (e : Expr) : encode e.withoutPlus.bare = encode e := by
  induction e with
  | hole kind => rfl
  | int p literal v => rfl
  | unary p op x ih =>
    cases op with
    | unknown c => rfl
    | known op =>
      cases op with
      | identity => exact ih
      | negate => simp only [Expr.withoutPlus, Expr.bare, encode, ih]
  | binary p op x y ihx ihy =>
    cases op with
    | unknown c => rfl
    | known op => simp only [Expr.withoutPlus, Expr.bare, encode, ihx, ihy]

def legible : Legible compile where
  Does _ i _ a := i.action? = some a
  unique _ _ _ _ _ ha hb := Option.some.inj (ha.symm.trans hb)
  aligned _ _ h := ⟨(compile_ok h).1, (compile_ok h).2.2⟩
  withoutPlus e := by rw [compile, encode_withoutPlus, compile]

end Rpn

namespace Stack

theorem encode_withoutPlus (e : Expr) (s : State) : encode e.withoutPlus.bare s = encode e s := by
  induction e generalizing s with
  | hole kind => rfl
  | int p literal v => rfl
  | unary p op x ih =>
    cases op with
    | unknown c => rfl
    | known op =>
      cases op with
      | identity => exact ih s
      | negate => simp only [Expr.withoutPlus, Expr.bare, encode, ih]
  | binary p op x y ihx ihy =>
    cases op with
    | unknown c => rfl
    | known op => simp only [Expr.withoutPlus, Expr.bare, encode, ihx, ihy]

def legible : Legible compile where
  Does constants i _ a := i.action? constants = some a
  unique _ _ _ _ _ ha hb := Option.some.inj (ha.symm.trans hb)
  aligned _ _ h := ⟨(compile_ok h).1, (compile_ok h).2.2.2.2⟩
  withoutPlus e := by rw [compile, encode_withoutPlus, compile]

end Stack

namespace Register

theorem encode_withoutPlus (e : Expr) (dst : UInt8) (s : State) :
    encode e.withoutPlus.bare dst s = encode e dst s := by
  induction e generalizing dst s with
  | hole kind => rfl
  | int p literal v => rfl
  | unary p op x ih =>
    cases op with
    | unknown c => rfl
    | known op =>
      cases op with
      | identity => exact ih dst s
      | negate => simp only [Expr.withoutPlus, Expr.bare, encode, ih]
  | binary p op x y ihx ihy =>
    cases op with
    | unknown c => rfl
    | known op => simp only [Expr.withoutPlus, Expr.bare, encode, ihx, ihy]

def legible : Legible compile where
  Does constants i d a := i.Does constants d a
  unique _ _ _ _ _ ha hb := Option.some.inj (ha.1.symm.trans hb.1)
  aligned _ _ h := ⟨(compile_ok h).1, (compile_ok h).2.2.2.2.2⟩
  withoutPlus e := by simp only [compile, encode_withoutPlus]

end Register

/-- Two trees have the same code and constants exactly if they are equal up to unary plus,
positions and the text of literals, in each encoding that accepts them. -/
theorem code_determines_tree (e₁ e₂ : Expr) :
    (∀ p q, Rpn.compile e₁ = .ok p → Rpn.compile e₂ = .ok q →
      (p.code = q.code ∧ p.constants = q.constants ↔
        e₁.withoutPlus.bare = e₂.withoutPlus.bare)) ∧
    (∀ p q, Stack.compile e₁ = .ok p → Stack.compile e₂ = .ok q →
      (p.code = q.code ∧ p.constants = q.constants ↔
        e₁.withoutPlus.bare = e₂.withoutPlus.bare)) ∧
    ∀ p q, Register.compile e₁ = .ok p → Register.compile e₂ = .ok q →
      (p.code = q.code ∧ p.constants = q.constants ↔
        e₁.withoutPlus.bare = e₂.withoutPlus.bare) := by
  refine ⟨?_, ?_, ?_⟩
  · intro p q hp hq
    exact Rpn.legible.code_eq_iff hp hq
  · intro p q hp hq
    exact Stack.legible.code_eq_iff hp hq
  · intro p q hp hq
    exact Register.legible.code_eq_iff hp hq

/-- Signs that change nothing are not in the code, and a difference of differences shows which of
them is inside. -/
theorem code_of_nested_differences :
    ∃ p q r,
      Register.compile (.ofBinary .sub
        (.ofUnary .identity (.ofBinary .sub (.ofInt 9) (.ofUnary .identity (.ofInt 70000))))
        (.ofInt 5)) = .ok p ∧
      Register.compile (.ofBinary .sub (.ofBinary .sub (.ofInt 9) (.ofInt 70000)) (.ofInt 5)) =
        .ok q ∧
      Register.compile (.ofBinary .sub (.ofInt 9) (.ofBinary .sub (.ofInt 70000) (.ofInt 5))) =
        .ok r ∧
      (p.code = q.code ∧ p.constants = q.constants) ∧
      ¬ (p.code = r.code ∧ p.constants = r.constants) := by
  obtain ⟨p, hp⟩ : ∃ p, Register.compile (.ofBinary .sub
    (.ofUnary .identity (.ofBinary .sub (.ofInt 9) (.ofUnary .identity (.ofInt 70000))))
    (.ofInt 5)) = .ok p := ⟨_, rfl⟩
  obtain ⟨q, hq⟩ : ∃ q, Register.compile (.ofBinary .sub
    (.ofBinary .sub (.ofInt 9) (.ofInt 70000)) (.ofInt 5)) = .ok q := ⟨_, rfl⟩
  obtain ⟨r, hr⟩ : ∃ r, Register.compile (.ofBinary .sub (.ofInt 9)
    (.ofBinary .sub (.ofInt 70000) (.ofInt 5))) = .ok r := ⟨_, rfl⟩
  obtain ⟨_, _, hsame⟩ := code_determines_tree _ _
  obtain ⟨_, _, hother⟩ := code_determines_tree _ _
  refine ⟨p, q, r, hp, hq, hr, (hsame p q hp hq).mpr rfl, ?_⟩
  rw [hother p r hp hr]
  intro htree
  cases htree

end Abacus
