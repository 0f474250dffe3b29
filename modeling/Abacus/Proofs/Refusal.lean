import Abacus.Backend
import Abacus.Proofs.Encoding

/-!
# Trees that are refused

A tree with a hole or with an operator that names none is evaluated by nobody. The evaluator and
the encoders come to the nodes in the same order, so the first such node decides the answer of
all of them, except that an evaluation may fail in arithmetic before it gets there. Encoders may
also run out of constants or registers; all their faults are of one kind.
-/
namespace Abacus

namespace Expr

/-- The cause for which a tree is refused: that of its first malformed node in preorder. -/
def defect? : Expr → Option Cause
  | .hole _ => some .missingNode
  | .int _ _ _ => none
  | .unary _ (.unknown _) _ => some .unknownOperator
  | .unary _ (.known _) x => x.defect?
  | .binary _ (.unknown _) _ _ => some .unknownOperator
  | .binary _ (.known _) x y => x.defect?.or y.defect?

theorem defect?_eq_none_iff {e : Expr} : e.defect? = none ↔ e.WellFormed := by
  constructor
  · intro h
    induction e with
    | hole kind => cases h
    | int p literal v => exact .int
    | unary p op x ih =>
      cases op with
      | unknown c => cases h
      | known op => exact .unary (ih h)
    | binary p op x y ihx ihy =>
      cases op with
      | unknown c => cases h
      | known op =>
        obtain ⟨hx, hy⟩ := Option.or_eq_none_iff.mp h
        exact .binary (ihx hx) (ihy hy)
  · intro h
    induction h with
    | int => rfl
    | unary _ ih => exact ih
    | binary _ _ ihx ihy => exact Option.or_eq_none_iff.mpr ⟨ihx, ihy⟩

/-- What an evaluation comes to: a value, a failure of arithmetic, or the defect of the tree. -/
inductive Judged (e : Expr) : Except Fault Int64 → Prop
  | value {v} : e.defect? = none → Judged e (.ok v)
  | arithmetic {c} : Judged e (.error (Fault.arithmetic none c))
  | defect {c} : e.defect? = some c → Judged e (.error (Fault.compile c))

theorem judged_of_arithmetic {e : Expr} (h : e.defect? = none)
    (r : Except ArithmeticError Int64) : Judged e (r.mapError (Fault.arithmetic none)) := by
  cases r with
  | ok v => exact .value h
  | error c => exact .arithmetic

theorem judged_evalWith (arith : Arithmetic) (e : Expr) : Judged e (e.evalWith arith) := by
  induction e with
  | hole kind => exact .defect rfl
  | int p literal v => exact .value rfl
  | unary p op x ih =>
    cases op with
    | unknown c => exact .defect rfl
    | known op =>
      rw [evalWith]
      generalize x.evalWith arith = rx at ih
      cases ih with
      | value hx =>
        have hunary : defect? (.unary p (.known op) x) = none := hx
        exact judged_of_arithmetic hunary _
      | arithmetic => exact .arithmetic
      | defect hx => exact .defect hx
  | binary p op x y ihx ihy =>
    cases op with
    | unknown c => exact .defect rfl
    | known op =>
      rw [evalWith]
      generalize x.evalWith arith = rx at ihx
      generalize y.evalWith arith = ry at ihy
      cases ihx with
      | arithmetic => exact .arithmetic
      | defect hx =>
        refine .defect ?_
        rw [defect?, hx, Option.some_or]
      | value hx =>
        have hor : defect? (.binary p (.known op) x y) = y.defect? := by
          rw [defect?, hx, Option.none_or]
        cases ihy with
        | arithmetic => exact .arithmetic
        | defect hy => exact .defect (hor.trans hy)
        | value hy => exact judged_of_arithmetic (hor.trans hy) _

end Expr

namespace Rpn

/-- The encoder without limits refuses a tree for its defect and for nothing else. -/
theorem encode_cases (e : Expr) :
    (e.defect? = none ∧ ∃ b, encode e = .ok b) ∨
      ∃ c f, e.defect? = some c ∧ encode e = .error f ∧ f.kind = .compile ∧ f.cause = some c := by
  induction e with
  | hole kind => exact Or.inr ⟨_, _, rfl, rfl, rfl, rfl⟩
  | int p literal v => exact Or.inl ⟨rfl, _, rfl⟩
  | unary p op x ih =>
    cases op with
    | unknown c => exact Or.inr ⟨_, _, rfl, rfl, rfl, rfl⟩
    | known op =>
      cases op with
      | identity => exact ih
      | negate =>
        rw [encode, Expr.defect?]
        rcases ih with ⟨hx, b, hb⟩ | ⟨c, f, hx, hf, hkind, hcause⟩
        · rw [hb]
          exact Or.inl ⟨hx, _, rfl⟩
        · rw [hf]
          exact Or.inr ⟨c, f, hx, rfl, hkind, hcause⟩
  | binary p op x y ihx ihy =>
    cases op with
    | unknown c => exact Or.inr ⟨_, _, rfl, rfl, rfl, rfl⟩
    | known op =>
      rw [encode, Expr.defect?]
      rcases ihx with ⟨hx, b, hb⟩ | ⟨c, f, hx, hf, hkind, hcause⟩
      · rw [hx, hb, Option.none_or, ok_bind]
        rcases ihy with ⟨hy, b', hb'⟩ | ⟨c, f, hy, hf, hkind, hcause⟩
        · rw [hb']
          exact Or.inl ⟨hy, _, rfl⟩
        · rw [hf]
          exact Or.inr ⟨c, f, hy, rfl, hkind, hcause⟩
      · rw [hx, hf]
        exact Or.inr ⟨c, f, rfl, rfl, hkind, hcause⟩

theorem compile_cases (e : Expr) :
    (e.defect? = none ∧ ∃ p, compile e = .ok p) ∨
      ∃ c f, e.defect? = some c ∧ compile e = .error f ∧ f.kind = .compile ∧ f.cause = some c := by
  rw [compile]
  rcases encode_cases e with ⟨hnone, b, hb⟩ | ⟨c, f, hc, hf, hkind, hcause⟩
  · rw [hb]
    exact Or.inl ⟨hnone, _, rfl⟩
  · rw [hf]
    exact Or.inr ⟨c, f, hc, rfl, hkind, hcause⟩

end Rpn

def CompileOnly {α : Type} (r : Except Fault α) : Prop :=
  ∀ f, r = .error f → f.kind = .compile

namespace CompileOnly

variable {α β : Type}

theorem ok (a : α) : CompileOnly (.ok a) := by
  intro f h
  cases h

theorem error {f : Fault} (hf : f.kind = .compile) : CompileOnly (.error f : Except Fault α) := by
  intro g h
  cases h
  exact hf

theorem bind {r : Except Fault α} {k : α → Except Fault β} (hr : CompileOnly r)
    (hk : ∀ a, CompileOnly (k a)) : CompileOnly (r >>= k) := by
  intro f h
  rcases bind_eq_error.mp h with hf | ⟨a, _, hf⟩
  · exact hr f hf
  · exact hk a f hf

end CompileOnly

theorem Pool.compileOnly_add (pool : Pool) (v : Int64) : CompileOnly (pool.add v) := by
  unfold add
  split
  · exact .ok _
  · exact .error rfl

theorem Registers.compileOnly_alloc (r : Registers) : CompileOnly r.alloc := by
  unfold alloc
  split
  · exact .ok _
  · exact .error rfl

theorem Rpn.compileOnly_encode (e : Expr) : CompileOnly (encode e) := by
  rcases encode_cases e with ⟨_, b, hb⟩ | ⟨c, f, _, hf, hkind, _⟩
  · rw [hb]
    exact .ok _
  · rw [hf]
    exact .error hkind

theorem Stack.compileOnly_load (v : Int64) (pool : Pool) : CompileOnly (Stack.load v pool) := by
  unfold load
  split
  · exact .ok _
  · exact (pool.compileOnly_add v).bind fun _ => .ok _

theorem Stack.compileOnly_encode (e : Expr) (s : State) : CompileOnly (encode e s) := by
  induction e generalizing s with
  | hole kind => exact .error rfl
  | int p literal v => exact (compileOnly_load v s.pool).bind fun _ => .ok _
  | unary p op x ih =>
    cases op with
    | unknown c => exact .error rfl
    | known op =>
      cases op with
      | identity => exact ih s
      | negate => exact (ih s).bind fun _ => .ok _
  | binary p op x y ihx ihy =>
    cases op with
    | unknown c => exact .error rfl
    | known op => exact (ihx s).bind fun _ => (ihy _).bind fun _ => .ok _

theorem Register.compileOnly_load (v : Int64) (dst : UInt8) (pool : Pool) :
    CompileOnly (Register.load v dst pool) := by
  rw [load_eq]
  exact (Stack.compileOnly_load v pool).bind fun _ => .ok _

theorem Register.compileOnly_encode (e : Expr) (dst : UInt8) (s : State) :
    CompileOnly (encode e dst s) := by
  induction e generalizing dst s with
  | hole kind => exact .error rfl
  | int p literal v => exact (compileOnly_load v dst s.pool).bind fun _ => .ok _
  | unary p op x ih =>
    cases op with
    | unknown c => exact .error rfl
    | known op =>
      cases op with
      | identity => exact ih dst s
      | negate => exact (ih dst s).bind fun _ => .ok _
  | binary p op x y ihx ihy =>
    cases op with
    | unknown c => exact .error rfl
    | known op =>
      refine (ihx dst s).bind fun _ => (Registers.compileOnly_alloc _).bind fun _ => ?_
      exact (ihy _ _).bind fun _ => .ok _

theorem compileOnly_compile (b : Backend) (e : Expr) : CompileOnly (compile b e) := by
  cases b with
  | rpn =>
    exact ((Rpn.compileOnly_encode e).bind fun _ => .ok _).bind fun _ => .ok _
  | stack =>
    exact ((Stack.compileOnly_encode e _).bind fun _ => .ok _).bind fun _ => .ok _
  | register =>
    refine ((Registers.compileOnly_alloc _).bind fun _ => ?_).bind fun _ => .ok _
    exact (Register.compileOnly_encode e _ _).bind fun _ => .ok _

/-- How the answer of an evaluator goes with that of an encoder that looks at every node. -/
structure RefusedAlike {α : Type} (code : Except Fault α) (value : Except Fault Int64) : Prop where
  /-- The evaluator finds fault only with what the encoder finds fault with. -/
  of_value : ∀ f, value = .error f → f.kind = .compile → ∃ c g, f.cause = some c ∧
    code = .error g ∧ g.kind = .compile ∧ g.cause = some c
  /-- What the encoder refuses has no value: the evaluator comes to the same fault, unless the
  arithmetic fails before. -/
  of_error : ∀ g, code = .error g → ∃ c f, g.cause = some c ∧ value = .error f ∧
    (f.kind = .compile ∧ f.cause = some c ∨ ∃ a, f = Fault.arithmetic none a)
  of_ok : ∀ p, code = .ok p → ∀ f, value = .error f → f.kind ≠ .compile

theorem refusedAlike_evalWith (arith : Arithmetic) (e : Expr) :
    RefusedAlike (Rpn.compile e) (e.evalWith arith) := by
  have hjudged := e.judged_evalWith arith
  refine ⟨?_, ?_, ?_⟩
  · intro f hf hkind
    rw [hf] at hjudged
    cases hjudged with
    | arithmetic => cases hkind
    | defect hsome =>
      rcases Rpn.compile_cases e with ⟨hnone, _⟩ | ⟨c, g, hdefect, hg, hg'⟩
      · cases hnone.symm.trans hsome
      · cases hdefect.symm.trans hsome
        exact ⟨_, g, rfl, hg, hg'⟩
  · intro g hg
    rcases Rpn.compile_cases e with ⟨_, p, hp⟩ | ⟨c, g', hdefect, hg', _, hcause⟩
    · cases hg.symm.trans hp
    · cases hg.symm.trans hg'
      generalize e.evalWith arith = r at hjudged
      cases hjudged with
      | value hnone => cases hdefect.symm.trans hnone
      | arithmetic => exact ⟨c, _, hcause, rfl, Or.inr ⟨_, rfl⟩⟩
      | defect hsome =>
        cases hdefect.symm.trans hsome
        exact ⟨c, _, hcause, rfl, Or.inl ⟨rfl, rfl⟩⟩
  · intro p hp f hf hkind
    rw [hf] at hjudged
    cases hjudged with
    | arithmetic => cases hkind
    | defect hsome =>
      rcases Rpn.compile_cases e with ⟨hnone, _⟩ | ⟨c, g, _, hg, _⟩
      · cases hnone.symm.trans hsome
      · cases hp.symm.trans hg

/-- On every tree, malformed or not, the evaluators and the encoder without limits refuse alike. -/
theorem evaluators_refuse_as_encoder (e : Expr) :
    RefusedAlike (Rpn.compile e) e.eval ∧ RefusedAlike (Rpn.compile e) e.wrapping :=
  ⟨refusedAlike_evalWith .checked e, refusedAlike_evalWith .wrapping e⟩

/-- To the left of a hole a sum overflows: only the evaluator that wraps gets to the hole. -/
example :
    let e := Expr.ofBinary .add (.ofBinary .add (.ofInt Int64.maxValue) (.ofInt 1)) (.hole .int)
    e.eval = .error (Fault.arithmetic none .overflow) ∧
      e.wrapping = .error (Fault.compile .missingNode) :=
  ⟨rfl, rfl⟩

end Abacus
