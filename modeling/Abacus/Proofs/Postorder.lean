import Abacus.Expr.Value
import Abacus.Proofs.Execution

/-!
# Trees in postorder

What every encoding of a tree has in common is the order of its steps: the operands from left to
right, then the operator. The steps are carried out here on a stack held as a list, which has no
bounds and no instruction format, and they compute what the evaluator computes on the tree. Each
machine is later compared with this one.
-/
namespace Abacus

namespace Expr

/-- A tree that can be evaluated: no hole, and no operator that names none. -/
inductive WellFormed : Expr → Prop
  | int {p literal v} : WellFormed (.int p literal v)
  | unary {p op x} : WellFormed x → WellFormed (.unary p (.known op) x)
  | binary {p op x y} : WellFormed x → WellFormed y → WellFormed (.binary p (.known op) x y)

/-- The number of slots that hold operands while a tree is evaluated. -/
def need : Expr → Nat
  | .hole _ => 0
  | .int _ _ _ => 1
  | .unary _ _ x => x.need
  | .binary _ _ x y => max x.need (1 + y.need)

theorem WellFormed.need_pos {e : Expr} (h : e.WellFormed) : 0 < e.need := by
  induction h with
  | int => exact Nat.one_pos
  | unary _ ih => exact ih
  | binary _ _ ihx _ => exact Nat.lt_of_lt_of_le ihx (Nat.le_max_left _ _)

end Expr

inductive Action where
  | load (v : Int64)
  | negate
  | binary (op : BinaryOp)
deriving DecidableEq, Inhabited

namespace Action

def opcode : Action → Opcode
  | .load _ => .loadInt
  | .negate => .negate
  | .binary op => .binary op

def operands : Action → Nat
  | .load _ => 0
  | .negate => 1
  | .binary _ => 2

def after (d : Nat) (a : Action) : Nat :=
  d + 1 - a.operands

/-- The effect of an operator whose operands stood on top of a stack: its result takes their
place. -/
def conclude (ip : Nat) (op : Opcode) (stk : List Int64) (reads : List SlotEvent) :
    Except ArithmeticError Int64 → Effect (List Int64)
  | .ok r => (reads ++ [⟨ip, stk.length, true, r⟩], .ok (r :: stk))
  | .error e => (reads, .error (.fault (Fault.arithmetic (some ⟨ip, op⟩) e)))

/-- An action on a stack held as a list, whose top is its head. -/
def step (arith : Arithmetic) (ip : Nat) : Action → List Int64 → Effect (List Int64)
  | .load v, stk => ([⟨ip, stk.length, true, v⟩], .ok (v :: stk))
  | .negate, a :: stk =>
    conclude ip .negate stk [⟨ip, stk.length, false, a⟩] (arith.negate a)
  | .binary op, b :: a :: stk =>
    conclude ip (.binary op) stk [⟨ip, stk.length + 1, false, b⟩, ⟨ip, stk.length, false, a⟩]
      (arith.binary op a b)
  | _, _ => ([], .error .stray)

def machine (arith : Arithmetic) : Machine Action (List Int64) where
  opcode := opcode
  depth := List.length
  step := step arith

theorem length_of_conclude {ip : Nat} {op : Opcode} {stk stk' : List Int64}
    {reads : List SlotEvent} {r : Except ArithmeticError Int64}
    (h : (conclude ip op stk reads r).2 = .ok stk') : stk'.length = stk.length + 1 := by
  cases r with
  | error e => cases h
  | ok v =>
    cases h
    rfl

theorem length_step {arith : Arithmetic} {a : Action} {ip : Nat} {stk stk' : List Int64}
    (h : (a.step arith ip stk).2 = .ok stk') : stk'.length = a.after stk.length := by
  match a, stk, h with
  | .load v, stk, h =>
    cases h
    rfl
  | .negate, b :: stk, h => exact length_of_conclude h
  | .binary op, b :: c :: stk, h => exact length_of_conclude h
  | .negate, [], h => cases h
  | .binary op, [], h => cases h
  | .binary op, [b], h => cases h

theorem conclude_eq_ok {ip : Nat} {op : Opcode} {stk stk' : List Int64}
    {reads : List SlotEvent} {r : Except ArithmeticError Int64}
    (h : (conclude ip op stk reads r).2 = .ok stk') : ∃ v, r = .ok v ∧ stk' = v :: stk := by
  cases r with
  | error e => cases h
  | ok v =>
    cases h
    exact ⟨v, rfl, rfl⟩

theorem operands_le_of_step {arith : Arithmetic} {a : Action} {ip : Nat} {stk stk' : List Int64}
    (h : (a.step arith ip stk).2 = .ok stk') : a.operands ≤ stk.length := by
  match a, stk, h with
  | .load v, _, _ => exact Nat.zero_le _
  | .negate, _ :: _, _ => exact Nat.le_add_left 1 _
  | .binary op, _ :: _ :: _, _ => exact Nat.le_add_left 2 _
  | .negate, [], h => cases h
  | .binary op, [], h => cases h
  | .binary op, [b], h => cases h

def top : List Int64 → Except Stop Int64
  | [v] => .ok v
  | _ => .error .stray

@[simp] theorem after_load (d : Nat) (v : Int64) : after d (.load v) = d + 1 := rfl

@[simp] theorem after_negate (d : Nat) : after d .negate = d := rfl

@[simp] theorem after_binary (d : Nat) (op : BinaryOp) : after d (.binary op) = d - 1 := rfl

def settle (d : Nat) (acts : List Action) : Nat :=
  acts.foldl after d

theorem settle_append (d : Nat) (xs ys : List Action) :
    settle d (xs ++ ys) = settle (settle d xs) ys := by
  unfold settle
  exact List.foldl_append

/-- Whether a list of actions finds its operands from a depth and stays within `room` slots. -/
def Fits (room : Nat) : Nat → List Action → Prop
  | _, [] => True
  | d, a :: acts => a.operands ≤ d ∧ a.after d ≤ room ∧ Fits room (a.after d) acts

theorem fits_append (room d : Nat) (xs ys : List Action) :
    Fits room d (xs ++ ys) ↔ Fits room d xs ∧ Fits room (settle d xs) ys := by
  induction xs generalizing d with
  | nil => simp [Fits, settle]
  | cons a xs ih =>
    have hs : settle d (a :: xs) = settle (a.after d) xs := rfl
    simp only [List.cons_append, Fits, ih, hs, and_assoc]

end Action

namespace Expr

/-- The actions of a tree in postorder. A unary plus adds none. -/
def actions : Expr → List Action
  | .int _ _ v => [.load v]
  | .unary _ (.known .identity) x => x.actions
  | .unary _ (.known .negate) x => x.actions ++ [.negate]
  | .binary _ (.known op) x y => x.actions ++ y.actions ++ [.binary op]
  | _ => []

def perform (arith : Arithmetic) (e : Expr) : Except Stop Int64 :=
  (Action.machine arith).exec 0 e.actions [] >>= Action.top

theorem settle_actions {e : Expr} (h : e.WellFormed) (d : Nat) :
    Action.settle d e.actions = d + 1 := by
  induction h generalizing d with
  | int => rfl
  | @unary p op x _ ih =>
    cases op with
    | identity => exact ih d
    | negate =>
      rw [actions, Action.settle_append, ih]
      rfl
  | binary _ _ ihx ihy =>
    rw [actions, Action.settle_append, Action.settle_append, ihx, ihy]
    rfl

theorem fits_actions {e : Expr} (h : e.WellFormed) {room d : Nat} (hr : d + e.need ≤ room) :
    Action.Fits room d e.actions := by
  induction h generalizing d with
  | int => simpa [actions, Action.Fits, Action.operands, need] using hr
  | @unary p op x hx ih =>
    cases op with
    | identity => exact ih hr
    | negate =>
      have hp := hx.need_pos
      simp only [need] at hr
      rw [actions, Action.fits_append, settle_actions hx]
      refine ⟨ih hr, ?_⟩
      simp only [Action.Fits, Action.operands, Action.after_negate, and_true]
      omega
  | @binary p op x y hx hy ihx ihy =>
    have hp := hy.need_pos
    simp only [need] at hr
    rw [actions, Action.fits_append, Action.fits_append, Action.settle_append, settle_actions hx,
      settle_actions hy]
    refine ⟨⟨ihx (by omega), ihy (by omega)⟩, ?_⟩
    simp only [Action.Fits, Action.operands, Action.after_binary, and_true]
    omega

/-- The actions of a tree fit into a storage that has what the tree needs, and into no other. -/
theorem fits_actions_iff {e : Expr} (h : e.WellFormed) {room d : Nat} :
    Action.Fits room d e.actions ↔ d + e.need ≤ room := by
  refine ⟨?_, fits_actions h⟩
  induction h generalizing d with
  | int => exact fun hf => hf.2.1
  | @unary p op x _ ih =>
    cases op with
    | identity => exact ih
    | negate =>
      rw [actions, Action.fits_append]
      exact fun hf => ih hf.1
  | @binary p op x y hx _ ihx ihy =>
    rw [actions, Action.fits_append, Action.fits_append, settle_actions hx, need]
    rintro ⟨⟨hfx, hfy⟩, _⟩
    have := ihx hfx
    have := ihy hfy
    omega

end Expr

/-- A run gives the answer of an evaluation: its value, seen through `f`, or an arithmetic fault
of the same cause at some instruction. -/
def Answers {α : Type} (f : Int64 → α) (answer : Except Fault Int64) (r : Except Stop α) : Prop :=
  (∃ v, answer = .ok v ∧ r = .ok (f v)) ∨
    ∃ e site, answer = .error (Fault.arithmetic none e) ∧
      r = .error (.fault (Fault.arithmetic (some site) e))

namespace Answers

variable {α β : Type} {f : Int64 → α} {answer : Except Fault Int64} {r : Except Stop α}

theorem bind {g : Int64 → β} {k : α → Except Stop β} (h : Answers f answer r)
    (hk : ∀ v, k (f v) = .ok (g v)) : Answers g answer (r >>= k) := by
  rcases h with ⟨v, hv, hr⟩ | ⟨e, site, he, hr⟩
  · refine Or.inl ⟨v, hv, ?_⟩
    rw [hr]
    exact hk v
  · refine Or.inr ⟨e, site, he, ?_⟩
    rw [hr]
    rfl

end Answers

namespace Expr

variable (arith : Arithmetic)

theorem evalWith_identity (p : Position) (x : Expr) :
    evalWith arith (.unary p (.known .identity) x) = x.evalWith arith := by
  rw [evalWith]
  cases x.evalWith arith <;> rfl

theorem answers_conclude (r : Except ArithmeticError Int64) (ip : Nat) (op : Opcode)
    (stk : List Int64) (reads : List SlotEvent) :
    Answers (· :: stk) (r.mapError (Fault.arithmetic none))
      (Action.conclude ip op stk reads r).2 := by
  cases r with
  | error e => exact Or.inr ⟨e, ⟨ip, op⟩, rfl, rfl⟩
  | ok v => exact Or.inl ⟨v, rfl, rfl⟩

/-- The actions of a tree leave its value on top of whatever stack they start from. -/
theorem exec_actions {e : Expr} (h : e.WellFormed) (ip : Nat) (stk : List Int64) :
    Answers (· :: stk) (e.evalWith arith) ((Action.machine arith).exec ip e.actions stk) := by
  induction h generalizing ip stk with
  | @int p literal v => exact Or.inl ⟨v, rfl, rfl⟩
  | @unary p op x _ ih =>
    cases op with
    | identity =>
      rw [evalWith_identity]
      exact ih ip stk
    | negate =>
      rw [actions, Machine.exec_append, evalWith]
      rcases ih ip stk with ⟨v, hv, hr⟩ | ⟨e, site, he, hr⟩
      · rw [hv, hr, ok_bind, ok_bind, Machine.exec_single]
        exact answers_conclude _ _ _ _ _
      · rw [he, hr]
        exact Or.inr ⟨e, site, rfl, rfl⟩
  | @binary p op x y _ _ ihx ihy =>
    rw [actions, Machine.exec_append, Machine.exec_append, evalWith]
    rcases ihx ip stk with ⟨a, ha, hr⟩ | ⟨e, site, he, hr⟩
    · rw [ha, hr, ok_bind, ok_bind]
      rcases ihy (ip + x.actions.length) (a :: stk) with ⟨b, hb, hr⟩ | ⟨e, site, he, hr⟩
      · rw [hb, hr, ok_bind, ok_bind, Machine.exec_single]
        exact answers_conclude _ _ _ _ _
      · rw [he, hr]
        exact Or.inr ⟨e, site, rfl, rfl⟩
    · rw [he, hr]
      exact Or.inr ⟨e, site, rfl, rfl⟩

theorem exec_actions_cases {e : Expr} (h : e.WellFormed) (ip : Nat) (stk : List Int64) :
    (∃ v, (Action.machine arith).exec ip e.actions stk = .ok (v :: stk)) ∨
      ∃ stop, (Action.machine arith).exec ip e.actions stk = .error stop := by
  rcases exec_actions arith h ip stk with ⟨v, _, hr⟩ | ⟨_, _, _, hr⟩
  · exact Or.inl ⟨v, hr⟩
  · exact Or.inr ⟨_, hr⟩

theorem perform_answers {e : Expr} (h : e.WellFormed) :
    Answers id (e.evalWith arith) (e.perform arith) :=
  (exec_actions arith h 0 []).bind fun _ => rfl

theorem perform_of_evalWith {e : Expr} {v : Int64} (he : e.WellFormed)
    (hv : e.evalWith arith = .ok v) : e.perform arith = .ok v := by
  rcases perform_answers arith he with ⟨w, hw, hr⟩ | ⟨_, _, hc, _⟩
  · cases hw.symm.trans hv
    exact hr
  · cases hc.symm.trans hv

end Expr
end Abacus
