import Abacus.Proofs.CompiledRuns

/-!
# Encodings in lockstep

The three programs of a tree stand for the same actions, so they agree instruction by instruction,
not only in their answers: a run that fails does so at the same place in each of them. Checked and
wrapping arithmetic part at the first overflow and nowhere else, hence the same holds across the
two modes for as long as nothing overflows.
-/
namespace Abacus

section Arithmetic

theorem div_neg_one (a : Int64) : a / -1 = -a := by
  have hone : (-1 : Int64).toInt = -1 := rfl
  have hdiv := Int64.toInt_div a (-1)
  rw [hone, Int.tdiv_neg, Int.tdiv_one] at hdiv
  exact Int64.toInt_inj.mp (hdiv.trans (Int64.toInt_neg a).symm)

/-- Checked arithmetic does what wrapping arithmetic does, failures included, or finds that a
result has overflowed. -/
theorem checked_binary_cases (op : BinaryOp) (a b : Int64) :
    Arithmetic.checked.binary op a b = Arithmetic.wrapping.binary op a b ∨
      Arithmetic.checked.binary op a b = .error .overflow := by
  cases op with
  | add =>
    change Checked.add a b = .ok (a + b) ∨ Checked.add a b = _
    unfold Checked.add
    dsimp only
    split <;> simp
  | sub =>
    change Checked.sub a b = .ok (a - b) ∨ Checked.sub a b = _
    unfold Checked.sub
    dsimp only
    split <;> simp
  | mul =>
    change Checked.mul a b = .ok (a * b) ∨ Checked.mul a b = _
    unfold Checked.mul
    dsimp only
    split
    · rename_i hzero
      rcases hzero with rfl | rfl <;> simp
    · split <;> simp
  | div =>
    change Checked.div a b = Wrapping.div a b ∨ Checked.div a b = _
    unfold Checked.div Wrapping.div
    by_cases hzero : b = 0
    · simp [hzero]
    · by_cases hmin : a = Int64.minValue ∧ b = -1
      · simp [hmin]
      · left
        rw [if_neg hzero, if_neg hmin, if_neg hzero]
        split
        · rename_i hone
          rw [hone, div_neg_one]
        · rfl

theorem checked_negate_cases (a : Int64) :
    Arithmetic.checked.negate a = Arithmetic.wrapping.negate a ∨
      Arithmetic.checked.negate a = .error .overflow := by
  change Checked.neg a = .ok (-a) ∨ Checked.neg a = _
  unfold Checked.neg
  split <;> simp

end Arithmetic

def Overflowed {α : Type} (r : Except Stop α) : Prop :=
  ∃ f, r = .error (.fault f) ∧ f.cause = some (.arithmetic .overflow)

theorem Overflowed.bind {α β : Type} {r : Except Stop α} (h : Overflowed r)
    (k : α → Except Stop β) : Overflowed (r >>= k) := by
  obtain ⟨f, rfl, hf⟩ := h
  exact ⟨f, rfl, hf⟩

namespace Action

theorem overflowed_conclude (ip : Nat) (op : Opcode) (stk : List Int64) (reads : List SlotEvent) :
    Overflowed (conclude ip op stk reads (.error .overflow)).2 :=
  ⟨_, rfl, rfl⟩

theorem step_negate (arith : Arithmetic) (ip : Nat) (x : Int64) (stk : List Int64) :
    step arith ip .negate (x :: stk) =
      conclude ip .negate stk [⟨ip, stk.length, false, x⟩] (arith.negate x) := rfl

theorem step_binary (arith : Arithmetic) (ip : Nat) (op : BinaryOp) (x y : Int64)
    (stk : List Int64) : step arith ip (.binary op) (y :: x :: stk) =
      conclude ip (.binary op) stk
        [⟨ip, stk.length + 1, false, y⟩, ⟨ip, stk.length, false, x⟩] (arith.binary op x y) := rfl

theorem step_wrapping {a : Action} {ip : Nat} {stk : List Int64}
    (h : ¬ Overflowed (a.step .checked ip stk).2) :
    a.step .wrapping ip stk = a.step .checked ip stk := by
  match a, stk, h with
  | .load v, stk, _ => rfl
  | .negate, x :: stk, h =>
    rw [step_negate] at h
    rcases checked_negate_cases x with hx | hx
    · rw [step_negate, step_negate, hx]
    · rw [hx] at h
      exact absurd (overflowed_conclude _ _ _ _) h
  | .binary op, y :: x :: stk, h =>
    rw [step_binary] at h
    rcases checked_binary_cases op x y with hxy | hxy
    · rw [step_binary, step_binary, hxy]
    · rw [hxy] at h
      exact absurd (overflowed_conclude _ _ _ _) h
  | .negate, [], _ => rfl
  | .binary op, [], _ => rfl
  | .binary op, [y], _ => rfl

/-- The two arithmetics run a list of actions alike up to the first overflow. -/
theorem exec_wrapping {acts : List Action} {ip : Nat} {stk : List Int64}
    (h : ¬ Overflowed ((machine .checked).exec ip acts stk)) :
    (machine .wrapping).exec ip acts stk = (machine .checked).exec ip acts stk := by
  induction acts generalizing ip stk with
  | nil => rfl
  | cons a acts ih =>
    rw [Machine.exec_cons] at h
    have hstep : (machine .wrapping).step ip a stk = (machine .checked).step ip a stk :=
      step_wrapping fun ha => h (ha.bind _)
    rw [Machine.exec_cons, Machine.exec_cons, hstep]
    cases hs : ((machine .checked).step ip a stk).2 with
    | error stop => rfl
    | ok t =>
      rw [hs] at h
      exact ih h

end Action

theorem Expr.perform_wrapping {e : Expr} (h : ¬ Overflowed (e.perform .checked)) :
    e.perform .wrapping = e.perform .checked := by
  unfold perform at h ⊢
  rw [Action.exec_wrapping fun ho => h (ho.bind _)]

/-- The opcode can stand for the action. Every encoding has loads of its own. -/
def Opcode.Serves (op : Opcode) : Action → Prop
  | .load _ => op.isLoad = true
  | .negate => op = .negate
  | .binary o => op = .binary o

theorem Opcode.Serves.agree {op op' : Opcode} {a : Action} (h : op.Serves a) (h' : op'.Serves a) :
    op = op' ∨ (op.isLoad = true ∧ op'.isLoad = true) := by
  cases a with
  | load v => exact Or.inr ⟨h, h'⟩
  | negate => exact Or.inl (Eq.trans h (Eq.symm h'))
  | binary o => exact Or.inl (Eq.trans h (Eq.symm h'))

theorem Rpn.Instr.serves {i : Instr} {a : Action} (h : i.action? = some a) : i.op.Serves a := by
  cases a with
  | load v =>
    change i.op.isLoad = true
    rw [(action?_eq_load.mp h).1]
    rfl
  | negate => exact action?_eq_negate.mp h
  | binary o => exact action?_eq_binary.mp h

theorem Stack.Instr.serves {constants : Store} {i : Instr} {a : Action}
    (h : i.action? constants = some a) : i.op.Serves a := by
  cases a with
  | load v =>
    change i.op.isLoad = true
    rcases action?_eq_load.mp h with ⟨hop, _⟩ | ⟨hop, _⟩ <;> rw [hop] <;> rfl
  | negate => exact action?_eq_negate.mp h
  | binary o => exact action?_eq_binary.mp h

namespace Aligned

variable {ι κ : Type} {Does : ι → Nat → Action → Prop} {d : Nat} {code : List ι}
  {acts : List Action}

theorem map {Does' : κ → Nat → Action → Prop} (h : Aligned Does d code acts) (f : ι → κ)
    (hf : ∀ i d a, Does i d a → Does' (f i) d a) : Aligned Does' d (code.map f) acts := by
  induction h with
  | nil => exact .nil
  | cons hi _ ih => exact .cons (hf _ _ _ hi) ih

theorem does_at (h : Aligned Does d code acts) {k : Nat} {i : ι} (hi : code[k]? = some i) :
    ∃ a, acts[k]? = some a ∧ Does i (Action.settle d (acts.take k)) a := by
  induction h generalizing k with
  | nil => cases hi
  | @cons d j a code acts hj _ ih =>
    cases k with
    | zero =>
      cases hi
      exact ⟨a, rfl, hj⟩
    | succ k => exact ih hi

theorem exists_action (h : Aligned Does d code acts) {k : Nat} {i : ι} (hi : code[k]? = some i) :
    ∃ a d', acts[k]? = some a ∧ Does i d' a := by
  obtain ⟨a, ha, hdoes⟩ := h.does_at hi
  exact ⟨a, _, ha, hdoes⟩

end Aligned

def Executable.opcodes : Executable → List Opcode
  | .rpn p => p.code.map (·.op)
  | .stack p => p.code.map (·.op)
  | .register p => p.code.map (·.op)

section Backends

variable {b b' : Backend} {e : Expr} {x x' : Executable}

theorem aligned_opcodes (h : compile b e = .ok x) :
    Aligned (fun op _ a => op.Serves a) 0 x.opcodes e.actions := by
  rcases compile_cases h with ⟨p, hp, rfl⟩ | ⟨p, hp, rfl⟩ | ⟨p, hp, rfl⟩
  · obtain ⟨_, _, hc⟩ := Rpn.compile_ok hp
    exact hc.map _ fun _ _ _ hi => Rpn.Instr.serves hi
  · obtain ⟨_, _, _, _, hc⟩ := Stack.compile_ok hp
    exact hc.map _ fun _ _ _ hi => Stack.Instr.serves hi
  · obtain ⟨_, _, _, _, _, hc⟩ := Register.compile_ok hp
    exact hc.map _ fun _ _ _ hi => Stack.Instr.serves hi.1

/-- Any two programs of a tree have the same operators at the same places, and loads at the others.
Their checked runs are the same down to the instruction at which they fail, and so are their
trusted runs. The modes differ only where a checked run overflows. -/
theorem encodings_run_in_lockstep (h : compile b e = .ok x) (h' : compile b' e = .ok x') :
    (x.opcodes.length = x'.opcodes.length ∧
      ∀ (k : Nat) (op op' : Opcode), x.opcodes[k]? = some op → x'.opcodes[k]? = some op' →
        op = op' ∨ (op.isLoad = true ∧ op'.isLoad = true)) ∧
    x.run = x'.run ∧ x.runTrusted = x'.runTrusted ∧
    (¬ Overflowed x.run → x'.runTrusted = x.run) := by
  have hops := aligned_opcodes h
  have hops' := aligned_opcodes h'
  refine ⟨⟨hops.length_eq.trans hops'.length_eq.symm, ?_⟩, ?_, ?_, ?_⟩
  · intro k op op' hop hop'
    obtain ⟨a, _, ha, hserves⟩ := hops.exists_action hop
    obtain ⟨a', _, ha', hserves'⟩ := hops'.exists_action hop'
    cases ha.symm.trans ha'
    exact hserves.agree hserves'
  · rw [run_eq_perform h, run_eq_perform h']
  · rw [runTrusted_eq_perform h, runTrusted_eq_perform h']
  · rw [run_eq_perform h, runTrusted_eq_perform h']
    exact Expr.perform_wrapping

/-- A division by zero between two literals of the pool: both machines fail at the same
instruction, in both modes. -/
theorem lockstep_of_failing_quotient :
    ∃ x x', compile .stack (.ofBinary .div (.ofInt 70000) (.ofBinary .sub (.ofInt 80000)
        (.ofInt 80000))) = .ok x ∧
      compile .register (.ofBinary .div (.ofInt 70000) (.ofBinary .sub (.ofInt 80000)
        (.ofInt 80000))) = .ok x' ∧
      x.run = .error (.fault (Fault.arithmetic (some ⟨4, .binary .div⟩) .divisionByZero)) ∧
      x'.runTrusted = x.run := by
  obtain ⟨x, hx⟩ : ∃ x, compile .stack (.ofBinary .div (.ofInt 70000) (.ofBinary .sub
    (.ofInt 80000) (.ofInt 80000))) = .ok x := ⟨_, rfl⟩
  obtain ⟨x', hx'⟩ : ∃ x, compile .register (.ofBinary .div (.ofInt 70000) (.ofBinary .sub
    (.ofInt 80000) (.ofInt 80000))) = .ok x := ⟨_, rfl⟩
  have hrun : x.run =
      .error (.fault (Fault.arithmetic (some ⟨4, .binary .div⟩) .divisionByZero)) := by
    cases hx
    rfl
  refine ⟨x, x', hx, hx', hrun, (encodings_run_in_lockstep hx hx').2.2.2 ?_⟩
  rintro ⟨f, hf, hcause⟩
  cases hrun.symm.trans hf
  cases hcause

end Backends
end Abacus
