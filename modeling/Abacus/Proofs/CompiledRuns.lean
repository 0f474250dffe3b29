import Abacus.Backend
import Abacus.Proofs.Encoding

/-!
# Runs of compiled programs

Whatever the encoding, a program that an encoder produces from a tree runs as the actions of the
tree do: the checked machines with checked arithmetic, the trusted ones with wrapping arithmetic.
Hence all of them give the answer of the evaluator, and no machine meets one of the faults or stray
accesses of a malformed program. The storage may contain anything at the start.
-/
namespace Abacus

theorem Fault.arithmetic_inj {site : Option Location} {c d : ArithmeticError}
    (h : Fault.arithmetic site c = Fault.arithmetic site d) : c = d := by
  have hcause : some (Cause.arithmetic c) = some (Cause.arithmetic d) := congrArg Fault.cause h
  cases hcause
  rfl

theorem Depth.go_cons (d top : Int) (op : Opcode) (ops : List Opcode) :
    Depth.peak.go d top (op :: ops) =
      Depth.peak.go (d + op.stackEffect) (max top (d + op.stackEffect)) ops := by
  rw [Depth.peak.go]
  congr 1
  split <;> omega

namespace Expr

/-- The opcodes of a tree raise the depth by one, and pass through what the tree needs. -/
theorem peak_actions {e : Expr} (h : e.WellFormed) (d top : Int) (rest : List Opcode) :
    Depth.peak.go d top (e.actions.map Action.opcode ++ rest) =
      Depth.peak.go (d + 1) (max top (d + e.need)) rest := by
  induction h generalizing d top rest with
  | int => exact Depth.go_cons d top _ rest
  | @unary p op x hx ih =>
    cases op with
    | identity => exact ih d top rest
    | negate =>
      have hp := hx.need_pos
      have hmax : max (max top (d + x.need)) (d + 1 + 0) = max top (d + x.need) := by omega
      rw [actions, List.map_append, List.append_assoc, ih, List.map_singleton,
        List.singleton_append, Depth.go_cons]
      change Depth.peak.go (d + 1 + 0) (max (max top (d + x.need)) (d + 1 + 0)) rest = _
      rw [hmax, Int.add_zero]
      rfl
  | @binary p op x y hx hy ihx ihy =>
    have hp := hy.need_pos
    have hmax : max (max (max top (d + x.need)) (d + 1 + y.need)) (d + 1 + 1 + -1) =
        max top (d + (max x.need (1 + y.need) : Nat)) := by
      omega
    rw [actions, List.map_append, List.map_append, List.append_assoc, List.append_assoc, ihx, ihy,
      List.map_singleton, List.singleton_append, Depth.go_cons]
    change Depth.peak.go (d + 1 + 1 + -1)
      (max (max (max top (d + x.need)) (d + 1 + y.need)) (d + 1 + 1 + -1)) rest = _
    rw [hmax, Int.add_neg_cancel_right]
    rfl

theorem wrapping_binary_error {op : BinaryOp} {a b : Int64} {c : ArithmeticError}
    (h : Arithmetic.wrapping.binary op a b = .error c) : c = .divisionByZero := by
  cases op with
  | div =>
    change Wrapping.div a b = .error c at h
    unfold Wrapping.div at h
    split at h
    · cases h
      rfl
    · split at h <;> cases h
  | _ => cases h

theorem mapError_eq_arithmetic {r : Except ArithmeticError Int64} {c : ArithmeticError}
    (h : r.mapError (Fault.arithmetic none) = .error (Fault.arithmetic none c)) :
    r = .error c := by
  cases r with
  | ok v => cases h
  | error d => rw [Fault.arithmetic_inj (Except.error.inj h)]

theorem wrapping_error {e : Expr} {c : ArithmeticError}
    (h : e.wrapping = .error (Fault.arithmetic none c)) : c = .divisionByZero := by
  unfold wrapping at h
  induction e with
  | hole kind => cases h
  | int p literal v => cases h
  | unary p op x ih =>
    cases op with
    | unknown code => cases h
    | known op =>
      cases op with
      | identity =>
        rw [evalWith_identity] at h
        exact ih h
      | negate =>
        rw [evalWith] at h
        cases hx : x.evalWith .wrapping with
        | error f =>
          rw [hx] at h ih
          exact ih h
        | ok v =>
          rw [hx] at h
          cases h
  | binary p op x y ihx ihy =>
    cases op with
    | unknown code => cases h
    | known op =>
      rw [evalWith] at h
      cases hx : x.evalWith .wrapping with
      | error f =>
        rw [hx] at h ihx
        exact ihx h
      | ok a =>
        rw [hx, ok_bind] at h
        cases hy : y.evalWith .wrapping with
        | error f =>
          rw [hy] at h ihy
          exact ihy h
        | ok b =>
          rw [hy, ok_bind] at h
          exact wrapping_binary_error (mapError_eq_arithmetic h)

theorem need_le_length {e : Expr} (h : e.WellFormed) : e.need ≤ e.actions.length := by
  induction h with
  | int => exact Nat.le_refl _
  | @unary p op x _ ih =>
    cases op with
    | identity => exact ih
    | negate =>
      simp only [need, actions, List.length_append, List.length_singleton]
      omega
  | binary _ _ ihx ihy =>
    simp only [need, actions, List.length_append, List.length_singleton]
    omega

/-- A machine that carries out the actions of a tree, and takes its result from the only slot in
use, performs the tree. -/
theorem exec_eq_perform {ι σ : Type} {m : Machine ι σ} {arith : Arithmetic} {room : Nat}
    (S : Simulation m arith room) {e : Expr} (h : e.WellFormed) (hroom : e.need ≤ room)
    {code : List ι} (hc : Aligned S.Does 0 code e.actions) {s : σ} (hs : S.Holds s [])
    {result : σ → Except Stop Int64} (hresult : ∀ t v, S.Holds t [v] → result t = .ok v) :
    (m.exec 0 code s >>= result) = e.perform arith := by
  have hfits : Action.Fits room 0 e.actions := fits_actions h (by omega)
  apply Related.eq
  apply (S.exec hs hc hfits 0).bind
  intro t stk _ hstk ht
  rcases exec_actions_cases arith h 0 [] with ⟨v, hr⟩ | ⟨_, hr⟩
  · cases hr.symm.trans hstk
    rw [hresult t v ht]
    exact .ok rfl
  · cases hr.symm.trans hstk

end Expr

namespace Rpn

theorem compile_ok {e : Expr} {p : Program Instr} (h : compile e = .ok p) :
    e.WellFormed ∧ p.trusted = true ∧
      Aligned (fun i _ a => i.action? = some a) 0 p.code e.actions := by
  unfold compile at h
  rw [bind_eq_ok] at h
  obtain ⟨b, hb, h⟩ := h
  cases h
  obtain ⟨he, hc⟩ := encode_ok hb
  exact ⟨he, rfl, hc 0⟩

theorem Instr.op_of_action? {i : Instr} {a : Action} (h : i.action? = some a) :
    i.op = a.opcode := by
  cases a with
  | load v => exact (action?_eq_load.mp h).1
  | negate => exact action?_eq_negate.mp h
  | binary op => exact action?_eq_binary.mp h

theorem map_op_of_aligned {d : Nat} {code : List Instr} {acts : List Action}
    (h : Aligned (fun i _ a => i.action? = some a) d code acts) :
    code.map (·.op) = acts.map Action.opcode := by
  induction h with
  | nil => rfl
  | cons hi _ ih => rw [List.map_cons, List.map_cons, ih, Instr.op_of_action? hi]

variable {e : Expr} {p : Program Instr}

theorem depth_eq_need (h : compile e = .ok p) : depth p.code = e.need := by
  obtain ⟨he, _, hc⟩ := compile_ok h
  have hpeak := Expr.peak_actions he 0 0 []
  rw [List.append_nil, ← map_op_of_aligned hc] at hpeak
  rw [depth, Depth.peak, hpeak, Depth.peak.go]
  omega

theorem run_of_aligned (he : e.WellFormed)
    (hc : Aligned (fun i _ a => i.action? = some a) 0 p.code e.actions) :
    run p = e.perform .checked := by
  apply Expr.exec_eq_perform (tracking e.need).simulation he (Nat.le_refl _) hc ⟨rfl, trivial⟩
  rintro t v ⟨hsize, hholds⟩
  have hsize : t.size = 1 := hsize
  rw [result, if_pos hsize]
  exact hholds.read

theorem run_eq_perform (h : compile e = .ok p) : run p = e.perform .checked := by
  obtain ⟨he, _, hc⟩ := compile_ok h
  exact run_of_aligned he hc

theorem trustedFrom_eq_perform (h : compile e = .ok p) {store : Store}
    (hroom : e.need ≤ store.size) : trustedFrom p store = e.perform .wrapping := by
  obtain ⟨he, _, hc⟩ := compile_ok h
  apply Expr.exec_eq_perform (trustedSimulation store.size) he hroom hc ⟨rfl, rfl, trivial⟩
  rintro t v ⟨_, _, hholds⟩
  exact hholds.read

theorem runTrusted_eq_perform (h : compile e = .ok p) : runTrusted p = e.perform .wrapping := by
  obtain ⟨_, htrusted, _⟩ := compile_ok h
  rw [runTrusted, if_pos htrusted, depth_eq_need h]
  exact trustedFrom_eq_perform h (by simp [Store.zeros])

end Rpn

namespace Stack

theorem compile_ok {e : Expr} {p : Program Instr} (h : compile e = .ok p) :
    e.WellFormed ∧ p.trusted = true ∧ p.size = e.need ∧ p.constants.toList = e.pooled ∧
      Aligned (fun i _ a => i.action? p.constants = some a) 0 p.code e.actions := by
  unfold compile at h
  rw [bind_eq_ok] at h
  obtain ⟨⟨b, s⟩, hb, h⟩ := h
  cases h
  have he := encode_ok hb
  refine ⟨he.wellFormed, rfl, ?_, ?_, ?_⟩
  · have hpeak := he.peak
    simp only at hpeak ⊢
    omega
  · simpa using he.pool
  · exact he.aligned _ 0 (List.prefix_refl _)

variable {e : Expr} {p : Program Instr}

theorem size_eq_need (h : compile e = .ok p) : size p = .ok e.need := by
  obtain ⟨he, _, hsize, _, hc⟩ := compile_ok h
  have hlen := Expr.need_le_length he
  rw [← hc.length_eq] at hlen
  rw [size, checkedSize, hsize, if_neg (by omega), Int.toNat_natCast]

theorem runFrom_of_aligned (he : e.WellFormed)
    (hc : Aligned (fun i _ a => i.action? p.constants = some a) 0 p.code e.actions)
    {store : Store} (hroom : e.need ≤ store.size) : runFrom p store = e.perform .checked := by
  apply Expr.exec_eq_perform (tracking p.constants store.size).simulation he hroom hc
    ⟨rfl, rfl, trivial⟩
  rintro t v ⟨_, hdepth, hholds⟩
  have hdepth : t.sp = 1 := hdepth
  rw [result, if_pos hdepth]
  exact hholds.read

theorem runFrom_eq_perform (h : compile e = .ok p) {store : Store} (hroom : e.need ≤ store.size) :
    runFrom p store = e.perform .checked := by
  obtain ⟨he, _, _, _, hc⟩ := compile_ok h
  exact runFrom_of_aligned he hc hroom

theorem run_eq_perform (h : compile e = .ok p) : run p = e.perform .checked := by
  rw [run, size_eq_need h, ok_bind]
  exact runFrom_eq_perform h (by simp [Store.zeros])

theorem trustedFrom_eq_perform (h : compile e = .ok p) {store : Store}
    (hroom : e.need ≤ store.size) : trustedFrom p store = e.perform .wrapping := by
  obtain ⟨he, _, _, _, hc⟩ := compile_ok h
  apply Expr.exec_eq_perform (trustedSimulation p.constants store.size) he hroom hc
    ⟨rfl, rfl, trivial⟩
  rintro t v ⟨_, _, hholds⟩
  exact hholds.read

theorem runTrusted_eq_perform (h : compile e = .ok p) : runTrusted p = e.perform .wrapping := by
  obtain ⟨_, htrusted, hsize, _, _⟩ := compile_ok h
  rw [runTrusted, if_pos htrusted, hsize]
  exact trustedFrom_eq_perform h (by simp [Store.zeros])

end Stack

namespace Register

theorem compile_ok {e : Expr} {p : Program Instr} (h : compile e = .ok p) :
    e.WellFormed ∧ p.trusted = true ∧ p.size = e.need ∧ e.need ≤ maxRegisters ∧
      p.constants.toList = e.pooled ∧
      Aligned (Instr.Does p.constants) 0 p.code e.actions := by
  unfold compile at h
  rw [bind_eq_ok] at h
  obtain ⟨⟨dst, registers⟩, halloc, h⟩ := h
  rw [bind_eq_ok] at h
  obtain ⟨⟨b, s⟩, hb, h⟩ := h
  cases h
  obtain ⟨hdst, hlive, hpeak, hlt⟩ := Registers.alloc_ok halloc
  have hdst : dst.toNat = 0 := hdst
  have hlive : registers.live = 1 := hlive
  have hpeak : registers.peak = 1 := hpeak
  have he := encode_ok hb (by rw [hlive, hdst]) (Nat.le_of_eq (hlive.trans hpeak.symm))
  have hp := he.wellFormed.need_pos
  have hneed : s.registers.peak = e.need := by
    rw [he.peak, hpeak, hdst]
    omega
  refine ⟨he.wellFormed, rfl, congrArg Nat.cast hneed, ?_, he.pool, ?_⟩
  · rw [← hneed]
    apply he.peak_le
    rw [hpeak]
    decide
  · have hc := he.aligned s.pool.values (List.prefix_refl _)
    rwa [hdst] at hc

variable {e : Expr} {p : Program Instr}

theorem size_eq_need (h : compile e = .ok p) : size p = .ok e.need := by
  obtain ⟨_, _, hsize, hmax, _, _⟩ := compile_ok h
  rw [size, checkedSize, hsize, if_neg (by omega), Int.toNat_natCast]

theorem runFrom_eq_perform (h : compile e = .ok p) {store : Store} (hroom : e.need ≤ store.size) :
    runFrom p store = e.perform .checked := by
  obtain ⟨he, _, _, _, _, hc⟩ := compile_ok h
  apply Expr.exec_eq_perform (tracking p.constants store.size).simulation he hroom hc
    ⟨rfl, trivial⟩
  rintro t v ⟨_, hholds⟩
  have hsize : t.size ≠ 0 := Nat.ne_zero_of_lt hholds.length_lt
  rw [result, if_neg hsize]
  exact hholds.read

theorem run_eq_perform (h : compile e = .ok p) : run p = e.perform .checked := by
  rw [run, size_eq_need h, ok_bind]
  exact runFrom_eq_perform h (by simp [Store.zeros])

theorem trustedFrom_eq_perform (h : compile e = .ok p) {store : Store}
    (hroom : e.need ≤ store.size) : trustedFrom p store = e.perform .wrapping := by
  obtain ⟨he, _, _, _, _, hc⟩ := compile_ok h
  apply Expr.exec_eq_perform (trustedSimulation p.constants store.size) he hroom hc ⟨rfl, trivial⟩
  rintro t v ⟨_, hholds⟩
  exact hholds.read

theorem runTrusted_eq_perform (h : compile e = .ok p) : runTrusted p = e.perform .wrapping := by
  obtain ⟨_, htrusted, hsize, _, _, _⟩ := compile_ok h
  rw [runTrusted, if_pos htrusted, hsize]
  exact trustedFrom_eq_perform h (by simp [Store.zeros])

end Register

section Backends

variable {b : Backend} {e : Expr} {x : Executable}

theorem compile_cases (h : compile b e = .ok x) :
    (∃ p, Rpn.compile e = .ok p ∧ x = .rpn p) ∨ (∃ p, Stack.compile e = .ok p ∧ x = .stack p) ∨
      ∃ p, Register.compile e = .ok p ∧ x = .register p := by
  cases b with
  | rpn =>
    cases hp : Rpn.compile e <;> rw [compile, hp] at h <;> cases h
    exact Or.inl ⟨_, rfl, rfl⟩
  | stack =>
    cases hp : Stack.compile e <;> rw [compile, hp] at h <;> cases h
    exact Or.inr (Or.inl ⟨_, rfl, rfl⟩)
  | register =>
    cases hp : Register.compile e <;> rw [compile, hp] at h <;> cases h
    exact Or.inr (Or.inr ⟨_, rfl, rfl⟩)

theorem wellFormed_of_compile (h : compile b e = .ok x) : e.WellFormed := by
  rcases compile_cases h with ⟨p, hp, _⟩ | ⟨p, hp, _⟩ | ⟨p, hp, _⟩
  · exact (Rpn.compile_ok hp).1
  · exact (Stack.compile_ok hp).1
  · exact (Register.compile_ok hp).1

theorem run_eq_perform (h : compile b e = .ok x) : x.run = e.perform .checked := by
  rcases compile_cases h with ⟨p, hp, rfl⟩ | ⟨p, hp, rfl⟩ | ⟨p, hp, rfl⟩
  · exact Rpn.run_eq_perform hp
  · exact Stack.run_eq_perform hp
  · exact Register.run_eq_perform hp

theorem runTrusted_eq_perform (h : compile b e = .ok x) :
    x.runTrusted = e.perform .wrapping := by
  rcases compile_cases h with ⟨p, hp, rfl⟩ | ⟨p, hp, rfl⟩ | ⟨p, hp, rfl⟩
  · exact Rpn.runTrusted_eq_perform hp
  · exact Stack.runTrusted_eq_perform hp
  · exact Register.runTrusted_eq_perform hp

/-- A checked run of a compiled program gives the value of its tree, or fails as the evaluation
does and for the same cause. No fault of a malformed program arises. -/
theorem checked_run_evaluates (h : compile b e = .ok x) :
    ((∃ v, e.eval = .ok v ∧ x.run = .ok v) ∨
      ∃ c site, e.eval = .error (Fault.arithmetic none c) ∧
        x.run = .error (.fault (Fault.arithmetic (some site) c))) ∧
    x.run ≠ .error .stray ∧ ∀ f, x.run = .error (.fault f) → f.kind ≠ .invariant := by
  have ha := Expr.perform_answers .checked (wellFormed_of_compile h)
  rw [← run_eq_perform h] at ha
  refine ⟨ha, ?_, ?_⟩
  · intro hstray
    rcases ha with ⟨v, _, hr⟩ | ⟨c, site, _, hr⟩ <;> cases hr.symm.trans hstray
  · intro f hf
    rcases ha with ⟨v, _, hr⟩ | ⟨c, site, _, hr⟩ <;> cases hr.symm.trans hf
    intro hkind
    cases hkind

theorem checked_run_divides_by_zero :
    ∃ x, compile .stack
        (.ofBinary .div (.ofInt 40000) (.ofBinary .sub (.ofInt 2) (.ofInt 2))) = .ok x ∧
      ∃ site, x.run = .error (.fault (Fault.arithmetic (some site) .divisionByZero)) := by
  obtain ⟨x, hx⟩ : ∃ x, compile .stack
      (.ofBinary .div (.ofInt 40000) (.ofBinary .sub (.ofInt 2) (.ofInt 2))) = .ok x := ⟨_, rfl⟩
  refine ⟨x, hx, ?_⟩
  rcases (checked_run_evaluates hx).1 with ⟨v, hv, _⟩ | ⟨c, site, hc, hr⟩
  · cases hv
  · obtain rfl := Fault.arithmetic_inj (Except.error.inj hc)
    exact ⟨site, hr⟩

/-- A trusted run of a compiled program never leaves its storage or its pool, which the machine
does not look after, and gives the wrapped value of its tree or the division by zero that the
evaluation meets. -/
theorem trusted_run_wraps (h : compile b e = .ok x) :
    x.runTrusted ≠ .error .stray ∧
    ((∃ v, e.wrapping = .ok v ∧ x.runTrusted = .ok v) ∨
      ∃ site, e.wrapping = .error (Fault.arithmetic none .divisionByZero) ∧
        x.runTrusted = .error (.fault (Fault.arithmetic (some site) .divisionByZero))) := by
  have ha := Expr.perform_answers .wrapping (wellFormed_of_compile h)
  rw [← runTrusted_eq_perform h] at ha
  rcases ha with ⟨v, hv, hr⟩ | ⟨c, site, hc, hr⟩
  · refine ⟨?_, Or.inl ⟨v, hv, hr⟩⟩
    intro hstray
    cases hr.symm.trans hstray
  · obtain rfl := Expr.wrapping_error hc
    refine ⟨?_, Or.inr ⟨site, hc, hr⟩⟩
    intro hstray
    cases hr.symm.trans hstray

theorem trusted_run_wraps_product :
    ∃ x, compile .register (.ofBinary .mul (.ofInt Int64.maxValue)
        (.ofUnary .negate (.ofBinary .add (.ofInt 1) (.ofInt 1)))) = .ok x ∧
      x.runTrusted = .ok 2 := by
  obtain ⟨x, hx⟩ : ∃ x, compile .register (.ofBinary .mul (.ofInt Int64.maxValue)
      (.ofUnary .negate (.ofBinary .add (.ofInt 1) (.ofInt 1)))) = .ok x := ⟨_, rfl⟩
  refine ⟨x, hx, ?_⟩
  rcases (trusted_run_wraps hx).2 with ⟨v, hv, hr⟩ | ⟨site, hc, _⟩
  · cases hv
    exact hr
  · cases hc

end Backends
end Abacus
