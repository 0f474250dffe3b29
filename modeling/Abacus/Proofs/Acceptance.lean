import Abacus.Proofs.CompiledRuns
import Abacus.Proofs.Guards

/-!
# What the stack machines accept

A checked run of rpn or stack code that ends with a value has carried out the actions of a tree.
While it runs, the values on the stack are those of trees whose actions make up the code read so
far; a load adds a tree, and an operator joins the topmost ones. At the end one tree is left.
Conversely the code of a tree is accepted whenever the tree has a value and the storage is large
enough for it.
-/
namespace Abacus

namespace Expr

def hasIdentity : Expr → Bool
  | .hole _ => false
  | .int _ _ _ => false
  | .unary _ op x => op = .known .identity || x.hasIdentity
  | .binary _ _ x y => x.hasIdentity || y.hasIdentity

end Expr

/-- The actions are those of trees without a unary plus, one tree after the other, and the stack
has their values, that of the last tree on top. -/
inductive Planted (arith : Arithmetic) : List Action → List Int64 → Prop
  | nil : Planted arith [] []
  | cons {acts stk v} {e : Expr} : Planted arith acts stk → e.WellFormed →
      e.hasIdentity = false → e.evalWith arith = .ok v →
      Planted arith (acts ++ e.actions) (v :: stk)

namespace Planted

variable {arith : Arithmetic} {acts : List Action} {stk stk' : List Int64}

/-- An action that finds its operands makes one tree of their trees. -/
theorem step {a : Action} {ip : Nat} (h : Planted arith acts stk)
    (hs : (a.step arith ip stk).2 = .ok stk') : Planted arith (acts ++ [a]) stk' := by
  cases a with
  | load v =>
    cases hs
    exact .cons (e := .ofInt v) h .int rfl rfl
  | negate =>
    cases h with
    | nil => cases hs
    | @cons acts stk v x h hx hplus hv =>
      obtain ⟨r, hr, rfl⟩ := Action.conclude_eq_ok hs
      have hvalue : (Expr.ofUnary .negate x).evalWith arith = .ok r := by
        rw [Expr.ofUnary, Expr.evalWith, hv, ok_bind, Expr.applyUnary, hr]
        rfl
      rw [List.append_assoc]
      exact .cons (e := .ofUnary .negate x) h (.unary hx) hplus hvalue
  | binary op =>
    cases h with
    | nil => cases hs
    | @cons _ _ b y h hy hyplus hb =>
      cases h with
      | nil => cases hs
      | @cons acts stk a x h hx hxplus ha =>
        obtain ⟨r, hr, rfl⟩ := Action.conclude_eq_ok hs
        have hvalue : (Expr.ofBinary op x y).evalWith arith = .ok r := by
          rw [Expr.ofBinary, Expr.evalWith, ha, hb, ok_bind, ok_bind, hr]
          rfl
        have hplus : (Expr.ofBinary op x y).hasIdentity = false := by
          simp [Expr.ofBinary, Expr.hasIdentity, hxplus, hyplus]
        rw [List.append_assoc, List.append_assoc, ← List.append_assoc x.actions]
        exact .cons (e := .ofBinary op x y) h (.binary hx hy) hplus hvalue

theorem exec {ip : Nat} {acts' : List Action} (h : Planted arith acts stk)
    (hs : (Action.machine arith).exec ip acts' stk = .ok stk') :
    Planted arith (acts ++ acts') stk' := by
  induction acts' generalizing ip acts stk with
  | nil =>
    cases hs
    rwa [List.append_nil]
  | cons a acts' ih =>
    rw [Machine.exec_cons] at hs
    obtain ⟨stk₁, hstep, hs⟩ := bind_eq_ok.mp hs
    rw [List.append_cons]
    exact ih (h.step hstep) hs

theorem exists_expr {v : Int64} (h : Planted arith acts [v]) :
    ∃ e : Expr, e.WellFormed ∧ e.hasIdentity = false ∧ acts = e.actions ∧
      e.evalWith arith = .ok v := by
  cases h with
  | @cons _ _ _ e h he hplus hv =>
    cases h
    exact ⟨e, he, hplus, rfl, hv⟩

end Planted

/-- A machine that goes on only where its instruction stands for an action that succeeds. -/
structure Reading {ι σ : Type} (m : Machine ι σ) (arith : Arithmetic) where
  action? : ι → Option Action
  Holds : σ → List Int64 → Prop
  step : ∀ (ip : Nat) {i s t stk}, Holds s stk → (m.step ip i s).2 = .ok t →
    ∃ a stk', action? i = some a ∧ (a.step arith ip stk).2 = .ok stk' ∧ Holds t stk'

namespace Reading

variable {ι σ : Type} {m : Machine ι σ} {arith : Arithmetic} (R : Reading m arith)

/-- Code that runs to its end stands for actions that do, and they fit into any room that no
stack on the way exceeds. -/
theorem exec {ip : Nat} {code : List ι} {s t : σ} {stk : List Int64} (hs : R.Holds s stk)
    (h : m.exec ip code s = .ok t) :
    ∃ acts stk', code.map R.action? = acts.map some ∧
      (Action.machine arith).exec ip acts stk = .ok stk' ∧ R.Holds t stk' ∧
      ∀ room, (∀ u stk, R.Holds u stk → stk.length ≤ room) →
        Action.Fits room stk.length acts := by
  induction code generalizing ip s stk with
  | nil =>
    cases h
    exact ⟨[], stk, rfl, rfl, hs, fun _ _ => trivial⟩
  | cons i code ih =>
    rw [Machine.exec_cons] at h
    obtain ⟨u, hu, h⟩ := bind_eq_ok.mp h
    obtain ⟨a, stk₁, ha, hstep, hholds⟩ := R.step ip hs hu
    obtain ⟨acts, stk', hacts, hexec, ht, hfits⟩ := ih hholds h
    have hlen : stk₁.length = a.after stk.length := Action.length_step hstep
    refine ⟨a :: acts, stk', ?_, ?_, ht, fun room hroom => ⟨?_, ?_, ?_⟩⟩
    · rw [List.map_cons, List.map_cons, ha, hacts]
    · rw [Machine.exec_cons]
      change ((a.step arith ip stk).2 >>= _) = _
      rw [hstep, ok_bind, hexec]
    · exact Action.operands_le_of_step hstep
    · rw [← hlen]
      exact hroom u stk₁ hholds
    · rw [← hlen]
      exact hfits room hroom

end Reading

namespace Rpn

theorem exists_action {ip : Nat} {i : Instr} {s t : Store} (h : (step ip i s).2 = .ok t) :
    ∃ a, i.action? = some a ∧ a.operands ≤ s.size := by
  have hbounds : InBounds i s := (conduct_step ip i s).inBounds_of_ok h
  obtain ⟨op, value⟩ := i
  cases op with
  | loadInt => exact ⟨.load value, rfl, hbounds⟩
  | binary op => exact ⟨.binary op, rfl, hbounds⟩
  | negate => exact ⟨.negate, rfl, hbounds⟩
  | _ => cases h

def reading : Reading machine .checked where
  action? := Instr.action?
  Holds s stk := s.size = stk.length ∧ s.Holds stk
  step ip i s t stk hs h := by
    obtain ⟨a, ha, hop⟩ := exists_action h
    obtain ⟨stk', hstep, ht⟩ := (step_matches ip hs ha (hs.1 ▸ hop)).result.exists_of_ok h
    exact ⟨a, stk', ha, hstep, ht⟩

theorem result_eq_ok {s : Store} {v : Int64} (h : result s = .ok v) :
    s.size = 1 ∧ s.read 0 = .ok v := by
  unfold result at h
  split at h
  · exact ⟨‹_›, h⟩
  · cases h

theorem exists_expr_of_run {p : Program Instr} {v : Int64} (h : run p = .ok v) :
    ∃ e : Expr, e.WellFormed ∧ e.hasIdentity = false ∧
      p.code.map Instr.action? = e.actions.map some ∧ e.eval = .ok v := by
  obtain ⟨t, ht, hresult⟩ := bind_eq_ok.mp h
  have hstart : reading.Holds #[] [] := ⟨rfl, trivial⟩
  obtain ⟨acts, stk, hcode, hexec, ⟨hsize, hholds⟩, _⟩ := reading.exec hstart ht
  obtain ⟨hone, hread⟩ := result_eq_ok hresult
  obtain ⟨w, rfl⟩ := List.length_eq_one_iff.mp (hsize.symm.trans hone)
  cases hholds.read.symm.trans hread
  obtain ⟨e, he, hplus, rfl, hv⟩ := (Planted.nil.exec hexec).exists_expr
  exact ⟨e, he, hplus, hcode, hv⟩

theorem run_of_actions {p : Program Instr} {e : Expr} {v : Int64} (he : e.WellFormed)
    (hcode : p.code.map Instr.action? = e.actions.map some) (hv : e.eval = .ok v) :
    run p = .ok v := by
  rw [run_of_aligned he (Aligned.of_map_eq hcode 0)]
  exact Expr.perform_of_evalWith .checked he hv

end Rpn

namespace Stack

theorem exists_action {constants : Store} {ip : Nat} {i : Instr} {s t : Slots}
    (hs : s.sp ≤ s.store.size) (h : (step constants ip i s).2 = .ok t) :
    ∃ a, i.action? constants = some a ∧ a.operands ≤ s.sp ∧ a.after s.sp ≤ s.store.size := by
  obtain ⟨hop, _, hpush, hconst⟩ : InBounds constants i s :=
    (conduct_step ip i hs).inBounds_of_ok h
  obtain ⟨op, arg⟩ := i
  cases op with
  | loadInline => exact ⟨_, rfl, Nat.zero_le _, hpush rfl⟩
  | loadConst =>
    obtain ⟨v, hv⟩ : ∃ v, constants[arg.toNat]? = some v :=
      ⟨_, Array.getElem?_eq_getElem (hconst rfl)⟩
    exact ⟨.load v, Instr.action?_eq_load.mpr (Or.inr ⟨rfl, hv⟩), Nat.zero_le _, hpush rfl⟩
  | binary op => exact ⟨.binary op, rfl, hop, Nat.le_trans (Nat.pred_le _) hs⟩
  | negate => exact ⟨.negate, rfl, hop, hs⟩
  | _ => cases h

def reading (constants : Store) (room : Nat) : Reading (machine constants) .checked where
  action? := Instr.action? constants
  Holds := Slots.Holds room
  step ip i s t stk hs h := by
    obtain ⟨rfl, hdepth, hholds⟩ := hs
    have hsp : s.sp ≤ s.store.size := hdepth ▸ hholds.length_le
    obtain ⟨a, ha, hop, hroom⟩ := exists_action hsp h
    rw [hdepth] at hop hroom
    obtain ⟨stk', hstep, ht⟩ :=
      (step_matches ip ⟨rfl, hdepth, hholds⟩ ha hop hroom).result.exists_of_ok h
    exact ⟨a, stk', ha, hstep, ht⟩

theorem size_eq_ok_iff {p : Program Instr} {n : Nat} :
    size p = .ok n ↔ p.size = n ∧ n ≤ p.code.length := by
  refine ⟨checkedSize_eq_ok, ?_⟩
  rintro ⟨hsize, hle⟩
  rw [size, checkedSize, hsize, if_neg (by omega), Int.toNat_natCast]

theorem result_eq_ok {s : Slots} {v : Int64} (h : result s = .ok v) :
    s.sp = 1 ∧ s.store.read 0 = .ok v := by
  unfold result at h
  split at h
  · exact ⟨‹_›, h⟩
  · cases h

/-- The code of a program that has a value is that of a tree that has it, and the program declares
a storage that the tree does not exceed and the code can fill. -/
theorem exists_expr_of_run {p : Program Instr} {v : Int64} (h : run p = .ok v) :
    ∃ e : Expr, e.WellFormed ∧ e.hasIdentity = false ∧
      p.code.map (Instr.action? p.constants) = e.actions.map some ∧
      e.need ≤ p.size ∧ p.size ≤ p.code.length ∧ e.eval = .ok v := by
  obtain ⟨n, hn, h⟩ := bind_eq_ok.mp h
  obtain ⟨hsize, hle⟩ := size_eq_ok_iff.mp hn
  obtain ⟨t, ht, hresult⟩ := bind_eq_ok.mp h
  have hstart : (reading p.constants n).Holds ⟨Store.zeros n, 0⟩ [] :=
    ⟨by simp [Store.zeros], rfl, trivial⟩
  obtain ⟨acts, stk, hcode, hexec, ⟨_, hdepth, hholds⟩, hfits⟩ :=
    (reading p.constants n).exec hstart ht
  obtain ⟨hone, hread⟩ := result_eq_ok hresult
  obtain ⟨w, rfl⟩ := List.length_eq_one_iff.mp (hdepth.symm.trans hone)
  cases hholds.read.symm.trans hread
  obtain ⟨e, he, hplus, rfl, hv⟩ := (Planted.nil.exec hexec).exists_expr
  have hneed : 0 + e.need ≤ n :=
    (Expr.fits_actions_iff he).mp (hfits n fun _ _ => Slots.Holds.length_le)
  exact ⟨e, he, hplus, hcode, by omega, by omega, hv⟩

theorem run_of_actions {p : Program Instr} {e : Expr} {v : Int64} (he : e.WellFormed)
    (hcode : p.code.map (Instr.action? p.constants) = e.actions.map some)
    (hneed : e.need ≤ p.size) (hle : p.size ≤ p.code.length) (hv : e.eval = .ok v) :
    run p = .ok v := by
  obtain ⟨n, hn⟩ : ∃ n : Nat, p.size = n := ⟨p.size.toNat, by omega⟩
  have hroom : e.need ≤ (Store.zeros n).size := by
    simp only [Store.zeros, Array.size_replicate]
    omega
  rw [run, size_eq_ok_iff.mpr ⟨hn, by omega⟩, ok_bind,
    runFrom_of_aligned he (Aligned.of_map_eq hcode 0) hroom]
  exact Expr.perform_of_evalWith .checked he hv

end Stack

/-- The argument of a load counts from zero in its lower half and from below zero in its upper. -/
theorem Stack.Instr.toInt_literal (i : Stack.Instr) :
    i.literal.toInt =
      if i.arg.toNat < 32768 then (i.arg.toNat : Int) else i.arg.toNat - 65536 := by
  rw [literal, Int16.toInt_toInt64]
  change i.arg.toBitVec.toInt = _
  rw [BitVec.toInt_eq_toNat_cond, UInt16.toNat_toBitVec]
  omega

/-- A checked run of code put together by hand ends with a value exactly if the code, read as
actions, is a tree in postorder that has the value and no unary plus. A stack program also has to
declare a size that is no smaller than what the tree needs and no larger than the code; its loads
of literals extend the sign of their arguments. -/
theorem stack_machines_accept_postorder :
    (∀ i : Stack.Instr, i.literal.toInt =
      if i.arg.toNat < 32768 then (i.arg.toNat : Int) else i.arg.toNat - 65536) ∧
    (∀ (p : Program Stack.Instr) (v : Int64), Stack.run p = .ok v ↔
      ∃ e : Expr, e.WellFormed ∧ e.hasIdentity = false ∧
        p.code.map (Stack.Instr.action? p.constants) = e.actions.map some ∧
        e.need ≤ p.size ∧ p.size ≤ p.code.length ∧ e.eval = .ok v) ∧
    ∀ (p : Program Rpn.Instr) (v : Int64), Rpn.run p = .ok v ↔
      ∃ e : Expr, e.WellFormed ∧ e.hasIdentity = false ∧
        p.code.map Rpn.Instr.action? = e.actions.map some ∧ e.eval = .ok v := by
  refine ⟨Stack.Instr.toInt_literal, ?_, ?_⟩
  · refine fun p v => ⟨Stack.exists_expr_of_run, ?_⟩
    rintro ⟨e, he, _, hcode, hneed, hle, hv⟩
    exact Stack.run_of_actions he hcode hneed hle hv
  · refine fun p v => ⟨Rpn.exists_expr_of_run, ?_⟩
    rintro ⟨e, he, _, hcode, hv⟩
    exact Rpn.run_of_actions he hcode hv

/-- The code of `-3 + 2`, with the first literal held in the argument 65533 and with an argument at
the operator that nothing reads. -/
theorem sum_of_negative_literal_accepted :
    Stack.run ⟨[⟨.loadInline, 65533⟩, ⟨.loadInline, 2⟩, ⟨.binary .add, 7⟩], #[], 2, .unsealed⟩ =
      .ok (-1) := by
  obtain ⟨_, hstack, _⟩ := stack_machines_accept_postorder
  have hsum : (Expr.ofBinary .add (.ofInt (-3)) (.ofInt 2)).WellFormed := .binary .int .int
  exact (hstack _ _).mpr ⟨_, hsum, rfl, rfl, by decide, by decide, rfl⟩

end Abacus
