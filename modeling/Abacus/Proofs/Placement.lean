import Abacus.Proofs.Lockstep
import Abacus.Proofs.Observation

/-!
# Register code as stack code with its slots

The register encoder lays out the instructions of the stack encoder and names in each of them the
slots that a stack machine finds by its depth. So the two programs of a tree differ in nothing but
the registers, and their runs write the same values to the same slots.
-/
namespace Abacus

namespace Register

/-- Where the register encoder succeeds, the stack encoder lays out the same instructions without
their registers, and fills the pool alike. -/
theorem encode_toStack {e : Expr} {dst : UInt8} {s t : State} {b : Block Instr}
    (h : encode e dst s = .ok (b, t)) (d : StackDepth) :
    ∃ c d', Stack.encode e ⟨s.pool, d⟩ = .ok (c, ⟨t.pool, d'⟩) ∧
      c.toList = b.toList.map Instr.toStack := by
  induction e generalizing dst s t b d with
  | hole kind => cases h
  | int p literal v =>
    rw [encode, bind_eq_ok] at h
    obtain ⟨⟨i, pool⟩, hload, h⟩ := h
    cases h
    refine ⟨.single i.toStack, d.push, ?_, rfl⟩
    rw [Stack.encode, (load_ok hload).1]
    rfl
  | unary p op x ih =>
    cases op with
    | unknown c => cases h
    | known op =>
      cases op with
      | identity => exact ih h d
      | negate =>
        rw [encode, bind_eq_ok] at h
        obtain ⟨⟨cx, sx⟩, hcx, h⟩ := h
        cases h
        obtain ⟨c, d', hc, hcode⟩ := ih hcx d
        refine ⟨c ++ .single (.ofOp .negate), d', ?_, ?_⟩
        · rw [Stack.encode, hc]
          rfl
        · simp only [Block.toList_append, Block.toList_single, List.map_append, hcode]
          rfl
  | binary p op x y ihx ihy =>
    cases op with
    | unknown c => cases h
    | known op =>
      rw [encode, bind_eq_ok] at h
      obtain ⟨⟨cx, sx⟩, hcx, h⟩ := h
      rw [bind_eq_ok] at h
      obtain ⟨⟨rhs, registers⟩, _, h⟩ := h
      rw [bind_eq_ok] at h
      obtain ⟨⟨cy, sy⟩, hcy, h⟩ := h
      cases h
      obtain ⟨c, d₁, hc, hcode⟩ := ihx hcx d
      obtain ⟨c', d₂, hc', hcode'⟩ := ihy hcy d₁
      refine ⟨c ++ c' ++ .single (.ofOp (.binary op)), d₂.pop, ?_, ?_⟩
      · have hc' : Stack.encode y ⟨sx.pool, d₁⟩ = .ok (c', ⟨sy.pool, d₂⟩) := hc'
        simp only [Stack.encode, hc, ok_bind, hc']
        rfl
      · simp only [Block.toList_append, Block.toList_single, List.map_append, hcode, hcode']
        rfl

theorem compile_toStack {e : Expr} {p : Program Instr} (h : compile e = .ok p) :
    ∃ q, Stack.compile e = .ok q ∧ q.constants = p.constants ∧
      q.code = p.code.map Instr.toStack := by
  unfold compile at h
  rw [bind_eq_ok] at h
  obtain ⟨⟨dst, registers⟩, _, h⟩ := h
  rw [bind_eq_ok] at h
  obtain ⟨⟨b, t⟩, hb, h⟩ := h
  cases h
  obtain ⟨c, d, hc, hcode⟩ := encode_toStack hb {}
  refine ⟨{ code := c.toList, constants := t.pool.values, size := d.peak, origin := .compiler },
    ?_, rfl, hcode⟩
  unfold Stack.compile
  rw [show Stack.encode e {} = _ from hc]
  rfl

end Register

theorem Opcode.stackEffect_of_isLoad {op : Opcode} (h : op.isLoad = true) :
    op.stackEffect = 1 := by
  cases op with
  | loadInt => rfl
  | loadInline => rfl
  | loadConst => rfl
  | _ => cases h

theorem Opcode.Serves.stackEffect_eq {op : Opcode} {a : Action} (h : op.Serves a) {d : Nat}
    (hop : a.operands ≤ d) : (d : Int) + op.stackEffect = a.after d := by
  cases a with
  | load v =>
    rw [Opcode.stackEffect_of_isLoad h]
    rfl
  | negate =>
    rw [show op = .negate from h]
    exact Int.add_zero _
  | binary o =>
    have hop : 2 ≤ d := hop
    rw [show op = .binary o from h, Action.after_binary]
    change (d : Int) + -1 = _
    omega

namespace Aligned

variable {ι : Type} {Does : ι → Nat → Action → Prop} {d : Nat} {code : List ι}
  {acts : List Action}

theorem effects_eq_settle (h : Aligned Does d code acts) {room : Nat}
    (hf : Action.Fits room d acts) {opcode : ι → Opcode}
    (hserves : ∀ i d a, Does i d a → (opcode i).Serves a) (k : Nat) :
    (code.take k).foldl (fun d i => d + (opcode i).stackEffect) (d : Int) =
      Action.settle d (acts.take k) := by
  induction h generalizing k with
  | nil => simp [Action.settle]
  | @cons d i a code acts hi _ ih =>
    obtain ⟨hop, _, hrest⟩ := hf
    cases k with
    | zero => rfl
    | succ k =>
      rw [List.take_succ_cons, List.foldl_cons, (hserves i d a hi).stackEffect_eq hop]
      exact ih hrest k

end Aligned

namespace Action

theorem writes_conclude (ip : Nat) (op : Opcode) (stk : List Int64) {reads : List SlotEvent}
    (hreads : reads.filter (·.write) = []) (r : Except ArithmeticError Int64) :
    ((conclude ip op stk reads r).1.filter (·.write)).length ≤ 1 := by
  cases r with
  | error e => simp [conclude, hreads]
  | ok v => simp [conclude, hreads]

theorem length_writes_step_le (arith : Arithmetic) (ip : Nat) (a : Action) (stk : List Int64) :
    ((a.step arith ip stk).1.filter (·.write)).length ≤ 1 := by
  match a, stk with
  | .load v, stk => exact Nat.le_refl 1
  | .negate, x :: stk => exact writes_conclude _ _ _ rfl _
  | .binary op, y :: x :: stk => exact writes_conclude _ _ _ rfl _
  | .negate, [] => exact Nat.zero_le _
  | .binary op, [] => exact Nat.zero_le _
  | .binary op, [y] => exact Nat.zero_le _

end Action

/-- The order in which operands are read does not show in what is written. -/
theorem Tracking.writes {ι σ : Type} {m : Machine ι σ} {arith : Arithmetic} {room : Nat}
    (T : Tracking m arith room) {code : List ι} {acts : List Action} {s : σ} {stk : List Int64}
    (hs : T.Holds s stk) (hc : Aligned T.Does stk.length code acts)
    (hf : Action.Fits room stk.length acts) (ip : Nat) :
    (m.trace ip code s).filter (·.write) =
      ((Action.machine arith).trace ip acts stk).filter (·.write) := by
  refine T.trace_rel (R := fun xs ys => xs.filter (·.write) = ys.filter (·.write)) rfl ?_ ?_ hs hc
    hf ip
  · intro xs ys xs' ys' h h'
    rw [List.filter_append, List.filter_append, h, h']
  · intro ip a stk xs hperm
    have hwrites := hperm.filter (·.write)
    have hle := Action.length_writes_step_le arith ip a stk
    generalize (a.step arith ip stk).1.filter (·.write) = ys at hwrites hle
    match ys, hle with
    | [], _ => exact hwrites.eq_nil
    | [y], _ => exact List.perm_singleton.mp hwrites

theorem Tracking.writes_history {ι σ : Type} {m : Machine ι σ} {arith : Arithmetic} {e : Expr}
    (T : Tracking m arith e.need) (he : e.WellFormed) {code : List ι}
    (hc : Aligned T.Does 0 code e.actions) {s : σ} (hs : T.Holds s []) :
    (Event.slots (m.history 0 code s)).filter (·.write) =
      ((Action.machine arith).trace 0 e.actions []).filter (·.write) := by
  have hfits : Action.Fits e.need 0 e.actions := Expr.fits_actions he (by simp)
  rw [Machine.slots_history]
  exact T.writes hs hc hfits 0

namespace Register

variable {e : Expr}

theorem writes_history {p : Program Instr} (h : compile e = .ok p) :
    (Event.slots (Executable.register p).history).filter (·.write) =
      ((Action.machine .checked).trace 0 e.actions []).filter (·.write) := by
  obtain ⟨he, _, _, _, _, hc⟩ := compile_ok h
  rw [Executable.history, size_eq_need h]
  exact (tracking p.constants e.need).writes_history he hc ⟨by simp [Store.zeros], trivial⟩

end Register

theorem Stack.writes_history {e : Expr} {q : Program Stack.Instr} (h : Stack.compile e = .ok q) :
    (Event.slots (Executable.stack q).history).filter (·.write) =
      ((Action.machine .checked).trace 0 e.actions []).filter (·.write) := by
  obtain ⟨he, _, _, _, hc⟩ := compile_ok h
  rw [Executable.history, size_eq_need h]
  exact (tracking q.constants e.need).writes_history he hc ⟨by simp [Store.zeros], rfl, trivial⟩

end Abacus
