import Abacus.Proofs.Requests

/-!
# What the encoders can hold

A pool has as many entries as its index field can tell apart, and there are as many registers as a
register field can. An encoder gives up before a number leaves its field, so the code that it
returns is the code that fields of any width would hold. It gives up exactly on the trees that need
more: more large literals than the pool has entries, or more operands at a time than there are
registers.
-/
namespace Abacus

/-- An instruction whose fields hold numbers of any size. -/
structure WideInstr where
  op : Opcode
  dst : Nat := 0
  lhs : Nat := 0
  rhs : Nat := 0
  arg : Int := 0

/-- The load of a literal into the register `r`, as the entry `k` of the pool if it does not fit. -/
def WideInstr.load (v : Int64) (k r : Nat) : WideInstr :=
  if fitsInline v then { op := .loadInline, dst := r, arg := v.toInt }
  else { op := .loadConst, dst := r, arg := k }

namespace Expr

def largeLiterals (e : Expr) : Nat :=
  e.literals.countP fun v => v.toInt < -32768 ∨ 32767 < v.toInt

theorem length_pooled (e : Expr) : e.pooled.length = e.largeLiterals := by
  rw [pooled_eq_filter, ← List.countP_eq_length_filter, largeLiterals]
  refine List.countP_congr fun v _ => ?_
  rw [Bool.not_eq_true', ← Bool.not_eq_true, fitsInline_iff, decide_eq_true_eq]
  omega

def layout : Expr → Nat → Nat → List WideInstr
  | .int _ _ v, k, r => [.load v k r]
  | .unary _ (.known .negate) x, k, r =>
    x.layout k r ++ [{ op := .negate, dst := r, lhs := r }]
  | .unary _ (.known .identity) x, k, r => x.layout k r
  | .binary _ (.known op) x y, k, r =>
    x.layout k r ++ y.layout (k + x.pooled.length) (r + 1) ++
      [{ op := .binary op, dst := r, lhs := r, rhs := r + 1 }]
  | _, _, _ => []

end Expr

namespace Stack

def Instr.operand (i : Instr) : Int :=
  if i.op = .loadInline then i.literal.toInt else i.arg.toNat

theorem operand_of_load {v : Int64} {pool q : Pool} {i : Instr} (h : load v pool = .ok (i, q))
    (r : Nat) : i.op = (WideInstr.load v pool.values.size r).op ∧
      i.operand = (WideInstr.load v pool.values.size r).arg := by
  unfold load at h
  unfold WideInstr.load
  split at h
  · rename_i hfits
    cases h
    simp [Instr.operand, literal_inline hfits, hfits]
  · rename_i hfits
    obtain ⟨⟨idx, pool'⟩, hadd, h⟩ := bind_eq_ok.mp h
    cases h
    simp [Instr.operand, hfits, (Pool.add_ok hadd).1]

theorem layout_of_encode {e : Expr} {s t : State} {b : Block Instr} (h : encode e s = .ok (b, t))
    (r : Nat) :
    b.toList.map (fun i => (i.op, i.operand)) =
      (e.layout s.pool.values.size r).map fun i => (i.op, i.arg) := by
  induction e generalizing s t b r with
  | hole kind => cases h
  | int p literal v =>
    obtain ⟨⟨i, pool⟩, hload, h⟩ := bind_eq_ok.mp h
    cases h
    obtain ⟨hop, harg⟩ := operand_of_load hload r
    simp only [Block.toList_single, List.map_singleton, Expr.layout, hop, harg]
  | unary p op x ih =>
    cases op with
    | unknown c => cases h
    | known op =>
      cases op with
      | identity => exact ih h r
      | negate =>
        obtain ⟨⟨cx, s'⟩, hcx, h⟩ := bind_eq_ok.mp h
        cases h
        rw [Block.toList_append, List.map_append, ih hcx r, Expr.layout, List.map_append]
        rfl
  | binary p op x y ihx ihy =>
    cases op with
    | unknown c => cases h
    | known op =>
      obtain ⟨⟨cx, sx⟩, hcx, h⟩ := bind_eq_ok.mp h
      obtain ⟨⟨cy, sy⟩, hcy, h⟩ := bind_eq_ok.mp h
      cases h
      rw [Block.toList_append, Block.toList_append, List.map_append, List.map_append, ihx hcx r,
        ihy hcy (r + 1), (encode_ok hcx).size_pool, Expr.layout, List.map_append, List.map_append]
      rfl

theorem layout_of_compile {e : Expr} {p : Program Instr} (h : compile e = .ok p) :
    p.code.map (fun i => (i.op, i.operand)) = (e.layout 0 0).map fun i => (i.op, i.arg) := by
  obtain ⟨⟨b, t⟩, hb, h⟩ := bind_eq_ok.mp h
  cases h
  exact layout_of_encode hb 0

end Stack

namespace Register

def Instr.widen (i : Instr) : WideInstr :=
  ⟨i.op, i.dst.toNat, i.lhs.toNat, i.rhs.toNat, i.toStack.operand⟩

theorem widen_of_load {v : Int64} {dst : UInt8} {pool q : Pool} {i : Instr}
    (h : load v dst pool = .ok (i, q)) : i.widen = .load v pool.values.size dst.toNat := by
  rw [load_eq, bind_eq_ok] at h
  obtain ⟨⟨j, q'⟩, hj, h⟩ := h
  cases h
  obtain ⟨hop, harg⟩ := Stack.operand_of_load hj dst.toNat
  have hwiden : Instr.widen { op := j.op, dst, arg := j.arg } =
      { op := j.op, dst := dst.toNat, arg := j.operand } := rfl
  rw [hwiden, hop, harg, WideInstr.load]
  split <;> rfl

theorem layout_of_encode {e : Expr} {dst : UInt8} {s t : State} {b : Block Instr}
    (h : encode e dst s = .ok (b, t)) (hlive : s.registers.live = dst.toNat + 1)
    (hpeak : s.registers.live ≤ s.registers.peak) :
    b.toList.map Instr.widen = e.layout s.pool.values.size dst.toNat := by
  induction e generalizing dst s t b with
  | hole kind => cases h
  | int p literal v =>
    obtain ⟨⟨i, pool⟩, hload, h⟩ := bind_eq_ok.mp h
    cases h
    rw [Block.toList_single, List.map_singleton, widen_of_load hload, Expr.layout]
  | unary p op x ih =>
    cases op with
    | unknown c => cases h
    | known op =>
      cases op with
      | identity => exact ih h hlive hpeak
      | negate =>
        obtain ⟨⟨cx, s'⟩, hcx, h⟩ := bind_eq_ok.mp h
        cases h
        rw [Block.toList_append, List.map_append, ih hcx hlive hpeak]
        rfl
  | binary p op x y ihx ihy =>
    cases op with
    | unknown c => cases h
    | known op =>
      obtain ⟨⟨cx, sx⟩, hcx, h⟩ := bind_eq_ok.mp h
      obtain ⟨⟨rhs, registers⟩, halloc, h⟩ := bind_eq_ok.mp h
      obtain ⟨⟨cy, sy⟩, hcy, h⟩ := bind_eq_ok.mp h
      cases h
      have hx := encode_ok hcx hlive hpeak
      have hsxlive := hx.live
      obtain ⟨hrhs, hrlive, hrpeak, _⟩ := Registers.alloc_ok halloc
      have hrhs : rhs.toNat = dst.toNat + 1 := hrhs.trans hx.live
      have hcode := ihy hcy (by simp only; omega) (by simp only; omega)
      rw [hrhs, hx.size_pool] at hcode
      rw [Block.toList_append, Block.toList_append, List.map_append, List.map_append,
        ihx hcx hlive hpeak, hcode, Expr.layout]
      simp [Instr.widen, Instr.ofBinary, hrhs, Instr.toStack, Stack.Instr.operand]

theorem layout_of_compile {e : Expr} {p : Program Instr} (h : compile e = .ok p) :
    p.code.map Instr.widen = e.layout 0 0 := by
  rw [compile, Registers.alloc_empty, ok_bind, bind_eq_ok] at h
  obtain ⟨⟨b, t⟩, hb, h⟩ := h
  cases h
  exact layout_of_encode hb rfl (Nat.le_refl 1)

end Register

/-- The encoder without limits accepts the trees without a flawed node, and refuses any other for
its first one in preorder. The limits on the rest are met in the order of the requests of a tree:
every encoder fails, with a fault of encoding, for the first that it cannot grant. A tree without a
flaw has stack code unless it has too many large literals, and register code unless moreover it
needs too many registers. No number in the code was cut to the width of its field. -/
theorem compile_within_limits (e : Expr) :
    ((∃ p, Rpn.compile e = .ok p) ↔ ∀ x ∈ e.nodes, x.flaw? = none) ∧
    (∀ c, e.nodes.findSome? Expr.flaw? = some c →
      ∃ f, Rpn.compile e = .error f ∧ f.kind = .compile ∧ f.cause = some c) ∧
    ((∀ x ∈ e.nodes, x.flaw? = none) →
      ((∃ p, Stack.compile e = .ok p) ↔ e.largeLiterals ≤ 65536) ∧
      (65536 < e.largeLiterals →
        Stack.compile e = .error (Fault.compile .tooManyConstants)) ∧
      ((∃ p, Register.compile e = .ok p) ↔ e.largeLiterals ≤ 65536 ∧ e.need ≤ 256) ∧
      (¬ (e.largeLiterals ≤ 65536 ∧ e.need ≤ 256) →
        Register.compile e = .error (Fault.compile .tooManyConstants) ∨
        Register.compile e = .error (Fault.compile .tooManyRegisters))) ∧
    (∀ b, ((∃ x, compile b e = .ok x) ↔ Request.Granted b 0 (e.requests 0)) ∧
      ∀ f, compile b e = .error f → f.kind = .compile ∧
        ∃ before r after c, e.requests 0 = before ++ r :: after ∧ Request.Granted b 0 before ∧
          r.refusal? b (before.count .constant) = some c ∧ f.cause = some c) ∧
    (∀ p, Stack.compile e = .ok p →
      p.code.map (fun i => (i.op, i.operand)) = (e.layout 0 0).map fun i => (i.op, i.arg)) ∧
    ∀ p, Register.compile e = .ok p → p.code.map Register.Instr.widen = e.layout 0 0 := by
  rw [← Expr.wellFormed_iff_flaw?, ← Expr.defect?_eq_findSome?, ← Expr.length_pooled]
  refine ⟨?_, ?_, fun he => ?_, fun b => ⟨(served_compile b e).exists_ok_iff, fun f hf => ?_⟩,
    fun p => Stack.layout_of_compile, fun p => Register.layout_of_compile⟩
  · rw [← Expr.defect?_eq_none_iff]
    rcases Rpn.compile_cases e with ⟨hnone, p, hp⟩ | ⟨c, f, hc, hf, _⟩
    · simp [hnone, hp]
    · simp [hc, hf]
  · intro c hc
    rcases Rpn.compile_cases e with ⟨hnone, _⟩ | ⟨c', f, hc', hf, hkind, hcause⟩
    · cases hnone.symm.trans hc
    · cases hc.symm.trans hc'
      exact ⟨f, hf, hkind, hcause⟩
  · have hstack := Stack.limited_compile he
    have hregister := Register.limited_compile he
    refine ⟨?_, fun hlarge => ?_, hregister.exists_ok_iff, fun hlimits => ?_⟩
    · exact hstack.exists_ok_iff.trans (and_iff_left (Nat.zero_le _))
    · rcases hstack.eq_error fun h => absurd h.1 (Nat.not_le_of_lt hlarge) with ⟨_, h⟩ | ⟨h, _⟩
      · exact h
      · cases h
    · exact (hregister.eq_error hlimits).imp And.right And.right
  · have hserved := served_compile b e
    rw [hf] at hserved
    simpa using hserved.exists_refused

end Abacus
