import Abacus.Proofs.Machines

/-!
# The encoders lay out actions

The code that an encoder produces for a tree stands for the actions of the tree in order. The pool
grows by the literals that do not fit into an instruction, the depth counter and the registers
return to one more than where they started, and the peaks rise to what the tree needs. Nothing is
said of trees that an encoder refuses.
-/
namespace Abacus

theorem fitsInline_iff {v : Int64} :
    fitsInline v = true ↔ -32768 ≤ v.toInt ∧ v.toInt ≤ 32767 := by
  unfold fitsInline
  rw [Bool.and_eq_true, decide_eq_true_eq, decide_eq_true_eq, Int64.le_iff_toInt_le,
    Int64.le_iff_toInt_le]
  rfl

namespace Expr

def literals : Expr → List Int64
  | .hole _ => []
  | .int _ _ v => [v]
  | .unary _ _ x => x.literals
  | .binary _ _ x y => x.literals ++ y.literals

/-- The literals that an instruction cannot hold, from left to right. -/
def pooled : Expr → List Int64
  | .hole _ => []
  | .int _ _ v => if fitsInline v then [] else [v]
  | .unary _ _ x => x.pooled
  | .binary _ _ x y => x.pooled ++ y.pooled

theorem pooled_eq_filter (e : Expr) : e.pooled = e.literals.filter fun v => !fitsInline v := by
  induction e with
  | hole kind => rfl
  | int p literal v => cases h : fitsInline v <;> simp [pooled, literals, h]
  | unary p op x ih => exact ih
  | binary p op x y ihx ihy => rw [pooled, literals, List.filter_append, ihx, ihy]

end Expr

namespace Rpn

theorem encode_ok {e : Expr} {b : Block Instr} (h : encode e = .ok b) :
    e.WellFormed ∧ ∀ d, Aligned (fun i _ a => i.action? = some a) d b.toList e.actions := by
  induction e generalizing b with
  | hole kind => cases h
  | int p literal v =>
    cases h
    exact ⟨.int, fun d => .single rfl⟩
  | unary p op x ih =>
    cases op with
    | unknown c => cases h
    | known op =>
      cases op with
      | identity =>
        obtain ⟨hx, hc⟩ := ih h
        exact ⟨.unary hx, hc⟩
      | negate =>
        rw [encode, bind_eq_ok] at h
        obtain ⟨cx, hcx, h⟩ := h
        cases h
        obtain ⟨hx, hc⟩ := ih hcx
        refine ⟨.unary hx, fun d => ?_⟩
        rw [Block.toList_append, Expr.actions]
        exact (hc d).append (.single rfl)
  | binary p op x y ihx ihy =>
    cases op with
    | unknown c => cases h
    | known op =>
      rw [encode, bind_eq_ok] at h
      obtain ⟨cx, hcx, h⟩ := h
      rw [bind_eq_ok] at h
      obtain ⟨cy, hcy, h⟩ := h
      cases h
      obtain ⟨hx, hc⟩ := ihx hcx
      obtain ⟨hy, hc'⟩ := ihy hcy
      refine ⟨.binary hx hy, fun d => ?_⟩
      rw [Block.toList_append, Block.toList_append, Expr.actions]
      exact ((hc d).append (hc' _)).append (.single rfl)

end Rpn

theorem Pool.add_ok {pool q : Pool} {v : Int64} {i : UInt16} (h : pool.add v = .ok (i, q)) :
    i.toNat = pool.values.size ∧ q.values.toList = pool.values.toList ++ [v] := by
  unfold add at h
  split at h
  · rename_i hlt
    cases h
    exact ⟨UInt16.toNat_ofNat_of_lt' hlt, Array.toList_push⟩
  · cases h

theorem StackDepth.peak_push (d : StackDepth) : d.push.peak = max d.peak (d.current + 1) := by
  unfold push
  simp only
  split <;> omega

theorem Registers.alloc_ok {r q : Registers} {reg : UInt8} (h : r.alloc = .ok (reg, q)) :
    reg.toNat = r.live ∧ q.live = r.live + 1 ∧ q.peak = max r.peak (r.live + 1) ∧
      r.live < maxRegisters := by
  unfold alloc at h
  split at h
  · rename_i hlt
    cases h
    refine ⟨UInt8.toNat_ofNat_of_lt' hlt, rfl, ?_, hlt⟩
    simp only
    split <;> omega
  · cases h

namespace Stack

theorem literal_inline {v : Int64} (h : fitsInline v = true) :
    (⟨.loadInline, v.toInt16.toUInt16⟩ : Instr).literal = v := by
  obtain ⟨lower, upper⟩ := fitsInline_iff.mp h
  unfold Instr.literal
  apply Int64.toInt_inj.mp
  rw [Int16.toInt16_toUInt16, Int16.toInt_toInt64, Int64.toInt_toInt16, Int.bmod_eq_of_le] <;> omega

theorem load_ok {v : Int64} {pool q : Pool} {i : Instr} (h : load v pool = .ok (i, q)) :
    q.values.toList = pool.values.toList ++ (if fitsInline v then [] else [v]) ∧
      ∀ constants : Store, q.values.toList <+: constants.toList →
        i.action? constants = some (.load v) := by
  unfold load at h
  split at h
  · rename_i hfits
    cases h
    rw [if_pos hfits, List.append_nil]
    refine ⟨rfl, fun constants _ => ?_⟩
    exact Instr.action?_eq_load.mpr (Or.inl ⟨rfl, literal_inline hfits⟩)
  · rename_i hfits
    rw [bind_eq_ok] at h
    obtain ⟨⟨idx, pool'⟩, hadd, h⟩ := h
    cases h
    obtain ⟨hidx, hq⟩ := Pool.add_ok hadd
    rw [if_neg hfits]
    refine ⟨hq, ?_⟩
    rintro constants ⟨rest, hrest⟩
    refine Instr.action?_eq_load.mpr (Or.inr ⟨rfl, ?_⟩)
    change constants[idx.toNat]? = some v
    rw [← Array.getElem?_toList, ← hrest, hq, hidx]
    simp

/-- What the stack encoder has done for a tree when it takes the state `s` to `t`. -/
structure Encoded (e : Expr) (s : State) (b : Block Instr) (t : State) : Prop where
  wellFormed : e.WellFormed
  pool : t.pool.values.toList = s.pool.values.toList ++ e.pooled
  current : t.depth.current = s.depth.current + 1
  peak : t.depth.peak = max s.depth.peak (s.depth.current + e.need)
  /-- The code goes with the pool at the end of encoding, whatever has been added meanwhile. -/
  aligned : ∀ (constants : Store) (d : Nat), t.pool.values.toList <+: constants.toList →
    Aligned (fun i _ a => i.action? constants = some a) d b.toList e.actions

theorem encode_ok {e : Expr} {s t : State} {b : Block Instr} (h : encode e s = .ok (b, t)) :
    Encoded e s b t := by
  induction e generalizing s t b with
  | hole kind => cases h
  | int p literal v =>
    rw [encode, bind_eq_ok] at h
    obtain ⟨⟨i, pool⟩, hload, h⟩ := h
    cases h
    obtain ⟨hpool, hi⟩ := load_ok hload
    exact {
      wellFormed := .int
      pool := hpool
      current := rfl
      peak := StackDepth.peak_push s.depth
      aligned := fun constants d hc => .single (hi constants hc) }
  | unary p op x ih =>
    cases op with
    | unknown c => cases h
    | known op =>
      cases op with
      | identity =>
        have hx := ih h
        exact { hx with wellFormed := .unary hx.wellFormed }
      | negate =>
        rw [encode, bind_eq_ok] at h
        obtain ⟨⟨cx, s'⟩, hcx, h⟩ := h
        cases h
        have hx := ih hcx
        refine { hx with wellFormed := .unary hx.wellFormed, aligned := fun constants d hc => ?_ }
        rw [Block.toList_append, Expr.actions]
        exact (hx.aligned constants d hc).append (.single rfl)
  | binary p op x y ihx ihy =>
    cases op with
    | unknown c => cases h
    | known op =>
      rw [encode, bind_eq_ok] at h
      obtain ⟨⟨cx, sx⟩, hcx, h⟩ := h
      rw [bind_eq_ok] at h
      obtain ⟨⟨cy, sy⟩, hcy, h⟩ := h
      cases h
      have hx := ihx hcx
      have hy := ihy hcy
      refine ⟨.binary hx.wellFormed hy.wellFormed, ?_, ?_, ?_, fun constants d hc => ?_⟩
      · rw [hy.pool, hx.pool, Expr.pooled, List.append_assoc]
      · simp only [StackDepth.pop, hy.current, hx.current]
        omega
      · simp only [StackDepth.pop, hy.peak, hx.peak, hx.current, Expr.need]
        omega
      · have hsub : sx.pool.values.toList <+: constants.toList :=
          List.IsPrefix.trans ⟨y.pooled, hy.pool.symm⟩ hc
        rw [Block.toList_append, Block.toList_append, Expr.actions]
        exact ((hx.aligned constants d hsub).append (hy.aligned constants _ hc)).append
          (.single rfl)

end Stack

namespace Register

theorem load_eq (v : Int64) (dst : UInt8) (pool : Pool) :
    load v dst pool = Stack.load v pool >>= fun r =>
      .ok ({ op := r.1.op, dst, arg := r.1.arg }, r.2) := by
  unfold load Stack.load
  split
  · rfl
  · cases pool.add v <;> rfl

theorem load_ok {v : Int64} {dst : UInt8} {pool q : Pool} {i : Instr}
    (h : load v dst pool = .ok (i, q)) : Stack.load v pool = .ok (i.toStack, q) ∧ i.dst = dst := by
  rw [load_eq, bind_eq_ok] at h
  obtain ⟨⟨j, q'⟩, hj, h⟩ := h
  cases h
  exact ⟨hj, rfl⟩

/-- What the register encoder has done for a tree with destination `dst` when it takes the state
`s` to `t`. -/
structure Encoded (e : Expr) (dst : UInt8) (s : State) (b : Block Instr) (t : State) : Prop where
  wellFormed : e.WellFormed
  pool : t.pool.values.toList = s.pool.values.toList ++ e.pooled
  live : t.registers.live = dst.toNat + 1
  peak : t.registers.peak = max s.registers.peak (dst.toNat + e.need)
  peak_le : s.registers.peak ≤ maxRegisters → t.registers.peak ≤ maxRegisters
  aligned : ∀ constants : Store, t.pool.values.toList <+: constants.toList →
    Aligned (Instr.Does constants) dst.toNat b.toList e.actions

/-- The destination is the last register in use before and after; the ones above it are free. -/
theorem encode_ok {e : Expr} {dst : UInt8} {s t : State} {b : Block Instr}
    (h : encode e dst s = .ok (b, t)) (hlive : s.registers.live = dst.toNat + 1)
    (hpeak : s.registers.live ≤ s.registers.peak) : Encoded e dst s b t := by
  induction e generalizing dst s t b with
  | hole kind => cases h
  | int p literal v =>
    rw [encode, bind_eq_ok] at h
    obtain ⟨⟨i, pool⟩, hload, h⟩ := h
    cases h
    obtain ⟨hstack, hdst⟩ := load_ok hload
    obtain ⟨hpool, hi⟩ := Stack.load_ok hstack
    refine ⟨.int, hpool, hlive, ?_, id, fun constants hc => ?_⟩
    · simp only [Expr.need]
      omega
    · exact .single ⟨hi constants hc, congrArg UInt8.toNat hdst⟩
  | unary p op x ih =>
    cases op with
    | unknown c => cases h
    | known op =>
      cases op with
      | identity =>
        have hx := ih h hlive hpeak
        exact { hx with wellFormed := .unary hx.wellFormed }
      | negate =>
        rw [encode, bind_eq_ok] at h
        obtain ⟨⟨cx, s'⟩, hcx, h⟩ := h
        cases h
        have hx := ih hcx hlive hpeak
        refine { hx with wellFormed := .unary hx.wellFormed, aligned := fun constants hc => ?_ }
        rw [Block.toList_append, Expr.actions]
        refine (hx.aligned constants hc).append (.single ⟨rfl, ?_⟩)
        rw [Expr.settle_actions hx.wellFormed]
        exact ⟨rfl, rfl⟩
  | binary p op x y ihx ihy =>
    cases op with
    | unknown c => cases h
    | known op =>
      rw [encode, bind_eq_ok] at h
      obtain ⟨⟨cx, sx⟩, hcx, h⟩ := h
      rw [bind_eq_ok] at h
      obtain ⟨⟨rhs, registers⟩, halloc, h⟩ := h
      rw [bind_eq_ok] at h
      obtain ⟨⟨cy, sy⟩, hcy, h⟩ := h
      cases h
      have hx := ihx hcx hlive hpeak
      obtain ⟨hrhs, hrlive, hrpeak, hlt⟩ := Registers.alloc_ok halloc
      have hy := ihy hcy (by simp only; omega) (by simp only; omega)
      have hrhs : rhs.toNat = dst.toNat + 1 := hrhs.trans hx.live
      refine ⟨.binary hx.wellFormed hy.wellFormed, ?_, hrhs, ?_, ?_, fun constants hc => ?_⟩
      · rw [hy.pool, hx.pool, Expr.pooled, List.append_assoc]
      · have hp := hy.wellFormed.need_pos
        simp only [Registers.free, hy.peak, hrpeak, hx.peak, hx.live, hrhs, Expr.need]
        omega
      · intro hs
        have hle := hx.peak_le hs
        apply hy.peak_le
        simp only
        omega
      · have hsub : sx.pool.values.toList <+: constants.toList :=
          List.IsPrefix.trans ⟨y.pooled, hy.pool.symm⟩ hc
        have hcy := hy.aligned constants hc
        rw [hrhs, ← Expr.settle_actions hx.wellFormed] at hcy
        rw [Block.toList_append, Block.toList_append, Expr.actions]
        refine ((hx.aligned constants hsub).append hcy).append (.single ⟨rfl, ?_⟩)
        rw [Action.settle_append, Expr.settle_actions hx.wellFormed,
          Expr.settle_actions hy.wellFormed]
        exact ⟨rfl, rfl, congrArg Nat.succ hrhs⟩

end Register
end Abacus
