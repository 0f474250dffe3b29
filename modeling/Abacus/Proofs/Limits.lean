import Abacus.Proofs.Refusal

/-!
# The limits of the encoders

A well-formed tree is encoded as long as its large literals fit into the pool and, for register
code, its operands into the registers. A tree that asks for more is refused, and the fault names a
limit that the tree does exceed.
-/
namespace Abacus

/-- What an encoder makes of a tree that asks for so many constants and registers: code if both
are within the limits, and else the fault of a limit that is exceeded. -/
inductive Limited {α : Type} (constants registers : Nat) : Except Fault α → Prop
  | done {a} : constants ≤ maxConstants → registers ≤ maxRegisters →
      Limited constants registers (.ok a)
  | constants : maxConstants < constants →
      Limited constants registers (.error (Fault.compile .tooManyConstants))
  | registers : maxRegisters < registers →
      Limited constants registers (.error (Fault.compile .tooManyRegisters))

namespace Limited

variable {α β : Type} {constants registers constants' registers' : Nat} {r : Except Fault α}

theorem bind {k : α → Except Fault β} (h : Limited constants registers r)
    (hc : constants ≤ constants') (hr : registers ≤ registers')
    (hk : ∀ a, r = .ok a → constants ≤ maxConstants → registers ≤ maxRegisters →
      Limited constants' registers' (k a)) : Limited constants' registers' (r >>= k) := by
  cases h with
  | done hc hr => exact hk _ rfl hc hr
  | constants h => exact .constants (Nat.lt_of_lt_of_le h hc)
  | registers h => exact .registers (Nat.lt_of_lt_of_le h hr)

theorem map (h : Limited constants registers r) (f : α → β) :
    Limited constants registers (r >>= fun a => .ok (f a)) :=
  h.bind (Nat.le_refl _) (Nat.le_refl _) fun _ _ hc hr => .done hc hr

theorem exists_ok_iff (h : Limited constants registers r) :
    (∃ a, r = .ok a) ↔ constants ≤ maxConstants ∧ registers ≤ maxRegisters := by
  cases h with
  | done hc hr => exact ⟨fun _ => ⟨hc, hr⟩, fun _ => ⟨_, rfl⟩⟩
  | constants h => simp [Nat.not_le_of_lt h]
  | registers h => simp [Nat.not_le_of_lt h]

theorem eq_error (h : Limited constants registers r)
    (hlimits : ¬ (constants ≤ maxConstants ∧ registers ≤ maxRegisters)) :
    maxConstants < constants ∧ r = .error (Fault.compile .tooManyConstants) ∨
      maxRegisters < registers ∧ r = .error (Fault.compile .tooManyRegisters) := by
  cases h with
  | done hc hr => exact absurd ⟨hc, hr⟩ hlimits
  | constants h => exact Or.inl ⟨h, rfl⟩
  | registers h => exact Or.inr ⟨h, rfl⟩

theorem lt_of_cause {f : Fault} (h : Limited constants registers r) (hf : r = .error f)
    (hcause : f.cause = some .tooManyRegisters) : maxRegisters < registers := by
  cases h with
  | done _ _ => cases hf
  | constants _ =>
    cases hf
    cases hcause
  | registers h => exact h

theorem eq_tooManyRegisters (h : Limited constants registers r) (hc : constants ≤ maxConstants)
    (hr : maxRegisters < registers) : r = .error (Fault.compile .tooManyRegisters) := by
  cases h with
  | done _ h => exact absurd hr (Nat.not_lt_of_le h)
  | constants h => exact absurd hc (Nat.not_le_of_lt h)
  | registers _ => rfl

end Limited

theorem Pool.limited_add {pool : Pool} (v : Int64) {registers : Nat}
    (hr : registers ≤ maxRegisters) : Limited (pool.values.size + 1) registers (pool.add v) := by
  unfold add
  split
  · rename_i hlt
    exact .done hlt hr
  · rename_i hfull
    exact .constants (Nat.lt_succ_of_le (Nat.le_of_not_lt hfull))

theorem Registers.limited_alloc (r : Registers) {constants : Nat}
    (hc : constants ≤ maxConstants) : Limited constants (r.live + 1) r.alloc := by
  unfold alloc
  split
  · rename_i hlt
    exact .done hc hlt
  · rename_i hfull
    exact .registers (Nat.lt_succ_of_le (Nat.le_of_not_lt hfull))

namespace Stack

theorem limited_load (v : Int64) {pool : Pool} (hpool : pool.values.size ≤ maxConstants)
    {registers : Nat} (hr : registers ≤ maxRegisters) :
    Limited (pool.values.size + (if fitsInline v then [] else [v]).length) registers
      (load v pool) := by
  unfold load
  split
  · exact .done hpool hr
  · exact (Pool.limited_add v hr).map _

theorem Encoded.size_pool {e : Expr} {s t : State} {b : Block Instr} (h : Encoded e s b t) :
    t.pool.values.size = s.pool.values.size + e.pooled.length := by
  have hpool := congrArg List.length h.pool
  rwa [List.length_append, Array.length_toList, Array.length_toList] at hpool

theorem limited_encode {e : Expr} (he : e.WellFormed) (s : State)
    (hpool : s.pool.values.size ≤ maxConstants) :
    Limited (s.pool.values.size + e.pooled.length) 0 (encode e s) := by
  induction he generalizing s with
  | @int _ _ v => exact (limited_load v hpool (Nat.zero_le _)).map _
  | @unary _ op x _ ih =>
    cases op with
    | identity => exact ih s hpool
    | negate => exact (ih s hpool).map _
  | @binary _ op x y _ _ ihx ihy =>
    rw [Expr.pooled, List.length_append, ← Nat.add_assoc]
    refine (ihx s hpool).bind (Nat.le_add_right _ _) (Nat.le_refl _) ?_
    rintro ⟨cx, sx⟩ hx hc _
    have hsize := (encode_ok hx).size_pool
    rw [← hsize] at hc ⊢
    exact (ihy sx hc).map _

theorem limited_compile {e : Expr} (he : e.WellFormed) :
    Limited e.pooled.length 0 (compile e) := by
  have hencode : Limited (0 + e.pooled.length) 0 (encode e {}) :=
    limited_encode he {} (Nat.zero_le _)
  rw [Nat.zero_add] at hencode
  exact hencode.map _

end Stack

namespace Register

theorem limited_load (v : Int64) (dst : UInt8) {pool : Pool}
    (hpool : pool.values.size ≤ maxConstants) {registers : Nat} (hr : registers ≤ maxRegisters) :
    Limited (pool.values.size + (if fitsInline v then [] else [v]).length) registers
      (load v dst pool) := by
  rw [load_eq]
  exact (Stack.limited_load v hpool hr).map _

theorem Encoded.size_pool {e : Expr} {dst : UInt8} {s t : State} {b : Block Instr}
    (h : Encoded e dst s b t) :
    t.pool.values.size = s.pool.values.size + e.pooled.length := by
  have hpool := congrArg List.length h.pool
  rwa [List.length_append, Array.length_toList, Array.length_toList] at hpool

/-- A tree is encoded from its destination upwards, so the registers below count too. -/
theorem limited_encode {e : Expr} (he : e.WellFormed) (dst : UInt8) (s : State)
    (hlive : s.registers.live = dst.toNat + 1) (hpeak : s.registers.live ≤ s.registers.peak)
    (hpool : s.pool.values.size ≤ maxConstants) :
    Limited (s.pool.values.size + e.pooled.length) (dst.toNat + e.need) (encode e dst s) := by
  induction he generalizing dst s with
  | @int _ _ v => exact (limited_load v dst hpool dst.toNat_lt).map _
  | @unary _ op x _ ih =>
    cases op with
    | identity => exact ih dst s hlive hpeak hpool
    | negate => exact (ih dst s hlive hpeak hpool).map _
  | @binary _ op x y hx hy ihx ihy =>
    have hy := hy.need_pos
    rw [Expr.pooled, Expr.need, List.length_append]
    refine (ihx dst s hlive hpeak hpool).bind (by omega) (by omega) ?_
    rintro ⟨cx, sx⟩ hcx hxpool hxroom
    -- Of the registers of `x` only the destination is still in use, so `y` goes into the next.
    have hencoded := encode_ok hcx hlive hpeak
    have hsxlive := hencoded.live
    have hsize := hencoded.size_pool
    refine (sx.registers.limited_alloc (hsize ▸ hxpool)).bind (by omega) (by omega) ?_
    rintro ⟨rhs, registers⟩ halloc _ _
    obtain ⟨hrhs, hrlive, hrpeak, _⟩ := Registers.alloc_ok halloc
    have hcy : Limited (sx.pool.values.size + y.pooled.length) (rhs.toNat + y.need)
        (encode y rhs { sx with registers }) :=
      ihy rhs { sx with registers } (by simp only; omega) (by simp only; omega) (hsize ▸ hxpool)
    refine hcy.bind (by omega) (by omega) ?_
    intro _ _ hypool hyroom
    exact .done (by omega) (by omega)

theorem limited_compile {e : Expr} (he : e.WellFormed) :
    Limited e.pooled.length e.need (compile e) := by
  refine (Registers.limited_alloc {} (Nat.zero_le _)).bind (Nat.zero_le _) he.need_pos ?_
  rintro ⟨dst, registers⟩ halloc _ _
  obtain ⟨hdst, hlive, hpeak, _⟩ := Registers.alloc_ok halloc
  have hdst : dst.toNat = 0 := hdst
  have hlive : registers.live = 1 := hlive
  have hpeak : registers.peak = 1 := hpeak
  have hencode : Limited (0 + e.pooled.length) (dst.toNat + e.need) (encode e dst { registers }) :=
    limited_encode he dst { registers } (by simp only; omega) (by simp only; omega) (Nat.zero_le _)
  rw [hdst, Nat.zero_add, Nat.zero_add] at hencode
  exact hencode.map _

end Register

section Backends

variable {e : Expr}

theorem exists_compile (he : e.WellFormed) (hc : e.pooled.length ≤ maxConstants)
    (hr : e.need ≤ maxRegisters) (b : Backend) : ∃ x, compile b e = .ok x := by
  cases b with
  | rpn =>
    rcases Rpn.compile_cases e with ⟨_, p, hp⟩ | ⟨c, f, hdefect, _⟩
    · refine ⟨.rpn p, ?_⟩
      rw [compile, hp]
      rfl
    · cases hdefect.symm.trans (Expr.defect?_eq_none_iff.mpr he)
  | stack =>
    obtain ⟨p, hp⟩ := (Stack.limited_compile he).exists_ok_iff.mpr ⟨hc, Nat.zero_le _⟩
    refine ⟨.stack p, ?_⟩
    rw [compile, hp]
    rfl
  | register =>
    obtain ⟨p, hp⟩ := (Register.limited_compile he).exists_ok_iff.mpr ⟨hc, hr⟩
    refine ⟨.register p, ?_⟩
    rw [compile, hp]
    rfl

end Backends
end Abacus
