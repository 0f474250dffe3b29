import Abacus.Generator
import Abacus.Proofs.Agreement
import Abacus.Proofs.Limits

/-!
# Generated trees

Whatever is drawn, a generator returns a tree that it can have grown: its operators and its
literals are those of the options, and a path to a literal has at most as many operators as the
depth allows. A level adds at most one slot and at most doubles the literals. So with sixteen
levels the constants just fit into the pool, and every encoder takes the tree. Large literals are
meant for the pool, and all but one of them have to go there.
-/
namespace Abacus

namespace Expr

def binaryOps : Expr → List BinaryOp
  | .hole _ => []
  | .int _ _ _ => []
  | .unary _ _ x => x.binaryOps
  | .binary _ (.known op) x y => op :: (x.binaryOps ++ y.binaryOps)
  | .binary _ (.unknown _) x y => x.binaryOps ++ y.binaryOps

theorem length_pooled_le (e : Expr) : e.pooled.length ≤ e.literals.length := by
  rw [pooled_eq_filter]
  exact List.length_filter_le _ _

end Expr

section Words

theorem not_le_zero {n : Int64} (h : 0 < n.toInt) : ¬ n ≤ 0 := by
  rw [Int64.le_iff_toInt_le, Int64.toInt_zero]
  omega

theorem toInt_mod_bounds {a n : Int64} (ha : 0 ≤ a.toInt) (hn : 0 < n.toInt) :
    0 ≤ (a % n).toInt ∧ (a % n).toInt < n.toInt := by
  rw [Int64.toInt_mod]
  exact ⟨Int.tmod_nonneg _ ha, Int.tmod_lt_of_pos _ hn⟩

theorem toInt_toInt64 {w : UInt64} (h : w.toNat < 9223372036854775808) :
    w.toInt64.toInt = w.toNat :=
  BitVec.toInt_eq_toNat_of_lt (x := w.toBitVec) (by rw [UInt64.toNat_toBitVec]; omega)

theorem toNat_toUInt64 {n : Int64} (h : 0 < n.toInt) : (n.toUInt64.toNat : Int) = n.toInt := by
  have hbits : n.toInt = n.toUInt64.toBitVec.toInt := rfl
  have hlt := n.toUInt64.toNat_lt
  rw [BitVec.toInt_eq_toNat_cond, UInt64.toNat_toBitVec] at hbits
  omega

theorem toInt_mod_toUInt64_bounds {n : Int64} (h : 0 < n.toInt) (v : UInt64) :
    0 ≤ (v % n.toUInt64).toInt64.toInt ∧ (v % n.toUInt64).toInt64.toInt < n.toInt := by
  have hn := toNat_toUInt64 h
  have hle := n.toInt_le
  have hmax : Int64.maxValue.toInt = 9223372036854775807 := rfl
  have hmod : (v % n.toUInt64).toNat < n.toUInt64.toNat := by
    rw [UInt64.toNat_mod]
    exact Nat.mod_lt _ (by omega)
  rw [toInt_toInt64 (by omega)]
  omega

end Words

namespace Randomness

/-- Every draw keeps to the bounds that are asked for. -/
structure Lawful {σ : Type} (r : Randomness σ) : Prop where
  below : ∀ n s, 0 < n.toInt → 0 ≤ (r.below n s).1.toInt ∧ (r.below n s).1.toInt < n.toInt
  wide : ∀ s, 0 ≤ (r.wide s).1.toInt

theorem lawful_ofBytes : ofBytes.Lawful where
  below n s hn := by
    cases s with
    | nil => exact ⟨Int.le_refl 0, hn⟩
    | cons b bs =>
      have hbyte : 0 ≤ b.toUInt64.toInt64.toInt := by
        have hlt := b.toNat_lt
        rw [toInt_toInt64 (by rw [UInt8.toNat_toUInt64]; omega)]
        exact Int.natCast_nonneg _
      simp only [ofBytes, if_neg (not_le_zero hn)]
      exact toInt_mod_bounds hbyte hn
  wide s := by
    have hhalf (w : UInt64) : (w >>> 1).toNat < 9223372036854775808 := by
      have hlt := w.toNat_lt
      rw [UInt64.toNat_shiftRight]
      change w.toNat >>> 1 < _
      rw [Nat.shiftRight_succ, Nat.shiftRight_zero]
      omega
    change 0 ≤ (littleEndian (s.take 8) >>> 1).toInt64.toInt
    rw [toInt_toInt64 (hhalf _)]
    exact Int.natCast_nonneg _

theorem lawful_seeded : seeded.Lawful where
  below n s hn := by
    simp only [seeded, if_neg (not_le_zero hn)]
    exact toInt_mod_toUInt64_bounds hn _
  wide s := by
    have hmask (w : UInt64) : (w &&& 0x7fffffffffffffff).toNat < 9223372036854775808 := by
      rw [UInt64.toNat_and]
      exact Nat.lt_succ_of_le Nat.and_le_right
    change 0 ≤ (s.next.1 &&& 0x7fffffffffffffff).toInt64.toInt
    rw [toInt_toInt64 (hmask _)]
    exact Int.natCast_nonneg _

end Randomness

namespace Generator

variable {σ : Type} {g : Generator} {r : Randomness σ}

/-- A literal that the options promise: a small one, or one of about forty bits at most. -/
def Allows (g : Generator) (v : Int64) : Prop :=
  v.toInt.natAbs ≤ g.bound.toInt.natAbs ∨
    g.large = true ∧ 32768 ≤ v.toInt.natAbs ∧ v.toInt.natAbs < 1099511660544

/-- The bound is a number that is encoded inline. -/
def Modest (g : Generator) : Prop :=
  0 ≤ g.bound.toInt ∧ g.bound.toInt ≤ 32767

theorem largeLiteral_fst (r : Randomness σ) (s : σ) :
    (largeLiteral r s).1 =
      if (r.below 2 (r.wide s).2).1 = 0 then -((r.wide s).1 % 1099511627776 + 32768)
      else (r.wide s).1 % 1099511627776 + 32768 := rfl

/-- A large literal, drawn with its sign. Its magnitude is far below that of the largest word, so
nothing wraps. -/
theorem toInt_largeLiteral (hr : r.Lawful) (s : σ) :
    ∃ m, 0 ≤ m ∧ m < 1099511627776 ∧ ((r.wide s).1 % 1099511627776).toInt = m ∧
      (largeLiteral r s).1.toInt =
        if (r.below 2 (r.wide s).2).1 = 0 then -(m + 32768) else m + 32768 := by
  obtain ⟨hlow, hhigh⟩ : 0 ≤ ((r.wide s).1 % 1099511627776).toInt ∧
      ((r.wide s).1 % 1099511627776).toInt < 1099511627776 :=
    toInt_mod_bounds (hr.wide s) (by decide)
  have hleast : (32768 : Int64).toInt = 32768 := rfl
  refine ⟨_, hlow, hhigh, rfl, ?_⟩
  rw [largeLiteral_fst]
  generalize hv : (r.wide s).1 % 1099511627776 + 32768 = v
  have hvalue : v.toInt = ((r.wide s).1 % 1099511627776).toInt + 32768 := by
    rw [← hv, Int64.toInt_add, hleast]
    exact Int.bmod_eq_of_le (by omega) (by omega)
  have hneg : (-v).toInt = -v.toInt := by
    rw [Int64.toInt_neg]
    exact Int.bmod_eq_of_le (by omega) (by omega)
  split
  · rw [hneg, hvalue]
  · exact hvalue

theorem allows_largeLiteral (hr : r.Lawful) (hlarge : g.large = true) (s : σ) :
    g.Allows (largeLiteral r s).1 := by
  obtain ⟨m, hlow, hhigh, _, hvalue⟩ := toInt_largeLiteral hr s
  refine Or.inr ⟨hlarge, ?_⟩
  split at hvalue <;> omega

theorem allows_smallLiteral (hr : r.Lawful) (hg : g.Modest) (s : σ) :
    g.Allows (g.smallLiteral r s).1 := by
  obtain ⟨hlow, hhigh⟩ := hg
  refine Or.inl ?_
  unfold smallLiteral
  split
  · exact Nat.zero_le _
  · have htwo : (2 : Int64).toInt = 2 := rfl
    have hone : (1 : Int64).toInt = 1 := rfl
    have htwice : (2 * g.bound).toInt = 2 * g.bound.toInt := by
      rw [Int64.toInt_mul, htwo]
      exact Int.bmod_eq_of_le (by omega) (by omega)
    have hwidth : (2 * g.bound + 1).toInt = 2 * g.bound.toInt + 1 := by
      rw [Int64.toInt_add, htwice, hone]
      exact Int.bmod_eq_of_le (by omega) (by omega)
    have hdraw := hr.below (2 * g.bound + 1) s (by omega)
    have hdiff : ((r.below (2 * g.bound + 1) s).1 - g.bound).toInt =
        (r.below (2 * g.bound + 1) s).1.toInt - g.bound.toInt := by
      rw [Int64.toInt_sub]
      exact Int.bmod_eq_of_le (by omega) (by omega)
    simp only [hdiff]
    omega

theorem allows_literal (hr : r.Lawful) (hg : g.Modest) (s : σ) : g.Allows (g.literal r s).1 := by
  unfold literal
  split
  · rename_i hlarge
    simp only
    split
    · exact allows_largeLiteral hr hlarge _
    · exact allows_smallLiteral hr hg _
  · exact allows_smallLiteral hr hg _

theorem div_mem_operators : .div ∈ g.operators ↔ g.division = true := by
  unfold operators
  cases g.division <;> decide

theorem getD_mem_operators (hr : r.Lawful) (s : σ) :
    g.operators.getD (r.below (Int64.ofNat g.operators.length) s).1.toInt.toNat .add ∈
      g.operators := by
  obtain ⟨hpos, hle⟩ : 0 < g.operators.length ∧ g.operators.length ≤ 4 := by
    unfold operators
    cases g.division <;> decide
  have hlength : (Int64.ofNat g.operators.length).toInt = g.operators.length :=
    Int64.toInt_ofNat_of_lt (by omega)
  have hdraw := hr.below (Int64.ofNat g.operators.length) s (by omega)
  rw [List.getD_eq_getElem?_getD, List.getElem?_eq_getElem (by omega), Option.getD_some]
  exact List.getElem_mem _

inductive Grown (g : Generator) : Nat → Expr → Prop
  | int {d : Nat} {v : Int64} : g.Allows v → Grown g d (.ofInt v)
  | unary {d : Nat} {op : UnaryOp} {x : Expr} : Grown g d x → Grown g (d + 1) (.ofUnary op x)
  | binary {d : Nat} {op : BinaryOp} {x y : Expr} : op ∈ g.operators → Grown g d x →
      Grown g d y → Grown g (d + 1) (.ofBinary op x y)

theorem grown_exprWithin (hr : r.Lawful) (hg : g.Modest) (d : Nat) (s : σ) :
    g.Grown d (g.exprWithin r d s).1 := by
  induction d generalizing s with
  | zero => exact .int (allows_literal hr hg s)
  | succ d ih =>
    simp only [exprWithin]
    split
    · exact .int (allows_literal hr hg _)
    · split
      · exact .unary (ih _)
      · exact .binary (getD_mem_operators hr _) (ih _) (ih _)

theorem length_exprs (g : Generator) (r : Randomness σ) (n : Nat) (s : σ) :
    (g.exprs r n s).length = n := by
  induction n generalizing s with
  | zero => rfl
  | succ n ih => exact congrArg (· + 1) (ih _)

/-- Whatever was drawn before, each tree is begun with all its levels. -/
theorem grown_of_mem_exprs (hr : r.Lawful) (hg : g.Modest) {n : Nat} {s : σ} {e : Expr}
    (he : e ∈ g.exprs r n s) : g.Grown g.maxDepth e := by
  induction n generalizing s with
  | zero => cases he
  | succ n ih =>
    cases he with
    | head => exact grown_exprWithin hr hg g.maxDepth s
    | tail _ he => exact ih he

namespace Grown

variable {d : Nat} {e : Expr}

theorem wellFormed (h : g.Grown d e) : e.WellFormed := by
  induction h with
  | int _ => exact .int
  | unary _ ih => exact .unary ih
  | binary _ _ _ ihx ihy => exact .binary ihx ihy

theorem exists_depth (h : g.Grown d e) : ∃ k, e.depth? = some k ∧ k ≤ d + 1 := by
  induction h with
  | int _ => exact ⟨1, rfl, Nat.le_add_left _ _⟩
  | unary _ ih =>
    obtain ⟨k, hk, hle⟩ := ih
    refine ⟨1 + k, ?_, by omega⟩
    rw [Expr.ofUnary, Expr.depth?, hk, Option.map_some]
  | binary _ _ _ ihx ihy =>
    obtain ⟨kx, hkx, hx⟩ := ihx
    obtain ⟨ky, hky, hy⟩ := ihy
    refine ⟨1 + max kx ky, ?_, by omega⟩
    rw [Expr.ofBinary, Expr.depth?, hkx, hky]
    rfl

theorem need_le (h : g.Grown d e) : e.need ≤ d + 1 := by
  induction h with
  | int _ => exact Nat.le_add_left _ _
  | unary _ ih =>
    rw [Expr.ofUnary, Expr.need]
    omega
  | binary _ _ _ ihx ihy =>
    rw [Expr.ofBinary, Expr.need]
    omega

theorem length_literals_le (h : g.Grown d e) : e.literals.length ≤ 1 <<< d := by
  induction h with
  | int _ =>
    rw [Nat.one_shiftLeft]
    exact Nat.one_le_two_pow
  | unary _ ih =>
    rw [Expr.ofUnary, Expr.literals, Nat.shiftLeft_succ]
    omega
  | binary _ _ _ ihx ihy =>
    rw [Expr.ofBinary, Expr.literals, List.length_append, Nat.shiftLeft_succ]
    omega

theorem allows (h : g.Grown d e) : ∀ v ∈ e.literals, g.Allows v := by
  induction h with
  | int hv => exact List.forall_mem_singleton.mpr hv
  | unary _ ih => exact ih
  | binary _ _ _ ihx ihy => exact List.forall_mem_append.mpr ⟨ihx, ihy⟩

theorem binaryOps_subset (h : g.Grown d e) : ∀ op ∈ e.binaryOps, op ∈ g.operators := by
  induction h with
  | int _ => exact List.forall_mem_nil _
  | unary _ ih => exact ih
  | binary hop _ _ ihx ihy =>
    exact List.forall_mem_cons.mpr ⟨hop, List.forall_mem_append.mpr ⟨ihx, ihy⟩⟩

theorem exists_compile (h : g.Grown d e) (hd : d ≤ 16) (b : Backend) :
    ∃ x, compile b e = .ok x := by
  have hlevels : ∀ d ≤ 16, 1 <<< d ≤ maxConstants := by decide
  have hregisters : maxRegisters = 256 := rfl
  have hneed := h.need_le
  refine Abacus.exists_compile h.wellFormed ?_ (by omega) b
  calc e.pooled.length ≤ e.literals.length := e.length_pooled_le
    _ ≤ 1 <<< d := h.length_literals_le
    _ ≤ maxConstants := hlevels d hd

end Grown
end Generator

/-- With at most sixteen levels every tree that a generator draws is encoded by all encoders and
passes the comparison of their runs. -/
theorem generated_trees_check :
    Randomness.ofBytes.Lawful ∧ Randomness.seeded.Lawful ∧
    ∀ {σ : Type} (r : Randomness σ), r.Lawful →
      ∀ (d : Int) (division large : Bool) (n : Nat) (s : σ), d ≤ 16 →
        ((({ division, large } : Generator).withMaxDepth d).exprs r n s).length = n ∧
        ∀ e ∈ (({ division, large } : Generator).withMaxDepth d).exprs r n s,
          e.WellFormed ∧ (∃ k, e.depth? = some k ∧ k ≤ d.toNat + 1) ∧
          (division = false → .div ∉ e.binaryOps) ∧
          (∀ v ∈ e.literals, ({ large } : Generator).Allows v) ∧
          (∀ b, ∃ x, compile b e = .ok x) ∧
          ∃ report, check e = some (.ok report) ∧ report.Clean := by
  refine ⟨Randomness.lawful_ofBytes, Randomness.lawful_seeded, ?_⟩
  intro σ r hr d division large n s hd
  refine ⟨Generator.length_exprs _ r n s, fun e he => ?_⟩
  have hmodest : (({ division, large } : Generator).withMaxDepth d).Modest := by
    change 0 ≤ (127 : Int64).toInt ∧ (127 : Int64).toInt ≤ 32767
    decide
  have hgrown := Generator.grown_of_mem_exprs hr hmodest he
  have hall := hgrown.exists_compile (Int.toNat_le.mpr hd)
  refine ⟨hgrown.wellFormed, hgrown.exists_depth, ?_, hgrown.allows, hall, check_of_compile hall⟩
  intro hdivision hmem
  have hdiv := Generator.div_mem_operators.mp (hgrown.binaryOps_subset _ hmem)
  cases hdivision.symm.trans hdiv

section Inline

/-- Of the words that sixteen bits are too few for when the sign is left out, one fits inline. -/
theorem fitsInline_iff_of_le {v : Int64} (h : 32768 ≤ v.toInt.natAbs) :
    fitsInline v = true ↔ v = -32768 := by
  have hleast : (-32768 : Int64).toInt = -32768 := rfl
  rw [fitsInline_iff, ← Int64.toInt_inj, hleast]
  omega

theorem Generator.fitsInline_largeLiteral {σ : Type} {r : Randomness σ} (hr : r.Lawful) (s : σ) :
    fitsInline (largeLiteral r s).1 = true ↔
      (r.wide s).1 % 1099511627776 = 0 ∧ (r.below 2 (r.wide s).2).1 = 0 := by
  obtain ⟨m, hlow, _, hm, hvalue⟩ := toInt_largeLiteral hr s
  have hzero : (r.wide s).1 % 1099511627776 = 0 ↔ m = 0 := by
    rw [← Int64.toInt_inj, hm, Int64.toInt_zero]
  rw [fitsInline_iff, hvalue, hzero]
  by_cases hsign : (r.below 2 (r.wide s).2).1 = 0
  · simp only [hsign, if_true, and_true]
    omega
  · simp only [hsign, if_false, and_false, iff_false]
    omega

theorem mem_constants_of_compile {e : Expr} {v : Int64} (hv : v ∈ e.literals)
    (h : fitsInline v = false) :
    (∀ p, Stack.compile e = .ok p → v ∈ p.constants.toList) ∧
      ∀ p, Register.compile e = .ok p → v ∈ p.constants.toList := by
  have hpooled : v ∈ e.pooled := by
    rw [Expr.pooled_eq_filter]
    exact List.mem_filter.mpr ⟨hv, by rw [h]; rfl⟩
  constructor
  · intro p hp
    obtain ⟨_, _, _, hconstants, _⟩ := Stack.compile_ok hp
    rwa [hconstants]
  · intro p hp
    obtain ⟨_, _, _, _, hconstants, _⟩ := Register.compile_ok hp
    rwa [hconstants]

/-- With an inline bound, each literal of a tree that is drawn from bytes keeps to the bound, or
large ones are asked for and it stands in the pools; there is one exception, the least literal
that fits inline. A large literal is that one exactly if the number drawn for it leaves no
remainder and the sign drawn for it is zero, so it is also what a used-up string gives. -/
theorem generated_literals_keep_to_options {b : Int64} (hb : 0 ≤ b.toInt ∧ b.toInt ≤ 32767)
    (data : Bytes) (d : Int) (division large : Bool) (n : Nat) :
    (∀ e ∈ ((({ division, large } : Generator).withMaxDepth d).withBound b).exprs .ofBytes n data,
      ∀ v ∈ e.literals,
        v.toInt.natAbs ≤ b.toInt.natAbs ∨
        large = true ∧
          (v = -32768 ∨
            fitsInline v = false ∧
              (∀ p, Stack.compile e = .ok p → v ∈ p.constants.toList) ∧
              ∀ p, Register.compile e = .ok p → v ∈ p.constants.toList)) ∧
    ∀ bs, fitsInline (Generator.largeLiteral .ofBytes bs).1 = true ↔
      (Randomness.ofBytes.wide bs).1 % 1099511627776 = 0 ∧
        (Randomness.ofBytes.below 2 (Randomness.ofBytes.wide bs).2).1 = 0 := by
  refine ⟨?_, Generator.fitsInline_largeLiteral Randomness.lawful_ofBytes⟩
  intro e he v hv
  have hbound : ((({ division, large } : Generator).withMaxDepth d).withBound b).bound = b := by
    have hpos : ¬ b < 0 := by
      rw [Int64.lt_iff_toInt_lt, Int64.toInt_zero]
      omega
    exact if_neg hpos
  have hmodest : ((({ division, large } : Generator).withMaxDepth d).withBound b).Modest := by
    rw [Generator.Modest, hbound]
    exact hb
  have hgrown := Generator.grown_of_mem_exprs Randomness.lawful_ofBytes hmodest he
  rcases hgrown.allows v hv with hsmall | ⟨hlarge, hleast, _⟩
  · rw [hbound] at hsmall
    exact Or.inl hsmall
  · refine Or.inr ⟨hlarge, ?_⟩
    cases hfits : fitsInline v with
    | true => exact Or.inl ((fitsInline_iff_of_le hleast).mp hfits)
    | false => exact Or.inr ⟨rfl, mem_constants_of_compile hv hfits⟩

/-- The bytes of a quotient with a large literal on the left and a small one on the right. -/
def quotientBytes : Bytes :=
  [2, 3, 0, 0, 2, 0, 0, 0, 0, 0, 0, 0, 1, 0, 1, 7]

theorem large_dividend_pooled :
    ((({ division := true, large := true } : Generator).withMaxDepth 2).withBound 5).exprs
        .ofBytes 1 quotientBytes = [.ofBinary .div (.ofInt 32769) (.ofInt 2)] ∧
      ∀ p, Stack.compile (.ofBinary .div (.ofInt 32769) (.ofInt 2)) = .ok p →
        32769 ∈ p.constants.toList := by
  have hdrawn : ((({ division := true, large := true } : Generator).withMaxDepth 2).withBound
      5).exprs .ofBytes 1 quotientBytes = [.ofBinary .div (.ofInt 32769) (.ofInt 2)] := by
    decide
  obtain ⟨hliterals, _⟩ :=
    generated_literals_keep_to_options (b := 5) (by decide) quotientBytes 2 true true 1
  rw [hdrawn] at hliterals
  rcases hliterals _ (List.mem_singleton_self _) 32769 (by decide) with
    hsmall | ⟨_, hleast | ⟨_, hpool, _⟩⟩
  · exact absurd hsmall (by decide)
  · exact absurd hleast (by decide)
  · exact ⟨hdrawn, hpool⟩

/-- When the bytes are used up, a large literal is drawn that fits inline and exceeds the bound. -/
theorem used_up_bytes_draw_inline_literal :
    ¬ ∀ (b : Int64) (data : Bytes) (d : Int) (division large : Bool) (n : Nat),
      0 ≤ b.toInt → b.toInt ≤ 32767 →
      ∀ e ∈ ((({ division, large } : Generator).withMaxDepth d).withBound b).exprs .ofBytes n data,
        ∀ v ∈ e.literals,
          v.toInt.natAbs ≤ b.toInt.natAbs ∨ large = true ∧ fitsInline v = false := by
  intro h
  have hdrawn : (((({ large := true } : Generator).withMaxDepth 8).withBound 127).exprs .ofBytes 1
      []) = [.ofInt (-32768)] := by
    decide
  have hliteral := h 127 [] 8 false true 1 (by decide) (by decide) (.ofInt (-32768))
    (hdrawn ▸ List.mem_singleton_self _) (-32768) (List.mem_singleton_self _)
  exact absurd hliteral (by decide)

end Inline
end Abacus
