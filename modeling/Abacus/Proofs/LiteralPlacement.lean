import Abacus.Proofs.Capacity
import Abacus.Proofs.Placement
import Abacus.Proofs.Walks

/-!
# Where literals go, and what programs are counted to hold

The loads of a program stand in the order of the literals of its tree. A literal that fits is held
by its load, and each of the others has an entry of the pool to itself, so that the loads from the
pool number its entries in order. What the statistics count in the code are therefore the nodes of
the tree, of which only the unary plus leaves no instruction behind.
-/
namespace Abacus

namespace Expr

def isInt : Expr → Bool
  | .int _ _ _ => true
  | _ => false

def isIdentity : Expr → Bool
  | .unary _ (.known .identity) _ => true
  | _ => false

variable {e : Expr}

/-- Every node but a unary plus is one action. -/
theorem WellFormed.length_actions (h : e.WellFormed) :
    e.actions.length + e.nodes.countP isIdentity = e.nodes.length := by
  induction h with
  | int => rfl
  | @unary p op x _ ih =>
    cases op with
    | identity =>
      rw [actions, nodes, List.countP_cons_of_pos rfl, List.length_cons]
      omega
    | negate =>
      rw [actions, nodes, List.countP_cons_of_neg (by simp [isIdentity]), List.length_append,
        List.length_singleton, List.length_cons]
      omega
  | binary _ _ ihx ihy =>
    rw [actions, nodes, List.countP_cons_of_neg (by simp [isIdentity]), List.countP_append]
    simp only [List.length_append, List.length_cons, List.length_nil]
    omega

theorem WellFormed.length_literals (h : e.WellFormed) :
    e.literals.length = e.nodes.countP isInt := by
  induction h with
  | int => rfl
  | unary _ ih => simp [literals, nodes, isInt, ih]
  | binary _ _ ihx ihy => simp [literals, nodes, isInt, ihx, ihy]

theorem WellFormed.count?_eq (h : e.WellFormed) : e.count? = some e.nodes.length :=
  Expr.count?_eq h.hasHole_eq_false

end Expr

/-- The loads of literals one after the other, when the pool holds `k` entries before. -/
def loads : Nat → List Int64 → List (Opcode × Int)
  | _, [] => []
  | k, v :: vs =>
    if fitsInline v then (.loadInline, v.toInt) :: loads k vs
    else (.loadConst, k) :: loads (k + 1) vs

section Loads

variable {v : Int64} (vs : List Int64) (k : Nat)

theorem loads_inline (h : fitsInline v = true) :
    loads k (v :: vs) = (.loadInline, v.toInt) :: loads k vs := by
  rw [loads, if_pos h]

theorem loads_const (h : fitsInline v = false) :
    loads k (v :: vs) = (.loadConst, (k : Int)) :: loads (k + 1) vs := by
  rw [loads, if_neg (by simp [h])]

theorem loads_append (ws : List Int64) :
    loads k (vs ++ ws) = loads k vs ++ loads (k + (vs.filter fun v => !fitsInline v).length) ws := by
  induction vs generalizing k with
  | nil => rfl
  | cons v vs ih =>
    cases h : fitsInline v with
    | true => simp [loads_inline, h, ih]
    | false => simp [loads_const, h, ih, Nat.add_assoc, Nat.add_comm 1]

theorem filter_loadConst :
    (((loads k vs).filter fun w => w.1 = .loadConst).map fun w => w.2.toNat) =
      List.range' k (vs.filter fun v => !fitsInline v).length := by
  induction vs generalizing k with
  | nil => rfl
  | cons v vs ih =>
    cases h : fitsInline v with
    | true => simp [loads_inline, h, ih]
    | false => simp [loads_const, h, ih, List.range'_succ]

/-- What a load is for: the literal that it holds, or the entry of the pool that it names. -/
def literalOf (constants : List Int64) (w : Opcode × Int) : Option Int64 :=
  if w.1 = .loadInline then some (Int64.ofInt w.2) else constants[w.2.toNat]?

theorem map_literalOf {constants before : List Int64} (hbefore : before.length = k)
    (hconstants : constants = before ++ vs.filter fun v => !fitsInline v) :
    (loads k vs).map (fun w => (w.1, literalOf constants w)) =
      vs.map fun v => (if fitsInline v then .loadInline else .loadConst, some v) := by
  induction vs generalizing k before with
  | nil => rfl
  | cons v vs ih =>
    cases h : fitsInline v with
    | true =>
      have hvalue : literalOf constants (.loadInline, v.toInt) = some v := by
        simp [literalOf]
      have hafter : constants = before ++ vs.filter fun v => !fitsInline v := by
        simpa [h] using hconstants
      simp [loads_inline, h, hvalue, ih k hbefore hafter]
    | false =>
      have hvalue : literalOf constants (.loadConst, (k : Int)) = some v := by
        simp [literalOf, hconstants, h, ← hbefore]
      have hafter : constants = before ++ [v] ++ vs.filter fun v => !fitsInline v := by
        simpa [h] using hconstants
      simp [loads_const, h, hvalue, ih (k + 1) (by simp [hbefore]) hafter]

end Loads

namespace Expr

theorem WellFormed.loads_layout {e : Expr} (h : e.WellFormed) (k r : Nat) :
    (((e.layout k r).filter fun i => i.op.isLoad).map fun i => (i.op, i.arg)) =
      loads k e.literals := by
  induction h generalizing k r with
  | @int p literal v =>
    cases hfits : fitsInline v with
    | true => simp [layout, WideInstr.load, hfits, Opcode.isLoad, literals, loads]
    | false => simp [layout, WideInstr.load, hfits, Opcode.isLoad, literals, loads]
  | @unary p op x _ ih =>
    cases op with
    | identity => exact ih k r
    | negate =>
      rw [layout, List.filter_append, List.map_append, ih]
      simp [literals, Opcode.isLoad]
  | binary _ _ ihx ihy =>
    rw [layout, List.filter_append, List.filter_append, List.map_append, List.map_append, ihx, ihy,
      literals, loads_append, pooled_eq_filter]
    simp [Opcode.isLoad]

theorem WellFormed.countP_loadInt {e : Expr} (h : e.WellFormed) :
    (e.actions.map Action.opcode).countP (· = .loadInt) = e.literals.length := by
  induction h with
  | int => rfl
  | @unary p op x _ ih =>
    cases op with
    | identity => exact ih
    | negate => simpa [actions, literals, Action.opcode] using ih
  | binary _ _ ihx ihy => simp_all [actions, literals, Action.opcode]

theorem pooled_eq_large (e : Expr) :
    e.pooled = e.literals.filter fun v => v.toInt < -32768 ∨ 32767 < v.toInt := by
  rw [pooled_eq_filter]
  apply List.filter_congr
  intro v _
  rw [Bool.eq_iff_iff, Bool.not_eq_true', ← Bool.not_eq_true, fitsInline_iff, decide_eq_true_eq]
  omega

end Expr

/-- How a program holds the literals of a tree. An instruction is read by its opcode, the literal in
its argument, and its argument as an index. -/
structure PlacesLiterals {ι : Type} (op : ι → Opcode) (literal : ι → Int64) (index : ι → UInt16)
    (e : Expr) (p : Program ι) : Prop where
  /-- The pool has the literals outside the range of an instruction, equal ones too. -/
  constants : p.constants.toList =
    e.literals.filter fun v => v.toInt < -32768 ∨ 32767 < v.toInt
  /-- The loads are for the literals in order, each with the opcode of its range. -/
  loads : ((p.code.filter fun i => (op i).isLoad).map fun i =>
      (op i, if op i = .loadInline then some (literal i) else p.constants[(index i).toNat]?)) =
    e.literals.map fun v =>
      (if -32768 ≤ v.toInt ∧ v.toInt ≤ 32767 then .loadInline else .loadConst, some v)
  indices : ((p.code.filter fun i => op i = .loadConst).map fun i => (index i).toNat) =
    List.range p.constants.size

/-- What the statistics of a program with a pool have to do with the nodes of its tree. -/
structure CountsNodes (e : Expr) (s : Stats) : Prop where
  instructions : e.count? = some (s.instructions + e.nodes.countP Expr.isIdentity)
  constants : s.constants = e.largeLiterals
  poolLiterals : s.poolLiterals = e.largeLiterals
  literals : s.inlineLiterals + s.poolLiterals = e.nodes.countP Expr.isInt

namespace PlacesLiterals

variable {ι : Type} {op : ι → Opcode} {literal : ι → Int64} {index : ι → UInt16}
  {e : Expr} {p : Program ι}

theorem size_constants (h : PlacesLiterals op literal index e p) :
    p.constants.size = e.largeLiterals := by
  rw [← Array.length_toList, h.constants, Expr.largeLiterals, List.countP_eq_length_filter]

theorem countP_loadConst (h : PlacesLiterals op literal index e p) :
    p.code.countP (fun i => op i = .loadConst) = p.constants.size := by
  have hlength := congrArg List.length h.indices
  rwa [List.length_map, List.length_range, ← List.countP_eq_length_filter] at hlength

theorem op_of_isLoad (h : PlacesLiterals op literal index e p) {i : ι} (hi : i ∈ p.code)
    (hload : (op i).isLoad = true) : op i = .loadInline ∨ op i = .loadConst := by
  have hmem := List.mem_map_of_mem (f := Prod.fst) (h.loads ▸ List.mem_map_of_mem
    (List.mem_filter.mpr ⟨hi, hload⟩))
  rw [List.map_map, List.mem_map] at hmem
  obtain ⟨v, _, hv⟩ := hmem
  by_cases hfits : -32768 ≤ v.toInt ∧ v.toInt ≤ 32767
  · left
    simpa [hfits] using hv.symm
  · right
    simpa [hfits] using hv.symm

theorem countP_inline_add_countP_const (h : PlacesLiterals op literal index e p) :
    p.code.countP (fun i => op i = .loadInline) + p.code.countP (fun i => op i = .loadConst) =
      e.literals.length := by
  have hlength : p.code.countP (fun i => (op i).isLoad) = e.literals.length := by
    rw [List.countP_eq_length_filter, ← List.length_map, h.loads, List.length_map]
  rw [← hlength, List.countP_eq_countP_filter_add p.code (fun i => (op i).isLoad)
    fun i => op i = .loadInline, List.countP_filter, List.countP_filter]
  congr 1
  · apply List.countP_congr
    intro i _
    by_cases hop : op i = .loadInline <;> simp [hop, Opcode.isLoad]
  · apply List.countP_congr
    intro i hi
    by_cases hload : (op i).isLoad = true
    · rcases h.op_of_isLoad hi hload with hop | hop <;> simp [hop, Opcode.isLoad]
    · have hop : op i ≠ .loadConst := by
        intro hop
        simp [hop, Opcode.isLoad] at hload
      simp [hload, hop]

theorem countsNodes (h : PlacesLiterals op literal index e p) (he : e.WellFormed)
    (hlength : p.code.length = e.actions.length) (size : Int) :
    CountsNodes e ⟨p.code.length, p.constants.size, p.code.countP fun i => op i = .loadInline,
      p.code.countP fun i => op i = .loadConst, size⟩ where
  instructions := by rw [he.count?_eq, hlength, he.length_actions]
  constants := h.size_constants
  poolLiterals := h.countP_loadConst.trans h.size_constants
  literals := h.countP_inline_add_countP_const.trans he.length_literals

end PlacesLiterals

namespace Stack

variable {e : Expr} {p : Program Instr}

theorem loads_of_compile (h : compile e = .ok p) :
    ((p.code.filter fun i => i.op.isLoad).map fun i => (i.op, i.operand)) =
      loads 0 e.literals := by
  have hlayout := congrArg (List.filter fun w => w.1.isLoad) (layout_of_compile h)
  rw [List.filter_map, List.filter_map] at hlayout
  rw [← (compile_ok h).1.loads_layout 0 0]
  exact hlayout

theorem Instr.literalOf_operand (constants : Array Int64) (i : Instr) :
    literalOf constants.toList (i.op, i.operand) =
      if i.op = .loadInline then some i.literal else constants[i.arg.toNat]? := by
  by_cases h : i.op = .loadInline
  · simp [literalOf, operand, h]
  · simp [literalOf, operand, h]

theorem values_of_compile (h : compile e = .ok p) :
    ((p.code.filter fun i => i.op.isLoad).map fun i =>
        (i.op, if i.op = .loadInline then some i.literal else p.constants[i.arg.toNat]?)) =
      e.literals.map fun v => (if fitsInline v then .loadInline else .loadConst, some v) := by
  have hconstants : p.constants.toList = [] ++ e.literals.filter fun v => !fitsInline v := by
    obtain ⟨_, _, _, hpool, _⟩ := compile_ok h
    rw [hpool, Expr.pooled_eq_filter, List.nil_append]
  have hvalues := map_literalOf e.literals 0 List.length_nil hconstants
  rw [← loads_of_compile h, List.map_map] at hvalues
  simpa only [Function.comp_def, Instr.literalOf_operand] using hvalues

theorem indices_of_compile (h : compile e = .ok p) :
    ((p.code.filter fun i => i.op = .loadConst).map fun i => i.arg.toNat) =
      List.range e.pooled.length := by
  have hindices := filter_loadConst e.literals 0
  rw [← loads_of_compile h, List.filter_map, List.filter_filter, List.map_map,
    ← Expr.pooled_eq_filter, ← List.range_eq_range'] at hindices
  have hfilter : (p.code.filter fun i => i.op = .loadConst && i.op.isLoad) =
      p.code.filter fun i => i.op = .loadConst := by
    apply List.filter_congr
    intro i _
    by_cases hop : i.op = .loadConst <;> simp [hop, Opcode.isLoad]
  rw [← hindices, ← hfilter]
  apply List.map_congr_left
  intro i hi
  rw [hfilter, List.mem_filter, decide_eq_true_eq] at hi
  simp [Instr.operand, hi.2]

theorem placesLiterals_of_compile (h : compile e = .ok p) :
    PlacesLiterals Instr.op Instr.literal Instr.arg e p := by
  obtain ⟨_, _, _, hpool, _⟩ := compile_ok h
  constructor
  case constants => rw [hpool, Expr.pooled_eq_large]
  case loads => simpa only [fitsInline_iff] using values_of_compile h
  case indices => rw [indices_of_compile h, ← hpool, Array.length_toList]

end Stack

namespace Register

variable {e : Expr} {p : Program Instr}

theorem placesLiterals_of_compile (h : compile e = .ok p) :
    PlacesLiterals Instr.op Instr.literal Instr.arg e p := by
  obtain ⟨q, hq, hconstants, hcode⟩ := compile_toStack h
  obtain ⟨pool, loads, indices⟩ := Stack.placesLiterals_of_compile hq
  rw [hcode, List.filter_map, List.map_map, hconstants] at loads indices
  rw [hconstants] at pool
  exact ⟨pool, loads, indices⟩

end Register

/-- Programs with a pool hold the literals of their tree in order, those that do not fit numbered by
their place in the pool. The statistics of a program in any of the three encodings count nodes. -/
theorem literals_placed_and_counted (e : Expr) :
    (∀ p, Stack.compile e = .ok p →
      PlacesLiterals Stack.Instr.op Stack.Instr.literal Stack.Instr.arg e p ∧
        CountsNodes e (Stack.stats p)) ∧
    (∀ p, Register.compile e = .ok p →
      PlacesLiterals Register.Instr.op Register.Instr.literal Register.Instr.arg e p ∧
        CountsNodes e (Register.stats p)) ∧
    ∀ p, Rpn.compile e = .ok p →
      e.count? = some ((Rpn.stats p).instructions + e.nodes.countP Expr.isIdentity) ∧
        (Rpn.stats p).inlineLiterals = e.nodes.countP Expr.isInt := by
  refine ⟨?_, ?_, ?_⟩
  · intro p h
    obtain ⟨he, _, _, _, haligned⟩ := Stack.compile_ok h
    have hplaces := Stack.placesLiterals_of_compile h
    exact ⟨hplaces, hplaces.countsNodes he haligned.length_eq _⟩
  · intro p h
    obtain ⟨he, _, _, _, _, haligned⟩ := Register.compile_ok h
    have hplaces := Register.placesLiterals_of_compile h
    exact ⟨hplaces, hplaces.countsNodes he haligned.length_eq _⟩
  · intro p h
    obtain ⟨he, _, haligned⟩ := Rpn.compile_ok h
    have hops := he.countP_loadInt
    rw [← Rpn.map_op_of_aligned haligned, List.countP_map, he.length_literals] at hops
    constructor
    · rw [he.count?_eq, ← he.length_actions, ← haligned.length_eq]
      rfl
    · exact hops

/-- The lower end of the range fits, under a plus that leaves nothing behind, and the large literal
has an entry of the pool for either place. -/
theorem literal_pooled_twice :
    ∃ p q r,
      Stack.compile (.ofBinary .sub (.ofBinary .mul (.ofInt 40000)
        (.ofUnary .identity (.ofInt (-32768)))) (.ofInt 40000)) = .ok p ∧
      Register.compile (.ofBinary .sub (.ofBinary .mul (.ofInt 40000)
        (.ofUnary .identity (.ofInt (-32768)))) (.ofInt 40000)) = .ok q ∧
      Rpn.compile (.ofBinary .sub (.ofBinary .mul (.ofInt 40000)
        (.ofUnary .identity (.ofInt (-32768)))) (.ofInt 40000)) = .ok r ∧
      p.constants.toList = [40000, 40000] ∧ (Register.stats q).poolLiterals = 2 ∧
      (Rpn.stats r).inlineLiterals = 3 := by
  obtain ⟨hstack, hregister, hrpn⟩ := literals_placed_and_counted (.ofBinary .sub
    (.ofBinary .mul (.ofInt 40000) (.ofUnary .identity (.ofInt (-32768)))) (.ofInt 40000))
  refine ⟨_, _, _, rfl, rfl, rfl, ?_, ?_, ?_⟩
  · exact (hstack _ rfl).1.constants
  · exact (hregister _ rfl).2.poolLiterals
  · exact (hrpn _ rfl).2

end Abacus
