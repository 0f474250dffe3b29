import Abacus.Proofs.Lockstep

/-!
# Register code of a subexpression

The code for a tree with a destination register is closed off from the code around it. It works in
the destination and in the registers above, whatever they contain, and the registers below, where
the enclosing operators keep their partial results, are neither read nor written. To the actions of
the tree those registers are the stack that they start from, which the actions leave as it is.
-/
namespace Abacus

namespace Store

theorem exists_holds (s : Store) {d : Nat} (hd : d ≤ s.size) :
    ∃ stk, stk.length = d ∧ s.Holds stk := by
  induction d with
  | zero => exact ⟨[], rfl, trivial⟩
  | succ d ih =>
    obtain ⟨stk, hlength, hstk⟩ := ih (Nat.le_of_succ_le hd)
    refine ⟨s[d] :: stk, congrArg Nat.succ hlength, ?_, hstk⟩
    rw [hlength]
    exact Array.getElem?_eq_getElem hd

theorem Holds.agree {s t : Store} {stk : List Int64} (hs : s.Holds stk) (ht : t.Holds stk) :
    ∀ i < stk.length, t[i]? = s[i]? := by
  induction stk with
  | nil => simp
  | cons v stk ih =>
    intro i hi
    rcases Nat.lt_succ_iff_lt_or_eq.mp hi with hlt | rfl
    · exact ih hs.2 ht.2 i hlt
    · rw [hs.1, ht.1]

end Store

theorem Action.after_add {a : Action} {d : Nat} (hop : a.operands ≤ d) (base : Nat) :
    a.after (base + d) = base + a.after d := by
  unfold after
  omega

/-- Actions that find their operands on an empty stack find them above any other stack. So the
code that does them from some depth on does each one with its operands above that depth. -/
theorem Aligned.operands_le {ι : Type} {Does : ι → Nat → Action → Prop} {base d room : Nat}
    {code : List ι} {acts : List Action} (h : Aligned Does (base + d) code acts)
    (hf : Action.Fits room d acts) {i : ι} (hi : i ∈ code) :
    ∃ a d', Does i (base + d') a ∧ a.operands ≤ d' := by
  generalize hdepth : base + d = depth at h
  induction h generalizing d with
  | nil => cases hi
  | @cons _ j a code acts hj _ ih =>
    subst hdepth
    obtain ⟨hop, _, hrest⟩ := hf
    rcases List.mem_cons.mp hi with rfl | hi
    · exact ⟨a, d, hj, hop⟩
    · exact ih hrest hi (Action.after_add hop base).symm

namespace Register

/-- The registers that an instruction works with lie from `dst` on; a second operand lies above
it. -/
structure Instr.StaysFrom (dst : UInt8) (i : Instr) : Prop where
  target : dst ≤ i.dst
  first : i.op = .negate ∨ (∃ op, i.op = .binary op) → dst ≤ i.lhs
  second : ∀ op, i.op = .binary op → dst < i.rhs

theorem Instr.Does.staysFrom {constants : Store} {i : Instr} {dst : UInt8} {d : Nat} {a : Action}
    (h : i.Does constants (dst.toNat + d) a) (hop : a.operands ≤ d) : i.StaysFrom dst := by
  obtain ⟨haction, hat⟩ := h
  cases a with
  | load v =>
    have htarget : i.dst.toNat = dst.toNat + d := hat
    have hload : i.op.isLoad = true := Stack.Instr.serves haction
    refine ⟨UInt8.le_iff_toNat_le.mpr (by omega), ?_, ?_⟩
    · rintro (hneg | ⟨op, hbin⟩)
      · cases (congrArg Opcode.isLoad hneg).symm.trans hload
      · cases (congrArg Opcode.isLoad hbin).symm.trans hload
    · intro op hbin
      cases (congrArg Opcode.isLoad hbin).symm.trans hload
  | negate =>
    obtain ⟨htarget, hlhs⟩ := hat
    have hneg : i.op = .negate := Stack.Instr.serves haction
    have hop : 1 ≤ d := hop
    have hle : dst ≤ i.dst := UInt8.le_iff_toNat_le.mpr (by omega)
    refine ⟨hle, fun _ => hlhs ▸ hle, ?_⟩
    intro op hbin
    cases hneg.symm.trans hbin
  | binary op =>
    obtain ⟨htarget, hlhs, hrhs⟩ := hat
    have hop : 2 ≤ d := hop
    have hle : dst ≤ i.dst := UInt8.le_iff_toNat_le.mpr (by omega)
    exact ⟨hle, fun _ => hlhs ▸ hle, fun _ _ => UInt8.lt_iff_toNat_lt.mpr (by omega)⟩

/-- What a run of the code of a tree comes to on some registers. If the tree has a value, it ends
up in the destination, and the registers below are as before; otherwise the run stops for the
cause that the evaluation stops for. -/
inductive Framed (answer : Except Fault Int64) (dst : UInt8) (s : Store) :
    Except Stop Store → Prop
  | ends {v : Int64} {t : Store} (value : answer = .ok v) (size : t.size = s.size)
      (target : t[dst.toNat]? = some v) (below : ∀ r < dst.toNat, t[r]? = s[r]?) :
      Framed answer dst s (.ok t)
  | stops {c : ArithmeticError} {site : Location}
      (cause : answer = .error (Fault.arithmetic none c)) :
      Framed answer dst s (.error (.fault (Fault.arithmetic (some site) c)))

/-- Registers that follow the actions of a tree from the stack below the destination. -/
theorem framed_of_related {e : Expr} (he : e.WellFormed) {arith : Arithmetic} {dst : UInt8}
    {s : Store} {stk : List Int64} (hlength : stk.length = dst.toNat) (hs : s.Holds stk) {ip : Nat}
    {r : Except Stop Store}
    (hr : Related (Holds s.size) r ((Action.machine arith).exec ip e.actions stk)) :
    Framed (e.evalWith arith) dst s r := by
  rcases Expr.exec_actions arith he ip stk with ⟨v, hv, hexec⟩ | ⟨c, site, hc, hexec⟩
  · rw [hexec] at hr
    cases hr with
    | ok ht =>
      obtain ⟨hsize, htop, hrest⟩ := ht
      rw [hlength] at htop
      refine .ends hv hsize htop ?_
      rw [← hlength]
      exact hs.agree hrest
  · rw [hexec] at hr
    cases hr
    exact .stops hc

section Encode

variable {e : Expr} {dst : UInt8} {s t : State} {b : Block Instr}

theorem Encoded.staysFrom (h : Encoded e dst s b t) {i : Instr} (hi : i ∈ b.toList) :
    i.StaysFrom dst := by
  have haligned := h.aligned t.pool.values (List.prefix_refl _)
  have hfits : Action.Fits (0 + e.need) 0 e.actions :=
    Expr.fits_actions h.wellFormed (Nat.le_refl _)
  obtain ⟨a, d, hdoes, hop⟩ := Aligned.operands_le (d := 0) haligned hfits hi
  exact hdoes.staysFrom hop

/-- Both machines run the code as the actions of the tree run on the stack below the
destination. -/
theorem Encoded.framed (h : Encoded e dst s b t) {constants store : Store}
    (hconstants : t.pool.values.toList <+: constants.toList)
    (hroom : dst.toNat + e.need ≤ store.size) (ip : Nat) :
    Framed e.eval dst store ((machine constants).exec ip b.toList store) ∧
      Framed e.wrapping dst store ((trustedMachine constants).exec ip b.toList store) := by
  -- to the simulation the registers below the destination are the stack at the start
  obtain ⟨stk, hlength, hstk⟩ := store.exists_holds (Nat.le_of_add_right_le hroom)
  have haligned := h.aligned constants hconstants
  have hfits := Expr.fits_actions h.wellFormed hroom
  rw [← hlength] at haligned hfits
  constructor
  · exact framed_of_related h.wellFormed hlength hstk
      ((tracking constants store.size).simulation.exec ⟨rfl, hstk⟩ haligned hfits ip)
  · exact framed_of_related h.wellFormed hlength hstk
      ((trustedSimulation constants store.size).exec ⟨rfl, hstk⟩ haligned hfits ip)

/-- Encoding a tree into the last register in use takes registers above it and gives them back,
and the peak rises to what the tree needs from there on. The code keeps to these registers. On any
store that has them, with any constants that begin with the pool, both machines put the value of
the tree into the destination and change nothing below it, or stop where the evaluation fails. -/
theorem register_code_is_framed (h : encode e dst s = .ok (b, t))
    (hlive : s.registers.live = dst.toNat + 1) (hpeak : s.registers.live ≤ s.registers.peak) :
    t.registers.live = dst.toNat + 1 ∧
    t.registers.peak = max s.registers.peak (dst.toNat + e.need) ∧
    (∀ i ∈ b.toList, i.StaysFrom dst) ∧
    ∀ (constants store : Store) (ip : Nat), t.pool.values.toList <+: constants.toList →
      dst.toNat + e.need ≤ store.size →
        Framed e.eval dst store ((machine constants).exec ip b.toList store) ∧
          Framed e.wrapping dst store ((trustedMachine constants).exec ip b.toList store) := by
  have he := encode_ok h hlive hpeak
  refine ⟨he.live, he.peak, fun i hi => he.staysFrom hi, ?_⟩
  intro constants store ip hconstants hroom
  exact he.framed hconstants hroom ip

end Encode

/-- A difference is computed above two registers that are in use, over what the others held, with
a constant that belongs to other code in front of its own and another one behind it. -/
theorem difference_framed_above_partial_results :
    ∃ b t u,
      encode (.ofBinary .sub (.ofInt 5) (.ofBinary .mul (.ofInt 70000)
        (.ofUnary .negate (.ofInt 3)))) 2 ⟨⟨#[40000]⟩, ⟨3, 4⟩⟩ = .ok (b, t) ∧
      t.registers.live = 3 ∧ t.registers.peak = 5 ∧ (∀ i ∈ b.toList, i.StaysFrom 2) ∧
      (machine #[40000, 70000, 80000]).exec 7 b.toList #[11, 12, 13, 14, 15] = .ok u ∧
      u[0]? = some 11 ∧ u[1]? = some 12 ∧ u[2]? = some 210005 := by
  obtain ⟨b, t, hb⟩ : ∃ b t, encode (.ofBinary .sub (.ofInt 5) (.ofBinary .mul (.ofInt 70000)
      (.ofUnary .negate (.ofInt 3)))) 2 ⟨⟨#[40000]⟩, ⟨3, 4⟩⟩ = .ok (b, t) := ⟨_, _, rfl⟩
  obtain ⟨hlive, hpeak, hstays, hframed⟩ := register_code_is_framed hb rfl (by decide)
  have hpool : t.pool.values.toList <+: [40000, 70000, 80000] := by
    cases hb
    exact ⟨[80000], rfl⟩
  obtain ⟨hchecked, _⟩ :=
    hframed #[40000, 70000, 80000] #[11, 12, 13, 14, 15] 7 hpool (by decide)
  generalize hr : (machine #[40000, 70000, 80000]).exec 7 b.toList #[11, 12, 13, 14, 15] = r
    at hchecked
  cases hchecked with
  | @ends v u hv _ htarget hbelow =>
    cases hv
    exact ⟨b, t, u, hb, hlive, hpeak, hstays, hr, hbelow 0 (by decide), hbelow 1 (by decide),
      htarget⟩
  | stops hc => cases hc

end Register
end Abacus
