import Abacus.Proofs.CompiledRuns

/-!
# The storage of compiled programs

The size that an encoder declares, the depth that the effects of the opcodes add up to, and the
number of slots that a run touches are one number, which depends on the tree alone. A run that
fails may end before it has touched all of them.
-/
namespace Abacus

/-- One more than the highest slot touched. -/
def reach (es : List SlotEvent) : Nat :=
  es.foldr (fun e n => max (e.slot + 1) n) 0

theorem reach_append (xs ys : List SlotEvent) : reach (xs ++ ys) = max (reach xs) (reach ys) := by
  induction xs with
  | nil => exact (Nat.zero_max _).symm
  | cons e xs ih =>
    change max (e.slot + 1) (reach (xs ++ ys)) = max (max (e.slot + 1) (reach xs)) (reach ys)
    rw [ih, Nat.max_assoc]

theorem reach_perm {xs ys : List SlotEvent} (h : xs.Perm ys) : reach xs = reach ys := by
  apply h.foldr_eq'
  intro x _ y _ n
  omega

namespace SlotUsage

theorem step_observer (e : StepEvent) (u : SlotUsage) : observer.step e u = (true, u) := rfl

theorem peak_slots (es : List SlotEvent) (u : SlotUsage) :
    (observer.slots es u).peak = max u.peak (reach es) := by
  induction es generalizing u with
  | nil => exact (Nat.max_zero _).symm
  | cons e es ih =>
    have h := ih (observer.onSlot e u)
    change (observer.slots es (observer.onSlot e u)).peak = max u.peak (max (e.slot + 1) (reach es))
    rw [h, ← Nat.max_assoc]
    rfl

end SlotUsage

namespace Action

variable (arith : Arithmetic) (ip : Nat)

theorem reach_conclude (op : Opcode) (stk : List Int64) (reads : List SlotEvent)
    (hr : stk.length < reach reads) (r : Except ArithmeticError Int64) :
    reach (conclude ip op stk reads r).1 = reach reads := by
  cases r with
  | error e => rfl
  | ok v =>
    change reach (reads ++ [⟨ip, stk.length, true, v⟩]) = _
    rw [reach_append]
    exact Nat.max_eq_left hr

theorem reach_negate (a : Int64) (stk : List Int64) :
    reach ((machine arith).step ip .negate (a :: stk)).1 = stk.length + 1 :=
  reach_conclude _ _ _ _ (Nat.lt_succ_self _) _

theorem reach_binary (op : BinaryOp) (a b : Int64) (stk : List Int64) :
    reach ((machine arith).step ip (.binary op) (b :: a :: stk)).1 = stk.length + 2 := by
  have hreads : reach [⟨ip, stk.length + 1, false, b⟩, ⟨ip, stk.length, false, a⟩] =
      stk.length + 2 := by
    simp only [reach, List.foldr_cons, List.foldr_nil]
    omega
  have hlt : stk.length < reach [⟨ip, stk.length + 1, false, b⟩, ⟨ip, stk.length, false, a⟩] := by
    omega
  exact (reach_conclude _ _ _ _ hlt _).trans hreads

end Action

namespace Expr

variable (arith : Arithmetic)

/-- The slots that the actions of a tree touch lie below what it needs, and where they all succeed
they reach as far. -/
theorem reach_actions {e : Expr} (h : e.WellFormed) (ip : Nat) (stk : List Int64) :
    reach ((Action.machine arith).trace ip e.actions stk) ≤ stk.length + e.need ∧
      ∀ stk', (Action.machine arith).exec ip e.actions stk = .ok stk' →
        reach ((Action.machine arith).trace ip e.actions stk) = stk.length + e.need := by
  induction h generalizing ip stk with
  | int => exact ⟨Nat.le_refl _, fun _ _ => rfl⟩
  | @unary p op x hx ih =>
    cases op with
    | identity => exact ih ip stk
    | negate =>
      have hp := hx.need_pos
      obtain ⟨hle, heq⟩ := ih ip stk
      rw [actions, need]
      rcases exec_actions_cases arith hx ip stk with ⟨v, hr⟩ | ⟨_, hr⟩
      · have hreach : reach ((Action.machine arith).trace ip (x.actions ++ [.negate]) stk) =
            stk.length + x.need := by
          rw [Machine.trace_append_ok _ _ hr, Machine.trace_single, reach_append, heq _ hr,
            Action.reach_negate]
          omega
        exact ⟨Nat.le_of_eq hreach, fun _ _ => hreach⟩
      · rw [Machine.trace_append_error _ _ hr, Machine.exec_append_error _ _ hr]
        refine ⟨hle, ?_⟩
        intro _ hok
        cases hok
  | @binary p op x y hx hy ihx ihy =>
    have hp := hy.need_pos
    obtain ⟨hle, heq⟩ := ihx ip stk
    rw [actions, need, List.append_assoc]
    rcases exec_actions_cases arith hx ip stk with ⟨a, hr⟩ | ⟨_, hr⟩
    · obtain ⟨hle', heq'⟩ := ihy (ip + x.actions.length) (a :: stk)
      rw [List.length_cons] at hle' heq'
      rw [Machine.trace_append_ok _ _ hr, Machine.exec_append, hr, ok_bind, reach_append,
        heq _ hr]
      rcases exec_actions_cases arith hy (ip + x.actions.length) (a :: stk) with
        ⟨b, hr'⟩ | ⟨_, hr'⟩
      · rw [Machine.trace_append_ok _ _ hr', Machine.trace_single, reach_append, heq' _ hr',
          Action.reach_binary]
        exact ⟨by omega, fun _ _ => by omega⟩
      · rw [Machine.trace_append_error _ _ hr', Machine.exec_append_error _ _ hr']
        refine ⟨by omega, ?_⟩
        intro _ hok
        cases hok
    · rw [Machine.trace_append_error _ _ hr, Machine.exec_append_error _ _ hr]
      refine ⟨by omega, ?_⟩
      intro _ hok
      cases hok

end Expr

/-- The highest slot that a run touches is the last that the tree needs, or below it where the run
fails. -/
structure Tallies (e : Expr) (r : Except Stop Int64 × SlotUsage) : Prop where
  le : r.2.peak ≤ e.need
  eq : ∀ v, r.1 = .ok v → r.2.peak = e.need

theorem tallies_run {ι σ : Type} {m : Machine ι σ} {room : Nat} (T : Tracking m .checked room)
    {e : Expr} (h : e.WellFormed) (hroom : e.need ≤ room) {code : List ι}
    (hc : Aligned T.Does 0 code e.actions) {s : σ} (hs : T.Holds s [])
    (result : σ → Except Stop Int64) :
    Tallies e ((m.run SlotUsage.observer 0 code s {}).1 >>= result,
      (m.run SlotUsage.observer 0 code s {}).2) := by
  have hfits : Action.Fits room 0 e.actions := Expr.fits_actions h (by omega)
  obtain ⟨hle, heq⟩ := Expr.reach_actions .checked h 0 []
  rw [List.length_nil, Nat.zero_add] at hle heq
  have hpeak : (SlotUsage.observer.slots (m.trace 0 code s) {}).peak =
      reach ((Action.machine .checked).trace 0 e.actions []) := by
    rw [SlotUsage.peak_slots, reach_perm (T.trace hs hc hfits 0)]
    exact Nat.zero_max _
  rw [m.run_eq_exec SlotUsage.step_observer]
  constructor
  · exact Nat.le_trans (Nat.le_of_eq hpeak) hle
  · intro v hv
    obtain ⟨t, ht, _⟩ := bind_eq_ok.mp hv
    have ht : m.exec 0 code s = .ok t := ht
    have hrelated := T.simulation.exec hs hc hfits 0
    rw [ht] at hrelated
    generalize hr : (Action.machine .checked).exec 0 e.actions [] = r at hrelated
    cases hrelated
    exact hpeak.trans (heq _ hr)

section Encodings

variable {e : Expr}

theorem Rpn.tallies_observe {p : Program Instr} (h : compile e = .ok p) :
    Tallies e (observe SlotUsage.observer p {}) := by
  obtain ⟨he, _, hc⟩ := compile_ok h
  exact tallies_run (tracking e.need) he (Nat.le_refl _) hc ⟨rfl, trivial⟩ result

theorem Stack.tallies_observe {p : Program Instr} (h : compile e = .ok p) :
    Tallies e (observe SlotUsage.observer p {}) := by
  obtain ⟨he, _, _, _, hc⟩ := compile_ok h
  rw [observe, size_eq_need h]
  exact tallies_run (tracking p.constants e.need) he (Nat.le_refl _) hc
    ⟨by simp [Store.zeros], rfl, trivial⟩ result

theorem Register.tallies_observe {p : Program Instr} (h : compile e = .ok p) :
    Tallies e (observe SlotUsage.observer p {}) := by
  obtain ⟨he, _, _, _, _, hc⟩ := compile_ok h
  rw [observe, size_eq_need h]
  exact tallies_run (tracking p.constants e.need) he (Nat.le_refl _) hc
    ⟨by simp [Store.zeros], trivial⟩ result

variable {b : Backend} {x : Executable}

theorem tallies_observe (h : compile b e = .ok x) :
    Tallies e (x.observe SlotUsage.observer {}) := by
  rcases compile_cases h with ⟨p, hp, rfl⟩ | ⟨p, hp, rfl⟩ | ⟨p, hp, rfl⟩
  · exact Rpn.tallies_observe hp
  · exact Stack.tallies_observe hp
  · exact Register.tallies_observe hp

/-- The storage that a program declares, the depth that its opcodes add up to, and what a
successful checked run is seen to use are the need of the tree; a run that fails uses no more. -/
theorem storage_size_exact (e : Expr) :
    (∀ p, Rpn.compile e = .ok p →
      (Rpn.stats p).storageSize = e.need ∧ Rpn.depth p.code = e.need) ∧
    (∀ p, Stack.compile e = .ok p → p.size = e.need) ∧
    (∀ p, Register.compile e = .ok p → p.size = e.need) ∧
    ∀ b x, compile b e = .ok x →
      (∀ v, (x.observe SlotUsage.observer {}).1 = .ok v →
        (x.observe SlotUsage.observer {}).2.peak = e.need) ∧
      ∀ stop, (x.observe SlotUsage.observer {}).1 = .error stop →
        (x.observe SlotUsage.observer {}).2.peak ≤ e.need := by
  refine ⟨?_, ?_, ?_, ?_⟩
  · intro p hp
    exact ⟨Rpn.depth_eq_need hp, Rpn.depth_eq_need hp⟩
  · intro p hp
    exact (Stack.compile_ok hp).2.2.1
  · intro p hp
    exact (Register.compile_ok hp).2.2.1
  · intro b x hx
    obtain ⟨hle, heq⟩ := tallies_observe hx
    exact ⟨heq, fun _ _ => hle⟩

theorem storage_size_of_nested_sum :
    ∃ p, Stack.compile (.ofBinary .add (.ofInt 1)
        (.ofBinary .mul (.ofInt 70000) (.ofUnary .negate (.ofInt 3)))) = .ok p ∧
      p.size = 3 ∧ (Stack.observe SlotUsage.observer p {}).2.peak = 3 := by
  obtain ⟨p, hp⟩ : ∃ p, Stack.compile (.ofBinary .add (.ofInt 1)
      (.ofBinary .mul (.ofInt 70000) (.ofUnary .negate (.ofInt 3)))) = .ok p := ⟨_, rfl⟩
  have hx : compile .stack (.ofBinary .add (.ofInt 1)
      (.ofBinary .mul (.ofInt 70000) (.ofUnary .negate (.ofInt 3)))) = .ok (.stack p) := by
    rw [compile, hp]
    rfl
  obtain ⟨_, hsize, _, hobserve⟩ := storage_size_exact (.ofBinary .add (.ofInt 1)
    (.ofBinary .mul (.ofInt 70000) (.ofUnary .negate (.ofInt 3))))
  refine ⟨p, hp, hsize p hp, (hobserve .stack _ hx).1 (-209999) ?_⟩
  cases hp
  rfl

end Encodings
end Abacus
