import Abacus.Proofs.ExactValue
import Abacus.Proofs.Generation
import Abacus.Proofs.Lockstep

/-!
# Wrapping evaluation

Wrapping evaluation goes where checked evaluation goes, for as long as nothing overflows, and past
an overflow where checked evaluation ends. What it returns there still has a meaning if nothing is
divided: reduction to a word commutes with sums, differences, products and opposites, so the result
is the value of the tree over the integers modulo the number of words.
-/
namespace Abacus

def UpToOverflow (r s : Except Fault Int64) : Prop :=
  r = s ∨ r = .error (Fault.arithmetic none .overflow)

namespace UpToOverflow

theorem bind {r s : Except Fault Int64} {k l : Int64 → Except Fault Int64}
    (h : UpToOverflow r s) (hk : ∀ a, UpToOverflow (k a) (l a)) :
    UpToOverflow (r >>= k) (s >>= l) := by
  rcases h with rfl | rfl
  · cases r with
    | error f => exact Or.inl rfl
    | ok a => exact hk a
  · exact Or.inr rfl

theorem operator {r s : Except ArithmeticError Int64} (h : r = s ∨ r = .error .overflow) :
    UpToOverflow (r.mapError (Fault.arithmetic none)) (s.mapError (Fault.arithmetic none)) := by
  rcases h with rfl | rfl
  · exact Or.inl rfl
  · exact Or.inr rfl

end UpToOverflow

theorem checked_unary_cases (op : UnaryOp) (a : Int64) :
    Expr.applyUnary .checked op a = Expr.applyUnary .wrapping op a ∨
      Expr.applyUnary .checked op a = .error .overflow := by
  cases op with
  | identity => exact Or.inl rfl
  | negate => exact checked_negate_cases a

theorem eq_ofInt_iff {w : Int64} {z : Int} :
    w = Int64.ofInt z ↔ (Int64.size : Int) ∣ w.toInt - z := by
  have hw := isWord_toInt w
  rw [isWord_iff] at hw
  rw [eq_comm, Int64.ofInt_eq_iff_bmod_eq_toInt, Int.bmod_eq_iff (by decide)]
  constructor
  · exact fun h => h.2.2
  · exact fun h => ⟨by omega, by omega, h⟩

theorem wrapping_unary_ofInt (op : UnaryOp) (x : Int) :
    Expr.applyUnary .wrapping op (Int64.ofInt x) = .ok (Int64.ofInt (op.onInteger x)) := by
  cases op with
  | identity => rfl
  | negate =>
    rw [UnaryOp.onInteger, Int64.ofInt_neg]
    rfl

theorem wrapping_binary_ofInt {op : BinaryOp} (hop : op ≠ .div) (x y : Int) :
    ∃ z, op.onIntegers? x y = some z ∧
      Arithmetic.wrapping.binary op (Int64.ofInt x) (Int64.ofInt y) = .ok (Int64.ofInt z) := by
  cases op with
  | add =>
    refine ⟨x + y, rfl, ?_⟩
    rw [Int64.ofInt_add]
    rfl
  | sub =>
    refine ⟨x - y, rfl, ?_⟩
    rw [Int64.ofInt_sub]
    rfl
  | mul =>
    refine ⟨x * y, rfl, ?_⟩
    rw [Int64.ofInt_mul]
    rfl
  | div => exact absurd rfl hop

namespace Expr

theorem eval_upToOverflow (e : Expr) : UpToOverflow e.eval e.wrapping := by
  unfold eval wrapping
  induction e with
  | hole kind => exact Or.inl rfl
  | int p literal v => exact Or.inl rfl
  | unary p op x ih =>
    cases op with
    | unknown code => exact Or.inl rfl
    | known op =>
      rw [evalWith, evalWith]
      exact ih.bind fun a => .operator (checked_unary_cases op a)
  | binary p op x y ihx ihy =>
    cases op with
    | unknown code => exact Or.inl rfl
    | known op =>
      rw [evalWith, evalWith]
      exact ihx.bind fun a => ihy.bind fun b => .operator (checked_binary_cases op a b)

theorem eq_divisionByZero_of_wrapping {e : Expr} (h : e.WellFormed) {f : Fault}
    (hf : e.wrapping = .error f) : f = Fault.arithmetic none .divisionByZero := by
  have hjudged := judged_evalWith .wrapping e
  rw [show e.evalWith .wrapping = .error f from hf] at hjudged
  cases hjudged with
  | arithmetic => rw [wrapping_error hf]
  | defect hdefect => cases (defect?_eq_none_iff.mpr h).symm.trans hdefect

/-- Without quotients, a tree has a value over the integers, and wrapping evaluation gives the word
of this value, however often it overflows on the way. -/
theorem wrapping_eq_ofInt {e : Expr} (h : e.WellFormed) (hdiv : .div ∉ e.binaryOps) :
    ∃ z, e.integerValue? = some z ∧ e.wrapping = .ok (Int64.ofInt z) := by
  unfold wrapping
  induction h with
  | @int p literal v =>
    refine ⟨v.toInt, rfl, ?_⟩
    rw [Int64.ofInt_toInt]
    rfl
  | @unary p op x _ ih =>
    obtain ⟨z, hz, hx⟩ := ih hdiv
    refine ⟨op.onInteger z, ?_, ?_⟩
    · simp only [integerValue?, hz, Option.map_some]
    · rw [evalWith, hx, ok_bind, wrapping_unary_ofInt]
      rfl
  | @binary p op x y _ _ ihx ihy =>
    simp only [binaryOps, List.mem_cons, List.mem_append, not_or] at hdiv
    obtain ⟨hop, hdivx, hdivy⟩ := hdiv
    obtain ⟨a, ha, hx⟩ := ihx hdivx
    obtain ⟨b, hb, hy⟩ := ihy hdivy
    obtain ⟨z, hz, hword⟩ := wrapping_binary_ofInt (Ne.symm hop) a b
    refine ⟨z, ?_, ?_⟩
    · simp only [integerValue?, ha, hb]
      exact hz
    · rw [evalWith, hx, ok_bind, hy, ok_bind, hword]
      rfl

end Expr

/-- Wrapping evaluation returns what checked evaluation returns, and divides by zero where checked
evaluation does. It fails for no other reason, so never with an overflow. A tree without quotients
evaluates to the one word that is congruent to its value over the integers. -/
theorem wrapping_extends_checked {e : Expr} (h : e.WellFormed) :
    (∀ v, e.eval = .ok v → e.wrapping = .ok v) ∧
    (∀ f, e.eval = .error f → f.cause = some (.arithmetic .divisionByZero) →
      e.wrapping = .error f) ∧
    (∀ f, e.wrapping = .error f → f = Fault.arithmetic none .divisionByZero) ∧
    (.div ∉ e.binaryOps → ∃ w z, e.wrapping = .ok w ∧ e.integerValue? = some z ∧
      (Int64.size : Int) ∣ w.toInt - z ∧
      ∀ w' : Int64, (Int64.size : Int) ∣ w'.toInt - z → w' = w) := by
  refine ⟨fun v hv => ?_, fun f hf hcause => ?_, fun f hf => ?_, fun hdiv => ?_⟩
  · rcases e.eval_upToOverflow with heq | hover
    · rw [← heq, hv]
    · cases hv.symm.trans hover
  · rcases e.eval_upToOverflow with heq | hover
    · rw [← heq, hf]
    · cases hf.symm.trans hover
      cases hcause
  · exact Expr.eq_divisionByZero_of_wrapping h hf
  · obtain ⟨z, hz, hw⟩ := Expr.wrapping_eq_ofInt h hdiv
    exact ⟨_, z, hw, hz, eq_ofInt_iff.mp rfl, fun w' hw' => eq_ofInt_iff.mpr hw'⟩

/-- The square of the greatest word is far out of range, and congruent to one. -/
theorem square_of_greatest_wraps :
    ∃ e w z, e = Expr.ofBinary .sub (.ofBinary .mul (.ofInt Int64.maxValue)
        (.ofInt Int64.maxValue)) (.ofUnary .negate (.ofInt 1)) ∧
      e.eval = .error (Fault.arithmetic none .overflow) ∧ e.wrapping = .ok w ∧ w = 2 ∧
      e.integerValue? = some z ∧ (Int64.size : Int) ∣ w.toInt - z ∧
      ∀ w' : Int64, (Int64.size : Int) ∣ w'.toInt - z → w' = w := by
  obtain ⟨_, _, _, hwraps⟩ := wrapping_extends_checked
    (e := .ofBinary .sub (.ofBinary .mul (.ofInt Int64.maxValue) (.ofInt Int64.maxValue))
      (.ofUnary .negate (.ofInt 1))) (.binary (.binary .int .int) (.unary .int))
  obtain ⟨w, z, hw, hz, hdvd, hunique⟩ := hwraps (by decide)
  refine ⟨_, w, z, rfl, rfl, hw, ?_, hz, hdvd, hunique⟩
  cases hw
  rfl

end Abacus
