import Abacus.Proofs.CompiledRuns
import Abacus.Proofs.ExactArithmetic

/-!
# The value of a tree over the integers

Over the integers nothing overflows, and a tree has a value unless it divides by zero somewhere.
Checked evaluation gives this value if a word can hold it and the value of every subtree, also of
one whose excess would cancel out later. Otherwise the subtrees are taken in postorder, the order
in which they are evaluated, and the first that has no such value says why evaluation fails.
-/
namespace Abacus

def UnaryOp.onInteger : UnaryOp → Int → Int
  | .identity, x => x
  | .negate, x => -x

/-- The result of an operator over the integers. Quotients are truncated toward zero. -/
def BinaryOp.onIntegers? : BinaryOp → Int → Int → Option Int
  | .add, x, y => some (x + y)
  | .sub, x, y => some (x - y)
  | .mul, x, y => some (x * y)
  | .div, x, y => if y = 0 then none else some (x.tdiv y)

theorem checked_unary_eq (op : UnaryOp) (a : Int64) :
    Expr.applyUnary .checked op a = narrow (op.onInteger a.toInt) := by
  cases op with
  | identity => exact (narrow_toInt a).symm
  | negate => exact checked_neg_eq a

theorem BinaryOp.onIntegers?_eq_none {op : BinaryOp} {x y : Int}
    (h : op.onIntegers? x y = none) : op = .div ∧ y = 0 := by
  cases op with
  | div => simpa [onIntegers?] using h
  | _ => cases h

theorem checked_binary_eq {op : BinaryOp} {a b : Int64} {z : Int}
    (h : op.onIntegers? a.toInt b.toInt = some z) :
    Arithmetic.checked.binary op a b = narrow z := by
  cases op with
  | add =>
    cases h
    exact checked_add_eq a b
  | sub =>
    cases h
    exact checked_sub_eq a b
  | mul =>
    cases h
    exact checked_mul_eq a b
  | div =>
    have hb : b ≠ 0 := by
      rintro rfl
      cases h
    have hzero : b.toInt ≠ 0 := fun hb' => hb (Int64.toInt_inj.mp hb')
    simp only [BinaryOp.onIntegers?, if_neg hzero, Option.some.injEq] at h
    rw [← h]
    exact checked_div_eq a hb

namespace Expr

/-- The value of a tree over the integers. There is none if a divisor is zero. -/
def integerValue? : Expr → Option Int
  | .int _ _ v => some v.toInt
  | .unary _ (.known op) x => x.integerValue?.map op.onInteger
  | .binary _ (.known op) x y => do
    let a ← x.integerValue?
    let b ← y.integerValue?
    op.onIntegers? a b
  | _ => none

/-- The subtrees of a tree from left to right, each after its operands. -/
def postorder : Expr → List Expr
  | .hole kind => [.hole kind]
  | .int p literal v => [.int p literal v]
  | .unary p op x => x.postorder ++ [.unary p op x]
  | .binary p op x y => x.postorder ++ y.postorder ++ [.binary p op x y]

/-- The tree has a value over the integers, and a word can hold it. -/
def Sound (e : Expr) : Prop :=
  ∃ z, e.integerValue? = some z ∧ IsWord z

/-- The tree fails at its root: it divides by zero there, or has a value that is no word. -/
def Breaks (e : Expr) : ArithmeticError → Prop
  | .divisionByZero => ∃ p x y, e = .binary p (.known .div) x y ∧ y.integerValue? = some 0
  | .overflow => ∃ z, e.integerValue? = some z ∧ ¬ IsWord z

theorem Breaks.not_sound {e : Expr} {c : ArithmeticError} (h : e.Breaks c) : ¬ e.Sound := by
  rintro ⟨z, hz, hword⟩
  cases c with
  | divisionByZero =>
    obtain ⟨p, x, y, rfl, hy⟩ := h
    simp [integerValue?, hy, BinaryOp.onIntegers?] at hz
  | overflow =>
    obtain ⟨z', hz', hword'⟩ := h
    cases hz.symm.trans hz'
    exact hword' hword

/-- How the evaluation of a tree ends, told by the values of its subtrees over the integers. -/
inductive Course (e : Expr) : Except Fault Int64 → Prop
  | value {v} : (∀ s ∈ e.postorder, s.Sound) → e.integerValue? = some v.toInt → Course e (.ok v)
  | broken {before s after c} : e.postorder = before ++ s :: after → (∀ t ∈ before, t.Sound) →
      s.Breaks c → Course e (.error (Fault.arithmetic none c))

namespace Course

variable {e x : Expr}

theorem of_ok {v : Int64} (h : Course e (.ok v)) :
    (∀ s ∈ e.postorder, s.Sound) ∧ e.integerValue? = some v.toInt := by
  cases h with
  | value hsound hvalue => exact ⟨hsound, hvalue⟩

theorem root {before : List Expr} (horder : e.postorder = before ++ [e])
    (hbefore : ∀ s ∈ before, s.Sound) {z : Int} (hz : e.integerValue? = some z) :
    Course e ((narrow z).mapError (Fault.arithmetic none)) := by
  unfold narrow
  split
  · rename_i hword
    refine .value ?_ ?_
    · rw [horder]
      exact List.forall_mem_append.mpr ⟨hbefore, List.forall_mem_singleton.mpr ⟨z, hz, hword⟩⟩
    · rw [hz, hword.toInt_ofInt]
  · rename_i hword
    have hbreaks : e.Breaks .overflow := ⟨z, hz, hword⟩
    exact .broken horder hbefore hbreaks

/-- What fails in an operand fails in the whole tree, if nothing has failed to its left. -/
theorem operand {before after : List Expr} {f : Fault} (hx : Course x (.error f))
    (horder : e.postorder = before ++ (x.postorder ++ after)) (hbefore : ∀ s ∈ before, s.Sound) :
    Course e (.error f) := by
  cases hx with
  | @broken before' s after' c hx hbefore' hbreaks =>
    have hsplit : e.postorder = (before ++ before') ++ s :: (after' ++ after) := by
      rw [horder, hx]
      simp
    exact .broken hsplit (List.forall_mem_append.mpr ⟨hbefore, hbefore'⟩) hbreaks

end Course

theorem course_binary {p : Position} {op : BinaryOp} {x y : Expr} {a b : Int64}
    (hsound : ∀ s ∈ x.postorder ++ y.postorder, s.Sound) (hx : x.integerValue? = some a.toInt)
    (hy : y.integerValue? = some b.toInt) :
    Course (.binary p (.known op) x y)
      ((Arithmetic.checked.binary op a b).mapError (Fault.arithmetic none)) := by
  have hvalue : integerValue? (.binary p (.known op) x y) = op.onIntegers? a.toInt b.toInt := by
    simp only [integerValue?, hx, hy]
    rfl
  cases hz : op.onIntegers? a.toInt b.toInt with
  | some z =>
    rw [checked_binary_eq hz]
    exact Course.root rfl hsound (hvalue.trans hz)
  | none =>
    obtain ⟨rfl, hzero⟩ := BinaryOp.onIntegers?_eq_none hz
    have hbreaks : Breaks (.binary p (.known .div) x y) .divisionByZero :=
      ⟨p, x, y, rfl, by rw [hy, hzero]⟩
    obtain rfl : b = 0 := Int64.toInt_inj.mp hzero
    exact .broken rfl hsound hbreaks

theorem course_eval {e : Expr} (h : e.WellFormed) : Course e e.eval := by
  unfold eval
  induction h with
  | @int p literal v => exact .value (List.forall_mem_singleton.mpr ⟨_, rfl, isWord_toInt v⟩) rfl
  | @unary p op x _ ih =>
    rw [evalWith]
    cases hx : x.evalWith .checked with
    | error f =>
      rw [hx] at ih
      exact ih.operand (List.nil_append _) (List.forall_mem_nil _)
    | ok a =>
      rw [hx] at ih
      obtain ⟨hsound, ha⟩ := ih.of_ok
      rw [ok_bind, checked_unary_eq]
      refine Course.root rfl hsound ?_
      simp only [integerValue?, ha, Option.map_some]
  | @binary p op x y _ _ ihx ihy =>
    rw [evalWith]
    cases hx : x.evalWith .checked with
    | error f =>
      rw [hx] at ihx
      exact ihx.operand (List.append_assoc _ _ _) (List.forall_mem_nil _)
    | ok a =>
      rw [hx] at ihx
      obtain ⟨hsoundx, ha⟩ := ihx.of_ok
      rw [ok_bind]
      cases hy : y.evalWith .checked with
      | error f =>
        rw [hy] at ihy
        exact ihy.operand (List.append_assoc _ _ _) hsoundx
      | ok b =>
        rw [hy] at ihy
        obtain ⟨hsoundy, hb⟩ := ihy.of_ok
        exact course_binary (List.forall_mem_append.mpr ⟨hsoundx, hsoundy⟩) ha hb

end Expr

/-- Evaluation returns the value of a tree over the integers, and does so exactly if every subtree
has a value there that a word can hold. Otherwise it fails at the first subtree in postorder that
has none: with a division by zero if that subtree divides by zero, with an overflow if its value is
out of range. -/
theorem eval_is_exact_or_breaks_first {e : Expr} (h : e.WellFormed) :
    (∀ v, e.eval = .ok v ↔ (∀ s ∈ e.postorder, s.Sound) ∧ e.integerValue? = some v.toInt) ∧
    (¬ (∀ s ∈ e.postorder, s.Sound) →
      ∃ before s after c, e.postorder = before ++ s :: after ∧ (∀ t ∈ before, t.Sound) ∧
        s.Breaks c ∧ e.eval = .error (Fault.arithmetic none c)) := by
  have hcourse := Expr.course_eval h
  generalize e.eval = r at hcourse
  cases hcourse with
  | @value v hsound hvalue =>
    refine ⟨fun w => ⟨fun hw => ?_, fun hw => ?_⟩, fun hnot => absurd hsound hnot⟩
    · cases hw
      exact ⟨hsound, hvalue⟩
    · have hvw : v.toInt = w.toInt := Option.some.inj (hvalue.symm.trans hw.2)
      rw [Int64.toInt_inj.mp hvw]
  | @broken before s after c horder hbefore hbreaks =>
    have hs : s ∈ e.postorder := by simp [horder]
    refine ⟨fun v => ⟨fun hv => ?_, fun hv => ?_⟩, fun _ => ?_⟩
    · cases hv
    · exact absurd (hv.1 s hs) hbreaks.not_sound
    · exact ⟨before, s, after, c, horder, hbefore, hbreaks, rfl⟩

/-- A sum overflows, although a difference takes the excess back, and although the quotient by zero
that contains them has no value at all. -/
theorem overflow_before_zero_divisor :
    ∃ e before s after,
      e = Expr.ofBinary .div (.ofBinary .sub (.ofBinary .add (.ofInt Int64.maxValue) (.ofInt 1))
        (.ofInt 1)) (.ofInt 0) ∧
      e.postorder = before ++ s :: after ∧ (∀ t ∈ before, t.Sound) ∧ s.Breaks .overflow ∧
      e.eval = .error (Fault.arithmetic none .overflow) := by
  have hsum : (Expr.ofBinary .add (.ofInt Int64.maxValue) (.ofInt 1)).Breaks .overflow :=
    ⟨9223372036854775808, rfl, by decide⟩
  obtain ⟨_, hbreaks⟩ := eval_is_exact_or_breaks_first
    (e := .ofBinary .div (.ofBinary .sub (.ofBinary .add (.ofInt Int64.maxValue) (.ofInt 1))
      (.ofInt 1)) (.ofInt 0)) (.binary (.binary (.binary .int .int) .int) .int)
  obtain ⟨before, s, after, c, horder, hbefore, hs, heval⟩ := hbreaks fun hsound =>
    hsum.not_sound (hsound _ (by decide))
  obtain rfl : ArithmeticError.overflow = c := Fault.arithmetic_inj (Except.error.inj heval)
  exact ⟨_, before, s, after, rfl, horder, hbefore, hs, heval⟩

end Abacus
