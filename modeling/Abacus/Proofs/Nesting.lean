import Abacus.Proofs.Agreement
import Abacus.Proofs.Limits
import Abacus.Proofs.RoundTrip

/-!
# Nesting and storage

The right operand of a binary operator adds one level of nesting and one slot, and the grammar
allows it twice in a row: a product in a sum, and a signed operand in the product. The next right
operand has to stand in parentheses, which add a level and no slot. So three levels make room for
two slots, and a limit on the depth of a text is a limit on the storage of its programs.
-/
namespace Abacus

open Grammar

namespace Expr

theorem need_bare (e : Expr) : e.bare.need = e.need := by
  induction e with
  | hole kind => rfl
  | int p literal v => rfl
  | unary p op x ih => exact ih
  | binary p op x y ihx ihy => rw [bare, need, ihx, ihy, need]

theorem pooled_bare (e : Expr) : e.bare.pooled = e.pooled := by
  induction e with
  | hole kind => rfl
  | int p literal v => rfl
  | unary p op x ih => exact ih
  | binary p op x y ihx ihy => rw [bare, pooled, ihx, ihy, pooled]

end Expr

namespace Grammar

/-- What a phrase may need beyond two slots for three levels of its depth, in thirds of a slot. -/
def Level.slack : Level → Nat
  | .sum => 3
  | .product => 2
  | .signed => 1
  | .primary => 1

theorem BinarySign.slack_eq {l : Level} {k : Token.Kind} {op : BinaryOp}
    (h : BinarySign l k op) : l.slack = l.tighter.slack + 1 := by
  cases h <;> rfl

theorem Level.slack_tighter_le (l : Level) : l.tighter.slack ≤ l.slack := by
  cases l <;> decide

namespace Derives

variable {l : Level} {ts : List Token} {e : Expr} {n : Nat}

/-- The storage that a phrase needs is bounded by its depth. -/
theorem need_le (h : Derives l ts e n) : 3 * e.need ≤ 2 * n + l.slack := by
  induction h with
  | int _ => exact Nat.le_refl _
  | group _ _ _ ih =>
    simp only [Level.slack] at ih ⊢
    omega
  | unary _ _ ih =>
    simp only [Level.slack, Expr.need] at ih ⊢
    omega
  | binary hsign _ _ ihx ihy =>
    -- The slot of the right operand is paid by its level, two thirds, and by the slack it gives up.
    have hslack := hsign.slack_eq
    simp only [Expr.need]
    omega
  | @lift l _ _ _ _ ih =>
    have hslack := l.slack_tighter_le
    omega

end Derives
end Grammar

/-- Some phrase in front of the text has the depth `n`, needs `k` slots and holds no constant. -/
def Demands (l : Level) (rest : Bytes) (n k : Nat) : Prop :=
  ∃ text e, Phrase l text rest e n ∧ e.need = k ∧ e.pooled = []

namespace Demands

variable {l l' : Level} {rest : Bytes} {n k : Nat}

theorem one (h : Bytes.EndsNumeral rest) : Demands .primary rest 1 1 :=
  ⟨_, .ofInt 1, .int (by decide) h, rfl, rfl⟩

theorem loosen (h : Demands l rest n k) (hl : l'.rank ≤ l.rank) : Demands l' rest n k := by
  obtain ⟨text, e, hphrase, hneed, hpooled⟩ := h
  exact ⟨text, e, hphrase.loosen hl, hneed, hpooled⟩

theorem group (h : Demands .sum (Bytes.rparen :: rest) n k) : Demands .primary rest (1 + n) k := by
  obtain ⟨text, e, hphrase, hneed, hpooled⟩ := h
  exact ⟨_, e, hphrase.group, hneed, hpooled⟩

theorem operand {t : Token.Kind} {op : BinaryOp} (ht : Token.Kind.ofByte? op.symbol = some t)
    (hsign : BinarySign l t op) (h : Demands l.tighter rest n k) :
    Demands l rest (1 + n) (1 + k) := by
  obtain ⟨text, e, hphrase, hneed, hpooled⟩ := h
  have hone : Phrase .primary _ _ (.ofInt 1) 1 :=
    .int (by decide) (endsNumeral_space (op.symbol :: Bytes.space :: text))
  have hl : l.rank ≤ Level.primary.rank := by
    cases hsign <;> decide
  have hbinary := Phrase.operator ht hsign (hone.loosen hl) hphrase
  rw [Nat.max_eq_right (Nat.le_add_right 1 n)] at hbinary
  refine ⟨_, _, hbinary, ?_, hpooled⟩
  rw [← hneed]
  exact Nat.max_eq_right (Nat.le_add_right 1 _)

/-- A sum whose right operand is a product costs two levels and two slots. -/
theorem operands (h : Demands .signed rest n k) :
    Demands .sum rest (1 + (1 + n)) (1 + (1 + k)) := by
  have hproduct : Demands .product rest (1 + n) (1 + k) := operand rfl .star h
  exact operand rfl .plus hproduct

theorem sum (n : Nat) {rest : Bytes} (h : Bytes.EndsNumeral rest) :
    Demands .sum rest (n + 1) (1 + 2 * (n + 1) / 3) := by
  match n with
  | 0 => exact (one h).loosen (by decide)
  | 1 =>
    have hproduct : Demands .product rest 2 2 := operand rfl .star ((one h).loosen (by decide))
    exact hproduct.loosen (by decide)
  | 2 => exact operands ((one h).loosen (by decide))
  | n + 3 =>
    -- Parentheses lead back to a sum, so the three cheapest shapes repeat.
    have hgroup := (sum n (endsNumeral_rparen rest)).group
    have hsum := operands (hgroup.loosen (by decide))
    have hdepth : 1 + (1 + (1 + (n + 1))) = n + 3 + 1 := by omega
    have hneed : 1 + (1 + (1 + 2 * (n + 1) / 3)) = 1 + 2 * (n + 3 + 1) / 3 := by omega
    rwa [hdepth, hneed] at hsum

end Demands

theorem exists_source (n : Nat) : ∃ source t,
    (∀ maxDepth : Int, n + 1 ≤ maxDepth → parse source { maxDepth } = .ok t) ∧
      t.need = 1 + 2 * (n + 1) / 3 ∧ t.pooled = [] := by
  have hend : Bytes.EndsNumeral [] := rfl
  obtain ⟨source, e, hphrase, hneed, hpooled⟩ := Demands.sum n hend
  obtain ⟨t, hbare, hparse⟩ := parse_phrase hphrase
  refine ⟨source, t, fun maxDepth hn => (hparse maxDepth t).mpr ⟨rfl, by omega⟩, ?_, ?_⟩
  · rw [← hneed, ← hbare, Expr.need_bare]
  · rw [← hpooled, ← hbare, Expr.pooled_bare]

theorem need_le_of_parse {source : Bytes} {maxDepth : Int} {t : Expr}
    (h : parse source { maxDepth } = .ok t) : t.WellFormed ∧ 3 * t.need ≤ 2 * maxDepth + 3 := by
  obtain ⟨ts, n, hderives, _, hn⟩ := Parse.exists_derives h
  have hneed := hderives.need_le
  refine ⟨hderives.wellFormed, ?_⟩
  simp only [Level.slack] at hneed
  omega

/-- A limit on the depth of a text is a limit on the storage of its programs, and no smaller bound
holds. With a limit of 383 a tree never runs out of registers, and with 384 one does. -/
theorem nesting_bounds_storage :
    (∀ maxDepth : Int, 1 ≤ maxDepth →
      (∀ source t, parse source { maxDepth } = .ok t →
        t.need ≤ 1 + 2 * maxDepth / 3 ∧
        ∀ b x, compile b t = .ok x → x.stats.storageSize = t.need) ∧
      ∃ source t, parse source { maxDepth } = .ok t ∧ t.need = 1 + 2 * maxDepth / 3) ∧
    (∀ maxDepth : Int, maxDepth ≤ 383 → ∀ source t f, parse source { maxDepth } = .ok t →
      Register.compile t = .error f → f.cause ≠ some .tooManyRegisters) ∧
    ∃ source t, parse source { maxDepth := 384 } = .ok t ∧
      Register.compile t = .error (Fault.compile .tooManyRegisters) := by
  refine ⟨fun maxDepth hpos => ⟨fun source t ht => ⟨?_, ?_⟩, ?_⟩, ?_, ?_⟩
  · obtain ⟨_, hneed⟩ := need_le_of_parse ht
    omega
  · intro b x hx
    exact storageSize_of_compile hx
  · obtain ⟨source, t, hparse, hneed, _⟩ := exists_source (maxDepth.toNat - 1)
    exact ⟨source, t, hparse maxDepth (by omega), by omega⟩
  · intro maxDepth hle source t f ht hf hcause
    obtain ⟨hwell, hneed⟩ := need_le_of_parse ht
    have hmax : maxRegisters = 256 := rfl
    have hlt := (Register.limited_compile hwell).lt_of_cause hf hcause
    omega
  · obtain ⟨source, t, hparse, hneed, hpooled⟩ := exists_source 383
    have ht := hparse 384 (by decide)
    obtain ⟨hwell, _⟩ := need_le_of_parse ht
    refine ⟨source, t, ht, (Register.limited_compile hwell).eq_tooManyRegisters ?_ ?_⟩
    · rw [hpooled]
      exact Nat.zero_le _
    · rw [hneed]
      decide

end Abacus
