import Abacus.Expr.Printer
import Abacus.Proofs.Parsing
import Abacus.Proofs.Postorder
import Abacus.Proofs.Scanning

/-!
# Reading the text of a tree

The text of a tree is a phrase of the grammar whatever follows it, since every operator node
stands in parentheses. It is read as the tree with its negative integers spelled out, so positions
and literals change and the value does not. The depth of the phrase is the smallest limit under
which it is read.
-/
namespace Abacus

open Grammar

namespace Expr

def bare : Expr → Expr
  | .hole kind => .hole kind
  | .int _ _ v => ofInt v
  | .unary _ op x => .unary {} op x.bare
  | .binary _ op x y => .binary {} op x.bare y.bare

/-- A negative integer as an expression whose literals are not negative. -/
def spellNegative (v : Int64) : Expr :=
  if v = Int64.minValue then ofBinary .sub (ofUnary .negate (ofInt Int64.maxValue)) (ofInt 1)
  else ofUnary .negate (ofInt (-v))

def desugar : Expr → Expr
  | .hole kind => .hole kind
  | .int p literal v => if v < 0 then spellNegative v else .int p literal v
  | .unary p op x => .unary p op x.desugar
  | .binary p op x y => .binary p op x.desugar y.desugar

def textDepth : Expr → Nat
  | .hole _ => 0
  | .int _ _ v => if v < 0 then 3 else 1
  | .unary _ _ x => 2 + x.textDepth
  | .binary _ _ x y => max (1 + x.textDepth) (2 + y.textDepth)

theorem evalWith_bare (arith : Arithmetic) (e : Expr) :
    e.bare.evalWith arith = e.evalWith arith := by
  induction e with
  | hole kind => rfl
  | int p literal v => rfl
  | unary p op x ih =>
    cases op with
    | unknown code => rfl
    | known op => simp only [bare, evalWith, ih]
  | binary p op x y ihx ihy =>
    cases op with
    | unknown code => rfl
    | known op => simp only [bare, evalWith, ihx, ihy]

theorem evalWith_desugar {arith : Arithmetic}
    (h : ∀ v, (spellNegative v).evalWith arith = .ok v) (e : Expr) :
    e.desugar.evalWith arith = e.evalWith arith := by
  induction e with
  | hole kind => rfl
  | int p literal v =>
    rw [desugar]
    split
    · exact h v
    · rfl
  | unary p op x ih =>
    cases op with
    | unknown code => rfl
    | known op => simp only [desugar, evalWith, ih]
  | binary p op x y ihx ihy =>
    cases op with
    | unknown code => rfl
    | known op => simp only [desugar, evalWith, ihx, ihy]

/-- Only the least word is its own opposite and negative, and it is not spelled as a negation. -/
theorem eval_spellNegative (v : Int64) : (spellNegative v).eval = .ok v := by
  unfold spellNegative
  split
  · rename_i hv
    rw [hv]
    rfl
  · rename_i hv
    have hneg : -v ≠ Int64.minValue := by
      intro h
      apply hv
      rw [← Int64.neg_neg (a := v), h]
      rfl
    change (Checked.neg (-v)).mapError _ = .ok v
    rw [Checked.neg, if_neg hneg, Int64.neg_neg]
    rfl

theorem wrapping_spellNegative (v : Int64) : (spellNegative v).wrapping = .ok v := by
  unfold spellNegative
  split
  · rename_i hv
    rw [hv]
    rfl
  · change Except.ok (-(-v)) = .ok v
    rw [Int64.neg_neg]

theorem evalWith_of_bare_eq {arith : Arithmetic}
    (h : ∀ v, (spellNegative v).evalWith arith = .ok v) {t e : Expr}
    (ht : t.bare = e.desugar.bare) : t.evalWith arith = e.evalWith arith := by
  rw [← evalWith_bare, ht, evalWith_bare, evalWith_desugar h]

end Expr

theorem Grammar.Derives.wellFormed {l : Level} {ts : List Token} {e : Expr} {n : Nat}
    (h : Derives l ts e n) : e.WellFormed := by
  induction h with
  | int _ => exact .int
  | group _ _ _ ih => exact ih
  | unary _ _ ih => exact .unary ih
  | binary _ _ _ ihx ihy => exact .binary ihx ihy
  | lift _ ih => exact ih

section Words

theorem natAbs_toInt {v : Int64} (h : ¬ v < 0) : (v.toInt.natAbs : Int) = v.toInt := by
  rw [Int64.lt_iff_toInt_lt, Int64.toInt_zero] at h
  exact Int.natAbs_of_nonneg (Int.not_lt.mp h)

theorem ofNat_natAbs {v : Int64} (h : ¬ v < 0) : Int64.ofNat v.toInt.natAbs = v := by
  rw [← Int64.ofInt_eq_ofNat, natAbs_toInt h, Int64.ofInt_toInt]

theorem toInt_neg_of_ne {v : Int64} (h : v ≠ Int64.minValue) : (-v).toInt = -v.toInt := by
  have hne : v.toInt ≠ Int64.minValue.toInt := fun heq => h (Int64.toInt_inj.mp heq)
  have hle := Int64.le_toInt v
  have hlt := Int64.toInt_lt v
  rw [Int64.toInt_minValue] at hne
  rw [Int64.toInt_neg]
  exact Int.bmod_eq_of_le (by omega) (by omega)

theorem not_neg_lt_zero {v : Int64} (h : v ≠ Int64.minValue) (hv : v < 0) : ¬ -v < 0 := by
  rw [Int64.lt_iff_toInt_lt, Int64.toInt_zero] at hv ⊢
  rw [toInt_neg_of_ne h]
  omega

end Words

section Signs

theorem UnaryOp.exists_sign (op : UnaryOp) :
    ∃ k, Token.Kind.ofByte? op.symbol = some k ∧ UnarySign k op := by
  cases op with
  | identity => exact ⟨_, rfl, .plus⟩
  | negate => exact ⟨_, rfl, .minus⟩

theorem BinaryOp.exists_sign (op : BinaryOp) :
    ∃ l k, Token.Kind.ofByte? op.symbol = some k ∧ BinarySign l k op := by
  cases op with
  | add => exact ⟨_, _, rfl, .plus⟩
  | sub => exact ⟨_, _, rfl, .minus⟩
  | mul => exact ⟨_, _, rfl, .star⟩
  | div => exact ⟨_, _, rfl, .slash⟩

theorem inRange_sign {b : UInt8} {k : Token.Kind} (h : Token.Kind.ofByte? b = some k)
    (p : Position) : (Cursor.token k [b] p 1).InRange :=
  fun hint => absurd hint (Cursor.ofByte?_ne h).2.1

end Signs

/-- Wherever the first text stands, scanning it up to the second gives the tokens of a phrase,
and the tree of the phrase is `e` but for positions and literals. -/
def Phrase (l : Level) (text rest : Bytes) (e : Expr) (n : Nat) : Prop :=
  ∀ p, ∃ ts t p', Cursor.Gives ⟨text, p⟩ ts ⟨rest, p'⟩ ∧ Derives l ts t n ∧ t.bare = e ∧
    ∀ u ∈ ts, u.InRange

namespace Phrase

variable {l l' : Level} {text text' rest : Bytes} {e x y : Expr} {m n : Nat}

theorem loosen (h : Phrase l text rest e n) (hl : l'.rank ≤ l.rank) :
    Phrase l' text rest e n := by
  intro p
  obtain ⟨ts, t, p', hgives, hderives, hbare, hrange⟩ := h p
  exact ⟨ts, t, p', hgives, hderives.loosen hl, hbare, hrange⟩

theorem int {v : Int64} (hv : ¬ v < 0) (h : Bytes.EndsNumeral rest) :
    Phrase .primary (Bytes.decimal v.toInt.natAbs ++ rest) rest (.ofInt v) 1 := by
  intro p
  have hread : Bytes.placeValue (Bytes.decimal v.toInt.natAbs) = v.toInt.natAbs := by
    rw [← Bytes.readDecimal_eq_placeValue, Bytes.readDecimal_decimal]
  refine ⟨_, _, _, Cursor.gives_decimal _ h p, .int rfl, ?_, ?_⟩
  · simp only [Cursor.token, Expr.bare, hread, ofNat_natAbs hv]
  · refine List.forall_mem_singleton.mpr fun _ => ?_
    have hle : v.toInt ≤ 9223372036854775807 := Int64.toInt_le v
    rw [← natAbs_toInt hv] at hle
    simpa only [Cursor.token, hread] using Int.ofNat_le.mp hle

theorem space (h : Phrase l text rest e n) : Phrase l (Bytes.space :: text) rest e n := by
  intro p
  obtain ⟨ts, t, p', hgives, hderives, hbare, hrange⟩ := h (p.along 1)
  refine ⟨ts, t, p', ?_, hderives, hbare, hrange⟩
  exact hgives.space hderives.ne_nil

theorem group (h : Phrase .sum text (Bytes.rparen :: rest) e n) :
    Phrase .primary (Bytes.lparen :: text) rest e (1 + n) := by
  intro p
  have hopen : Token.Kind.ofByte? Bytes.lparen = some .lparen := rfl
  have hclose : Token.Kind.ofByte? Bytes.rparen = some .rparen := rfl
  obtain ⟨ts, t, p', hgives, hderives, hbare, hrange⟩ := h (p.along 1)
  refine ⟨_, t, _, ((Cursor.gives_sign hopen text p).append hgives).append
    (Cursor.gives_sign hclose rest p'), .group rfl rfl hderives, hbare, ?_⟩
  refine List.forall_mem_append.mpr ⟨List.forall_mem_cons.mpr ⟨?_, hrange⟩, ?_⟩
  · exact inRange_sign hopen p
  · exact List.forall_mem_singleton.mpr (inRange_sign hclose p')

theorem unary (op : UnaryOp) (h : Phrase .signed text rest e n) :
    Phrase .signed (op.symbol :: text) rest (.ofUnary op e) (1 + n) := by
  intro p
  obtain ⟨k, hk, hsign⟩ := op.exists_sign
  obtain ⟨ts, t, p', hgives, hderives, hbare, hrange⟩ := h (p.along 1)
  refine ⟨_, _, p', (Cursor.gives_sign hk text p).append hgives, .unary hsign hderives, ?_, ?_⟩
  · rw [Expr.bare, hbare]
    rfl
  · exact List.forall_mem_cons.mpr ⟨inRange_sign hk p, hrange⟩

theorem operator {k : Token.Kind} {op : BinaryOp} (hk : Token.Kind.ofByte? op.symbol = some k)
    (hsign : BinarySign l k op)
    (hx : Phrase l text (Bytes.space :: op.symbol :: Bytes.space :: text') x m)
    (hy : Phrase l.tighter text' rest y n) :
    Phrase l text rest (.ofBinary op x y) (max m (1 + n)) := by
  intro p
  obtain ⟨xs, x', q, hgives, hderives, hbare, hrange⟩ := hx p
  have hop := Cursor.gives_sign hk (Bytes.space :: text') (q.along 1)
  obtain ⟨ys, y', p', hgives', hderives', hbare', hrange'⟩ := hy.space ((q.along 1).along 1)
  refine ⟨_, _, p', hgives.append ((hop.append hgives').space (List.cons_ne_nil _ _)),
    .binary hsign hderives hderives', ?_, ?_⟩
  · rw [Expr.bare, hbare, hbare']
    rfl
  · exact List.forall_mem_append.mpr
      ⟨hrange, List.forall_mem_cons.mpr ⟨inRange_sign hk _, hrange'⟩⟩

theorem binary (op : BinaryOp)
    (hx : Phrase .signed text (Bytes.space :: op.symbol :: Bytes.space :: text') x m)
    (hy : Phrase .primary text' rest y n) :
    Phrase .sum text rest (.ofBinary op x y) (max m (1 + n)) := by
  obtain ⟨l, k, hk, hsign⟩ := op.exists_sign
  obtain ⟨hl, hl'⟩ : l.rank ≤ Level.signed.rank ∧ l.tighter.rank ≤ Level.primary.rank := by
    cases hsign <;> decide
  exact (operator hk hsign (hx.loosen hl) (hy.loosen hl')).loosen l.rank_pos

end Phrase

section Texts

variable {rest : Bytes}

theorem endsNumeral_rparen (rest : Bytes) : Bytes.EndsNumeral (Bytes.rparen :: rest) :=
  Bytes.endsNumeral_cons rfl rest

theorem endsNumeral_space (rest : Bytes) : Bytes.EndsNumeral (Bytes.space :: rest) :=
  Bytes.endsNumeral_cons rfl rest

/-- A negative word is written in parentheses, so what follows it makes no difference. -/
theorem phrase_negative {v : Int64} (hv : v < 0) (rest : Bytes) :
    Phrase .primary (Expr.intText v ++ rest) rest (Expr.spellNegative v) 3 := by
  unfold Expr.intText Expr.spellNegative
  by_cases hmin : v = Int64.minValue
  · have hone := Phrase.int (v := 1) (by decide) (endsNumeral_rparen rest)
    have hmax := Phrase.int (v := Int64.maxValue) (by decide) (endsNumeral_space
      (Bytes.minus :: Bytes.space :: (Bytes.decimal 1 ++ Bytes.rparen :: rest)))
    have hnegated := (hmax.loosen (by decide)).unary .negate
    rw [if_pos hmin, if_pos hmin]
    simp only [List.append_assoc, List.cons_append, List.nil_append]
    exact (Phrase.binary .sub hnegated hone).group
  · have habs : (-v).toInt.natAbs = v.toInt.natAbs := by
      rw [toInt_neg_of_ne hmin, Int.natAbs_neg]
    have hint := Phrase.int (not_neg_lt_zero hmin hv) (endsNumeral_rparen rest)
    rw [habs] at hint
    have hnegated := (hint.loosen (by decide)).unary .negate
    rw [if_neg hmin, if_neg hmin, if_pos hv]
    simp only [List.append_assoc, List.cons_append, List.nil_append]
    exact (hnegated.loosen (by decide)).group

theorem phrase_word (pos : Position) (literal : Bytes) (v : Int64) (h : Bytes.EndsNumeral rest) :
    Phrase .primary (Expr.intText v ++ rest) rest (Expr.int pos literal v).desugar.bare
      (Expr.int pos literal v).textDepth := by
  rw [Expr.desugar, Expr.textDepth]
  by_cases hv : v < 0
  · have hbare : (Expr.spellNegative v).bare = Expr.spellNegative v := by
      unfold Expr.spellNegative
      split <;> rfl
    rw [if_pos hv, if_pos hv, hbare]
    exact phrase_negative hv rest
  · have hmin : v ≠ Int64.minValue := by
      rintro rfl
      exact hv (by decide)
    have htext : Expr.intText v = Bytes.decimal v.toInt.natAbs := by
      rw [Expr.intText, if_neg hmin, if_neg hv]
    rw [if_neg hv, if_neg hv, htext]
    exact Phrase.int hv h

/-- The text of a tree is a phrase that every operator takes for an operand. -/
theorem phrase_text {e : Expr} (he : e.WellFormed) (h : Bytes.EndsNumeral rest) :
    ∃ text, e.textOnto? rest = some text ∧
      Phrase .primary text rest e.desugar.bare e.textDepth := by
  induction he generalizing rest with
  | int => exact ⟨_, rfl, phrase_word _ _ _ h⟩
  | @unary _ op x _ ih =>
    obtain ⟨text, htext, hphrase⟩ := ih (endsNumeral_rparen rest)
    have hdepth : 2 + x.textDepth = 1 + (1 + x.textDepth) := by omega
    refine ⟨Bytes.lparen :: op.symbol :: text, ?_, ?_⟩
    · rw [Expr.textOnto?, htext]
      rfl
    · rw [Expr.textDepth, hdepth]
      exact (((hphrase.loosen (by decide)).unary op).loosen (by decide)).group
  | @binary _ op x y _ _ ihx ihy =>
    obtain ⟨ytext, hytext, hy⟩ := ihy (endsNumeral_rparen rest)
    obtain ⟨text, htext, hx⟩ :=
      ihx (endsNumeral_space (op.symbol :: Bytes.space :: ytext))
    have hdepth : max (1 + x.textDepth) (2 + y.textDepth) =
        1 + max x.textDepth (1 + y.textDepth) := by omega
    refine ⟨Bytes.lparen :: text, ?_, ?_⟩
    · rw [Expr.textOnto?, hytext]
      change (x.textOnto? (Bytes.space :: op.symbol :: Bytes.space :: ytext) >>= _) = _
      rw [htext]
      rfl
    · rw [Expr.textDepth, hdepth]
      exact (Phrase.binary op (hx.loosen (by decide)) hy).group

/-- A text that is a phrase is read as one tree, under every limit that is not below its depth. -/
theorem parse_phrase {source : Bytes} {e : Expr} {n : Nat} (h : Phrase .sum source [] e n) :
    ∃ t, t.bare = e ∧ ∀ (maxDepth : Int) (t' : Expr),
      parse source { maxDepth } = .ok t' ↔ t' = t ∧ n ≤ maxDepth := by
  obtain ⟨ts, t, _, hgives, hderives, hbare, hrange⟩ := h {}
  refine ⟨t, hbare, fun maxDepth t' => ?_⟩
  rw [parse, mapError_eq_ok, Parse.tokens_eq_ok_iff, Scan.tokens_of_gives hgives]
  constructor
  · rintro ⟨_, n', hderives', hn⟩
    obtain ⟨rfl, rfl⟩ := Parse.derives_unique hrange hderives hderives'
    exact ⟨rfl, hn⟩
  · rintro ⟨rfl, hn⟩
    exact ⟨hrange, n, hderives, hn⟩

end Texts

/-- The text of a tree is read exactly under the limits that its depth allows, and what is read is
the tree with its negative integers spelled out, but for positions and literals. It has the same
value or fails for the same cause, in both arithmetics. -/
theorem text_reads_back {e : Expr} (h : e.WellFormed) :
    ∃ source, e.text? = some source ∧ ∀ maxDepth : Int,
      ((∃ t, parse source { maxDepth } = .ok t) ↔ e.textDepth ≤ maxDepth) ∧
      ∀ t, parse source { maxDepth } = .ok t →
        t.bare = e.desugar.bare ∧ t.eval = e.eval ∧ t.wrapping = e.wrapping := by
  have hend : Bytes.EndsNumeral [] := rfl
  obtain ⟨source, htext, hphrase⟩ := phrase_text h hend
  obtain ⟨t, hbare, hparse⟩ := parse_phrase (hphrase.loosen (by decide))
  refine ⟨source, htext, fun maxDepth => ⟨?_, fun t' ht' => ?_⟩⟩
  · constructor
    · rintro ⟨t', ht'⟩
      exact ((hparse maxDepth t').mp ht').2
    · intro hdepth
      exact ⟨t, (hparse maxDepth t).mpr ⟨rfl, hdepth⟩⟩
  · obtain ⟨rfl, _⟩ := (hparse maxDepth t').mp ht'
    exact ⟨hbare, Expr.evalWith_of_bare_eq Expr.eval_spellNegative hbare,
      Expr.evalWith_of_bare_eq Expr.wrapping_spellNegative hbare⟩

/-- The product of the least word and the opposite of minus seven. -/
theorem product_of_negatives_reads_back :
    ∃ source, (Expr.ofBinary .mul (.ofInt Int64.minValue)
        (.ofUnary .negate (.ofInt (-7)))).text? = some source ∧
      (∀ t, parse source { maxDepth := 6 } ≠ .ok t) ∧
      ∃ t, parse source { maxDepth := 7 } = .ok t ∧
        t.eval = .error (Fault.arithmetic none .overflow) ∧ t.wrapping = .ok Int64.minValue := by
  obtain ⟨source, htext, hreads⟩ := text_reads_back
    (e := .ofBinary .mul (.ofInt Int64.minValue) (.ofUnary .negate (.ofInt (-7))))
    (.binary .int (.unary .int))
  obtain ⟨hsix, _⟩ := hreads 6
  obtain ⟨hseven, hvalue⟩ := hreads 7
  obtain ⟨t, ht⟩ := hseven.mpr (by decide)
  obtain ⟨_, heval, hwrapping⟩ := hvalue t ht
  refine ⟨source, htext, fun t' ht' => ?_, t, ht, heval, hwrapping⟩
  exact absurd (hsix.mp ⟨t', ht'⟩) (by decide)

end Abacus
