import Abacus.Proofs.Parsing
import Abacus.Proofs.Positions

/-!
# Trees in the order of the text

A tree that was read keeps of each token but the parentheses what it needs to give it back: the
place of an operator, the place and the text of an integer. Its nodes in the order of the text are
therefore the tokens again. The places of tokens ascend, so operands lie to the left and to the
right of their operator, and within the bytes of their node.
-/
namespace Abacus

open Grammar

namespace Token

def isParenthesis (t : Token) : Bool :=
  t.kind = .lparen || t.kind = .rparen

def ofSign? (sign : UInt8) (p : Position) : Option Token :=
  (Kind.ofByte? sign).map fun kind => ⟨kind, [sign], p, p.along 1⟩

end Token

namespace Expr

/-- The nodes of a tree in the order of the text: a unary node stands before its operand, and a
binary one between its operands. -/
def inOrder : Expr → List Expr
  | .hole kind => [.hole kind]
  | .int p literal v => [.int p literal v]
  | .unary p op x => .unary p op x :: x.inOrder
  | .binary p op x y => x.inOrder ++ .binary p op x y :: y.inOrder

def operands : Expr → List Expr
  | .hole _ => []
  | .int _ _ _ => []
  | .unary _ _ x => [x]
  | .binary _ _ x y => [x, y]

/-- The token that a node stands for by itself. An integer ends where the node ends. -/
def token? : Expr → Option Token
  | .hole _ => none
  | .int p literal v => (Expr.int p literal v).stop?.map fun q => ⟨.int, literal, p, q⟩
  | .unary p op _ => Token.ofSign? (op.symbol UnaryOp.symbol) p
  | .binary p op _ _ => Token.ofSign? (op.symbol BinaryOp.symbol) p

/-- The node takes the bytes from `p` up to `q`, and there are some. -/
structure Spans (e : Expr) (p q : Position) : Prop where
  start : e.start? = some p
  stop : e.stop? = some q
  lt : p.offset < q.offset

/-- The operands lie within the bytes of the node, and on either side of a binary operator. -/
structure Placed (e : Expr) : Prop where
  within : ∃ p q, e.Spans p q ∧ ∀ x ∈ e.operands,
    ∃ p' q', x.Spans p' q' ∧ p.offset ≤ p'.offset ∧ q'.offset ≤ q.offset
  apart : ∀ p op x y, e = .binary p op x y →
    ∃ q r, x.stop? = some q ∧ y.start? = some r ∧ q.offset ≤ p.offset ∧ p.offset < r.offset

section Places

variable {p a b c d : Position} {x y : Expr}

theorem Spans.unary (hx : x.Spans a b) (ha : p.offset < a.offset) (op : Operator UnaryOp) :
    (Expr.unary p op x).Spans p b :=
  ⟨rfl, hx.stop, Int.lt_trans ha hx.lt⟩

theorem Spans.binary (hx : x.Spans a b) (hy : y.Spans c d) (hb : b.offset ≤ p.offset)
    (hc : p.offset < c.offset) (op : Operator BinaryOp) : (Expr.binary p op x y).Spans a d := by
  have hlt := hx.lt
  have hlt' := hy.lt
  exact ⟨hx.start, hy.stop, by omega⟩

theorem Spans.placed_int {literal : Bytes} {v : Int64} (h : (Expr.int p literal v).Spans a b) :
    (Expr.int p literal v).Placed where
  within := ⟨a, b, h, List.forall_mem_nil _⟩
  apart := by simp

theorem Spans.placed_unary (hx : x.Spans a b) (ha : p.offset < a.offset)
    (op : Operator UnaryOp) : (Expr.unary p op x).Placed where
  within := by
    refine ⟨p, b, hx.unary ha op, List.forall_mem_singleton.mpr ?_⟩
    exact ⟨a, b, hx, Int.le_of_lt ha, Int.le_refl _⟩
  apart := by simp

theorem Spans.placed_binary (hx : x.Spans a b) (hy : y.Spans c d) (hb : b.offset ≤ p.offset)
    (hc : p.offset < c.offset) (op : Operator BinaryOp) : (Expr.binary p op x y).Placed where
  within := by
    have hlt := hx.lt
    have hlt' := hy.lt
    refine ⟨a, d, hx.binary hy hb hc op, List.forall_mem_cons.mpr ⟨?_, ?_⟩⟩
    · exact ⟨a, b, hx, Int.le_refl _, by omega⟩
    · exact List.forall_mem_singleton.mpr ⟨c, d, hy, by omega, Int.le_refl _⟩
  apart := by
    rintro _ _ _ _ ⟨⟩
    exact ⟨b, c, hx.stop, hy.start, hb, hc⟩

end Places
end Expr

namespace Token

theorem mem_signs_of_ofByte? {b : UInt8} {k : Kind} (h : Kind.ofByte? b = some k) : b ∈ signs := by
  apply Decidable.byContradiction
  intro hb
  cases (ofByte?_eq_none_iff.mpr hb).symm.trans h

theorem ofByte?_inj {a b : UInt8} {k : Kind} (ha : Kind.ofByte? a = some k)
    (hb : Kind.ofByte? b = some k) : a = b := by
  have hsigns : ∀ a ∈ signs, ∀ b ∈ signs, Kind.ofByte? a = Kind.ofByte? b → a = b := by
    decide +kernel
  exact hsigns a (mem_signs_of_ofByte? ha) b (mem_signs_of_ofByte? hb) (ha.trans hb.symm)

/-- A token as it is scanned, unless it is illegal or the end of the input: its bytes are its
literal, and all but an integer is one sign. -/
structure Regular (t : Token) : Prop where
  stop : t.stop = t.start.along t.literal.length
  literal : t.literal ≠ []
  sign : t.kind ≠ .int → ∃ b, t.literal = [b] ∧ Kind.ofByte? b = some t.kind

variable {t : Token}

theorem Spells.regular {before text after : Bytes} (h : t.Spells before text after)
    (hlegal : t.Legal) (heof : t.kind ≠ .eof) :
    t.literal = text ∧ text ≠ [] ∧ Bytes.lineFeed ∉ text ∧
      (t.kind ≠ .int → ∃ b, text = [b] ∧ Kind.ofByte? b = some t.kind) := by
  cases hkind : t.kind with
  | eof => exact absurd hkind heof
  | illegal b => exact absurd hkind (hlegal b)
  | int =>
    rw [Spells, hkind] at h
    obtain ⟨hliteral, hne, hdigits, _⟩ := h
    refine ⟨hliteral, hne, fun hfeed => ?_, fun hint => absurd rfl hint⟩
    exact absurd (hdigits _ hfeed) (by decide)
  | _ =>
    rw [Spells, hkind] at h
    obtain ⟨hliteral, b, rfl, hmark⟩ := h
    have hb := ofByte?_eq_some_iff.mpr hmark
    have hblank := Cursor.isBlank_of_ofByte? hb
    have hfeed : Bytes.lineFeed ∉ [b] := by simpa using (Cursor.ne_lineFeed hblank).symm
    exact ⟨hliteral, List.cons_ne_nil _ _, hfeed, fun _ => ⟨b, rfl, hb⟩⟩

theorem Covers.regular {before text after : Bytes} (h : t.Covers before text after)
    (hlegal : t.Legal) (heof : t.kind ≠ .eof) : t.Regular := by
  obtain ⟨rfl, hne, hfeed, hsign⟩ := h.spells.regular hlegal heof
  exact ⟨h.stop.unique (h.start.along _ hfeed), hne, hsign⟩

namespace Regular

theorem lt (h : t.Regular) : t.start.offset < t.stop.offset := by
  have hpos := List.length_pos_iff.mpr h.literal
  simp only [h.stop, Position.along]
  omega

theorem ofSign?_eq {sign : UInt8} (h : t.Regular) (hsign : Kind.ofByte? sign = some t.kind) :
    ofSign? sign t.start = some t := by
  obtain ⟨b, hliteral, hb⟩ := h.sign (Cursor.ofByte?_ne hsign).2.1
  have hstop := h.stop
  obtain rfl := ofByte?_inj hsign hb
  rw [ofSign?, hsign]
  cases t
  simp_all

theorem token?_int (h : t.Regular) (ht : t.kind = .int) (v : Int64) :
    (Expr.int t.start t.literal v).token? = some t := by
  rw [Expr.token?, Expr.stop?, ← h.stop, ← ht]
  rfl

end Regular
end Token

theorem Grammar.UnarySign.ofByte?_symbol {k : Token.Kind} {op : UnaryOp} (h : UnarySign k op) :
    Token.Kind.ofByte? op.symbol = some k := by
  cases h <;> rfl

theorem Grammar.BinarySign.ofByte?_symbol {l : Level} {k : Token.Kind} {op : BinaryOp}
    (h : BinarySign l k op) : Token.Kind.ofByte? op.symbol = some k := by
  cases h <;> rfl

theorem Grammar.UnarySign.isParenthesis {t : Token} {op : UnaryOp} (h : UnarySign t.kind op) :
    t.isParenthesis = false := by
  unfold Token.isParenthesis
  generalize t.kind = k at h
  cases h <;> rfl

theorem Grammar.BinarySign.isParenthesis {l : Level} {t : Token} {op : BinaryOp}
    (h : BinarySign l t.kind op) : t.isParenthesis = false := by
  unfold Token.isParenthesis
  generalize t.kind = k at h
  cases h <;> rfl

/-- The tokens of a text are the first answers of a cursor, and the next answer is the end of the
input. -/
theorem Cursor.collect_eq (c : Cursor) (acc : List Token) :
    ∃ n, (collect c acc).1 = acc.reverse ++ Scan.firstTokens.go c n ∧
      (∀ t ∈ Scan.firstTokens.go c n, t.kind ≠ .eof) ∧ (collect c acc).2.kind = .eof ∧
      Scan.firstTokens.go c (n + 1) = Scan.firstTokens.go c n ++ [(collect c acc).2] := by
  fun_induction collect c acc with
  | case1 c acc t ht =>
    exact ⟨0, by simp [Scan.firstTokens.go], by simp [Scan.firstTokens.go], ht, rfl⟩
  | case2 c acc t ht ih =>
    obtain ⟨n, hn, hkind, hlast, hnext⟩ := ih
    refine ⟨n + 1, ?_, List.forall_mem_cons.mpr ⟨ht, hkind⟩, hlast, ?_⟩
    · rw [hn, List.reverse_cons, List.append_assoc]
      rfl
    · rw [Scan.firstTokens.go, hnext]
      rfl

theorem Scan.exists_firstTokens (source : Bytes) :
    ∃ n, (ofBytes source).tokens = firstTokens source n ∧
      ∀ t ∈ firstTokens source n, t.kind ≠ .eof := by
  obtain ⟨n, hn, hkind, _⟩ := Cursor.collect_eq ⟨source, {}⟩ []
  exact ⟨n, hn, hkind⟩

theorem Laid.regular {source before : Bytes} {ts : List Token} (h : Laid source before ts)
    (hlegal : ∀ t ∈ ts, t.Legal) (heof : ∀ t ∈ ts, t.kind ≠ .eof) : ∀ t ∈ ts, t.Regular := by
  intro t ht
  obtain ⟨us, vs, rfl⟩ := List.append_of_mem ht
  obtain ⟨_, _, _, _, _, _, _, hcovers, _⟩ := h.exists_covers
  exact hcovers.regular (hlegal t ht) (heof t ht)

namespace Grammar.Derives

variable {l : Level} {ts : List Token} {e : Expr} {n : Nat}

theorem map_token?_inOrder (h : Derives l ts e n) (hts : ∀ t ∈ ts, t.Regular) :
    e.inOrder.map Expr.token? = (ts.filter fun t => !t.isParenthesis).map some := by
  induction h with
  | @int t ht =>
    have hregular : t.Regular := hts t (List.mem_singleton_self t)
    have hparen : t.isParenthesis = false := by simp [Token.isParenthesis, ht]
    simp [Expr.inOrder, hregular.token?_int ht, hparen]
  | @group t t' ts e n ht ht' _ ih =>
    have hparen : t.isParenthesis = true := by simp [Token.isParenthesis, ht]
    have hparen' : t'.isParenthesis = true := by simp [Token.isParenthesis, ht']
    have hinner := ih fun u hu => hts u (by simp [hu])
    simpa [hparen, hparen'] using hinner
  | @unary t op ts e n ht _ ih =>
    obtain ⟨hregular, hts⟩ := List.forall_mem_cons.mp hts
    have hnode : (Expr.unary t.start (.known op) e).token? = some t :=
      hregular.ofSign?_eq ht.ofByte?_symbol
    simp [Expr.inOrder, hnode, ht.isParenthesis, ih hts]
  | @binary l t op xs ys x y m n ht _ _ ihx ihy =>
    obtain ⟨hxs, hts⟩ := List.forall_mem_append.mp hts
    obtain ⟨hregular, hys⟩ := List.forall_mem_cons.mp hts
    have hnode : (Expr.binary t.start (.known op) x y).token? = some t :=
      hregular.ofSign?_eq ht.ofByte?_symbol
    simp [Expr.inOrder, hnode, ht.isParenthesis, ihx hxs, ihy hys]
  | lift _ ih => exact ih hts

/-- A phrase takes the bytes from the start of one of its tokens up to the end of another, and all
its nodes are placed as their operands are. -/
theorem placed (h : Derives l ts e n) (hts : ∀ t ∈ ts, t.Regular)
    (horder : ts.Pairwise fun t u => t.stop.offset ≤ u.start.offset) :
    (∃ t ∈ ts, ∃ u ∈ ts, e.Spans t.start u.stop) ∧ ∀ s ∈ e.inOrder, s.Placed := by
  induction h with
  | @int t ht =>
    have hmem : t ∈ [t] := List.mem_singleton_self t
    have hregular : t.Regular := hts t hmem
    have hspans : (Expr.int t.start t.literal (Int64.ofNat (Bytes.placeValue t.literal))).Spans
        t.start t.stop :=
      ⟨rfl, congrArg some hregular.stop.symm, hregular.lt⟩
    exact ⟨⟨t, hmem, t, hmem, hspans⟩, List.forall_mem_singleton.mpr hspans.placed_int⟩
  | @group t t' ts e n _ _ _ ih =>
    obtain ⟨horder, _⟩ := List.pairwise_append.mp horder
    obtain ⟨⟨u, hu, v, hv, hspans⟩, hnodes⟩ :=
      ih (fun u hu => hts u (by simp [hu])) horder.of_cons
    exact ⟨⟨u, by simp [hu], v, by simp [hv], hspans⟩, hnodes⟩
  | @unary t op ts e n _ _ ih =>
    obtain ⟨hregular, hts⟩ := List.forall_mem_cons.mp hts
    obtain ⟨hright, horder⟩ := List.pairwise_cons.mp horder
    obtain ⟨⟨u, hu, v, hv, hspans⟩, hnodes⟩ := ih hts horder
    have hu : t.start.offset < u.start.offset := Int.lt_of_lt_of_le hregular.lt (hright u hu)
    refine ⟨⟨t, List.mem_cons_self, v, List.mem_cons_of_mem t hv, hspans.unary hu _⟩, ?_⟩
    exact List.forall_mem_cons.mpr ⟨hspans.placed_unary hu _, hnodes⟩
  | @binary l t op xs ys x y m n _ _ _ ihx ihy =>
    obtain ⟨hxs, hts⟩ := List.forall_mem_append.mp hts
    obtain ⟨hregular, hys⟩ := List.forall_mem_cons.mp hts
    obtain ⟨hxorder, horder, hleft⟩ := List.pairwise_append.mp horder
    obtain ⟨hright, hyorder⟩ := List.pairwise_cons.mp horder
    obtain ⟨⟨u, hu, v, hv, hx⟩, hxnodes⟩ := ihx hxs hxorder
    obtain ⟨⟨u', hu', v', hv', hy⟩, hynodes⟩ := ihy hys hyorder
    have hv : v.stop.offset ≤ t.start.offset := hleft v hv t List.mem_cons_self
    have hu' : t.start.offset < u'.start.offset :=
      Int.lt_of_lt_of_le hregular.lt (hright u' hu')
    refine ⟨⟨u, by simp [hu], v', by simp [hv'], hx.binary hy hv hu' _⟩, ?_⟩
    refine List.forall_mem_append.mpr ⟨hxnodes, List.forall_mem_cons.mpr ⟨?_, hynodes⟩⟩
    exact hx.placed_binary hy hv hu' _
  | lift _ ih => exact ih hts horder

end Grammar.Derives

/-- A tree that is read gives back the tokens of the text without the parentheses, in order and
with their positions. Each operand lies within the bytes of its node, and a binary operator stands
between its operands. -/
theorem parsed_tree_reads_as_source {source : Bytes} {limits : Limits} {e : Expr}
    (h : parse source limits = .ok e) :
    e.inOrder.map Expr.token? =
      ((Scan.ofBytes source).tokens.filter fun t => !t.isParenthesis).map some ∧
    ∀ s ∈ e.inOrder, s.Placed := by
  obtain ⟨maxDepth, interruption⟩ := limits
  rw [parse, mapError_eq_ok] at h
  obtain rfl : interruption = none := Parse.interruption_eq_none h
  obtain ⟨_, n, hderives, _⟩ := Parse.tokens_eq_ok_iff.mp h
  obtain ⟨k, htokens, heof⟩ := Scan.exists_firstTokens source
  have hlaid := Scan.laid_firstTokens source k
  rw [← htokens] at heof hlaid
  have hregular := hlaid.regular hderives.legal heof
  exact ⟨hderives.map_token?_inOrder hregular, (hderives.placed hregular hlaid.pairwise).2⟩

/-- A product on two lines, of `(1+` and `23)*-4`. -/
theorem product_over_two_lines_reads_as_source :
    let source : Bytes := [40, 49, 43, 10, 50, 51, 41, 42, 45, 52]
    let sum : Expr := .binary ⟨2, 0, 0, 2⟩ (.known .add) (.int ⟨1, 0, 0, 1⟩ [49] 1)
      (.int ⟨4, 4, 1, 0⟩ [50, 51] 23)
    let e : Expr := .binary ⟨7, 4, 1, 3⟩ (.known .mul) sum
      (.unary ⟨8, 4, 1, 4⟩ (.known .negate) (.int ⟨9, 4, 1, 5⟩ [52] 4))
    parse source = .ok e ∧
    e.inOrder.map Expr.token? =
      ((Scan.ofBytes source).tokens.filter fun t => !t.isParenthesis).map some ∧
    e.inOrder.length = 6 ∧ ∀ s ∈ e.inOrder, s.Placed := by
  intro source sum e
  have hparse : parse source = .ok e := by with_unfolding_all rfl
  obtain ⟨htokens, hplaced⟩ := parsed_tree_reads_as_source hparse
  exact ⟨hparse, htokens, rfl, hplaced⟩

end Abacus
