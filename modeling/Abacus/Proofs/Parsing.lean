import Abacus.Proofs.Execution
import Abacus.Proofs.Grammar
import Abacus.Source.Parse

/-!
# What the reader accepts

The reader follows the grammar in both directions. On the tokens of a phrase it ends, whatever
the frames around the phrase, in a state from which the tree of the phrase results, provided that
the depth allows it. Conversely the tokens read so far are always made of the frames and of the
operand read last, each with its derivation, and finishing frames keeps this true.
-/
namespace Abacus
namespace Parse

open Grammar

variable {limits : Limits}

/-- What one token makes of a state, where no illegal byte lies ahead. -/
def advance (limits : Limits) : State → Token → Except ParseError.Reason State
  | .operand frames, t => do
    allow limits frames t
    beginOperand frames t
  | .operator frames last, t => endOperand frames last t

theorem complain_eq_ok {α : Type} {t : Token} {r : Except ParseError.Reason α} {a : α} :
    complain t r = .ok a ↔ r = .ok a :=
  mapError_eq_ok

theorem lookahead_and_tail {ts : List Token} :
    (lookahead ts = .ok () ∧ ∀ t ∈ ts.tail, t.Legal) ↔ ∀ t ∈ ts, t.Legal := by
  cases ts with
  | nil => simp [lookahead]
  | cons t ts =>
    have ht : lookahead (t :: ts) = .ok () ↔ t.Legal := by
      rw [lookahead, Token.Legal]
      cases t.kind <;> simp
    rw [ht, List.tail_cons, List.forall_mem_cons]

theorem run_cons {s s' : State} {t : Token} {ts : List Token} :
    run limits s (t :: ts) = .ok s' ↔
      lookahead ts = .ok () ∧ ∃ u, advance limits s t = .ok u ∧ run limits u ts = .ok s' := by
  cases s <;> simp only [run, advance, bind_eq_ok, complain_eq_ok] <;> grind

/-- A run is a walk over the tokens during which no illegal one comes up. -/
theorem run_eq_ok {s s' : State} {ts : List Token} :
    run limits s ts = .ok s' ↔
      (∀ t ∈ ts.tail, t.Legal) ∧ ts.foldlM (advance limits) s = .ok s' := by
  induction ts generalizing s with
  | nil => cases s <;> simp [run, pure, Except.pure]
  | cons t ts ih =>
    rw [run_cons, List.foldlM_cons, bind_eq_ok, List.tail_cons, ← lookahead_and_tail]
    simp only [ih]
    grind

theorem tokens_eq_ok {scan : Scan} {e : Expr} :
    tokens limits scan = .ok e ↔ (∀ t ∈ scan.tokens, t.Legal) ∧
      ∃ s, scan.tokens.foldlM (advance limits) (.operand []) = .ok s ∧
        finish limits scan.last s = .ok e := by
  rw [tokens, then_eq_ok, bind_eq_ok, ← lookahead_and_tail]
  simp only [run_eq_ok]
  grind

theorem lookahead_of_legal {ts : List Token} (h : ∀ t ∈ ts, t.Legal) : lookahead ts = .ok () :=
  (lookahead_and_tail.mpr h).1

theorem reason_run {s : State} {ts : List Token} (hlegal : ∀ t ∈ ts, t.Legal) :
    (run limits s ts).mapError Complaint.reason = ts.foldlM (advance limits) s := by
  induction ts generalizing s with
  | nil => cases s <;> rfl
  | cons t ts ih =>
    obtain ⟨_, hlegal⟩ := List.forall_mem_cons.mp hlegal
    rw [List.foldlM_cons]
    -- Looking ahead never fails, so it makes no difference on which side of the step it stands.
    cases s with
    | operand frames =>
      rw [run, lookahead_of_legal hlegal, ok_bind, advance]
      cases allow limits frames t with
      | error r => rfl
      | ok _ =>
        cases beginOperand frames t with
        | error r => rfl
        | ok u => exact ih hlegal
    | operator frames last =>
      rw [run, lookahead_of_legal hlegal, advance]
      cases endOperand frames last t with
      | error r => rfl
      | ok u => exact ih hlegal

theorem tokens_of_walk_error {scan : Scan} {r : ParseError.Reason}
    (hlegal : ∀ t ∈ scan.tokens, t.Legal)
    (h : scan.tokens.foldlM (advance limits) (.operand []) = .error r) :
    ∃ c, tokens limits scan = .error c ∧ c.reason = r := by
  have hreason : (run limits (.operand []) scan.tokens).mapError Complaint.reason = .error r :=
    (reason_run hlegal).trans h
  rw [tokens, lookahead_of_legal hlegal, ok_bind]
  cases hrun : run limits (.operand []) scan.tokens with
  | ok s =>
    rw [hrun] at hreason
    cases hreason
  | error c =>
    rw [hrun] at hreason
    exact ⟨c, rfl, Except.error.inj hreason⟩

theorem Complaint.reason_toError (source : Bytes) (c : Complaint) :
    (c.toError source).reason = c.reason := by
  unfold toError
  split
  · rename_i hreason
    exact hreason.symm
  · rfl

section Steps

variable {frames : List Frame} {t : Token} {s : State}

theorem unaryOp?_eq_some {k : Token.Kind} {op : UnaryOp} :
    unaryOp? k = some op ↔ UnarySign k op := by
  constructor
  · intro h
    cases k <;> cases h
    · exact .plus
    · exact .minus
  · intro h
    cases h <;> rfl

theorem binaryOp?_eq_some {k : Token.Kind} {op : BinaryOp} :
    binaryOp? k = some op ↔ ∃ l, BinarySign l k op := by
  constructor
  · intro h
    cases k <;> cases h
    · exact ⟨_, .plus⟩
    · exact ⟨_, .minus⟩
    · exact ⟨_, .star⟩
    · exact ⟨_, .slash⟩
  · rintro ⟨l, h⟩
    cases h <;> rfl

theorem beginOperand_eq_ok :
    beginOperand frames t = .ok s ↔
      (t.kind = .int ∧ t.InRange ∧ s = .operator frames
        (.int t.start t.literal (Int64.ofNat (Bytes.placeValue t.literal)))) ∨
      (t.kind = .lparen ∧ s = .operand (.group :: frames)) ∨
      ∃ op, unaryOp? t.kind = some op ∧ s = .operand (.unary op t.start :: frames) := by
  have hmax : Int64.maxValue.toInt = 9223372036854775807 := rfl
  unfold beginOperand Token.InRange
  cases t.kind with
  | int =>
    simp only [unaryOp?, Bytes.readDecimal_eq_placeValue, hmax]
    grind
  | _ => simp [unaryOp?, eq_comm]

theorem endOperand_eq_ok {last : Expr} :
    endOperand frames last t = .ok s ↔
      (∃ op, binaryOp? t.kind = some op ∧
        s = .operand (.binary (close op.precedence frames last).2 op t.start ::
          (close op.precedence frames last).1)) ∨
      (t.kind = .rparen ∧ ∃ frames' e, close 0 frames last = (.group :: frames', e) ∧
        s = .operator frames' e) := by
  unfold endOperand
  cases h : binaryOp? t.kind with
  | some op =>
    have ht : t.kind ≠ .rparen := by
      intro ht
      rw [ht] at h
      cases h
    simp [ht, eq_comm]
  | none =>
    rcases close 0 frames last with ⟨_ | ⟨f, frames'⟩, e⟩
    · simp
    · cases f with
      | group => grind
      | _ => simp

theorem allow_eq_ok {maxDepth : Int} :
    allow ⟨maxDepth, none⟩ frames t = .ok () ↔
      ¬(frames = [] ∧ t.kind = .eof) ∧ frames.length + 1 ≤ maxDepth := by
  unfold allow
  split
  · simp [*]
  · simp only
    split <;> simp [*] <;> omega

end Steps

/-- An operator of precedence `p` finishes none of the frames, and a phrase of rank `p` can be the
operand of the innermost. -/
def Open (p : Nat) : List Frame → Prop
  | .unary _ _ :: _ => 2 < p
  | .binary _ op _ :: _ => op.precedence < p
  | _ => True

section Frames

variable {p q : Nat} {frames : List Frame}

theorem precedence_le_two (op : BinaryOp) : op.precedence ≤ 2 := by
  cases op <;> decide

theorem Open.mono (h : Open p frames) (hpq : p ≤ q) : Open q frames := by
  match frames, h with
  | [], _ => trivial
  | .group :: _, _ => trivial
  | .unary _ _ :: _, h => exact Nat.lt_of_lt_of_le h hpq
  | .binary _ _ _ :: _, h => exact Nat.lt_of_lt_of_le h hpq

theorem open_of_three_le (h : 3 ≤ p) : Open p frames := by
  match frames with
  | [] => trivial
  | .group :: _ => trivial
  | .unary _ _ :: _ => exact h
  | .binary _ op _ :: _ =>
    exact Nat.lt_of_le_of_lt (precedence_le_two op) h

theorem close_eq_self (h : Open p frames) (hp : p ≤ 2) (e : Expr) :
    close p frames e = (frames, e) := by
  match frames, h with
  | [], _ => rfl
  | .group :: _, _ => rfl
  | .unary _ _ :: _, h => exact absurd h (Nat.not_lt.mpr hp)
  | .binary _ _ _ :: _, h => rw [close, if_neg (Nat.not_le.mpr h)]

end Frames

/-- Reading the tokens takes the depth `n` beyond the frames. If the limit allows it, the walk
ends after an operand. -/
structure Reads (maxDepth : Int) (frames : List Frame) (ts : List Token) (n : Nat)
    (P : List Frame → Expr → Prop) : Prop where
  within : frames.length + n ≤ maxDepth → ∃ fs last,
    ts.foldlM (advance ⟨maxDepth, none⟩) (.operand frames) = .ok (.operator fs last) ∧ P fs last
  beyond : maxDepth < frames.length + n →
    ts.foldlM (advance ⟨maxDepth, none⟩) (.operand frames) = .error .tooDeep

section Completeness

variable {maxDepth : Int} {frames : List Frame} {P Q : List Frame → Expr → Prop} {m n : Nat}

theorem kind_ne_eof {t : Token} {s : State} (hs : beginOperand frames t = .ok s) :
    t.kind ≠ .eof := by
  intro ht
  rw [beginOperand, ht] at hs
  cases hs

theorem advance_of_le {t : Token} {s : State} (hs : beginOperand frames t = .ok s)
    (hn : frames.length + 1 ≤ maxDepth) :
    advance ⟨maxDepth, none⟩ (.operand frames) t = .ok s := by
  have hallow : allow ⟨maxDepth, none⟩ frames t = .ok () :=
    allow_eq_ok.mpr ⟨fun h => kind_ne_eof hs h.2, hn⟩
  rw [advance, hallow, ok_bind, hs]

theorem advance_of_lt {t : Token} {s : State} (hs : beginOperand frames t = .ok s)
    (hn : maxDepth < frames.length + 1) :
    advance ⟨maxDepth, none⟩ (.operand frames) t = .error .tooDeep := by
  have hallow : allow ⟨maxDepth, none⟩ frames t = .error .tooDeep := by
    rw [allow, if_neg (fun h => kind_ne_eof hs h.2)]
    exact if_pos hn
  rw [advance, hallow, error_bind]

theorem Reads.mono {ts : List Token} (h : Reads maxDepth frames ts n P)
    (hpq : ∀ fs last, P fs last → Q fs last) : Reads maxDepth frames ts n Q := by
  refine ⟨?_, h.beyond⟩
  intro hn
  obtain ⟨fs, last, hwalk, hp⟩ := h.within hn
  exact ⟨fs, last, hwalk, hpq fs last hp⟩

theorem Reads.single {t : Token} {e : Expr}
    (hs : beginOperand frames t = .ok (.operator frames e)) (hp : P frames e) :
    Reads maxDepth frames [t] 1 P := by
  constructor
  · intro hn
    refine ⟨frames, e, ?_, hp⟩
    rw [List.foldlM_cons, advance_of_le hs hn]
    rfl
  · intro hn
    rw [List.foldlM_cons, advance_of_lt hs hn]
    rfl

theorem Reads.cons {f : Frame} {t : Token} {ts : List Token}
    (hs : beginOperand frames t = .ok (.operand (f :: frames)))
    (h : Reads maxDepth (f :: frames) ts n P) : Reads maxDepth frames (t :: ts) (1 + n) P := by
  obtain ⟨hwithin, hbeyond⟩ := h
  rw [List.length_cons] at hwithin hbeyond
  constructor
  · intro hn
    rw [List.foldlM_cons, advance_of_le hs (by omega), ok_bind]
    exact hwithin (by omega)
  · intro hn
    rw [List.foldlM_cons]
    by_cases hd : frames.length + 1 ≤ maxDepth
    · rw [advance_of_le hs hd, ok_bind]
      exact hbeyond (by omega)
    · rw [advance_of_lt hs (by omega), error_bind]

theorem Reads.concat {t : Token} {ts : List Token} (h : Reads maxDepth frames ts n P)
    (hstep : ∀ fs last, P fs last → ∃ fs' last',
      endOperand fs last t = .ok (.operator fs' last') ∧ Q fs' last') :
    Reads maxDepth frames (ts ++ [t]) n Q := by
  obtain ⟨hwithin, hbeyond⟩ := h
  constructor
  · intro hn
    obtain ⟨fs, last, hwalk, hp⟩ := hwithin hn
    obtain ⟨fs', last', hend, hq⟩ := hstep fs last hp
    refine ⟨fs', last', ?_, hq⟩
    rw [List.foldlM_append, hwalk, ok_bind, List.foldlM_cons, advance, hend]
    rfl
  · intro hn
    rw [List.foldlM_append, hbeyond hn, error_bind]

theorem Reads.append {f : Frame} {t : Token} {xs ys : List Token}
    (hx : Reads maxDepth frames xs m P)
    (hstep : ∀ fs last, P fs last → endOperand fs last t = .ok (.operand (f :: frames)))
    (hy : Reads maxDepth (f :: frames) ys n Q) :
    Reads maxDepth frames (xs ++ t :: ys) (max m (1 + n)) Q := by
  obtain ⟨hwithin, hbeyond⟩ := hy
  rw [List.length_cons] at hwithin hbeyond
  have hwalk (hm : frames.length + m ≤ maxDepth) :
      (xs ++ t :: ys).foldlM (advance ⟨maxDepth, none⟩) (.operand frames) =
        ys.foldlM (advance ⟨maxDepth, none⟩) (.operand (f :: frames)) := by
    obtain ⟨fs, last, hxs, hp⟩ := hx.within hm
    rw [List.foldlM_append, hxs, ok_bind, List.foldlM_cons, advance, hstep fs last hp, ok_bind]
  constructor
  · intro hn
    rw [hwalk (by omega)]
    exact hwithin (by omega)
  · intro hn
    by_cases hm : frames.length + m ≤ maxDepth
    · rw [hwalk hm]
      exact hbeyond (by omega)
    · rw [List.foldlM_append, hx.beyond (by omega), error_bind]

/-- The reader takes the tokens of a phrase for its tree: what follows finishes the frames left
over to the tree. -/
theorem reads_of_derives {l : Level} {ts : List Token} {e : Expr} (h : Derives l ts e n)
    (hrange : ∀ t ∈ ts, t.InRange) (hopen : Open l.rank frames) :
    Reads maxDepth frames ts n fun fs last => ∀ p ≤ l.rank, close p fs last = close p frames e := by
  induction h generalizing frames with
  | @int t ht =>
    refine .single (beginOperand_eq_ok.mpr (.inl ⟨ht, ?_, rfl⟩)) fun _ _ => rfl
    exact hrange t (List.mem_singleton_self t)
  | @group t t' ts e n ht ht' _ ih =>
    have hs : beginOperand frames t = .ok (.operand (.group :: frames)) :=
      beginOperand_eq_ok.mpr (.inr (.inl ⟨ht, rfl⟩))
    refine (Reads.cons hs (ih (fun u hu => hrange u (by simp [hu])) trivial)).concat ?_
    intro fs last hclose
    refine ⟨frames, e, ?_, fun _ _ => rfl⟩
    exact endOperand_eq_ok.mpr (.inr ⟨ht', frames, e, hclose 0 (by decide), rfl⟩)
  | @unary t op ts e n ht _ ih =>
    have hs : beginOperand frames t = .ok (.operand (.unary op t.start :: frames)) :=
      beginOperand_eq_ok.mpr (.inr (.inr ⟨op, unaryOp?_eq_some.mpr ht, rfl⟩))
    exact .cons hs (ih (fun u hu => hrange u (by simp [hu])) (open_of_three_le (by decide)))
  | @binary l t op xs ys x y m n ht _ _ ihx ihy =>
    have hop : op.precedence = l.rank := ht.precedence_eq
    have htwo : l.rank ≤ 2 := hop ▸ precedence_le_two op
    have htighter : l.tighter.rank = l.rank + 1 := Level.rank_tighter (by omega)
    have hx := ihx (fun u hu => hrange u (by simp [hu])) hopen
    have hy := ihy (fun u hu => hrange u (by simp [hu]))
      (show Open l.tighter.rank (.binary x op t.start :: frames) by
        change op.precedence < l.tighter.rank
        omega)
    refine (hx.append ?_ hy).mono ?_
    · intro fs last hclose
      have hself : close op.precedence fs last = (frames, x) := by
        rw [hclose _ (Nat.le_of_eq hop), close_eq_self (hop ▸ hopen) (precedence_le_two op)]
      refine endOperand_eq_ok.mpr (.inl ⟨op, binaryOp?_eq_some.mpr ⟨l, ht⟩, ?_⟩)
      rw [hself]
    · intro fs last hclose p hp
      rw [hclose p (by omega), close, if_pos (by omega)]
  | lift _ ih =>
    refine (ih hrange (hopen.mono (Level.rank_le_tighter _))).mono ?_
    intro fs last hclose p hp
    exact hclose p (Nat.le_trans hp (Level.rank_le_tighter _))

end Completeness

/-- The tokens that have led to the frames. The left operands that wait in them are phrases
within the depth, and none of them could have been finished earlier. -/
inductive Context (maxDepth : Int) : List Frame → List Token → Prop
  | nil : Context maxDepth [] []
  | group {frames ts t} : Context maxDepth frames ts → t.kind = .lparen →
      Context maxDepth (.group :: frames) (ts ++ [t])
  | unary {frames ts t op} : Context maxDepth frames ts → UnarySign t.kind op →
      Context maxDepth (.unary op t.start :: frames) (ts ++ [t])
  | binary {frames ts t op l xs x m} : Context maxDepth frames ts → Derives l xs x m →
      frames.length + m ≤ maxDepth → BinarySign l t.kind op → Open op.precedence frames →
      Context maxDepth (.binary x op t.start :: frames) (ts ++ (xs ++ [t]))

/-- The tokens have led to the frames and, in them, to an operand of the level. -/
inductive Ended (maxDepth : Int) (l : Level) (frames : List Frame) (e : Expr) :
    List Token → Prop
  | intro {us vs n} : Context maxDepth frames us → Derives l vs e n →
      frames.length + n ≤ maxDepth → Ended maxDepth l frames e (us ++ vs)

def Reached (maxDepth : Int) (ts : List Token) : State → Prop
  | .operand frames => Context maxDepth frames ts
  | .operator frames last => Ended maxDepth .primary frames last ts

section Soundness

variable {maxDepth : Int} {ts : List Token}

namespace Ended

variable {l : Level} {frames : List Frame} {e : Expr} {pos : Position}

theorem group {t : Token} (h : Ended maxDepth l (.group :: frames) e ts)
    (ht : t.kind = .rparen) : Ended maxDepth .primary frames e (ts ++ [t]) := by
  obtain ⟨hc, he, hn⟩ := h
  cases hc with
  | group hc ht' =>
    rw [List.length_cons] at hn
    rw [List.append_assoc, List.append_assoc]
    exact .intro hc (.group ht' ht (he.loosen l.rank_pos)) (by omega)

theorem unary {op : UnaryOp} (h : Ended maxDepth l (.unary op pos :: frames) e ts)
    (hl : 3 ≤ l.rank) : Ended maxDepth .signed frames (.unary pos (.known op) e) ts := by
  obtain ⟨hc, he, hn⟩ := h
  cases hc with
  | unary hc ht =>
    rw [List.length_cons] at hn
    rw [List.append_assoc]
    exact .intro hc (.unary ht (he.loosen hl)) (by omega)

theorem binary {op : BinaryOp} {x : Expr} (h : Ended maxDepth l (.binary x op pos :: frames) e ts)
    (hl : op.precedence < l.rank) : ∃ l', op.precedence = l'.rank ∧ Open l'.rank frames ∧
      Ended maxDepth l' frames (.binary pos (.known op) x e) ts := by
  obtain ⟨hc, he, hn⟩ := h
  cases hc with
  | @binary _ us t _ l' xs _ m hc hx hm ht hopen =>
    have hrank : op.precedence = l'.rank := ht.precedence_eq
    have htwo := precedence_le_two op
    have htighter : l'.tighter.rank = l'.rank + 1 := Level.rank_tighter (by omega)
    rw [List.length_cons] at hn
    rw [List.append_assoc, List.append_assoc]
    exact ⟨l', hrank, hrank ▸ hopen,
      .intro hc (.binary ht hx (he.loosen (by omega))) (by omega)⟩

/-- Finishing frames makes phrases of looser levels, but none that is looser than the operator
that finishes them. -/
theorem close {p : Nat} (h : Ended maxDepth l frames e ts) (hopen : Open l.rank frames)
    (hp : p ≤ 2) (hl : p ≤ l.rank) : ∃ l', p ≤ l'.rank ∧
      Ended maxDepth l' (Parse.close p frames e).1 (Parse.close p frames e).2 ts ∧
      Open p (Parse.close p frames e).1 := by
  induction frames generalizing l e with
  | nil => exact ⟨l, hl, h, trivial⟩
  | cons f frames ih =>
    cases f with
    | group => exact ⟨l, hl, h, trivial⟩
    | unary op pos =>
      exact ih (h.unary hopen) (open_of_three_le (Nat.le_refl 3)) (Nat.le_succ_of_le hp)
    | binary x op pos =>
      by_cases hop : p ≤ op.precedence
      · obtain ⟨l', hrank, hopen', h'⟩ := h.binary hopen
        rw [Parse.close, if_pos hop]
        exact ih h' hopen' (hrank ▸ hop)
      · rw [Parse.close, if_neg hop]
        exact ⟨l, hl, h, Nat.lt_of_not_le hop⟩

theorem close_zero {f : List Frame} {e' : Expr} (h : Ended maxDepth .primary frames e ts)
    (hclose : Parse.close 0 frames e = (f, e')) : ∃ l', Ended maxDepth l' f e' ts := by
  obtain ⟨l', _, h', _⟩ :=
    h.close (open_of_three_le (by decide)) (Nat.zero_le 2) (Nat.zero_le _)
  rw [hclose] at h'
  exact ⟨l', h'⟩

end Ended

theorem Reached.advance {s s' : State} {t : Token} (h : Reached maxDepth ts s)
    (hs : advance ⟨maxDepth, none⟩ s t = .ok s') : Reached maxDepth (ts ++ [t]) s' := by
  cases s with
  | operand frames =>
    obtain ⟨hallow, hs⟩ := then_eq_ok.mp hs
    obtain ⟨_, hn⟩ := allow_eq_ok.mp hallow
    rcases beginOperand_eq_ok.mp hs with ⟨ht, _, rfl⟩ | ⟨ht, rfl⟩ | ⟨op, ht, rfl⟩
    · exact .intro h (.int ht) hn
    · exact .group h ht
    · exact .unary h (unaryOp?_eq_some.mp ht)
  | operator frames last =>
    rcases endOperand_eq_ok.mp hs with ⟨op, ht, rfl⟩ | ⟨ht, frames', e, hclose, rfl⟩
    · obtain ⟨l, ht⟩ := binaryOp?_eq_some.mp ht
      have htwo := precedence_le_two op
      obtain ⟨l', hl', hended, hopen⟩ := Ended.close h (open_of_three_le (by decide)) htwo
        (Nat.le_trans htwo (by decide))
      obtain ⟨hc, he, hn⟩ := hended
      rw [List.append_assoc]
      exact .binary hc (he.loosen (ht.precedence_eq ▸ hl')) hn ht hopen
    · obtain ⟨_, h'⟩ := Ended.close_zero h hclose
      exact h'.group ht

theorem Reached.walk {s s' : State} {us : List Token} (h : Reached maxDepth ts s)
    (hs : us.foldlM (Parse.advance ⟨maxDepth, none⟩) s = .ok s') :
    Reached maxDepth (ts ++ us) s' := by
  induction us generalizing s ts with
  | nil =>
    cases hs
    rwa [List.append_nil]
  | cons t us ih =>
    rw [List.foldlM_cons] at hs
    obtain ⟨u, hu, hs⟩ := bind_eq_ok.mp hs
    rw [List.append_cons]
    exact ih (h.advance hu) hs

theorem inRange_of_advance {s s' : State} {t : Token} (hs : advance limits s t = .ok s') :
    t.InRange := by
  cases s with
  | operand frames =>
    obtain ⟨_, hs⟩ := then_eq_ok.mp hs
    rcases beginOperand_eq_ok.mp hs with ⟨_, hrange, _⟩ | ⟨ht, _⟩ | ⟨op, ht, _⟩
    · exact hrange
    · simp [Token.InRange, ht]
    · intro hint
      rw [hint] at ht
      cases ht
  | operator frames last =>
    rcases endOperand_eq_ok.mp hs with ⟨op, ht, _⟩ | ⟨ht, _⟩
    · intro hint
      rw [hint] at ht
      cases ht
    · simp [Token.InRange, ht]

theorem inRange_of_walk {s s' : State} (hs : ts.foldlM (advance limits) s = .ok s') :
    ∀ t ∈ ts, t.InRange := by
  induction ts generalizing s with
  | nil => exact List.forall_mem_nil _
  | cons t ts ih =>
    rw [List.foldlM_cons] at hs
    obtain ⟨u, hu, hs⟩ := bind_eq_ok.mp hs
    exact List.forall_mem_cons.mpr ⟨inRange_of_advance hu, ih hs⟩

end Soundness

section Texts

variable {maxDepth : Int} {ts : List Token} {e e' : Expr} {n n' : Nat}

theorem finish_eq_ok {last : Token} {s : State} :
    finish limits last s = .ok e ↔
      ∃ frames x, s = .operator frames x ∧ close 0 frames x = ([], e) := by
  cases s with
  | operand frames =>
    rw [finish, then_eq_ok]
    simp
  | operator frames x =>
    rw [finish]
    constructor
    · intro h
      split at h
      · rename_i e' hclose
        cases h
        exact ⟨frames, x, rfl, hclose⟩
      · cases h
    · rintro ⟨_, _, hs, hclose⟩
      cases hs
      rw [hclose]

theorem reads_sum (h : Derives .sum ts e n) (hrange : ∀ t ∈ ts, t.InRange) :
    Reads maxDepth [] ts n fun fs last => close 0 fs last = ([], e) := by
  have hopen : Open Level.sum.rank [] := trivial
  exact (reads_of_derives h hrange hopen).mono fun _ _ hclose => hclose 0 (Nat.zero_le _)

theorem derives_depth_le (hrange : ∀ t ∈ ts, t.InRange) (h : Derives .sum ts e n)
    (h' : Derives .sum ts e' n') : n' ≤ n := by
  have hreads : Reads n [] ts n fun fs last => close 0 fs last = ([], e) := reads_sum h hrange
  obtain ⟨fs, last, hwalk, _⟩ := hreads.within (by simp)
  apply Nat.le_of_not_lt
  intro hlt
  have hexceeds : (n : Int) < ([] : List Frame).length + n' := by simpa
  have hdeep := (reads_sum h' hrange).beyond hexceeds
  cases hwalk.symm.trans hdeep

/-- The grammar is unambiguous: the reader takes the tokens for one tree only, and gives up at one
depth only. -/
theorem derives_unique (hrange : ∀ t ∈ ts, t.InRange) (h : Derives .sum ts e n)
    (h' : Derives .sum ts e' n') : e' = e ∧ n' = n := by
  obtain rfl : n' = n :=
    Nat.le_antisymm (derives_depth_le hrange h h') (derives_depth_le hrange h' h)
  have hfits : ([] : List Frame).length + n' ≤ (n' : Int) := by simp
  obtain ⟨fs, last, hwalk, hclose⟩ := (reads_sum h hrange).within hfits
  obtain ⟨fs', last', hwalk', hclose'⟩ := (reads_sum h' hrange).within hfits
  cases hwalk.symm.trans hwalk'
  cases hclose.symm.trans hclose'
  exact ⟨rfl, rfl⟩

theorem tokens_eq_ok_iff {scan : Scan} :
    tokens ⟨maxDepth, none⟩ scan = .ok e ↔ (∀ t ∈ scan.tokens, t.InRange) ∧
      ∃ n : Nat, Derives .sum scan.tokens e n ∧ n ≤ maxDepth := by
  rw [tokens_eq_ok]
  simp only [finish_eq_ok]
  constructor
  · rintro ⟨_, _, hwalk, frames, x, rfl, hclose⟩
    have hstart : Reached maxDepth [] (.operand []) := Context.nil
    have hended : Ended maxDepth .primary frames x scan.tokens := hstart.walk hwalk
    obtain ⟨l, hended⟩ := hended.close_zero hclose
    refine ⟨inRange_of_walk hwalk, ?_⟩
    generalize scan.tokens = ts at hended
    obtain ⟨hc, he, hn⟩ := hended
    cases hc
    exact ⟨_, he.loosen l.rank_pos, by simpa using hn⟩
  · rintro ⟨hrange, n, h, hn⟩
    obtain ⟨fs, last, hwalk, hclose⟩ := (reads_sum h hrange).within (by simpa using hn)
    exact ⟨h.legal, _, hwalk, fs, last, rfl, hclose⟩

theorem interruption_eq_none {scan : Scan} (h : tokens limits scan = .ok e) :
    limits.interruption = none := by
  obtain ⟨_, s, hwalk, hfinish⟩ := tokens_eq_ok.mp h
  obtain ⟨frames, x, rfl, _⟩ := finish_eq_ok.mp hfinish
  cases hts : scan.tokens with
  | nil =>
    rw [hts] at hwalk
    cases hwalk
  | cons t ts =>
    rw [hts, List.foldlM_cons, bind_eq_ok] at hwalk
    obtain ⟨u, hu, _⟩ := hwalk
    obtain ⟨hallow, _⟩ := then_eq_ok.mp hu
    unfold allow at hallow
    split at hallow
    · cases hallow
    · split at hallow
      · cases hallow
      · assumption

/-- A tree that is read is the tree of a phrase within the limit. -/
theorem exists_derives {source : Bytes} (h : parse source { maxDepth } = .ok e) :
    ∃ ts n, Derives .sum ts e n ∧ (∀ t ∈ ts, t.InRange) ∧ (n : Int) ≤ maxDepth := by
  rw [parse, mapError_eq_ok, tokens_eq_ok_iff] at h
  obtain ⟨hrange, n, hderives, hn⟩ := h
  exact ⟨_, n, hderives, hrange, hn⟩

theorem exists_tooDeep {source : Bytes} (h : Derives .sum (Scan.ofBytes source).tokens e n)
    (hrange : ∀ t ∈ (Scan.ofBytes source).tokens, t.InRange) (hn : maxDepth < n) :
    ∃ err, parse source { maxDepth } = .error err ∧ err.reason = .tooDeep := by
  have hwalk := (reads_sum h hrange).beyond (by simpa using hn)
  obtain ⟨c, hc, hreason⟩ := tokens_of_walk_error h.legal hwalk
  refine ⟨c.toError source, ?_, ?_⟩
  · rw [parse, hc]
    rfl
  · rw [c.reason_toError, hreason]

end Texts
end Parse

end Abacus
