import Abacus.Proofs.RoundTrip

/-!
# Printing what was read

A tree that comes from a source text has no negative integers, so its own text is read as the same
tree but for positions and literals. The text has a pair of parentheses around every operator,
though, and each pair is a level of nesting that the source text need not have had. So the text can
be too deep for the limit that the source text kept.
-/
namespace Abacus

open Grammar

namespace Expr

def Unsigned : Expr → Prop
  | .hole _ => True
  | .int _ _ v => ¬ v < 0
  | .unary _ _ x => x.Unsigned
  | .binary _ _ x y => x.Unsigned ∧ y.Unsigned

theorem Unsigned.desugar_eq {e : Expr} (h : e.Unsigned) : e.desugar = e := by
  induction e with
  | hole kind => rfl
  | int p literal v => exact if_neg h
  | unary p op x ih => rw [desugar, ih h]
  | binary p op x y ihx ihy => rw [desugar, ihx h.1, ihy h.2]

/-- An operator adds one level to a tree and at most two to its text. -/
theorem Unsigned.textDepth_le {e : Expr} (h : e.Unsigned) {d : Nat} (hd : e.depth? = some d) :
    e.textDepth ≤ 2 * d := by
  induction e generalizing d with
  | hole kind => exact Nat.zero_le _
  | int p literal v =>
    cases hd
    rw [textDepth, if_neg h]
    decide
  | unary p op x ih =>
    obtain ⟨dx, hdx, rfl⟩ := Option.map_eq_some_iff.mp hd
    have hx := ih h hdx
    rw [textDepth]
    omega
  | binary p op x y ihx ihy =>
    obtain ⟨dx, hdx, hd⟩ := Option.bind_eq_some_iff.mp hd
    obtain ⟨dy, hdy, hd⟩ := Option.bind_eq_some_iff.mp hd
    cases hd
    have hx := ihx h.1 hdx
    have hy := ihy h.2 hdy
    rw [textDepth]
    omega

theorem textDepth_bare (e : Expr) : e.bare.textDepth = e.textDepth := by
  induction e with
  | hole kind => rfl
  | int p literal v => rfl
  | unary p op x ih => rw [bare, textDepth, ih, textDepth]
  | binary p op x y ihx ihy => rw [bare, textDepth, ihx, ihy, textDepth]

end Expr

theorem Grammar.Derives.unsigned {l : Level} {ts : List Token} {e : Expr} {n : Nat}
    (h : Derives l ts e n) (hrange : ∀ t ∈ ts, t.InRange) : e.Unsigned := by
  induction h with
  | @int t ht =>
    have hle := List.forall_mem_singleton.mp hrange ht
    rw [Expr.Unsigned, Int64.lt_iff_toInt_lt, Int64.toInt_zero, Int64.toInt_ofNat_of_lt (by omega)]
    omega
  | group _ _ _ ih =>
    obtain ⟨hopen, _⟩ := List.forall_mem_append.mp hrange
    exact ih (List.forall_mem_cons.mp hopen).2
  | unary _ _ ih => exact ih (List.forall_mem_cons.mp hrange).2
  | binary _ _ _ ihx ihy =>
    obtain ⟨hx, hy⟩ := List.forall_mem_append.mp hrange
    exact ⟨ihx hx, ihy (List.forall_mem_cons.mp hy).2⟩
  | lift _ ih => exact ih hrange

/-- The text of a tree that was read is a phrase, and its tree is the same. -/
theorem phrase_text_of_parse {source : Bytes} {maxDepth : Int} {t : Expr}
    (h : parse source { maxDepth } = .ok t) :
    t.Unsigned ∧ ∃ text, t.text? = some text ∧ Phrase .sum text [] t.bare t.textDepth := by
  obtain ⟨ts, n, hderives, hrange, _⟩ := Parse.exists_derives h
  have hunsigned := hderives.unsigned hrange
  have hend : Bytes.EndsNumeral [] := rfl
  obtain ⟨text, htext, hphrase⟩ := phrase_text hderives.wellFormed hend
  rw [hunsigned.desugar_eq] at hphrase
  exact ⟨hunsigned, text, htext, hphrase.loosen (by decide)⟩

theorem exists_tooDeep_of_phrase {source : Bytes} {e : Expr} {n : Nat} {maxDepth : Int}
    (h : Phrase .sum source [] e n) (hn : maxDepth < n) :
    ∃ err, parse source { maxDepth } = .error err ∧ err.reason = .tooDeep := by
  obtain ⟨ts, t, _, hgives, hderives, _, hrange⟩ := h {}
  rw [← Scan.tokens_of_gives hgives] at hderives hrange
  exact Parse.exists_tooDeep hderives hrange hn

section Negations

def negations : Nat → Expr
  | 0 => .ofInt 1
  | n + 1 => .ofUnary .negate (negations n)

def signs (n : Nat) : Bytes :=
  List.replicate n Bytes.minus ++ Bytes.decimal 1

theorem textDepth_negations (n : Nat) : (negations n).textDepth = 2 * n + 1 := by
  induction n with
  | zero => rfl
  | succ n ih =>
    rw [negations, Expr.ofUnary, Expr.textDepth, ih]
    omega

theorem phrase_signs (n : Nat) : Phrase .signed (signs n) [] (negations n) (1 + n) := by
  induction n with
  | zero =>
    have hend : Bytes.EndsNumeral [] := rfl
    have hone := Phrase.int (v := 1) (by decide) hend
    rw [List.append_nil] at hone
    exact hone.loosen (by decide)
  | succ n ih =>
    have hdepth : 1 + (n + 1) = 1 + (1 + n) := by omega
    rw [hdepth]
    exact ih.unary .negate

/-- A sign is one level of the source text and two of the printed one. -/
theorem exists_parse_signs {n : Nat} (h : n < 500) :
    ∃ t, parse (signs n) = .ok t ∧ t.textDepth = 2 * n + 1 := by
  obtain ⟨t, hbare, hparse⟩ := parse_phrase ((phrase_signs n).loosen (by decide))
  refine ⟨t, (hparse 500 t).mpr ⟨rfl, by omega⟩, ?_⟩
  rw [← Expr.textDepth_bare, hbare, textDepth_negations]

end Negations

/-- The text of a tree that was read within the default limit is read again within it exactly when
its depth allows that, which it does for a tree of at most 250 levels. What is read is the same
tree but for positions and literals, and a text that is refused is refused for its depth. -/
theorem reprint_reads_back {source : Bytes} {t : Expr} (h : parse source = .ok t) :
    ∃ text, t.text? = some text ∧
      ((∃ t', parse text = .ok t') ↔ t.textDepth ≤ 500) ∧
      (∀ d, t.depth? = some d → d ≤ 250 → t.textDepth ≤ 500) ∧
      (∀ t', parse text = .ok t' → t'.bare = t.bare) ∧
      ∀ err, parse text = .error err → err.reason = .tooDeep := by
  obtain ⟨hunsigned, text, htext, hphrase⟩ := phrase_text_of_parse h
  obtain ⟨u, hbare, hparse⟩ := parse_phrase hphrase
  refine ⟨text, htext, ⟨?_, ?_⟩, ?_, ?_, ?_⟩
  · rintro ⟨t', ht'⟩
    exact Int.ofNat_le.mp ((hparse 500 t').mp ht').2
  · intro hdepth
    exact ⟨u, (hparse 500 u).mpr ⟨rfl, Int.ofNat_le.mpr hdepth⟩⟩
  · intro d hd hle
    exact Nat.le_trans (hunsigned.textDepth_le hd) (Nat.mul_le_mul_left 2 hle)
  · intro t' ht'
    rw [((hparse 500 t').mp ht').1, hbare]
  · intro err herr
    have hdeep : (500 : Int) < t.textDepth := by
      refine Int.not_le.mp fun hle => ?_
      have hread := (hparse 500 u).mpr ⟨rfl, hle⟩
      cases herr.symm.trans hread
    obtain ⟨err', herr', hreason⟩ := exists_tooDeep_of_phrase hphrase hdeep
    cases herr.symm.trans herr'
    exact hreason

/-- One behind 249 signs is read, printed and read again. -/
theorem reprint_reads_back_signs :
    ∃ t text t', parse (signs 249) = .ok t ∧ t.text? = some text ∧ parse text = .ok t' ∧
      t'.bare = t.bare := by
  obtain ⟨t, ht, hdepth⟩ := exists_parse_signs (n := 249) (by decide)
  obtain ⟨text, htext, hiff, _, hsame, _⟩ := reprint_reads_back ht
  obtain ⟨t', ht'⟩ := hiff.mpr (by omega)
  exact ⟨t, text, t', ht, htext, ht', hsame t' ht'⟩

/-- With one sign more it is read and printed, and what is printed is too deep. -/
theorem signs_not_reprinted :
    ∃ t text err, parse (signs 250) = .ok t ∧ t.text? = some text ∧ parse text = .error err ∧
      err.reason = .tooDeep := by
  obtain ⟨t, ht, hdepth⟩ := exists_parse_signs (n := 250) (by decide)
  obtain ⟨_, text, htext, hphrase⟩ := phrase_text_of_parse ht
  have hdeep : (500 : Int) < t.textDepth := by omega
  obtain ⟨err, herr, hreason⟩ := exists_tooDeep_of_phrase hphrase hdeep
  exact ⟨t, text, err, ht, htext, herr, hreason⟩

end Abacus
