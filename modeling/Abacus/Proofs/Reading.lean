import Abacus.Proofs.Complaints

/-!
# The texts that are read

A text can be taken apart into tokens in one way only. What stands behind the blanks says by its
first byte which kind of token it begins with, and the kind says where that token ends. So a text
is read exactly if there are tokens to be found in it that form an expression.
-/
namespace Abacus

/-- A run of bytes of one class is found again if no such byte follows it. -/
theorem Bytes.run_unique {xs xs' ys ys' : Bytes} {alphabet : List UInt8}
    (h : xs ++ ys = xs' ++ ys') (hxs : ∀ b ∈ xs, b ∈ alphabet) (hxs' : ∀ b ∈ xs', b ∈ alphabet)
    (hys : ∀ b ∈ ys.head?, b ∉ alphabet) (hys' : ∀ b ∈ ys'.head?, b ∉ alphabet) :
    xs' = xs ∧ ys' = ys := by
  induction xs generalizing xs' with
  | nil =>
    cases xs' with
    | nil => exact ⟨rfl, h.symm⟩
    | cons b xs' =>
      obtain rfl : ys = b :: xs' ++ ys' := h
      exact absurd (hxs' b List.mem_cons_self) (hys b rfl)
  | cons b xs ih =>
    cases xs' with
    | nil =>
      obtain rfl : b :: xs ++ ys = ys' := h
      exact absurd (hxs b List.mem_cons_self) (hys' b rfl)
    | cons b' xs' =>
      obtain ⟨rfl, htail⟩ := List.cons.inj h
      obtain ⟨rfl, hys⟩ := ih htail (List.forall_mem_cons.mp hxs).2 (List.forall_mem_cons.mp hxs').2
      exact ⟨rfl, hys⟩

namespace Token

/-- The kind of the token that a text without leading blanks begins with. -/
def kindAt : Bytes → Kind
  | [] => .eof
  | b :: _ => if b ∈ Bytes.digits then .int else (marks.lookup b).getD (.illegal b)

theorem lookup_of_mem_marks {b : UInt8} {k : Kind} (h : (b, k) ∈ marks) :
    b ∉ Bytes.digits ∧ marks.lookup b = some k := by
  simp only [marks, List.mem_cons, Prod.mk.injEq, List.not_mem_nil, or_false] at h
  rcases h with ⟨rfl, rfl⟩ | ⟨rfl, rfl⟩ | ⟨rfl, rfl⟩ | ⟨rfl, rfl⟩ | ⟨rfl, rfl⟩ | ⟨rfl, rfl⟩ <;>
    exact ⟨by decide, rfl⟩

namespace Covers

variable {t u : Token} {before text text' after after' : Bytes}

theorem kind_eq_kindAt (h : t.Covers before text after) : t.kind = kindAt (text ++ after) := by
  have hspells := h.spells
  cases hkind : t.kind with
  | eof =>
    obtain ⟨rfl, rfl⟩ := h.eq_nil_of_eof hkind
    rfl
  | illegal b =>
    rw [Spells, hkind] at hspells
    obtain ⟨rfl, _, hdigit, hsign⟩ := hspells
    have hlookup : marks.lookup b = none := by
      rw [List.lookup_eq_none_iff]
      intro p hp
      rw [bne_iff_ne]
      rintro rfl
      exact hsign (List.mem_map_of_mem hp)
    rw [List.singleton_append, kindAt, if_neg hdigit, hlookup, Option.getD_none]
  | int =>
    rw [Spells, hkind] at hspells
    obtain ⟨_, hne, hdigits, _⟩ := hspells
    obtain ⟨b, ds, rfl⟩ := List.exists_cons_of_ne_nil hne
    rw [List.cons_append, kindAt, if_pos (hdigits b List.mem_cons_self)]
  | _ =>
    rw [Spells, hkind] at hspells
    obtain ⟨_, b, rfl, hmark⟩ := hspells
    obtain ⟨hdigit, hlookup⟩ := lookup_of_mem_marks hmark
    rw [List.singleton_append, kindAt, if_neg hdigit, hlookup, Option.getD_some]

theorem head_notMem_blanks (h : t.Covers before text after) :
    ∀ b ∈ (text ++ after).head?, b ∉ Bytes.blanks := by
  intro b hb
  cases text with
  | nil =>
    obtain ⟨_, rfl⟩ := h.eq_nil_of_eof h.kind_eq_eof
    cases hb
  | cons a text =>
    cases hb
    exact Bytes.isBlank_eq_false_iff.mp (h.isBlank_eq_false b List.mem_cons_self)

theorem text_unique (h : t.Covers before text after) (h' : u.Covers before text' after')
    (hrest : text ++ after = text' ++ after') : text' = text ∧ after' = after := by
  have hsame : u.kind = t.kind := by
    rw [h.kind_eq_kindAt, h'.kind_eq_kindAt, hrest]
  have hspells := h.spells
  have hspells' := h'.spells
  cases hkind : t.kind with
  | eof =>
    obtain ⟨rfl, rfl⟩ := h.eq_nil_of_eof hkind
    exact h'.eq_nil_of_eof (hsame.trans hkind)
  | illegal b =>
    rw [Spells, hkind] at hspells
    rw [Spells, hsame, hkind] at hspells'
    obtain ⟨rfl, _⟩ := hspells
    obtain ⟨rfl, _⟩ := hspells'
    exact ⟨rfl, (List.cons.inj hrest).2.symm⟩
  | int =>
    rw [Spells, hkind] at hspells
    rw [Spells, hsame, hkind] at hspells'
    obtain ⟨_, _, hdigits, _, hafter⟩ := hspells
    obtain ⟨_, _, hdigits', _, hafter'⟩ := hspells'
    exact Bytes.run_unique hrest hdigits hdigits' hafter hafter'
  | _ =>
    rw [Spells, hkind] at hspells
    rw [Spells, hsame, hkind] at hspells'
    obtain ⟨_, b, rfl, _⟩ := hspells
    obtain ⟨_, b', rfl, _⟩ := hspells'
    obtain ⟨rfl, rfl⟩ := List.cons.inj hrest
    exact ⟨rfl, rfl⟩

/-- Text and place determine a token, unless it is illegal. -/
theorem unique (h : t.Covers before text after) (h' : u.Covers before text after)
    (hlegal : t.Legal) : u = t := by
  have hkind : u.kind = t.kind := by rw [h.kind_eq_kindAt, h'.kind_eq_kindAt]
  by_cases heof : t.kind = .eof
  · exact h.eq_of_eof h' heof
  · have hlegal' : u.Legal := by rwa [Legal, hkind]
    have hliteral := (h.spells.regular hlegal heof).1
    have hliteral' := (h'.spells.regular hlegal' (hkind ▸ heof)).1
    have hstart := h'.start.unique h.start
    have hstop := h'.stop.unique h.stop
    cases t
    cases u
    simp_all

end Covers
end Token

/-- The text is made of the tokens, with nothing but blanks around them. -/
def Lexed (source : Bytes) (ts : List Token) : Prop :=
  (∀ t ∈ ts, t.kind ≠ .eof) ∧ ∃ last : Token, last.kind = .eof ∧ Laid source [] (ts ++ [last])

namespace Laid

variable {source before : Bytes} {t u : Token} {ts us : List Token}

/-- Behind one place the next token is always of one kind, and if it is legal it is one token. -/
theorem head_unique (h : Laid source before (t :: ts)) (h' : Laid source before (u :: us)) :
    u.kind = t.kind ∧
      (t.Legal → u = t ∧ ∃ passed, Laid source passed ts ∧ Laid source passed us) := by
  cases h with
  | @cons _ blanks text after _ _ hsplit hblanks hcovers hlaid =>
    cases h' with
    | @cons _ blanks' text' after' _ _ hsplit' hblanks' hcovers' hlaid' =>
      have hrest := List.append_cancel_left (hsplit.symm.trans hsplit')
      obtain ⟨rfl, htexts⟩ := Bytes.run_unique hrest hblanks hblanks' hcovers.head_notMem_blanks
        hcovers'.head_notMem_blanks
      obtain ⟨rfl, rfl⟩ := hcovers.text_unique hcovers' htexts.symm
      refine ⟨by rw [hcovers.kind_eq_kindAt, hcovers'.kind_eq_kindAt], fun hlegal => ?_⟩
      exact ⟨hcovers.unique hcovers' hlegal, _, hlaid, hlaid'⟩

theorem unique {last last' : Token} (h : Laid source before (ts ++ [last]))
    (h' : Laid source before (us ++ [last'])) (hlast : last.kind = .eof)
    (hlast' : last'.kind = .eof) (hts : ∀ t ∈ ts, t.kind ≠ .eof)
    (hus : ∀ u ∈ us, u.kind ≠ .eof) (hlegal : ∀ t ∈ ts, t.Legal) : us = ts := by
  induction ts generalizing before us with
  | nil =>
    cases us with
    | nil => rfl
    | cons u us =>
      have hkind := (head_unique h h').1
      exact absurd (hkind.trans hlast) (hus u List.mem_cons_self)
  | cons t ts ih =>
    cases us with
    | nil =>
      have hkind := (head_unique h h').1
      exact absurd (hkind.symm.trans hlast') (hts t List.mem_cons_self)
    | cons u us =>
      obtain ⟨rfl, passed, h, h'⟩ := (head_unique h h').2 (hlegal _ List.mem_cons_self)
      rw [ih h h' (List.forall_mem_cons.mp hts).2 (List.forall_mem_cons.mp hus).2
        (List.forall_mem_cons.mp hlegal).2]

end Laid

namespace Lexed

variable {source : Bytes} {ts us : List Token}

theorem tokens (source : Bytes) : Lexed source (Scan.ofBytes source).tokens :=
  ⟨fun _ => Scan.kind_ne_eof, _, Scan.kind_last source, Scan.laid_toList source⟩

theorem unique (h : Lexed source ts) (h' : Lexed source us) (hlegal : ∀ t ∈ ts, t.Legal) :
    us = ts := by
  obtain ⟨hts, last, hlast, hlaid⟩ := h
  obtain ⟨hus, last', hlast', hlaid'⟩ := h'
  exact hlaid.unique hlaid' hlast hlast' hts hus hlegal

end Lexed

/-- Every text is made of tokens. It is read exactly if they are legal and form an expression, with
integers in range and a depth within the limit, and the result is the tree of the expression. The
tokens, the tree and the depth of an expression are unique. -/
theorem parse_accepts_grammar (source : Bytes) (maxDepth : Int) :
    (∃ ts, Lexed source ts) ∧
    (∀ e, parse source { maxDepth } = .ok e ↔
      ∃ (ts : List Token) (n : Nat), Lexed source ts ∧ (∀ t ∈ ts, t.Legal) ∧
        (∀ t ∈ ts, t.InRange) ∧ Grammar.Derives .sum ts e n ∧ n ≤ maxDepth) ∧
    ∀ ts e n ts' e' n', Lexed source ts → (∀ t ∈ ts, t.InRange) → Grammar.Derives .sum ts e n →
      Lexed source ts' → Grammar.Derives .sum ts' e' n' → ts' = ts ∧ e' = e ∧ n' = n := by
  refine ⟨⟨_, .tokens source⟩, fun e => ?_, ?_⟩
  · rw [parse, mapError_eq_ok, Parse.tokens_eq_ok_iff]
    constructor
    · rintro ⟨hrange, n, h, hn⟩
      exact ⟨_, n, .tokens source, h.legal, hrange, h, hn⟩
    · rintro ⟨ts, n, hlexed, hlegal, hrange, h, hn⟩
      rw [hlexed.unique (.tokens source) hlegal]
      exact ⟨hrange, n, h, hn⟩
  · intro ts e n ts' e' n' hlexed hrange h hlexed' h'
    obtain rfl := hlexed.unique hlexed' h.legal
    exact ⟨rfl, Parse.derives_unique hrange h h'⟩

/-- The text `12 -(3)` is an expression of depth three, and so is read within this limit and not
below it. -/
theorem difference_read_within_its_depth :
    ∃ ts e, Lexed [49, 50, 32, 45, 40, 51, 41] ts ∧ (∀ t ∈ ts, t.InRange) ∧
      Grammar.Derives .sum ts e 3 ∧
      e = .binary (.along {} 3) (.known .sub) (.int {} [49, 50] 12) (.int (.along {} 5) [51] 3) ∧
      parse [49, 50, 32, 45, 40, 51, 41] { maxDepth := 3 } = .ok e ∧
      ∀ e', parse [49, 50, 32, 45, 40, 51, 41] { maxDepth := 2 } ≠ .ok e' := by
  obtain ⟨ts, hlexed, hrange, hsum⟩ : ∃ ts, Lexed [49, 50, 32, 45, 40, 51, 41] ts ∧
      (∀ t ∈ ts, t.InRange) ∧ Grammar.Derives .sum ts (.binary (.along {} 3) (.known .sub)
        (.int {} [49, 50] 12) (.int (.along {} 5) [51] 3)) 3 := by
    refine ⟨[⟨.int, [49, 50], {}, .along {} 2⟩, ⟨.minus, [45], .along {} 3, .along {} 4⟩,
      ⟨.lparen, [40], .along {} 4, .along {} 5⟩, ⟨.int, [51], .along {} 5, .along {} 6⟩,
      ⟨.rparen, [41], .along {} 6, .along {} 7⟩], ?_, ?_, ?_⟩
    · have hlexed := Lexed.tokens [49, 50, 32, 45, 40, 51, 41]
      with_unfolding_all exact hlexed
    · simp only [List.forall_mem_cons, Token.InRange]
      decide
    · have htwelve := Grammar.Derives.int (t := ⟨.int, [49, 50], {}, .along {} 2⟩) rfl
      have hthree := Grammar.Derives.int (t := ⟨.int, [51], .along {} 5, .along {} 6⟩) rfl
      exact .binary .minus (htwelve.loosen (by decide))
        (.loosen (.group rfl rfl (hthree.loosen (by decide))) (by decide))
  refine ⟨ts, _, hlexed, hrange, hsum, rfl, ?_, ?_⟩
  · obtain ⟨_, hread, _⟩ := parse_accepts_grammar [49, 50, 32, 45, 40, 51, 41] 3
    exact (hread _).mpr ⟨ts, 3, hlexed, hsum.legal, hrange, hsum, by decide⟩
  · intro e' he'
    obtain ⟨_, hread, hunique⟩ := parse_accepts_grammar [49, 50, 32, 45, 40, 51, 41] 2
    obtain ⟨ts', n, hlexed', _, _, hsum', hn⟩ := (hread e').mp he'
    obtain ⟨_, _, rfl⟩ := hunique _ _ _ _ _ _ hlexed hrange hsum hlexed' hsum'
    exact absurd hn (by decide)

end Abacus
