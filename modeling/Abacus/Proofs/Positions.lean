import Abacus.Proofs.Scanning

/-!
# Where tokens stand

A cursor keeps no more of the text behind it than its position. The position is nevertheless the
true one: it counts the bytes and the line feeds before it, and it remembers the last of them. So
each token can be put back where it was read, and what then lies between two tokens are the blanks
that were skipped.
-/
namespace Abacus

namespace Bytes

def digits : List UInt8 :=
  [48, 49, 50, 51, 52, 53, 54, 55, 56, 57]

/-- Space, tab, carriage return and line feed. -/
def blanks : List UInt8 :=
  [32, 9, 13, 10]

theorem isDigit_iff {b : UInt8} : isDigit b = true ↔ b ∈ digits := by
  simp only [isDigit, digits, Bool.and_eq_true, decide_eq_true_eq, UInt8.le_iff_toNat_le,
    List.mem_cons, List.not_mem_nil, or_false, ← UInt8.toNat_inj, UInt8.reduceToNat]
  omega

theorem isDigit_eq_false_iff {b : UInt8} : isDigit b = false ↔ b ∉ digits := by
  rw [← isDigit_iff, Bool.not_eq_true]

theorem isBlank_iff_mem_blanks {b : UInt8} : Cursor.isBlank b = true ↔ b ∈ blanks := by
  simp [Cursor.isBlank_iff, blanks]

theorem isBlank_eq_false_iff {b : UInt8} : Cursor.isBlank b = false ↔ b ∉ blanks := by
  rw [← isBlank_iff_mem_blanks, Bool.not_eq_true]

end Bytes

namespace Position

/-- The position just after the bytes. The lines before its own end with the last line feed. -/
structure After (p : Position) (before : Bytes) : Prop where
  offset : p.offset = before.length
  line : p.line = before.count Bytes.lineFeed
  lineStart : ∃ lines row, before = lines ++ row ∧ p.lineStart = lines.length ∧
    Bytes.lineFeed ∉ row ∧ ∀ b ∈ lines.getLast?, b = Bytes.lineFeed
  column : p.column = p.offset - p.lineStart

namespace After

variable {p q : Position} {before : Bytes}

theorem nil : After {} [] :=
  ⟨rfl, rfl, ⟨[], [], rfl, rfl, by simp, by simp⟩, rfl⟩

theorem along (h : p.After before) (text : Bytes) (htext : Bytes.lineFeed ∉ text) :
    (p.along text.length).After (before ++ text) := by
  obtain ⟨lines, row, hsplit, hstart, hrow, hlines⟩ := h.lineStart
  have hoffset := h.offset
  have hline := h.line
  have hcolumn := h.column
  refine ⟨?_, ?_, ⟨lines, row ++ text, ?_, hstart, ?_, hlines⟩, ?_⟩
  · simp only [Position.along, List.length_append]
    omega
  · simpa [Position.along, List.count_append, List.count_eq_zero.mpr htext] using hline
  · rw [hsplit, List.append_assoc]
  · simp [hrow, htext]
  · simp only [Position.along]
    omega

theorem newline (h : p.After before) : p.newline.After (before ++ [Bytes.lineFeed]) := by
  have hoffset := h.offset
  have hline := h.line
  refine ⟨?_, ?_, ⟨before ++ [Bytes.lineFeed], [], ?_, ?_, by simp, by simp⟩, ?_⟩
  · simp [Position.newline, hoffset]
  · simp [Position.newline, hline]
  · rw [List.append_nil]
  · simp [Position.newline, hoffset]
  · simp [Position.newline]

/-- Whole lines in front of a text are no longer than what lies before its last row. -/
theorem length_lines_le {lines row lines' row' : Bytes} (h : lines ++ row = lines' ++ row')
    (hrow : Bytes.lineFeed ∉ row) (hlines' : ∀ b ∈ lines'.getLast?, b = Bytes.lineFeed) :
    lines'.length ≤ lines.length := by
  rcases List.append_eq_append_iff.mp h with ⟨a, rfl, rfl⟩ | ⟨a, rfl, _⟩
  · cases hlast : a.getLast? with
    | none => simp [List.getLast?_eq_none_iff.mp hlast]
    | some b =>
      have hmem : b ∈ a := List.mem_of_getLast? hlast
      have hfeed : b = Bytes.lineFeed := hlines' b (by simp [List.getLast?_append, hlast])
      exact absurd (List.mem_append_left row' (hfeed ▸ hmem)) hrow
  · simp

theorem unique (h : p.After before) (h' : q.After before) : p = q := by
  obtain ⟨lines, row, hsplit, hstart, hrow, hlines⟩ := h.lineStart
  obtain ⟨lines', row', hsplit', hstart', hrow', hlines'⟩ := h'.lineStart
  have hsame : lines ++ row = lines' ++ row' := hsplit.symm.trans hsplit'
  have hle := length_lines_le hsame hrow hlines'
  have hge := length_lines_le hsame.symm hrow' hlines
  have hlineStart : p.lineStart = q.lineStart := by omega
  have hoffset : p.offset = q.offset := h.offset.trans h'.offset.symm
  have hline : p.line = q.line := h.line.trans h'.line.symm
  have hcolumn : p.column = q.column := by rw [h.column, h'.column, hoffset, hlineStart]
  cases p
  cases q
  simp_all

end After
end Position

namespace Token

/-- The bytes that are tokens by themselves. -/
def marks : List (UInt8 × Kind) :=
  [(43, .plus), (45, .minus), (42, .star), (47, .slash), (40, .lparen), (41, .rparen)]

def signs : List UInt8 :=
  marks.map Prod.fst

theorem ofByte?_eq_some_iff {b : UInt8} {k : Kind} :
    Kind.ofByte? b = some k ↔ (b, k) ∈ marks := by
  simp only [Kind.ofByte?, marks, List.mem_cons, Prod.mk.injEq, List.not_mem_nil, or_false]
  grind

theorem ofByte?_eq_none_iff {b : UInt8} : Kind.ofByte? b = none ↔ b ∉ signs := by
  simp only [Kind.ofByte?, signs, marks]
  grind

/-- What the text of a token is, read between the bytes `before` and `after`. -/
def Spells (t : Token) (before text after : Bytes) : Prop :=
  match t.kind with
  | .eof => t.literal = [] ∧ text = [] ∧ after = []
  | .illegal b => text = [b] ∧ b ∉ Bytes.blanks ∧ b ∉ Bytes.digits ∧ b ∉ signs
  | .int =>
    t.literal = text ∧ text ≠ [] ∧ (∀ b ∈ text, b ∈ Bytes.digits) ∧
      (∀ b ∈ before.getLast?, b ∉ Bytes.digits) ∧ ∀ b ∈ after.head?, b ∉ Bytes.digits
  | kind => t.literal = text ∧ ∃ b, text = [b] ∧ (b, kind) ∈ marks

/-- The token stands between the bytes `before` and `after`, in the place of the text. -/
structure Covers (t : Token) (before text after : Bytes) : Prop where
  start : t.start.After before
  stop : t.stop.After (before ++ text)
  spells : t.Spells before text after

namespace Covers

variable {t u : Token} {before text after : Bytes}

theorem eq_nil_of_eof (h : t.Covers before text after) (ht : t.kind = .eof) :
    text = [] ∧ after = [] := by
  have hspells := h.spells
  rw [Spells, ht] at hspells
  exact hspells.2

theorem kind_eq_eof (h : t.Covers before [] after) : t.kind = .eof := by
  have hspells := h.spells
  unfold Spells at hspells
  cases hkind : t.kind <;> simp_all

theorem eq_of_eof (h : t.Covers before text after) (h' : u.Covers before text after)
    (ht : t.kind = .eof) : u = t := by
  obtain ⟨rfl, rfl⟩ := h.eq_nil_of_eof ht
  have hu : u.kind = .eof := h'.kind_eq_eof
  have hstart := h.start.unique h'.start
  have hstop := h.stop.unique h'.stop
  have hspells := h.spells
  have hspells' := h'.spells
  rw [Spells, ht] at hspells
  rw [Spells, hu] at hspells'
  cases t
  cases u
  simp_all

theorem isBlank_eq_false (h : t.Covers before text after) :
    ∀ b ∈ text, Cursor.isBlank b = false := by
  intro b hb
  have hspells := h.spells
  cases hkind : t.kind with
  | eof =>
    rw [(h.eq_nil_of_eof hkind).1] at hb
    cases hb
  | illegal a =>
    rw [Spells, hkind] at hspells
    obtain ⟨rfl, hblank, _⟩ := hspells
    rwa [List.mem_singleton.mp hb, Bytes.isBlank_eq_false_iff]
  | int =>
    rw [Spells, hkind] at hspells
    obtain ⟨_, _, hdigits, _⟩ := hspells
    exact Cursor.isBlank_of_isDigit (Bytes.isDigit_iff.mpr (hdigits b hb))
  | _ =>
    rw [Spells, hkind] at hspells
    obtain ⟨_, a, rfl, ha⟩ := hspells
    rw [List.mem_singleton.mp hb]
    exact Cursor.isBlank_of_ofByte? (ofByte?_eq_some_iff.mpr ha)

end Covers

end Token

theorem Bytes.isDigit_head?_dropWhile (bs : Bytes) :
    ∀ b ∈ (bs.dropWhile isDigit).head?, isDigit b = false := by
  intro b hb
  have hnot := List.head?_dropWhile_not isDigit bs
  rwa [hb] at hnot

namespace Cursor

/-- The cursor has passed the bytes `before` of the source, and is not inside a numeral. -/
structure At (c : Cursor) (source before : Bytes) : Prop where
  split : source = before ++ c.rest
  pos : c.pos.After before
  apart : ∀ a ∈ before.getLast?, ∀ b ∈ c.rest.head?, Bytes.isDigit a = true →
    Bytes.isDigit b = false

theorem ne_lineFeed {b : UInt8} (h : isBlank b = false) : b ≠ Bytes.lineFeed := by
  rintro rfl
  cases h

theorem skipBlanks_spec (bs : Bytes) {p : Position} {before : Bytes} (hp : p.After before) :
    ∃ blanks, bs = blanks ++ (skipBlanks bs p).rest ∧ (∀ b ∈ blanks, isBlank b = true) ∧
      (skipBlanks bs p).pos.After (before ++ blanks) ∧
      ∀ b ∈ (skipBlanks bs p).rest.head?, isBlank b = false := by
  induction bs generalizing p before with
  | nil => exact ⟨[], rfl, by simp, by simpa [skipBlanks] using hp, by simp [skipBlanks]⟩
  | cons b rest ih =>
    rw [skipBlanks]
    split
    · rename_i hfeed
      obtain ⟨blanks, hrest, hblank, hpos, hhead⟩ := ih hp.newline
      refine ⟨b :: blanks, ?_, ?_, ?_, hhead⟩
      · rw [List.cons_append, ← hrest]
      · simpa [hfeed, isBlank] using hblank
      · simpa [hfeed] using hpos
    · rename_i hfeed
      split
      · rename_i hb
        have hstep : (p.along 1).After (before ++ [b]) :=
          hp.along [b] (by simpa using Ne.symm hfeed)
        obtain ⟨blanks, hrest, hblank, hpos, hhead⟩ := ih hstep
        refine ⟨b :: blanks, ?_, ?_, ?_, hhead⟩
        · rw [List.cons_append, ← hrest]
        · simpa [hb] using hblank
        · simpa using hpos
      · rename_i hb
        exact ⟨[], rfl, by simp, by simpa using hp, by simpa using hb⟩

theorem lexeme_spec {b : UInt8} (hb : isBlank b = false) (rest : Bytes) {p : Position}
    {before : Bytes} (hp : p.After before)
    (hbefore : Bytes.isDigit b = true → ∀ a ∈ before.getLast?, Bytes.isDigit a = false) :
    ∃ text, b :: rest = text ++ (lexeme b rest p).2 ∧
      (lexeme b rest p).1.Covers before text (lexeme b rest p).2 ∧
      ∀ a ∈ (before ++ text).getLast?, ∀ a' ∈ (lexeme b rest p).2.head?,
        Bytes.isDigit a = true → Bytes.isDigit a' = false := by
  have hfeed : Bytes.lineFeed ∉ [b] := by simpa using (ne_lineFeed hb).symm
  unfold lexeme
  split
  · rename_i hdigit
    have hdigits : ∀ a ∈ b :: rest.takeWhile Bytes.isDigit, Bytes.isDigit a = true :=
      List.forall_mem_cons.mpr ⟨hdigit, List.all_eq_true.mp List.all_takeWhile⟩
    have hfeed : Bytes.lineFeed ∉ b :: rest.takeWhile Bytes.isDigit := fun hmem =>
      absurd (hdigits _ hmem) (by decide)
    have hafter := Bytes.isDigit_head?_dropWhile rest
    refine ⟨b :: rest.takeWhile Bytes.isDigit, ?_, ⟨hp, hp.along _ hfeed, ?_⟩, ?_⟩
    · rw [List.cons_append, List.takeWhile_append_dropWhile]
    · refine ⟨rfl, List.cons_ne_nil _ _, ?_, ?_, ?_⟩
      · exact fun a ha => Bytes.isDigit_iff.mp (hdigits a ha)
      · exact fun a ha => Bytes.isDigit_eq_false_iff.mp (hbefore hdigit a ha)
      · exact fun a ha => Bytes.isDigit_eq_false_iff.mp (hafter a ha)
    · intro _ _ a ha _
      exact hafter a ha
  · rename_i hdigit
    have hapart : ∀ a ∈ (before ++ [b]).getLast?, ∀ a' ∈ rest.head?,
        Bytes.isDigit a = true → Bytes.isDigit a' = false := by
      simp [hdigit]
    split
    · rename_i kind hkind
      refine ⟨[b], rfl, ⟨hp, hp.along _ hfeed, ?_⟩, hapart⟩
      obtain ⟨heof, hint, hillegal⟩ := ofByte?_ne hkind
      cases kind with
      | eof => exact absurd rfl heof
      | int => exact absurd rfl hint
      | illegal a => exact absurd rfl (hillegal a)
      | _ => exact ⟨rfl, b, rfl, Token.ofByte?_eq_some_iff.mp hkind⟩
    · rename_i hkind
      refine ⟨[b], rfl, ⟨hp, hp.along _ hfeed, rfl, ?_, ?_, ?_⟩, hapart⟩
      · exact Bytes.isBlank_eq_false_iff.mp hb
      · exact Bytes.isDigit_eq_false_iff.mp (by simpa using hdigit)
      · exact Token.ofByte?_eq_none_iff.mp hkind

theorem At.isDigit_getLast? {c : Cursor} {source before blanks rest : Bytes} {b : UInt8}
    (h : c.At source before) (hrest : c.rest = blanks ++ b :: rest)
    (hblank : ∀ a ∈ blanks, isBlank a = true) (hb : Bytes.isDigit b = true) :
    ∀ a ∈ (before ++ blanks).getLast?, Bytes.isDigit a = false := by
  intro a ha
  apply Bool.eq_false_iff.mpr
  intro hdigit
  rw [List.getLast?_append] at ha
  cases hlast : blanks.getLast? with
  | some a' =>
    rw [hlast, Option.some_or] at ha
    cases ha
    have hskipped := hblank a (List.mem_of_getLast? hlast)
    rw [isBlank_of_isDigit hdigit] at hskipped
    cases hskipped
  | none =>
    rw [hlast, Option.none_or] at ha
    rw [List.getLast?_eq_none_iff.mp hlast] at hrest
    have hnot := h.apart a ha b (by rw [hrest]; rfl) hdigit
    rw [hb] at hnot
    cases hnot

/-- One token further, the cursor stands behind the blanks and the text of the token. -/
theorem At.next {c : Cursor} {source before : Bytes} (h : c.At source before) :
    ∃ blanks text, source = before ++ (blanks ++ (text ++ c.next.2.rest)) ∧
      (∀ b ∈ blanks, b ∈ Bytes.blanks) ∧
      c.next.1.Covers (before ++ blanks) text c.next.2.rest ∧
      c.next.2.At source (before ++ blanks ++ text) := by
  obtain ⟨blanks, hrest, hblank, hpos, hhead⟩ := skipBlanks_spec c.rest h.pos
  unfold Cursor.next
  generalize skipBlanks c.rest c.pos = s at hrest hpos hhead
  obtain ⟨rest, p⟩ := s
  have hsplit : source = before ++ (blanks ++ rest) := h.split.trans (congrArg _ hrest)
  have hskipped : ∀ b ∈ blanks, b ∈ Bytes.blanks := fun b hb =>
    Bytes.isBlank_iff_mem_blanks.mp (hblank b hb)
  cases rest with
  | nil =>
    have hstop : (p.along 0).After (before ++ blanks ++ []) := hpos.along [] (by simp)
    refine ⟨blanks, [], hsplit, hskipped, ⟨hpos, hstop, rfl, rfl, rfl⟩, ?_⟩
    exact ⟨by simpa using hsplit, by simpa using hpos, by simp⟩
  | cons b rest =>
    have hb : isBlank b = false := hhead b rfl
    obtain ⟨text, htext, hcovers, hapart⟩ :=
      lexeme_spec hb rest hpos (h.isDigit_getLast? hrest hblank)
    rw [htext] at hsplit
    refine ⟨blanks, text, hsplit, hskipped, hcovers, ?_, hcovers.stop, hapart⟩
    simpa using hsplit

end Cursor

/-- The tokens follow one another behind the bytes `before` of the source, with nothing but blanks
between them. -/
inductive Laid (source : Bytes) : Bytes → List Token → Prop
  | nil {before} : Laid source before []
  | cons {before blanks text after t ts} : source = before ++ (blanks ++ (text ++ after)) →
      (∀ b ∈ blanks, b ∈ Bytes.blanks) → t.Covers (before ++ blanks) text after →
      Laid source (before ++ blanks ++ text) ts → Laid source before (t :: ts)

theorem Cursor.At.laid {c : Cursor} {source before : Bytes} (h : c.At source before) (n : Nat) :
    Laid source before (Scan.firstTokens.go c n) := by
  induction n generalizing c before with
  | zero => exact .nil
  | succ n ih =>
    obtain ⟨blanks, text, hsplit, hblank, hcovers, hnext⟩ := h.next
    exact .cons hsplit hblank hcovers (ih hnext)

theorem Scan.length_firstTokens (source : Bytes) (n : Nat) :
    (firstTokens source n).length = n := by
  unfold firstTokens
  generalize (⟨source, {}⟩ : Cursor) = c
  induction n generalizing c with
  | zero => rfl
  | succ n ih => rw [firstTokens.go, List.length_cons, ih]

theorem Scan.laid_firstTokens (source : Bytes) (n : Nat) :
    Laid source [] (firstTokens source n) := by
  have hstart : Cursor.At ⟨source, {}⟩ source [] := ⟨rfl, .nil, by simp⟩
  exact hstart.laid n

namespace Laid

variable {source before : Bytes} {ts : List Token}

theorem length_le_start (h : Laid source before ts) :
    ∀ t ∈ ts, (before.length : Int) ≤ t.start.offset := by
  induction h with
  | nil => simp
  | @cons before blanks text _ t ts _ _ hcovers _ ih =>
    intro u hu
    rcases List.mem_cons.mp hu with rfl | hu
    · have hstart := hcovers.start.offset
      rw [List.length_append] at hstart
      omega
    · have hu := ih u hu
      rw [List.length_append, List.length_append] at hu
      omega

theorem pairwise (h : Laid source before ts) :
    ts.Pairwise fun t u => t.stop.offset ≤ u.start.offset := by
  induction h with
  | nil => exact .nil
  | cons _ _ hcovers hrest ih =>
    refine .cons ?_ ih
    intro u hu
    rw [hcovers.stop.offset]
    exact hrest.length_le_start u hu

/-- A token stands behind blanks that begin where the token before it ends. -/
theorem exists_covers {us vs : List Token} {t : Token} (h : Laid source before (us ++ t :: vs)) :
    ∃ passed blanks text after, source = passed ++ (blanks ++ (text ++ after)) ∧
      passed.length = (us.map fun u => u.stop.offset).getLastD (before.length : Int) ∧
      (∀ b ∈ blanks, b ∈ Bytes.blanks) ∧ t.Covers (passed ++ blanks) text after ∧
      Laid source (passed ++ blanks ++ text) vs := by
  induction us generalizing before with
  | nil =>
    cases h with
    | cons hsplit hblank hcovers hrest =>
      exact ⟨before, _, _, _, hsplit, rfl, hblank, hcovers, hrest⟩
  | cons u us ih =>
    cases h with
    | cons _ _ hcovers hrest =>
      rw [List.map_cons, List.getLastD_cons, hcovers.stop.offset]
      exact ih hrest

/-- Where the source ends, nothing but its end is found. -/
theorem eq_of_end {t : Token} (ht : t.Covers source [] []) (hkind : t.kind = .eof)
    (h : Laid source source ts) : ∀ u ∈ ts, u = t := by
  induction ts with
  | nil => simp
  | cons u ts ih =>
    cases h with
    | @cons _ blanks text after _ _ hsplit _ hcovers hrest =>
      have hnil : blanks ++ (text ++ after) = [] := List.self_eq_append_right.mp hsplit
      simp only [List.append_eq_nil_iff] at hnil
      obtain ⟨rfl, rfl, rfl⟩ := hnil
      simp only [List.append_nil] at hcovers hrest
      exact List.forall_mem_cons.mpr ⟨ht.eq_of_eof hcovers hkind, ih hrest⟩

end Laid

/-- However often a cursor is asked, its tokens stand in the source one after the other, and each
stands behind blanks that begin where the token before it ends. Its positions are true, its text is
that of its kind, and a numeral is a whole run of digits. The end of the input stands at the end and
is all that follows. -/
theorem scanning_loses_nothing (source : Bytes) (n : Nat) :
    (Scan.firstTokens source n).length = n ∧
    ((Scan.firstTokens source n).Pairwise fun t u => t.stop.offset ≤ u.start.offset) ∧
    ∀ (us : List Token) (t : Token) (vs : List Token),
      Scan.firstTokens source n = us ++ t :: vs →
      (∃ before blanks text after, source = before ++ (blanks ++ (text ++ after)) ∧
        before.length = (us.map fun u => u.stop.offset).getLastD 0 ∧
        (∀ b ∈ blanks, b ∈ Bytes.blanks) ∧ t.Covers (before ++ blanks) text after) ∧
      (t.kind = .eof →
        t.start.offset = source.length ∧ t.stop = t.start ∧ ∀ u ∈ vs, u = t) := by
  have hlaid := Scan.laid_firstTokens source n
  refine ⟨Scan.length_firstTokens source n, hlaid.pairwise, ?_⟩
  intro us t vs hts
  rw [hts] at hlaid
  obtain ⟨before, blanks, text, after, hsplit, hbefore, hblank, hcovers, hrest⟩ :=
    hlaid.exists_covers
  refine ⟨⟨before, blanks, text, after, hsplit, hbefore, hblank, hcovers⟩, fun hkind => ?_⟩
  obtain ⟨rfl, rfl⟩ := hcovers.eq_nil_of_eof hkind
  simp only [List.append_nil] at hsplit hrest
  rw [← hsplit] at hcovers hrest
  refine ⟨hcovers.start.offset, ?_, hrest.eq_of_end hcovers hkind⟩
  exact Position.After.unique (by simpa using hcovers.stop) hcovers.start

end Abacus
