import Abacus.Source.Scan

/-!
# Scanning text of known form

A cursor gives tokens one after the other, and what it gives for one text does not depend on what
follows, as long as a numeral is not followed by another digit. Blanks go with the token after
them.
-/
namespace Abacus

namespace Bytes

theorem isDigit_digit {n : Nat} (h : n < 10) : isDigit (digit n) = true := by
  revert n
  decide

theorem toNat_digit {n : Nat} (h : n < 10) : (digit n).toNat = 48 + n := by
  revert n
  decide

theorem isDigit_of_mem_decimal {n : Nat} {b : UInt8} (hb : b ∈ decimal n) : isDigit b = true := by
  fun_induction decimal n with
  | case1 n hn =>
    cases List.mem_singleton.mp hb
    exact isDigit_digit hn
  | case2 n hn ih =>
    rcases List.mem_append.mp hb with hb | hb
    · exact ih hb
    · cases List.mem_singleton.mp hb
      exact isDigit_digit (Nat.mod_lt n (by decide))

theorem decimal_ne_nil (n : Nat) : decimal n ≠ [] := by
  rw [decimal]
  split <;> simp

theorem readDecimal_decimal (n : Nat) : readDecimal (decimal n) = n := by
  fun_induction decimal n with
  | case1 n hn =>
    change 10 * 0 + ((digit n).toNat - 48) = n
    rw [toNat_digit hn]
    omega
  | case2 n hn ih =>
    have hmod := toNat_digit (Nat.mod_lt n (show 10 > 0 by decide))
    unfold readDecimal at ih ⊢
    rw [List.foldl_append, ih, List.foldl_cons, List.foldl_nil, hmod]
    omega

/-- A numeral in front of the bytes ends where they begin. -/
def EndsNumeral (rest : Bytes) : Prop :=
  rest.takeWhile isDigit = []

theorem EndsNumeral.dropWhile_eq {rest : Bytes} (h : EndsNumeral rest) :
    rest.dropWhile isDigit = rest := by
  have hsplit := List.takeWhile_append_dropWhile (p := isDigit) (l := rest)
  rwa [h, List.nil_append] at hsplit

theorem endsNumeral_cons {b : UInt8} (h : isDigit b = false) (rest : Bytes) :
    EndsNumeral (b :: rest) := by
  rw [EndsNumeral, List.takeWhile_cons, h]
  rfl

end Bytes

namespace Cursor

/-- The cursor gives the tokens, none of which is the end of the input, and is then at `c'`. -/
inductive Gives : Cursor → List Token → Cursor → Prop
  | nil {c} : Gives c [] c
  | cons {c ts c'} : c.next.1.kind ≠ .eof → Gives c.next.2 ts c' → Gives c (c.next.1 :: ts) c'

theorem Gives.append {c c' c'' : Cursor} {ts us : List Token} (h : Gives c ts c')
    (h' : Gives c' us c'') : Gives c (ts ++ us) c'' := by
  induction h with
  | nil => exact h'
  | cons hkind _ ih => exact .cons hkind (ih h')

theorem Gives.single {c : Cursor} (h : c.next.1.kind ≠ .eof) : Gives c [c.next.1] c.next.2 :=
  .cons h .nil

theorem Gives.space {rest : Bytes} {p : Position} {ts : List Token} {c' : Cursor}
    (h : Gives ⟨rest, p.along 1⟩ ts c') (hts : ts ≠ []) : Gives ⟨Bytes.space :: rest, p⟩ ts c' := by
  have hnext : next ⟨Bytes.space :: rest, p⟩ = next ⟨rest, p.along 1⟩ := rfl
  cases h with
  | nil => exact absurd rfl hts
  | cons hkind hrest =>
    rw [← hnext] at hkind hrest ⊢
    exact .cons hkind hrest

theorem collect_of_gives {c c' : Cursor} {ts : List Token} (h : Gives c ts c')
    (acc : List Token) : collect c acc = collect c' (ts.reverse ++ acc) := by
  induction h generalizing acc with
  | nil => rfl
  | cons hkind _ ih =>
    rw [collect, if_neg hkind, ih, List.reverse_cons, List.append_assoc]
    rfl

theorem collect_nil (p : Position) (acc : List Token) :
    collect ⟨[], p⟩ acc = (acc.reverse, token .eof [] p 0) := by
  rw [collect]
  rfl

theorem next_cons {b : UInt8} {rest : Bytes} (p : Position) (h : isBlank b = false) :
    next ⟨b :: rest, p⟩ =
      ((lexeme b rest p).1, ⟨(lexeme b rest p).2, (lexeme b rest p).1.stop⟩) := by
  have hfeed : b ≠ Bytes.lineFeed := by
    rintro rfl
    cases h
  have hskip : skipBlanks (b :: rest) p = ⟨b :: rest, p⟩ := by
    rw [skipBlanks, if_neg hfeed, if_neg (by simp [h])]
  unfold next
  rw [hskip]

theorem isBlank_iff {b : UInt8} : isBlank b = true ↔
    b = Bytes.space ∨ b = Bytes.tab ∨ b = Bytes.carriageReturn ∨ b = Bytes.lineFeed := by
  simp [isBlank, or_assoc]

theorem isBlank_of_isDigit {b : UInt8} (h : Bytes.isDigit b = true) : isBlank b = false := by
  rw [← Bool.not_eq_true, isBlank_iff]
  rintro (rfl | rfl | rfl | rfl) <;> cases h

theorem isBlank_of_ofByte? {b : UInt8} {k : Token.Kind} (h : Token.Kind.ofByte? b = some k) :
    isBlank b = false := by
  rw [← Bool.not_eq_true, isBlank_iff]
  rintro (rfl | rfl | rfl | rfl) <;> cases h

theorem isDigit_of_ofByte? {b : UInt8} {k : Token.Kind} (h : Token.Kind.ofByte? b = some k) :
    Bytes.isDigit b = false := by
  unfold Token.Kind.ofByte? at h
  repeat' split at h
  all_goals first | (subst b; rfl) | cases h

theorem ofByte?_ne {b : UInt8} {k : Token.Kind} (h : Token.Kind.ofByte? b = some k) :
    k ≠ .eof ∧ k ≠ .int ∧ ∀ a, k ≠ .illegal a := by
  unfold Token.Kind.ofByte? at h
  repeat' split at h
  all_goals
    cases h
    try simp

theorem gives_sign {b : UInt8} {k : Token.Kind} (h : Token.Kind.ofByte? b = some k)
    (rest : Bytes) (p : Position) :
    Gives ⟨b :: rest, p⟩ [token k [b] p 1] ⟨rest, p.along 1⟩ := by
  have hnext : next ⟨b :: rest, p⟩ = (token k [b] p 1, ⟨rest, p.along 1⟩) := by
    rw [next_cons p (isBlank_of_ofByte? h), lexeme, if_neg (by simp [isDigit_of_ofByte? h]), h]
    rfl
  have hgives := @Gives.single ⟨b :: rest, p⟩
  rw [hnext] at hgives
  exact hgives (ofByte?_ne h).1

theorem gives_digits {ds rest : Bytes} (hne : ds ≠ []) (hds : ∀ b ∈ ds, Bytes.isDigit b = true)
    (h : Bytes.EndsNumeral rest) (p : Position) :
    Gives ⟨ds ++ rest, p⟩ [token .int ds p ds.length] ⟨rest, p.along ds.length⟩ := by
  obtain ⟨b, ds, rfl⟩ := List.exists_cons_of_ne_nil hne
  obtain ⟨hb, hds⟩ := List.forall_mem_cons.mp hds
  have hnext : next ⟨b :: ds ++ rest, p⟩ =
      (token .int (b :: ds) p (b :: ds).length, ⟨rest, p.along (b :: ds).length⟩) := by
    rw [List.cons_append, next_cons p (isBlank_of_isDigit hb), lexeme, if_pos hb,
      List.takeWhile_append_of_pos hds, List.dropWhile_append_of_pos hds, h.dropWhile_eq,
      show rest.takeWhile Bytes.isDigit = [] from h, List.append_nil]
    rfl
  have hgives := @Gives.single ⟨b :: ds ++ rest, p⟩
  rw [hnext] at hgives
  exact hgives (by simp [token])

theorem gives_decimal (n : Nat) {rest : Bytes} (h : Bytes.EndsNumeral rest) (p : Position) :
    Gives ⟨Bytes.decimal n ++ rest, p⟩
      [token .int (Bytes.decimal n) p (Bytes.decimal n).length]
      ⟨rest, p.along (Bytes.decimal n).length⟩ := by
  apply gives_digits (Bytes.decimal_ne_nil n) _ h p
  intro b hb
  exact Bytes.isDigit_of_mem_decimal hb

end Cursor

theorem Scan.tokens_of_gives {source : Bytes} {ts : List Token} {p : Position}
    (h : Cursor.Gives ⟨source, {}⟩ ts ⟨[], p⟩) : (Scan.ofBytes source).tokens = ts := by
  unfold ofBytes
  rw [Cursor.collect_of_gives h, Cursor.collect_nil, List.append_nil, List.reverse_reverse]

end Abacus
