import Abacus.Proofs.Complaints

/-!
# Reports that underline the text they are about

A report shows the line on which its token starts, without the carriage returns at the end, and puts
carets under it. A token holds no blanks, so trimming the line never cuts it, and the carets stand
under its bytes. Only the end of the input is not on the line: its caret stands behind the line.
-/
namespace Abacus

/-- A line of the source, between the lines before it and its line feed. The carriage returns at its
end are kept apart. -/
structure IsLine (source lines line returns rest : Bytes) : Prop where
  split : source = lines ++ (line ++ (returns ++ rest))
  lines : ∀ b ∈ lines.getLast?, b = Bytes.lineFeed
  feed : Bytes.lineFeed ∉ line
  trimmed : ∀ b ∈ line.getLast?, b ≠ Bytes.carriageReturn
  returns : ∀ b ∈ returns, b = Bytes.carriageReturn
  rest : ∀ b ∈ rest.head?, b = Bytes.lineFeed

namespace Parse

theorem exists_trimmed (row : Bytes) :
    ∃ returns, row = (row.reverse.dropWhile (· = Bytes.carriageReturn)).reverse ++ returns ∧
      (∀ b ∈ returns, b = Bytes.carriageReturn) ∧
      ∀ b ∈ (row.reverse.dropWhile (· = Bytes.carriageReturn)).reverse.getLast?,
        b ≠ Bytes.carriageReturn := by
  refine ⟨(row.reverse.takeWhile (· = Bytes.carriageReturn)).reverse, ?_, ?_, ?_⟩
  · rw [← List.reverse_append, List.takeWhile_append_dropWhile, List.reverse_reverse]
  · intro b hb
    have hall := List.all_eq_true.mp (List.all_takeWhile (l := row.reverse)) b
      (List.mem_reverse.mp hb)
    simpa using hall
  · intro b hb
    rw [List.getLast?_reverse] at hb
    have hnot := List.head?_dropWhile_not (· = Bytes.carriageReturn) row.reverse
    rw [hb] at hnot
    simpa using hnot

theorem takeWhile_append_of_feed {row : Bytes} (h : Bytes.lineFeed ∉ row) (rest : Bytes) :
    (row ++ rest).takeWhile (· ≠ Bytes.lineFeed) =
      row ++ rest.takeWhile (· ≠ Bytes.lineFeed) := by
  apply List.takeWhile_append_of_pos
  intro b hb
  apply decide_eq_true
  rintro rfl
  exact h hb

theorem exists_row (after : Bytes) :
    ∃ rest, after = after.takeWhile (· ≠ Bytes.lineFeed) ++ rest ∧
      Bytes.lineFeed ∉ after.takeWhile (· ≠ Bytes.lineFeed) ∧
      ∀ b ∈ rest.head?, b = Bytes.lineFeed := by
  refine ⟨after.dropWhile (· ≠ Bytes.lineFeed), List.takeWhile_append_dropWhile.symm, ?_, ?_⟩
  · intro hmem
    have hall := List.all_eq_true.mp (List.all_takeWhile (l := after)) _ hmem
    simp at hall
  · intro b hb
    have hnot := List.head?_dropWhile_not (· ≠ Bytes.lineFeed) after
    rw [hb] at hnot
    simpa using hnot

/-- The line at a position consists of the row before it and of what follows up to the line feed,
but for carriage returns at the end. -/
theorem isLine_lineAt {source before text after : Bytes} {p : Position} (h : p.After before)
    (hsource : source = before ++ (text ++ after)) (htext : Bytes.lineFeed ∉ text) :
    ∃ lines row tail returns rest, before = lines ++ row ∧ p.column = row.length ∧
      row ++ (text ++ tail) = lineAt source p ++ returns ∧ after = tail ++ rest ∧
      IsLine source lines (lineAt source p) returns rest := by
  obtain ⟨lines, row, rfl, hstart, hrow, hlines⟩ := h.lineStart
  obtain ⟨rest, hafter, htail, hrest⟩ := exists_row after
  have hwhole : (source.drop p.lineStart.toNat).takeWhile (· ≠ Bytes.lineFeed) =
      row ++ (text ++ after.takeWhile (· ≠ Bytes.lineFeed)) := by
    rw [hstart, Int.toNat_natCast, hsource, List.append_assoc, List.drop_left,
      takeWhile_append_of_feed hrow, takeWhile_append_of_feed htext]
  generalize after.takeWhile (· ≠ Bytes.lineFeed) = tail at hafter htail hwhole
  have hline : lineAt source p =
      ((row ++ (text ++ tail)).reverse.dropWhile (· = Bytes.carriageReturn)).reverse := by
    rw [lineAt, hwhole]
  obtain ⟨returns, htrim, hreturns, htrimmed⟩ := exists_trimmed (row ++ (text ++ tail))
  rw [← hline] at htrim htrimmed
  refine ⟨lines, row, tail, returns, rest, rfl, ?_, htrim, hafter, ?_⟩
  · have hoffset := h.offset
    have hcolumn := h.column
    rw [List.length_append] at hoffset
    omega
  · constructor
    · calc
        source = lines ++ (row ++ (text ++ tail) ++ rest) := by simp [hsource, hafter]
        _ = lines ++ (lineAt source p ++ (returns ++ rest)) := by rw [htrim, List.append_assoc]
    · exact hlines
    · intro hmem
      have hfeed : Bytes.lineFeed ∈ row ++ (text ++ tail) := by
        rw [htrim]
        exact List.mem_append_left returns hmem
      simp [hrow, htext, htail] at hfeed
    · exact htrimmed
    · exact hreturns
    · exact hrest

end Parse

namespace Token

variable {t : Token} {before text after : Bytes}

theorem Covers.feed_notMem (h : t.Covers before text after) : Bytes.lineFeed ∉ text := by
  intro hfeed
  cases h.isBlank_eq_false _ hfeed

theorem Covers.ne_nil (h : t.Covers before text after) (hkind : t.kind ≠ .eof) : text ≠ [] := by
  rintro rfl
  exact hkind h.kind_eq_eof

theorem Covers.stop_eq (h : t.Covers before text after) : t.stop = t.start.along text.length := by
  apply h.stop.unique
  exact h.start.along _ h.feed_notMem

end Token

theorem exists_append_of_trimmed {row text tail line returns : Bytes}
    (hrow : row ++ (text ++ tail) = line ++ returns)
    (hreturns : ∀ b ∈ returns, b = Bytes.carriageReturn) (hne : text ≠ [])
    (htext : ∀ b ∈ text, Cursor.isBlank b = false) : ∃ more, line = row ++ (text ++ more) := by
  rw [← List.append_assoc] at hrow
  rcases List.append_eq_append_iff.mp hrow with ⟨more, hline, _⟩ | ⟨cut, hcut, hrest⟩
  · exact ⟨more, by rw [hline, List.append_assoc]⟩
  · cases hlast : cut.getLast? with
    | none =>
      rw [List.getLast?_eq_none_iff.mp hlast, List.append_nil] at hcut
      exact ⟨[], by rw [List.append_nil, hcut]⟩
    | some b =>
      have hreturn : b = Bytes.carriageReturn := by
        apply hreturns
        rw [hrest]
        exact List.mem_append_left tail (List.mem_of_getLast? hlast)
      have hb : (row ++ text).getLast? = some b := by
        rw [hcut, List.getLast?_append, hlast, Option.some_or]
      rw [List.getLast?_append, List.getLast?_eq_some_getLast hne, Option.some_or] at hb
      have hblank := htext _ (List.getLast_mem hne)
      rw [Option.some.inj hb, hreturn] at hblank
      cases hblank

namespace Diagnostic

theorem width_eq {d : Diagnostic} {n : Nat} (h : d.stop = d.start.along n)
    (hn : n < longestLine) : d.width = max n 1 := by
  have hlongest : longestLine = 281474976710656 := rfl
  have hmin : Int64.minValue.toInt = -9223372036854775808 := rfl
  have hmax : Int64.maxValue.toInt = 9223372036854775807 := rfl
  have hcolumns : d.stop.column - d.start.column = n := by
    simp only [h, Position.along]
    omega
  have hword : Position.word n = n := Position.word_eq_self (by omega) (by omega)
  unfold width
  rw [hcolumns, hword, h]
  simp only [Position.along]
  by_cases hzero : n = 0
  · simp [hzero]
  · have hone : ¬ (n : Int) < 1 := by omega
    simp [hone]
    omega

theorem friendly?_eq {d : Diagnostic} {column n : Nat} (hcolumn : d.start.column = column)
    (hstop : d.stop = d.start.along n) (hlt : column + n < longestLine) :
    d.friendly? = some (Bytes.ofString d.heading ++ if d.line = [] then [] else
      Bytes.ofString " | " ++ d.line ++ Bytes.ofString "\n | " ++
        List.replicate column Bytes.space ++ List.replicate (max n 1) Bytes.caret ++
        [Bytes.lineFeed]) := by
  have hlongest : longestLine = 281474976710656 := rfl
  have hwidth : d.width = max n 1 := width_eq hstop (by omega)
  unfold friendly?
  by_cases hline : d.line = []
  · simp [hline]
  · rw [if_neg hline, if_neg hline, if_neg (by omega), underlined, hwidth, hcolumn]
    rfl

end Diagnostic

structure OnLine (t : Token) (text line returns : Bytes) (column : Nat) : Prop where
  le : column ≤ (line ++ returns).length
  under : t.kind ≠ .eof → column + text.length ≤ line.length ∧
    (line.drop column).take text.length = text
  behind : t.kind = .eof → line.length ≤ column

theorem Token.Covers.onLine {source before text after : Bytes} {t : Token}
    (h : t.Covers before text after) (hsource : source = before ++ (text ++ after)) :
    ∃ lines returns rest, IsLine source lines (Parse.lineAt source t.start) returns rest ∧
      ∃ column : Nat, t.start.column = column ∧ before.length = lines.length + column ∧
        OnLine t text (Parse.lineAt source t.start) returns column := by
  obtain ⟨lines, row, tail, returns, rest, rfl, hcolumn, hrow, hafter, hline⟩ :=
    Parse.isLine_lineAt h.start hsource h.feed_notMem
  refine ⟨lines, returns, rest, hline, row.length, hcolumn, List.length_append, ?_, ?_, ?_⟩
  · rw [← hrow]
    simp
  · intro hkind
    obtain ⟨more, hmore⟩ :=
      exists_append_of_trimmed hrow hline.returns (h.ne_nil hkind) h.isBlank_eq_false
    simp [hmore]
  · intro hkind
    obtain ⟨rfl, rfl⟩ := h.eq_nil_of_eof hkind
    have htail : tail = [] := (List.append_eq_nil_iff.mp hafter.symm).1
    have hlength := congrArg List.length hrow
    simp [htail] at hlength
    omega

theorem Parse.found_mem {source : Bytes} {limits : Limits} {err : ParseError}
    (h : parse source limits = .error err)
    (hcategory : err.category = "parse error" ∨ err.category = "syntax error") :
    err.found ∈ (Scan.ofBytes source).toList ∧ err.line = lineAt source err.found.start := by
  obtain ⟨c, us, vs, rfl, hts, _⟩ := parse_eq_error h
  have hinterrupted : ∀ i, c.reason ≠ .interrupted i := by
    intro i hreason
    rw [← Complaint.reason_toError source] at hreason
    simp [ParseError.category, hreason] at hcategory
  rw [Complaint.toError_eq source hinterrupted, hts]
  simp

/-- A report on the syntax shows the line on which it starts. If the text is short enough for its
lines to be laid out, that line is printed with carets under it unless it is empty. The carets stand
under the bytes of the token that the report is about, and at the end of the input one caret stands
behind the line. -/
theorem report_underlines_token {source : Bytes} {limits : Limits} {err : ParseError}
    (h : parse source limits = .error err)
    (hcategory : err.category = "parse error" ∨ err.category = "syntax error") :
    err.found ∈ (Scan.ofBytes source).toList ∧
    ∃ before text after lines returns rest,
      source = before ++ (text ++ after) ∧ err.found.Covers before text after ∧
      IsLine source lines err.diagnostic.line returns rest ∧
      lines.length ≤ err.diagnostic.start.offset ∧
      err.diagnostic.start.offset ≤ lines.length + (err.diagnostic.line ++ returns).length ∧
      (source.length < Diagnostic.longestLine → ∃ column carets : Nat,
        err.diagnostic.start.column = column ∧
        err.diagnostic.friendly? = some (Bytes.ofString err.diagnostic.heading ++
          if err.diagnostic.line = [] then [] else
            Bytes.ofString " | " ++ err.diagnostic.line ++ Bytes.ofString "\n | " ++
              List.replicate column Bytes.space ++ List.replicate carets Bytes.caret ++
              [Bytes.lineFeed]) ∧
        (err.found.kind ≠ .eof → column + carets ≤ err.diagnostic.line.length ∧
          (err.diagnostic.line.drop column).take carets = text) ∧
        (err.found.kind = .eof → carets = 1 ∧ err.diagnostic.line.length ≤ column)) := by
  obtain ⟨hmem, hshown⟩ := Parse.found_mem h hcategory
  obtain ⟨us, vs, hts⟩ := List.append_of_mem hmem
  have hlaid := Scan.laid_toList source
  rw [hts] at hlaid
  obtain ⟨passed, blanks, text, after, hsource, _, _, hcovers, _⟩ := hlaid.exists_covers
  rw [← List.append_assoc] at hsource
  generalize passed ++ blanks = before at hsource hcovers
  obtain ⟨lines, returns, rest, hline, column, hcolumn, hbefore, honline⟩ :=
    hcovers.onLine hsource
  rw [← hshown] at hline honline
  have hoffset : err.diagnostic.start.offset = before.length := hcovers.start.offset
  refine ⟨hmem, before, text, after, lines, returns, rest, hsource, hcovers, hline, ?_, ?_, ?_⟩
  · omega
  · have hle : column ≤ (err.diagnostic.line ++ returns).length := honline.le
    omega
  · intro hsize
    have hsizes := congrArg List.length hsource
    simp only [List.length_append] at hsizes
    refine ⟨column, max text.length 1, hcolumn, ?_, ?_, ?_⟩
    · exact Diagnostic.friendly?_eq hcolumn hcovers.stop_eq (by omega)
    · intro hkind
      rw [Nat.max_eq_left (List.length_pos_iff.mpr (hcovers.ne_nil hkind))]
      exact honline.under hkind
    · intro hkind
      obtain ⟨rfl, _⟩ := hcovers.eq_nil_of_eof hkind
      exact ⟨rfl, honline.behind hkind⟩

/-- The byte `$` on the second line of `1+` and ` $`, which ends in a carriage return. -/
theorem illegal_byte_underlined_on_second_line :
    ∃ err, parse [49, 43, 10, 32, 36, 13] = .error err ∧ err.category = "syntax error" ∧
      err.diagnostic.line = [32, 36] ∧
      err.diagnostic.friendly? = some (Bytes.ofString err.diagnostic.heading ++
        (Bytes.ofString " | " ++ [32, 36] ++ Bytes.ofString "\n | " ++ [32] ++ [94] ++ [10])) := by
  obtain ⟨err, herr, hcategory, hline, hstart, hkind⟩ :
      ∃ err, parse [49, 43, 10, 32, 36, 13] = .error err ∧ err.category = "syntax error" ∧
        err.diagnostic.line = [32, 36] ∧ err.diagnostic.start.column = 1 ∧
        err.found.kind ≠ .eof :=
    ⟨_, by with_unfolding_all rfl, rfl, rfl, rfl, by decide⟩
  obtain ⟨_, _, text, _, _, _, _, _, hcovers, _, _, _, hshown⟩ :=
    report_underlines_token herr (Or.inr hcategory)
  obtain ⟨column, carets, hcolumn, hfriendly, hunder, _⟩ := hshown (by decide)
  obtain ⟨hle, htext⟩ := hunder hkind
  rw [hline] at hle htext hfriendly
  obtain rfl : column = 1 := by omega
  obtain rfl : carets = 1 := by
    have hlength := congrArg List.length htext
    have hpos := List.length_pos_iff.mpr (hcovers.ne_nil hkind)
    simp at hle hlength
    omega
  exact ⟨err, herr, hcategory, hline, hfriendly⟩

end Abacus
