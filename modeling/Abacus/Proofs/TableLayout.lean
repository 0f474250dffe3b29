import Abacus.Text.Table

/-!
# The layout of tables

Every cell stands between blanks, and a blank is part of no escape sequence. So an escape sequence
that a cell begins does not reach beyond it, a line is seen as wide as its cells are with what is
set around them, and each cell can be found where its column begins. This holds for any measure of
text that adds up.
-/
namespace Abacus

section Styles

/-- A byte that is part of no escape sequence for a style. -/
structure BreaksStyle (c : UInt8) : Prop where
  escape : c ≠ Bytes.escape
  bracket : c ≠ Bytes.lbracket
  parameter : isStyleParameter c = false
  final : c ≠ Bytes.letterM

theorem afterStyle?_eq_none {x : UInt8} (h : x ≠ Bytes.escape) (xs : Bytes) :
    afterStyle? (x :: xs) = none := by
  cases xs with
  | nil => rfl
  | cons y ys => rw [afterStyle?, if_neg fun hxy => h hxy.1]

theorem afterStyle?_escape_eq_none {y : UInt8} (h : y ≠ Bytes.lbracket) (ys : Bytes) :
    afterStyle? (Bytes.escape :: y :: ys) = none := by
  rw [afterStyle?, if_neg fun hxy => h hxy.2]

theorem afterStyle?_opened (cs : Bytes) :
    afterStyle? (Bytes.escape :: Bytes.lbracket :: cs) =
      (cs.dropWhile isStyleParameter).head?.bind fun c =>
        if c = Bytes.letterM then some (cs.dropWhile isStyleParameter).tail else none := by
  rw [afterStyle?, if_pos ⟨rfl, rfl⟩]
  cases cs.dropWhile isStyleParameter <;> rfl

variable {c : UInt8}

/-- An escape sequence at the start of a text ends before the next byte that breaks it. -/
theorem BreaksStyle.afterStyle?_append (hc : BreaksStyle c) (xs ys : Bytes) :
    afterStyle? (xs ++ c :: ys) = (afterStyle? xs).map (· ++ c :: ys) := by
  match xs with
  | [] => exact afterStyle?_eq_none hc.escape ys
  | [x] =>
    by_cases hx : x = Bytes.escape
    · subst hx
      exact afterStyle?_escape_eq_none hc.bracket ys
    · rw [afterStyle?_eq_none hx]
      exact afterStyle?_eq_none hx _
  -- The parameters may run up to the byte, but it neither continues nor ends them.
  | x :: y :: cs =>
    by_cases hx : x = Bytes.escape
    · subst hx
      by_cases hy : y = Bytes.lbracket
      · subst hy
        rw [List.cons_append, List.cons_append, afterStyle?_opened, afterStyle?_opened,
          List.dropWhile_append]
        cases cs.dropWhile isStyleParameter with
        | nil => simp [hc.parameter, hc.final]
        | cons d rest => by_cases hd : d = Bytes.letterM <;> simp [hd]
      · rw [afterStyle?_escape_eq_none hy]
        exact afterStyle?_escape_eq_none hy _
    · rw [afterStyle?_eq_none hx]
      exact afterStyle?_eq_none hx _

theorem unstyled_of_style {xs rest : Bytes} (h : afterStyle? xs = some rest) :
    unstyled xs = unstyled rest := by
  rw [unstyled]
  split
  · rename_i heq
    cases h.symm.trans heq
    rfl
  · rename_i heq
    cases h.symm.trans heq

theorem unstyled_of_plain {x : UInt8} {xs : Bytes} (h : afterStyle? (x :: xs) = none) :
    unstyled (x :: xs) = x :: unstyled xs := by
  rw [unstyled]
  split
  · rename_i heq
    cases h.symm.trans heq
  · rfl

theorem unstyled_nil : unstyled [] = [] := by
  rw [unstyled]
  split
  · rename_i heq
    cases heq
  · rfl

/-- No escape sequence reaches over a byte that breaks it, so the two parts lose theirs
separately. -/
theorem BreaksStyle.unstyled_append (hc : BreaksStyle c) (xs ys : Bytes) :
    unstyled (xs ++ c :: ys) = unstyled xs ++ c :: unstyled ys := by
  fun_induction unstyled xs with
  | case1 xs rest h _ ih =>
    have happend := hc.afterStyle?_append xs ys
    rw [h, Option.map_some] at happend
    rw [unstyled_of_style happend, ih]
  | case2 h => exact unstyled_of_plain (afterStyle?_eq_none hc.escape ys)
  | case3 x xs h ih =>
    have happend := hc.afterStyle?_append (x :: xs) ys
    rw [h, Option.map_none, List.cons_append] at happend
    rw [List.cons_append, unstyled_of_plain happend, ih]
    rfl

end Styles

namespace Table

/-- A measure of text that adds up around every printable character of ASCII, and gives one column
to it. -/
structure Additive (width : Bytes → Nat) : Prop where
  nil : width [] = 0
  ascii : ∀ xs c ys, 32 ≤ c → c ≤ 126 → width (xs ++ c :: ys) = width xs + 1 + width ys

theorem Additive.of_append {width : Bytes → Nat}
    (happend : ∀ xs ys, width (xs ++ ys) = width xs + width ys)
    (hascii : ∀ c, 32 ≤ c → c ≤ 126 → width [c] = 1) : Additive width where
  nil := by
    have h := happend [] []
    rw [List.append_nil] at h
    omega
  ascii xs c ys hlow hhigh := by
    rw [happend, ← List.singleton_append, happend, hascii c hlow hhigh, Nat.add_assoc]

def frame : Bytes :=
  [Bytes.space, Bytes.minus, Bytes.plus, Bytes.bar]

theorem breaksStyle_of_mem {c : UInt8} (h : c ∈ frame) : BreaksStyle c := by
  simp only [frame, List.mem_cons, List.not_mem_nil, or_false] at h
  rcases h with rfl | rfl | rfl | rfl <;>
    exact ⟨by decide, by decide, by decide, by decide⟩

theorem printable_of_mem {c : UInt8} (h : c ∈ frame) : 32 ≤ c ∧ c ≤ 126 := by
  simp only [frame, List.mem_cons, List.not_mem_nil, or_false] at h
  rcases h with rfl | rfl | rfl | rfl <;> decide

variable (width : Bytes → Nat)

def seen (xs : Bytes) : Nat :=
  width (unstyled xs)

/-- The width of a line with columns of these widths: a bar in front, and for each column a blank
on either side and the bar after it. -/
def breadth (ws : List Nat) : Nat :=
  ws.foldr (fun w n => w + 3 + n) 1

theorem breadth_cons (w : Nat) (ws : List Nat) : breadth (w :: ws) = w + 3 + breadth ws := rfl

/-- A line has a text between two bars, and it begins there where the columns before the `i`-th
end. -/
def Segment (ws : List Nat) (bar : UInt8) (i : Nat) (text line : Bytes) : Prop :=
  ∃ before after, line = before ++ bar :: (text ++ bar :: after) ∧
    seen width before + 1 = breadth (ws.take i)

def Rules (ws : List Nat) (line : Bytes) : Prop :=
  ∀ i w, ws[i]? = some w → Segment width ws Bytes.plus i (List.replicate (w + 2) Bytes.minus) line

/-- A line that a row is set in: in every column its cell, which is empty if the row is short,
among blanks that fill the column. -/
def Sets (ws : List Nat) (row : List Bytes) (line : Bytes) : Prop :=
  ∀ i w, ws[i]? = some w →
    ∃ left right, left + visible width (row.getD i []) + right = w ∧
      Segment width ws Bytes.bar i
        (List.replicate (left + 1) Bytes.space ++
          (row.getD i [] ++ List.replicate (right + 1) Bytes.space)) line

/-- The lines of a table in order: a rule, the header and a rule under it, the rows, and a rule. -/
def Typeset (t : Table) (ws : List Nat) (ls : List Bytes) : Prop :=
  ∃ (rule : Bytes) (top body : List Bytes),
    ls = rule :: (top ++ (body ++ [rule])) ∧ Rules width ws rule ∧
    (t.header = none → top = []) ∧
    (∀ h, t.header = some h → ∃ l, top = [l, rule] ∧ Sets width ws h l) ∧
    body.length = t.rows.length ∧
    ∀ (k : Nat) row, t.rows[k]? = some row → ∃ l, body[k]? = some l ∧ Sets width ws row l

def column (t : Table) (i : Nat) : List Bytes :=
  (t.header.toList ++ t.rows).filterMap (·[i]?)

section Seen

variable {width} (hw : Additive width) {c : UInt8} (hc : c ∈ frame)

include hw in
theorem seen_nil : seen width [] = 0 := by
  rw [seen, unstyled_nil, hw.nil]

include hw hc

theorem seen_append_cons (xs ys : Bytes) :
    seen width (xs ++ c :: ys) = seen width xs + 1 + seen width ys := by
  obtain ⟨hlow, hhigh⟩ := printable_of_mem hc
  rw [seen, (breaksStyle_of_mem hc).unstyled_append, hw.ascii _ c _ hlow hhigh]
  rfl

theorem seen_cons (ys : Bytes) : seen width (c :: ys) = 1 + seen width ys := by
  have h := seen_append_cons hw hc [] ys
  rwa [List.nil_append, seen_nil hw, Nat.zero_add] at h

theorem seen_replicate_append (n : Nat) (ys : Bytes) :
    seen width (List.replicate n c ++ ys) = n + seen width ys := by
  induction n with
  | zero => simp
  | succ n ih =>
    rw [List.replicate_succ, List.cons_append, seen_cons hw hc, ih]
    omega

theorem seen_append_replicate (xs : Bytes) (n : Nat) :
    seen width (xs ++ List.replicate n c) = seen width xs + n := by
  cases n with
  | zero => simp
  | succ n =>
    have h := seen_replicate_append hw hc n []
    rw [List.append_nil, seen_nil hw] at h
    rw [List.replicate_succ, seen_append_cons hw hc, h]
    omega

end Seen

/-- Text in which no escape sequence stays open: what follows is seen as it is alone. -/
def Closed (xs : Bytes) : Prop :=
  ∀ ys, seen width (xs ++ ys) = seen width xs + seen width ys

theorem closed_of_last {width : Bytes → Nat} (hw : Additive width) {c : UInt8} (hc : c ∈ frame)
    (xs : Bytes) : Closed width (xs ++ [c]) := by
  intro ys
  rw [List.append_assoc, List.singleton_append, seen_append_cons hw hc, seen_append_cons hw hc,
    seen_nil hw, Nat.add_zero]

section Framed

/-- Texts with a bar before each of them and after the last. -/
def framed (bar : UInt8) : List Bytes → Bytes
  | [] => [bar]
  | seg :: segs => bar :: (seg ++ framed bar segs)

theorem framed_eq_cons (bar : UInt8) (segs : List Bytes) :
    ∃ after, framed bar segs = bar :: after := by
  cases segs <;> exact ⟨_, rfl⟩

theorem mem_framed {c bar : UInt8} {segs : List Bytes} (h : c ∈ framed bar segs) :
    c = bar ∨ ∃ seg ∈ segs, c ∈ seg := by
  induction segs with
  | nil => exact Or.inl (List.mem_singleton.mp h)
  | cons seg segs ih =>
    rcases List.mem_cons.mp h with h | h
    · exact Or.inl h
    · rcases List.mem_append.mp h with h | h
      · exact Or.inr ⟨seg, List.mem_cons_self .., h⟩
      · rcases ih h with h | ⟨seg', hmem, h⟩
        · exact Or.inl h
        · exact Or.inr ⟨seg', List.mem_cons_of_mem _ hmem, h⟩

variable {width} (hw : Additive width) {bar : UInt8} (hbar : bar ∈ frame)
  {segs : List Bytes} {ws : List Nat}
  (hclosed : ∀ seg ∈ segs, Closed width seg) (hsegs : segs.map (seen width) = ws.map (· + 2))

include hw hbar hclosed hsegs

theorem seen_framed : seen width (framed bar segs) = breadth ws := by
  induction segs generalizing ws with
  | nil =>
    rw [List.map_eq_nil_iff.mp hsegs.symm, framed, seen_cons hw hbar, seen_nil hw]
    rfl
  | cons seg segs ih =>
    cases ws with
    | nil => cases hsegs
    | cons w ws =>
      obtain ⟨hseg, hsegs⟩ := List.cons.inj hsegs
      have hseg : seen width seg = w + 2 := hseg
      obtain ⟨hopen, hrest⟩ := List.forall_mem_cons.mp hclosed
      rw [framed, seen_cons hw hbar, hopen, hseg, ih hrest hsegs, breadth_cons]
      omega

/-- Every text is found between two bars, behind those of the columns before it. -/
theorem segment_framed {i : Nat} {seg : Bytes} (hi : segs[i]? = some seg) :
    Segment width ws bar i seg (framed bar segs) := by
  induction segs generalizing ws i with
  | nil => cases hi
  | cons first segs ih =>
    cases ws with
    | nil => cases hsegs
    | cons w ws =>
      obtain ⟨hfirst, hsegs⟩ := List.cons.inj hsegs
      have hfirst : seen width first = w + 2 := hfirst
      obtain ⟨hopen, hrest⟩ := List.forall_mem_cons.mp hclosed
      cases i with
      | zero =>
        cases hi
        obtain ⟨after, hafter⟩ := framed_eq_cons bar segs
        refine ⟨[], after, ?_, ?_⟩
        · rw [framed, hafter, List.nil_append]
        · rw [seen_nil hw]
          rfl
      | succ i =>
        obtain ⟨before, after, hline, hbefore⟩ := ih hrest hsegs hi
        refine ⟨bar :: (first ++ before), after, ?_, ?_⟩
        · rw [framed, hline, List.cons_append, List.append_assoc]
        · rw [seen_cons hw hbar, hopen, hfirst, List.take_succ_cons, breadth_cons, ← hbefore]
          omega

end Framed

section Rows

def slot (cell : Bytes) (w : Nat) (a : Alignment) : Bytes :=
  Bytes.space :: (pad width cell w a ++ [Bytes.space])

def slots (fallback : Alignment) : List Nat → List Bytes → List Alignment → List Bytes
  | [], _, _ => []
  | w :: ws, row, as =>
    slot width (row.headD []) w (as.headD fallback) :: slots fallback ws row.tail as.tail

def rowText (fallback : Alignment) (as : List Alignment) (ws : List Nat) (row : List Bytes) :
    Bytes :=
  framed Bytes.bar (slots width fallback ws row as)

theorem bar_cons_cells (fallback : Alignment) (ws : List Nat) (row : List Bytes)
    (as : List Alignment) :
    Bytes.bar :: cells width fallback ws row as = rowText width fallback as ws row := by
  unfold rowText
  induction ws generalizing row as with
  | nil => rfl
  | cons w ws ih =>
    rw [slots, framed, ← ih, cells]
    simp [slot]

theorem line_eq (fallback : Alignment) (as : List Alignment) (ws : List Nat) (row : List Bytes) :
    line width fallback as ws row = rowText width fallback as ws row ++ [Bytes.lineFeed] := by
  rw [← bar_cons_cells, line]

theorem getElem?_slots (fallback : Alignment) (ws : List Nat) (row : List Bytes)
    (as : List Alignment) (i : Nat) :
    (slots width fallback ws row as)[i]? =
      ws[i]?.map fun w => slot width (row.getD i []) w (as.getD i fallback) := by
  induction ws generalizing row as i with
  | nil => rfl
  | cons w ws ih =>
    cases i with
    | zero => cases row <;> cases as <;> rfl
    | succ i =>
      rw [slots, List.getElem?_cons_succ, List.getElem?_cons_succ, ih]
      cases row <;> cases as <;> rfl

variable {width}

theorem exists_pad {cell : Bytes} {w : Nat} (h : visible width cell ≤ w) (a : Alignment) :
    ∃ left right, left + visible width cell + right = w ∧
      pad width cell w a =
        List.replicate left Bytes.space ++ (cell ++ List.replicate right Bytes.space) := by
  cases a with
  | left => exact ⟨0, w - visible width cell, by omega, by simp [pad, spaces]⟩
  | right => exact ⟨w - visible width cell, 0, by omega, by simp [pad, spaces]⟩
  | center =>
    refine ⟨(w - visible width cell) / 2,
      w - visible width cell - (w - visible width cell) / 2, by omega, ?_⟩
    simp [pad, spaces]

def Fits (width : Bytes → Nat) (ws : List Nat) (row : List Bytes) : Prop :=
  ∀ i w, ws[i]? = some w → visible width (row.getD i []) ≤ w

variable (hw : Additive width) {ws : List Nat} {row : List Bytes} (hrow : Fits width ws row)
  (fallback : Alignment) (as : List Alignment)

include hw

theorem seen_slot {cell : Bytes} {w : Nat} (h : visible width cell ≤ w) (a : Alignment) :
    seen width (slot width cell w a) = w + 2 := by
  have hblank : Bytes.space ∈ frame := List.mem_cons_self ..
  obtain ⟨left, right, hsum, htext⟩ := exists_pad h a
  have hcell : seen width cell = visible width cell := rfl
  rw [slot, htext, seen_cons hw hblank, seen_append_cons hw hblank, seen_nil hw,
    seen_replicate_append hw hblank, seen_append_replicate hw hblank, hcell]
  omega

theorem closed_of_mem_slots {seg : Bytes} (h : seg ∈ slots width fallback ws row as) :
    Closed width seg := by
  obtain ⟨i, hi⟩ := List.mem_iff_getElem?.mp h
  rw [getElem?_slots] at hi
  obtain ⟨w, _, rfl⟩ := Option.map_eq_some_iff.mp hi
  exact closed_of_last hw (List.mem_cons_self ..) (Bytes.space :: pad width _ w _)

include hrow

theorem map_seen_slots :
    (slots width fallback ws row as).map (seen width) = ws.map (· + 2) := by
  apply List.ext_getElem?
  intro i
  rw [List.getElem?_map, List.getElem?_map, getElem?_slots]
  cases hi : ws[i]? with
  | none => rfl
  | some w => exact congrArg some (seen_slot hw (hrow i w hi) _)

theorem seen_row : seen width (rowText width fallback as ws row) = breadth ws :=
  seen_framed hw (by simp [frame]) (fun _ => closed_of_mem_slots hw fallback as)
    (map_seen_slots hw hrow fallback as)

theorem sets_row : Sets width ws row (rowText width fallback as ws row) := by
  intro i w hi
  obtain ⟨left, right, hsum, htext⟩ := exists_pad (hrow i w hi) (as.getD i fallback)
  refine ⟨left, right, hsum, ?_⟩
  apply segment_framed hw (by simp [frame]) (fun _ => closed_of_mem_slots hw fallback as)
    (map_seen_slots hw hrow fallback as)
  rw [getElem?_slots, hi, Option.map_some, slot, htext, List.replicate_succ, List.replicate_succ']
  simp

omit hw in
theorem feed_notMem_row (hcells : ∀ cell ∈ row, Bytes.lineFeed ∉ cell) :
    Bytes.lineFeed ∉ rowText width fallback as ws row := by
  intro hmem
  rcases mem_framed hmem with hbar | ⟨seg, hseg, hmem⟩
  · exact absurd hbar (by decide)
  · obtain ⟨i, hi⟩ := List.mem_iff_getElem?.mp hseg
    rw [getElem?_slots] at hi
    obtain ⟨w, hw, rfl⟩ := Option.map_eq_some_iff.mp hi
    obtain ⟨left, right, _, htext⟩ := exists_pad (hrow i w hw) (as.getD i fallback)
    have hcell : Bytes.lineFeed ∈ row.getD i [] := by
      have hblank : Bytes.lineFeed ≠ Bytes.space := by decide
      rw [slot, htext] at hmem
      simpa [List.mem_replicate, hblank] using hmem
    cases hget : row[i]? with
    | none =>
      rw [List.getD_eq_getElem?_getD, hget] at hcell
      cases hcell
    | some cell =>
      rw [List.getD_eq_getElem?_getD, hget] at hcell
      exact hcells cell (List.mem_of_getElem? hget) hcell

end Rows

section Rule

def rule (ws : List Nat) : Bytes :=
  framed Bytes.plus (ws.map fun w => List.replicate (w + 2) Bytes.minus)

theorem separator_eq (ws : List Nat) : separator ws = rule ws ++ [Bytes.lineFeed] := by
  have hdashes (ws : List Nat) : Bytes.plus :: ws.flatMap (fun w =>
      List.replicate (w + 2) Bytes.minus ++ [Bytes.plus]) = rule ws := by
    induction ws with
    | nil => rfl
    | cons w ws ih =>
      have hrule : rule (w :: ws) =
          Bytes.plus :: (List.replicate (w + 2) Bytes.minus ++ rule ws) := rfl
      rw [hrule, ← ih, List.flatMap_cons, List.append_assoc, List.singleton_append]
  rw [separator, hdashes]

variable {width} (hw : Additive width) (ws : List Nat)

include hw

theorem closed_of_mem_dashes {seg : Bytes}
    (h : seg ∈ ws.map fun w => List.replicate (w + 2) Bytes.minus) : Closed width seg := by
  obtain ⟨w, _, rfl⟩ := List.mem_map.mp h
  rw [List.replicate_succ']
  exact closed_of_last hw (by simp [frame]) _

theorem map_seen_dashes :
    (ws.map fun w => List.replicate (w + 2) Bytes.minus).map (seen width) = ws.map (· + 2) := by
  rw [List.map_map]
  apply List.map_congr_left
  intro w _
  have h := seen_replicate_append hw (c := Bytes.minus) (by simp [frame]) (w + 2) []
  rwa [List.append_nil, seen_nil hw] at h

omit hw in
theorem feed_notMem_rule : Bytes.lineFeed ∉ rule ws := by
  intro hmem
  rcases mem_framed hmem with hbar | ⟨seg, hseg, hmem⟩
  · exact absurd hbar (by decide)
  · obtain ⟨w, _, rfl⟩ := List.mem_map.mp hseg
    exact absurd (List.eq_of_mem_replicate hmem) (by decide)

theorem seen_rule : seen width (rule ws) = breadth ws :=
  seen_framed hw (by simp [frame]) (fun _ => closed_of_mem_dashes hw ws) (map_seen_dashes hw ws)

theorem rules_rule : Rules width ws (rule ws) := by
  intro i w hi
  apply segment_framed hw (by simp [frame]) (fun _ => closed_of_mem_dashes hw ws)
    (map_seen_dashes hw ws)
  rw [List.getElem?_map, hi, Option.map_some]

end Rule

section Columns

theorem getElem?_widen (ws : List Nat) (row : List Bytes) (i : Nat) :
    (widen width ws row)[i]? = Option.merge max ws[i]? (row[i]?.map (visible width)) := by
  fun_induction widen width ws row generalizing i with
  | case1 ws => simp
  | case2 cell row ih => cases i <;> simp [ih]
  | case3 w ws cell row ih => cases i <;> simp [ih]

/-- Widening by one row after the other makes each column as wide as its widest cell. -/
theorem getElem?_foldl_widen (rows : List (List Bytes)) (ws : List Nat) (i : Nat) :
    (rows.foldl (widen width) ws)[i]? =
      Option.merge max ws[i]? ((rows.filterMap (·[i]?)).map (visible width)).max? := by
  have hassoc := (inferInstance : Std.Associative (Option.merge (max : Nat → Nat → Nat))).assoc
  induction rows generalizing ws with
  | nil => simp
  | cons row rows ih =>
    rw [List.foldl_cons, ih, getElem?_widen, hassoc]
    congr 1
    cases hi : row[i]? with
    | none => simp [hi]
    | some cell =>
      rw [List.filterMap_cons_some (f := (·[i]?)) hi, List.map_cons, List.max?_cons]
      cases (List.map (visible width) (rows.filterMap (·[i]?))).max? <;> rfl

theorem columns_eq (t : Table) :
    t.columns width = (t.header.toList ++ t.rows).foldl (widen width) [] := by
  unfold columns
  cases t.header <;> simp [widen]

theorem getElem?_columns (t : Table) (i : Nat) :
    (t.columns width)[i]? = ((t.column i).map (visible width)).max? := by
  rw [columns_eq, getElem?_foldl_widen, List.getElem?_nil, Option.merge_none_left]
  rfl

theorem fits_columns {width : Bytes → Nat} (hw : Additive width) {t : Table}
    {row : List Bytes} (h : row ∈ t.header.toList ++ t.rows) :
    Fits width (t.columns width) row := by
  intro i w hi
  rw [getElem?_columns] at hi
  cases hcell : row[i]? with
  | none =>
    have hempty : visible width [] = 0 := seen_nil hw
    rw [List.getD_eq_getElem?_getD, hcell, Option.getD_none, hempty]
    exact Nat.zero_le w
  | some cell =>
    rw [List.getD_eq_getElem?_getD, hcell, Option.getD_some]
    apply (List.max?_eq_some_iff.mp hi).2
    exact List.mem_map_of_mem (List.mem_filterMap.mpr ⟨row, h, hcell⟩)

end Columns

section Lines

def texts (t : Table) : List Bytes :=
  let ws := t.columns width
  rule ws ::
    (t.header.toList.flatMap (fun h => [rowText width .center t.headerAlignment ws h, rule ws]) ++
      (t.rows.map (rowText width .left t.alignment ws) ++ [rule ws]))

theorem lines_eq_nil {t : Table} (h : t.columns width = []) : t.lines width = [] := by
  rw [lines, h]
  rfl

theorem lines_eq_map {t : Table} (h : t.columns width ≠ []) :
    t.lines width = (t.texts width).map (· ++ [Bytes.lineFeed]) := by
  have hempty : (t.columns width).isEmpty = false := by
    rw [List.isEmpty_eq_false_iff]
    exact h
  have hrows : t.rows.map (line width .left t.alignment (t.columns width)) =
      (t.rows.map (rowText width .left t.alignment (t.columns width))).map
        (· ++ [Bytes.lineFeed]) := by
    rw [List.map_map]
    exact List.map_congr_left fun row _ => line_eq width .left t.alignment _ row
  rw [lines, texts, hempty]
  cases t.header with
  | none => simp [separator_eq, hrows]
  | some h => simp [separator_eq, line_eq, hrows]

variable {width} (hw : Additive width) {t : Table}

include hw

theorem typeset_texts : Typeset width t (t.columns width) (t.texts width) := by
  refine ⟨_, _, _, rfl, rules_rule hw _, ?_, ?_, List.length_map _, ?_⟩
  · intro h
    rw [h]
    rfl
  · intro h hh
    refine ⟨_, by rw [hh]; rfl, sets_row hw (fits_columns hw ?_) _ _⟩
    simp [hh]
  · intro k row hrow
    refine ⟨_, by rw [List.getElem?_map, hrow]; rfl, sets_row hw (fits_columns hw ?_) _ _⟩
    exact List.mem_append_right _ (List.mem_of_getElem? hrow)

theorem text_of_mem_texts
    (hcells : ∀ row ∈ t.header.toList ++ t.rows, ∀ cell ∈ row, Bytes.lineFeed ∉ cell)
    {l : Bytes} (h : l ∈ t.texts width) :
    Bytes.lineFeed ∉ l ∧ seen width l = breadth (t.columns width) := by
  have hrule : Bytes.lineFeed ∉ rule (t.columns width) ∧
      seen width (rule (t.columns width)) = breadth (t.columns width) :=
    ⟨feed_notMem_rule _, seen_rule hw _⟩
  have hrow (fallback : Alignment) (as : List Alignment) {row : List Bytes}
      (hmem : row ∈ t.header.toList ++ t.rows) :
      Bytes.lineFeed ∉ rowText width fallback as (t.columns width) row ∧
        seen width (rowText width fallback as (t.columns width) row) =
          breadth (t.columns width) :=
    ⟨feed_notMem_row (fits_columns hw hmem) fallback as (hcells row hmem),
      seen_row hw (fits_columns hw hmem) fallback as⟩
  rcases List.mem_cons.mp h with rfl | h
  · exact hrule
  · rcases List.mem_append.mp h with h | h
    · obtain ⟨header, hheader, h⟩ := List.mem_flatMap.mp h
      simp only [List.mem_cons, List.not_mem_nil, or_false] at h
      rcases h with rfl | rfl
      · exact hrow _ _ (List.mem_append_left _ hheader)
      · exact hrule
    · rcases List.mem_append.mp h with h | h
      · obtain ⟨row, hmem, rfl⟩ := List.mem_map.mp h
        exact hrow _ _ (List.mem_append_right _ hmem)
      · rw [List.mem_singleton.mp h]
        exact hrule

end Lines
end Table

/-- Tables are rectangular. A column is as wide as its widest cell is seen to be. If no cell has a
line feed, then all lines are seen to have one width: that of a bar, and for each column its width
with two blanks and a bar. The line of a row has each of its cells unchanged in its column, and
the columns that a short row leaves out are blank. A table without columns has no lines. -/
theorem tables_are_rectangular {width : Bytes → Nat} (hw : Table.Additive width) {t : Table}
    (hcells : ∀ row ∈ t.header.toList ++ t.rows, ∀ cell ∈ row, Bytes.lineFeed ∉ cell) :
    (∀ i, (t.columns width)[i]? = ((t.column i).map (Table.visible width)).max?) ∧
    ∃ ls : List Bytes,
      t.renderWith width = ls.flatMap (· ++ [Bytes.lineFeed]) ∧
      (∀ l ∈ ls, Bytes.lineFeed ∉ l ∧ Table.seen width l = Table.breadth (t.columns width)) ∧
      (t.columns width = [] → ls = []) ∧
      (t.columns width ≠ [] → Table.Typeset width t (t.columns width) ls) := by
  refine ⟨Table.getElem?_columns width t, ?_⟩
  rw [Table.renderWith]
  by_cases hcolumns : t.columns width = []
  · refine ⟨[], ?_, List.forall_mem_nil _, fun _ => rfl, fun h => absurd hcolumns h⟩
    rw [Table.lines_eq_nil width hcolumns]
    rfl
  · refine ⟨t.texts width, ?_, fun l => Table.text_of_mem_texts hw hcells,
      fun h => absurd h hcolumns, fun _ => Table.typeset_texts hw⟩
    rw [Table.lines_eq_map width hcolumns, List.flatMap_def]

/-- The number of characters that well-formed text has: bytes that continue one do not count. -/
def Width.ofLeads (bs : Bytes) : Nat :=
  bs.countP fun b => b < 128 || 192 ≤ b

theorem Width.additive_ofLeads : Table.Additive ofLeads := by
  apply Table.Additive.of_append
  · intro xs ys
    exact List.countP_append
  · intro c _ hhigh
    have hlt : c < 128 := UInt8.lt_of_le_of_lt hhigh (by decide)
    simp [ofLeads, hlt]

/-- A header in bold, a short row, and a row that begins an escape sequence and does not end it,
with a cell that is not well-formed text. -/
def Table.ragged : Table where
  header := some [[73, 68], [27, 91, 49, 109, 110, 97, 109, 101, 27, 91, 50, 50, 109]]
  rows := [[[49]], [[27, 91, 51], [98], [195]]]
  alignment := [.right, .center]

theorem ragged_table_is_rectangular :
    Table.ragged.columns Width.ofLeads = [3, 4, 1] ∧
      ∃ ls : List Bytes,
        Table.ragged.renderWith Width.ofLeads = ls.flatMap (· ++ [Bytes.lineFeed]) ∧
        ∀ l ∈ ls, Table.seen Width.ofLeads l = 18 := by
  have hcolumns : Table.ragged.columns Width.ofLeads = [3, 4, 1] := by
    with_unfolding_all rfl
  obtain ⟨_, ls, htext, hlines, _⟩ :=
    tables_are_rectangular Width.additive_ofLeads (t := .ragged) (by decide)
  refine ⟨hcolumns, ls, htext, ?_⟩
  intro l hl
  rw [(hlines l hl).2, hcolumns]
  rfl

end Abacus
