import Abacus.Text.Style
import Abacus.Text.Width

/-!
# Text tables

Cells are set in columns between bars, under an optional header row. A column is as wide as its
widest cell, measured without escape sequences; short rows are filled up with empty cells. The
measure of a text is a parameter, so that a table is laid out alike for any of them.
-/
namespace Abacus

inductive Alignment where
  | left
  | right
  | center
deriving DecidableEq, Inhabited

structure Table where
  header : Option (List Bytes) := none
  rows : List (List Bytes) := []
  alignment : List Alignment := []
  headerAlignment : List Alignment := []

namespace Table

variable (width : Bytes → Nat)

/-- The width of a cell as it is seen. -/
def visible (cell : Bytes) : Nat :=
  width (unstyled cell)

/-- Widens columns to fit a row, and adds columns that it needs. -/
def widen : List Nat → List Bytes → List Nat
  | ws, [] => ws
  | [], cell :: row => visible width cell :: widen [] row
  | w :: ws, cell :: row => max w (visible width cell) :: widen ws row

def columns (t : Table) : List Nat :=
  t.rows.foldl (widen width) (widen width [] (t.header.getD []))

def spaces (n : Nat) : Bytes :=
  List.replicate n Bytes.space

def pad (cell : Bytes) (w : Nat) (a : Alignment) : Bytes :=
  let gap := w - visible width cell
  match a with
  | .left => cell ++ spaces gap
  | .right => spaces gap ++ cell
  | .center => spaces (gap / 2) ++ cell ++ spaces (gap - gap / 2)

def separator (ws : List Nat) : Bytes :=
  Bytes.plus :: ws.flatMap (fun w => List.replicate (w + 2) Bytes.minus ++ [Bytes.plus]) ++
    [Bytes.lineFeed]

/-- The cells of a row, column by column; a column without an alignment takes the default. -/
def cells (fallback : Alignment) : List Nat → List Bytes → List Alignment → Bytes
  | [], _, _ => []
  | w :: ws, row, as =>
    Bytes.space :: pad width (row.headD []) w (as.headD fallback) ++
      Bytes.space :: Bytes.bar :: cells fallback ws row.tail as.tail

def line (fallback : Alignment) (as : List Alignment) (ws : List Nat) (row : List Bytes) : Bytes :=
  Bytes.bar :: cells width fallback ws row as ++ [Bytes.lineFeed]

/-- The lines of a table; a table without columns has none. -/
def lines (t : Table) : List Bytes :=
  let ws := t.columns width
  if ws.isEmpty then []
  else
    let top := match t.header with
      | some h => [separator ws, line width .center t.headerAlignment ws h]
      | none => []
    top ++ [separator ws] ++ t.rows.map (line width .left t.alignment ws) ++ [separator ws]

def renderWith (t : Table) : Bytes :=
  (t.lines width).flatten

def render (t : Table) : Bytes :=
  t.renderWith Width.ofBytes

/-- A table of texts under a header. -/
def text (header : List String) (rows : List (List String)) (alignment : List Alignment := []) :
    String :=
  let t : Table := {
    header := some (header.map Bytes.ofString)
    rows := rows.map (·.map Bytes.ofString)
    alignment }
  t.render.toString?.getD ""

end Table
end Abacus
