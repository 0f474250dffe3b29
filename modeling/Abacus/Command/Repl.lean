import Abacus.Backend
import Abacus.Text.Blank

/-!
# The interactive loop

Lines of input are evaluated one by one. Values go to the output after a prompt, failures to the
error stream, and blank lines nowhere. A line that is too long ends the loop.
-/
namespace Abacus

namespace Failure

/-- A failure as shown to a reader. Only a rejected source and a fault have a form of their own. -/
def report : Failure → Bytes
  | .rejected e => e.diagnostic.friendly?.getD (Bytes.ofString e.diagnostic.message)
  | .fault f => Bytes.ofString f.friendly
  | e => Bytes.ofString e.text

end Failure

namespace Repl

def maxLine : Nat := 65536

/-- The lines of a text without their line feeds; a last line need not have one. -/
def rawLines (bs : Bytes) : List Bytes :=
  go [] bs
where
  go (line : Bytes) : Bytes → List Bytes
    | [] => if line.isEmpty then [] else [line.reverse]
    | b :: bs => if b = Bytes.lineFeed then line.reverse :: go [] bs else go (b :: line) bs

/-- A failure as one entry of the error stream. -/
def complaint (colors : Bool) (e : Failure) : Bytes :=
  let text := e.report
  let shown := if text.getLast? = some Bytes.lineFeed then text.dropLast else text
  let s := Style.red
  if colors then
    Bytes.ofString s.opening ++ shown ++ Bytes.ofString s.closing ++ [Bytes.lineFeed]
  else shown ++ [Bytes.lineFeed]

/-- What one line adds to the output and to the error stream. -/
def reply (opts : EvalOptions) (colors : Bool) (line : Bytes) : String × Bytes :=
  let source := Blank.trim line
  if source.isEmpty then ("", [])
  else match evaluate opts source with
    | .ok v => (toString v.toInt ++ "\n", [])
    | .error e => ("", complaint colors e)

/-- A session over all lines: the output, the error stream, and whether a line was too long. -/
def session (opts : EvalOptions) (colors : Bool) : List Bytes → String × Bytes × Bool
  | [] => ("> \n", [], false)
  | line :: lines =>
    if line.length ≥ maxLine then ("> \n", [], true)
    else
      let (out, err) := reply opts colors line
      let (rest, restErr, tooLong) := session opts colors lines
      ("> " ++ out ++ rest, err ++ restErr, tooLong)

end Repl
end Abacus
