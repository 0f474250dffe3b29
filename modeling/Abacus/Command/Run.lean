import Abacus.Command.Environment
import Abacus.Command.Repl
import Abacus.Report.Summary

/-!
# The commands

A command line names a command, or else an expression to evaluate. Each command reads its
settings and its expression, and answers with text, or with a structured document where one is
asked for.
-/
namespace Abacus

/-- What a command leaves behind; a failure makes it unsuccessful. -/
structure Output where
  out : String := ""
  err : Bytes := []
  failure : Option Bytes := none

/-- What a command answers: something, or the complaint that ends it. -/
abbrev Reply := Except Bytes

instance : MonadLift (Except Failure) Reply :=
  ⟨fun r => r.mapError Failure.report⟩

namespace Output

def ofReply : Reply String → Output
  | .ok out => { out }
  | .error e => { failure := some e }

def failed (message : String) : Output :=
  { failure := some (Bytes.ofString message) }

end Output

inductive Command where
  | root
  | eval
  | dis
  | check
  | fuzz
  | gen
  | bench
  | repl
  | version
deriving DecidableEq, Inhabited

namespace Command

def name : Command → String
  | .root => "calc"
  | .eval => "eval"
  | .dis => "dis"
  | .check => "check"
  | .fuzz => "fuzz"
  | .gen => "gen"
  | .bench => "bench"
  | .repl => "repl"
  | .version => "version"

def named : List Command :=
  [.eval, .dis, .check, .fuzz, .gen, .bench, .repl, .version]

def commonFlags : List Flag :=
  [{ name := "code", short := some 'c' }, { name := "stdin", kind := .switch, initial := "false" },
    { name := "no-color", kind := .switch, initial := "false" },
    { name := "log-level", initial := "warn" }, { name := "config" }]

def helpFlag : Flag :=
  { name := "help", short := some 'h', kind := .switch, initial := "false" }

def outputFlag : Flag :=
  { name := "output", short := some 'o' }

def backendFlag : Flag :=
  { name := "backend", short := some 'b', initial := "register" }

def modeFlag : Flag :=
  { name := "mode", short := some 'm', initial := "checked" }

def number (name initial : String) : Flag :=
  { name, kind := .number, initial }

def switch (name initial : String) : Flag :=
  { name, kind := .switch, initial }

def ownFlags : Command → List Flag
  | .root => [backendFlag, modeFlag, switch "all" "false", outputFlag]
  | .eval => [backendFlag, modeFlag, switch "all" "false", outputFlag]
  | .dis => [backendFlag, outputFlag]
  | .check => [outputFlag]
  | .fuzz => [number "count" "1000", number "seed" "1", number "workers" "0",
      number "max-depth" "8", switch "division" "true", switch "large" "true", outputFlag]
  | .gen => [number "seed" "1", number "count" "1", number "max-depth" "8",
      switch "division" "false", switch "large" "false"]
  | .bench => [number "iterations" "1000", number "warmup" "100", switch "histogram" "false",
      outputFlag]
  | .repl => [backendFlag, modeFlag]
  | .version => [outputFlag]

def flags (c : Command) : List Flag :=
  c.ownFlags ++ commonFlags

/-- The command that a command line names, and the arguments left for it. -/
def choose (args : List String) : Command × List String :=
  let flags := Command.root.flags
  match Flag.firstArgument? flags args with
  | none => (.root, args)
  | some x =>
    match named.find? (·.name == x) with
    | some c => (c, Flag.without flags x args)
    | none => (.root, args)

/-- Commands take one expression or nothing. -/
def checkArguments (c : Command) (args : List String) : Except String Unit :=
  if [Command.fuzz, .gen, .repl, .version].contains c then
    match args with
    | [] => .ok ()
    | a :: _ =>
      .error ("unknown command " ++ Quoted.string a ++ " for " ++ Quoted.string ("calc " ++ c.name))
  else if args.length > 1 then
    .error ("accepts at most 1 arg(s), received " ++ toString args.length)
  else .ok ()

/-- The output formats; no format is text. -/
def formats : List String :=
  ["", "json", "text", "yaml"]

def format (s : Settings) : Reply String :=
  let name := s.text "output"
  match formats.find? fun f => Bytes.ofString f == name with
  | some f => .ok f
  | none => .error (Bytes.ofString "unknown output format: " ++ name)

def isStructured (format : String) : Bool :=
  format == "json" || format == "yaml"

def write (format : String) (view : Display) (d : Document) : String :=
  if format == "yaml" then d.yaml else d.toJson view

/-- The text of a tree that was read from source. -/
def textOf (e : Expr) : String :=
  e.string?.getD ""

def backend (s : Settings) : Except Failure Backend :=
  Backend.parse (s.text "backend")

def mode (s : Settings) : Except Failure Mode :=
  Mode.parse (s.text "mode")

def read (source : Bytes) : Except Failure Expr :=
  (EvalOptions.read {} source).mapError .rejected

def encode (b : Backend) (e : Expr) : Except Failure Executable :=
  (compile b e).mapError .fault

def runIn (x : Executable) : Mode → Except Failure Int64
  | .checked => x.run.mapError .ofStop
  | .trusted => x.runTrusted.mapError .ofStop

/-- Every backend and mode in turn. -/
def evaluations (e : Expr) : Except Failure (List (Backend × Mode × Except Failure Int64)) := do
  let xs ← Backend.all.mapM (encode · e)
  return xs.flatMap fun x => Mode.all.map fun m => (x.backend, m, runIn x m)

def evaluationTable (colors : Bool) (rs : List (Backend × Mode × Except Failure Int64)) :
    String :=
  let rows := rs.map fun (b, m, r) =>
    [b.name, m.name, match r with
      | .ok v => Style.green.paint colors (toString v.toInt)
      | .error e => Style.red.paint colors e.text]
  Table.text ["BACKEND", "MODE", "RESULT"] rows [.left, .left, .right]

def runEval (s : Settings) (view : Display) (source : Bytes) : Reply String := do
  let f ← format s
  let e ← read source
  if s.bool "all" then
    let rs ← evaluations e
    if isStructured f then
      return write f view
        (.list (rs.map fun (b, m, r) => Document.ofEvaluation (textOf e) b m r))
    else return evaluationTable view.colors rs
  else
    let b ← backend s
    let m ← mode s
    let x ← encode b e
    let v ← runIn x m
    if isStructured f then
      return write f view (Document.ofEvaluation (textOf e) b m (.ok v))
    else return toString v.toInt ++ "\n"

def runDis (s : Settings) (view : Display) (source : Bytes) : Reply String := do
  let f ← format s
  let b ← backend s
  let e ← read source
  let x ← encode b e
  if isStructured f then return write f view (Document.ofProgram x)
  else return x.listing.render (view.colors && !view.muted)

def outcomeText (colors : Bool) (o : Outcome) : String :=
  if o.failure.isSome then Style.yellow.paint colors o.text else o.text

def reportText (colors : Bool) (r : Report) : String :=
  let bold := Style.bold.paint colors
  let rows := r.runs.map fun run =>
    [run.backend.name, run.mode.name, outcomeText colors run.outcome,
      if run.mode = .checked ∧ run.outcome.failure.isNone then toString run.peak else "-"]
  bold "expr:" ++ " " ++ r.expr ++ "\n" ++
    bold "fold:" ++ " " ++ outcomeText colors r.oracle ++ "\n" ++
    bold "sizes (rpn/stack/register):" ++ " " ++ toString r.rpnDepth ++ " / " ++
    toString r.stackSize ++ " / " ++ toString r.registerCount ++ "\n" ++
    Table.text ["BACKEND", "MODE", "RESULT", "PEAK SLOTS"] rows

def runCheck (s : Settings) (view : Display) (source : Bytes) : Output :=
  let report : Reply (String × Report) := do
    let f ← format s
    let e ← read source
    match Abacus.check e with
    | some r => return (f, ← r)
    | none => throw (Bytes.ofString "expression has no text")
  match report with
  | .error e => .ofReply (.error e)
  | .ok (f, r) =>
    let ds := r.discrepancies
    let failure := if ds.isEmpty then none
      else some (Bytes.ofString (listFailures (ds.map (·.text))))
    if isStructured f then { out := write f view (Document.ofReport r), failure }
    else
      let verdict := if ds.isEmpty then Style.green.paint view.colors "ok"
        else Style.red.paint view.colors (toString ds.length ++ " mismatch(es)")
      { out := reportText view.colors r ++ verdict ++ "\n", failure }

def fuzzConfig (s : Settings) : FuzzConfig where
  count := (s.int "count").toInt
  seed := s.int "seed"
  maxDepth := (s.int "max-depth").toInt
  division := s.bool "division"
  large := s.bool "large"

def fuzzText (colors : Bool) (runId : String) (elapsed : Int64) (s : FuzzSummary) : String :=
  let failed := toString s.failed ++ " failed"
  "run " ++ runId ++ ": " ++ toString s.checked ++ " checked, " ++
    Style.green.paint colors (toString s.passed ++ " passed") ++ ", " ++
    (if s.failed > 0 then Style.red.paint colors failed else failed) ++ " in " ++
    Duration.text elapsed ++ "\n" ++
    String.join (s.failures.map fun f =>
      "  #" ++ toString f.index ++ " " ++ f.expr ++ "\n    " ++ Style.red.paint colors f.error ++
        "\n")

def runGen (s : Settings) : String :=
  let g : Generator := { division := s.bool "division", large := s.bool "large" }
  let g := g.withMaxDepth (s.int "max-depth").toInt
  let es := g.exprs Randomness.seeded (s.int "count").toInt.toNat (.ofSeed (s.int "seed"))
  String.join (es.map fun e => textOf e ++ "\n")

def suiteText (colors histogram : Bool) (suite : TimingSuite) : String :=
  let rows := suite.results.map fun m =>
    [m.name, Duration.text m.least, Style.green.paint colors (Duration.text m.median),
      Duration.text m.average, Duration.text (m.percentile 95),
      Duration.text (m.percentile 99), toString m.perSecond]
  let bars := if histogram then suite.results.map fun m =>
      (Histogram.render? colors m.name m.distribution).getD ""
    else []
  Style.bold.paint colors "expr:" ++ " " ++ suite.expr ++ "\n" ++
    Table.text ["NAME", "MIN", "MEDIAN", "AVG", "P95", "P99", "OPS/SEC"] rows
      [.left, .right, .right, .right, .right, .right, .right] ++ String.join bars

def runVersion (s : Settings) (view : Display) : Reply String := do
  let f ← format s
  if isStructured f then return write f view (Document.ofVersion "dev" "unknown" "unknown")
  else return "calc dev (commit unknown, built unknown)\n"

def runRepl (s : Settings) (colors : Bool) (input : Bytes) : Output :=
  match backend s, mode s with
  | .error e, _ => .ofReply (.error e.report)
  | _, .error e => .ofReply (.error e.report)
  | .ok b, .ok m =>
    let (out, err, tooLong) :=
      Repl.session { backend := b.name, mode := m.name } colors (Repl.rawLines input)
    { out, err, failure := if tooLong then some (Bytes.ofString "bufio.Scanner: token too long")
      else none }

def helpText (c : Command) : String :=
  "Usage:\n  " ++ (if c = .root then "calc" else "calc " ++ c.name) ++ " [flags]\n\nFlags:\n" ++
    String.join (c.flags.map fun f => "  " ++ f.label ++ "\n")

section

variable {m : Type → Type} [Monad m]

/-- The expression of a command: from one of the argument, the flag and the input, or else from
the settings. -/
def source (w : Surroundings m) (s : Settings) : m (Except Failure Bytes) := do
  let code := s.isGiven "code"
  let stdin := s.isGiven "stdin" && s.bool "stdin"
  let args := s.arguments.positional
  if [code, stdin, !args.isEmpty].count true > 1 then
    return .error (.words "multiple input sources specified")
  else if stdin then return .ok (Blank.trim (← w.input))
  else match args with
    | a :: _ => return .ok (Bytes.ofString a)
    | [] =>
      let text := s.text "code"
      if code || !text.isEmpty then return .ok text
      else return .error (.words "no input provided")

def runFuzz (w : Surroundings m) (s : Settings) (view : Display) : m Output := do
  match format s with
  | .error e => return .ofReply (.error e)
  | .ok f =>
    let runId ← w.runId
    let start ← w.now
    let summary := Abacus.fuzz (fuzzConfig s)
    let stop ← w.now
    let elapsed := stop - start
    let failure := if summary.ok then none
      else some (Bytes.ofString ("fuzz run " ++ runId ++ " failed"))
    let out := if isStructured f then write f view (Document.ofFuzz runId elapsed summary)
      else fuzzText view.colors runId elapsed summary
    return { out, failure }

def runBench (w : Surroundings m) (s : Settings) (view : Display) (source : Bytes) :
    m Output := do
  let request : Reply (String × Expr) := do
    let f ← format s
    return (f, ← read source)
  match request with
  | .error e => return .ofReply (.error e)
  | .ok (f, e) =>
    let c : TimingConfig := ⟨(s.int "iterations").toInt, (s.int "warmup").toInt⟩
    match ← timeSuite w.now c e with
    | none => return .failed "expression has no text"
    | some (.error e) => return .ofReply (.error e.report)
    | some (.ok suite) =>
      let runId ← w.runId
      let out := if isStructured f then write f view (Document.ofSuite runId suite)
        else suiteText view.colors (s.bool "histogram") suite
      return { out }

/-- A command on its expression. -/
def onSource (w : Surroundings m) (s : Settings) (run : Bytes → m Output) : m Output := do
  match ← source w s with
  | .error e => return .ofReply (.error e.report)
  | .ok bs => run bs

def run (w : Surroundings m) (s : Settings) (view : Display) : Command → m Output
  | .root => onSource w s fun bs => return .ofReply (runEval s view bs)
  | .eval => onSource w s fun bs => return .ofReply (runEval s view bs)
  | .dis => onSource w s fun bs => return .ofReply (runDis s view bs)
  | .check => onSource w s fun bs => return runCheck s view bs
  | .fuzz => runFuzz w s view
  | .gen => return { out := runGen s }
  | .bench => onSource w s (runBench w s view)
  | .repl => return runRepl s view.colors (← w.input)
  | .version => return .ofReply (runVersion s view)

end

/-- Where a configuration file is looked for when none is named. -/
def usualConfigs (home : Option String) : List String :=
  "./calc.yaml" :: match home with
    | some h => [h ++ "/.config/calc/calc.yaml"]
    | none => []

end Command

/-- Carries out a command line. Arguments are checked before any file is read. -/
def runCommandLine {m : Type → Type} [Monad m] (w : Surroundings m) (args : List String) :
    m Output := do
  let (c, args) := Command.choose args
  match Flag.parse (Command.helpFlag :: c.flags) {} args with
  | .error e => return .failed e
  | .ok a =>
    if (a.given? "help").any (·.asBool) then return { out := c.helpText }
    match c.checkArguments a.positional with
    | .error e => return .failed e
    | .ok () =>
      let exported ← Settings.readVariables w c.flags
      let home ← w.lookup "HOME"
      match ← Settings.readConfig w (Command.usualConfigs home)
          { flags := c.flags, arguments := a, exported } with
      | .error e => return { failure := some e }
      | .ok s =>
        let muted := ((← w.lookup "NO_COLOR").getD "").isEmpty = false
        Command.run w s ⟨w.colors && !s.bool "no-color", muted⟩ c

end Abacus
