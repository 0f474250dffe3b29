import Abacus.Fuzz
import Abacus.Report.Document
import Abacus.Timing

/-!
# Documents of results

The records in which results are written, field by field. A field that has nothing to say is left
out.
-/
namespace Abacus
namespace Document

/-- A field that is left out where there is nothing in it. -/
def optional (name : String) (s : String) : List (String × Document) :=
  if s.isEmpty then [] else [(name, .string s)]

def ofEvaluation (expr : String) (b : Backend) (m : Mode) (r : Except Failure Int64) :
    Document :=
  .record <| [("expr", .string expr), ("backend", .string b.name), ("mode", .string m.name)] ++
    match r with
    | .ok v => [("value", int v.toInt)]
    | .error e => optional "error" e.text

def ofStats (s : Stats) : Document :=
  .record [("instructions", int s.instructions), ("constants", int s.constants),
    ("inline_literals", int s.inlineLiterals), ("pool_literals", int s.poolLiterals),
    ("storage_size", int s.storageSize)]

def ofLine (l : ListingLine) : Document :=
  .record <| [("offset", int l.offset), ("name", .string l.name)] ++
    (if l.operands.isEmpty then [] else [("operands", .list (l.operands.map .string))]) ++
    optional "annotation" l.annotation.text

def ofProgram (x : Executable) : Document :=
  .record [("backend", .string x.backend.name), ("instructions", .list (x.listing.map ofLine)),
    ("stats", ofStats x.stats)]

def ofOutcome (o : Outcome) : Document :=
  .record <| ("value", int o.value.toInt) :: optional "error" o.message

def ofRun (r : RunReport) : Document :=
  .record <| [("backend", .string r.backend.name), ("mode", .string r.mode.name),
    ("outcome", ofOutcome r.outcome)] ++ if r.peak = 0 then [] else [("peak_slots", int r.peak)]

def ofReport (r : Report) : Document :=
  .record [("expr", .string r.expr), ("oracle", ofOutcome r.oracle),
    ("wrapping", ofOutcome r.wrapping), ("runs", .list (r.runs.map ofRun)),
    ("rpn_depth", int r.rpnDepth), ("stack_size", int r.stackSize),
    ("register_count", int r.registerCount)]

def ofFuzzFailure (f : FuzzFailure) : Document :=
  .record [("index", int f.index), ("expr", .string f.expr), ("error", .string f.error)]

def ofFuzz (runId : String) (elapsed : Int64) (s : FuzzSummary) : Document :=
  .record <| [("run_id", .string runId), ("seed", int s.seed.toInt), ("checked", int s.checked),
    ("passed", int s.passed), ("failed", int s.failed)] ++
    (if s.failures.isEmpty then [] else [("failures", .list (s.failures.map ofFuzzFailure))]) ++
    [("duration", .plain (toString elapsed.toInt) (Duration.text elapsed))]

def ofBucket (b : Bucket) : Document :=
  .record [("lower_ns", int b.lower.toInt), ("upper_ns", int b.upper.toInt),
    ("count", int b.count)]

def ofMeasurement (m : Measurement) : Document :=
  .record [("name", .string m.name), ("iterations", int m.iterations),
    ("warmup", int m.warmup), ("total_ns", int m.total.toInt),
    ("total_duration", .string (Duration.text (Duration.toMicroseconds m.total))),
    ("ops_per_sec", int m.perSecond),
    ("min_ns", int m.least.toInt), ("max_ns", int m.greatest.toInt),
    ("avg_ns", int m.average.toInt), ("median_ns", int m.median.toInt),
    ("p95_ns", int (m.percentile 95).toInt), ("p99_ns", int (m.percentile 99).toInt),
    ("distribution", .list (m.distribution.map ofBucket))]

def ofSuite (runId : String) (s : TimingSuite) : Document :=
  .record [("run_id", .string runId), ("expr", .string s.expr),
    ("results", .list (s.results.map ofMeasurement))]

def ofVersion (version commit date : String) : Document :=
  .record [("commit", .string commit), ("date", .string date), ("version", .string version)]

end Document
end Abacus
