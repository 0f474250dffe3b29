import Abacus.Backend
import Abacus.Expr.Printer
import Abacus.Expr.Value
import Abacus.Text.Duration

/-!
# Timing runs

An action is called once to see that it works, then a number of times without and a number of
times with the clock. The clock belongs to the monad that the action runs in. Durations are words
of nanoseconds, and their distribution is counted in ten buckets of equal width.
-/
namespace Abacus

structure Bucket where
  lower : Int64
  upper : Int64
  count : Int
deriving DecidableEq, Inhabited

namespace Histogram

def bucketCount : Nat := 10

/-- The width of a bucket, at least one nanosecond. -/
def width (least greatest : Int64) : Int64 :=
  let w := (greatest - least) / 10
  if w = 0 then 1 else w

/-- The bucket of a duration; the last one also takes what lies above it. -/
def index (least w d : Int64) : Int64 :=
  let i := (d - least) / w
  if i < 10 then i else 9

/-- The distribution of durations in ascending order. There is none without durations, nor where
differences leave the range of words and a duration falls below the first bucket. -/
def ofDurations? (ds : List Int64) : Option (List Bucket) :=
  match ds with
  | [] => none
  | least :: _ =>
    let w := width least (ds.getLastD least)
    let is := ds.map (index least w)
    if is.any (· < 0) then none
    else
      some <| (List.range bucketCount).map fun i =>
        let lower := least + Int64.ofNat i * w
        ⟨lower, lower + w, is.count (Int64.ofNat i)⟩

def barWidth : Nat := 30

/-- The bar of a bucket. Its length is computed in words, where a huge count wraps; one that is
longer than the scale, or negative, cannot be drawn. -/
def bar? (greatest count : Int) : Option String :=
  let n := if greatest > 0 then ((count * barWidth).bmod UInt64.size).tdiv greatest else 0
  if n < 0 ∨ n > barWidth then none
  else
    some (String.ofList (List.replicate n.toNat '█' ++ List.replicate (barWidth - n.toNat) '░'))

def padLeft (n : Nat) (s : String) : String :=
  String.ofList (List.replicate (n - s.length) ' ') ++ s

def line? (colors : Bool) (greatest : Int) (b : Bucket) : Option String := do
  let bar ← bar? greatest b.count
  return padLeft 8 (Duration.text b.lower) ++ "-" ++ padLeft 8 (Duration.text b.upper) ++ " " ++
    Style.green.paint colors bar ++ " " ++ toString b.count ++ "\n"

/-- A named distribution, one bar a bucket. -/
def render? (colors : Bool) (name : String) (bs : List Bucket) : Option String := do
  let greatest := bs.foldl (fun n b => max n b.count) 0
  let lines ← bs.mapM (line? colors greatest)
  return "\n" ++ Style.bold.paint colors name ++ "\n" ++ String.join lines

end Histogram

structure TimingConfig where
  iterations : Int := 1000
  warmup : Int := 100
deriving DecidableEq, Inhabited

namespace TimingConfig

/-- At least one timed call is made, and a negative warmup stands for the usual one. -/
def normalize (c : TimingConfig) : TimingConfig where
  iterations := if c.iterations ≤ 0 then 1000 else c.iterations
  warmup := if c.warmup < 0 then 100 else c.warmup

end TimingConfig

structure Measurement where
  name : String
  iterations : Int
  warmup : Int
  total : Int64
  /-- The durations in ascending order. -/
  durations : List Int64
  distribution : List Bucket

namespace Measurement

/-- The duration at a rank given in hundredths. -/
def percentile (m : Measurement) (hundredths : Nat) : Int64 :=
  m.durations.getD (m.durations.length * hundredths / 100) 0

def least (m : Measurement) : Int64 := m.durations.headD 0

def greatest (m : Measurement) : Int64 := m.durations.getLastD 0

def median (m : Measurement) : Int64 := m.durations.getD (m.durations.length / 2) 0

def average (m : Measurement) : Int64 := m.total / Int64.ofNat m.durations.length

/-- Calls in a second, rounded to the nearest number. -/
def perSecond (m : Measurement) : Nat :=
  let t := m.total.toInt.toNat
  if t = 0 then 0 else (m.durations.length * 1000000000 + t / 2) / t

end Measurement

section

variable {m : Type → Type} [Monad m]

/-- Calls an action a number of times and collects what it gives. -/
def collect {α : Type} (act : m α) : Nat → m (List α)
  | 0 => return []
  | n + 1 => do
    let a ← act
    let rest ← collect act n
    return a :: rest

/-- Measures an action that may fail. Only a failure of its first call counts. -/
def measure (now : m Int64) (c : TimingConfig) (name : String)
    (act : Unit → m (Option Failure)) :
    m (Except Failure Measurement) := do
  let c := c.normalize
  match ← act () with
  | some e => return .error (.within name e)
  | none =>
    let _ ← collect (act ()) c.warmup.toNat
    let timed : m Int64 := do
      let start ← now
      let _ ← act ()
      let stop ← now
      return stop - start
    let ds ← collect timed c.iterations.toNat
    let sorted := ds.mergeSort (· ≤ ·)
    return .ok {
      name, iterations := sorted.length, warmup := c.warmup, total := ds.foldl (· + ·) 0
      durations := sorted, distribution := (Histogram.ofDurations? sorted).getD [] }

structure TimingSuite where
  expr : String
  results : List Measurement

def failureOf {α : Type} : Except Failure α → Option Failure
  | .ok _ => none
  | .error e => some e

/-- Measures the two runs of each backend in turn. -/
def measureBackends (now : m Int64) (c : TimingConfig) (e : Expr) :
    List Backend → m (Except Failure (List Measurement))
  | [] => return .ok []
  | b :: bs => do
    match compile b e with
    | .error f => return .error (.fault f)
    | .ok x =>
      match ← measure now c (b.name ++ "/checked")
          (fun _ => pure (failureOf (x.run.mapError .ofStop))) with
      | .error e => return .error e
      | .ok checked =>
        match ← measure now c (b.name ++ "/trusted")
            (fun _ => pure (failureOf (x.runTrusted.mapError .ofStop))) with
        | .error e => return .error e
        | .ok trusted =>
          match ← measureBackends now c e bs with
          | .error e => return .error e
          | .ok rest => return .ok (checked :: trusted :: rest)

/-- Measures the direct evaluation of a tree and then its six runs. A tree that has no text, other
than one that is missing altogether, has no suite. -/
def timeSuite (now : m Int64) (c : TimingConfig) (e : Expr) :
    m (Option (Except Failure TimingSuite)) :=
  match e, e.string? with
  | .hole .node, _ => return some (.error (.words "nil expression"))
  | _, none => return none
  | e, some expr => do
    match ← measure now c "fold" (fun _ => pure (failureOf (e.eval.mapError .fault))) with
    | .error f => return some (.error f)
    | .ok fold =>
      match ← measureBackends now c e Backend.all with
      | .error f => return some (.error f)
      | .ok rest => return some (.ok ⟨expr, fold :: rest⟩)

end
end Abacus
