import Abacus.Command.Config
import Abacus.Command.Flag

/-!
# The surroundings of a command

What a command can ask for while it runs: variables, files, its input, a clock and a name for the
run. They live in a monad, so that the same commands run on recorded surroundings and on real
ones.

A setting is looked up where it was given last: on the command line, in a variable that is not
empty, in the configuration file, or else as the flag's own value.
-/
namespace Abacus

structure Surroundings (m : Type → Type) where
  lookup : String → m (Option String)
  file? : String → m (Option Bytes)
  input : m Bytes
  /-- The time in nanoseconds. -/
  now : m Int64
  /-- A name for this run. -/
  runId : m String
  colors : Bool

/-- Where settings come from. -/
structure Settings where
  flags : List Flag
  arguments : Arguments
  exported : List (String × String)
  config : Config := []

namespace Settings

/-- The variable that holds a setting. -/
def variableName (name : String) : String :=
  "CALC_" ++ (name.replace "-" "_").toUpper

def get (s : Settings) (name : String) : Setting :=
  match s.arguments.given? name with
  | some v => v
  | none =>
    match s.exported.lookup name with
    | some v => .text v
    | none =>
      match s.config.get? name with
      | some v => v
      | none =>
        match Flag.find? s.flags name with
        | some f => f.default
        | none => .missing

def text (s : Settings) (name : String) : Bytes :=
  (s.get name).asText

def bool (s : Settings) (name : String) : Bool :=
  (s.get name).asBool

def int (s : Settings) (name : String) : Int64 :=
  (s.get name).asInt

/-- Whether a flag was given on the command line. -/
def isGiven (s : Settings) (name : String) : Bool :=
  (s.arguments.given? name).isSome

section

variable {m : Type → Type} [Monad m]

/-- The variables of all settings that are set and not empty. -/
def readVariables (w : Surroundings m) : List Flag → m (List (String × String))
  | [] => return []
  | f :: fs => do
    let rest ← readVariables w fs
    match ← w.lookup (variableName f.name) with
    | some v => return if v.isEmpty then rest else (f.name, v) :: rest
    | none => return rest

end

/-- The kinds of configuration files, by the extension of their names. -/
def configKinds : List String :=
  ["json", "toml", "yaml", "yml", "properties", "props", "prop", "hcl", "tfvars", "dotenv", "env",
    "ini"]

/-- What follows the last point of a file's name. -/
def extension (path : String) : String :=
  let name := path.toList.reverse.takeWhile (· ≠ '/')
  if name.contains '.' then String.ofList (name.takeWhile (· ≠ '.')).reverse else ""

section

variable {m : Type → Type} [Monad m]

/-- Reads the configuration file that is asked for, or else one in a usual place. -/
def readConfig (w : Surroundings m) (usual : List String) (s : Settings) :
    m (Except Bytes Settings) := do
  let path := (Bytes.toString? (s.text "config")).getD ""
  if path.isEmpty then firstOf usual
  else if !configKinds.contains (extension path) then
    return .error (Bytes.ofString ("Unsupported Config Type " ++ Quoted.string (extension path)))
  else
    match ← w.file? path with
    | some content => return withContent content
    | none => return .error (Bytes.ofString ("open " ++ path ++ ": no such file or directory"))
where
  withContent (content : Bytes) : Except Bytes Settings := do
    let text := (Bytes.toString? content).getD (Bytes.toText content)
    return { s with config := ← Config.parse text }
  firstOf : List String → m (Except Bytes Settings)
    | [] => return .ok s
    | path :: paths => do
      match ← w.file? path with
      | some content => return withContent content
      | none => firstOf paths

end
end Settings
end Abacus
