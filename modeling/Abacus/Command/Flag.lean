import Abacus.Command.Setting

/-!
# Flags of a command line

Flags and arguments mix freely. A long flag is `--name value` or `--name=value`, a short one
`-x value`, `-xvalue` or `-x=value`; a switch needs no value, and `--` ends the flags. Values are
checked as they are read, so the first bad argument from the left is the one complained about.
-/
namespace Abacus

namespace Flag

inductive Kind where
  | text
  | switch
  | number
deriving DecidableEq, Inhabited

end Flag

structure Flag where
  name : String
  short : Option Char := none
  kind : Flag.Kind := .text
  initial : String := ""

namespace Flag

/-- How complaints name a flag. -/
def label (f : Flag) : String :=
  match f.short with
  | some c => "-" ++ c.toString ++ ", --" ++ f.name
  | none => "--" ++ f.name

/-- The value that a text gives a flag. -/
def read (f : Flag) (value : String) : Except String Setting :=
  let complain := fun reason =>
    "invalid argument " ++ Quoted.string value ++ " for " ++ Quoted.string f.label ++ " flag: " ++
      reason
  match f.kind with
  | .text => .ok (.text value)
  | .switch =>
    match Numeral.parseBool? value with
    | some b => .ok (.bool b)
    | none => .error (complain (Numeral.boolComplaint value))
  | .number =>
    match Numeral.parseInt value with
    | .ok n => .ok (.int n)
    | .error e => .error (complain (Numeral.intComplaint value e))

def default (f : Flag) : Setting :=
  match f.read f.initial with
  | .ok s => s
  | .error _ => .missing

def find? (flags : List Flag) (name : String) : Option Flag :=
  flags.find? (·.name == name)

def findShort? (flags : List Flag) (c : Char) : Option Flag :=
  flags.find? (·.short == some c)

end Flag

/-- What a command line holds: arguments in order, and the flags given, latest first. -/
structure Arguments where
  positional : List String := []
  given : List (String × Setting) := []

namespace Arguments

def give (a : Arguments) (f : Flag) (value : String) : Except String Arguments := do
  let s ← f.read value
  return { a with given := (f.name, s) :: a.given }

def push (a : Arguments) (s : String) : Arguments :=
  { a with positional := a.positional ++ [s] }

/-- The value of a flag that was given; the last one counts. -/
def given? (a : Arguments) (name : String) : Option Setting :=
  a.given.lookup name

end Arguments

namespace Flag

/-- The name before an equals sign and the text after it, if there is one. -/
def splitAtEquals (cs : List Char) : String × Option String :=
  let name := String.ofList (cs.takeWhile (· ≠ '='))
  match cs.dropWhile (· ≠ '=') with
  | '=' :: value => (name, some (String.ofList value))
  | _ => (name, none)

/-- What reading one argument leaves: whether its value is the next argument. -/
inductive Step where
  | done (a : Arguments)
  | takesNext (f : Flag) (needed : String)

/-- Reads a flag that is written with its name. -/
def readLong (flags : List Flag) (a : Arguments) (arg : String) (body : List Char) :
    Except String Step := do
  if body.head? = some '-' ∨ body.head? = some '=' then throw ("bad flag syntax: " ++ arg)
  let (name, value) := splitAtEquals body
  match find? flags name with
  | none => throw ("unknown flag: --" ++ name)
  | some f =>
    match value with
    | some v => return .done (← a.give f v)
    | none =>
      if f.kind = .switch then return .done (← a.give f "true")
      else return .takesNext f ("flag needs an argument: " ++ arg)

/-- The character whose code point is the first byte of a text. -/
def firstByte (cs : List Char) : Char :=
  match (String.ofList cs).toUTF8.toList with
  | b :: _ => Char.ofNat b.toNat
  | [] => ' '

/-- Reads short flags that stand together. -/
def readShort (flags : List Flag) (a : Arguments) : List Char → Except String Step
  | [] => .ok (.done a)
  | c :: rest =>
    match findShort? flags c with
    | none =>
      .error ("unknown shorthand flag: " ++ Quoted.char (firstByte (c :: rest)) ++ " in -" ++
        String.ofList (c :: rest))
    | some f =>
      match rest with
      | '=' :: v :: vs => do return .done (← a.give f (String.ofList (v :: vs)))
      | _ =>
        if f.kind = .switch then do
          let a ← a.give f "true"
          readShort flags a rest
        else match rest with
          | [] => .ok (.takesNext f ("flag needs an argument: " ++ Quoted.char c ++ " in -" ++
              c.toString))
          | _ => do return .done (← a.give f (String.ofList rest))

/-- Reads one argument that is not the value of a flag. -/
def step (flags : List Flag) (a : Arguments) (arg : String) : Except String Step :=
  match arg.toList with
  | '-' :: '-' :: body => readLong flags a arg body
  | '-' :: c :: cs => readShort flags a (c :: cs)
  | _ => .ok (.done (a.push arg))

/-- Reads all arguments. -/
def parse (flags : List Flag) (a : Arguments) : List String → Except String Arguments
  | [] => .ok a
  | arg :: args =>
    if arg == "--" then .ok { a with positional := a.positional ++ args }
    else do
      match ← step flags a arg with
      | .done a => parse flags a args
      | .takesNext f needed =>
        match args with
        | [] => throw needed
        | value :: args =>
          let a ← a.give f value
          parse flags a args

/-- Whether an argument is a flag whose value is the next argument. -/
def takesValue (flags : List Flag) (arg : String) : Bool :=
  match arg.toList with
  | ['-', c] =>
    c.toNat < 128 && c ≠ '-' && c ≠ '=' && match findShort? flags c with
      | some f => f.kind ≠ .switch
      | none => true
  | '-' :: '-' :: body =>
    !body.contains '=' && match find? flags (String.ofList body) with
      | some f => f.kind ≠ .switch
      | none => true
  | _ => false

/-- The first argument that is neither a flag nor the value of one. The last argument counts as
no value that is missing. -/
def firstArgument? (flags : List Flag) : List String → Option String
  | [] => none
  | arg :: args =>
    if arg == "--" then none
    else if takesValue flags arg then
      match args with
      | _ :: arg :: args => firstArgument? flags (arg :: args)
      | _ => none
    else if arg.isEmpty || arg.toList.head? = some '-' then firstArgument? flags args
    else some arg

/-- Removes the first argument equal to `x` that is neither a flag nor the value of one. -/
def without (flags : List Flag) (x : String) : List String → List String
  | [] => []
  | arg :: args =>
    if arg == "--" then arg :: args
    else if takesValue flags arg then
      match args with
      | value :: args => arg :: value :: without flags x args
      | [] => [arg]
    else if arg == x then args
    else arg :: without flags x args

end Flag
end Abacus
