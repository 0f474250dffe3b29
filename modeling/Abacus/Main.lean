import Abacus.Command.Run

/-!
# The program

Runs the command line in the real surroundings: the process's variables, files, input and clock.
-/
namespace Abacus

def readWhole (s : IO.FS.Stream) : IO Bytes := do
  let mut all := ByteArray.empty
  repeat
    let chunk ← s.read 65536
    if chunk.isEmpty then break
    all := all ++ chunk
  return all.toList

def hexRun (bytes : List UInt8) : String :=
  String.join (bytes.map fun b => Quoted.hexDigits 2 b.toNat)

/-- A random identifier in five groups of hexadecimal digits; six bits mark it as such. -/
def freshId : IO String := do
  let bs := (← IO.getRandomBytes 16).toList.mapIdx fun i b =>
    if i = 6 then b &&& 0x0f ||| 0x40 else if i = 8 then b &&& 0x3f ||| 0x80 else b
  let group := fun start n => hexRun ((bs.drop start).take n)
  return "-".intercalate [group 0 4, group 4 2, group 6 2, group 8 2, group 10 6]

def surroundings : IO (Surroundings IO) := do
  let plain := fun (value : Option String) => value.all (·.isEmpty)
  let colors := (← (← IO.getStdout).isTty) && plain (← IO.getEnv "NO_COLOR") &&
    (← IO.getEnv "TERM") != some "dumb"
  return {
    lookup := fun name => IO.getEnv name
    file? := fun path => do
      try return some (← IO.FS.readBinFile path).toList
      catch _ => return none
    input := do readWhole (← IO.getStdin)
    now := do return Int64.ofNat (← IO.monoNanosNow)
    runId := freshId
    colors }

end Abacus

open Abacus in
def main (args : List String) : IO UInt32 := do
  let w ← surroundings
  let r ← runCommandLine w args
  (← IO.getStdout).putStr r.out
  let err ← IO.getStderr
  err.write ⟨r.err.toArray⟩
  match r.failure with
  | none => return 0
  | some message =>
    let text := if w.colors then
        Bytes.ofString Style.red.opening ++ message ++ Bytes.ofString Style.red.closing
      else message
    err.write ⟨(text ++ [Bytes.lineFeed]).toArray⟩
    return 1
