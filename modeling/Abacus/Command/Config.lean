import Abacus.Command.Setting
import Abacus.Yaml.Decoding

/-!
# Configuration files

A configuration file is a YAML document whose entries are settings. Names do not depend on case;
of two that differ in nothing else, the one with a capital counts. An entry without a value sets
nothing.
-/
namespace Abacus

/-- The entries of a file, by their names in small letters. The first of a name counts. -/
abbrev Config := List (String × Option Setting)

namespace Config

def get? (c : Config) (name : String) : Option Setting :=
  (c.lookup name).join

/-- Two letters beyond ASCII have a small form in it. -/
def lower (c : Char) : Char :=
  if c.toNat = 0x130 then 'i' else if c.toNat = 0x212a then 'k' else c.toLower

def setting? : Yaml.Value → Option Setting
  | .atom .null => none
  | .atom (.bool b) => some (.bool b)
  | .atom (.int n) => some (.int n)
  | .atom (.word n) => some (.word n)
  | .atom (.float x) => some (.float x)
  | .atom (.text s) => some (.text s)
  | .atom (.data bs) => some (.data bs)
  | .atom (.time t) => some (.shown t.text)
  | .list _ => some (.shown "")
  | .map _ _ => some (.shown "")

/-- The settings of a file, or the complaint about it. -/
def parse (content : String) : Except Bytes Config :=
  match Yaml.entries content with
  | .ok entries =>
    let (small, capital) := entries.partition fun e => e.1.toList.all fun c => lower c = c
    .ok ((capital ++ small).map fun e => (String.ofList (e.1.toList.map lower), setting? e.2))
  | .error e => .error (Bytes.ofString "While parsing config: " ++ e.message)

end Config
end Abacus
