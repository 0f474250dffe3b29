import Abacus.Yaml.Atom

/-!
# Values of YAML

A value is an atom, a list, or a map from atoms to values. The keys of a map may be bound to be
texts by the place it stands in.
-/
namespace Abacus
namespace Yaml

inductive Value where
  | atom (a : Atom)
  | list (items : List Value)
  | map (texts : Bool) (entries : List (Atom × Value))
deriving Inhabited

namespace Value

/-- The entries of a map as complaints list them. -/
def spelledEntries (entries : List (Atom × String)) : String :=
  let sorted := entries.mergeSort fun a b => a.1.le b.1
  ", ".intercalate (sorted.map fun e => e.1.spelled ++ ":" ++ e.2)

mutual

/-- A value as complaints spell it. -/
def spelled : Value → String
  | .atom a => a.spelled
  | .list items => "[]interface \x7b\x7d\x7b" ++ ", ".intercalate (spelledAll items) ++ "\x7d"
  | .map texts entries =>
    "map[" ++ (if texts then "string" else "interface \x7b\x7d") ++ "]interface \x7b\x7d\x7b" ++
      spelledEntries (spelledValues entries) ++ "\x7d"

def spelledAll : List Value → List String
  | [] => []
  | v :: vs => v.spelled :: spelledAll vs

def spelledValues : List (Atom × Value) → List (Atom × String)
  | [] => []
  | (k, v) :: entries => (k, v.spelled) :: spelledValues entries

end

end Value
end Yaml
end Abacus
