/-!
The formats a run can present itself in.
-/
namespace Collate

inductive Format where
  | human
  | json
  | plain
deriving DecidableEq, Repr

namespace Format

def name : Format → String
  | human => "human"
  | json => "json"
  | plain => "plain"

def all : List Format :=
  [human, json, plain]

def ofName? (s : String) : Option Format :=
  all.find? (·.name == s)

end Format

end Collate
