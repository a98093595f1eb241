import Collate.Path

/-!
Settings of a run. What the command line sets wins over what a settings file sets, and only the result
of that is validated.
-/
namespace Collate

structure ScanSettings where
  includeHidden : Bool
  followLinks : Bool
  maxDepth : Option Nat
deriving DecidableEq, Repr

structure Settings where
  scan : ScanSettings
  outputName : String
deriving DecidableEq, Repr

structure Overrides where
  outputName : Option String
  includeHidden : Bool
  followLinks : Bool
  maxDepth : Option Nat
deriving DecidableEq, Repr

namespace Settings

def defaultOutputName : String := "concat.txt"

def default : Settings :=
  ⟨⟨false, false, none⟩, defaultOutputName⟩

def merge (s : Settings) (o : Overrides) : Settings :=
  { scan :=
      { includeHidden := s.scan.includeHidden || o.includeHidden
        followLinks := s.scan.followLinks || o.followLinks
        maxDepth := o.maxDepth.or s.scan.maxDepth }
    outputName := o.outputName.getD s.outputName }

inductive Invalid where
  | emptyName
  | notPlain (name : String)
  | zeroDepth
deriving DecidableEq, Repr

def Invalid.message : Invalid → String
  | .emptyName => "Output file name must not be empty"
  | .notPlain name => "Output file name must be a plain file name: " ++ name
  | .zeroDepth => "Maximum directory depth must be greater than 0"

/-- The output lies in the root itself, so its name is one plain component. -/
def validate (s : Settings) : Except Invalid Unit :=
  if s.outputName.isEmpty then .error .emptyName
  else if !(Path.isPlainName (Utf8.encode s.outputName)) then .error (.notPlain s.outputName)
  else if s.scan.maxDepth = some 0 then .error .zeroDepth
  else .ok ()

def outputPath (s : Settings) (root : Path) : Path :=
  root.join (Utf8.encode s.outputName)

end Settings

end Collate
