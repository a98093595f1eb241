import Collate.Extension
import Collate.Format
import Collate.Settings

/-!
The settings a command line can carry, and the options and switches that carry them.
-/
namespace Collate

structure Arguments where
  extension : String
  root : Option Path
  outputName : Option String
  config : Option Path
  includeHidden : Bool
  followLinks : Bool
  maxDepth : Option Nat
  format : Format
  verbosity : Nat
  quiet : Bool
  dryRun : Bool
deriving DecidableEq, Repr

def Arguments.overrides (a : Arguments) : Overrides :=
  ⟨a.outputName, a.includeHidden, a.followLinks, a.maxDepth⟩

/-- Options that take a value. -/
inductive Setting where
  | root
  | outputName
  | config
  | maxDepth
  | outputFormat
deriving DecidableEq, Repr

def Setting.label : Setting → String
  | root => "--root <DIR>"
  | outputName => "--output-name <NAME>"
  | config => "--config <CONFIG>"
  | maxDepth => "--max-depth <N>"
  | outputFormat => "--output-format <OUTPUT_FORMAT>"

/-- Options without a value. -/
inductive Switch where
  | includeHidden
  | followLinks
  | verbose
  | quiet
  | dryRun
  | help
  | version
deriving DecidableEq, Repr

def Switch.label : Switch → String
  | includeHidden => "--include-hidden"
  | followLinks => "--follow-links"
  | verbose => "--verbose..."
  | quiet => "--quiet"
  | dryRun => "--dry-run"
  | help => "--help"
  | version => "--version"

inductive Parameter where
  | setting (s : Setting)
  | switch (s : Switch)
deriving DecidableEq, Repr

namespace Parameter

/-- Long names are never abbreviated. -/
def ofLong? : String → Option Parameter
  | "root" => some (.setting .root)
  | "output-name" => some (.setting .outputName)
  | "config" => some (.setting .config)
  | "include-hidden" => some (.switch .includeHidden)
  | "follow-links" => some (.switch .followLinks)
  | "max-depth" => some (.setting .maxDepth)
  | "output-format" => some (.setting .outputFormat)
  | "verbose" => some (.switch .verbose)
  | "quiet" => some (.switch .quiet)
  | "dry-run" => some (.switch .dryRun)
  | "help" => some (.switch .help)
  | "version" => some (.switch .version)
  | _ => none

def ofShort? : Char → Option Parameter
  | 'r' => some (.setting .root)
  | 'c' => some (.setting .config)
  | 'v' => some (.switch .verbose)
  | 'q' => some (.switch .quiet)
  | 'h' => some (.switch .help)
  | 'V' => some (.switch .version)
  | _ => none

end Parameter

def positionalLabel : String := "<EXTENSION>"

/-- Why an argument list gives no `Arguments`. Asking for help or the version counts as a reason. -/
inductive UsageError where
  | help (full : Bool)
  | version
  | nothingGiven
  | unknown (argument : String)
  | missingExtension
  | repeated (label : String)
  | conflict (first second : Switch)
  | missingValue (setting : Setting)
  | unknownFormat (value : String)
  | invalidValue (value label reason : String)
  | unexpectedValue (value : String) (switch : Switch)
  | notText
deriving DecidableEq, Repr

end Collate
