import Collate.Event

/-!
Log records: what each event leaves in the log, and the line it is written as.
-/
namespace Collate

inductive Level where
  | error
  | warn
  | info
  | debug
  | trace
deriving DecidableEq, Repr

namespace Level

/-- Greater for more talkative levels. -/
def rank : Level → Nat
  | error => 1
  | warn => 2
  | info => 3
  | debug => 4
  | trace => 5

def label : Level → String
  | error => "ERROR"
  | warn => " WARN"
  | info => " INFO"
  | debug => "DEBUG"
  | trace => "TRACE"

end Level

structure Record where
  level : Level
  /-- The part of the program that a filter names. -/
  target : String
  message : String
  fields : List (String × String)
deriving DecidableEq, Repr

namespace Record

/-- The names a filter can ask for; the message is one of the fields. -/
def fieldNames (r : Record) : List String :=
  "message" :: r.fields.map (·.1)

def line (now : Timestamp) (r : Record) : String :=
  now.logText ++ " " ++ r.level.label ++ " " ++ r.message ++
    String.join (r.fields.map fun (name, value) => " " ++ name ++ "=" ++ value)

end Record

/-- Notices are not logged. -/
def Event.record? : Event → Option Record
  | notice _ _ => none
  | settingsLoaded path =>
    some ⟨.debug, "concat::config", "loaded configuration file", [("path", path.text)]⟩
  | skipped path =>
    some ⟨.trace, "concat::scanner::file_scanner", "skipped", [("path", path.text)]⟩
  | scanFinished root suffix count =>
    some ⟨.debug, "concat::scanner::file_scanner", "scan finished",
      [("root", root.text), ("suffix", Quoted.text suffix), ("count", toString count)]⟩
  | blockAppended header bytes =>
    some ⟨.debug, "concat::concatenator::block_writer", "appended block",
      [("file", header), ("bytes", toString bytes)]⟩
  | concatenated output files bytes =>
    some ⟨.info, "concat", "concatenation complete",
      [("output", output.text), ("files", toString files), ("bytes", toString bytes)]⟩
  | runFailed failure =>
    some ⟨.debug, "concat", "run failed", [("error", failure.diagnostic)]⟩

end Collate
