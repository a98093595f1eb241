import Collate.Json
import Collate.Progress
import Collate.Source

/-!
The outcome of a run, for people and as JSON.
-/
namespace Collate

structure Report where
  extension : String
  root : Path
  output : Path
  dryRun : Bool
  /-- Path as displayed and size of each file, in order. -/
  files : List (String × Nat)
  totalFiles : Nat
  totalSourceBytes : Nat
  bytesWritten : Nat
  duration : Duration
  completedAt : Timestamp
deriving DecidableEq, Repr

namespace Report

/-- Without progress nothing was written: the report of a dry run. -/
def ofRun (extension : String) (root output : Path) (files : List Source)
    (progress : Option Progress) (duration : Duration) (completedAt : Timestamp) : Report :=
  { extension, root, output, duration, completedAt
    dryRun := progress.isNone
    files := files.map fun f => (f.display, f.size)
    totalFiles := files.length
    totalSourceBytes := Source.totalSize files
    bytesWritten := (progress.map (·.bytesWritten)).getD 0 }

def completionMessage (r : Report) : String :=
  "All ." ++ r.extension ++ " files have been concatenated into '" ++ r.output.text ++ "'"

def planMessage (r : Report) : String :=
  toString r.totalFiles ++ " file(s) would be concatenated into '" ++ r.output.text ++ "'"

/-- Only a path that is text can be written in JSON. -/
def toJson? (r : Report) : Option Json := do
  let root ← Utf8.decode? r.root
  let output ← Utf8.decode? r.output
  some <| .object [
    ("extension", .string r.extension),
    ("root", .string root),
    ("output_path", .string output),
    ("dry_run", .bool r.dryRun),
    ("files", .array (r.files.map fun (path, size) =>
      .object [("path", .string path), ("size", .number size)])),
    ("total_files", .number r.totalFiles),
    ("total_source_bytes", .number r.totalSourceBytes),
    ("bytes_written", .number r.bytesWritten),
    ("duration", .object [
      ("secs", .number r.duration.seconds), ("nanos", .number r.duration.nanos)]),
    ("completed_at", .string r.completedAt.text)]

def jsonText (r : Report) : String :=
  match r.toJson? with
  | some json => json.pretty 0
  | none => "\x7b\x7d"

/-- Labels and values of the summary of a finished run. -/
def summaryRows (r : Report) : List (String × String) :=
  [("Files concatenated", toString r.totalFiles),
    ("Source size", Size.text r.totalSourceBytes),
    ("Output size", Size.text r.bytesWritten),
    ("Time taken", r.duration.text)]

end Report

end Collate
