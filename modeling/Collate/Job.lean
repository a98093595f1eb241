import Collate.Concatenation
import Collate.Extension
import Collate.Scan.Basic

/-!
One search for files and what becomes of them. A plan only reports; a concatenation writes the files
that were found before its output was opened.
-/
namespace Collate

structure Job where
  settings : Settings
  root : Path
  /-- As the user wrote it. -/
  extension : String

structure Outcome (α : Type) where
  fileSystem : FileSystem
  events : List Event
  result : Except Failure α

namespace Job

def normalized (job : Job) : Except Failure String :=
  match Extension.normalize job.extension with
  | .ok extension => .ok extension
  | .error _ => .error (.invalidExtension job.extension)

def output (job : Job) : Path :=
  job.settings.outputPath job.root

/-- The output never takes part in its own search. -/
def scan (job : Job) (extension : String) : Scan :=
  .ofSettings extension job.settings.scan (some job.output)

def discover (job : Job) (fs : FileSystem) : Except Failure (List Source) := do
  (job.scan (← job.normalized)).files fs job.root

def report (job : Job) (files : List Source) (progress : Option Progress) (clock : Clock) : Report :=
  .ofRun ((Extension.normalize job.extension).toOption.getD job.extension) job.root job.output files
    progress clock.elapsed clock.now

def searching (job : Job) (extension : String) : Event :=
  .notice .info ("Searching " ++ job.root.text ++ " for ." ++ extension ++ " files")

def skipEvents (job : Job) (fs : FileSystem) (scan : Scan) : List Event :=
  match scan.walkRoot fs job.root with
  | .error _ => []
  | .ok w => (Scan.skipped fs scan.selection w.visits).map .skipped

def foundEvents (job : Job) (scan : Scan) (files : List Source) : List Event :=
  [.scanFinished job.root scan.selection.suffix files.length,
    .notice .debug (Statistics.ofFiles files).summary] ++
  if files.isEmpty then
    [.notice .warning
      ("No ." ++ scan.selection.extension ++ " files found under " ++ job.root.text)]
  else []

/-- What discovery reports. -/
def discoveryEvents (job : Job) (fs : FileSystem) : List Event :=
  match job.normalized with
  | .error _ => []
  | .ok extension =>
    let scan := job.scan extension
    job.searching extension :: job.skipEvents fs scan ++
      match scan.files fs job.root with
      | .error _ => []
      | .ok files => job.foundEvents scan files

def plan (job : Job) (fs : FileSystem) (clock : Clock) : Outcome Report :=
  { fileSystem := fs
    events := job.discoveryEvents fs
    result := (job.discover fs).map fun files => job.report files none clock }

def concatenate (job : Job) (fs : FileSystem) (clock : Clock) : Outcome Report :=
  match job.discover fs with
  | .error f => ⟨fs, job.discoveryEvents fs, .error f⟩
  | .ok files =>
    let written := Concatenation.write fs job.output none files
    { fileSystem := written.fileSystem
      events := job.discoveryEvents fs ++ written.events ++
        match written.result with
        | .ok p => [.concatenated job.output p.filesWritten p.bytesWritten]
        | .error _ => []
      result := written.result.map fun p => job.report files (some p) clock }

end Job

end Collate
