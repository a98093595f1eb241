import Collate.Arguments.Message
import Collate.Arguments.Reader
import Collate.Job
import Collate.Log.Filter
import Collate.Settings.Load

/-!
A whole run, from its arguments to its exit status. What is done does not depend on how it is shown:
the work gives events and a result, and only their lines depend on the console and the log filter.
-/
namespace Collate

/-- What a run finds around it. -/
structure Surroundings where
  fileSystem : FileSystem
  /-- The filter for the log, if the user set one. -/
  logFilter : Option String
  terminal : Bool
  clock : Clock

structure Execution where
  exitCode : Nat
  fileSystem : FileSystem
  lines : List Line

namespace Event

def lines (console : Console) (filter : LogFilter) (now : Timestamp) : Event → List Line
  | notice severity message => console.notice now severity message
  | event =>
    match event.record? with
    | some r => if filter.allows r then [⟨.err, r.line now⟩] else []
    | none => []

end Event

/-- How a run shows itself. -/
structure View where
  console : Console
  filter : LogFilter
  now : Timestamp

namespace View

def «show» (v : View) (events : List Event) : List Line :=
  events.flatMap (·.lines v.console v.filter v.now)

end View

namespace Arguments

/-- Without a root of the user's it is the current directory. -/
def rootPath (a : Arguments) (fs : FileSystem) : Path :=
  a.root.getD fs.cwd.path

def job (a : Arguments) (fs : FileSystem) (settings : Settings) : Job :=
  ⟨settings, a.rootPath fs, a.extension⟩

def perform (a : Arguments) (job : Job) (fs : FileSystem) (clock : Clock) : Outcome Report :=
  if a.dryRun then job.plan fs clock else job.concatenate fs clock

end Arguments

namespace Run

def view (s : Surroundings) (a : Arguments) : View :=
  { console := .ofSettings a.format a.verbosity a.quiet s.terminal
    filter := .choose s.logFilter a.verbosity a.quiet
    now := s.clock.now }

/-- Until the settings are known, failures are shown for people. -/
def earlyConsole (s : Surroundings) : Console :=
  .ofSettings .human 0 false s.terminal

def execute (s : Surroundings) (a : Arguments) : Execution :=
  let v := view s a
  let loading := v.show (Settings.loadEvents s.fileSystem a)
  match Settings.load s.fileSystem a with
  | .error f =>
    ⟨f.exitCode, s.fileSystem, loading ++ (earlyConsole s).failure s.clock.now f⟩
  | .ok settings =>
    let done := a.perform (a.job s.fileSystem settings) s.fileSystem s.clock
    let working := loading ++ v.show done.events
    match done.result with
    | .ok report => ⟨0, done.fileSystem, working ++ v.console.report v.now report⟩
    | .error f =>
      ⟨f.exitCode, done.fileSystem,
        working ++ v.show [.runFailed f] ++ v.console.failure v.now f⟩

end Run

/-- A run that has ended, with all it printed. -/
structure Completion where
  exitCode : Nat
  fileSystem : FileSystem
  stdout : String
  stderr : String

namespace Run

/-- A run with these arguments, the program's name not among them. -/
def run (s : Surroundings) (arguments : List Bytes) : Completion :=
  match Arguments.read arguments with
  | .error e => ⟨e.exitCode, s.fileSystem, e.printed, ""⟩
  | .ok a =>
    let x := execute s a
    ⟨x.exitCode, x.fileSystem, Line.textOn .out x.lines, Line.textOn .err x.lines⟩

end Run

end Collate
