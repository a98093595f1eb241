import Collate.Run

/-!
A job that shows itself while it works: it prints its lines as they come up, moves a bar before each source and
ends the bar in every case. What it does and what it prints are those of the job and of the
events that it reports.
-/
namespace Collate

/-- What people have of a job that works: the lines so far and a bar. -/
structure Screen where
  lines : List Line
  bar : Bar
deriving DecidableEq, Repr

def Bar.abandon (b : Bar) : Bar :=
  { b with finished := true }

namespace Screen

def blank : Screen :=
  ⟨[], Bar.start false 0⟩

def advance (screen : Screen) (p : Progress) : Screen :=
  { screen with bar := screen.bar.show p }

def abandon (screen : Screen) : Screen :=
  { screen with bar := screen.bar.abandon }

end Screen

/-- A job and the way it shows itself. -/
structure Session where
  job : Job
  view : View
  clock : Clock
  /-- For so long the output was written. -/
  took : Duration

structure Performance where
  screen : Screen
  fileSystem : FileSystem
  result : Except Failure Report

namespace Session

def hasBar (s : Session) : Bool :=
  !s.view.console.quiet && s.view.console.format == .human

def tell (s : Session) (screen : Screen) (events : List Event) : Screen :=
  { screen with lines := screen.lines ++ s.view.show events }

def discover (s : Session) (fs : FileSystem) (screen : Screen) :
    Screen × Except Failure (List Source) :=
  match s.job.normalized with
  | .error f => (screen, .error f)
  | .ok extension =>
    let scan := s.job.scan extension
    let screen := s.tell screen (s.job.searching extension :: s.job.skipEvents fs scan)
    match scan.files fs s.job.root with
    | .error f => (screen, .error f)
    | .ok files => (s.tell screen (s.job.foundEvents scan files), .ok files)

/-- The bar moves before a source is read, and its line is printed once its block has been taken. -/
def writeFrom (s : Session) :
    FileSystem → Sink → Progress → List Source → Screen →
      Screen × FileSystem × Except Failure Progress
  | fs, sink, p, [], screen =>
    match sink.flush fs with
    | (fs, _, none) => (screen.advance p, fs, .ok p)
    | (fs, _, some refusal) => (screen, fs, .error (.unwritable s.job.output (.refused refusal)))
  | fs, sink, p, source :: rest, screen =>
    let screen := screen.advance p
    match fs.readText source.path with
    | .error fault => (screen, (sink.flush fs).1, .error (.ofRead source.path fault))
    | .ok contents =>
      let block : Block := ⟨source.display, contents⟩
      match sink.pushAll fs block.pieces with
      | (fs, sink, some refusal) =>
        (screen, (sink.flush fs).1, .error (.unwritable s.job.output (.refused refusal)))
      | (fs, sink, none) =>
        s.writeFrom fs sink (p.advance block.header block.size) rest
          (s.tell screen [.blockAppended block.header block.size])

def write (s : Session) (fs : FileSystem) (files : List Source) (screen : Screen) :
    Screen × FileSystem × Except Failure Progress :=
  match fs.create s.job.output with
  | .error fault => (screen, fs, .error (.unwritable s.job.output fault))
  | .ok (fs, handle) =>
    s.writeFrom fs ⟨handle, Sink.defaultCapacity, []⟩ (Progress.start files.length) files screen

def plan (s : Session) (fs : FileSystem) (screen : Screen) : Performance :=
  match s.discover fs screen with
  | (screen, .error f) => ⟨screen, fs, .error f⟩
  | (screen, .ok files) => ⟨screen, fs, .ok (s.job.report files none s.clock)⟩

def concatenate (s : Session) (fs : FileSystem) (screen : Screen) : Performance :=
  match s.discover fs screen with
  | (screen, .error f) => ⟨screen, fs, .error f⟩
  | (screen, .ok files) =>
    match s.write fs files { screen with bar := Bar.start s.hasBar files.length } with
    | (screen, fs, .error f) => ⟨screen.abandon, fs, .error f⟩
    | (screen, fs, .ok p) =>
      let summary := "Concatenated " ++ toString p.filesWritten ++ " files"
      let screen := { screen with bar := screen.bar.finish summary s.took }
      ⟨s.tell screen [.concatenated s.job.output p.filesWritten p.bytesWritten], fs,
        .ok (s.job.report files (some p) s.clock)⟩

/-- A dry run only plans. -/
def perform (s : Session) (dryRun : Bool) (fs : FileSystem) (screen : Screen) : Performance :=
  if dryRun then s.plan fs screen else s.concatenate fs screen

end Session

namespace View

variable (v : View)

@[simp]
theorem show_nil : v.show [] = [] :=
  rfl

theorem show_append (a b : List Event) : v.show (a ++ b) = v.show a ++ v.show b := by
  simp [View.show]

theorem show_cons (e : Event) (events : List Event) : v.show (e :: events) = v.show [e] ++ v.show events :=
  v.show_append [e] events

end View

namespace Session

variable (s : Session) (fs : FileSystem) (screen : Screen)

/-- A session discovers what its job does, and prints what the job reports of that. -/
theorem discover_eq :
    s.discover fs screen = (s.tell screen (s.job.discoveryEvents fs), s.job.discover fs) := by
  cases hext : s.job.normalized with
  | error f => simp [discover, Job.discoveryEvents, Job.discover, hext, tell, bind, Except.bind]
  | ok extension =>
      cases hfiles : (s.job.scan extension).files fs s.job.root <;>
        simp [discover, Job.discoveryEvents, Job.discover, hext, hfiles, tell, ← View.show_append, bind,
          Except.bind]

/-- The loop of a session is that of its job: the bar follows the progress that the loop shows, the lines are
those of its events. -/
theorem writeFrom_eq (sink : Sink) (p : Progress) (sources : List Source) :
    s.writeFrom fs sink p sources screen =
      let done := Concatenation.writeFrom s.job.output fs sink p sources
      (⟨screen.lines ++ s.view.show done.events, done.seen.foldl Bar.show screen.bar⟩,
        done.fileSystem, done.result) := by
  induction sources generalizing fs sink p screen with
  | nil =>
      obtain ⟨next, t, refusal, hflush⟩ : ∃ next t refusal, sink.flush fs = (next, t, refusal) :=
        ⟨_, _, _, rfl⟩
      cases refusal <;>
        simp [writeFrom, Concatenation.writeFrom, hflush, Screen.advance, Concatenation.failed]
  | cons source rest ih =>
      cases hread : fs.readText source.path with
      | error fault =>
          simp [writeFrom, Concatenation.writeFrom, hread, Screen.advance, Concatenation.abandoned,
            Concatenation.failed]
      | ok contents =>
          obtain ⟨mid, t, refusal, hpush⟩ : ∃ mid t refusal,
              sink.pushAll fs (Block.pieces ⟨source.display, contents⟩) = (mid, t, refusal) :=
            ⟨_, _, _, rfl⟩
          cases refusal with
          | some refusal =>
              simp [writeFrom, Concatenation.writeFrom, hread, hpush, Screen.advance,
                Concatenation.abandoned, Concatenation.failed]
          | none =>
              simp only [writeFrom, Concatenation.writeFrom, hread, hpush, ih]
              rw [View.show_cons, List.foldl_cons, ← List.append_assoc]
              rfl

theorem write_eq (files : List Source) :
    s.write fs files screen =
      let done := Concatenation.write fs s.job.output none files
      (⟨screen.lines ++ s.view.show done.events, done.seen.foldl Bar.show screen.bar⟩,
        done.fileSystem, done.result) := by
  cases hcreate : fs.create s.job.output with
  | error fault => simp [write, Concatenation.write, hcreate, Concatenation.failed]
  | ok opened =>
      obtain ⟨next, handle⟩ := opened
      simp only [write, Concatenation.write, hcreate, writeFrom_eq]
      rfl

theorem plan_eq :
    (s.plan fs screen).fileSystem = (s.job.plan fs s.clock).fileSystem ∧
      (s.plan fs screen).result = (s.job.plan fs s.clock).result ∧
      (s.plan fs screen).screen.lines =
        screen.lines ++ s.view.show (s.job.plan fs s.clock).events := by
  cases hfiles : s.job.discover fs <;>
    simp [plan, discover_eq, hfiles, Job.plan, Except.map, tell]

/-- A session that concatenates does what its job does, and prints the lines of what the job reports. -/
theorem concatenate_eq :
    (s.concatenate fs screen).fileSystem = (s.job.concatenate fs s.clock).fileSystem ∧
      (s.concatenate fs screen).result = (s.job.concatenate fs s.clock).result ∧
      (s.concatenate fs screen).screen.lines =
        screen.lines ++ s.view.show (s.job.concatenate fs s.clock).events := by
  cases hfiles : s.job.discover fs with
  | error f => simp [concatenate, discover_eq, hfiles, Job.concatenate, tell]
  | ok files =>
      cases hresult : (Concatenation.write fs s.job.output none files).result <;>
        simp [concatenate, discover_eq, hfiles, write_eq, hresult, Job.concatenate, Except.map, tell,
          Screen.abandon, View.show_append]

theorem perform_eq (a : Arguments) :
    (s.perform a.dryRun fs screen).fileSystem = (a.perform s.job fs s.clock).fileSystem ∧
      (s.perform a.dryRun fs screen).result = (a.perform s.job fs s.clock).result ∧
      (s.perform a.dryRun fs screen).screen.lines =
        screen.lines ++ s.view.show (a.perform s.job fs s.clock).events := by
  cases hdry : a.dryRun with
  | true => simpa [perform, Arguments.perform, hdry] using s.plan_eq fs screen
  | false => simpa [perform, Arguments.perform, hdry] using s.concatenate_eq fs screen

end Session

end Collate
