import Collate.Proofs.Job.Shown
import Collate.Proofs.Run.ExitCode

/-!
How a job is shown has no influence on what it does. Format, verbosity, quiet and the terminal reach the lines
and the bar of a session, but no decision of its search, its writing or its failures; neither do they
reach the exit status of a run.
-/
namespace Collate

/-- Both report the same work, done at any time and however long it took. -/
def Report.SameWork (r other : Report) : Prop :=
  { r with duration := other.duration, completedAt := other.completedAt } = other

/-- The same failure, or reports of the same work. -/
inductive SameResult : Except Failure Report → Except Failure Report → Prop where
  | failed (f : Failure) : SameResult (.error f) (.error f)
  | done {r other : Report} : r.SameWork other → SameResult (.ok r) (.ok other)

/-- Both ask for the same work, to be shown in any way. -/
def Arguments.SameWork (a b : Arguments) : Prop :=
  { a with format := b.format, verbosity := b.verbosity, quiet := b.quiet } = b

namespace Job

variable (job : Job) (fs : FileSystem) (c d : Clock)

theorem sameWork_report (files : List Source) (progress : Option Progress) :
    (job.report files progress c).SameWork (job.report files progress d) :=
  rfl

theorem sameResult_plan :
    (job.plan fs c).fileSystem = (job.plan fs d).fileSystem ∧
      SameResult (job.plan fs c).result (job.plan fs d).result := by
  refine ⟨rfl, ?_⟩
  cases hfiles : job.discover fs with
  | error f => simpa [plan, hfiles, Except.map] using .failed f
  | ok files => simpa [plan, hfiles, Except.map] using .done (job.sameWork_report c d files none)

theorem sameResult_concatenate :
    (job.concatenate fs c).fileSystem = (job.concatenate fs d).fileSystem ∧
      SameResult (job.concatenate fs c).result (job.concatenate fs d).result := by
  cases hfiles : job.discover fs with
  | error f => simpa [concatenate, hfiles] using .failed f
  | ok files =>
      cases hresult : (Concatenation.write fs job.output none files).result with
      | error f => simpa [concatenate, hfiles, hresult, Except.map] using .failed f
      | ok p =>
          simpa [concatenate, hfiles, hresult, Except.map] using
            .done (job.sameWork_report c d files (some p))

end Job

theorem Settings.load_congr {a b : Arguments} (h : a.SameWork b) (fs : FileSystem) :
    load fs a = load fs b := by
  rw [← h]
  rfl

theorem Arguments.job_congr {a b : Arguments} (h : a.SameWork b) (fs : FileSystem)
    (settings : Settings) : a.job fs settings = b.job fs settings := by
  rw [← h]
  rfl

def Run.statusOf : Except Failure Report → Nat
  | .ok _ => 0
  | .error f => f.exitCode

theorem SameResult.statusOf_eq {x y : Except Failure Report} (h : SameResult x y) :
    Run.statusOf x = Run.statusOf y := by
  cases h <;> rfl

theorem Session.sameResult_perform {s t : Session} (h : s.job = t.job) (dryRun : Bool)
    (fs : FileSystem) (screen other : Screen) :
    (s.perform dryRun fs screen).fileSystem = (t.perform dryRun fs other).fileSystem ∧
      SameResult (s.perform dryRun fs screen).result (t.perform dryRun fs other).result := by
  cases dryRun with
  | true =>
      obtain ⟨hfs, hresult, -⟩ := s.plan_eq fs screen
      obtain ⟨hfs', hresult', -⟩ := t.plan_eq fs other
      simp only [perform, ↓reduceIte, hfs, hresult, hfs', hresult', ← h]
      exact s.job.sameResult_plan fs s.clock t.clock
  | false =>
      obtain ⟨hfs, hresult, -⟩ := s.concatenate_eq fs screen
      obtain ⟨hfs', hresult', -⟩ := t.concatenate_eq fs other
      simp only [perform, Bool.false_eq_true, ↓reduceIte, hfs, hresult, hfs', hresult', ← h]
      exact s.job.sameResult_concatenate fs s.clock t.clock

namespace Run

def session (s : Surroundings) (a : Arguments) (settings : Settings) (took : Duration) : Session :=
  ⟨a.job s.fileSystem settings, view s a, s.clock, took⟩

/-- What a run shows before its session. -/
def opening (s : Surroundings) (a : Arguments) : Screen :=
  ⟨(view s a).show (Settings.loadEvents s.fileSystem a), Bar.start false 0⟩

/-- What a run shows behind its session. -/
def closing (v : View) : Except Failure Report → List Line
  | .ok report => v.console.report v.now report
  | .error f => v.show [.runFailed f] ++ v.console.failure v.now f

/-- A run whose settings are there is a session. -/
theorem execute_eq_session (s : Surroundings) {a : Arguments} {settings : Settings}
    (hload : Settings.load s.fileSystem a = .ok settings) (took : Duration) {done : Performance}
    (hdone : (session s a settings took).perform a.dryRun s.fileSystem (opening s a) = done) :
    execute s a =
      ⟨statusOf done.result, done.fileSystem, done.screen.lines ++ closing (view s a) done.result⟩ := by
  obtain ⟨hfs, hresult, hlines⟩ :=
    (session s a settings took).perform_eq s.fileSystem (opening s a) a
  rw [hdone] at hfs hresult hlines
  rw [hfs, hresult, hlines]
  have hjob : (session s a settings took).job = a.job s.fileSystem settings := rfl
  have hclock : (session s a settings took).clock = s.clock := rfl
  rw [hjob, hclock]
  cases hend : (a.perform (a.job s.fileSystem settings) s.fileSystem s.clock).result with
  | ok report =>
      simp only [execute, hload, hend]
      rfl
  | error f =>
      simp only [execute, hload, hend, closing, List.append_assoc]
      rfl

/-- No setting of the presentation has an influence on the work. Sessions of one job leave the same tree and the
same result, apart from when and how long it was done, whatever their views, screens and clocks are;
runs over one tree whose arguments ask for the same work end alike, whatever else surrounds them. -/
theorem work_not_shown :
    (∀ (s t : Session) (fs : FileSystem) (screen other : Screen), s.job = t.job →
      (s.concatenate fs screen).fileSystem = (t.concatenate fs other).fileSystem ∧
      SameResult (s.concatenate fs screen).result (t.concatenate fs other).result ∧
      (s.plan fs screen).fileSystem = (t.plan fs other).fileSystem ∧
      SameResult (s.plan fs screen).result (t.plan fs other).result) ∧
    ∀ (s t : Surroundings) (arguments others : List Bytes) (a b : Arguments),
      s.fileSystem = t.fileSystem → Arguments.read arguments = .ok a →
      Arguments.read others = .ok b → a.SameWork b →
      (run s arguments).exitCode = (run t others).exitCode ∧
      (run s arguments).fileSystem = (run t others).fileSystem := by
  refine ⟨fun s t fs screen other hjob => ?_, fun s t arguments others a b hfs ha hb hab => ?_⟩
  · obtain ⟨hwritten, hresult⟩ := Session.sameResult_perform hjob false fs screen other
    exact ⟨hwritten, hresult, Session.sameResult_perform hjob true fs screen other⟩
  · have hload := Settings.load_congr hab s.fileSystem
    cases hsettings : Settings.load s.fileSystem a with
    | error f =>
        rw [hsettings] at hload
        simp only [run, ha, hb, execute, ← hfs, hsettings, ← hload, and_self]
    | ok settings =>
        rw [hsettings, hfs] at hload
        have hdry : a.dryRun = b.dryRun := by rw [← hab]
        have hjob : (session s a settings .zero).job = (session t b settings .zero).job := by
          simp only [session, hfs, Arguments.job_congr hab]
        obtain ⟨hsame, hresult⟩ := Session.sameResult_perform hjob a.dryRun s.fileSystem
          (opening s a) (opening t b)
        have hleft := execute_eq_session s hsettings .zero rfl
        have hright := execute_eq_session t hload.symm .zero rfl
        rw [← hfs, ← hdry] at hright
        simp only [run, ha, hb, hleft, hright]
        exact ⟨hresult.statusOf_eq, hsame⟩

/-- The same files at a colour terminal, on another day and with a log of everything. -/
def atTerminal : Surroundings :=
  ⟨Concatenation.badOctetsAndOldOutput, some "trace", true, ⟨⟨86400, 5⟩, .of 3 0⟩⟩

def loudJson : List Bytes :=
  ["txt", "-vv", "--output-format", "json"].map Utf8.encode

theorem work_not_shown_atTerminal :
    (∃ a b, Arguments.read [Utf8.encode "txt"] = .ok a ∧ Arguments.read loudJson = .ok b ∧
      a.SameWork b ∧ a.format ≠ b.format ∧ a.verbosity ≠ b.verbosity ∧
      (run onBadOctets [Utf8.encode "txt"]).exitCode = 3 ∧ (run atTerminal loudJson).exitCode = 3 ∧
      (run atTerminal loudJson).fileSystem = (run onBadOctets [Utf8.encode "txt"]).fileSystem) ∧
    ∃ s t : Session, s.job = t.job ∧ s.hasBar = true ∧ t.hasBar = false ∧
      (s.concatenate Concatenation.badOctetsAndOldOutput .blank).fileSystem =
        (t.concatenate Concatenation.badOctetsAndOldOutput .blank).fileSystem ∧
      SameResult (s.concatenate Concatenation.badOctetsAndOldOutput .blank).result
        (t.concatenate Concatenation.badOctetsAndOldOutput .blank).result := by
  let a : Arguments := ⟨"txt", none, none, none, false, false, none, .human, 0, false, false⟩
  let b : Arguments := { a with format := .json, verbosity := 2 }
  have ha : Arguments.read [Utf8.encode "txt"] = .ok a := rfl
  have hb : Arguments.read loudJson = .ok b := rfl
  have hcode : (run onBadOctets [Utf8.encode "txt"]).exitCode = 3 := by decide +kernel
  obtain ⟨hsessions, hruns⟩ := work_not_shown
  obtain ⟨hsame, htree⟩ := hruns onBadOctets atTerminal _ _ a b rfl ha hb rfl
  let s : Session := session onBadOctets a Settings.default .zero
  let t : Session := session atTerminal b Settings.default .zero
  obtain ⟨hfs, hresult, -⟩ := hsessions s t Concatenation.badOctetsAndOldOutput .blank .blank rfl
  exact ⟨⟨a, b, ha, hb, rfl, by decide, by decide, hcode, hsame ▸ hcode, htree.symm⟩, s, t, rfl,
    by decide, by decide, hfs, hresult⟩

end Run

end Collate
