import Collate.Proofs.Arguments.Positional
import Collate.Proofs.Extension
import Collate.Proofs.Job.Plan
import Collate.Proofs.Run.ExitCode

/-!
A command line and a call. A run normalises its extension when it reads its arguments and again when it does
its work; a call does so once. The second time takes another dot away, so the two agree exactly on
extensions that do not begin with two dots.
-/
namespace Collate

namespace Job

variable {job : Job} {e extension : String}

theorem normalized_of_ok (h : Extension.normalize job.extension = .ok extension) :
    job.normalized = .ok extension := by
  simp only [normalized, h]

theorem normalized_of_error {invalid : Extension.Invalid}
    (h : Extension.normalize job.extension = .error invalid) :
    job.normalized = .error (.invalidExtension job.extension) := by
  simp only [normalized, h]

theorem perform_congr (h : Extension.normalize job.extension = .ok extension)
    (h' : Extension.normalize e = .ok extension) (a : Arguments) (fs : FileSystem) (clock : Clock) :
    a.perform job fs clock = a.perform { job with extension := e } fs clock := by
  have hjob : job.normalized = .ok extension := normalized_of_ok h
  have hother : Job.normalized { job with extension := e } = .ok extension := normalized_of_ok h'
  have hdiscover : job.discover fs = Job.discover { job with extension := e } fs := by
    simp only [discover, hjob, hother]
    rfl
  have hevents : job.discoveryEvents fs = Job.discoveryEvents { job with extension := e } fs := by
    simp only [discoveryEvents, hjob, hother]
    rfl
  have hreport (files : List Source) (p : Option Progress) :
      job.report files p clock = Job.report { job with extension := e } files p clock := by
    simp only [report, h, h']
    rfl
  have houtput : job.output = Job.output { job with extension := e } := rfl
  simp only [Arguments.perform, plan, concatenate, hdiscover, hevents, hreport, houtput]

theorem head?_events (a : Arguments) (job : Job) (fs : FileSystem) (clock : Clock) :
    (a.perform job fs clock).events.head? =
      match job.normalized with
      | .ok extension => some (job.searching extension)
      | .error _ => none := by
  cases hext : job.normalized with
  | error f =>
      have hdiscover : job.discover fs = .error f := by
        simp only [discover, hext]
        rfl
      cases hdry : a.dryRun <;>
        simp [Arguments.perform, hdry, plan, concatenate, hdiscover, discoveryEvents, hext]
  | ok extension =>
      obtain ⟨more, hevents⟩ : ∃ more, job.discoveryEvents fs = job.searching extension :: more := by
        simp only [discoveryEvents, hext]
        exact ⟨_, rfl⟩
      cases hdry : a.dryRun with
      | true => simp [Arguments.perform, hdry, plan, hevents]
      | false => cases hdiscover : job.discover fs <;>
          simp [Arguments.perform, hdry, concatenate, hdiscover, hevents]

theorem searching_inj {other : String} (h : job.searching extension = job.searching other) :
    extension = other := by
  simpa [searching, String.append_assoc] using h

theorem extension_of_perform (h : Extension.normalize job.extension = .ok extension) {a : Arguments}
    {fs : FileSystem} {clock : Clock} {report : Report}
    (hok : (a.perform job fs clock).result = .ok report) : report.extension = extension := by
  have hreport (files : List Source) (p : Option Progress) :
      (job.report files p clock).extension = extension := by
    simp [Job.report, Report.ofRun, h, Except.toOption]
  simp only [Arguments.perform] at hok
  split at hok
  · obtain ⟨files, -, rfl⟩ := plan_eq_ok hok
    exact hreport files none
  · obtain ⟨files, p, -, -, rfl, -⟩ := concatenate_ok hok
    exact hreport files (some p)

section Called

variable (h : Extension.normalize e = .ok job.extension)
include h

theorem normalized_called : Job.normalized { job with extension := e } = .ok (Extension.dropDot e) := by
  rw [← (Extension.normalize_eq_ok_iff.mp h).1]
  exact normalized_of_ok h

theorem normalized_of_dots {rest : List Char} (hdots : e.toList = '.' :: '.' :: rest) :
    job.normalized =
      if rest = [] then .error (.invalidExtension ".") else .ok (String.ofList rest) := by
  obtain ⟨hext, hnormal⟩ := Extension.normalize_dots h hdots
  split
  · rename_i hrest
    rw [if_pos hrest] at hnormal
    rw [normalized_of_error hnormal, hext, hrest]
  · rename_i hrest
    rw [if_neg hrest] at hnormal
    exact normalized_of_ok hnormal

theorem perform_called_iff (a : Arguments) (fs : FileSystem) (clock : Clock) :
    a.perform job fs clock = a.perform { job with extension := e } fs clock ↔
      ¬ ['.', '.'] <+: e.toList := by
  constructor
  · rintro hsame ⟨rest, hrest⟩
    have hdots : e.toList = '.' :: '.' :: rest := hrest.symm
    have hhead := congrArg (·.events.head?) hsame
    simp only [head?_events, normalized_called h, normalized_of_dots h hdots] at hhead
    split at hhead
    · rename_i extension hext
      split at hext
      · cases hext
      · have hother := searching_inj (Option.some.inj hhead)
        rw [← Except.ok.inj hext, Extension.dropDot_dot hdots, String.ofList_inj] at hother
        simpa using congrArg List.length hother
    · cases hhead
  · intro hdots
    have hext := (Extension.normalize_eq_ok_iff.mp h).1
    refine perform_congr (Extension.normalize_of_normalize h ?_) h a fs clock
    rw [hext]
    exact fun hdot => hdots (Extension.dots_of_dropDot hdot)

end Called

end Job

namespace Run

variable {arguments : List Bytes} {value : Bytes} {e : String}

/-- A run does what the job called with its positional argument does, unless two dots stand in front of that:
then the call searches for what follows the first one, and the run for what follows the second. -/
theorem perform_eq_called_iff (hpos : Arguments.Positional arguments value)
    (htext : Utf8.decode? value = some e) :
    (∀ invalid, Extension.normalize e = .error invalid →
      (∀ a, Arguments.read arguments ≠ .ok a) ∧
      ∀ (a : Arguments) (job : Job) fs clock, job.extension = e →
        (a.perform job fs clock).result = .error (.invalidExtension e)) ∧
    ∀ s a job, Prepares s arguments a job →
      let called : Job := { job with extension := e }
      (called.normalized = .ok (Extension.dropDot e) ∧
        (called.scan (Extension.dropDot e)).selection.suffix = "." ++ Extension.dropDot e ∧
        ∀ report, (a.perform called s.fileSystem s.clock).result = .ok report →
          report.extension = Extension.dropDot e) ∧
      (∀ rest, e.toList = '.' :: '.' :: rest →
        called.normalized = .ok (String.ofList ('.' :: rest)) ∧
        job.normalized =
          if rest = [] then .error (.invalidExtension ".") else .ok (String.ofList rest)) ∧
      ((run s arguments).fileSystem = (a.perform job s.fileSystem s.clock).fileSystem ∧
        (run s arguments).exitCode =
          match (a.perform job s.fileSystem s.clock).result with
          | .ok _ => 0
          | .error f => f.exitCode) ∧
      (a.perform job s.fileSystem s.clock = a.perform called s.fileSystem s.clock ↔
        ¬ ['.', '.'] <+: e.toList) := by
  refine ⟨fun invalid hinvalid => ⟨fun a hread => ?_, fun a job fs clock hjob => ?_⟩,
    fun s a job hprepares => ?_⟩
  · obtain ⟨e', htext', hnormal⟩ := Arguments.normalize_of_positional hpos hread
    obtain rfl := Option.some.inj (htext.symm.trans htext')
    cases hnormal.symm.trans hinvalid
  · subst hjob
    have hdiscover := discover_of_invalid hinvalid fs
    cases hdry : a.dryRun <;>
      simp [Arguments.perform, hdry, Job.plan, Job.concatenate, hdiscover, Except.map]
  · have hends := hprepares.ends
    obtain ⟨hread, settings, -, rfl⟩ := hprepares
    obtain ⟨e', htext', hnormal⟩ := Arguments.normalize_of_positional hpos hread
    obtain rfl := Option.some.inj (htext.symm.trans htext')
    have hdrop := (Extension.normalize_eq_ok_iff.mp hnormal).1
    refine ⟨⟨Job.normalized_called hnormal, rfl, fun report hok => ?_⟩,
      fun rest hdots => ⟨?_, ?_⟩, hends, ?_⟩
    · exact Job.extension_of_perform (hdrop ▸ hnormal) hok
    · rw [← Extension.dropDot_dot hdots]
      exact Job.normalized_called hnormal
    · exact Job.normalized_of_dots hnormal hdots
    · exact Job.perform_called_iff hnormal a s.fileSystem s.clock

/-- One file for each way of taking two dots. -/
def dotted : FileSystem where
  root := .dir [
    (Utf8.encode "a.rs", .file (Utf8.encode "one") none),
    (Utf8.encode "b..rs", .file (Utf8.encode "two") none)]
  cwd := []

def onDotted : Surroundings :=
  ⟨dotted, none, false, Job.zeroClock⟩

def twoDots : List Bytes :=
  [Utf8.encode "..rs", Utf8.encode "--dry-run", Utf8.encode "--root", Path.dot]

def ofTwoDots : Arguments where
  extension := ".rs"
  root := some Path.dot
  outputName := none
  config := none
  includeHidden := false
  followLinks := false
  maxDepth := none
  format := .human
  verbosity := 0
  quiet := false
  dryRun := true

private theorem positional_twoDots : Arguments.Positional twoDots (Utf8.encode "..rs") :=
  ⟨[], _, Reader.start, rfl, rfl, .inr ⟨rfl, by simp [Reader.start]⟩⟩

private theorem prepares_twoDots :
    Prepares onDotted twoDots ofTwoDots (ofTwoDots.job dotted .default) := by
  have hread : Arguments.read twoDots = .ok ofTwoDots := rfl
  have hload : Settings.load dotted ofTwoDots = .ok .default := rfl
  exact ⟨hread, .default, Settings.load_eq_ok_iff.mp hload, rfl⟩

theorem perform_eq_called_iff_dotted :
    Arguments.Positional twoDots (Utf8.encode "..rs") ∧
    Utf8.decode? (Utf8.encode "..rs") = some "..rs" ∧
    Prepares onDotted twoDots ofTwoDots (ofTwoDots.job dotted .default) ∧
    (run onDotted twoDots).exitCode = 0 ∧
    ofTwoDots.perform (ofTwoDots.job dotted .default) dotted Job.zeroClock ≠
      ofTwoDots.perform { ofTwoDots.job dotted .default with extension := "..rs" } dotted Job.zeroClock := by
  have htext : Utf8.decode? (Utf8.encode "..rs") = some "..rs" := rfl
  have hok : (ofTwoDots.perform (ofTwoDots.job dotted .default) dotted Job.zeroClock).result.isOk := rfl
  obtain ⟨-, -, ⟨-, hcode⟩, hiff⟩ := (perform_eq_called_iff positional_twoDots htext).2 _ _ _
    prepares_twoDots
  refine ⟨positional_twoDots, htext, prepares_twoDots, ?_, ?_⟩
  · rw [hcode]
    cases hresult : (ofTwoDots.perform (ofTwoDots.job dotted .default) dotted Job.zeroClock).result with
    | ok report => rfl
    | error f =>
        rw [hresult] at hok
        cases hok
  · exact fun hsame => hiff.mp hsame (by decide)

/-- A run takes two dots off its extension and finds what a call with the same extension does not. -/
theorem discover_differs_from_called :
    ¬ ∀ s arguments value e a job, Arguments.Positional arguments value →
      Utf8.decode? value = some e → Prepares s arguments a job →
      job.discover s.fileSystem = Job.discover { job with extension := e } s.fileSystem := by
  intro h
  have htext : Utf8.decode? (Utf8.encode "..rs") = some "..rs" := rfl
  have hrun : ((ofTwoDots.job dotted .default).discover dotted).toOption.map
      (·.map Source.display) = some ["a.rs", "b..rs"] := rfl
  have hcalled : (Job.discover { ofTwoDots.job dotted .default with extension := "..rs" }
      dotted).toOption.map (·.map Source.display) = some ["b..rs"] := rfl
  have hsame : (ofTwoDots.job dotted .default).discover dotted =
      Job.discover { ofTwoDots.job dotted .default with extension := "..rs" } dotted :=
    h onDotted twoDots _ _ _ _ positional_twoDots htext prepares_twoDots
  rw [hsame, hcalled] at hrun
  exact absurd hrun (by decide)

end Run

end Collate
