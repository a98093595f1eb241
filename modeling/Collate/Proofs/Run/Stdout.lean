import Collate.Proofs.Console.Json
import Collate.Proofs.Job.Plan
import Collate.Proofs.Run.ExitCode
import Collate.Proofs.Scan.Display
import Collate.Proofs.Text.Utf8

/-!
What a run prints to standard output: the result of a run that succeeds, and nothing else. The events of the
work are all diagnostics, so whatever the format and the verbosity, they leave no line there. What is printed as
JSON is read back as the report.
-/
namespace Collate

namespace Concatenation

theorem isDiagnostic_of_writeFrom {output : Path} {fs : FileSystem} {sink : Sink} {p : Progress}
    {sources : List Source} :
    ∀ e ∈ (writeFrom output fs sink p sources).events, e.IsDiagnostic := by
  induction sources generalizing fs sink p with
  | nil =>
      intro e he
      simp only [writeFrom] at he
      split at he <;> cases he
  | cons source rest ih =>
      intro e he
      simp only [writeFrom] at he
      split at he
      · cases he
      · split at he
        · cases he
        · rcases List.mem_cons.mp he with rfl | he
          · simp [Event.IsDiagnostic]
          · exact ih e he

theorem isDiagnostic_of_write {fs : FileSystem} {output : Path} {buffer : Option Nat}
    {sources : List Source} :
    ∀ e ∈ (write fs output buffer sources).events, e.IsDiagnostic := by
  intro e he
  simp only [write] at he
  split at he
  · cases he
  · exact isDiagnostic_of_writeFrom e he

end Concatenation

namespace Job

variable {job : Job} {fs : FileSystem}

theorem isDiagnostic_of_skip (scan : Scan) : ∀ e ∈ job.skipEvents fs scan, e.IsDiagnostic := by
  intro e he
  simp only [skipEvents] at he
  split at he
  · cases he
  · obtain ⟨path, -, rfl⟩ := List.mem_map.mp he
    simp [Event.IsDiagnostic]

theorem isDiagnostic_of_found (scan : Scan) (files : List Source) :
    ∀ e ∈ job.foundEvents scan files, e.IsDiagnostic := by
  intro e he
  rcases List.mem_append.mp he with he | he
  · rcases List.mem_pair.mp he with rfl | rfl <;> simp [Event.IsDiagnostic]
  · split at he
    · obtain rfl := List.mem_singleton.mp he
      simp [Event.IsDiagnostic]
    · cases he

theorem isDiagnostic_of_discovery : ∀ e ∈ job.discoveryEvents fs, e.IsDiagnostic := by
  intro e he
  simp only [discoveryEvents] at he
  split at he
  · cases he
  · rename_i extension _
    rcases List.mem_append.mp he with he | he
    · rcases List.mem_cons.mp he with rfl | he
      · simp [Event.IsDiagnostic, searching]
      · exact isDiagnostic_of_skip _ e he
    · split at he
      · cases he
      · exact isDiagnostic_of_found _ _ e he

theorem isDiagnostic_of_perform (a : Arguments) (clock : Clock) :
    ∀ e ∈ (a.perform job fs clock).events, e.IsDiagnostic := by
  intro e he
  simp only [Arguments.perform] at he
  split at he
  · exact isDiagnostic_of_discovery e he
  · simp only [concatenate] at he
    split at he
    · exact isDiagnostic_of_discovery e he
    · rcases List.mem_append.mp he with he | he
      · rcases List.mem_append.mp he with he | he
        · exact isDiagnostic_of_discovery e he
        · exact Concatenation.isDiagnostic_of_write e he
      · split at he
        · obtain rfl := List.mem_singleton.mp he
          simp [Event.IsDiagnostic]
        · cases he

theorem report_of_perform {a : Arguments} {clock : Clock} {r : Report}
    (h : (a.perform job fs clock).result = .ok r) :
    ∃ files progress, job.discover fs = .ok files ∧ progress.isNone = a.dryRun ∧
      r = job.report files progress clock := by
  cases hdry : a.dryRun with
  | true =>
      simp only [Arguments.perform, hdry, ↓reduceIte] at h
      obtain ⟨files, hfiles, rfl⟩ := plan_eq_ok h
      exact ⟨files, none, hfiles, rfl, rfl⟩
  | false =>
      simp only [Arguments.perform, hdry, Bool.false_eq_true, ↓reduceIte] at h
      obtain ⟨files, p, hfiles, -, rfl, -⟩ := concatenate_ok h
      exact ⟨files, some p, hfiles, rfl, rfl⟩

end Job

theorem Settings.isDiagnostic_of_load {fs : FileSystem} {a : Arguments} :
    ∀ e ∈ loadEvents fs a, e.IsDiagnostic := by
  intro e he
  simp only [loadEvents] at he
  split at he
  · split at he
    · obtain rfl := List.mem_singleton.mp he
      simp [Event.IsDiagnostic]
    · cases he
  · cases he

theorem Failure.exitCode_ne_zero (f : Failure) : f.exitCode ≠ 0 := by
  cases f <;> simp [exitCode]

/-- JSON needs the root and the output to be text. -/
theorem Report.toJson?_eq_none_iff {r : Report} :
    r.toJson? = none ↔ ¬ (Utf8.isValid r.root ∧ Utf8.isValid r.output) := by
  rw [← Utf8.isSome_decode?_iff, ← Utf8.isSome_decode?_iff]
  cases hroot : Utf8.decode? r.root <;> cases houtput : Utf8.decode? r.output <;>
    simp [toJson?, hroot, houtput]

namespace Run

/-- Whether a run shows its result in colours: only to people at a terminal, and not when it is quiet. -/
def isColoured (a : Arguments) (terminal : Bool) : Bool :=
  terminal && !a.quiet && a.format == .human

def painted (coloured : Bool) (style : List Nat) (text : String) : String :=
  if coloured then Terminal.styled style text else text

/-- What stands before the completion message. -/
def completionMark (a : Arguments) (coloured : Bool) : String :=
  if a.format = .human then if coloured then "✅ " else "✓ " else ""

def summaryLines (coloured : Bool) (r : Report) : List String :=
  ["  Files concatenated: " ++ painted coloured [36, 1] (toString r.totalFiles),
    "  Source size:        " ++ painted coloured [36, 1] (Size.text r.totalSourceBytes),
    "  Output size:        " ++ painted coloured [36, 1] (Size.text r.bytesWritten),
    "  Time taken:         " ++ painted coloured [36, 1] r.duration.text]

/-- The lines that show the result of a run to people: the files of a dry run and, unless it is quiet, what
would become of them, or else the completion and, if it is asked for, the summary. -/
def peopleLines (a : Arguments) (coloured : Bool) (files : List Source) (r : Report) : List String :=
  if a.dryRun then
    files.map Source.display ++
      if a.quiet then []
      else [(if coloured then "ℹ️  " else "") ++ painted coloured [36]
        (toString r.totalFiles ++ " file(s) would be concatenated into '" ++ r.output.text ++ "'")]
  else
    (completionMark a coloured ++ painted coloured [32, 1]
        ("All ." ++ r.extension ++ " files have been concatenated into '" ++ r.output.text ++ "'")) ::
      if !a.quiet ∧ 1 ≤ a.verbosity then summaryLines coloured r else []

def resultLines (a : Arguments) (terminal : Bool) (files : List Source) (r : Report) : List String :=
  match a.format with
  | .json =>
    match r.toJson? with
    | some json => [json.pretty 0]
    | none => ["\x7b\x7d"]
  | .human | .plain => peopleLines a (isColoured a terminal) files r

theorem join_resultLines_of_json {a : Arguments} (hformat : a.format = .json) {terminal : Bool}
    {files : List Source} {r : Report} :
    String.join ((resultLines a terminal files r).map (· ++ "\n")) = r.jsonText ++ "\n" := by
  simp only [resultLines, hformat, Report.jsonText]
  cases r.toJson? <;> simp

section Report

variable {s : Surroundings} {a : Arguments}

theorem text_of_summary (r : Report) :
    (((view s a).console.summary r).map Line.text) =
      if !a.quiet ∧ 1 ≤ a.verbosity then summaryLines (isColoured a s.terminal) r else [] := by
  have hshows : (view s a).console.showsAt 1 = decide (!a.quiet ∧ 1 ≤ a.verbosity) := by
    cases hquiet : a.quiet <;> simp [view, Console.ofSettings, Console.showsAt, hquiet]
  have hcolours : (view s a).console.colours = isColoured a s.terminal := rfl
  simp only [Console.summary, hshows, decide_eq_true_eq]
  split
  · simp only [Report.summaryRows, List.map_cons, List.map_nil, Console.summaryRow, hcolours]
    rfl
  · rfl

theorem text_of_plan {r : Report} {files : List Source}
    (hfiles : r.files.map Prod.fst = files.map Source.display) :
    (((view s a).console.plan r).map Line.text) =
      files.map Source.display ++
        if a.quiet then []
        else [(if isColoured a s.terminal then "ℹ️  " else "") ++
          painted (isColoured a s.terminal) [36] r.planMessage] := by
  have hcolours : (view s a).console.colours = isColoured a s.terminal := rfl
  have hquiet : (view s a).console.quiet = a.quiet := rfl
  have hpaths : (r.files.map fun file => Line.mk .out file.1).map Line.text =
      files.map Source.display := by
    rw [List.map_map, ← hfiles]
    rfl
  rw [Console.plan, List.map_append, hpaths]
  simp only [Console.planSummary, hquiet, hcolours, painted]
  split
  · rfl
  · split
    · rfl
    · simp

theorem text_of_completion (now : Timestamp) (message : String) (hformat : a.format ≠ .json) :
    (((view s a).console.notice now .success message).map Line.text) =
      [completionMark a (isColoured a s.terminal) ++
        painted (isColoured a s.terminal) [32, 1] message] := by
  have hshown : (view s a).console.shows .success = true := rfl
  have hsame : (view s a).console.format = a.format := rfl
  have hcolours : (view s a).console.colours = isColoured a s.terminal := rfl
  simp only [Console.notice, hshown, hsame, Bool.not_true, Bool.false_eq_true, ↓reduceIte]
  cases hf : a.format with
  | json => exact absurd hf hformat
  | human =>
      simp only [Console.humanText, hcolours, completionMark, hf, ↓reduceIte, painted]
      split <;> rfl
  | plain =>
      have hplain : isColoured a s.terminal = false := by simp [isColoured, hf]
      simp [completionMark, hf, hplain, painted, Severity.plainLabel]

/-- A report is shown by its result lines. -/
theorem text_of_report {r : Report} {files : List Source} (now : Timestamp)
    (hdry : r.dryRun = a.dryRun) (hfiles : r.files.map Prod.fst = files.map Source.display) :
    (((view s a).console.report now r).map Line.text) = resultLines a s.terminal files r := by
  have hsame : (view s a).console.format = a.format := rfl
  have hpeople (hformat : a.format ≠ .json) :
      (if r.dryRun then (view s a).console.plan r
        else (view s a).console.notice now .success r.completionMessage ++
          (view s a).console.summary r).map Line.text =
        peopleLines a (isColoured a s.terminal) files r := by
    rw [hdry, peopleLines]
    split
    · exact text_of_plan hfiles
    · rw [List.map_append, text_of_completion now _ hformat, text_of_summary, Report.completionMessage]
      rfl
  cases hformat : a.format with
  | json =>
      simp only [Console.report, hsame, hformat, resultLines, Report.jsonText]
      cases r.toJson? <;> rfl
  | human | plain =>
      simp only [Console.report, hsame, hformat, resultLines]
      exact hpeople (by simp [hformat])

end Report

theorem text_of_failed {before : List Line} (h : ∀ l ∈ before, l.stream = .err) (c : Console)
    (now : Timestamp) (f : Failure) :
    Line.textOn .out (before ++ c.failure now f) = "" ∧
      Line.textOn .err (before ++ c.failure now f) ≠ "" := by
  obtain ⟨hfailure, l, hl⟩ := c.stream_of_failure now f
  constructor
  · apply Line.textOn_of_others
    intro k hk
    rcases List.mem_append.mp hk with hk | hk
    · simp [h k hk]
    · simp [hfailure k hk]
  · exact Line.textOn_ne_empty (List.mem_append_right _ hl) (hfailure l hl)

/-- After a success there is the report on standard output, and nothing before it. -/
theorem text_of_reported {before : List Line} (h : ∀ l ∈ before, l.stream = .err)
    (s : Surroundings) {a : Arguments} {r : Report} {files : List Source}
    (hdry : r.dryRun = a.dryRun) (hfiles : r.files.map Prod.fst = files.map Source.display) :
    Line.textOn .out (before ++ (view s a).console.report (view s a).now r) =
      String.join ((resultLines a s.terminal files r).map (· ++ "\n")) := by
  have hbefore : Line.textOn .out before = "" := Line.textOn_of_others fun l hl => by simp [h l hl]
  have hreport : ∀ l ∈ (view s a).console.report (view s a).now r, l.stream = .out :=
    Console.stream_of_report r
  rw [Line.textOn_append, hbefore, Line.textOn_of_all hreport, ← text_of_report _ hdry hfiles,
    List.map_map, String.empty_append]
  rfl

/-- Standard output holds the result of a run that succeeds and nothing else: a run that fails leaves it empty
and says why on the error stream. -/
theorem stdout_of_run (s : Surroundings) {arguments : List Bytes} {a : Arguments}
    (hread : Arguments.read arguments = .ok a) :
    ((run s arguments).exitCode ≠ 0 →
      (run s arguments).stdout = "" ∧ (run s arguments).stderr ≠ "") ∧
    ((run s arguments).exitCode = 0 → ∃ job files progress,
      Prepares s arguments a job ∧ job.discover s.fileSystem = .ok files ∧
      progress.isNone = a.dryRun ∧
      (a.perform job s.fileSystem s.clock).result = .ok (job.report files progress s.clock) ∧
      ((job.report files progress s.clock).toJson? = none ↔
        ¬ (Utf8.isValid job.root ∧ Utf8.isValid job.output)) ∧
      (run s arguments).stdout =
        String.join ((resultLines a s.terminal files (job.report files progress s.clock)).map
          (· ++ "\n")) ∧
      (a.format = .json →
        (∀ parse root output, Json.IsReader parse →
          Utf8.decode? job.root = some root → Utf8.decode? job.output = some output →
          ∃ completedAt, Timestamp.instant? completedAt = some s.clock.now.instant ∧
            parse (run s arguments).stdout =
              some ((job.report files progress s.clock).datum root output completedAt)) ∧
        (¬ (Utf8.isValid job.root ∧ Utf8.isValid job.output) →
          (run s arguments).stdout = "\x7b\x7d\n"))) := by
  have hloading : ∀ l ∈ (view s a).show (Settings.loadEvents s.fileSystem a), l.stream = .err :=
    View.stream_of_show Settings.isDiagnostic_of_load
  cases hsettings : Settings.load s.fileSystem a with
  | error f =>
      have hfailed := text_of_failed hloading (earlyConsole s) s.clock.now f
      simp only [run, hread, execute, hsettings]
      exact ⟨fun _ => hfailed, fun hcode => absurd hcode f.exitCode_ne_zero⟩
  | ok settings =>
      generalize hjob : a.job s.fileSystem settings = job
      have hworking : ∀ l ∈ (view s a).show (Settings.loadEvents s.fileSystem a) ++
          (view s a).show (a.perform job s.fileSystem s.clock).events, l.stream = .err := by
        intro l hl
        rcases List.mem_append.mp hl with hl | hl
        · exact hloading l hl
        · exact View.stream_of_show (Job.isDiagnostic_of_perform a s.clock) l hl
      cases hresult : (a.perform job s.fileSystem s.clock).result with
      | error f =>
          have hlogged : ∀ l ∈ (view s a).show [.runFailed f], l.stream = .err :=
            View.stream_of_show (by simp [Event.IsDiagnostic])
          have hbefore : ∀ l ∈ _ ++ (view s a).show [.runFailed f], l.stream = .err := fun l hl =>
            (List.mem_append.mp hl).elim (hworking l) (hlogged l)
          have hfailed := text_of_failed hbefore (view s a).console (view s a).now f
          simp only [run, hread, execute, hsettings, hjob, hresult]
          exact ⟨fun _ => hfailed, fun hcode => absurd hcode f.exitCode_ne_zero⟩
      | ok report =>
          obtain ⟨files, progress, hfiles, hdry, rfl⟩ := Job.report_of_perform hresult
          have hprepares : Prepares s arguments a job :=
            ⟨hread, settings, Settings.load_eq_ok_iff.mp hsettings, hjob.symm⟩
          have hpaths : (job.report files progress s.clock).files.map Prod.fst =
              files.map Source.display := by
            simp [Job.report, Report.ofRun]
          have hout := text_of_reported hworking s hdry hpaths
          have hcode : (run s arguments).exitCode = 0 := by
            simp only [run, hread, execute, hsettings, hjob, hresult]
          have hstdout : (run s arguments).stdout =
              String.join ((resultLines a s.terminal files (job.report files progress s.clock)).map
                (· ++ "\n")) := by
            simp only [run, hread, execute, hsettings, hjob, hresult]
            exact hout
          refine ⟨fun hne => absurd hcode hne, fun _ => ⟨job, files, progress, hprepares, hfiles, hdry,
            hresult, Report.toJson?_eq_none_iff, hstdout, fun hformat => ⟨?_, fun hinvalid => ?_⟩⟩⟩
          · intro parse root output hparse hroot houtput
            refine ⟨s.clock.now.text, s.clock.now.instant?_text, ?_⟩
            rw [hstdout, join_resultLines_of_json hformat]
            exact Report.parse_jsonText hparse hroot houtput
          · rw [hstdout, join_resultLines_of_json hformat, Report.jsonText,
              Report.toJson?_eq_none_iff.mpr hinvalid]
            rfl

/-- A plan is asked for, with all diagnostics. -/
def plannedJson : List Bytes :=
  ["txt", "-vv", "--output-format", "json", "--dry-run"].map Utf8.encode

def planned : Arguments :=
  ⟨"txt", none, none, none, false, false, none, .json, 2, false, true⟩

def plannedText : String :=
  "\x7b\n" ++
  "  \"extension\": \"txt\",\n" ++
  "  \"root\": \"/\",\n" ++
  "  \"output_path\": \"/concat.txt\",\n" ++
  "  \"dry_run\": true,\n" ++
  "  \"files\": [\n" ++
  "    \x7b\n" ++
  "      \"path\": \"a.txt\",\n" ++
  "      \"size\": 3\n" ++
  "    \x7d,\n" ++
  "    \x7b\n" ++
  "      \"path\": \"all.txt\",\n" ++
  "      \"size\": 35\n" ++
  "    \x7d,\n" ++
  "    \x7b\n" ++
  "      \"path\": \"b.txt\",\n" ++
  "      \"size\": 1\n" ++
  "    \x7d\n" ++
  "  ],\n" ++
  "  \"total_files\": 3,\n" ++
  "  \"total_source_bytes\": 39,\n" ++
  "  \"bytes_written\": 0,\n" ++
  "  \"duration\": \x7b\n" ++
  "    \"secs\": 0,\n" ++
  "    \"nanos\": 0\n" ++
  "  \x7d,\n" ++
  "  \"completed_at\": \"1970-01-01T00:00:00Z\"\n" ++
  "\x7d\n"

def plannedReport : Report where
  extension := "txt"
  root := Utf8.encode "/"
  output := Utf8.encode "/concat.txt"
  dryRun := true
  files := [("a.txt", 3), ("all.txt", 35), ("b.txt", 1)]
  totalFiles := 3
  totalSourceBytes := 39
  bytesWritten := 0
  duration := ⟨0, 0⟩
  completedAt := ⟨0, 0⟩

def onAlikeDirectories : Surroundings :=
  ⟨Scan.alikeDirectories, none, false, Job.zeroClock⟩

/-- The root is a directory whose name is no text. -/
def unnamedRoot : List Bytes :=
  ["rs", "--output-format", "json", "--root"].map Utf8.encode ++ [[0xE9]]

def latin : Arguments :=
  ⟨"rs", some [0xE9], none, none, false, false, none, .json, 0, false, false⟩

theorem stdout_of_run_json :
    (Arguments.read [Utf8.encode "txt"]).isOk ∧ (run onBadOctets [Utf8.encode "txt"]).exitCode = 3 ∧
    (run onBadOctets [Utf8.encode "txt"]).stdout = "" ∧
    (run onBadOctets [Utf8.encode "txt"]).stderr ≠ "" ∧
    Arguments.read plannedJson = .ok planned ∧ (run onBadOctets plannedJson).exitCode = 0 ∧
    (run onBadOctets plannedJson).stdout = plannedText ∧
    (∃ completedAt, Timestamp.instant? completedAt = some 0 ∧
      Json.read? (run onBadOctets plannedJson).stdout = some (.object [
        ("extension", .string "txt"),
        ("root", .string "/"),
        ("output_path", .string "/concat.txt"),
        ("dry_run", .bool true),
        ("files", .array [
          .object [("path", .string "a.txt"), ("size", .number 3)],
          .object [("path", .string "all.txt"), ("size", .number 35)],
          .object [("path", .string "b.txt"), ("size", .number 1)]]),
        ("total_files", .number 3),
        ("total_source_bytes", .number 39),
        ("bytes_written", .number 0),
        ("duration", .object [("secs", .number 0), ("nanos", .number 0)]),
        ("completed_at", .string completedAt)])) ∧
    Arguments.read unnamedRoot = .ok latin ∧ (run onAlikeDirectories unnamedRoot).exitCode = 0 ∧
    (run onAlikeDirectories unnamedRoot).stdout = "\x7b\x7d\n" := by
  have hcode : (run onBadOctets [Utf8.encode "txt"]).exitCode = 3 := by decide +kernel
  have hok : (Arguments.read [Utf8.encode "txt"]).isOk := rfl
  have hread : Arguments.read plannedJson = .ok planned := rfl
  have hplanned : (run onBadOctets plannedJson).exitCode = 0 := by decide +kernel
  have htext : (run onBadOctets plannedJson).stdout = plannedText := by decide +kernel
  have hread' : Arguments.read unnamedRoot = .ok latin := rfl
  have hunnamed : (run onAlikeDirectories unnamedRoot).exitCode = 0 := by decide +kernel
  obtain ⟨hout, herr⟩ : (run onBadOctets [Utf8.encode "txt"]).stdout = "" ∧
      (run onBadOctets [Utf8.encode "txt"]).stderr ≠ "" := by
    cases hread : Arguments.read [Utf8.encode "txt"] with
    | error e => simp [hread, Except.isOk, Except.toBool] at hok
    | ok a => exact (stdout_of_run onBadOctets hread).1 (by simp [hcode])
  refine ⟨hok, hcode, hout, herr, hread, hplanned, htext, ?_, hread', hunnamed, ?_⟩
  · obtain ⟨job, files, progress, ⟨-, settings, hloads, rfl⟩, -, -, hresult, -, -, hjson⟩ :=
      (stdout_of_run onBadOctets hread).2 hplanned
    have hload : Settings.load onBadOctets.fileSystem planned = .ok .default := rfl
    obtain rfl := Except.ok.inj (hload.symm.trans (Settings.load_eq_ok_iff.mpr hloads))
    have hreport : (planned.perform (planned.job onBadOctets.fileSystem .default)
        onBadOctets.fileSystem onBadOctets.clock).result = .ok plannedReport := by decide +kernel
    obtain ⟨completedAt, hinstant, hparse⟩ := (hjson rfl).1 Json.read? "/" "/concat.txt"
      Json.isReader_read? (Utf8.decode?_eq_some_iff.mpr rfl) (Utf8.decode?_eq_some_iff.mpr rfl)
    refine ⟨completedAt, hinstant, ?_⟩
    rw [hparse, ← Except.ok.inj (hreport.symm.trans hresult)]
    simp [Report.datum, plannedReport]
  · obtain ⟨job, files, progress, ⟨-, settings, hloads, rfl⟩, -, -, -, -, -, hjson⟩ :=
      (stdout_of_run onAlikeDirectories hread').2 hunnamed
    refine (hjson rfl).2 fun hvalid => ?_
    have hroot : Utf8.isValid [0xE9] := hvalid.1
    exact absurd hroot (by decide)

end Run

end Collate
