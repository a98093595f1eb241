import Collate.Proofs.Console
import Collate.Proofs.Json.Printed
import Collate.Proofs.Text.Pieces
import Collate.Proofs.Time

/-!
What a reader of JSON finds in the output of a console of that format: the report with all its fields, and
notices with their severity and message, each on a line of its own. A report is written over several lines; a
notice has no line end inside, whatever its message.
-/
namespace Collate

/-- The fields of a report, in order, for a reader of its text. -/
def Report.datum (r : Report) (root output completedAt : String) : Json.Datum :=
  .object [
    ("extension", .string r.extension),
    ("root", .string root),
    ("output_path", .string output),
    ("dry_run", .bool r.dryRun),
    ("files", .array (r.files.map fun (path, size) =>
      .object [("path", .string path), ("size", .number size)])),
    ("total_files", .number r.totalFiles),
    ("total_source_bytes", .number r.totalSourceBytes),
    ("bytes_written", .number r.bytesWritten),
    ("duration", .object [
      ("secs", .number r.duration.seconds), ("nanos", .number r.duration.nanos)]),
    ("completed_at", .string completedAt)]

theorem Report.exists_json {r : Report} {root output : String} (hroot : Utf8.decode? r.root = some root)
    (houtput : Utf8.decode? r.output = some output) :
    ∃ j : Json, r.jsonText = j.pretty 0 ∧ j.datum = r.datum root output r.completedAt.text := by
  obtain ⟨j, hj⟩ : ∃ j, r.toJson? = some j := by simp [toJson?, hroot, houtput]
  refine ⟨j, by rw [jsonText, hj], ?_⟩
  simp only [toJson?, hroot, houtput, Option.bind_eq_bind, Option.bind_some, Option.some.injEq] at hj
  subst hj
  simp [Json.datum, Json.memberData, Json.itemData_eq_map, datum, Function.comp_def]

theorem Report.parse_jsonText {parse : String → Option Json.Datum} (hparse : Json.IsReader parse)
    {r : Report} {root output : String} (hroot : Utf8.decode? r.root = some root)
    (houtput : Utf8.decode? r.output = some output) :
    parse (r.jsonText ++ String.ofList ['\n']) = some (r.datum root output r.completedAt.text) := by
  obtain ⟨j, htext, hdatum⟩ := Report.exists_json hroot houtput
  rw [htext, ← hdatum]
  exact (hparse _ _).2 (Json.denotes_pretty 0 j (.blank (by decide) (.none [])))

namespace Console

/-- A notice for a reader of its text. -/
def noticeDatum (severity : Severity) (message timestamp : String) : Json.Datum :=
  .object [
    ("level", .string (match severity with
      | .success => "success"
      | .error => "error"
      | .warning => "warning"
      | .info => "info"
      | .debug => "debug")),
    ("message", .string message),
    ("timestamp", .string timestamp),
    ("type", .string "message")]

/-- Successes and errors are always shown, and the rest as far as it is asked for. -/
def IsShown (c : Console) : Severity → Prop
  | .success | .error => True
  | .warning => c.quiet = false
  | .info => c.quiet = false ∧ 1 ≤ c.verbosity
  | .debug => c.quiet = false ∧ 2 ≤ c.verbosity

theorem shows_iff {c : Console} {severity : Severity} : c.shows severity ↔ c.IsShown severity := by
  cases severity <;> simp [shows, showsAt, IsShown]

theorem notice_of_json {c : Console} (hformat : c.format = .json) {now : Timestamp}
    {severity : Severity} {message : String} (hshown : c.shows severity) :
    c.notice now severity message = [⟨.err, (jsonNotice now severity message).compact⟩] := by
  simp [notice, hshown, hformat]

/-- Any reader of JSON finds in the output just what was reported, and in each notice just the message. -/
theorem json_decodes {parse : String → Option Json.Datum} (hparse : Json.IsReader parse)
    {c : Console} (hformat : c.format = .json) (now : Timestamp) :
    (∀ {r : Report} {root output : String}, Utf8.decode? r.root = some root →
      Utf8.decode? r.output = some output →
      ∃ completedAt, Timestamp.instant? completedAt = some r.completedAt.instant ∧
        parse (Line.textOn .out (c.report now r)) = some (r.datum root output completedAt)) ∧
    ∀ (severity : Severity) (message : String),
      (c.IsShown severity → ∃ text timestamp,
        c.notice now severity message = [⟨.err, text⟩] ∧ '\n' ∉ text.toList ∧
        Timestamp.instant? timestamp = some now.instant ∧
        parse text = some (noticeDatum severity message timestamp)) ∧
      (¬ c.IsShown severity → c.notice now severity message = []) := by
  constructor
  · intro r root output hroot houtput
    have hprinted : Line.textOn .out (c.report now r) = r.jsonText ++ String.ofList ['\n'] := by
      simp [report, hformat, Line.textOn]
    refine ⟨r.completedAt.text, r.completedAt.instant?_text, ?_⟩
    rw [hprinted, Report.parse_jsonText hparse hroot houtput]
  · intro severity message
    rw [← shows_iff]
    refine ⟨fun hshown => ?_, fun hhidden => by simp [notice, hhidden]⟩
    have hdatum : (jsonNotice now severity message).datum =
        noticeDatum severity message now.offsetText := by cases severity <;> rfl
    refine ⟨_, now.offsetText, notice_of_json hformat hshown,
      (Json.HasNoControls.compact _).newline, now.instant?_offsetText, ?_⟩
    exact (hparse _ _).2 (hdatum ▸ Json.denotes_compact _)

/-- A report with quotes, backslashes, controls and line ends in its texts, and with numbers of 64 bits. -/
def escapesAndLimits : Report where
  extension := "r\"s"
  root := Utf8.encode "/tmp/\\\n\x01é"
  output := Utf8.encode "/tmp/\\\n\x01é/\"out\".txt"
  dryRun := false
  files := [("a\tb.r\"s", 18446744073709551615), ("😀.r\"s", 0)]
  totalFiles := 2
  totalSourceBytes := 18446744073709551615
  bytesWritten := 18446744073709551615
  duration := ⟨59, 999999999⟩
  completedAt := ⟨1709251199, 120000000⟩

def quietJson : Console := .ofSettings .json 0 true false

def verboseJson : Console := .ofSettings .json 2 false false

theorem json_decodes_escapes :
    Json.IsReader Json.read? ∧ quietJson.format = .json ∧ verboseJson.format = .json ∧
    Utf8.decode? escapesAndLimits.root = some "/tmp/\\\n\x01é" ∧
    Utf8.decode? escapesAndLimits.output = some "/tmp/\\\n\x01é/\"out\".txt" ∧
    (∃ completedAt, Timestamp.instant? completedAt = some 1709251199120000000 ∧
      Json.read? (Line.textOn .out (quietJson.report escapesAndLimits.completedAt escapesAndLimits)) =
        some (escapesAndLimits.datum "/tmp/\\\n\x01é" "/tmp/\\\n\x01é/\"out\".txt" completedAt)) ∧
    (∀ shown ∈ [(Severity.success, "success"), (.error, "error"), (.warning, "warning"),
        (.info, "info"), (.debug, "debug")], ∃ text timestamp,
      verboseJson.notice escapesAndLimits.completedAt shown.1 "two\nlines\\" = [⟨.err, text⟩] ∧
      '\n' ∉ text.toList ∧ Timestamp.instant? timestamp = some 1709251199120000000 ∧
      Json.read? text = some (.object [("level", .string shown.2),
        ("message", .string "two\nlines\\"), ("timestamp", .string timestamp),
        ("type", .string "message")])) ∧
    quietJson.notice escapesAndLimits.completedAt .warning "two\nlines\\" = [] := by
  have hroot : Utf8.decode? escapesAndLimits.root = some "/tmp/\\\n\x01é" :=
    Utf8.decode?_eq_some_iff.2 rfl
  have houtput : Utf8.decode? escapesAndLimits.output = some "/tmp/\\\n\x01é/\"out\".txt" :=
    Utf8.decode?_eq_some_iff.2 rfl
  obtain ⟨hreport, hquiet⟩ :=
    json_decodes Json.isReader_read? (c := quietJson) rfl escapesAndLimits.completedAt
  obtain ⟨-, hnotice⟩ :=
    json_decodes Json.isReader_read? (c := verboseJson) rfl escapesAndLimits.completedAt
  refine ⟨Json.isReader_read?, rfl, rfl, hroot, houtput, hreport hroot houtput, ?_,
    (hquiet .warning _).2 (by simp [IsShown, quietJson, ofSettings])⟩
  intro shown hshown
  simp only [List.mem_cons, List.not_mem_nil, or_false] at hshown
  obtain rfl | rfl | rfl | rfl | rfl := hshown
  · exact (hnotice .success _).1 trivial
  · exact (hnotice .error _).1 trivial
  · exact (hnotice .warning _).1 rfl
  · exact (hnotice .info _).1 ⟨rfl, by decide⟩
  · exact (hnotice .debug _).1 ⟨rfl, by decide⟩

end Console

end Collate
