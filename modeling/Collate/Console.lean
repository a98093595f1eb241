import Collate.Failure
import Collate.Format
import Collate.Report
import Collate.Text.Terminal

/-!
What a run shows to people: notices, failures and the report, in one of three formats. Everything here
says which stream a line belongs to and leaves the printing to others.
-/
namespace Collate

inductive Stream where
  | out
  | err
deriving DecidableEq, Repr

/-- One printed line, without its line end. -/
structure Line where
  stream : Stream
  text : String
deriving DecidableEq, Repr

namespace Line

def textOn (stream : Stream) (lines : List Line) : String :=
  String.join ((lines.filter (·.stream = stream)).map (·.text ++ "\n"))

end Line

inductive Severity where
  | success
  | error
  | warning
  | info
  | debug
deriving DecidableEq, Repr

namespace Severity

def name : Severity → String
  | success => "success"
  | error => "error"
  | warning => "warning"
  | info => "info"
  | debug => "debug"

def mark : Severity → String
  | success => "✓"
  | error => "✗"
  | warning => "!"
  | info => "i"
  | debug => "DEBUG:"

def plainLabel : Severity → String
  | success => ""
  | error => "ERROR: "
  | warning => "WARNING: "
  | info => "INFO: "
  | debug => "DEBUG: "

def pictogram : Severity → String
  | success => "✅ "
  | error => "❌ "
  | warning => "⚠️  "
  | info => "ℹ️  "
  | debug => "  "

end Severity

def Severity.style : Severity → List Nat
  | .success => [32, 1]
  | .error => [31, 1]
  | .warning => [33, 1]
  | .info => [36]
  | .debug => [2]

structure Console where
  format : Format
  colours : Bool
  verbosity : Nat
  quiet : Bool
deriving DecidableEq, Repr

namespace Console

/-- Colours are for people at a colour terminal, and a quiet console has no verbosity. -/
def ofSettings (format : Format) (verbosity : Nat) (quiet terminal : Bool) : Console :=
  { format, quiet
    colours := terminal && !quiet && format == .human
    verbosity := if quiet then 0 else verbosity }

def showsAt (c : Console) (level : Nat) : Bool :=
  !c.quiet && decide (level ≤ c.verbosity)

def shows (c : Console) : Severity → Bool
  | .success | .error => true
  | .warning => c.showsAt 0
  | .info => c.showsAt 1
  | .debug => c.showsAt 2

def jsonNotice (now : Timestamp) (severity : Severity) (message : String) : Json :=
  .object [
    ("level", .string severity.name),
    ("message", .string message),
    ("timestamp", .string now.offsetText),
    ("type", .string "message")]

def humanText (c : Console) (severity : Severity) (message : String) : String :=
  if c.colours then severity.pictogram ++ Terminal.styled severity.style message
  else severity.mark ++ " " ++ message

/-- Only a success of the human and plain formats belongs to standard output. -/
def notice (c : Console) (now : Timestamp) (severity : Severity) (message : String) : List Line :=
  let stream := if severity = .success then Stream.out else .err
  if !c.shows severity then []
  else
    match c.format with
    | .human => [⟨stream, c.humanText severity message⟩]
    | .json => [⟨.err, (jsonNotice now severity message).compact⟩]
    | .plain => [⟨stream, severity.plainLabel ++ message⟩]

def suggestion (c : Console) (text : String) : Line :=
  match c.format with
  | .human =>
    if c.colours then
      ⟨.err, Severity.info.pictogram ++ Terminal.styled Severity.info.style ("Suggestion: " ++ text)⟩
    else ⟨.err, "Suggestion: " ++ text⟩
  | .json =>
    ⟨.err, (Json.object [("message", .string text), ("type", .string "suggestion")]).compact⟩
  | .plain => ⟨.err, "SUGGESTION: " ++ text⟩

def failure (c : Console) (now : Timestamp) (f : Failure) : List Line :=
  c.notice now .error f.userMessage ++ (f.suggestion.map c.suggestion).toList

def planSummary (c : Console) (r : Report) : List Line :=
  if c.quiet then []
  else if c.colours then
    [⟨.out, Severity.info.pictogram ++ Terminal.styled Severity.info.style r.planMessage⟩]
  else [⟨.out, r.planMessage⟩]

def plan (c : Console) (r : Report) : List Line :=
  r.files.map (fun (path, _) => ⟨.out, path⟩) ++ c.planSummary r

def summaryRow (c : Console) (label value : String) : Line :=
  let label := label ++ ":"
  let blanks := String.ofList (List.replicate (19 - label.length) ' ')
  ⟨.out, "  " ++ label ++ blanks ++ " " ++ if c.colours then Terminal.styled [36, 1] value else value⟩

def summary (c : Console) (r : Report) : List Line :=
  if c.showsAt 1 then r.summaryRows.map fun (label, value) => c.summaryRow label value else []

def report (c : Console) (now : Timestamp) (r : Report) : List Line :=
  match c.format with
  | .json => [⟨.out, r.jsonText⟩]
  | .human | .plain =>
    if r.dryRun then c.plan r
    else c.notice now .success r.completionMessage ++ c.summary r

end Console

end Collate
