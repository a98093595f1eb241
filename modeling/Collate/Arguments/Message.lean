import Collate.Arguments.Basic
import Collate.Arguments.Help
import Collate.Text.Terminal

/-!
What is shown for an argument list that gives no `Arguments`. Messages are composed for a terminal, with
what comes from the arguments in a style of its own, and are shown without the styles. An escape sequence
that an argument leaves open ends with the style; a reason has none, so there it goes on.
-/
namespace Collate.UsageError

def expected (label : String) : String :=
  "'" ++ Terminal.styled [32] label ++ "'"

def unexpected (argument : String) : String :=
  "'" ++ Terminal.styled [33] argument ++ "'"

def formats : String :=
  "\n  [possible values: " ++ ", ".intercalate (Format.all.map Format.name) ++ "]"

def headline : UsageError → String
  | help _ | version | nothingGiven => ""
  | unknown argument => "unexpected argument " ++ unexpected argument ++ " found"
  | missingExtension =>
    "the following required arguments were not provided:\n  " ++ positionalLabel
  | repeated label => "the argument " ++ expected label ++ " cannot be used multiple times"
  | conflict first second =>
    "the argument " ++ expected first.label ++ " cannot be used with " ++ expected second.label
  | missingValue setting =>
    "a value is required for " ++ expected setting.label ++ " but none was supplied" ++
      if setting = .outputFormat then formats else ""
  | unknownFormat value =>
    "invalid value " ++ unexpected value ++ " for " ++ expected Setting.outputFormat.label ++ formats
  | invalidValue value label reason =>
    "invalid value " ++ unexpected value ++ " for " ++ expected label ++ ": " ++ reason
  | unexpectedValue value switch =>
    "unexpected value " ++ unexpected value ++ " for " ++ expected switch.label ++
      " found; no more were expected"
  | notText => "invalid UTF-8 was detected in one or more arguments"

/-- A missing or invalid value says nothing about the other arguments. -/
def usage : UsageError → String
  | missingValue _ | unknownFormat _ | invalidValue _ _ _ => ""
  | _ => "Usage: concat [OPTIONS] <EXTENSION>\n\n"

/-- Whether there is a mistake in the arguments. Help and version are shown on request. -/
def isMistake : UsageError → Bool
  | help _ | version | nothingGiven => false
  | _ => true

def message (e : UsageError) : String :=
  "error: " ++ e.headline ++ "\n\n" ++ e.usage ++ "For more information, try " ++
    expected "--help" ++ ".\n"

def printed : UsageError → String
  | help full => if full then Help.full else Help.brief
  | version => Help.version
  | nothingGiven => Help.brief
  | e => Terminal.strip e.message

/-- A run that was asked for help or its version has done its job. -/
def exitCode : UsageError → Nat
  | help _ | version => 0
  | _ => 1

end Collate.UsageError
