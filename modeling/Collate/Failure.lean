import Collate.Path

/-!
What can go wrong, as causes. The wordings are functions on the causes: the message, the message for
people with its suggestion, the diagnostic form, and the exit status of a run that ends with one.
-/
namespace Collate

/-- Reasons of the operating system for refusing a request. -/
inductive Refusal where
  | notPermitted
  | notFound
  | inputOutput
  | outOfMemory
  | permissionDenied
  | alreadyExists
  | notADirectory
  | isADirectory
  | invalidArgument
  | tooManyFiles
  | noSpace
  | readOnly
  | nameTooLong
  | tooManyLinks
deriving DecidableEq, Repr

namespace Refusal

def code : Refusal → Nat
  | notPermitted => 1
  | notFound => 2
  | inputOutput => 5
  | outOfMemory => 12
  | permissionDenied => 13
  | alreadyExists => 17
  | notADirectory => 20
  | isADirectory => 21
  | invalidArgument => 22
  | tooManyFiles => 24
  | noSpace => 28
  | readOnly => 30
  | nameTooLong => 36
  | tooManyLinks => 40

def all : List Refusal :=
  [notPermitted, notFound, inputOutput, outOfMemory, permissionDenied, alreadyExists, notADirectory,
    isADirectory, invalidArgument, tooManyFiles, noSpace, readOnly, nameTooLong, tooManyLinks]

def ofCode? (n : Nat) : Option Refusal :=
  all.find? (·.code == n)

def text : Refusal → String
  | notPermitted => "Operation not permitted"
  | notFound => "No such file or directory"
  | inputOutput => "Input/output error"
  | outOfMemory => "Cannot allocate memory"
  | permissionDenied => "Permission denied"
  | alreadyExists => "File exists"
  | notADirectory => "Not a directory"
  | isADirectory => "Is a directory"
  | invalidArgument => "Invalid argument"
  | tooManyFiles => "Too many open files"
  | noSpace => "No space left on device"
  | readOnly => "Read-only file system"
  | nameTooLong => "File name too long"
  | tooManyLinks => "Too many levels of symbolic links"

/-- The class a refusal is shown under in diagnostics. -/
def kindName : Refusal → String
  | notPermitted | permissionDenied => "PermissionDenied"
  | notFound => "NotFound"
  | inputOutput | tooManyFiles => "Uncategorized"
  | outOfMemory => "OutOfMemory"
  | alreadyExists => "AlreadyExists"
  | notADirectory => "NotADirectory"
  | isADirectory => "IsADirectory"
  | invalidArgument => "InvalidInput"
  | noSpace => "StorageFull"
  | readOnly => "ReadOnlyFilesystem"
  | nameTooLong => "InvalidFilename"
  | tooManyLinks => "FilesystemLoop"

end Refusal

/-- Classes of faults that do not come from the operating system. -/
inductive FaultKind where
  | invalidData
  | invalidInput
  | permissionDenied
  | notFound
  | unexpectedEnd
  | writeZero
  | interrupted
  | other
deriving DecidableEq, Repr

namespace FaultKind

def name : FaultKind → String
  | invalidData => "InvalidData"
  | invalidInput => "InvalidInput"
  | permissionDenied => "PermissionDenied"
  | notFound => "NotFound"
  | unexpectedEnd => "UnexpectedEof"
  | writeZero => "WriteZero"
  | interrupted => "Interrupted"
  | other => "Other"

def text : FaultKind → String
  | invalidData => "invalid data"
  | invalidInput => "invalid input parameter"
  | permissionDenied => "permission denied"
  | notFound => "entity not found"
  | unexpectedEnd => "unexpected end of file"
  | writeZero => "write zero"
  | interrupted => "operation interrupted"
  | other => "other error"

end FaultKind

inductive IoFault where
  | refused (reason : Refusal)
  | failed (kind : FaultKind) (message : String)
deriving DecidableEq, Repr

namespace IoFault

def nulInPath : IoFault :=
  .failed .invalidInput "file name contained an unexpected NUL byte"

def notText : IoFault :=
  .failed .invalidData "stream did not contain valid UTF-8"

def text : IoFault → String
  | refused reason => reason.text ++ " (os error " ++ toString reason.code ++ ")"
  | failed _ message => message

def isInvalidData : IoFault → Bool
  | failed .invalidData _ => true
  | _ => false

/-- Being refused for lack of privilege counts too. -/
def isPermissionDenied : IoFault → Bool
  | refused .permissionDenied | refused .notPermitted | failed .permissionDenied _ => true
  | _ => false

def diagnostic : IoFault → String
  | refused reason =>
    "Os \x7b code: " ++ toString reason.code ++ ", kind: " ++ reason.kindName ++
      ", message: " ++ Quoted.text reason.text ++ " \x7d"
  | failed kind message =>
    "Error \x7b kind: " ++ kind.name ++ ", message: " ++ Quoted.text message ++ " \x7d"

end IoFault

inductive Failure where
  | rootNotFound (path : Path)
  | notADirectory (path : Path)
  | walk (path : Path) (message : String)
  | unreadable (path : Path) (cause : IoFault)
  | invalidEncoding (path : Path)
  | unwritable (path : Path) (cause : IoFault)
  | invalidExtension (extension : String)
  | config (message : String)
  | io (cause : IoFault)
deriving DecidableEq, Repr

namespace Failure

def pathTooLong (path : Path) : Failure :=
  .unreadable path (.refused .nameTooLong)

/-- A source that cannot be read: wrong encoding is told apart from every other cause. -/
def ofRead (path : Path) (cause : IoFault) : Failure :=
  if cause.isInvalidData then .invalidEncoding path else .unreadable path cause

def exitCode : Failure → Nat
  | invalidExtension _ => 1
  | rootNotFound _ | notADirectory _ => 2
  | walk _ _ | unreadable _ _ | invalidEncoding _ => 3
  | unwritable _ _ | io _ => 4
  | config _ => 5

def message : Failure → String
  | rootNotFound path => "Root directory not found: " ++ path.text
  | notADirectory path => "Root path is not a directory: " ++ path.text
  | walk path message => "Failed to traverse " ++ path.text ++ ": " ++ message
  | unreadable path cause => "Failed to read " ++ path.text ++ ": " ++ cause.text
  | invalidEncoding path => "File is not valid UTF-8 text: " ++ path.text
  | unwritable path cause => "Failed to write output file " ++ path.text ++ ": " ++ cause.text
  | invalidExtension extension => "Invalid extension: " ++ extension
  | config message => "Configuration error: " ++ message
  | io cause => "IO operation failed: " ++ cause.text

def userMessage : Failure → String
  | rootNotFound path => "Root directory does not exist: " ++ path.text
  | notADirectory path => "Not a directory: " ++ path.text
  | unreadable path cause => "Could not read " ++ path.text ++ ": " ++ cause.text
  | invalidEncoding path => path.text ++ " does not contain valid UTF-8 text"
  | unwritable path cause => "Could not write " ++ path.text ++ ": " ++ cause.text
  | failure => failure.message

def suggestion : Failure → Option String
  | rootNotFound _ | notADirectory _ =>
    some "Pass an existing directory with --root, or run the command from inside it."
  | unreadable _ cause =>
    if cause.isPermissionDenied then
      some "Ensure you have read permission for every matching file."
    else none
  | invalidEncoding _ =>
    some "Only text files can be concatenated. Choose an extension that selects text files only."
  | unwritable _ _ => some "Ensure the root directory is writable and has free space."
  | invalidExtension _ => some "Pass a bare extension such as `rs` or `md`."
  | config _ => some "Check your configuration file syntax and the values of its fields."
  | walk _ _ | io _ => none

/-- The failure with its fields, as a debugging log shows it. -/
def diagnostic : Failure → String
  | rootNotFound path => "RootNotFound \x7b path: " ++ Quoted.path path ++ " \x7d"
  | notADirectory path => "NotADirectory \x7b path: " ++ Quoted.path path ++ " \x7d"
  | walk path message =>
    "Walk \x7b path: " ++ Quoted.path path ++ ", message: " ++ Quoted.text message ++ " \x7d"
  | unreadable path cause =>
    "ReadFile \x7b path: " ++ Quoted.path path ++ ", source: " ++ cause.diagnostic ++ " \x7d"
  | invalidEncoding path => "InvalidEncoding \x7b path: " ++ Quoted.path path ++ " \x7d"
  | unwritable path cause =>
    "WriteOutput \x7b path: " ++ Quoted.path path ++ ", source: " ++ cause.diagnostic ++ " \x7d"
  | invalidExtension extension =>
    "InvalidExtension \x7b extension: " ++ Quoted.text extension ++ " \x7d"
  | config message => "Config \x7b message: " ++ Quoted.text message ++ " \x7d"
  | io cause => "Io(" ++ cause.diagnostic ++ ")"

end Failure

end Collate
