import Collate.Arguments.Basic
import Collate.Event
import Collate.FileTree.Access
import Collate.Settings.Toml

/-!
Settings from a file and the command line. Validation looks only at the merged result.
-/
namespace Collate.Settings

def missingFile (path : Path) : Failure :=
  .config ("Configuration file not found: " ++ path.text)

def unreadableFile (path : Path) (fault : IoFault) : Failure :=
  .config ("Failed to read config file " ++ path.text ++ ": " ++ fault.text)

def malformedFile (path : Path) : Failure :=
  .config ("Failed to parse config file " ++ path.text ++ ": TOML parse error")

def loadFile (fs : FileSystem) (path : Path) : Except Failure Settings :=
  if !(fs.stat path).toBool then .error (missingFile path)
  else
    match fs.readText path with
    | .error fault => .error (unreadableFile path fault)
    | .ok data =>
      match (Utf8.decode? data).bind ofToml? with
      | some settings => .ok settings
      | none => .error (malformedFile path)

def loadOrDefault (fs : FileSystem) : Option Path → Except Failure Settings
  | some path => loadFile fs path
  | none => .ok default

def validated (s : Settings) : Except Failure Settings :=
  match s.validate with
  | .ok () => .ok s
  | .error e => .error (.config e.message)

def load (fs : FileSystem) (a : Arguments) : Except Failure Settings := do
  validated ((← loadOrDefault fs a.config).merge a.overrides)

def loadEvents (fs : FileSystem) (a : Arguments) : List Event :=
  match a.config with
  | some path => if (loadFile fs path).toBool then [.settingsLoaded path] else []
  | none => []

end Collate.Settings
