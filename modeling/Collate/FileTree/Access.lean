import Collate.FileTree.Resolve

/-!
Reading text files and writing an output. Making an output empties the file that the path leads to, or
adds one; writing appends to it.
-/
namespace Collate

namespace FileSystem

/-- A pipe is read as the null device is. Opening a real one waits for a writer, who says what is read. -/
def readNode : Node → Except IoFault Bytes
  | .file data _ => if Utf8.isValid data then .ok data else .error .notText
  | .device .null | .pipe => .ok []
  | .device .full => .error (.refused .outOfMemory)
  | .dir _ | .link _ => .error (.refused .isADirectory)

/-- The whole file, which has to be UTF-8. -/
def readText (fs : FileSystem) (p : Path) : Except IoFault Bytes := do
  readNode (← fs.stat p).2

end FileSystem

inductive Output where
  | file (at_ : Location)
  /-- Writing has no effect. -/
  | void
  /-- Every write is refused. -/
  | full
deriving DecidableEq, Repr

namespace FileSystem

/-- A pipe is opened as the null device is. Opening a real one waits for a reader. -/
def truncate (fs : FileSystem) (loc : Location) : Except IoFault (FileSystem × Output) :=
  match fs.get? loc with
  | some (.file data room) =>
    .ok (fs.put loc (.file [] (room.map (· + data.length))), .file loc)
  | some (.device .null) | some .pipe => .ok (fs, .void)
  | some (.device .full) => .ok (fs, .full)
  | _ => .error (.refused .isADirectory)

def create (fs : FileSystem) (p : Path) : Except IoFault (FileSystem × Output) :=
  match fs.resolve .create p with
  | .error fault => .error fault
  | .ok (.found loc) => fs.truncate loc
  | .ok (.vacant dir name) => .ok (fs.put (dir ++ [name]) Node.newFile, .file (dir ++ [name]))

def append (fs : FileSystem) (o : Output) (bytes : Bytes) : FileSystem × Option Refusal :=
  match o with
  | .void => (fs, none)
  | .full => (fs, if bytes.isEmpty then none else some .noSpace)
  | .file loc =>
    match fs.get? loc with
    | some (.file data none) => (fs.put loc (.file (data ++ bytes) none), none)
    | some (.file data (some room)) =>
      (fs.put loc (.file (data ++ bytes.take room) (some (room - bytes.length))),
        if bytes.length ≤ room then none else some .noSpace)
    | _ => (fs, none)

end FileSystem

end Collate
