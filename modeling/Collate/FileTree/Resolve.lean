import Collate.Failure
import Collate.FileTree.Basic

/-!
Where a path leads. Each part of a path is looked up in the directory reached so far, and a link stands
for its target, read from the directory that holds it. At most 40 links are followed for one path.
-/
namespace Collate

/-- What is to happen at the end of a path: follow a link there, keep it, or make what is missing. -/
inductive Ending where
  | follow
  | keep
  | create
deriving DecidableEq, Repr

inductive Place where
  | found (at_ : Location)
  /-- No entry yet, in a directory that is there. -/
  | vacant (directory : Location) (name : Name)
deriving DecidableEq, Repr

namespace FileSystem

def nameLimit : Nat := 255

def linkLimit : Nat := 40

/-- Paths have fewer octets than this; what a link adds does not count. -/
def pathLimit : Nat := 4096

/-- Whether the part before is the last one, with slashes after it. -/
def isTrailing (rest : List Name) : Bool :=
  !rest.isEmpty && rest.all (·.isEmpty)

/-- `follow` goes on with the parts of a link's target and the parts after the link. -/
def resolveFrom (fs : FileSystem) (ending : Ending)
    (follow : Location → List Name → Except Refusal Place) :
    Location → List Name → Except Refusal Place
  | here, [] => .ok (.found here)
  | here, part :: rest =>
    match fs.get? here with
    | some (.dir es) =>
      if part = [] ∨ part = Path.dot then resolveFrom fs ending follow here rest
      else if part = Path.dotDot then resolveFrom fs ending follow here.dropLast rest
      else if ending = .create ∧ isTrailing rest then .error .isADirectory
      else if nameLimit < part.length then .error .nameTooLong
      else
        match Entries.get? es part with
        | none =>
          if ending = .create ∧ rest = [] then .ok (.vacant here part) else .error .notFound
        | some (.link target) =>
          if ending = .keep ∧ rest = [] then .ok (.found (here ++ [part]))
          else follow (if target.isAbsolute then [] else here) (target.split ++ rest)
        | some _ => resolveFrom fs ending follow (here ++ [part]) rest
    | _ => .error .notADirectory

/-- Follows at most so many links. -/
def resolveWithin (fs : FileSystem) (ending : Ending) :
    Nat → Location → List Name → Except Refusal Place
  | 0 => fs.resolveFrom ending fun _ _ => .error .tooManyLinks
  | links + 1 => fs.resolveFrom ending (fs.resolveWithin ending links)

def resolve (fs : FileSystem) (ending : Ending) (p : Path) : Except IoFault Place :=
  if p.hasNul then .error .nulInPath
  else if p = [] then .error (.refused .notFound)
  else if pathLimit ≤ p.length then .error (.refused .nameTooLong)
  else
    match fs.resolveWithin ending linkLimit (if p.isAbsolute then [] else fs.cwd) p.split with
    | .ok place => .ok place
    | .error reason => .error (.refused reason)

/-- What is at the end of a path, with its location. -/
def find (fs : FileSystem) (ending : Ending) (p : Path) : Except IoFault (Location × Node) :=
  match fs.resolve ending p with
  | .error fault => .error fault
  | .ok (.vacant _ _) => .error (.refused .notFound)
  | .ok (.found loc) =>
    match fs.get? loc with
    | some x => .ok (loc, x)
    | none => .error (.refused .notFound)

/-- Follows every link. -/
def stat (fs : FileSystem) (p : Path) : Except IoFault (Location × Node) :=
  fs.find .follow p

end FileSystem

end Collate
