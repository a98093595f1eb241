import Collate.FileTree.Access
import Collate.Scan.Walk
import Collate.Selection
import Collate.Settings
import Collate.Source

/-!
Finding the files to concatenate. The walk meets every entry in a fixed order; those that the selection
matches are resolved to files, and the first failure in that order ends the scan.
-/
namespace Collate

structure Scan where
  selection : Selection
  followLinks : Bool
  maxDepth : Option Nat

namespace Scan

def ofSettings (extension : String) (s : ScanSettings) (excluded : Option Path) : Scan :=
  { selection := ⟨extension, s.includeHidden, excluded⟩
    followLinks := s.followLinks
    maxDepth := s.maxDepth }

def rule (s : Scan) : WalkRule :=
  ⟨s.followLinks, s.selection.allowsName⟩

def Visit.source (v : Visit) (size : Nat) : Source :=
  ⟨v.path, Path.joinNames v.names, size⟩

/-- The file that a matching entry stands for. A link is resolved even where links are not followed. -/
def source? (fs : FileSystem) (v : Visit) : Except Failure (Option Source) :=
  match v.kind with
  | .file size =>
    if FileSystem.pathLimit ≤ v.path.length then .error (Failure.pathTooLong v.path)
    else .ok (some (Visit.source v size))
  | .special => .ok none
  | .link =>
    match fs.stat v.path with
    | .error fault => .error (.unreadable v.path fault)
    | .ok (_, .file data _) => .ok (some (Visit.source v data.length))
    | .ok _ => .ok none

def collect (fs : FileSystem) (s : Selection) : List Visit → Except Failure (List Source)
  | [] => .ok []
  | v :: vs =>
    if s.isMatch v.path then do
      let f ← source? fs v
      let fs ← collect fs s vs
      return f.toList ++ fs
    else collect fs s vs

/-- The entries passed over for their name, up to the first failure. -/
def skipped (fs : FileSystem) (s : Selection) : List Visit → List Path
  | [] => []
  | v :: vs =>
    if s.isMatch v.path then
      match source? fs v with
      | .ok _ => skipped fs s vs
      | .error _ => []
    else v.path :: skipped fs s vs

/-- A root that is a link itself is met before what is below it, unless links are followed. -/
def rootVisit (fs : FileSystem) (s : Scan) (root : Path) : List Visit :=
  if s.followLinks then []
  else
    match fs.find .keep root with
    | .ok (_, .link _) => [⟨root, [], .link⟩]
    | _ => []

def walkRoot (fs : FileSystem) (s : Scan) (root : Path) : Except Failure Walk :=
  match fs.sorted.stat root with
  | .error _ => .error (.rootNotFound root)
  | .ok (loc, .dir es) =>
    .ok (Walk.andThen ⟨s.rootVisit fs root, none⟩ (walk fs.sorted s.rule s.maxDepth root loc es))
  | .ok _ => .error (.notADirectory root)

/-- What the walk finds is looked at before what makes it fail. -/
def files (fs : FileSystem) (s : Scan) (root : Path) : Except Failure (List Source) := do
  let w ← s.walkRoot fs root
  let found ← collect fs s.selection w.visits
  match w.failure with
  | some f => .error f
  | none => .ok found

end Scan

end Collate
