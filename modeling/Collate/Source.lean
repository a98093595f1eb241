import Collate.Path
import Collate.Text.Size

/-!
Files to be concatenated, and what a list of them amounts to.
-/
namespace Collate

structure Source where
  path : Path
  /-- The path as seen from the root of the search. -/
  relative : Path
  size : Nat
deriving DecidableEq, Repr

def Source.display (s : Source) : String :=
  s.relative.display

def Source.totalSize (files : List Source) : Nat :=
  files.foldr (fun f n => f.size + n) 0

structure Statistics where
  totalFiles : Nat
  totalSize : Nat
  largestSize : Nat
  largestPath : Path
deriving DecidableEq, Repr

namespace Statistics

/-- Of equally large files the last one counts as the largest. -/
def largest? (files : List Source) : Option Source :=
  files.foldl (fun best f =>
    match best with
    | some b => if f.size < b.size then some b else some f
    | none => some f) none

def ofFiles (files : List Source) : Statistics :=
  let largest := largest? files
  { totalFiles := files.length
    totalSize := Source.totalSize files
    largestSize := (largest.map (·.size)).getD 0
    largestPath := (largest.map (·.relative)).getD [] }

def summary (s : Statistics) : String :=
  "Scan Results:\n  Total files: " ++ toString s.totalFiles ++
    "\n  Total size: " ++ Size.text s.totalSize ++ "\n" ++
    if 0 < s.largestSize then
      "  Largest file: " ++ s.largestPath.text ++ " (" ++ Size.text s.largestSize ++ ")\n"
    else ""

end Statistics

end Collate
