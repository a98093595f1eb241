import Collate.FileTree.Basic

/-!
What became of the files of a tree. Only contents count: a file that is gone, a directory and a link are
no change.
-/
namespace Collate

mutual

/-- The files below a location that the old tree does not have there with the same contents. -/
def Node.changes (old : Option Node) (here : Location) : Node → List (Location × Bytes)
  | .file data _ =>
    match old with
    | some (.file before _) => if before = data then [] else [(here, data)]
    | _ => [(here, data)]
  | .dir es => changedEntries (old.getD (.dir [])) here es
  | _ => []

def changedEntries (old : Node) (here : Location) : List (Name × Node) → List (Location × Bytes)
  | [] => []
  | (n, x) :: es =>
    x.changes (old.get? [n]) (here ++ [n]) ++ changedEntries old here es

end

def FileSystem.changes (old new : FileSystem) : List (Location × Bytes) :=
  new.root.changes (some old.root) []

end Collate
