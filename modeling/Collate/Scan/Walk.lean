import Collate.FileTree.Resolve

/-!
Walking a tree. Entries are met depth first, each directory in the order it is listed. When links are
followed, a link to a directory is walked like a directory, unless it leads back to one of the
directories on the way to it.
-/
namespace Collate

inductive VisitKind where
  | file (size : Nat)
  /-- A link that the walk did not follow. -/
  | link
  | special
deriving DecidableEq, Repr

/-- An entry other than a directory, as the walk meets it. -/
structure Visit where
  path : Path
  /-- The names from the root of the walk to the entry. -/
  names : List Name
  kind : VisitKind
deriving DecidableEq, Repr

/-- What a walk met until it ended or failed. -/
structure Walk where
  visits : List Visit
  failure : Option Failure
deriving DecidableEq, Repr

namespace Walk

def nothing : Walk := ⟨[], none⟩

def visit (v : Visit) : Walk := ⟨[v], none⟩

def fail (f : Failure) : Walk := ⟨[], some f⟩

/-- Goes on unless the first walk failed. -/
def andThen (a b : Walk) : Walk :=
  match a.failure with
  | some _ => a
  | none => ⟨a.visits ++ b.visits, b.failure⟩

end Walk

structure WalkRule where
  followLinks : Bool
  /-- Whether an entry of this name is met. -/
  admits : Name → Bool

/-- A directory on a walk. -/
structure Directory where
  path : Path
  names : List Name
  location : Location
  /-- How many levels may still be entered. -/
  room : Option Nat
  /-- This directory and those it was reached through, innermost first. -/
  trail : List (Location × Path)

namespace Directory

def isClosed (d : Directory) : Bool :=
  d.room == some 0

/-- The directory that is entered for the entry `n`, at its own location or at that of a link's end. -/
def enter (d : Directory) (n : Name) (loc : Location) : Directory :=
  { path := d.path.entry n
    names := d.names ++ [n]
    location := loc
    room := d.room.map (· - 1)
    trail := (loc, d.path.entry n) :: d.trail }

def visit (d : Directory) (n : Name) (kind : VisitKind) : Walk :=
  .visit ⟨d.path.entry n, d.names ++ [n], kind⟩

end Directory

def loopMessage (link ancestor : Path) : String :=
  "File system loop found: " ++ link.text ++ " points to an ancestor " ++ ancestor.text

/-- A link that is followed. A name that is not admitted is passed over only once its target is
known. -/
def walkLink (fs : FileSystem) (rule : WalkRule) (follow : Directory → Entries → Walk)
    (d : Directory) (n : Name) : Walk :=
  let path := d.path.entry n
  match fs.stat path with
  | .error fault => .fail (.unreadable path fault)
  | .ok (loc, .dir es) =>
    match d.trail.find? (·.1 = loc) with
    | some (_, ancestor) => .fail (.walk path (loopMessage path ancestor))
    | none => if rule.admits n then follow (d.enter n loc) es else .nothing
  | .ok (_, .file data _) => if rule.admits n then d.visit n (.file data.length) else .nothing
  | .ok _ => if rule.admits n then d.visit n .special else .nothing

mutual

def walkEntry (fs : FileSystem) (rule : WalkRule) (follow : Directory → Entries → Walk)
    (d : Directory) (n : Name) : Node → Walk
  | .link _ =>
    if rule.followLinks then walkLink fs rule follow d n
    else if rule.admits n then d.visit n .link
    else .nothing
  | .dir es =>
    if !rule.admits n then .nothing
    else
      let inner := d.enter n (d.location ++ [n])
      if inner.isClosed then .nothing
      else if FileSystem.pathLimit ≤ inner.path.length then .fail (Failure.pathTooLong inner.path)
      else walkEntries fs rule follow inner es
  | .file data _ => if rule.admits n then d.visit n (.file data.length) else .nothing
  | .pipe => if rule.admits n then d.visit n .special else .nothing
  | .device _ => if rule.admits n then d.visit n .special else .nothing

def walkEntries (fs : FileSystem) (rule : WalkRule) (follow : Directory → Entries → Walk)
    (d : Directory) : List (Name × Node) → Walk
  | [] => .nothing
  | (n, x) :: es => (walkEntry fs rule follow d n x).andThen (walkEntries fs rule follow d es)

end

/-- Follows at most so many links, one inside the other; a path with more of them is not resolved. -/
def walkWithin (fs : FileSystem) (rule : WalkRule) : Nat → Directory → Entries → Walk
  | 0, d, es =>
    if d.isClosed then .nothing
    else walkEntries fs rule (fun d _ => .fail (.unreadable d.path (.refused .tooManyLinks))) d es
  | links + 1, d, es =>
    if d.isClosed then .nothing else walkEntries fs rule (walkWithin fs rule links) d es

/-- Walks the entries below a root, at most `depth` levels. -/
def walk (fs : FileSystem) (rule : WalkRule) (depth : Option Nat) (root : Path) (loc : Location)
    (es : Entries) : Walk :=
  walkWithin fs rule FileSystem.linkLimit
    { path := root, names := [], location := loc, room := depth, trail := [(loc, root)] } es

end Collate
