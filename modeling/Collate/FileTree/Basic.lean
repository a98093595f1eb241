import Collate.Path

/-!
Trees of files. A location is the list of names from the top, and no link is followed on the way; so
two locations are the same file only if they are equal.
-/
namespace Collate

inductive Device where
  /-- Empty to read, and swallows what is written. -/
  | null
  /-- Endless to read, and refuses every write. -/
  | full
deriving DecidableEq, Repr

inductive Node where
  /-- `room` bounds the octets that can still be added. -/
  | file (data : Bytes) (room : Option Nat)
  | dir (entries : List (Name × Node))
  | link (target : Path)
  | pipe
  | device (d : Device)
deriving Inhabited

abbrev Entries := List (Name × Node)

abbrev Location := List Name

namespace Entries

def get? (es : Entries) (n : Name) : Option Node :=
  es.lookup n

/-- Replaces the entry of that name, or adds it at the end. -/
def set (n : Name) (x : Node) : Entries → Entries
  | [] => [(n, x)]
  | (m, y) :: es => if m = n then (m, x) :: es else (m, y) :: set n x es

def erase (n : Name) : Entries → Entries
  | [] => []
  | (m, y) :: es => if m = n then es else (m, y) :: erase n es

end Entries

namespace Node

def newFile : Node :=
  .file [] none

def get? : Node → Location → Option Node
  | x, [] => some x
  | .dir es, n :: ns => (Entries.get? es n).bind fun x => x.get? ns
  | _, _ :: _ => none

/-- Puts a node at a location, replacing what is there. Missing directories on the way are made. -/
def put : Node → Location → Node → Node
  | _, [], y => y
  | .dir es, n :: ns, y => .dir (Entries.set n (((Entries.get? es n).getD (.dir [])).put ns y) es)
  | _, n :: ns, y => .dir [(n, (Node.dir []).put ns y)]

def remove : Node → Location → Node
  | .dir es, [n] => .dir (Entries.erase n es)
  | .dir es, n :: ns =>
    match Entries.get? es n with
    | some x => .dir (Entries.set n (x.remove ns) es)
    | none => .dir es
  | x, _ => x

end Node

def Entries.insertByName (n : Name) (x : Node) : Entries → Entries
  | [] => [(n, x)]
  | (m, y) :: es => if m < n then (m, y) :: insertByName n x es else (n, x) :: (m, y) :: es

mutual

/-- The same tree with every directory listed in the order of its names' octets. -/
def Node.sorted : Node → Node
  | .dir es => .dir (sortedEntries es)
  | x => x

def sortedEntries : List (Name × Node) → List (Name × Node)
  | [] => []
  | (n, x) :: es => Entries.insertByName n x.sorted (sortedEntries es)

end

/-- A tree and the directory that relative paths start from. -/
structure FileSystem where
  root : Node
  cwd : Location

namespace FileSystem

def get? (fs : FileSystem) (loc : Location) : Option Node :=
  fs.root.get? loc

def put (fs : FileSystem) (loc : Location) (x : Node) : FileSystem :=
  { fs with root := fs.root.put loc x }

def remove (fs : FileSystem) (loc : Location) : FileSystem :=
  { fs with root := fs.root.remove loc }

def sorted (fs : FileSystem) : FileSystem :=
  { fs with root := fs.root.sorted }

end FileSystem

def Location.path (loc : Location) : Path :=
  Path.slash :: Path.joinNames loc

end Collate
