import Std.Time.DateTime.Timestamp
import Collate.FileTree.Changes
import Collate.Run

/-!
The command. What a run may look at is read from the disk first, and the files that it changed are
written back when it has ended. A link is known by where it leads in the end.
-/
namespace Collate.Disk

/-- How much of a directory is read. -/
structure Reach where
  /-- Whether the directories that links lead to are read too. -/
  followLinks : Bool
  depth : Option Nat
  /-- Whether the contents of a file of this name are needed. -/
  reads : Name → Bool

namespace Reach

def nothing : Reach :=
  ⟨false, some 0, fun _ => false⟩

/-- A link may lead below the depth that is asked for, so there is no limit when links are followed. -/
def ofSettings (extension : String) (s : Settings) : Reach :=
  { followLinks := s.scan.followLinks
    depth := if s.scan.followLinks then none else s.scan.maxDepth
    reads := fun name =>
      Selection.matchesName ⟨Extension.dropDot extension, true, none⟩ name ||
        name == Utf8.encode s.outputName }

def below (r : Reach) : Reach :=
  { r with depth := r.depth.map (· - 1) }

end Reach

/-- A part of the disk, and the absolute paths that the links in it lead to. -/
structure Survey where
  tree : Node
  ends : List Path

def location (p : Path) : Location :=
  p.split.filter (· ≠ [])

/-- Where a path leads, if anywhere. -/
def absolute? (p : Path) : IO (Option Path) := do
  match ← (IO.FS.realPath p.text).toBaseIO with
  | .ok q => return some (Utf8.encode q.toString)
  | .error _ => return none

def contents (e : IO.FS.DirEntry) : IO Bytes := do
  return (← IO.FS.readBinFile e.path).toList

def special (e : IO.FS.DirEntry) : Node :=
  match e.path.toString with
  | "/dev/null" => .device .null
  | "/dev/full" => .device .full
  | _ => .pipe

/-- A link that leads nowhere gets a target that no entry can have as its name. -/
def link (e : IO.FS.DirEntry) : IO Survey := do
  match ← absolute? (Utf8.encode e.path.toString) with
  | some target => return ⟨.link target, [target]⟩
  | none => return ⟨.link [0], []⟩

partial def survey (reach : Reach) (e : IO.FS.DirEntry) : IO Survey := do
  match (← e.path.symlinkMetadata).type with
  | .file =>
    let data ← if reach.reads (Utf8.encode e.fileName) then contents e else pure []
    return ⟨.file data none, []⟩
  | .symlink => link e
  | .other => return ⟨special e, []⟩
  | .dir =>
    if reach.depth == some 0 then return ⟨.dir [], []⟩
    let entries ← (← e.path.readDir).toList.mapM fun inner => do
      return (Utf8.encode inner.fileName, ← survey reach.below inner)
    return ⟨.dir (entries.map fun (n, s) => (n, s.tree)), entries.flatMap (·.2.ends)⟩

/-- An absolute path as an entry of the directory above it. -/
def entry (p : Path) : IO.FS.DirEntry :=
  let loc := location p
  ⟨(Location.path loc.dropLast).text, Path.text (loc.getLastD [])⟩

/-- Adds the links that a path goes through. -/
def addWay (tree : Node) (p : Path) : IO Node := do
  let names := p.split
  names.zipIdx.foldlM (fun tree (name, i) => do
    if name = [] ∨ name = Path.dot ∨ name = Path.dotDot then return tree
    let some above ← absolute? (Path.joinNames (names.take i ++ [Path.dot])) | return tree
    let e : IO.FS.DirEntry := ⟨above.text, Path.text name⟩
    match ← e.path.symlinkMetadata.toBaseIO with
    | .ok found =>
      match found.type with
      | .symlink => return tree.put (location above ++ [name]) (← link e).tree
      | _ => return tree
    | .error _ => return tree) tree

/-- Adds what absolute paths lead to. Files come last, since a directory may be read without their
contents. -/
partial def addEnds (reach : Reach) (listed : List Location) (tree : Node) : List Path → IO Node
  | [] => return tree
  | p :: rest => do
    let loc := location p
    match (← (entry p).path.metadata).type with
    | .dir =>
      if reach.followLinks && !listed.any (·.isPrefixOf loc) then
        let s ← survey reach (entry p)
        addEnds reach (loc :: listed) (tree.put loc s.tree) (s.ends ++ rest)
      else if (tree.get? loc).isSome then addEnds reach listed tree rest
      else addEnds reach listed (tree.put loc (.dir [])) rest
    | .file =>
      let data ← contents (entry p)
      return (← addEnds reach listed tree rest).put loc (.file data none)
    | _ => return (← addEnds reach listed tree rest).put loc (special (entry p))

/-- Adds a root as far as it can be looked at, and the files at other paths. -/
def addPaths (reach : Reach) (tree : Node) (root : Option Path) (others : List Path) : IO Node := do
  let (tree, listed, ends) ← match ← root.bindM absolute? with
    | none => pure (tree, [], [])
    | some q =>
      let s ← survey reach (entry q)
      pure (tree.put (location q) s.tree, [location q], s.ends)
  let tree ← (root.toList ++ others).foldlM addWay tree
  addEnds reach listed tree (ends ++ (← others.filterMapM absolute?))

/-- Everything that a run with these arguments can look at. -/
def fileSystem (a : Arguments) : IO FileSystem := do
  let cwd := location (Utf8.encode (← IO.currentDir).toString)
  let settingsFile := a.config.toList
  let start := (Node.dir []).put cwd (.dir [])
  let fs : FileSystem := ⟨← addPaths .nothing start none settingsFile, cwd⟩
  match Settings.load fs a with
  | .error _ => return fs
  | .ok settings =>
    return ⟨← addPaths (.ofSettings a.extension settings) start (a.rootPath fs) settingsFile, cwd⟩

def write (old new : FileSystem) : IO Unit :=
  (old.changes new).forM fun (loc, data) =>
    IO.FS.writeBinFile (Location.path loc).text ⟨data.toArray⟩

/-- Whether lines are styled. -/
def isStyled : IO Bool := do
  if (← IO.getEnv "NO_COLOR").isSome then return false
  match ← IO.getEnv "TERM" with
  | none | some "dumb" => return false
  | some _ => (← IO.getStdout).isTty

def clock (started : Nat) : IO Clock := do
  let now := (← Std.Time.Timestamp.now).val
  let nanos := (← IO.monoNanosNow) - started
  return ⟨⟨now.second.val, now.nano.val.toNat⟩, .of 0 nanos⟩

def surroundings (started : Nat) (arguments : List Bytes) : IO Surroundings := do
  let fileSystem ← match Arguments.read arguments with
    | .ok a => fileSystem a
    | .error _ => pure ⟨.dir [], []⟩
  return {
    fileSystem
    logFilter := ← IO.getEnv "RUST_LOG"
    terminal := ← isStyled
    clock := ← clock started }

end Collate.Disk

def main (arguments : List String) : IO UInt32 := do
  let arguments := arguments.map Collate.Utf8.encode
  let found ← Collate.Disk.surroundings (← IO.monoNanosNow) arguments
  let done := Collate.Run.run found arguments
  Collate.Disk.write found.fileSystem done.fileSystem
  (← IO.getStdout).putStr done.stdout
  (← IO.getStderr).putStr done.stderr
  return done.exitCode.toUInt32
