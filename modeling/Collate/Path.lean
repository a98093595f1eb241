import Collate.Text.Parts
import Collate.Text.Quoted

/-!
Paths as octets. The components of a path leave out empty parts and every `.` but a leading one;
two paths are the same when their components are. Nothing here looks at a file system.
-/
namespace Collate

abbrev Path := Bytes

abbrev Name := Bytes

namespace Path

def slash : UInt8 := 0x2F

def dot : Name := [0x2E]

def dotDot : Name := [0x2E, 0x2E]

def split (p : Path) : List Name :=
  parts (· == slash) p

def joinNames : List Name → Path
  | [] => []
  | [n] => n
  | n :: ns => n ++ slash :: joinNames ns

inductive Component where
  | root
  | current
  | parent
  | normal (name : Name)
deriving DecidableEq

def component? (part : Name) : Option Component :=
  if part = [] ∨ part = dot then none
  else if part = dotDot then some .parent
  else some (.normal part)

def isAbsolute (p : Path) : Bool :=
  p.head? == some slash

def components (p : Path) : List Component :=
  let parts := split p
  let inner := parts.filterMap component?
  if p.isAbsolute then .root :: inner
  else if parts.head? = some dot then .current :: inner
  else inner

def same (p q : Path) : Bool :=
  decide (p.components = q.components)

def fileName? (p : Path) : Option Name :=
  match p.components.getLast? with
  | some (.normal n) => some n
  | _ => none

/-- The entry named `n` of the directory at `p`. -/
def entry (p : Path) (n : Name) : Path :=
  if p = [] ∨ p.getLast? = some slash then p ++ n else p ++ slash :: n

/-- `q` as seen from `p`: an absolute path stands for itself. -/
def join (p q : Path) : Path :=
  if q.isAbsolute then q else p.entry q

/-- Holds one normal component and nothing else, so it names an entry of the directory it is used in. -/
def isPlainName (p : Path) : Bool :=
  match p.components with
  | [.normal _] => true
  | _ => false

def hasNul (p : Path) : Bool :=
  p.contains 0

def text (p : Path) : String :=
  Utf8.lossy p

/-- The normal components with slashes between them. -/
def display (p : Path) : String :=
  "/".intercalate <| p.components.filterMap fun
    | .normal n => some (Utf8.lossy n)
    | _ => none

end Path

end Collate
