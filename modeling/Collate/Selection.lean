import Collate.Path

/-!
Which entries of a directory take part. The name test is the shell pattern `*.<extension>`: it looks at
octets, minds case, and the suffix alone does not count.
-/
namespace Collate

structure Selection where
  extension : String
  includeHidden : Bool
  excluded : Option Path

namespace Selection

def suffix (s : Selection) : String :=
  "." ++ s.extension

def suffixBytes (s : Selection) : Bytes :=
  Utf8.encode s.suffix

def matchesName (s : Selection) (name : Name) : Bool :=
  decide (s.suffixBytes.length < name.length) && s.suffixBytes.isSuffixOf name

def isExcluded (s : Selection) (p : Path) : Bool :=
  match s.excluded with
  | some q => q.same p
  | none => false

/-- The last component has to be text as well as to match. -/
def isMatch (s : Selection) (p : Path) : Bool :=
  !s.isExcluded p &&
    match p.fileName? with
    | some name => Utf8.isValid name && s.matchesName name
    | none => false

/-- An entry whose name starts with a dot is hidden. -/
def allowsName (s : Selection) (name : Name) : Bool :=
  s.includeHidden || name.head? != some 0x2E

end Selection

end Collate
