import Collate.Pattern.Bracket
import Collate.Text.Alphanumeric

/-!
Which texts are patterns: sequences and alternatives of characters, groups and repetitions. A group may
be named, and may set flags for what is inside it; flags of their own hold up to the end of the group.
-/
namespace Collate.Pattern

/-- Parts may be nested this deep. -/
def depthLimit : Nat := 250

/-- What is being read: the whole pattern, or the inside of a group. -/
structure Part where
  mode : Mode
  isGroup : Bool
  /-- The depth of the deepest alternative before this one. -/
  earlier : Option Nat
  sequence : Sequence
deriving DecidableEq, Repr

namespace Part

def start (mode : Mode) (isGroup : Bool) : Part :=
  ⟨mode, isGroup, none, .empty⟩

def push (p : Part) (depth : Nat) : Part :=
  { p with sequence := p.sequence.push depth }

def setMode (p : Part) (mode : Mode) : Part :=
  { p with mode, sequence := p.sequence.pushFlags }

def nextAlternative (p : Part) : Part :=
  { p with earlier := some (max (p.earlier.getD 0) p.sequence.depth), sequence := .empty }

def depth (p : Part) : Nat :=
  match p.earlier with
  | some depth => max depth p.sequence.depth + 1
  | none => p.sequence.depth

end Part

/-- Reads flags and the sign that ends them. No flag may be set twice, and a minus sign turns off all
that follow it. -/
def readFlags (m : Mode) (seen : List Char) : List Char → Option (Mode × Char × List Char)
  | [] => none
  | c :: r =>
    if c == ':' || c == ')' then
      if seen.head? == some '-' then none else some (m, c, r)
    else if seen.contains c then none
    else if c == '-' then readFlags m (c :: seen) r
    else
      match m.set? c !(seen.contains '-') with
      | some m => readFlags m (c :: seen) r
      | none => none

def isName (cs : List Char) : Bool :=
  match cs with
  | [] => false
  | c :: r =>
    (c == '_' || Alphanumeric.isLetter c) &&
      r.all fun c => c == '_' || c == '.' || c == '[' || c == ']' || Alphanumeric.contains c

/-- What an opening parenthesis starts. -/
inductive Opening where
  | flags (mode : Mode)
  | group (mode : Mode) (names : List (List Char))
deriving DecidableEq, Repr

/-- Reads a name up to its closing angle bracket; no two groups have the same. -/
def openNamed (m : Mode) (names : List (List Char)) (cs : List Char) :
    Option (Opening × List Char) :=
  let name := cs.takeWhile (· != '>')
  match cs.dropWhile (· != '>') with
  | [] => none
  | _ :: r =>
    if isName name && !names.contains name then some (.group m (name :: names), r) else none

/-- `cs` is what follows the parenthesis, and `names` are those in use. -/
def openGroup (m : Mode) (names : List (List Char)) (cs : List Char) :
    Option (Opening × List Char) :=
  match m.skip cs with
  | '?' :: 'P' :: '<' :: r => openNamed m names r
  | '?' :: '<' :: r => openNamed m names r
  | '?' :: r =>
    match readFlags m [] r with
    | some (mode, ':', rest) => some (.group mode names, rest)
    | some (mode, _, rest) => if r.head? == some ')' then none else some (.flags mode, rest)
    | none => none
  | r => some (.group m names, r)

/-- Reads up to the end of a part. Gives its depth, the names in use and the rest. -/
def readPart : Nat → Part → List (List Char) → List Char →
    Option (Nat × List (List Char) × List Char)
  | 0, _, _, _ => none
  | fuel + 1, p, names, cs =>
    let single := fun (x : Primitive) r =>
      if x.isAllowed p.mode then readPart fuel (p.push 0) names r else none
    match p.mode.skip cs with
    | [] => if p.isGroup then none else some (p.depth, names, [])
    | c :: r =>
      match c with
      | ')' => if p.isGroup then some (p.depth, names, r) else none
      | '|' => readPart fuel p.nextAlternative names r
      | '*' | '+' | '?' => do
        let s ← p.sequence.repeatLast?
        readPart fuel { p with sequence := s } names (if r.head? == some '?' then r.drop 1 else r)
      | '{' => none
      | '[' => do
        let (depth, r) ← Bracket.read p.mode fuel r
        readPart fuel (p.push depth) names r
      | '(' => do
        match ← openGroup p.mode names r with
        | (.flags mode, r) => readPart fuel (p.setMode mode) names r
        | (.group mode names, r) =>
          let (depth, names, r) ← readPart fuel (.start mode true) names r
          readPart fuel (p.push (depth + 1)) names r
      | '\\' => do
        let (x, r) ← readEscape p.mode r
        single x r
      | '.' => single .any r
      | '^' | '$' => single .edge r
      | c => single (.literal c false) r

/-- No number of repetitions can be given: a brace outside of brackets is refused. -/
def isValid (cs : List Char) : Bool :=
  match readPart (cs.length + 1) (.start .plain false) [] cs with
  | some (depth, _, _) => depth ≤ depthLimit
  | none => false

end Collate.Pattern
