import Collate.Pattern.Basic

/-!
Characters between brackets: single ones, ranges, named classes, brackets in brackets, and the operators
that combine what is before and after them.
-/
namespace Collate.Pattern

/-- Brackets that have been opened. -/
structure Bracket where
  isNegated : Bool
  /-- The depth of what is before the last operator. -/
  left : Option Nat
  items : Sequence
deriving DecidableEq, Repr

namespace Bracket

def push (b : Bracket) (depth : Nat) : Bracket :=
  { b with items := b.items.push depth }

def content (b : Bracket) : Nat :=
  match b.left with
  | some depth => max depth b.items.depth + 1
  | none => b.items.depth

def operator (b : Bracket) : Bracket :=
  { b with left := some b.content, items := .empty }

/-- The other characters include octets above ASCII. -/
def isAllowed (m : Mode) (isNegated : Bool) : Bool :=
  if m.octets then !isNegated else !m.ignoreCase

/-- The dashes that brackets may start with. -/
def readDashes (m : Mode) : Nat → Bracket → List Char → Option (Bracket × List Char)
  | 0, _, _ => none
  | fuel + 1, b, cs =>
    match cs with
    | [] => none
    | '-' :: r => readDashes m fuel (b.push 0) (m.skip r)
    | ']' :: r => if b.items.size = 0 then some (b.push 0, m.skip r) else some (b, cs)
    | _ => some (b, cs)

/-- What follows an opening bracket, up to the first ordinary item. A closing bracket in the first place
stands for itself. -/
def begin? (m : Mode) (fuel : Nat) (cs : List Char) : Option (Bracket × List Char) :=
  match m.skip cs with
  | '^' :: r => readDashes m fuel ⟨true, none, .empty⟩ (m.skip r)
  | r => readDashes m fuel ⟨false, none, .empty⟩ r

def classNames : List String :=
  ["alnum", "alpha", "ascii", "blank", "cntrl", "digit", "graph", "lower", "print", "punct", "space",
    "upper", "word", "xdigit"]

/-- A named class after its first bracket: whether it is negated, and the rest. -/
def readClass (cs : List Char) : Option (Bool × List Char) :=
  match cs with
  | ':' :: r =>
    let isNegated := r.head? == some '^'
    let r := if isNegated then r.drop 1 else r
    match r.dropWhile (· != ':') with
    | ':' :: ']' :: rest =>
      if classNames.contains (String.ofList (r.takeWhile (· != ':'))) then some (isNegated, rest)
      else none
    | _ => none
  | _ => none

def readPrimitive (m : Mode) : List Char → Option (Primitive × List Char)
  | [] => none
  | '\\' :: r => readEscape m r
  | c :: r => some (.literal c false, r)

def isRange (m : Mode) (first last : Primitive) : Bool :=
  match first, last with
  | .literal c _, .literal d _ =>
    first.isAllowedInside m && last.isAllowedInside m && c.toNat ≤ d.toNat
  | _, _ => false

/-- One character, or a range: a dash before another dash or the closing bracket makes none. -/
def readItem (m : Mode) (cs : List Char) : Option (List Char) := do
  let (first, r) ← readPrimitive m cs
  match m.skip r with
  | [] => none
  | '-' :: s =>
    if m.peek? s = some ']' ∨ m.peek? s = some '-' then
      if first.isAllowedInside m then some ('-' :: s) else none
    else
      let (last, r) ← readPrimitive m (m.skip s)
      if isRange m first last then some r else none
  | r => if first.isAllowedInside m then some r else none

/-- Reads up to the closing bracket. Gives the depth and the rest. -/
def readFrom (m : Mode) : Nat → Bracket → List Char → Option (Nat × List Char)
  | 0, _, _ => none
  | fuel + 1, b, cs =>
    match m.skip cs with
    | [] => none
    | ']' :: r => if isAllowed m b.isNegated then some (b.content + 1, r) else none
    | '&' :: '&' :: r => readFrom m fuel b.operator r
    | '-' :: '-' :: r => readFrom m fuel b.operator r
    | '~' :: '~' :: r => readFrom m fuel b.operator r
    | '[' :: r =>
      match readClass r with
      | some (isNegated, r) => if isAllowed m isNegated then readFrom m fuel (b.push 0) r else none
      | none => do
        let (inner, r) ← begin? m fuel r
        let (depth, r) ← readFrom m fuel inner r
        readFrom m fuel (b.push depth) r
    | r => do readFrom m fuel (b.push 0) (← readItem m r)

/-- `cs` is what follows the opening bracket, and `fuel` has to be more than its length. -/
def read (m : Mode) (fuel : Nat) (cs : List Char) : Option (Nat × List Char) := do
  let (b, r) ← begin? m fuel cs
  readFrom m fuel b r

end Bracket

end Collate.Pattern
