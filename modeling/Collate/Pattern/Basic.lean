import Collate.Text.Blank
import Collate.Text.Escape

/-!
Regular expressions, as far as it counts whether one is well formed: the modes that its flags set, what
stands for a single character, and how deep its parts are nested.

Character classes are those of ASCII. A pattern matches text and never an octet of it alone, so in the
mode of octets it may not ask for anything that such an octet would match.
-/
namespace Collate.Pattern

structure Mode where
  ignoreCase : Bool
  /-- Blanks are skipped, and so is the rest of a line after `#`. -/
  spaced : Bool
  octets : Bool
deriving DecidableEq, Repr

namespace Mode

def plain : Mode := ⟨false, false, false⟩

def skipFrom (inComment : Bool) : List Char → List Char
  | [] => []
  | c :: r =>
    if inComment then skipFrom (c != '\n') r
    else if c == '#' then skipFrom true r
    else if isBlank c then skipFrom false r
    else c :: r

def skip (m : Mode) (cs : List Char) : List Char :=
  if m.spaced then skipFrom false cs else cs

/-- The next character that counts. After `#` this is one of the comment. -/
def peek? (m : Mode) (cs : List Char) : Option Char :=
  if m.spaced then
    match cs.dropWhile isBlank with
    | '#' :: r => (r.dropWhile isBlank).head?
    | r => r.head?
  else cs.head?

/-- The mode after a flag. Some flags only change what a pattern matches. -/
def set? (m : Mode) (flag : Char) (isOn : Bool) : Option Mode :=
  match flag with
  | 'i' => some { m with ignoreCase := isOn }
  | 'x' => some { m with spaced := isOn }
  | 'u' => some { m with octets := !isOn }
  | 'm' | 's' | 'U' | 'R' => some m
  | _ => none

end Mode

/-- What stands for one character, or for a place between two. -/
inductive Primitive where
  /-- `isOctet` if it is written as two hexadecimal digits. -/
  | literal (c : Char) (isOctet : Bool)
  | shorthand (isNegated : Bool)
  | any
  | edge
  | wordEdge
deriving DecidableEq, Repr

namespace Primitive

def isAscii (c : Char) : Bool :=
  c.toNat < 0x80

/-- Outside of brackets. There are no tables for the case, the digits or the words of all scripts, so what
would need one is refused. -/
def isAllowed (m : Mode) : Primitive → Bool
  | literal c isOctet => if m.octets then !isOctet || isAscii c else !m.ignoreCase
  | shorthand isNegated => m.octets && !isNegated
  | any => !m.octets
  | edge => true
  | wordEdge => m.octets

/-- Between brackets, which see to the case themselves. -/
def isAllowedInside (m : Mode) : Primitive → Bool
  | literal c _ => !m.octets || isAscii c
  | shorthand isNegated => m.octets && !isNegated
  | _ => false

end Primitive

def readHex (m : Mode) : Nat → Nat → List Char → Option (Nat × List Char)
  | 0, value, cs => some (value, cs)
  | _ + 1, _, [] => none
  | n + 1, value, c :: r => do readHex m n (16 * value + (← Escape.digit? c)) (m.skip r)

def readNumber (m : Mode) (digits : Nat) (cs : List Char) : Option (Primitive × List Char) := do
  let (n, r) ← readHex m digits 0 (m.skip cs)
  return (.literal (← Escape.char? n) (digits == 2), r)

/-- Any sign may be escaped, apart from the angle brackets. -/
def isSign (c : Char) : Bool :=
  Primitive.isAscii c && !c.isAlphanum && c != '<' && c != '>'

def readEscape (m : Mode) : List Char → Option (Primitive × List Char)
  | [] => none
  | c :: r =>
    match c with
    | 'x' => readNumber m 2 r
    | 'u' => readNumber m 4 r
    | 'U' => readNumber m 8 r
    | 'd' | 's' | 'w' => some (.shorthand false, r)
    | 'D' | 'S' | 'W' => some (.shorthand true, r)
    | 'A' | 'z' => some (.edge, r)
    | 'b' | 'B' | '<' | '>' => some (.wordEdge, r)
    | 'a' => some (.literal '\x07' false, r)
    | 'f' => some (.literal '\x0c' false, r)
    | 't' => some (.literal '\t' false, r)
    | 'n' => some (.literal '\n' false, r)
    | 'r' => some (.literal '\r' false, r)
    | 'v' => some (.literal '\x0b' false, r)
    | _ => if isSign c then some (.literal c false, r) else none

/-- A sequence of items, as far as it has been read. -/
structure Sequence where
  size : Nat
  /-- The depth of its deepest item. -/
  deepest : Nat
  /-- The depth of the last item, if that can be repeated. -/
  last : Option Nat
deriving DecidableEq, Repr

namespace Sequence

def empty : Sequence := ⟨0, 0, none⟩

def push (s : Sequence) (depth : Nat) : Sequence :=
  ⟨s.size + 1, max s.deepest depth, some depth⟩

/-- Adds an item that cannot be repeated. -/
def pushFlags (s : Sequence) : Sequence :=
  { s with size := s.size + 1, last := none }

def repeatLast? (s : Sequence) : Option Sequence :=
  s.last.map fun depth => ⟨s.size, max s.deepest (depth + 1), some (depth + 1)⟩

/-- One item is no deeper for being alone in a sequence. -/
def depth (s : Sequence) : Nat :=
  if s.size ≤ 1 then s.deepest else s.deepest + 1

end Sequence

end Collate.Pattern
