import Collate.Arguments.Value
import Collate.Log.Record
import Collate.Pattern.Syntax
import Collate.Text.Parts

/-!
One rule of a log filter: which records it is about, and how talkative they may be.

It is written as `level`, `target`, `target=level`, or as a span in brackets between the target and the
level. A span is `name`, or with a field in braces `name{field}` or `name{field=pattern}`. Spans never
occur in this program, so a directive about one, or about the value of a field, enables nothing; a
directive about a field alone is one for the records that have it.

Blanks around a directive do not count when it is taken apart, but each part is cut out of the text as
written, at the place where it would be without them.
-/
namespace Collate

structure Directive where
  /-- Fits records whose target starts with this. -/
  target : Option String
  /-- Fits records that have this field. -/
  field : Option String
  /-- The rank of the most talkative level that is written; 0 for none. -/
  rank : Nat
deriving DecidableEq, Repr

namespace Directive

def fits (d : Directive) (r : Record) : Bool :=
  (match d.target with
    | some t => t.toList.isPrefixOf r.target.toList
    | none => true) &&
  match d.field with
  | some name => r.fieldNames.contains name
  | none => true

/-- The size of the target counts first, then whether there is a field, and then what comes later in the
order of characters. -/
def isMoreSpecific (d e : Directive) : Bool :=
  let size := fun (d : Directive) => (d.target.map fun t => (Utf8.encode t).length + 1).getD 0
  if size d ≠ size e then size e < size d
  else if d.field.isSome ≠ e.field.isSome then d.field.isSome
  else if d.target ≠ e.target then e.target.getD "" < d.target.getD ""
  else e.field.getD "" < d.field.getD ""

/-- The later of two directives for the same records replaces the earlier one. -/
def insert (d : Directive) : List Directive → List Directive
  | [] => [d]
  | e :: es =>
    if d.target = e.target ∧ d.field = e.field then d :: es
    else if d.isMoreSpecific e then d :: e :: es
    else e :: insert d es

/-! Levels and fields -/

def talkative : Nat := 5

def levelRanks : List (List Char × Nat) :=
  [("off".toList, 0), ("error".toList, 1), ("warn".toList, 2), ("info".toList, 3),
    ("debug".toList, 4), ("trace".toList, 5)]

/-- A level by number or by name in any case; no text at all is the error level. -/
def rank? (cs : List Char) : Option Nat :=
  match Depth.read cs with
  | .ok n => if n ≤ talkative then some n else none
  | .error _ => if cs.isEmpty then some 1 else levelRanks.lookup (cs.map Char.toLower)

/-- The level after an equals sign, all levels if none is written. -/
def rankAfter? (text : Bytes) : Option Nat :=
  if text.isEmpty then some talkative else rank? (Utf8.lossy text).toList

def isExponent : List Char → Bool
  | [] => true
  | 'e' :: '+' :: r | 'e' :: '-' :: r | 'e' :: r => !r.isEmpty && r.all Char.isDigit
  | _ => false

/-- A decimal number without a sign, in lower case. -/
def isNumber (cs : List Char) : Bool :=
  let whole := cs.takeWhile Char.isDigit
  let r := cs.dropWhile Char.isDigit
  match r with
  | '.' :: r =>
    !(whole.isEmpty && (r.takeWhile Char.isDigit).isEmpty) && isExponent (r.dropWhile Char.isDigit)
  | r => !whole.isEmpty && isExponent r

def isQuantity (cs : List Char) : Bool :=
  let cs := cs.map Char.toLower
  cs == "inf".toList || cs == "infinity".toList || cs == "nan".toList || isNumber cs

/-- The value of a field is a pattern. A number with a plus sign is one too. -/
def isValue (cs : List Char) : Bool :=
  Pattern.isValid cs || (cs.head? == some '+' && isQuantity (cs.drop 1))

/-- A field whose value may be asked for. -/
structure FieldRule where
  name : String
  hasValue : Bool
deriving DecidableEq, Repr

/-- What follows a second equals sign does not count. -/
def FieldRule.read? (text : Bytes) : Option FieldRule :=
  let isEqual := fun (c : Char) => c == '='
  match parts isEqual (Utf8.lossy text).toList with
  | [name] => some ⟨String.ofList name, false⟩
  | name :: value :: _ => if isValue value then some ⟨String.ofList name, true⟩ else none
  | [] => none

/-! Taking a directive apart -/

/-- The rest of a directive without the blanks around it, and what is cut from. -/
structure Draft where
  trimmed : Bytes
  written : Bytes
deriving DecidableEq, Repr

namespace Draft

def drop (d : Draft) (n : Nat) : Draft :=
  ⟨d.trimmed.drop n, d.written.drop n⟩

/-- How much there is before one of these octets, and which it is. -/
def find? (d : Draft) (ends : List UInt8) : Option (Nat × UInt8) :=
  let n := (d.trimmed.takeWhile (!ends.contains ·)).length
  d.trimmed[n]?.map fun b => (n, b)

end Draft

def equals : UInt8 := 0x3D

def openBracket : UInt8 := 0x5B

def closeBracket : UInt8 := 0x5D

def openBrace : UInt8 := 0x7B

def closeBrace : UInt8 := 0x7D

/-- The level after a span. The inner `none` stands for a directive that enables nothing. -/
def readRank (target : Option String) (isNamed : Bool) (field : Option FieldRule) (d : Draft) :
    Option (Option Directive) := do
  let rank ←
    match d.trimmed.head? with
    | none => some talkative
    | some b => if b = equals then rankAfter? (d.drop 1).written else none
  return if isNamed || field.any (·.hasValue) then none else some ⟨target, field.map (·.name), rank⟩

def readField (target : Option String) (isNamed : Bool) (d : Draft) : Option (Option Directive) := do
  let (n, _) ← d.find? [closeBrace]
  if n = 0 then none
  else
    let field ← FieldRule.read? (d.written.take n)
    let rest := d.drop (n + 1)
    if rest.trimmed.head? = some closeBracket then readRank target isNamed (some field) (rest.drop 1)
    else none

/-- A span after its opening bracket, and all that follows it. Brackets alone have an empty name. -/
def readSpan (target : Option String) (d : Draft) : Option (Option Directive) := do
  let (n, b) ← d.find? [closeBracket, openBrace]
  let rest := d.drop (n + 1)
  if b = closeBracket then readRank target true none rest else readField target (n ≠ 0) rest

def ofText (text : Bytes) : Directive :=
  let text := Utf8.lossy text
  match rank? text.toList with
  | some rank => ⟨none, none, rank⟩
  | none => ⟨some text, none, talkative⟩

def readTarget (d : Draft) : Option (Option Directive) :=
  match d.find? [equals, openBracket] with
  | none => some (some (ofText d.written))
  | some (n, b) =>
    let target := some (Utf8.lossy (d.written.take n))
    if b = equals then
      (rankAfter? (d.drop (n + 1)).written).map fun rank => some ⟨target, none, rank⟩
    else readSpan target (d.drop (n + 1))

/-- What a directive may start with, the bracket of a span apart. -/
def isStart (c : Char) : Bool :=
  c == '-' || c == ':' || c == '_' || Alphanumeric.contains c

/-- The outer `none` is a mistake, the inner one a directive that enables nothing. -/
def read (cs : List Char) : Option (Option Directive) :=
  let trimmed := trim cs
  let d : Draft := ⟨trimmed.flatMap Utf8.encodeChar, cs.flatMap Utf8.encodeChar⟩
  match trimmed with
  | [] => none
  | c :: _ =>
    if c == '[' then readSpan none (d.drop 1)
    else if isStart c then readTarget d
    else none

end Directive

end Collate
