import Collate.Toml.Number

/-!
TOML documents. `Fields.read?` gives the fields of a document, or `none` where it breaks a rule of the
grammar or gives a key twice.
-/
namespace Collate.Toml

/-- Arrays and inline tables nest, and dotted keys have parts, less often than this. -/
def depthLimit : Nat := 80

def skipBlanks (cs : List Char) : List Char :=
  cs.dropWhile isBlank

def lineEnd? : List Char → Option (List Char)
  | [] => some []
  | '\n' :: r => some r
  | '\r' :: '\n' :: r => some r
  | _ => none

def skipComment : List Char → List Char
  | '#' :: r => r.dropWhile isPlain
  | cs => cs

/-- The rest of a line after an expression. -/
def closeLine? (cs : List Char) : Option (List Char) :=
  lineEnd? (skipComment (skipBlanks cs))

/-- Skips blanks, line ends and comments between the elements of an array. -/
def skipSpace? : Bool → List Char → Option (List Char)
  | _, '\n' :: r => skipSpace? false r
  | _, '\r' :: '\n' :: r => skipSpace? false r
  | true, c :: r => if isPlain c then skipSpace? true r else none
  | true, [] => none
  | false, c :: r =>
    if c == '#' then skipSpace? true r
    else if isBlank c then skipSpace? false r
    else some (c :: r)
  | false, [] => some []

def isBareKeyChar (c : Char) : Bool :=
  c.isAlphanum || c == '-' || c == '_'

def readKeyPart (cs : List Char) : Option (String × List Char) :=
  match cs with
  | '"' :: _ | '\'' :: _ => readShortText cs
  | _ =>
    let name := cs.takeWhile isBareKeyChar
    if name.isEmpty then none else some (String.ofList name, cs.dropWhile isBareKeyChar)

/-- The parts of a key, with blanks around them. -/
def readKey : Nat → List Char → Option (List String × List Char)
  | 0, _ => none
  | parts + 1, cs => do
    let (name, r) ← readKeyPart (skipBlanks cs)
    match skipBlanks r with
    | '.' :: r =>
      let (names, r) ← readKey parts r
      return (name :: names, r)
    | r => return ([name], r)

/-- A key has fewer than 80 parts. -/
def readDottedKey (cs : List Char) : Option (List String × List Char) :=
  readKey (depthLimit - 1) cs

mutual

/-- `fuel` bounds the steps, `depth` counts the brackets around. -/
def readValue : Nat → Nat → List Char → Option (Value × List Char)
  | 0, _, _ => none
  | fuel + 1, depth, cs =>
    match cs with
    | '"' :: _ | '\'' :: _ => (readText cs).map fun (s, r) => (.text s, r)
    | '[' :: r =>
      if depth + 1 < depthLimit then
        (readItems fuel (depth + 1) r).map fun (items, r) => (.array items, r)
      else none
    | '\x7b' :: r =>
      if depth + 1 < depthLimit then
        match skipBlanks r with
        | '\x7d' :: r => some (.table .inlined [], r)
        | r => (readPairs fuel (depth + 1) [] r).map fun (fields, r) => (.table .inlined fields, r)
      else none
    | _ => readWord cs

/-- A comma may follow the last item. -/
def readItems : Nat → Nat → List Char → Option (List Value × List Char)
  | 0, _, _ => none
  | fuel + 1, depth, cs => do
    match ← skipSpace? false cs with
    | ']' :: r => return ([], r)
    | r =>
      let (v, r) ← readValue fuel depth r
      match ← skipSpace? false r with
      | ',' :: r =>
        let (vs, r) ← readItems fuel depth r
        return (v :: vs, r)
      | ']' :: r => return ([v], r)
      | _ => none

/-- The pairs of an inline table stand on one line and no comma follows the last. -/
def readPairs : Nat → Nat → Fields → List Char → Option (Fields × List Char)
  | 0, _, _, _ => none
  | fuel + 1, depth, fields, cs => do
    match ← readDottedKey cs with
    | (key, '=' :: r) =>
      let (v, r) ← readValue fuel depth (skipBlanks r)
      let fields ← fields.put? key v
      match skipBlanks r with
      | ',' :: r => readPairs fuel depth fields r
      | '\x7d' :: r => return (fields, r)
      | _ => none
    | _ => none

end

inductive Line where
  | header (h : Header)
  | pair (key : List String) (v : Value)

def readHeader (cs : List Char) : Option (Header × List Char) := do
  match cs with
  | '[' :: '[' :: r =>
    match ← readDottedKey r with
    | (key, ']' :: ']' :: r) => return (.element key, r)
    | _ => none
  | '[' :: r =>
    match ← readDottedKey r with
    | (key, ']' :: r) => return (.table key, r)
    | _ => none
  | _ => none

def readPair (fuel : Nat) (cs : List Char) : Option ((List String × Value) × List Char) := do
  match ← readDottedKey cs with
  | (key, '=' :: r) =>
    let (v, r) ← readValue fuel 0 (skipBlanks r)
    return ((key, v), r)
  | _ => none

/-- The sections from here on; `pairs` are those of the current one, the last one first. -/
def readSections : Nat → Header → List (List String × Value) → List Char → Option (List Section)
  | 0, _, _, _ => none
  | fuel + 1, header, pairs, cs =>
    let here : Section := ⟨header, pairs.reverse⟩
    match skipBlanks cs with
    | [] => some [here]
    | '#' :: r => do readSections fuel header pairs (← closeLine? ('#' :: r))
    | '\n' :: r => readSections fuel header pairs r
    | '\r' :: r => do readSections fuel header pairs (← lineEnd? ('\r' :: r))
    | '[' :: r => do
      let (next, r) ← readHeader ('[' :: r)
      let r ← closeLine? r
      return here :: (← readSections fuel next [] r)
    | r => do
      let (pair, r) ← readPair fuel r
      let r ← closeLine? r
      readSections fuel header (pair :: pairs) r

/-- A byte order mark before the document is no part of it. -/
def dropMark : List Char → List Char
  | '\uFEFF' :: r => r
  | cs => cs

def Fields.read? (s : String) : Option Fields :=
  let cs := dropMark s.toList
  (readSections (2 * cs.length + 2) .document [] cs).bind Fields.ofSections?

end Collate.Toml
