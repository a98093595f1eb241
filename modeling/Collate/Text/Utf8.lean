/-!
Text as octets. `encode` writes scalar values in UTF-8. `pieces` cuts any octets into scalar values
and ill-formed runs, where a run is the longest start of a well-formed sequence or else one octet;
strict and lossy reading are both views of the pieces.
-/
namespace Collate

abbrev Bytes := List UInt8

namespace Utf8

def encodeChar (c : Char) : Bytes :=
  let n := c.toNat
  if n < 0x80 then
    [.ofNat n]
  else if n < 0x800 then
    [.ofNat (0xC0 + n / 0x40), .ofNat (0x80 + n % 0x40)]
  else if n < 0x10000 then
    [.ofNat (0xE0 + n / 0x1000), .ofNat (0x80 + n / 0x40 % 0x40), .ofNat (0x80 + n % 0x40)]
  else
    [.ofNat (0xF0 + n / 0x40000), .ofNat (0x80 + n / 0x1000 % 0x40),
      .ofNat (0x80 + n / 0x40 % 0x40), .ofNat (0x80 + n % 0x40)]

def encode (s : String) : Bytes :=
  s.toList.flatMap encodeChar

/-- A sequence that has begun: the bits so far, the bounds of the next octet, and how many octets
follow that one. -/
structure Pending where
  code : Nat
  low : UInt8
  high : UInt8
  rest : Nat

inductive Step where
  | reject
  | more (next : Pending)
  | scalar (c : Char)

/-- The bounds of the second octet keep out overlong forms, surrogates and values past U+10FFFF. -/
def lead (b : UInt8) : Step :=
  let n := b.toNat
  if n < 0x80 then .scalar (Char.ofNat n)
  else if n < 0xC2 then .reject
  else if n < 0xE0 then .more ⟨n - 0xC0, 0x80, 0xBF, 0⟩
  else if n = 0xE0 then .more ⟨0, 0xA0, 0xBF, 1⟩
  else if n = 0xED then .more ⟨0xD, 0x80, 0x9F, 1⟩
  else if n < 0xF0 then .more ⟨n - 0xE0, 0x80, 0xBF, 1⟩
  else if n = 0xF0 then .more ⟨0, 0x90, 0xBF, 2⟩
  else if n < 0xF4 then .more ⟨n - 0xF0, 0x80, 0xBF, 2⟩
  else if n = 0xF4 then .more ⟨4, 0x80, 0x8F, 2⟩
  else .reject

def Pending.step (p : Pending) (b : UInt8) : Step :=
  if p.low ≤ b ∧ b ≤ p.high then
    let code := p.code * 0x40 + (b.toNat - 0x80)
    match p.rest with
    | 0 => .scalar (Char.ofNat code)
    | k + 1 => .more ⟨code, 0x80, 0xBF, k⟩
  else .reject

/-- What an octet does between sequences (`none`) or inside one. -/
def step : Option Pending → UInt8 → Step
  | none, b => lead b
  | some p, b => p.step b

def isValidFrom : Option Pending → Bytes → Bool
  | state, [] => state.isNone
  | state, b :: r =>
    match step state b with
    | .reject => false
    | .more p => isValidFrom (some p) r
    | .scalar _ => isValidFrom none r

def isValid (bs : Bytes) : Bool :=
  isValidFrom none bs

inductive Piece where
  | scalar (c : Char)
  | illFormed (octets : Bytes)

/-- `held` are the octets of the sequence that has begun, the last one first. -/
def piecesFrom : Option Pending → Bytes → Bytes → List Piece
  | _, held, [] => if held.isEmpty then [] else [.illFormed held.reverse]
  | state, held, b :: r =>
    match step state b with
    | .scalar c => .scalar c :: piecesFrom none [] r
    | .more p => piecesFrom (some p) (b :: held) r
    | .reject =>
      if held.isEmpty then .illFormed [b] :: piecesFrom none [] r
      else
        .illFormed held.reverse ::
          match lead b with
          | .scalar c => .scalar c :: piecesFrom none [] r
          | .more p => piecesFrom (some p) [b] r
          | .reject => .illFormed [b] :: piecesFrom none [] r

def pieces (bs : Bytes) : List Piece :=
  piecesFrom none [] bs

def Piece.scalar? : Piece → Option Char
  | .scalar c => some c
  | .illFormed _ => none

def Piece.octets : Piece → Bytes
  | .scalar c => encodeChar c
  | .illFormed octets => octets

def decode? (bs : Bytes) : Option String :=
  ((pieces bs).mapM Piece.scalar?).map String.ofList

/-- Every ill-formed run reads as one U+FFFD. -/
def lossy (bs : Bytes) : String :=
  String.ofList ((pieces bs).map fun p => p.scalar?.getD '\uFFFD')

end Utf8

end Collate
