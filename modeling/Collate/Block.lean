import Collate.Failure
import Collate.Text.Utf8

/-!
A block is one file as it stands in the output: a header line, a blank line, the contents, and two line
ends. It is written in three pieces.
-/
namespace Collate

structure Block where
  header : String
  contents : Bytes

namespace Block

def opening (b : Block) : Bytes :=
  Utf8.encode ("# " ++ b.header ++ "\n\n")

def closing : Bytes := [0x0A, 0x0A]

def pieces (b : Block) : List Bytes :=
  [b.opening, b.contents, closing]

def bytes (b : Block) : Bytes :=
  b.opening ++ b.contents ++ closing

def size (b : Block) : Nat :=
  b.opening.length + b.contents.length + 2

end Block

/-- A writer with room for so many more octets. -/
structure Slice where
  written : Bytes
  room : Nat

namespace Slice

/-- As much as fits; an octet left over is an error. -/
def write (s : Slice) (piece : Bytes) : Slice × Bool :=
  (⟨s.written ++ piece.take s.room, s.room - piece.length⟩, decide (piece.length ≤ s.room))

/-- Stops at the first piece that does not fit. -/
def writeAll (s : Slice) : List Bytes → Slice × Bool
  | [] => (s, true)
  | piece :: rest =>
    match s.write piece with
    | (s, true) => s.writeAll rest
    | (s, false) => (s, false)

/-- Counts the octets of the block, unless the slice has no room for all of them. -/
def writeBlock (s : Slice) (b : Block) : Slice × Except FaultKind Nat :=
  match s.writeAll b.pieces with
  | (s, true) => (s, .ok b.size)
  | (s, false) => (s, .error .writeZero)

/-- One block after another, up to the first that fails; counts the octets of all. -/
def writeBlocks (s : Slice) : List Block → Slice × Except FaultKind Nat
  | [] => (s, .ok 0)
  | b :: rest =>
    match s.writeBlock b with
    | (s, .ok n) => ((s.writeBlocks rest).1, (s.writeBlocks rest).2.map (n + ·))
    | (s, .error kind) => (s, .error kind)

end Slice

end Collate
