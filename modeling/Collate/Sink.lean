import Collate.FileTree.Access

/-!
Buffered writing. A piece that fits into what is left of the buffer waits there; one that is as long as
the whole buffer is written past it.
-/
namespace Collate

structure Sink where
  output : Output
  capacity : Nat
  held : Bytes
deriving DecidableEq, Repr

namespace Sink

def defaultCapacity : Nat := 65536

def leastCapacity : Nat := 4096

def capacityFor (requested : Option Nat) : Nat :=
  match requested with
  | some n => max n leastCapacity
  | none => defaultCapacity

/-- After a refusal nothing of what was held is left to write. -/
def flush (s : Sink) (fs : FileSystem) : FileSystem × Sink × Option Refusal :=
  let (fs, refusal) := fs.append s.output s.held
  (fs, { s with held := [] }, refusal)

def push (s : Sink) (fs : FileSystem) (piece : Bytes) : FileSystem × Sink × Option Refusal :=
  if s.held.length + piece.length < s.capacity then (fs, { s with held := s.held ++ piece }, none)
  else
    let (fs, s, refusal) :=
      if s.capacity < s.held.length + piece.length then s.flush fs else (fs, s, none)
    if refusal.isSome then (fs, s, refusal)
    else if s.capacity ≤ piece.length then
      let (fs, refusal) := fs.append s.output piece
      (fs, s, refusal)
    else (fs, { s with held := s.held ++ piece }, none)

/-- Stops at the first refusal. -/
def pushAll (s : Sink) (fs : FileSystem) : List Bytes → FileSystem × Sink × Option Refusal
  | [] => (fs, s, none)
  | piece :: rest =>
    match s.push fs piece with
    | (fs, s, none) => s.pushAll fs rest
    | (fs, s, some refusal) => (fs, s, some refusal)

end Sink

end Collate
