import Collate.Arguments.Value

/-!
Reading an argument list from left to right; the first error decides. A switch acts, and a value
attached to its option is stored, when it is read. The positional argument and a value that is an
argument of its own wait until the next known option or positional argument begins, or the end.
-/
namespace Collate

/-- A value that waits to be stored; an option may still wait for its value. -/
inductive Pending where
  | positional (value : Bytes)
  | setting (s : Setting) (value : Option Bytes)
deriving DecidableEq, Repr

structure Reader where
  given : Given
  pending : Option Pending
  /-- After `--` every argument is positional. -/
  literal : Bool
deriving DecidableEq, Repr

namespace Reader

def start : Reader :=
  ⟨Given.nothing, none, false⟩

def settle (r : Reader) : Except UsageError Reader :=
  match r.pending with
  | none => .ok r
  | some (.positional value) => do
    return { r with given := ← r.given.setExtension value, pending := none }
  | some (.setting s none) => .error (.missingValue s)
  | some (.setting s (some value)) => do
    return { r with given := ← r.given.set s value, pending := none }

def await (r : Reader) (s : Setting) : Except UsageError Reader := do
  return { ← r.settle with pending := some (.setting s none) }

def store (r : Reader) (s : Setting) (value : Bytes) : Except UsageError Reader := do
  let r ← r.settle
  return { r with given := ← r.given.set s value }

def turnOn (r : Reader) (s : Switch) (long : Bool) : Except UsageError Reader := do
  let r ← r.settle
  return { r with given := ← r.given.turnOn s long }

def hasPositional (r : Reader) : Bool :=
  r.given.extension.isSome ||
    match r.pending with
    | some (.positional _) => true
    | _ => false

def readPositional (r : Reader) (value : Bytes) : Except UsageError Reader :=
  if r.hasPositional then .error (.unknown (Utf8.lossy value))
  else do return { ← r.settle with pending := some (.positional value) }

/-- An argument that is neither an option nor `--`. -/
def readPlain (r : Reader) (value : Bytes) : Except UsageError Reader :=
  match r.pending with
  | some (.setting s none) => .ok { r with pending := some (.setting s (some value)) }
  | _ => r.readPositional value

def equals : UInt8 := 0x3D

def dash : UInt8 := 0x2D

/-- `body` is what follows the two dashes. -/
def readLong (r : Reader) (body : Bytes) : Except UsageError Reader :=
  let name := body.takeWhile (· != equals)
  let attached := (body.dropWhile (· != equals)).tail?
  match (Utf8.decode? name).bind Parameter.ofLong? with
  | none => .error (.unknown ("--" ++ Utf8.lossy name))
  | some (.setting s) =>
    match attached with
    | none => r.await s
    | some value => r.store s value
  | some (.switch s) =>
    match attached with
    | none => r.turnOn s true
    | some value => .error (.unexpectedValue (Utf8.lossy value) s)

/-- Short options in one argument: switches until an option takes the rest as its value. -/
def readShort (r : Reader) : List Utf8.Piece → Except UsageError Reader
  | [] => .ok r
  | .illFormed octets :: rest =>
    .error (.unknown ("-" ++ Utf8.lossy (octets ++ rest.flatMap Utf8.Piece.octets)))
  | .scalar c :: rest =>
    match Parameter.ofShort? c with
    | none => .error (.unknown ("-" ++ c.toString))
    | some (.switch s) => do readShort (← r.turnOn s false) rest
    | some (.setting s) =>
      match rest.flatMap Utf8.Piece.octets with
      | [] => r.await s
      | b :: value => r.store s (if b = equals then value else b :: value)

def read (r : Reader) (argument : Bytes) : Except UsageError Reader :=
  if r.literal then r.readPositional argument
  else
    match argument with
    | [] => r.readPlain []
    | [b] => r.readPlain [b]
    | b :: c :: body =>
      if b != dash then r.readPlain argument
      else if c != dash then r.readShort (Utf8.pieces (c :: body))
      else if body.isEmpty then .ok { r with literal := true }
      else r.readLong body

def readAll : Reader → List Bytes → Except UsageError Reader
  | r, [] => .ok r
  | r, argument :: rest => do readAll (← r.read argument) rest

end Reader

/-- The arguments, without the name of the program. -/
def Arguments.read (arguments : List Bytes) : Except UsageError Arguments := do
  let r ← Reader.start.readAll arguments
  let r ← r.settle
  r.given.finish

end Collate
