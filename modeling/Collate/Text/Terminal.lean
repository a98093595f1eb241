import Collate.Text.Utf8

/-!
Styled text for a terminal, and what can be read of such a text: `strip` takes out escape sequences and
control characters, octet by octet. Blanks and line ends stay, even inside a sequence up to its data; the
data of a string sequence are all taken out.
-/
namespace Collate.Terminal

/-- A style is given by the codes that switch it on. -/
def styled (codes : List Nat) (s : String) : String :=
  String.join (codes.map fun n => "\x1b[" ++ toString n ++ "m") ++ s ++ "\x1b[0m"

/-- Where an octet stands. -/
inductive State where
  /-- After an octet that is shown. -/
  | text
  | ground
  | escape
  | intermediate
  | control
  | device
  | deviceParameter
  | deviceIntermediate
  /-- In data that a string terminator ends. -/
  | string
  /-- In data that a bell ends. -/
  | command
deriving DecidableEq, Repr

def isBetween (first last b : UInt8) : Bool :=
  first ≤ b && b ≤ last

def isBlank (b : UInt8) : Bool :=
  b == 0x09 || b == 0x0A || b == 0x0C || b == 0x0D

/-- A blank, a visible character of one octet, or the first octet of a longer one. -/
def isShown (b : UInt8) : Bool :=
  isBlank b || isBetween 0x20 0x7E b || isBetween 0xC2 0xF4 b

def shown : Bool × State := (true, .text)

def hidden (next : State) : Bool × State := (false, next)

/-- Whether an octet is shown, and the state after it. The octets that continue a character are shown
only after one that is shown. -/
def step (s : State) (b : UInt8) : Bool × State :=
  if b == 0x1B then hidden .escape
  else if b == 0x18 || b == 0x1A then hidden .ground
  else
    match s with
    | .text => if isShown b || isBetween 0x80 0xBF b then shown else hidden .ground
    | .ground => if isShown b then shown else hidden .ground
    | .escape =>
      if isBlank b then shown
      else if b == 0x5B then hidden .control
      else if b == 0x5D then hidden .command
      else if b == 0x50 then hidden .device
      else if b == 0x58 || b == 0x5E || b == 0x5F then hidden .string
      else if isBetween 0x20 0x2F b then hidden .intermediate
      else hidden (if isBetween 0x30 0x7E b then .ground else .escape)
    | .intermediate =>
      if isBlank b then shown
      else hidden (if isBetween 0x30 0x7E b then .ground else .intermediate)
    | .control =>
      if isBlank b then shown
      else hidden (if isBetween 0x40 0x7E b then .ground else .control)
    | .device =>
      if isBetween 0x20 0x2F b then hidden .deviceIntermediate
      else if isBetween 0x30 0x3F b then hidden .deviceParameter
      else hidden (if isBetween 0x40 0x7E b then .string else .device)
    | .deviceParameter =>
      if isBetween 0x20 0x2F b then hidden .deviceIntermediate
      else hidden (if isBetween 0x3C 0x7E b then .string else .deviceParameter)
    | .deviceIntermediate =>
      hidden (if isBetween 0x30 0x7E b then .string else .deviceIntermediate)
    | .string => hidden (if b == 0x9C then .ground else .string)
    | .command => hidden (if b == 0x07 then .ground else .command)

def stripFrom : State → Bytes → Bytes
  | _, [] => []
  | s, b :: r =>
    match step s b with
    | (true, t) => b :: stripFrom t r
    | (false, t) => stripFrom t r

def strip (s : String) : String :=
  Utf8.lossy (stripFrom .ground (Utf8.encode s))

end Collate.Terminal
