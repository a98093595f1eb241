/-!
Amounts of bytes for people: whole bytes below 1024, otherwise tenths of the largest fitting unit.
An amount is first taken to binary precision 53, and both that step and the tenths send a tie to the
even neighbour.
-/
namespace Collate.Size

/-- `num / den` to the nearest whole number, a tie to the even one. -/
def roundDiv (num den : Nat) : Nat :=
  let q := num / den
  let r := num % den
  if 2 * r < den then q
  else if den < 2 * r then q + 1
  else q + q % 2

/-- The nearest number with at most 53 significant bits. -/
def significant (n : Nat) : Nat :=
  if n < 0x20000000000000 then n
  else
    let step := 1 <<< (n.log2 - 52)
    roundDiv n step * step

inductive Unit where
  | byte
  | kilo
  | mega
  | giga
deriving DecidableEq, Repr

namespace Unit

def name : Unit → String
  | byte => "B"
  | kilo => "KB"
  | mega => "MB"
  | giga => "GB"

def bytes : Unit → Nat
  | byte => 1
  | kilo => 0x400
  | mega => 0x100000
  | giga => 0x40000000

/-- The largest unit that fits into an amount. -/
def fitting (n : Nat) : Unit :=
  if n < kilo.bytes then byte
  else if n < mega.bytes then kilo
  else if n < giga.bytes then mega
  else giga

end Unit

def unit (n : Nat) : Unit :=
  .fitting (significant n)

/-- The amount shown, in tenths of the unit. -/
def tenths (n : Nat) : Nat :=
  roundDiv (10 * significant n) (unit n).bytes

def text (n : Nat) : String :=
  match unit n with
  | .byte => toString n ++ " B"
  | u => toString (tenths n / 10) ++ "." ++ toString (tenths n % 10) ++ " " ++ u.name

end Collate.Size
