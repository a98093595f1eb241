import Collate.Text.Parts
import Collate.Toml.Text
import Collate.Toml.Value

/-!
Numbers, truth values and points in time of TOML, each as one unbroken run of characters.
-/
namespace Collate.Toml

/-- Digits that single underscores may separate; the result leaves those out. -/
def digits? (isDigit : Char → Bool) (cs : List Char) : Option (List Char) :=
  let groups := parts (· == '_') cs
  if groups.all fun g => !g.isEmpty && g.all isDigit then some groups.flatten else none

def decimal (cs : List Char) : Nat :=
  cs.foldl (fun n c => n * 10 + (c.toNat - '0'.toNat)) 0

/-- Decimal digits without a leading zero. -/
def wholeDigits? (cs : List Char) : Option (List Char) :=
  match cs with
  | ['0'] => some cs
  | '0' :: _ => none
  | _ => digits? Char.isDigit cs

def isInDigits (base : Nat) (c : Char) : Bool :=
  match Escape.digit? c with
  | some d => d < base
  | none => false

def based? (base : Nat) (cs : List Char) : Option Nat :=
  (digits? (isInDigits base) cs).map fun ds =>
    ds.foldl (fun n c => n * base + (Escape.digit? c).getD 0) 0

/-- Integers have 64 bits with the sign. -/
def inRange? (n : Int) : Option Int :=
  if -0x8000000000000000 ≤ n ∧ n < 0x8000000000000000 then some n else none

def splitSign : List Char → Bool × List Char
  | '-' :: r => (true, r)
  | '+' :: r => (false, r)
  | cs => (false, cs)

def integer? (cs : List Char) : Option Int :=
  match cs with
  | '0' :: 'x' :: r => (based? 16 r).bind fun n => inRange? n
  | '0' :: 'o' :: r => (based? 8 r).bind fun n => inRange? n
  | '0' :: 'b' :: r => (based? 2 r).bind fun n => inRange? n
  | cs =>
    let (negative, body) := splitSign cs
    (wholeDigits? body).bind fun ds =>
      let n : Int := decimal ds
      inRange? (if negative then -n else n)

structure FloatParts where
  whole : List Char
  fraction : List Char
  exponent : Int

def isExponentMark (c : Char) : Bool :=
  c == 'e' || c == 'E'

def exponent? : List Char → Option Int
  | [] => some 0
  | _ :: r =>
    let (negative, body) := splitSign r
    (digits? Char.isDigit body).map fun ds =>
      let n : Int := decimal ds
      if negative then -n else n

/-- A fraction, an exponent or both. -/
def floatParts? (body : List Char) : Option FloatParts := do
  let whole ← wholeDigits? (body.takeWhile fun c => c != '.' && !isExponentMark c)
  match body.dropWhile fun c => c != '.' && !isExponentMark c with
  | [] => none
  | '.' :: r =>
    let fraction ← digits? Char.isDigit (r.takeWhile fun c => !isExponentMark c)
    let exponent ← exponent? (r.dropWhile fun c => !isExponentMark c)
    return ⟨whole, fraction, exponent⟩
  | r => return ⟨whole, [], ← exponent? r⟩

/-- Whether the value rounds past the largest binary64 number. -/
def FloatParts.overflows (p : FloatParts) : Bool :=
  let mantissa := decimal (p.whole ++ p.fraction)
  let scale := p.exponent - p.fraction.length
  let size := (Nat.toDigits 10 mantissa).length + scale
  if mantissa = 0 ∨ size < 300 then false
  else if 320 < size then true
  else
    let bound : Nat := 1 <<< 1024 - 1 <<< 970
    if 0 ≤ scale then bound ≤ mantissa * Nat.pow 10 scale.toNat
    else bound * Nat.pow 10 (-scale).toNat ≤ mantissa

/-- A negative number may be too large, a positive one may not. -/
def isFloat (cs : List Char) : Bool :=
  let (negative, body) := splitSign cs
  body == ['i', 'n', 'f'] || body == ['n', 'a', 'n'] ||
    match floatParts? body with
    | some p => negative || !p.overflows
    | none => false

def twoDigits? (low high : Nat) : List Char → Option Nat
  | [a, b] =>
    if a.isDigit && b.isDigit then
      let n := decimal [a, b]
      if low ≤ n ∧ n ≤ high then some n else none
    else none
  | _ => none

def daysIn (year month : Nat) : Nat :=
  if month = 2 then if year % 4 = 0 ∧ (year % 100 ≠ 0 ∨ year % 400 = 0) then 29 else 28
  else if month = 4 ∨ month = 6 ∨ month = 9 ∨ month = 11 then 30
  else 31

def isDate (cs : List Char) : Bool :=
  match parts (· == '-') cs with
  | [y, m, d] =>
    y.length == 4 && y.all Char.isDigit &&
      match twoDigits? 1 12 m with
      | some month => (twoDigits? 1 (daysIn (decimal y) month) d).isSome
      | none => false
  | _ => false

/-- A second may be the sixtieth, for leap seconds. -/
def isTime (cs : List Char) : Bool :=
  let clock := cs.takeWhile (· != '.')
  let fraction := cs.dropWhile (· != '.')
  (match parts (· == ':') clock with
    | [h, m, s] =>
      (twoDigits? 0 23 h).isSome && (twoDigits? 0 59 m).isSome && (twoDigits? 0 60 s).isSome
    | _ => false) &&
    match fraction with
    | [] => true
    | _ :: ds => !ds.isEmpty && ds.all Char.isDigit

def isOffset (cs : List Char) : Bool :=
  match cs with
  | ['Z'] | ['z'] => true
  | s :: r =>
    (s == '+' || s == '-') &&
      match parts (· == ':') r with
      | [h, m] => (twoDigits? 0 23 h).isSome && (twoDigits? 0 59 m).isSome
      | _ => false
  | [] => false

/-- A time of day with or without an offset. -/
def isZonedTime (cs : List Char) : Bool :=
  let isMark := fun c => c == 'Z' || c == 'z' || c == '+' || c == '-'
  let offset := cs.dropWhile (!isMark ·)
  isTime (cs.takeWhile (!isMark ·)) && (offset.isEmpty || isOffset offset)

/-- A date, a time, or both with a `T` between them. -/
def isMoment (cs : List Char) : Bool :=
  isTime cs || isDate cs ||
    (isDate (cs.take 10) &&
      match cs.drop 10 with
      | mark :: time => (mark == 'T' || mark == 't') && isZonedTime time
      | [] => false)

def word? (cs : List Char) : Option Value :=
  if cs == ['t', 'r', 'u', 'e'] then some (.boolean true)
  else if cs == ['f', 'a', 'l', 's', 'e'] then some (.boolean false)
  else if isMoment cs then some .moment
  else if isFloat cs then some .float
  else (integer? cs).map .integer

def isWordChar (c : Char) : Bool :=
  c.isAlphanum || c == '+' || c == '-' || c == '_' || c == '.' || c == ':'

/-- A blank may stand between a date and a time. -/
def readWord (cs : List Char) : Option (Value × List Char) :=
  let word := cs.takeWhile isWordChar
  let rest := cs.dropWhile isWordChar
  match rest with
  | ' ' :: r =>
    if isDate word && isZonedTime (r.takeWhile isWordChar) then
      some (.moment, r.dropWhile isWordChar)
    else (word? word).map fun v => (v, rest)
  | _ => (word? word).map fun v => (v, rest)

end Collate.Toml
