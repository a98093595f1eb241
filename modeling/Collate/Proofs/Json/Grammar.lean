import Mathlib.Algebra.Field.Rat
import Collate.Json

/-!
JSON texts as the standard has them: what each value, string and number may look like, and what it stands for.
Nothing here knows how values are printed or read. A phrase of the grammar stands at the beginning of a
text, and the rest of the text is behind it.
-/
namespace Collate.Json

/-- What a JSON text stands for. Numbers are exact, and members keep their order. -/
inductive Datum where
  | null
  | bool (b : Bool)
  | number (q : ℚ)
  | string (s : String)
  | array (items : List Datum)
  | object (members : List (String × Datum))

/-! Blanks -/

def isBlank (c : Char) : Bool :=
  c == ' ' || c == '\t' || c == '\n' || c == '\r'

/-- There are blanks, or none, before the rest. -/
inductive Skips : List Char → List Char → Prop where
  | none (r : List Char) : Skips r r
  | blank {c : Char} {t r : List Char} : isBlank c → Skips t r → Skips (c :: t) r

/-! Numbers -/

structure Exponent where
  letter : Char
  sign : List Char
  digits : List Char

namespace Exponent

def text (e : Exponent) : List Char :=
  e.letter :: e.sign ++ e.digits

def value (e : Exponent) : Int :=
  if e.sign = ['-'] then -Nat.ofDigitChars 10 e.digits 0 else Nat.ofDigitChars 10 e.digits 0

structure IsProper (e : Exponent) : Prop where
  letter : e.letter = 'e' ∨ e.letter = 'E'
  sign : e.sign = [] ∨ e.sign = ['+'] ∨ e.sign = ['-']
  digits : e.digits ≠ [] ∧ ∀ c ∈ e.digits, c.isDigit

end Exponent

/-- A number as it is written. Without digits behind the point there is no point either. -/
structure Numeral where
  isNegative : Bool
  whole : List Char
  fraction : List Char
  exponent : Option Exponent

namespace Numeral

def text (n : Numeral) : List Char :=
  (if n.isNegative then ['-'] else []) ++ n.whole ++
    (if n.fraction = [] then [] else '.' :: n.fraction) ++ (n.exponent.map Exponent.text).getD []

/-- All digits as one number, scaled by as many powers of ten as there are digits behind the point and as the
exponent says. -/
def value (n : Numeral) : ℚ :=
  (if n.isNegative then -1 else 1) * Nat.ofDigitChars 10 (n.whole ++ n.fraction) 0 *
    (10 : ℚ) ^ ((n.exponent.map Exponent.value).getD 0 - n.fraction.length)

/-- There is no zero in front of other digits. -/
structure IsProper (n : Numeral) : Prop where
  whole : n.whole ≠ [] ∧ ∀ c ∈ n.whole, c.isDigit
  leading : n.whole.head? = some '0' → n.whole = ['0']
  fraction : ∀ c ∈ n.fraction, c.isDigit
  exponent : ∀ e ∈ n.exponent, e.IsProper

end Numeral

/-! Strings -/

/-- The characters that stand for themselves. -/
def isPlain (c : Char) : Bool :=
  decide (0x20 ≤ c.toNat) && c != '"' && c != '\\'

/-- The letters behind a backslash, and what they stand for. -/
def escapes : List (Char × Char) :=
  [('"', '"'), ('\\', '\\'), ('/', '/'), ('b', '\x08'), ('f', '\x0c'), ('n', '\n'), ('r', '\r'),
    ('t', '\t')]

def hexDigit? (c : Char) : Option Nat :=
  let n := c.toNat
  if 0x30 ≤ n ∧ n ≤ 0x39 then some (n - 0x30)
  else if 0x41 ≤ n ∧ n ≤ 0x46 then some (n - 0x41 + 10)
  else if 0x61 ≤ n ∧ n ≤ 0x66 then some (n - 0x61 + 10)
  else none

def hex? (a b c d : Char) : Option Nat := do
  some (((← hexDigit? a) * 0x10 + (← hexDigit? b)) * 0x100 + (← hexDigit? c) * 0x10 + (← hexDigit? d))

def isHigh (n : Nat) : Bool :=
  decide (0xD800 ≤ n) && decide (n < 0xDC00)

def isLow (n : Nat) : Bool :=
  decide (0xDC00 ≤ n) && decide (n < 0xE000)

/-- The character that two surrogates stand for. -/
def paired (high low : Nat) : Char :=
  Char.ofNat (0x10000 + (high - 0xD800) * 0x400 + (low - 0xDC00))

/-- One character of a string. Half of a surrogate pair stands for no character. -/
inductive Letter : List Char → Char → List Char → Prop where
  | plain {c : Char} (r : List Char) : isPlain c → Letter (c :: r) c r
  | short {e c : Char} (r : List Char) : escapes.lookup e = some c → Letter ('\\' :: e :: r) c r
  | code {a b c d : Char} {n : Nat} (r : List Char) :
      hex? a b c d = some n → isHigh n = false → isLow n = false →
      Letter ('\\' :: 'u' :: a :: b :: c :: d :: r) (Char.ofNat n) r
  | pair {a b c d a' b' c' d' : Char} {high low : Nat} (r : List Char) :
      hex? a b c d = some high → isHigh high → hex? a' b' c' d' = some low → isLow low →
      Letter ('\\' :: 'u' :: a :: b :: c :: d :: '\\' :: 'u' :: a' :: b' :: c' :: d' :: r)
        (paired high low) r

/-- A string behind its opening quote, and the text behind its closing one. -/
inductive Letters : List Char → List Char → List Char → Prop where
  | closed (r : List Char) : Letters ('"' :: r) [] r
  | letter {t u s r : List Char} {c : Char} : Letter t c u → Letters u s r → Letters t (c :: s) r

/-! Values -/

/-- A value, or the items or members of one that is not empty, with the bracket that closes it. -/
inductive Phrase where
  | value (d : Datum)
  | items (ds : List Datum)
  | members (ms : List (String × Datum))

/-- The phrase stands at the beginning of the text, and the rest is behind it. -/
inductive Stands : Phrase → List Char → List Char → Prop where
  | null (r : List Char) : Stands (.value .null) ('n' :: 'u' :: 'l' :: 'l' :: r) r
  | yes (r : List Char) : Stands (.value (.bool true)) ('t' :: 'r' :: 'u' :: 'e' :: r) r
  | no (r : List Char) : Stands (.value (.bool false)) ('f' :: 'a' :: 'l' :: 's' :: 'e' :: r) r
  | number {n : Numeral} (r : List Char) : n.IsProper → Stands (.value (.number n.value)) (n.text ++ r) r
  | string {t s r : List Char} :
      Letters t s r → Stands (.value (.string (String.ofList s))) ('"' :: t) r
  | emptyArray {t r : List Char} : Skips t (']' :: r) → Stands (.value (.array [])) ('[' :: t) r
  | array {ds : List Datum} {t r : List Char} :
      Stands (.items ds) t r → Stands (.value (.array ds)) ('[' :: t) r
  | emptyObject {t r : List Char} :
      Skips t ('\x7d' :: r) → Stands (.value (.object [])) ('\x7b' :: t) r
  | object {ms : List (String × Datum)} {t r : List Char} :
      Stands (.members ms) t r → Stands (.value (.object ms)) ('\x7b' :: t) r
  | lastItem {d : Datum} {t u w r : List Char} :
      Skips t u → Stands (.value d) u w → Skips w (']' :: r) → Stands (.items [d]) t r
  | moreItems {d : Datum} {ds : List Datum} {t u w x r : List Char} :
      Skips t u → Stands (.value d) u w → Skips w (',' :: x) → Stands (.items ds) x r →
      Stands (.items (d :: ds)) t r
  | lastMember {d : Datum} {k t u w x y z r : List Char} :
      Skips t ('"' :: u) → Letters u k w → Skips w (':' :: x) → Skips x y → Stands (.value d) y z →
      Skips z ('\x7d' :: r) → Stands (.members [(String.ofList k, d)]) t r
  | moreMembers {d : Datum} {ms : List (String × Datum)} {k t u w x y z m r : List Char} :
      Skips t ('"' :: u) → Letters u k w → Skips w (':' :: x) → Skips x y → Stands (.value d) y z →
      Skips z (',' :: m) → Stands (.members ms) m r → Stands (.members ((String.ofList k, d) :: ms)) t r

/-- The text is one value, with blanks around it. -/
def Denotes (text : String) (d : Datum) : Prop :=
  ∃ t r, Skips text.toList t ∧ Stands (.value d) t r ∧ Skips r []

end Collate.Json
