/-!
Spans of time and points in time. A point is written as a calendar date and a time of day in UTC, with
as many fraction digits as asked for.
-/
namespace Collate

/-- Left-padded with zeros to a width. -/
def padded (width n : Nat) : String :=
  let digits := toString n
  String.ofList (List.replicate (width - digits.length) '0') ++ digits

structure Duration where
  seconds : Nat
  /-- Less than a second. -/
  nanos : Nat
deriving DecidableEq, Repr

namespace Duration

def zero : Duration := ⟨0, 0⟩

def nanosPerSecond : Nat := 1000000000

/-- Whole seconds are taken out of the nanoseconds. -/
def of (seconds nanos : Nat) : Duration :=
  ⟨seconds + nanos / nanosPerSecond, nanos % nanosPerSecond⟩

/-- Minutes and seconds, seconds, or for less than a second milliseconds. -/
def text (d : Duration) : String :=
  if 60 ≤ d.seconds then
    toString (d.seconds / 60) ++ "m " ++ toString (d.seconds % 60) ++ "s"
  else if 0 < d.seconds then toString d.seconds ++ "s"
  else toString (d.nanos / 1000000) ++ "ms"

end Duration

/-- Seconds since the start of 1970 in UTC, and nanoseconds into the second. -/
structure Timestamp where
  seconds : Int
  nanos : Nat
deriving DecidableEq, Repr

structure Date where
  year : Int
  month : Nat
  day : Nat
deriving DecidableEq, Repr

/-- Years begin in March here, so that a leap day ends one; 146097 days make 400 years. -/
def Date.ofDays (days : Int) : Date :=
  let shifted := days + 719468
  let era := shifted.fdiv 146097
  let dayOfEra := (shifted.fmod 146097).toNat
  let yearOfEra :=
    (dayOfEra - dayOfEra / 1460 + dayOfEra / 36524 - dayOfEra / 146096) / 365
  let dayOfYear := dayOfEra - (365 * yearOfEra + yearOfEra / 4 - yearOfEra / 100)
  let march := (5 * dayOfYear + 2) / 153
  let day := dayOfYear - (153 * march + 2) / 5 + 1
  let month := if march < 10 then march + 3 else march - 9
  let year : Int := yearOfEra + era * 400
  ⟨if month ≤ 2 then year + 1 else year, month, day⟩

/-- Four digits, and a sign outside the years 0 to 9999. -/
def Date.yearText (year : Int) : String :=
  if year < 0 then "-" ++ padded 4 year.natAbs
  else if 9999 < year then "+" ++ toString year.natAbs
  else padded 4 year.natAbs

def Date.text (d : Date) : String :=
  yearText d.year ++ "-" ++ padded 2 d.month ++ "-" ++ padded 2 d.day

namespace Timestamp

/-- The seconds of the day; a second that has more than 10^9 nanoseconds is a leap second. -/
def clock (t : Timestamp) : String :=
  let second := (t.seconds.fmod 86400).toNat
  padded 2 (second / 3600) ++ ":" ++ padded 2 (second / 60 % 60) ++ ":" ++
    padded 2 (second % 60 + t.nanos / 1000000000)

/-- No digits, milliseconds, microseconds or nanoseconds, whichever is enough. -/
def fraction (t : Timestamp) : String :=
  let n := t.nanos % 1000000000
  if n = 0 then ""
  else if n % 1000000 = 0 then "." ++ padded 3 (n / 1000000)
  else if n % 1000 = 0 then "." ++ padded 6 (n / 1000)
  else "." ++ padded 9 n

def micros (t : Timestamp) : String :=
  "." ++ padded 6 (t.nanos % 1000000000 / 1000)

def dateTime (t : Timestamp) : String :=
  (Date.ofDays (t.seconds.fdiv 86400)).text ++ "T" ++ t.clock

def text (t : Timestamp) : String :=
  t.dateTime ++ t.fraction ++ "Z"

/-- With the offset from UTC written as numbers. -/
def offsetText (t : Timestamp) : String :=
  t.dateTime ++ t.fraction ++ "+00:00"

def logText (t : Timestamp) : String :=
  t.dateTime ++ t.micros ++ "Z"

end Timestamp

/-- What a run reads off its clock. -/
structure Clock where
  now : Timestamp
  elapsed : Duration

end Collate
