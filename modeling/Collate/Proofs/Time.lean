import Mathlib.Tactic.IntervalCases
import Collate.Proofs.Text.Digits

/-!
What a point in time is written as, and that it is read back. Dates are counted by the rule of the Gregorian
calendar, with the lengths of its months and the leap years; a text names the day it counts and the time
of day. Leap seconds count as the seconds that follow them.
-/
namespace Collate

namespace Date

/-- The Gregorian rule. -/
def IsLeap (year : Int) : Prop :=
  4 ∣ year ∧ (¬ 100 ∣ year ∨ 400 ∣ year)

instance (year : Int) : Decidable (IsLeap year) :=
  inferInstanceAs (Decidable (_ ∧ _))

def monthLength (year : Int) : Nat → Nat
  | 2 => if IsLeap year then 29 else 28
  | 4 | 6 | 9 | 11 => 30
  | _ => 31

/-- Days of a year before its month. -/
def daysBeforeMonth (year : Int) : Nat → Nat
  | 0 | 1 => 0
  | m + 2 => daysBeforeMonth year (m + 1) + monthLength year (m + 1)

/-- Leap years from the year 1 on, up to a year. -/
def leapYears (year : Int) : Int :=
  year / 4 - year / 100 + year / 400

/-- Days from the start of 1970 to the start of a year. -/
def daysBeforeYear (year : Int) : Int :=
  365 * (year - 1970) + leapYears (year - 1) - leapYears 1969

theorem leapYears_succ (year : Int) :
    leapYears year = leapYears (year - 1) + if IsLeap year then 1 else 0 := by
  by_cases h : IsLeap year
  · rw [if_pos h]
    unfold leapYears
    unfold IsLeap at h
    omega
  · rw [if_neg h]
    unfold leapYears
    unfold IsLeap at h
    omega

/-- Days from the start of 1970 to a date. -/
def dayNumber (d : Date) : Int :=
  daysBeforeYear d.year + daysBeforeMonth d.year d.month + (d.day - 1 : Nat)

/-- The year of a day within a century, if the days are counted with its leap days left out. -/
theorem yearOfCentury_spec {k r : Nat} (hk : k < 4) (hr : r < 36524) :
    let t := (r - (r + 24 * k) / 1460) / 365
    t < 100 ∧ 365 * t + t / 4 ≤ r ∧ r < 365 * t + t / 4 + 366 := by
  obtain ⟨u, hu⟩ : ∃ u, u = (r + 24 * k) / 1460 := ⟨_, rfl⟩
  obtain ⟨t, ht⟩ : ∃ t, t = (r - u) / 365 := ⟨_, rfl⟩
  simp only [← hu, ← ht]
  have hcases : t + 1 = 4 * u ∨ t = 4 * u ∨ t = 4 * u + 1 ∨ t = 4 * u + 2 ∨ t = 4 * u + 3 := by omega
  obtain h | h | h | h | h := hcases <;> omega

/-- Within the 400 years after a leap day: the year of a day, and its day in the year. -/
theorem yearOfEra_spec {n : Nat} (h : n < 146097) :
    let y := (n - n / 1460 + n / 36524 - n / 146096) / 365
    y < 400 ∧ 365 * y + y / 4 - y / 100 ≤ n ∧ n - (365 * y + y / 4 - y / 100) < 366 := by
  by_cases hlast : n = 146096
  · subst hlast
    decide
  · obtain ⟨k, r, hk, hr, rfl⟩ : ∃ k r, k < 4 ∧ r < 36524 ∧ n = 36524 * k + r :=
      ⟨n / 36524, n % 36524, by omega, by omega, by omega⟩
    have hfour : (36524 * k + r) / 1460 = 25 * k + (r + 24 * k) / 1460 := by omega
    have hcentury : (36524 * k + r) / 36524 = k := by omega
    have hera : (36524 * k + r) / 146096 = 0 := by omega
    have hspec := yearOfCentury_spec hk hr
    obtain ⟨t, ht⟩ : ∃ t, t = (r - (r + 24 * k) / 1460) / 365 := ⟨_, rfl⟩
    simp only [← ht] at hspec
    have hyear : (36524 * k + r - (36524 * k + r) / 1460 + (36524 * k + r) / 36524 -
        (36524 * k + r) / 146096) / 365 = 100 * k + t := by omega
    have hleaps : (100 * k + t) / 4 = 25 * k + t / 4 := by omega
    have hcenturies : (100 * k + t) / 100 = k := by omega
    simp only [hyear, hleaps, hcenturies]
    clear hyear
    omega

/-- Where a year begins that is counted from its first of March on. -/
theorem dayNumber_march (year : Int) :
    daysBeforeYear year + daysBeforeMonth year 3 = 365 * year + leapYears year - 719468 := by
  have hleap := leapYears_succ year
  have hfebruary : (daysBeforeMonth year 3 : Int) = 59 + if IsLeap year then 1 else 0 := by
    simp only [daysBeforeMonth, monthLength]
    split <;> rfl
  have hstart : leapYears 1969 = 477 := by decide
  unfold daysBeforeYear
  omega

theorem daysBeforeYear_succ (year : Int) :
    daysBeforeYear (year + 1) = daysBeforeYear year + 365 + if IsLeap year then 1 else 0 := by
  have hleap := leapYears_succ year
  have hstep : year + 1 - 1 = year := by omega
  unfold daysBeforeYear
  rw [hstep]
  omega

/-- From the first of March on, five months have 153 days. -/
theorem daysBeforeMonth_march (year : Int) {m : Nat} (hm : m < 10) :
    daysBeforeMonth year (m + 3) = daysBeforeMonth year 3 + (153 * m + 2) / 5 := by
  interval_cases m <;> simp [daysBeforeMonth, monthLength]

theorem daysBeforeMonth_january (year : Int) {m : Nat} (hten : 10 ≤ m) (hm : m < 12) :
    daysBeforeYear (year + 1) + daysBeforeMonth (year + 1) (m - 9) =
      daysBeforeYear year + daysBeforeMonth year 3 + ((153 * m + 2) / 5 : Nat) := by
  have hyear := daysBeforeYear_succ year
  have hfebruary : (daysBeforeMonth year 3 : Int) = 59 + if IsLeap year then 1 else 0 := by
    simp only [daysBeforeMonth, monthLength]
    split <;> rfl
  obtain rfl | rfl : m = 10 ∨ m = 11 := by omega
  · have hfirst : daysBeforeMonth (year + 1) (10 - 9) = 0 := rfl
    omega
  · have hsecond : daysBeforeMonth (year + 1) (11 - 9) = 31 := rfl
    omega

theorem dayNumber_ofDays (days : Int) : (ofDays days).dayNumber = days := by
  obtain ⟨n, hn⟩ : ∃ n, n = ((days + 719468).fmod 146097).toNat := ⟨_, rfl⟩
  obtain ⟨era, hera⟩ : ∃ era, era = (days + 719468).fdiv 146097 := ⟨_, rfl⟩
  have hlt : n < 146097 := by
    have := Int.fmod_lt_of_pos (days + 719468) (show (0 : Int) < 146097 by decide)
    omega
  have hdays : days + 719468 = 146097 * era + n := by
    have hmod := Int.fmod_nonneg_of_pos (days + 719468) (show (0 : Int) < 146097 by decide)
    have hsum := Int.mul_fdiv_add_fmod (days + 719468) 146097
    omega
  obtain ⟨y, hy⟩ : ∃ y, y = (n - n / 1460 + n / 36524 - n / 146096) / 365 := ⟨_, rfl⟩
  obtain ⟨hyear, hfirst, hlast⟩ := yearOfEra_spec hlt
  simp only [← hy] at hyear hfirst hlast
  obtain ⟨d, hd⟩ : ∃ d, d = n - (365 * y + y / 4 - y / 100) := ⟨_, rfl⟩
  obtain ⟨m, hm⟩ : ∃ m, m = (5 * d + 2) / 153 := ⟨_, rfl⟩
  obtain ⟨year, hyearEra⟩ : ∃ year : Int, year = y + era * 400 := ⟨_, rfl⟩
  have hmarch := dayNumber_march year
  have hleaps : leapYears year = 97 * era + (y / 4 - y / 100 : Nat) := by
    unfold leapYears
    omega
  have hdate : ofDays days = ⟨if (if m < 10 then m + 3 else m - 9) ≤ 2 then year + 1 else year,
      if m < 10 then m + 3 else m - 9, d - (153 * m + 2) / 5 + 1⟩ := by
    simp only [ofDays, ← hn, ← hera, ← hy, ← hd, ← hm, ← hyearEra]
  rw [hdate]
  unfold dayNumber
  by_cases hten : m < 10
  · simp only [if_pos hten, if_neg (show ¬ m + 3 ≤ 2 by omega), daysBeforeMonth_march year hten]
    omega
  · have hjanuary := daysBeforeMonth_january year (Nat.le_of_not_lt hten) (show m < 12 by omega)
    simp only [if_neg hten, if_pos (show m - 9 ≤ 2 by omega)]
    omega

end Date

namespace Timestamp

/-- Nanoseconds since the start of 1970. -/
def instant (t : Timestamp) : Int :=
  t.seconds * 1000000000 + t.nanos

/-- The number behind a mark, and the text behind it. -/
def field? (mark : Char) : List Char → Option (Nat × List Char)
  | [] => none
  | c :: t =>
    if c = mark then (Digits.take? t).map fun (ds, r) => (Nat.ofDigitChars 10 ds 0, r) else none

/-- The instant that a date and a time of day in UTC name, with the offset written as a letter or as numbers. -/
def instant? (text : String) : Option Int := do
  let (sign, t) := Digits.sign text.toList
  let (digits, t) ← Digits.take? t
  let year : Int := Nat.ofDigitChars 10 digits 0
  let (month, t) ← field? '-' t
  let (day, t) ← field? '-' t
  let (hour, t) ← field? 'T' t
  let (minute, t) ← field? ':' t
  let (second, t) ← field? ':' t
  let (fraction, offset) ← Digits.fraction? t
  let days := Date.dayNumber ⟨if sign = ['-'] then -year else year, month, day⟩
  if offset = ['Z'] ∨ offset = ['+', '0', '0', ':', '0', '0'] then
    some ((days * 86400 + hour * 3600 + minute * 60 + second) * 1000000000 +
      (Nat.ofDigitChars 10 fraction 0 * 10 ^ (9 - fraction.length) : Nat))
  else none

theorem field?_padded {mark : Char} {width n : Nat} {r : List Char}
    (hr : ∀ c ∈ r.head?, c.isDigit = false) :
    field? mark (mark :: ((padded width n).toList ++ r)) = some (n, r) := by
  simp [field?, Digits.take?_padded hr, Digits.ofDigitChars_padded]

theorem yearText_spec (year : Int) :
    ∃ mark width, (Date.yearText year).toList = mark ++ (padded width year.natAbs).toList ∧
      (mark = [] ∨ mark = ['+'] ∨ mark = ['-']) ∧
      (if mark = ['-'] then -(year.natAbs : Int) else year.natAbs) = year := by
  unfold Date.yearText
  split
  · exact ⟨['-'], 4, by simp, by simp, by rw [if_pos rfl]; omega⟩
  · split
    · refine ⟨['+'], 0, ?_, by simp, by rw [if_neg (by decide)]; omega⟩
      rw [String.toList_append, Digits.toString_eq_padded]
      rfl
    · exact ⟨[], 4, by simp, by simp, by rw [if_neg (by decide)]; omega⟩

theorem fraction_spec (t : Timestamp) :
    ∃ digits, t.fraction.toList = (if digits = [] then [] else '.' :: digits) ∧
      (∀ c ∈ digits, c.isDigit) ∧
      Nat.ofDigitChars 10 digits 0 * 10 ^ (9 - digits.length) = t.nanos % 1000000000 := by
  unfold fraction
  obtain ⟨n, hn⟩ : ∃ n, n = t.nanos % 1000000000 := ⟨_, rfl⟩
  have hlt : n < 1000000000 := hn ▸ Nat.mod_lt _ (by decide)
  simp only [← hn]
  have hwritten {width m : Nat} (hwidth : 0 < width) (hm : m < 10 ^ width)
      (hvalue : m * 10 ^ (9 - width) = n) :
      ∃ digits, ("." ++ padded width m).toList = (if digits = [] then [] else '.' :: digits) ∧
        (∀ c ∈ digits, c.isDigit) ∧
        Nat.ofDigitChars 10 digits 0 * 10 ^ (9 - digits.length) = n := by
    refine ⟨(padded width m).toList, ?_, Digits.isDigit_of_mem_padded width m, ?_⟩
    · rw [if_neg (Digits.padded_ne_nil width m), String.toList_append]
      rfl
    · rw [Digits.ofDigitChars_padded, Digits.length_padded hwidth hm, hvalue]
  split
  · rename_i hzero
    exact ⟨[], rfl, by simp, by simp [hzero]⟩
  · split
    · exact hwritten (by decide) (by omega) (by omega)
    · split
      · exact hwritten (by decide) (by omega) (by omega)
      · exact hwritten (by decide) (by omega) (by omega)

theorem instant?_dateTime (t : Timestamp) {offset : String} (h : offset = "Z" ∨ offset = "+00:00") :
    instant? (t.dateTime ++ t.fraction ++ offset) = some t.instant := by
  obtain ⟨date, hdate⟩ : ∃ date, date = Date.ofDays (t.seconds.fdiv 86400) := ⟨_, rfl⟩
  obtain ⟨second, hsecond⟩ : ∃ second, second = (t.seconds.fmod 86400).toNat := ⟨_, rfl⟩
  obtain ⟨mark, width, hyear, hmark, hsign⟩ := yearText_spec date.year
  obtain ⟨fraction, hfraction, hdigits, hnanos⟩ := t.fraction_spec
  have hdays : date.dayNumber = t.seconds.fdiv 86400 := by rw [hdate, Date.dayNumber_ofDays]
  have htext : (t.dateTime ++ t.fraction ++ offset).toList =
      mark ++ ((padded width date.year.natAbs).toList ++ '-' :: ((padded 2 date.month).toList ++
        '-' :: ((padded 2 date.day).toList ++ 'T' :: ((padded 2 (second / 3600)).toList ++
        ':' :: ((padded 2 (second / 60 % 60)).toList ++
        ':' :: ((padded 2 (second % 60 + t.nanos / 1000000000)).toList ++
        ((if fraction = [] then [] else '.' :: fraction) ++ offset.toList))))))) := by
    have hdash : "-".toList = ['-'] := rfl
    have hletter : "T".toList = ['T'] := rfl
    have hcolon : ":".toList = [':'] := rfl
    simp only [dateTime, Date.text, clock, String.toList_append, ← hdate, ← hsecond, hyear, hfraction,
      hdash, hletter, hcolon, List.append_assoc, List.cons_append, List.nil_append]
  have hoffset : offset.toList = ['Z'] ∨ offset.toList = ['+', '0', '0', ':', '0', '0'] := by
    obtain rfl | rfl := h <;> decide
  have hbehind : ∀ c ∈ offset.toList.head?, c.isDigit = false ∧ c ≠ '.' := by
    obtain heq | heq := hoffset <;> rw [heq] <;> simp
  have hseconds : ∀ c ∈ ((if fraction = [] then [] else '.' :: fraction) ++ offset.toList).head?,
      c.isDigit = false := by
    intro c hc
    by_cases hnil : fraction = []
    · rw [if_pos hnil] at hc
      exact (hbehind c hc).1
    · rw [if_neg hnil] at hc
      cases hc
      decide
  have hmarks {c : Char} {r : List Char} (hc : c.isDigit = false) :
      ∀ d ∈ (c :: r).head?, d.isDigit = false := by
    intro d hd
    cases hd
    exact hc
  unfold instant?
  rw [htext, Digits.sign_append hmark (Digits.padded_ne_nil _ _) (Digits.isDigit_of_mem_padded _ _)]
  simp only [Digits.take?_padded (hmarks (show '-'.isDigit = false by decide)),
    field?_padded (hmarks (show '-'.isDigit = false by decide)),
    field?_padded (hmarks (show 'T'.isDigit = false by decide)),
    field?_padded (hmarks (show ':'.isDigit = false by decide)), field?_padded hseconds,
    Digits.fraction?_append hdigits hbehind, Option.bind_eq_bind, Option.bind_some,
    Digits.ofDigitChars_padded, if_pos hoffset, hsign, hdays, hnanos]
  refine congrArg some ?_
  have hsplit : t.seconds = 86400 * t.seconds.fdiv 86400 + second := by
    have hmod := Int.fmod_nonneg_of_pos t.seconds (show (0 : Int) < 86400 by decide)
    have hsum := Int.mul_fdiv_add_fmod t.seconds 86400
    omega
  unfold instant
  omega

/-- Both texts of a point in time name it. -/
theorem instant?_text (t : Timestamp) : instant? t.text = some t.instant :=
  t.instant?_dateTime (.inl rfl)

theorem instant?_offsetText (t : Timestamp) : instant? t.offsetText = some t.instant :=
  t.instant?_dateTime (.inr rfl)

end Timestamp

end Collate
