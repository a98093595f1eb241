import Mathlib.Algebra.Order.Field.Rat
import Mathlib.Algebra.Order.Ring.Abs
import Mathlib.Tactic.Linarith
import Collate.Proofs.Text.Digits
import Collate.Text.Size

/-!
Amounts as they are shown, read back as a number times a power of 1024. They are rounded twice, to 53 bits and
to tenths, and the unit is chosen in between; still a larger amount is never shown as less. The most that is
shown in a unit is 1024.0 of it, and that is one of the next.
-/
namespace Collate.Size

section Rounding

variable {num next den k : Nat}

/-- A rounded quotient is off by half of the divisor at most. -/
theorem roundDiv_near (hden : 0 < den) (num : Nat) :
    2 * num ≤ 2 * (roundDiv num den * den) + den ∧
      2 * (roundDiv num den * den) ≤ 2 * num + den := by
  have hsplit : num / den * den + num % den = num := Nat.div_add_mod' num den
  have hrest : num % den < den := Nat.mod_lt num hden
  simp only [roundDiv]
  split
  · omega
  · split
    · rw [Nat.succ_mul (num / den)]
      omega
    · rename_i hlow hhigh
      obtain heven | hodd := Nat.mod_two_eq_zero_or_one (num / den)
      · rw [heven, Nat.add_zero]
        omega
      · rw [hodd, Nat.succ_mul (num / den)]
        omega

theorem roundDiv_mono (hden : 0 < den) (h : num ≤ next) :
    roundDiv num den ≤ roundDiv next den := by
  by_contra hlt
  have hstep : roundDiv next den * den + den ≤ roundDiv num den * den := by
    rw [← Nat.succ_mul]
    exact Nat.mul_le_mul_right den (Nat.lt_of_not_le hlt)
  have habove := (roundDiv_near hden num).2
  have hbelow := (roundDiv_near hden next).1
  -- Both lie half way between the same neighbours, and a tie goes one way only.
  have heq : num = next := by omega
  exact hlt (heq ▸ Nat.le_refl _)

theorem roundDiv_mul (hden : 0 < den) (k : Nat) : roundDiv (k * den) den = k := by
  simp [roundDiv, hden]

theorem le_roundDiv (hden : 0 < den) (h : k * den ≤ num) : k ≤ roundDiv num den :=
  calc k = roundDiv (k * den) den := (roundDiv_mul hden k).symm
    _ ≤ roundDiv num den := roundDiv_mono hden h

theorem roundDiv_le (hden : 0 < den) (h : num ≤ k * den) : roundDiv num den ≤ k :=
  calc roundDiv num den ≤ roundDiv (k * den) den := roundDiv_mono hden h
    _ = k := roundDiv_mul hden k

end Rounding

section Precision

variable {a b n : Nat}

theorem significant_of_lt (h : n < 2 ^ 53) : significant n = n :=
  if_pos h

theorem significant_of_le (h : 2 ^ 53 ≤ n) :
    significant n = roundDiv n (2 ^ (n.log2 - 52)) * 2 ^ (n.log2 - 52) := by
  rw [← Nat.one_shiftLeft]
  exact if_neg (Nat.not_lt.mpr h)

theorem significant_between (h : n ≠ 0) :
    2 ^ n.log2 ≤ significant n ∧ significant n ≤ 2 ^ (n.log2 + 1) := by
  have hlow : 2 ^ n.log2 ≤ n := Nat.log2_self_le h
  have hhigh : n < 2 ^ (n.log2 + 1) := Nat.lt_log2_self
  by_cases hsmall : n < 2 ^ 53
  · rw [significant_of_lt hsmall]
    exact ⟨hlow, Nat.le_of_lt hhigh⟩
  · have hlarge : 2 ^ 53 ≤ n := Nat.le_of_not_lt hsmall
    obtain ⟨e, he⟩ := Nat.exists_eq_add_of_le ((Nat.le_log2 h).mpr hlarge)
    have hstep : 0 < 2 ^ (e + 1) := Nat.two_pow_pos _
    have hdown : 2 ^ n.log2 = 2 ^ 52 * 2 ^ (e + 1) := by
      rw [← Nat.pow_add]
      exact congrArg (2 ^ ·) (by omega)
    have hup : 2 ^ (n.log2 + 1) = 2 ^ 53 * 2 ^ (e + 1) := by
      rw [← Nat.pow_add]
      exact congrArg (2 ^ ·) (by omega)
    have hexponent : n.log2 - 52 = e + 1 := by omega
    rw [significant_of_le hlarge, hexponent, hup, hdown]
    exact ⟨Nat.mul_le_mul_right _ (le_roundDiv hstep (hdown ▸ hlow)),
      Nat.mul_le_mul_right _ (roundDiv_le hstep (hup ▸ Nat.le_of_lt hhigh))⟩

theorem significant_mono (h : a ≤ b) : significant a ≤ significant b := by
  by_cases hzero : a = 0
  · subst hzero
    exact Nat.zero_le _
  · have hb : b ≠ 0 := by omega
    have hlog : a.log2 ≤ b.log2 := (Nat.le_log2 hb).mpr (Nat.le_trans (Nat.log2_self_le hzero) h)
    obtain hlt | heq := Nat.lt_or_eq_of_le hlog
    · calc significant a ≤ 2 ^ (a.log2 + 1) := (significant_between hzero).2
        _ ≤ 2 ^ b.log2 := Nat.pow_le_pow_right (by decide) hlt
        _ ≤ significant b := (significant_between hb).1
    · by_cases hsmall : b < 2 ^ 53
      · rw [significant_of_lt hsmall, significant_of_lt (Nat.lt_of_le_of_lt h hsmall)]
        exact h
      · have hlarge : 2 ^ 53 ≤ b := Nat.le_of_not_lt hsmall
        have hlarge' : 2 ^ 53 ≤ a := (Nat.le_log2 hzero).mp (heq ▸ (Nat.le_log2 hb).mpr hlarge)
        rw [significant_of_le hlarge, significant_of_le hlarge', heq]
        exact Nat.mul_le_mul_right _ (roundDiv_mono (Nat.two_pow_pos _) h)

end Precision

section Units

variable {a b n : Nat}

theorem Unit.bytes_pos (u : Unit) : 0 < u.bytes := by
  cases u <;> decide

/-- Of two amounts in different units, the unit of the larger one lies between them. -/
theorem Unit.fitting_cases (h : a ≤ b) :
    fitting a = fitting b ∨
      (a < (fitting b).bytes ∧ (fitting b).bytes ≤ b) ∧ (fitting a).bytes ∣ (fitting b).bytes := by
  simp only [fitting]
  split_ifs <;> simp [bytes] at * <;> omega

/-- The tenths shown, taken back to bytes, keep the order. -/
theorem tenths_mono (h : a ≤ b) : tenths a * (unit a).bytes ≤ tenths b * (unit b).bytes := by
  have hsignificant := significant_mono h
  obtain heq | ⟨⟨hlt, hle⟩, k, hk⟩ := Unit.fitting_cases hsignificant
  · have hunit : unit a = unit b := heq
    rw [tenths, tenths, hunit]
    exact Nat.mul_le_mul_right _ (roundDiv_mono (Unit.bytes_pos _) (Nat.mul_le_mul_left 10 hsignificant))
  · have hscaled : 10 * k * (unit a).bytes = 10 * (unit b).bytes := by
      rw [Nat.mul_assoc, Nat.mul_comm k]
      exact congrArg (10 * ·) hk.symm
    have hmost : tenths a ≤ 10 * k :=
      roundDiv_le (Unit.bytes_pos _) (hscaled ▸ Nat.mul_le_mul_left 10 (Nat.le_of_lt hlt))
    have hleast : 10 ≤ tenths b := le_roundDiv (Unit.bytes_pos _) (Nat.mul_le_mul_left 10 hle)
    calc tenths a * (unit a).bytes ≤ 10 * k * (unit a).bytes := Nat.mul_le_mul_right _ hmost
      _ = 10 * (unit b).bytes := hscaled
      _ ≤ tenths b * (unit b).bytes := Nat.mul_le_mul_right _ hleast

theorem unit_eq_byte_iff : unit n = .byte ↔ n < 1024 := by
  have hfitting (m : Nat) : Unit.fitting m = .byte ↔ m < 1024 := by
    simp only [Unit.fitting]
    split_ifs <;> simp [Unit.bytes] at * <;> omega
  rw [unit, hfitting]
  constructor
  · intro h
    by_contra hlarge
    have hmono := significant_mono (Nat.le_of_not_lt hlarge)
    rw [significant_of_lt (by decide : 1024 < 2 ^ 53)] at hmono
    omega
  · intro h
    rwa [significant_of_lt (by omega)]

theorem tenths_of_lt (h : n < 1024) : tenths n = 10 * n := by
  have hone := roundDiv_mul Nat.one_pos (10 * n)
  rw [Nat.mul_one] at hone
  rwa [tenths, unit_eq_byte_iff.mpr h, significant_of_lt (by omega)]

end Units

section Division

/-- Divides by 1024 while as much is left, so many times at most; gives what is left and how often it was
divided. -/
def divided : Nat → ℚ → ℚ × Nat
  | 0, x => (x, 0)
  | k + 1, x =>
    if x < 1024 then (x, 0)
    else ((divided k (x / 1024)).1, (divided k (x / 1024)).2 + 1)

theorem divided_mul (k : Nat) (x : ℚ) : (divided k x).1 * 1024 ^ (divided k x).2 = x := by
  induction k generalizing x with
  | zero => simp [divided]
  | succ k ih =>
      simp only [divided]
      split
      · simp
      · rw [pow_succ, ← mul_assoc, ih]
        exact div_mul_cancel₀ x (by norm_num)

def Unit.exponent : Unit → Nat
  | byte => 0
  | kilo => 1
  | mega => 2
  | giga => 3

theorem Unit.bytes_eq (u : Unit) : u.bytes = 1024 ^ u.exponent := by
  cases u <;> rfl

theorem divided_exponent (n : Nat) : (divided 3 n).2 = (Unit.fitting n).exponent := by
  have hkilo : (n : ℚ) < 1024 ↔ n < 0x400 := by norm_cast
  have hmega : (n : ℚ) / 1024 < 1024 ↔ n < 0x100000 := by
    rw [div_lt_iff₀ (by norm_num)]
    norm_num
  have hgiga : (n : ℚ) / 1024 / 1024 < 1024 ↔ n < 0x40000000 := by
    rw [div_lt_iff₀ (by norm_num), div_lt_iff₀ (by norm_num)]
    norm_num
  simp only [divided, hkilo, hmega, hgiga, Unit.fitting, Unit.bytes]
  split_ifs <;> simp [Unit.exponent, *]

theorem divided_significant (n : Nat) :
    (divided 3 (significant n)).1 * (unit n).bytes = significant n := by
  have hmul := divided_mul 3 (significant n)
  rw [divided_exponent] at hmul
  rw [Unit.bytes_eq]
  push_cast
  exact hmul

/-- The number shown is what the division leaves, to within half a tenth. -/
theorem tenths_near (n : Nat) :
    |(tenths n : ℚ) / 10 - (divided 3 (significant n)).1| ≤ 1 / 20 := by
  have hpos : (0 : ℚ) < (unit n).bytes := by exact_mod_cast Unit.bytes_pos (unit n)
  have hrest := divided_significant n
  obtain ⟨hmost, hleast⟩ := roundDiv_near (Unit.bytes_pos (unit n)) (10 * significant n)
  have hbelow : 20 * (significant n : ℚ) ≤ (2 * tenths n + 1) * (unit n).bytes := by
    rw [← tenths] at hmost
    have hcast : (2 : ℚ) * (10 * significant n) ≤ 2 * (tenths n * (unit n).bytes) + (unit n).bytes := by
      exact_mod_cast hmost
    linarith
  have habove : (2 * tenths n - 1) * ((unit n).bytes : ℚ) ≤ 20 * significant n := by
    rw [← tenths] at hleast
    have hcast : (2 : ℚ) * (tenths n * (unit n).bytes) ≤ 2 * (10 * significant n) + (unit n).bytes := by
      exact_mod_cast hleast
    linarith
  rw [← hrest, ← mul_assoc] at hbelow habove
  have hlow := le_of_mul_le_mul_right hbelow hpos
  have hhigh := le_of_mul_le_mul_right habove hpos
  rw [abs_le]
  constructor <;> linarith

end Division

section Reading

/-- A number and the power of 1024 that it counts. -/
structure Quantity where
  number : ℚ
  exponent : Nat

def Quantity.unit (q : Quantity) : ℚ :=
  1024 ^ q.exponent

def Quantity.bytes (q : Quantity) : ℚ :=
  q.number * q.unit

def exponent? (name : List Char) : Option Nat :=
  ["B", "KB", "MB", "GB"].findIdx? (·.toList = name)

/-- Reads a decimal number, a blank and the name of a unit. -/
def Quantity.ofText? (t : String) : Option Quantity := do
  let (whole, r) ← Digits.take? t.toList
  let (part, r) ← Digits.fraction? r
  guard (r.head? = some ' ')
  let exponent ← exponent? r.tail
  return ⟨Nat.ofDigitChars 10 (whole ++ part) 0 / 10 ^ part.length, exponent⟩

def shown (n : Nat) : Quantity where
  number := tenths n / 10
  exponent := (unit n).exponent

theorem exponent?_name (u : Unit) : exponent? u.name.toList = some u.exponent := by
  cases u <;> decide

theorem ofText?_of_toList {t : String} {part : List Char} (hpart : ∀ c ∈ part, c.isDigit) (w : Nat)
    (u : Unit) (ht : t.toList =
      Nat.toDigits 10 w ++ ((if part = [] then [] else '.' :: part) ++ ' ' :: u.name.toList)) :
    Quantity.ofText? t =
      some ⟨Nat.ofDigitChars 10 (Nat.toDigits 10 w ++ part) 0 / 10 ^ part.length, u.exponent⟩ := by
  have hwhole : ∀ c ∈ Nat.toDigits 10 w, c.isDigit := fun _ hc =>
    Nat.isDigit_of_mem_toDigits (by decide) (by decide) hc
  have hpoint : ∀ c ∈ ((if part = [] then [] else '.' :: part) ++ ' ' :: u.name.toList).head?,
      c.isDigit = false := by
    split <;> simp
  have hblank : ∀ c ∈ (' ' :: u.name.toList).head?, c.isDigit = false ∧ c ≠ '.' := by
    simp
  rw [Quantity.ofText?, ht, Digits.take?_append Nat.toDigits_ne_nil hwhole hpoint]
  simp [Digits.fraction?_append hpart hblank, exponent?_name]

theorem ofText?_bytes (n : Nat) : Quantity.ofText? (toString n ++ " B") = some ⟨n, 0⟩ := by
  have htext : (toString n ++ " B").toList =
      Nat.toDigits 10 n ++ ((if ([] : List Char) = [] then [] else ['.']) ++
        ' ' :: Unit.byte.name.toList) := by
    simp [Unit.name]
  rw [ofText?_of_toList (by simp) n .byte htext, List.append_nil, Nat.ofDigitChars_ten_toDigits]
  simp [Unit.exponent]

theorem ofText?_tenths (t : Nat) (u : Unit) :
    Quantity.ofText? (toString (t / 10) ++ "." ++ toString (t % 10) ++ " " ++ u.name) =
      some ⟨t / 10, u.exponent⟩ := by
  have hpart : ∀ c ∈ Nat.toDigits 10 (t % 10), c.isDigit := fun _ hc =>
    Nat.isDigit_of_mem_toDigits (by decide) (by decide) hc
  have htext : (toString (t / 10) ++ "." ++ toString (t % 10) ++ " " ++ u.name).toList =
      Nat.toDigits 10 (t / 10) ++
        ((if Nat.toDigits 10 (t % 10) = [] then [] else '.' :: Nat.toDigits 10 (t % 10)) ++
          ' ' :: u.name.toList) := by
    simp [Nat.toDigits_ne_nil]
  have hlength : (Nat.toDigits 10 (t % 10)).length = 1 := by
    rw [Nat.toDigits_of_lt_base (Nat.mod_lt t (by decide))]
    rfl
  have hnumber : Nat.ofDigitChars 10 (Nat.toDigits 10 (t / 10) ++ Nat.toDigits 10 (t % 10)) 0 = t := by
    rw [Nat.ofDigitChars_append, Nat.ofDigitChars_ten_toDigits,
      Nat.ofDigitChars_eq_ofDigitChars_zero, hlength, Nat.pow_one, Nat.ofDigitChars_ten_toDigits]
    exact Nat.div_add_mod t 10
  rw [ofText?_of_toList hpart _ u htext, hlength, hnumber, pow_one]

/-- What is read back is what was shown. -/
theorem ofText?_text (n : Nat) : Quantity.ofText? (text n) = some (shown n) := by
  simp only [text]
  split
  · rename_i hunit
    have hbyte : shown n = ⟨n, 0⟩ := by
      simp [shown, hunit, tenths_of_lt (unit_eq_byte_iff.mp hunit), Unit.exponent]
    rw [hbyte]
    exact ofText?_bytes n
  · exact ofText?_tenths (tenths n) (unit n)

end Reading

section Shown

variable {a b : Nat}

theorem unit_shown (n : Nat) : (shown n).unit = (unit n).bytes := by
  rw [Unit.bytes_eq, Nat.cast_pow]
  rfl

theorem bytes_shown (n : Nat) : (shown n).bytes = ((tenths n * (unit n).bytes : Nat) : ℚ) / 10 := by
  rw [Quantity.bytes, unit_shown, Nat.cast_mul]
  exact div_mul_eq_mul_div _ _ _

theorem shown_mono (h : a ≤ b) : (shown a).bytes ≤ (shown b).bytes := by
  rw [bytes_shown, bytes_shown]
  have hcast : ((tenths a * (unit a).bytes : Nat) : ℚ) ≤ (tenths b * (unit b).bytes : Nat) :=
    Nat.cast_le.mpr (tenths_mono h)
  linarith

theorem shown_of_lt (h : b < 1024) : (shown b).bytes = b := by
  rw [bytes_shown, unit_eq_byte_iff.mpr h, tenths_of_lt h, Unit.bytes]
  push_cast
  linarith

theorem shown_near (h : b < 2 ^ 53) : |(shown b).bytes - b| ≤ (shown b).unit / 20 := by
  have hpos : (0 : ℚ) < (shown b).unit := pow_pos (by norm_num) _
  have hrest := divided_significant b
  have hnear : |(shown b).number - (divided 3 (significant b)).1| ≤ 1 / 20 := tenths_near b
  rw [← unit_shown, significant_of_lt h] at hrest
  rw [significant_of_lt h] at hnear
  calc |(shown b).bytes - b|
      = |((shown b).number - (divided 3 b).1) * (shown b).unit| := by
        rw [sub_mul, hrest, Quantity.bytes]
    _ = |(shown b).number - (divided 3 b).1| * (shown b).unit := by
        rw [abs_mul, abs_of_pos hpos]
    _ ≤ 1 / 20 * (shown b).unit := mul_le_mul_of_nonneg_right hnear (le_of_lt hpos)
    _ = (shown b).unit / 20 := one_div_mul_eq_div _ _

/-- A larger amount is never shown as less, in whichever units the two stand. With no more than 53 bits an
amount is shown to within a twentieth of its unit, and below 1024 as it is. In any case the unit is the one that
dividing comes to, and the number what is left there to within half a tenth. -/
theorem text_monotone (h : a ≤ b) :
    ∃ x y, Quantity.ofText? (text a) = some x ∧ Quantity.ofText? (text b) = some y ∧
      x.bytes ≤ y.bytes ∧
      (b < 2 ^ 53 → |y.bytes - b| ≤ y.unit / 20) ∧
      (b < 1024 → y.bytes = b) ∧
      y.exponent = (divided 3 (significant b)).2 ∧
      |y.number - (divided 3 (significant b)).1| ≤ 1 / 20 :=
  ⟨shown a, shown b, ofText?_text a, ofText?_text b, shown_mono h, shown_near, shown_of_lt,
    (divided_exponent (significant b)).symm, tenths_near b⟩

/-- The last amount before a megabyte is shown as 1024.0 of the smaller unit. -/
theorem text_monotone_mega :
    text 1048575 = "1024.0 KB" ∧ text 1048576 = "1.0 MB" ∧
      ∃ x y, Quantity.ofText? "1024.0 KB" = some x ∧ Quantity.ofText? "1.0 MB" = some y ∧
        x.bytes ≤ y.bytes ∧ |y.bytes - 1048576| ≤ y.unit / 20 ∧ y.exponent = 2 := by
  have hbelow : text 1048575 = "1024.0 KB" := by decide
  have habove : text 1048576 = "1.0 MB" := by decide
  obtain ⟨x, y, hx, hy, hle, hnear, -, hexponent, -⟩ := text_monotone (by decide : 1048575 ≤ 1048576)
  rw [hbelow] at hx
  rw [habove] at hy
  rw [divided_exponent] at hexponent
  exact ⟨hbelow, habove, x, y, hx, hy, hle, hnear (by decide), hexponent⟩

end Shown

end Collate.Size
