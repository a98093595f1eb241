import Mathlib.Algebra.GroupWithZero.Nat
import Mathlib.Data.List.TakeWhile
import Collate.Time

/-!
Decimal digits in a text: reading them as far as they go, with a sign before them or a point, and what they are
where a number was written with them.
-/
namespace Collate.Digits

/-- Digits, at least one and as many as there are. -/
def take? (t : List Char) : Option (List Char × List Char) :=
  if t.takeWhile Char.isDigit = [] then none
  else some (t.takeWhile Char.isDigit, t.dropWhile Char.isDigit)

def sign : List Char → List Char × List Char
  | '+' :: t => (['+'], t)
  | '-' :: t => (['-'], t)
  | t => ([], t)

def fraction? : List Char → Option (List Char × List Char)
  | '.' :: t => take? t
  | t => some ([], t)

theorem take?_sound {t ds r : List Char} (h : take? t = some (ds, r)) :
    t = ds ++ r ∧ ds ≠ [] ∧ ∀ c ∈ ds, c.isDigit := by
  unfold take? at h
  split at h
  · cases h
  · rename_i hne
    cases h
    exact ⟨List.takeWhile_append_dropWhile.symm, hne, fun c hc => List.mem_takeWhile_imp hc⟩

theorem take?_append {ds r : List Char} (hne : ds ≠ []) (hds : ∀ c ∈ ds, c.isDigit)
    (hr : ∀ c ∈ r.head?, c.isDigit = false) : take? (ds ++ r) = some (ds, r) := by
  have hrest : r.takeWhile Char.isDigit = [] ∧ r.dropWhile Char.isDigit = r := by
    cases r with
    | nil => exact ⟨rfl, rfl⟩
    | cons c r => simp [hr c rfl]
  unfold take?
  rw [List.takeWhile_append_of_pos hds, List.dropWhile_append_of_pos hds, hrest.1, hrest.2,
    List.append_nil, if_neg hne]

theorem sign_spec (t : List Char) :
    t = (sign t).1 ++ (sign t).2 ∧
      ((sign t).1 = [] ∨ (sign t).1 = ['+'] ∨ (sign t).1 = ['-']) := by
  unfold sign
  split <;> simp

theorem sign_append {mark ds r : List Char}
    (hmark : mark = [] ∨ mark = ['+'] ∨ mark = ['-']) (hne : ds ≠ [])
    (hds : ∀ c ∈ ds, c.isDigit) : sign (mark ++ (ds ++ r)) = (mark, ds ++ r) := by
  obtain rfl | rfl | rfl := hmark
  · obtain ⟨d, ds, rfl⟩ := List.exists_cons_of_ne_nil hne
    unfold sign
    split
    · rename_i heq
      cases heq
      exact absurd (hds '+' List.mem_cons_self) (by decide)
    · rename_i heq
      cases heq
      exact absurd (hds '-' List.mem_cons_self) (by decide)
    · rfl
  · rfl
  · rfl

theorem fraction?_sound {t f r : List Char} (h : fraction? t = some (f, r)) :
    t = (if f = [] then [] else '.' :: f) ++ r ∧ ∀ c ∈ f, c.isDigit := by
  unfold fraction? at h
  split at h
  · obtain ⟨ht, hne, hf⟩ := take?_sound h
    exact ⟨by rw [if_neg hne, ht, List.cons_append], hf⟩
  · cases h
    simp

theorem fraction?_append {f r : List Char} (hf : ∀ c ∈ f, c.isDigit)
    (hr : ∀ c ∈ r.head?, c.isDigit = false ∧ c ≠ '.') :
    fraction? ((if f = [] then [] else '.' :: f) ++ r) = some (f, r) := by
  by_cases hne : f = []
  · subst hne
    unfold fraction?
    split
    · rename_i heq
      exact absurd rfl (hr '.' (by simp_all)).2
    · rfl
  · rw [if_neg hne, List.cons_append]
    exact take?_append hne hf fun c hc => (hr c hc).1

/-! Written numbers -/

theorem leading (n : Nat) :
    (Nat.toDigits 10 n).head? = some '0' → Nat.toDigits 10 n = ['0'] := by
  induction n using Nat.strongRecOn with
  | ind n ih =>
      intro h
      by_cases hlt : n < 10
      · rw [Nat.toDigits_of_lt_base hlt] at h ⊢
        simpa using h
      · have hsplit := Nat.toDigits_of_base_le (by decide : 1 < 10) (Nat.le_of_not_lt hlt)
        have hfirst : (Nat.toDigits 10 (n / 10)).head? = some '0' := by
          obtain ⟨d, ds, hd⟩ := List.exists_cons_of_ne_nil (Nat.toDigits_ne_nil (n := n / 10))
          rw [hsplit, hd] at h
          rw [hd]
          exact h
        have hnumber : Nat.ofDigitChars 10 (Nat.toDigits 10 (n / 10)) 0 = n / 10 :=
          Nat.ofDigitChars_ten_toDigits
        rw [ih (n / 10) (by omega) hfirst] at hnumber
        have hzero : Nat.ofDigitChars 10 ['0'] 0 = 0 := rfl
        omega

variable (width n : Nat)

theorem toList_padded :
    (padded width n).toList =
      List.replicate (width - (toString n).length) '0' ++ Nat.toDigits 10 n := by
  simp [padded]

theorem toString_eq_padded : toString n = padded 0 n := by
  simp [padded]

theorem isDigit_of_mem_padded : ∀ c ∈ (padded width n).toList, c.isDigit := by
  intro c hc
  rw [toList_padded, List.mem_append] at hc
  obtain hzero | hdigit := hc
  · rw [List.eq_of_mem_replicate hzero]
    decide
  · exact Nat.isDigit_of_mem_toDigits (by decide) (by decide) hdigit

theorem padded_ne_nil : (padded width n).toList ≠ [] := by
  rw [toList_padded]
  simp [Nat.toDigits_ne_nil]

theorem ofDigitChars_padded : Nat.ofDigitChars 10 (padded width n).toList 0 = n := by
  rw [toList_padded, Nat.ofDigitChars_append, Nat.ofDigitChars_replicate_zero, Nat.mul_zero]
  exact Nat.ofDigitChars_ten_toDigits

variable {width n}

theorem length_padded (hwidth : 0 < width) (h : n < 10 ^ width) :
    (padded width n).toList.length = width := by
  have hlist : (toString n).toList = Nat.toDigits 10 n := Nat.toList_repr
  have hle := (Nat.length_toDigits_le_iff (by decide : 1 < 10) hwidth).2 h
  rw [toList_padded, List.length_append, List.length_replicate, ← String.length_toList, hlist]
  omega

theorem take?_padded {r : List Char} (hr : ∀ c ∈ r.head?, c.isDigit = false) :
    take? ((padded width n).toList ++ r) = some ((padded width n).toList, r) :=
  take?_append (padded_ne_nil width n) (isDigit_of_mem_padded width n) hr

end Collate.Digits
