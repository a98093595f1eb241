import Collate.Proofs.Json.Grammar
import Collate.Proofs.Text.Digits

/-!
The parts of a JSON text that hold no other value: blanks, strings and numbers. Each is read as far as it goes,
and read just where the grammar has it. Only a number has no end of its own, so what stands behind a number has
to be known to be no part of it.
-/
namespace Collate.Json

/-! Blanks -/

def afterBlanks (t : List Char) : List Char :=
  t.dropWhile isBlank

theorem skips_afterBlanks (t : List Char) : Skips t (afterBlanks t) := by
  unfold afterBlanks
  induction t with
  | nil => exact .none []
  | cons c t ih =>
      cases h : isBlank c with
      | true => simpa only [List.dropWhile_cons, h, if_true] using .blank h ih
      | false => simpa only [List.dropWhile_cons, h, Bool.false_eq_true, if_false] using .none (c :: t)

theorem Skips.afterBlanks_eq {t r : List Char} (h : Skips t r) : afterBlanks t = afterBlanks r := by
  unfold afterBlanks
  induction h with
  | none r => rfl
  | blank hc _ ih => rw [List.dropWhile_cons, if_pos hc, ih]

theorem Skips.afterBlanks_cons {t r : List Char} {c : Char} (h : Skips t (c :: r))
    (hc : isBlank c = false) : afterBlanks t = c :: r := by
  rw [h.afterBlanks_eq, afterBlanks, List.dropWhile_cons, hc]
  rfl

theorem Skips.length_le {t r : List Char} (h : Skips t r) : r.length ≤ t.length := by
  induction h with
  | none r => exact Nat.le_refl _
  | blank _ _ ih => exact Nat.le_succ_of_le ih

/-! Strings -/

/-- The character that a code stands for. The first half of a pair needs the second one behind it. -/
def coded? (n : Nat) (r : List Char) : Option (Char × List Char) :=
  if isHigh n then
    match r with
    | '\\' :: 'u' :: a :: b :: c :: d :: r => do
      let m ← hex? a b c d
      if isLow m then some (paired n m, r) else none
    | _ => none
  else if isLow n then none
  else some (Char.ofNat n, r)

/-- The character that stands behind a backslash. -/
def escaped? : List Char → Option (Char × List Char)
  | 'u' :: a :: b :: c :: d :: r => do
    let n ← hex? a b c d
    coded? n r
  | e :: r => (escapes.lookup e).map (·, r)
  | [] => none

def letter? : List Char → Option (Char × List Char)
  | '\\' :: t => escaped? t
  | c :: r => if isPlain c then some (c, r) else none
  | [] => none

def letters? : Nat → List Char → Option (List Char × List Char)
  | 0, _ => none
  | fuel + 1, t =>
    match t with
    | '"' :: r => some ([], r)
    | t => do
      let (c, u) ← letter? t
      let (s, r) ← letters? fuel u
      some (c :: s, r)

theorem letter_coded {a b c d e : Char} {n : Nat} {u r : List Char} (hn : hex? a b c d = some n)
    (h : coded? n u = some (e, r)) : Letter ('\\' :: 'u' :: a :: b :: c :: d :: u) e r := by
  unfold coded? at h
  split at h
  · rename_i hhigh
    split at h
    · simp only [Option.bind_eq_bind, Option.bind_eq_some_iff] at h
      obtain ⟨m, hm, h⟩ := h
      split at h
      · rename_i hlow
        simp only [Option.some.injEq, Prod.mk.injEq] at h
        obtain ⟨rfl, rfl⟩ := h
        exact .pair _ hn hhigh hm hlow
      · cases h
    · cases h
  · rename_i hhigh
    split at h
    · cases h
    · rename_i hlow
      simp only [Option.some.injEq, Prod.mk.injEq] at h
      obtain ⟨rfl, rfl⟩ := h
      exact .code _ hn (by simpa using hhigh) (by simpa using hlow)

theorem letter_escaped {t r : List Char} {c : Char} (h : escaped? t = some (c, r)) :
    Letter ('\\' :: t) c r := by
  unfold escaped? at h
  split at h
  · simp only [Option.bind_eq_bind, Option.bind_eq_some_iff] at h
    obtain ⟨n, hn, h⟩ := h
    exact letter_coded hn h
  · simp only [Option.map_eq_some_iff, Prod.mk.injEq] at h
    obtain ⟨c, hc, rfl, rfl⟩ := h
    exact .short _ hc
  · cases h

theorem letter?_eq_some_iff {t r : List Char} {c : Char} :
    letter? t = some (c, r) ↔ Letter t c r := by
  constructor
  · intro h
    unfold letter? at h
    split at h
    · exact letter_escaped h
    · split at h
      · rename_i hplain
        cases h
        exact .plain _ hplain
      · cases h
    · cases h
  · intro h
    cases h with
    | plain r hc =>
        unfold letter?
        split
        · rename_i heq
          cases heq
          exact absurd hc (by decide)
        · rename_i heq
          cases heq
          rw [if_pos hc]
        · rename_i heq
          cases heq
    | @short e c r he =>
        change escaped? (e :: r) = _
        unfold escaped?
        split
        · rename_i heq
          cases heq
          have hnone : escapes.lookup 'u' = none := rfl
          cases hnone.symm.trans he
        · rename_i heq
          cases heq
          rw [he]
          rfl
        · rename_i heq
          cases heq
    | code r hn hhigh hlow => simp [letter?, escaped?, coded?, hn, hhigh, hlow]
    | pair r hn hhigh hm hlow => simp [letter?, escaped?, coded?, hn, hhigh, hm, hlow]

theorem Letter.length_lt {t r : List Char} {c : Char} (h : Letter t c r) : r.length < t.length := by
  cases h <;> simp only [List.length_cons] <;> omega

theorem Letter.ne_quote {t r : List Char} {c : Char} (h : Letter t c r) : t.head? ≠ some '"' := by
  cases h with
  | plain r hc =>
      intro heq
      cases heq
      exact absurd hc (by decide)
  | short | code | pair => simp

theorem Letters.length_lt {t s r : List Char} (h : Letters t s r) : r.length < t.length := by
  induction h with
  | closed r => simp
  | letter hletter _ ih => exact Nat.lt_trans ih hletter.length_lt

theorem letters_of_letters? {fuel : Nat} {t s r : List Char} (h : letters? fuel t = some (s, r)) :
    Letters t s r := by
  induction fuel generalizing t s with
  | zero => cases h
  | succ fuel ih =>
      unfold letters? at h
      split at h
      · cases h
        exact .closed _
      · simp only [Option.bind_eq_bind, Option.bind_eq_some_iff, Prod.exists] at h
        obtain ⟨c, u, hletter, s, w, hletters, h⟩ := h
        cases h
        exact .letter (letter?_eq_some_iff.1 hletter) (ih hletters)

theorem Letters.letters?_eq {t s r : List Char} (h : Letters t s r) {fuel : Nat}
    (hfuel : t.length ≤ fuel) : letters? fuel t = some (s, r) := by
  induction h generalizing fuel with
  | closed r =>
      obtain ⟨fuel, rfl⟩ : ∃ n, fuel = n + 1 := ⟨fuel - 1, by simp at hfuel; omega⟩
      rfl
  | @letter t u s r c hletter _ ih =>
      have hlt := hletter.length_lt
      obtain ⟨fuel, rfl⟩ : ∃ n, fuel = n + 1 := ⟨fuel - 1, by omega⟩
      unfold letters?
      split
      · exact absurd rfl hletter.ne_quote
      · simp [letter?_eq_some_iff.2 hletter, ih (show u.length ≤ fuel by omega)]

/-! Numbers -/

/-- What may stand right behind a number: no character that could belong to it. -/
def Ends (r : List Char) : Prop :=
  ∀ c ∈ r.head?, c.isDigit = false ∧ c ≠ '.' ∧ c ≠ 'e' ∧ c ≠ 'E'

theorem Skips.ends {t r : List Char} (h : Skips t r) (hr : Ends r) : Ends t := by
  cases h with
  | none => exact hr
  | @blank c t r hc _ =>
      intro d hd
      cases hd
      simp only [isBlank, Bool.or_eq_true, beq_iff_eq] at hc
      obtain ((rfl | rfl) | rfl) | rfl := hc <;> decide

def exponent? : List Char → Option (Option Exponent × List Char)
  | [] => some (none, [])
  | c :: t =>
    if c = 'e' ∨ c = 'E' then do
      let (digits, r) ← Digits.take? (Digits.sign t).2
      some (some ⟨c, (Digits.sign t).1, digits⟩, r)
    else some (none, c :: t)

def numberSign : List Char → Bool × List Char
  | '-' :: t => (true, t)
  | t => (false, t)

def numeral? (t : List Char) : Option (Numeral × List Char) := do
  let (whole, u) ← Digits.take? (numberSign t).2
  if whole.head? = some '0' ∧ whole ≠ ['0'] then none
  else
    let (fraction, v) ← Digits.fraction? u
    let (exponent, r) ← exponent? v
    some (⟨(numberSign t).1, whole, fraction, exponent⟩, r)

theorem exponent?_sound {t r : List Char} {e : Option Exponent} (h : exponent? t = some (e, r)) :
    t = (e.map Exponent.text).getD [] ++ r ∧ ∀ x ∈ e, x.IsProper := by
  unfold exponent? at h
  split at h
  · cases h
    simp
  · rename_i c t
    split at h
    · rename_i hletter
      simp only [Option.bind_eq_bind, Option.bind_eq_some_iff, Prod.exists] at h
      obtain ⟨ds, u, hdigits, h⟩ := h
      cases h
      obtain ⟨hsplit, hsign⟩ := Digits.sign_spec t
      obtain ⟨hu, hne, hds⟩ := Digits.take?_sound hdigits
      refine ⟨?_, ?_⟩
      · change c :: t = c :: ((Digits.sign t).1 ++ ds) ++ r
        rw [List.cons_append, List.append_assoc, ← hu, ← hsplit]
      · intro x hx
        cases hx
        exact ⟨hletter, hsign, hne, hds⟩
    · cases h
      simp

theorem exponent?_append {e : Option Exponent} {r : List Char} (he : ∀ x ∈ e, x.IsProper)
    (hr : Ends r) : exponent? ((e.map Exponent.text).getD [] ++ r) = some (e, r) := by
  cases e with
  | none =>
      cases r with
      | nil => rfl
      | cons c r => simp [exponent?, hr c rfl]
  | some e =>
      obtain ⟨hletter, hsign, hne, hdigits⟩ := he e rfl
      change exponent? (e.letter :: (e.sign ++ e.digits) ++ r) = _
      rw [List.cons_append, List.append_assoc]
      simp [exponent?, hletter, Digits.sign_append hsign hne hdigits,
        Digits.take?_append hne hdigits fun c hc => (hr c hc).1]

theorem numberSign_spec (t : List Char) :
    t = (if (numberSign t).1 then ['-'] else []) ++ (numberSign t).2 := by
  unfold numberSign
  split <;> simp

theorem numberSign_append {isNegative : Bool} {ds r : List Char} (hne : ds ≠ [])
    (hds : ∀ c ∈ ds, c.isDigit) :
    numberSign ((if isNegative then ['-'] else []) ++ (ds ++ r)) = (isNegative, ds ++ r) := by
  obtain ⟨d, ds, rfl⟩ := List.exists_cons_of_ne_nil hne
  cases isNegative with
  | true => rfl
  | false =>
      change numberSign (d :: (ds ++ r)) = _
      unfold numberSign
      split
      · rename_i heq
        cases heq
        exact absurd (hds '-' List.mem_cons_self) (by decide)
      · rfl

theorem numeral?_sound {t r : List Char} {n : Numeral} (h : numeral? t = some (n, r)) :
    t = n.text ++ r ∧ n.IsProper := by
  simp only [numeral?, Option.bind_eq_bind, Option.bind_eq_some_iff, Prod.exists] at h
  obtain ⟨whole, u, hwhole, h⟩ := h
  split at h
  · cases h
  · rename_i hleading
    simp only [Option.bind_eq_some_iff, Prod.exists] at h
    obtain ⟨f, v, hfraction, e, w, hexponent, h⟩ := h
    cases h
    obtain ⟨ht, hne, hds⟩ := Digits.take?_sound hwhole
    obtain ⟨hu, hf⟩ := Digits.fraction?_sound hfraction
    obtain ⟨hv, he⟩ := exponent?_sound hexponent
    refine ⟨?_, ⟨hne, hds⟩, by simpa using hleading, hf, he⟩
    have hsign := numberSign_spec t
    rw [ht, hu, hv] at hsign
    simpa [Numeral.text] using hsign

theorem numeral?_append {n : Numeral} {r : List Char} (hn : n.IsProper) (hr : Ends r) :
    numeral? (n.text ++ r) = some (n, r) := by
  obtain ⟨⟨hne, hds⟩, hleading, hf, he⟩ := hn
  have hexponent : ∀ c ∈ ((n.exponent.map Exponent.text).getD [] ++ r).head?,
      c.isDigit = false ∧ c ≠ '.' := by
    intro c hc
    cases heq : n.exponent with
    | none =>
        rw [heq] at hc
        exact ⟨(hr c hc).1, (hr c hc).2.1⟩
    | some e =>
        rw [heq] at hc
        cases hc
        obtain hletter | hletter := (he e heq).letter <;> rw [hletter] <;> decide
  have hfraction : ∀ c ∈ ((if n.fraction = [] then [] else '.' :: n.fraction) ++
      ((n.exponent.map Exponent.text).getD [] ++ r)).head?, c.isDigit = false := by
    intro c hc
    by_cases hnil : n.fraction = []
    · rw [if_pos hnil] at hc
      exact (hexponent c hc).1
    · rw [if_neg hnil] at hc
      cases hc
      decide
  simp only [numeral?, Numeral.text, List.append_assoc, numberSign_append hne hds,
    Digits.take?_append hne hds hfraction, Digits.fraction?_append hf hexponent, exponent?_append he hr,
    Option.bind_eq_bind, Option.bind_some]
  rw [if_neg (fun h => h.2 (hleading h.1))]

end Collate.Json
