import Collate.Proofs.Json.Scanner

/-!
A reader of JSON texts, and that it reads a value exactly from the texts of the grammar that stand for it. So no
text stands for two values. The reader runs on fuel that the length of the text bounds.
-/
namespace Collate.Json

mutual

/-- The value that a text begins with, and the text behind it. -/
def value? : Nat → List Char → Option (Datum × List Char)
  | 0, _ => none
  | fuel + 1, t =>
    match t with
    | 'n' :: 'u' :: 'l' :: 'l' :: r => some (.null, r)
    | 't' :: 'r' :: 'u' :: 'e' :: r => some (.bool true, r)
    | 'f' :: 'a' :: 'l' :: 's' :: 'e' :: r => some (.bool false, r)
    | '"' :: t => do
      let (s, r) ← letters? t.length t
      some (.string (String.ofList s), r)
    | '[' :: t =>
      match afterBlanks t with
      | ']' :: r => some (.array [], r)
      | _ => do
        let (ds, r) ← items? fuel t
        some (.array ds, r)
    | '\x7b' :: t =>
      match afterBlanks t with
      | '\x7d' :: r => some (.object [], r)
      | _ => do
        let (ms, r) ← members? fuel t
        some (.object ms, r)
    | t => do
      let (n, r) ← numeral? t
      some (.number n.value, r)

def items? : Nat → List Char → Option (List Datum × List Char)
  | 0, _ => none
  | fuel + 1, t => do
    let (d, u) ← value? fuel (afterBlanks t)
    match afterBlanks u with
    | ']' :: r => some ([d], r)
    | ',' :: w => do
      let (ds, r) ← items? fuel w
      some (d :: ds, r)
    | _ => none

def members? : Nat → List Char → Option (List (String × Datum) × List Char)
  | 0, _ => none
  | fuel + 1, t =>
    match afterBlanks t with
    | '"' :: u => do
      let (k, w) ← letters? u.length u
      match afterBlanks w with
      | ':' :: x => do
        let (d, y) ← value? fuel (afterBlanks x)
        match afterBlanks y with
        | '\x7d' :: r => some ([(String.ofList k, d)], r)
        | ',' :: z => do
          let (ms, r) ← members? fuel z
          some ((String.ofList k, d) :: ms, r)
        | _ => none
      | _ => none
    | _ => none

end

/-- The value that is the whole text, but for blanks around it. -/
def read? (text : String) : Option Datum :=
  match value? (2 * text.toList.length) (afterBlanks text.toList) with
  | some (d, r) => if afterBlanks r = [] then some d else none
  | none => none

/-- What is read with this much fuel stands in the text. -/
structure Sound (fuel : Nat) : Prop where
  value : ∀ {t r d}, value? fuel t = some (d, r) → Stands (.value d) t r
  items : ∀ {t r ds}, items? fuel t = some (ds, r) → Stands (.items ds) t r
  members : ∀ {t r ms}, members? fuel t = some (ms, r) → Stands (.members ms) t r

namespace Sound

variable {fuel : Nat} {t r : List Char}

theorem value_succ (sound : Sound fuel) {d : Datum} (h : value? (fuel + 1) t = some (d, r)) :
    Stands (.value d) t r := by
  unfold value? at h
  split at h
  · cases h
    exact .null r
  · cases h
    exact .yes r
  · cases h
    exact .no r
  · simp only [Option.bind_eq_bind, Option.bind_eq_some_iff, Prod.exists] at h
    obtain ⟨s, w, hletters, h⟩ := h
    cases h
    exact .string (letters_of_letters? hletters)
  · rename_i t
    split at h
    · rename_i hclose
      cases h
      exact .emptyArray (hclose ▸ skips_afterBlanks t)
    · simp only [Option.bind_eq_bind, Option.bind_eq_some_iff, Prod.exists] at h
      obtain ⟨ds, w, hds, h⟩ := h
      cases h
      exact .array (sound.items hds)
  · rename_i t
    split at h
    · rename_i hclose
      cases h
      exact .emptyObject (hclose ▸ skips_afterBlanks t)
    · simp only [Option.bind_eq_bind, Option.bind_eq_some_iff, Prod.exists] at h
      obtain ⟨ms, w, hms, h⟩ := h
      cases h
      exact .object (sound.members hms)
  · simp only [Option.bind_eq_bind, Option.bind_eq_some_iff, Prod.exists] at h
    obtain ⟨n, w, hn, h⟩ := h
    cases h
    obtain ⟨rfl, hproper⟩ := numeral?_sound hn
    exact .number r hproper

theorem items_succ (sound : Sound fuel) {ds : List Datum}
    (h : items? (fuel + 1) t = some (ds, r)) : Stands (.items ds) t r := by
  simp only [items?, Option.bind_eq_bind, Option.bind_eq_some_iff, Prod.exists] at h
  obtain ⟨d, u, hd, h⟩ := h
  split at h
  · rename_i hclose
    cases h
    exact .lastItem (skips_afterBlanks t) (sound.value hd) (hclose ▸ skips_afterBlanks u)
  · rename_i hcomma
    simp only [Option.bind_eq_some_iff, Prod.exists] at h
    obtain ⟨ds, w, hds, h⟩ := h
    cases h
    exact .moreItems (skips_afterBlanks t) (sound.value hd) (hcomma ▸ skips_afterBlanks u)
      (sound.items hds)
  · cases h

theorem members_succ (sound : Sound fuel) {ms : List (String × Datum)}
    (h : members? (fuel + 1) t = some (ms, r)) : Stands (.members ms) t r := by
  unfold members? at h
  split at h
  · rename_i hquote
    simp only [Option.bind_eq_bind, Option.bind_eq_some_iff, Prod.exists] at h
    obtain ⟨k, w, hletters, h⟩ := h
    have hkey := letters_of_letters? hletters
    split at h
    · rename_i x hcolon
      simp only [Option.bind_eq_some_iff, Prod.exists] at h
      obtain ⟨d, y, hd, h⟩ := h
      split at h
      · rename_i hclose
        cases h
        exact .lastMember (hquote ▸ skips_afterBlanks t) hkey (hcolon ▸ skips_afterBlanks w)
          (skips_afterBlanks x) (sound.value hd) (hclose ▸ skips_afterBlanks y)
      · rename_i hcomma
        simp only [Option.bind_eq_some_iff, Prod.exists] at h
        obtain ⟨ms, z, hms, h⟩ := h
        cases h
        exact .moreMembers (hquote ▸ skips_afterBlanks t) hkey (hcolon ▸ skips_afterBlanks w)
          (skips_afterBlanks x) (sound.value hd) (hcomma ▸ skips_afterBlanks y) (sound.members hms)
      · cases h
    · cases h
  · cases h

end Sound

theorem sound (fuel : Nat) : Sound fuel := by
  induction fuel with
  | zero =>
      exact {
        value := fun h => by simp [value?] at h
        items := fun h => by simp [items?] at h
        members := fun h => by simp [members?] at h }
  | succ fuel ih => exact ⟨ih.value_succ, ih.items_succ, ih.members_succ⟩

theorem Numeral.text_cons {n : Numeral} (hn : n.IsProper) :
    ∃ c t, n.text = c :: t ∧ (c = '-' ∨ c.isDigit) := by
  obtain ⟨d, ds, hwhole⟩ := List.exists_cons_of_ne_nil hn.whole.1
  have hdigit : d.isDigit := hn.whole.2 d (by simp [hwhole])
  cases hsign : n.isNegative with
  | true =>
      obtain ⟨t, ht⟩ : ∃ t, n.text = '-' :: t := by simp [text, hsign]
      exact ⟨'-', t, ht, .inl rfl⟩
  | false =>
      obtain ⟨t, ht⟩ : ∃ t, n.text = d :: t := by simp [text, hsign, hwhole]
      exact ⟨d, t, ht, .inr hdigit⟩

theorem Stands.value_cons {d : Datum} {t r : List Char} (h : Stands (.value d) t r) :
    ∃ c u, t = c :: u ∧ isBlank c = false ∧ c ≠ ']' := by
  cases h with
  | number r hn =>
      obtain ⟨c, u, htext, hc⟩ := Numeral.text_cons hn
      refine ⟨c, u ++ r, by rw [htext, List.cons_append], ?_⟩
      obtain rfl | hdigit := hc
      · decide
      · constructor
        · simp only [isBlank, Bool.or_eq_false_iff, beq_eq_false_iff_ne]
          refine ⟨⟨⟨?_, ?_⟩, ?_⟩, ?_⟩ <;> rintro rfl <;> exact absurd hdigit (by decide)
        · rintro rfl
          exact absurd hdigit (by decide)
  | null | yes | no | string | emptyArray | array | emptyObject | object =>
      exact ⟨_, _, rfl, by decide, by decide⟩

theorem Stands.length_lt {p : Phrase} {t r : List Char} (h : Stands p t r) :
    r.length < t.length := by
  induction h with
  | null | yes | no => simp only [List.length_cons]; omega
  | number r hn =>
      obtain ⟨c, u, htext, -⟩ := Numeral.text_cons hn
      simp only [htext, List.length_append, List.length_cons]
      omega
  | string h =>
      have := h.length_lt
      simp only [List.length_cons]
      omega
  | emptyArray h | emptyObject h =>
      have := h.length_le
      simp only [List.length_cons] at this ⊢
      omega
  | array _ ih | object _ ih =>
      simp only [List.length_cons]
      omega
  | lastItem ht _ hclose ih =>
      have := ht.length_le
      have := hclose.length_le
      simp only [List.length_cons] at *
      omega
  | moreItems ht _ hcomma _ ih ih' =>
      have := ht.length_le
      have := hcomma.length_le
      simp only [List.length_cons] at *
      omega
  | lastMember ht hkey hcolon hx _ hclose ih =>
      have := ht.length_le
      have := hkey.length_lt
      have := hcolon.length_le
      have := hx.length_le
      have := hclose.length_le
      simp only [List.length_cons] at *
      omega
  | moreMembers ht hkey hcolon hx _ hcomma _ ih ih' =>
      have := ht.length_le
      have := hkey.length_lt
      have := hcolon.length_le
      have := hx.length_le
      have := hcomma.length_le
      simp only [List.length_cons] at *
      omega

/-- What a phrase is read as, with the fuel it takes. Each character may begin a list that begins with another
value, so there are two steps for each of them. -/
def IsRead (t r : List Char) : Phrase → Prop
  | .value d => ∀ fuel, 2 * t.length ≤ fuel → value? fuel t = some (d, r)
  | .items ds => ∀ fuel, 2 * t.length < fuel → items? fuel t = some (ds, r)
  | .members ms => ∀ fuel, 2 * t.length < fuel → members? fuel t = some (ms, r)

theorem Skips.afterBlanks_value {d : Datum} {t u r : List Char} (h : Skips t u)
    (hd : Stands (.value d) u r) : afterBlanks t = u := by
  obtain ⟨c, v, rfl, hc, -⟩ := hd.value_cons
  exact h.afterBlanks_cons hc

theorem Stands.items_ne {ds : List Datum} {t r u : List Char} (h : Stands (.items ds) t r) :
    afterBlanks t ≠ ']' :: u := by
  cases h with
  | lastItem ht hd | moreItems ht hd =>
      obtain ⟨c, v, rfl, -, hc⟩ := hd.value_cons
      rw [ht.afterBlanks_value hd]
      rintro heq
      cases heq
      exact hc rfl

theorem Stands.members_ne {ms : List (String × Datum)} {t r u : List Char}
    (h : Stands (.members ms) t r) : afterBlanks t ≠ '\x7d' :: u := by
  cases h with
  | lastMember ht | moreMembers ht =>
      rw [ht.afterBlanks_cons (by decide)]
      rintro heq
      cases heq

theorem exists_fuel {n fuel : Nat} (h : n < fuel) : ∃ k, fuel = k + 1 ∧ n ≤ k :=
  ⟨fuel - 1, by omega, by omega⟩

theorem isRead_number {n : Numeral} {r : List Char} (hn : n.IsProper) (hr : Ends r) :
    IsRead (n.text ++ r) r (.value (.number n.value)) := by
  intro fuel hfuel
  obtain ⟨c, u, htext, hc⟩ := Numeral.text_cons hn
  have hlength : 0 < (n.text ++ r).length := by
    rw [htext]
    exact Nat.zero_lt_succ _
  obtain ⟨fuel, rfl, -⟩ := exists_fuel (show 0 < fuel by omega)
  unfold value?
  split
  case h_7 => simp [numeral?_append hn hr]
  all_goals
    rename_i heq
    rw [htext] at heq
    obtain ⟨rfl, -⟩ := List.cons.inj heq
    exact absurd hc (by decide)

theorem Stands.isRead {p : Phrase} {t r : List Char} (h : Stands p t r) (hr : Ends r) :
    IsRead t r p := by
  induction h with
  | null r | yes r | no r =>
      intro fuel hfuel
      rw [List.length_cons] at hfuel
      obtain ⟨fuel, rfl, -⟩ := exists_fuel (show 0 < fuel by omega)
      rfl
  | number r hn => exact isRead_number hn hr
  | string h =>
      intro fuel hfuel
      rw [List.length_cons] at hfuel
      obtain ⟨fuel, rfl, -⟩ := exists_fuel (show 0 < fuel by omega)
      simp [value?, h.letters?_eq (Nat.le_refl _)]
  | emptyArray h | emptyObject h =>
      intro fuel hfuel
      rw [List.length_cons] at hfuel
      obtain ⟨fuel, rfl, -⟩ := exists_fuel (show 0 < fuel by omega)
      simp [value?, h.afterBlanks_cons (show isBlank _ = false by decide)]
  | @array ds t r h ih =>
      intro fuel hfuel
      rw [List.length_cons] at hfuel
      obtain ⟨fuel, rfl, hmore⟩ := exists_fuel (show 2 * t.length + 1 < fuel by omega)
      simp only [value?]
      split
      · rename_i hclose
        exact absurd hclose h.items_ne
      · simp [ih hr fuel hmore]
  | @object ms t r h ih =>
      intro fuel hfuel
      rw [List.length_cons] at hfuel
      obtain ⟨fuel, rfl, hmore⟩ := exists_fuel (show 2 * t.length + 1 < fuel by omega)
      simp only [value?]
      split
      · rename_i hclose
        exact absurd hclose h.members_ne
      · simp [ih hr fuel hmore]
  | lastItem ht hd hclose ih =>
      intro fuel hfuel
      obtain ⟨fuel, rfl, hmore⟩ := exists_fuel hfuel
      have hlength := ht.length_le
      have hitem := ih (hclose.ends (by simp [Ends])) fuel (by omega)
      simp [items?, ht.afterBlanks_value hd, hitem,
        hclose.afterBlanks_cons (show isBlank ']' = false by decide)]
  | moreItems ht hd hcomma _ ih ih' =>
      intro fuel hfuel
      obtain ⟨fuel, rfl, hmore⟩ := exists_fuel hfuel
      have hlength := ht.length_le
      have hvalue := hd.length_lt
      have hrest := hcomma.length_le
      rw [List.length_cons] at hrest
      have hitem := ih (hcomma.ends (by simp [Ends])) fuel (by omega)
      simp [items?, ht.afterBlanks_value hd, hitem, ih' hr fuel (by omega),
        hcomma.afterBlanks_cons (show isBlank ',' = false by decide)]
  | lastMember ht hkey hcolon hx hd hclose ih =>
      intro fuel hfuel
      obtain ⟨fuel, rfl, hmore⟩ := exists_fuel hfuel
      have hquote := ht.length_le
      have hletters := hkey.length_lt
      have hmiddle := hcolon.length_le
      have hlength := hx.length_le
      rw [List.length_cons] at hquote hmiddle
      have hmember := ih (hclose.ends (by simp [Ends])) fuel (by omega)
      simp [members?, ht.afterBlanks_cons (show isBlank '"' = false by decide),
        hkey.letters?_eq (Nat.le_refl _), hcolon.afterBlanks_cons (show isBlank ':' = false by decide),
        hx.afterBlanks_value hd, hmember, hclose.afterBlanks_cons (show isBlank '\x7d' = false by decide)]
  | moreMembers ht hkey hcolon hx hd hcomma _ ih ih' =>
      intro fuel hfuel
      obtain ⟨fuel, rfl, hmore⟩ := exists_fuel hfuel
      have hquote := ht.length_le
      have hletters := hkey.length_lt
      have hmiddle := hcolon.length_le
      have hlength := hx.length_le
      have hvalue := hd.length_lt
      have hrest := hcomma.length_le
      rw [List.length_cons] at hquote hmiddle hrest
      have hmember := ih (hcomma.ends (by simp [Ends])) fuel (by omega)
      simp [members?, ht.afterBlanks_cons (show isBlank '"' = false by decide),
        hkey.letters?_eq (Nat.le_refl _), hcolon.afterBlanks_cons (show isBlank ':' = false by decide),
        hx.afterBlanks_value hd, hmember, ih' hr fuel (by omega),
        hcomma.afterBlanks_cons (show isBlank ',' = false by decide)]

/-- Exactly the texts of the grammar are read, each as the one value it stands for. -/
theorem read?_eq_some_iff {text : String} {d : Datum} : read? text = some d ↔ Denotes text d := by
  constructor
  · intro h
    unfold read? at h
    split at h
    · rename_i r hvalue
      split at h
      · rename_i hblank
        cases h
        exact ⟨_, r, skips_afterBlanks _, (sound _).value hvalue, hblank ▸ skips_afterBlanks r⟩
      · cases h
    · cases h
  · rintro ⟨t, r, ht, hd, hr⟩
    have hends : Ends r := hr.ends (by simp [Ends])
    have hlength := ht.length_le
    have hblank : afterBlanks r = [] := hr.afterBlanks_eq
    unfold read?
    rw [ht.afterBlanks_value hd, hd.isRead hends _ (by omega)]
    simp only [hblank, if_true]

/-- The function reads JSON as the grammar has it. -/
def IsReader (parse : String → Option Datum) : Prop :=
  ∀ text d, parse text = some d ↔ Denotes text d

theorem isReader_read? : IsReader read? :=
  fun _ _ => read?_eq_some_iff

end Collate.Json
