import Collate.Proofs.Json.Reader

/-!
What a printed value stands for. Both written forms stand for the value they were printed from, strings
character by character and numbers digit by digit, and the form on one line has no control characters at all.
-/
namespace Collate.Json

mutual

/-- The value as a reader of its text knows it. -/
def datum : Json → Datum
  | bool b => .bool b
  | number n => .number n
  | string s => .string s
  | array items => .array (itemData items)
  | object members => .object (memberData members)

def itemData : List Json → List Datum
  | [] => []
  | x :: xs => x.datum :: itemData xs

def memberData : List (String × Json) → List (String × Datum)
  | [] => []
  | (k, x) :: ms => (k, x.datum) :: memberData ms

end

theorem itemData_eq_map (xs : List Json) : itemData xs = xs.map datum := by
  induction xs with
  | nil => rfl
  | cons x xs ih => rw [itemData, List.map_cons, ih]

/-! Strings -/

theorem Letter.append {t r : List Char} {c : Char} (h : Letter t c r) (w : List Char) :
    Letter (t ++ w) c (r ++ w) := by
  cases h with
  | plain r hc => exact .plain (r ++ w) hc
  | short r hc => exact .short (r ++ w) hc
  | code r hn hhigh hlow => exact .code (r ++ w) hn hhigh hlow
  | pair r hn hhigh hm hlow => exact .pair (r ++ w) hn hhigh hm hlow

theorem escapeChar_control :
    ∀ n : Fin 0x20, letter? (escapeChar (Char.ofNat n)).toList = some (Char.ofNat n, []) := by
  decide

theorem escapeChar_other {c : Char} (hcontrol : 0x20 ≤ c.toNat) (hquote : c ≠ '"')
    (hslash : c ≠ '\\') : escapeChar c = c.toString := by
  unfold escapeChar
  split
  case h_1 => exact absurd rfl hquote
  case h_2 => exact absurd rfl hslash
  case h_8 => rw [if_neg (by omega)]
  all_goals exact absurd hcontrol (by decide)

theorem letter_escapeChar (c : Char) (r : List Char) : Letter ((escapeChar c).toList ++ r) c r := by
  by_cases hcontrol : c.toNat < 0x20
  · have h := escapeChar_control ⟨c.toNat, hcontrol⟩
    simp only [Char.ofNat_toNat] at h
    simpa using (letter?_eq_some_iff.1 h).append r
  · by_cases hquote : c = '"'
    · subst hquote
      exact .short r rfl
    · by_cases hslash : c = '\\'
      · subst hslash
        exact .short r rfl
      · have hplain : isPlain c := by simp [isPlain, hquote, hslash, Nat.le_of_not_lt hcontrol]
        rw [escapeChar_other (Nat.le_of_not_lt hcontrol) hquote hslash]
        simpa using Letter.plain r hplain

theorem letters_escaped (s r : List Char) :
    Letters ((s.flatMap fun c => (escapeChar c).toList) ++ '"' :: r) s r := by
  induction s with
  | nil => exact .closed r
  | cons c s ih =>
      rw [List.flatMap_cons, List.append_assoc]
      exact .letter (letter_escapeChar c _) ih

theorem toList_quote (s : String) :
    (quote s).toList = '"' :: (s.toList.flatMap fun c => (escapeChar c).toList) ++ ['"'] := by
  simp [quote, List.flatMap_def, Function.comp_def]

theorem letters_quote (s : String) (r : List Char) :
    ∃ t, (quote s).toList ++ r = '"' :: t ∧ Letters t s.toList r := by
  refine ⟨_, ?_, letters_escaped s.toList r⟩
  simp [toList_quote]

/-! Numbers -/

theorem stands_number (n : Nat) (r : List Char) :
    Stands (.value (.number n)) ((toString n).toList ++ r) r := by
  have hlist : (toString n).toList = Nat.toDigits 10 n := Nat.toList_repr
  have hproper : Numeral.IsProper ⟨false, Nat.toDigits 10 n, [], none⟩ := {
    whole := ⟨Nat.toDigits_ne_nil, fun c hc => Nat.isDigit_of_mem_toDigits (by decide) (by decide) hc⟩
    leading := Digits.leading n
    fraction := by simp
    exponent := by simp }
  have h := Stands.number r hproper
  simpa [Numeral.text, Numeral.value, hlist] using h

/-! Values -/

theorem stands_string (s : String) (r : List Char) :
    Stands (.value (.string s)) ((quote s).toList ++ r) r := by
  obtain ⟨t, ht, hletters⟩ := letters_quote s r
  have h := Stands.string hletters
  rwa [String.ofList_toList, ← ht] at h

theorem stands_bool (b : Bool) (r : List Char) :
    Stands (.value (.bool b)) ((if b then "true" else "false").toList ++ r) r := by
  cases b with
  | true => exact .yes r
  | false => exact .no r

theorem ends_of_separator {c : Char} {r : List Char} (h : c = ',' ∨ c = ']' ∨ c = '\x7d') :
    Ends (c :: r) := by
  intro d hd
  cases hd
  obtain rfl | rfl | rfl := h <;> decide

theorem skips_indent (depth : Nat) (r : List Char) : Skips ((indent depth).toList ++ r) r := by
  have hblanks (n : Nat) : Skips (List.replicate n ' ' ++ r) r := by
    induction n with
    | zero => exact .none r
    | succ n ih => exact .blank (by decide) ih
  simpa [indent] using Skips.blank (c := '\n') (by decide) (hblanks (2 * depth))

mutual

theorem stands_compact : ∀ (j : Json) {r : List Char}, Ends r →
    Stands (.value j.datum) (j.compact.toList ++ r) r
  | .bool b, r, _ => stands_bool b r
  | .number n, r, _ => stands_number n r
  | .string s, r, _ => stands_string s r
  | .array [], _, _ => .emptyArray (.none _)
  | .array (x :: xs), r, _ => by
      have h := stands_compactItems (x :: xs) (by simp) r
      simpa [compact, datum] using Stands.array h
  | .object [], _, _ => .emptyObject (.none _)
  | .object (m :: ms), r, _ => by
      have h := stands_compactMembers (m :: ms) (by simp) r
      simpa [compact, datum] using Stands.object h

theorem stands_compactItems : ∀ (xs : List Json), xs ≠ [] → ∀ r : List Char,
    Stands (.items (itemData xs)) ((compactItems xs).toList ++ ']' :: r) r
  | [], hne, _ => absurd rfl hne
  | [x], _, r => .lastItem (.none _) (stands_compact x (ends_of_separator (by simp))) (.none _)
  | x :: y :: ys, _, r => by
      have hx := stands_compact x (ends_of_separator (r := (compactItems (y :: ys)).toList ++ ']' :: r)
        (c := ',') (by simp))
      have h := Stands.moreItems (.none _) hx (.none _) (stands_compactItems (y :: ys) (by simp) r)
      simpa [compactItems, itemData] using h

theorem stands_compactMembers : ∀ (ms : List (String × Json)), ms ≠ [] → ∀ r : List Char,
    Stands (.members (memberData ms)) ((compactMembers ms).toList ++ '\x7d' :: r) r
  | [], hne, _ => absurd rfl hne
  | [(k, x)], _, r => by
      have hx := stands_compact x (ends_of_separator (r := r) (c := '\x7d') (by simp))
      obtain ⟨t, ht, hkey⟩ := letters_quote k (':' :: (x.compact.toList ++ '\x7d' :: r))
      have h := Stands.lastMember (.none _) hkey (.none _) (.none _) hx (.none _)
      rw [← ht] at h
      simpa [compactMembers, memberData] using h
  | (k, x) :: n :: ns, _, r => by
      have hx := stands_compact x (ends_of_separator
        (r := (compactMembers (n :: ns)).toList ++ '\x7d' :: r) (c := ',') (by simp))
      obtain ⟨t, ht, hkey⟩ := letters_quote k
        (':' :: (x.compact.toList ++ ',' :: ((compactMembers (n :: ns)).toList ++ '\x7d' :: r)))
      have h := Stands.moreMembers (.none _) hkey (.none _) (.none _) hx (.none _)
        (stands_compactMembers (n :: ns) (by simp) r)
      rw [← ht] at h
      simpa [compactMembers, memberData] using h

end

mutual

theorem stands_pretty : ∀ (depth : Nat) (j : Json) {r : List Char}, Ends r →
    Stands (.value j.datum) ((j.pretty depth).toList ++ r) r
  | _, .bool b, r, _ => stands_bool b r
  | _, .number n, r, _ => stands_number n r
  | _, .string s, r, _ => stands_string s r
  | _, .array [], _, _ => by
      simpa [pretty, datum, itemData] using Stands.emptyArray (.none _)
  | depth, .array (x :: xs), r, _ => by
      have h := stands_prettyItems (depth + 1) (x :: xs) (by simp) (skips_indent depth (']' :: r))
      simpa [pretty, datum] using Stands.array h
  | _, .object [], _, _ => by
      simpa [pretty, datum, memberData] using Stands.emptyObject (.none _)
  | depth, .object (m :: ms), r, _ => by
      have h := stands_prettyMembers (depth + 1) (m :: ms) (by simp) (skips_indent depth ('\x7d' :: r))
      simpa [pretty, datum] using Stands.object h

theorem stands_prettyItems : ∀ (depth : Nat) (xs : List Json), xs ≠ [] →
    ∀ {t r : List Char}, Skips t (']' :: r) →
      Stands (.items (itemData xs)) ((prettyItems depth xs).toList ++ t) r
  | _, [], hne, _, _, _ => absurd rfl hne
  | depth, [x], _, _, r, ht => by
      have hx := stands_pretty depth x (ht.ends (ends_of_separator (by simp)))
      have h := Stands.lastItem (skips_indent depth _) hx ht
      simpa [prettyItems, itemData] using h
  | depth, x :: y :: ys, _, t, r, ht => by
      have hx := stands_pretty depth x (ends_of_separator
        (r := (prettyItems depth (y :: ys)).toList ++ t) (c := ',') (by simp))
      have h := Stands.moreItems (skips_indent depth _) hx (.none _)
        (stands_prettyItems depth (y :: ys) (by simp) ht)
      simpa [prettyItems, itemData] using h

theorem stands_prettyMembers : ∀ (depth : Nat) (ms : List (String × Json)), ms ≠ [] →
    ∀ {t r : List Char}, Skips t ('\x7d' :: r) →
      Stands (.members (memberData ms)) ((prettyMembers depth ms).toList ++ t) r
  | _, [], hne, _, _, _ => absurd rfl hne
  | depth, [(k, x)], _, t, r, ht => by
      have hx := stands_pretty depth x (ht.ends (ends_of_separator (by simp)))
      obtain ⟨u, hu, hkey⟩ := letters_quote k (':' :: ' ' :: ((x.pretty depth).toList ++ t))
      have h := Stands.lastMember (skips_indent depth _) hkey (.none _)
        (.blank (by decide) (.none _)) hx ht
      rw [← hu] at h
      simpa [prettyMembers, memberData] using h
  | depth, (k, x) :: n :: ns, _, t, r, ht => by
      have hx := stands_pretty depth x (ends_of_separator
        (r := (prettyMembers depth (n :: ns)).toList ++ t) (c := ',') (by simp))
      obtain ⟨u, hu, hkey⟩ := letters_quote k
        (':' :: ' ' :: ((x.pretty depth).toList ++ ',' :: ((prettyMembers depth (n :: ns)).toList ++ t)))
      have h := Stands.moreMembers (skips_indent depth _) hkey (.none _)
        (.blank (by decide) (.none _)) hx (.none _)
        (stands_prettyMembers depth (n :: ns) (by simp) ht)
      rw [← hu] at h
      simpa [prettyMembers, memberData] using h

end

/-- Both written forms stand for the value they were printed from; blanks may follow the indented one. -/
theorem denotes_compact (j : Json) : Denotes j.compact j.datum := by
  have h := stands_compact j (r := []) (by simp [Ends])
  rw [List.append_nil] at h
  exact ⟨_, [], .none _, h, .none []⟩

theorem denotes_pretty (depth : Nat) (j : Json) {blanks : List Char} (h : Skips blanks []) :
    Denotes (j.pretty depth ++ String.ofList blanks) j.datum := by
  refine ⟨_, blanks, .none _, ?_, h⟩
  rw [String.toList_append, String.toList_ofList]
  exact stands_pretty depth j (h.ends (by simp [Ends]))

/-! One line -/

def HasNoControls (text : String) : Prop :=
  text.toList.all fun c => 0x20 ≤ c.toNat

namespace HasNoControls

instance (text : String) : Decidable (HasNoControls text) :=
  inferInstanceAs (Decidable (_ = true))

theorem iff_forall {text : String} : HasNoControls text ↔ ∀ c ∈ text.toList, 0x20 ≤ c.toNat := by
  simp [HasNoControls]

theorem append {a b : String} (ha : HasNoControls a) (hb : HasNoControls b) :
    HasNoControls (a ++ b) := by
  rw [HasNoControls, String.toList_append, List.all_append, ha, hb]
  rfl

theorem newline {a : String} (h : HasNoControls a) : '\n' ∉ a.toList := by
  intro hc
  exact absurd (iff_forall.1 h '\n' hc) (by decide)

theorem escapeChar (c : Char) : HasNoControls (escapeChar c) := by
  by_cases hcontrol : c.toNat < 0x20
  · have h : ∀ n : Fin 0x20, HasNoControls (Json.escapeChar (Char.ofNat n)) := by decide
    simpa only [Char.ofNat_toNat] using h ⟨c.toNat, hcontrol⟩
  · by_cases hquote : c = '"'
    · subst hquote
      decide
    · by_cases hslash : c = '\\'
      · subst hslash
        decide
      · rw [escapeChar_other (Nat.le_of_not_lt hcontrol) hquote hslash]
        simpa [HasNoControls] using hcontrol

theorem quote (s : String) : HasNoControls (quote s) := by
  refine iff_forall.2 fun d hd => ?_
  simp only [toList_quote, List.cons_append, List.mem_cons, List.mem_append, List.mem_flatMap,
    List.not_mem_nil, or_false] at hd
  obtain rfl | ⟨c, -, hd⟩ | rfl := hd
  · decide
  · exact iff_forall.1 (escapeChar c) d hd
  · decide

theorem number (n : Nat) : HasNoControls (toString n) := by
  refine iff_forall.2 fun c hc => ?_
  have hlist : (toString n).toList = Nat.toDigits 10 n := Nat.toList_repr
  rw [hlist] at hc
  have hdigit := Nat.isDigit_of_mem_toDigits (by decide) (by decide) hc
  simp only [Char.isDigit, Bool.and_eq_true, decide_eq_true_eq] at hdigit
  have hzero : '0'.toNat ≤ c.toNat := UInt32.le_iff_toNat_le.1 hdigit.1
  exact Nat.le_trans (by decide) hzero

mutual

theorem compact : ∀ j : Json, HasNoControls j.compact
  | .bool true => by decide
  | .bool false => by decide
  | .number n => number n
  | .string s => quote s
  | .array items => ((by decide : HasNoControls "[").append (compactItems items)).append (by decide)
  | .object members =>
      ((by decide : HasNoControls "\x7b").append (compactMembers members)).append (by decide)

theorem compactItems : ∀ xs : List Json, HasNoControls (compactItems xs)
  | [] => by decide
  | [x] => compact x
  | x :: y :: ys => ((compact x).append (by decide)).append (compactItems (y :: ys))

theorem compactMembers : ∀ ms : List (String × Json), HasNoControls (compactMembers ms)
  | [] => by decide
  | [(k, x)] => ((quote k).append (by decide)).append (compact x)
  | (k, x) :: m :: ms =>
      ((((quote k).append (by decide)).append (compact x)).append (by decide)).append
        (compactMembers (m :: ms))

end

end HasNoControls

end Collate.Json
