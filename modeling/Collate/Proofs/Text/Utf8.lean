import Collate.Text.Utf8

/-!
What text and its octets say of each other. A character of one octet is an octet of the text wherever it
stands, and octets can be read as text exactly when no piece of them is ill-formed.
-/
namespace Collate.Utf8

section Encode

theorem encodeChar_of_lt {c : Char} (h : c.toNat < 0x80) : encodeChar c = [.ofNat c.toNat] := by
  simp [encodeChar, h]

/-- Longer sequences have no octet in common with the characters of one octet. -/
theorem le_of_mem_encodeChar {c : Char} (h : 0x80 ≤ c.toNat) {b : UInt8} (hb : b ∈ encodeChar c) :
    0x80 ≤ b.toNat := by
  have hmax : c.toNat < 0x110000 := by
    have := c.valid
    simp only [Char.toNat, UInt32.isValidChar, Nat.isValidChar] at this ⊢
    omega
  simp only [encodeChar, if_neg (Nat.not_lt.mpr h)] at hb
  split at hb
  · simp only [List.mem_cons, List.not_mem_nil, or_false] at hb
    rcases hb with rfl | rfl <;> simp only [UInt8.toNat_ofNat'] <;> omega
  · split at hb <;> simp only [List.mem_cons, List.not_mem_nil, or_false] at hb
    · rcases hb with rfl | rfl | rfl <;> simp only [UInt8.toNat_ofNat'] <;> omega
    · rcases hb with rfl | rfl | rfl | rfl <;> simp only [UInt8.toNat_ofNat'] <;> omega

theorem encodeChar_ne_nil (c : Char) : encodeChar c ≠ [] := by
  simp only [encodeChar]
  split
  · simp
  · split
    · simp
    · split <;> simp

theorem mem_encode_iff {a : Char} (ha : a.toNat < 0x80) {cs : List Char} :
    UInt8.ofNat a.toNat ∈ cs.flatMap encodeChar ↔ a ∈ cs := by
  rw [List.mem_flatMap]
  constructor
  · rintro ⟨c, hc, hmem⟩
    by_cases hlow : c.toNat < 0x80
    · rw [encodeChar_of_lt hlow, List.mem_singleton] at hmem
      have hcode : a.toNat = c.toNat := by
        have := congrArg UInt8.toNat hmem
        simp only [UInt8.toNat_ofNat'] at this
        omega
      rwa [Char.toNat_inj.mp hcode]
    · have hle := le_of_mem_encodeChar (Nat.le_of_not_lt hlow) hmem
      simp only [UInt8.toNat_ofNat'] at hle
      omega
  · intro hc
    exact ⟨a, hc, by simp [encodeChar_of_lt ha]⟩

/-- Octets of one-octet characters are the text of these characters and of no others. -/
theorem flatMap_encodeChar_eq_iff (as : List Char) {cs : List Char}
    (h : ∀ a ∈ as, a.toNat < 0x80) :
    cs.flatMap encodeChar = as.map (fun a => UInt8.ofNat a.toNat) ↔ cs = as := by
  constructor
  · intro heq
    induction as generalizing cs with
    | nil =>
        cases cs with
        | nil => rfl
        | cons c cs => simp [encodeChar_ne_nil] at heq
    | cons a as ih =>
        have ha : a.toNat < 0x80 := h a (by simp)
        cases cs with
        | nil => simp at heq
        | cons c cs =>
            have hlow : c.toNat < 0x80 := by
              refine Nat.lt_of_not_le fun hhigh => ?_
              obtain ⟨b, bs, hb⟩ := List.exists_cons_of_ne_nil (encodeChar_ne_nil c)
              have hle := le_of_mem_encodeChar hhigh (b := b) (by simp [hb])
              rw [List.flatMap_cons, hb, List.cons_append, List.map_cons] at heq
              rw [(List.cons.inj heq).1, UInt8.toNat_ofNat'] at hle
              omega
            rw [List.flatMap_cons, encodeChar_of_lt hlow, List.singleton_append, List.map_cons] at heq
            obtain ⟨hhead, htail⟩ := List.cons.inj heq
            have hcode : c.toNat = a.toNat := by
              have := congrArg UInt8.toNat hhead
              simp only [UInt8.toNat_ofNat'] at this
              omega
            rw [Char.toNat_inj.mp hcode, ih (fun b hb => h b (List.mem_cons_of_mem _ hb)) htail]
  · rintro rfl
    induction cs with
    | nil => rfl
    | cons c cs ih =>
        have hc : encodeChar c = [.ofNat c.toNat] := encodeChar_of_lt (h c (by simp))
        rw [List.flatMap_cons, hc, ih fun b hb => h b (List.mem_cons_of_mem _ hb)]
        rfl

theorem encode_append (s t : String) : encode (s ++ t) = encode s ++ encode t := by
  simp [encode]

theorem encode_toString (c : Char) : encode c.toString = encodeChar c := by
  simp [encode]

end Encode

section Decode

/-- Octets are well-formed exactly when they make no ill-formed piece. -/
theorem piecesFrom_scalars_iff {state : Option Pending} {held bs : Bytes}
    (h : held = [] ↔ state = none) :
    (∀ p ∈ piecesFrom state held bs, p.scalar?.isSome) ↔ isValidFrom state bs := by
  induction bs generalizing state held with
  | nil =>
      simp only [piecesFrom, isValidFrom, List.isEmpty_iff, Option.isNone_iff_eq_none, ← h]
      split <;> simp_all [Piece.scalar?]
  | cons b bs ih =>
      cases hstep : step state b with
      | scalar c =>
          simp only [piecesFrom, isValidFrom, hstep, List.forall_mem_cons]
          rw [ih (by simp)]
          simp [Piece.scalar?]
      | more next =>
          simp only [piecesFrom, isValidFrom, hstep]
          exact ih (by simp)
      | reject =>
          simp only [piecesFrom, isValidFrom, hstep]
          split <;> simp [Piece.scalar?]

theorem isSome_mapM_iff {α β : Type} {f : α → Option β} {l : List α} :
    (l.mapM f).isSome ↔ ∀ a ∈ l, (f a).isSome := by
  induction l with
  | nil => simp
  | cons a l ih =>
      rw [List.mapM_cons, List.forall_mem_cons, ← ih]
      cases f a <;> cases l.mapM f <;> simp

theorem isSome_decode?_iff {bs : Bytes} : (decode? bs).isSome ↔ isValid bs := by
  rw [decode?, Option.isSome_map, isSome_mapM_iff]
  exact piecesFrom_scalars_iff (by simp)

end Decode

end Collate.Utf8
