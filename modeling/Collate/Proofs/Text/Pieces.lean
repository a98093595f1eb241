import Collate.Proofs.Text.Utf8

/-!
Cutting octets into pieces loses none of them, so text is read back as it was written. And text is text
whatever stands before it: octets in front of an encoded text are ill-formed, or not, by themselves.
-/
namespace Collate.Utf8

/-- An octet that no sequence begins with. -/
def IsTrailing (b : UInt8) : Prop :=
  0x80 ≤ b.toNat ∧ b.toNat ≤ 0xBF

/-- The value of a sequence whose first octet stands for `code`. -/
def value (code : Nat) (trail : Bytes) : Nat :=
  trail.foldl (fun n b => n * 0x40 + (b.toNat - 0x80)) code

theorem value_cons (code : Nat) (b : UInt8) (trail : Bytes) :
    value code (b :: trail) = value (code * 0x40 + (b.toNat - 0x80)) trail := by
  simp only [value, List.foldl_cons]

section Character

variable {a b c d : UInt8}

theorem exists_char {n : Nat} (h : n.isValidChar) : ∃ c : Char, c.toNat = n :=
  ⟨Char.ofNatAux n h, rfl⟩

theorem encodeChar_two (ha : 0xC2 ≤ a.toNat ∧ a.toNat < 0xE0) (hb : IsTrailing b) :
    ∃ c : Char, c.toNat = value (a.toNat - 0xC0) [b] ∧ encodeChar c = [a, b] := by
  obtain ⟨hlow, hhigh⟩ := hb
  obtain ⟨c, hc⟩ := exists_char (n := value (a.toNat - 0xC0) [b])
    (by simp only [value, List.foldl, Nat.isValidChar]; omega)
  refine ⟨c, hc, ?_⟩
  simp only [value, List.foldl] at hc
  have hlong : ¬ c.toNat < 0x80 := by omega
  have hshort : c.toNat < 0x800 := by omega
  simp only [encodeChar, hlong, hshort, ↓reduceIte, List.cons.injEq, and_true, ← UInt8.toNat_inj,
    UInt8.toNat_ofNat']
  omega

theorem encodeChar_three (ha : 0xE0 ≤ a.toNat ∧ a.toNat < 0xF0) (hb : IsTrailing b)
    (hc : IsTrailing c) (hlong : a.toNat = 0xE0 → 0xA0 ≤ b.toNat)
    (hplain : a.toNat = 0xED → b.toNat ≤ 0x9F) :
    ∃ k : Char, k.toNat = value (a.toNat - 0xE0) [b, c] ∧ encodeChar k = [a, b, c] := by
  obtain ⟨hlow, hhigh⟩ := hb
  obtain ⟨hlow', hhigh'⟩ := hc
  obtain ⟨k, hk⟩ := exists_char (n := value (a.toNat - 0xE0) [b, c])
    (by simp only [value, List.foldl, Nat.isValidChar]; omega)
  refine ⟨k, hk, ?_⟩
  simp only [value, List.foldl] at hk
  have hone : ¬ k.toNat < 0x80 := by omega
  have htwo : ¬ k.toNat < 0x800 := by omega
  have hthree : k.toNat < 0x10000 := by omega
  simp only [encodeChar, hone, htwo, hthree, ↓reduceIte, List.cons.injEq, and_true,
    ← UInt8.toNat_inj, UInt8.toNat_ofNat']
  omega

theorem encodeChar_four (ha : 0xF0 ≤ a.toNat ∧ a.toNat < 0xF5) (hb : IsTrailing b)
    (hc : IsTrailing c) (hd : IsTrailing d) (hlong : a.toNat = 0xF0 → 0x90 ≤ b.toNat)
    (hmost : a.toNat = 0xF4 → b.toNat ≤ 0x8F) :
    ∃ k : Char, k.toNat = value (a.toNat - 0xF0) [b, c, d] ∧ encodeChar k = [a, b, c, d] := by
  obtain ⟨hlow, hhigh⟩ := hb
  obtain ⟨hlow', hhigh'⟩ := hc
  obtain ⟨hlow'', hhigh''⟩ := hd
  obtain ⟨k, hk⟩ := exists_char (n := value (a.toNat - 0xF0) [b, c, d])
    (by simp only [value, List.foldl, Nat.isValidChar]; omega)
  refine ⟨k, hk, ?_⟩
  simp only [value, List.foldl] at hk
  have hone : ¬ k.toNat < 0x80 := by omega
  have htwo : ¬ k.toNat < 0x800 := by omega
  have hthree : ¬ k.toNat < 0x10000 := by omega
  simp only [encodeChar, hone, htwo, hthree, ↓reduceIte, List.cons.injEq, and_true,
    ← UInt8.toNat_inj, UInt8.toNat_ofNat']
  omega

end Character

/-- Whatever completes the sequence that has begun with these octets completes a character's. -/
structure Pending.Follows (p : Pending) (held : Bytes) : Prop where
  low : 0x80 ≤ p.low.toNat
  high : p.high.toNat ≤ 0xBF
  completes : ∀ b trail, p.low.toNat ≤ b.toNat → b.toNat ≤ p.high.toNat → trail.length = p.rest →
    (∀ x ∈ trail, IsTrailing x) →
    ∃ c : Char, c.toNat = value p.code (b :: trail) ∧ encodeChar c = held ++ b :: trail

theorem lead_eq_scalar {b : UInt8} {c : Char} (h : lead b = .scalar c) :
    c = Char.ofNat b.toNat ∧ encodeChar c = [b] := by
  simp only [lead] at h
  split at h
  · rename_i hlow
    obtain rfl := Step.scalar.inj h
    obtain ⟨c, hc⟩ := exists_char (n := b.toNat) (by simp only [Nat.isValidChar]; omega)
    refine ⟨rfl, ?_⟩
    rw [← hc, Char.ofNat_toNat, encodeChar_of_lt (hc ▸ hlow), hc, UInt8.ofNat_toNat]
  · repeat' split at h
    all_goals cases h

section Begun

variable {a low high : UInt8}

theorem follows_two (ha : 0xC2 ≤ a.toNat ∧ a.toNat < 0xE0) :
    Pending.Follows ⟨a.toNat - 0xC0, 0x80, 0xBF, 0⟩ [a] where
  low := Nat.le_refl _
  high := Nat.le_refl _
  completes b trail hb hb' hlen _ := by
    obtain rfl := List.eq_nil_of_length_eq_zero hlen
    exact encodeChar_two ha ⟨hb, hb'⟩

theorem follows_three (ha : 0xE0 ≤ a.toNat ∧ a.toNat < 0xF0) (hlow : 0x80 ≤ low.toNat)
    (hhigh : high.toNat ≤ 0xBF) (hlong : a.toNat = 0xE0 → 0xA0 ≤ low.toNat)
    (hplain : a.toNat = 0xED → high.toNat ≤ 0x9F) :
    Pending.Follows ⟨a.toNat - 0xE0, low, high, 1⟩ [a] where
  low := hlow
  high := hhigh
  completes b trail hb hb' hlen htrail := by
    obtain ⟨c, rfl⟩ := List.length_eq_one_iff.mp hlen
    have hbounds : IsTrailing b := ⟨Nat.le_trans hlow hb, Nat.le_trans hb' hhigh⟩
    exact encodeChar_three ha hbounds (htrail c (by simp)) (fun h => Nat.le_trans (hlong h) hb)
      fun h => Nat.le_trans hb' (hplain h)

theorem follows_four (ha : 0xF0 ≤ a.toNat ∧ a.toNat < 0xF5) (hlow : 0x80 ≤ low.toNat)
    (hhigh : high.toNat ≤ 0xBF) (hlong : a.toNat = 0xF0 → 0x90 ≤ low.toNat)
    (hmost : a.toNat = 0xF4 → high.toNat ≤ 0x8F) :
    Pending.Follows ⟨a.toNat - 0xF0, low, high, 2⟩ [a] where
  low := hlow
  high := hhigh
  completes b trail hb hb' hlen htrail := by
    obtain ⟨c, rest, rfl⟩ := List.exists_cons_of_length_eq_add_one hlen
    obtain ⟨d, rfl⟩ := List.length_eq_one_iff.mp (Nat.succ.inj hlen)
    have hbounds : IsTrailing b := ⟨Nat.le_trans hlow hb, Nat.le_trans hb' hhigh⟩
    exact encodeChar_four ha hbounds (htrail c (by simp)) (htrail d (by simp))
      (fun h => Nat.le_trans (hlong h) hb) fun h => Nat.le_trans hb' (hmost h)

theorem follows_lead {p : Pending} (h : lead a = .more p) : p.Follows [a] := by
  simp only [lead] at h
  split at h
  · cases h
  split at h
  · cases h
  split at h
  · obtain rfl := Step.more.inj h
    exact follows_two (by omega)
  split at h
  · rename_i ha
    obtain rfl := Step.more.inj h
    exact Nat.sub_eq_zero_of_le (Nat.le_of_eq ha) ▸
      follows_three (by omega) (by decide) (by decide) (fun _ => by decide) (by omega)
  split at h
  · rename_i ha
    obtain rfl := Step.more.inj h
    have hcode : a.toNat - 0xE0 = 0xD := by omega
    exact hcode ▸ follows_three (by omega) (by decide) (by decide) (by omega) fun _ => by decide
  split at h
  · obtain rfl := Step.more.inj h
    exact follows_three (by omega) (by decide) (by decide) (by omega) (by omega)
  split at h
  · rename_i ha
    obtain rfl := Step.more.inj h
    exact Nat.sub_eq_zero_of_le (Nat.le_of_eq ha) ▸
      follows_four (by omega) (by decide) (by decide) (fun _ => by decide) (by omega)
  split at h
  · obtain rfl := Step.more.inj h
    exact follows_four (by omega) (by decide) (by decide) (by omega) (by omega)
  split at h
  · rename_i ha
    obtain rfl := Step.more.inj h
    have hcode : a.toNat - 0xF0 = 4 := by omega
    exact hcode ▸ follows_four (by omega) (by decide) (by decide) (by omega) fun _ => by decide
  · cases h

variable {p : Pending} {held : Bytes} {b : UInt8}

/-- One more octet goes on with the sequence. -/
theorem Pending.Follows.more (h : p.Follows held) {next : Pending} (hstep : p.step b = .more next) :
    next.Follows (held ++ [b]) := by
  simp only [Pending.step] at hstep
  split at hstep
  · rename_i hbounds
    obtain ⟨hlow, hhigh⟩ := hbounds
    split at hstep
    · cases hstep
    · rename_i k hrest
      obtain rfl := Step.more.inj hstep
      refine ⟨Nat.le_refl _, Nat.le_refl _, fun x trail hx hx' hlen htrail => ?_⟩
      have hx : IsTrailing x := ⟨hx, hx'⟩
      obtain ⟨c, hc, hencode⟩ := h.completes b (x :: trail) (UInt8.le_iff_toNat_le.mp hlow)
        (UInt8.le_iff_toNat_le.mp hhigh) (by simp_all) (by simpa using ⟨hx, htrail⟩)
      exact ⟨c, hc.trans (value_cons ..), by simpa using hencode⟩
  · cases hstep

theorem Pending.Follows.scalar (h : p.Follows held) {c : Char} (hstep : p.step b = .scalar c) :
    encodeChar c = held ++ [b] := by
  simp only [Pending.step] at hstep
  split at hstep
  · rename_i hbounds
    obtain ⟨hlow, hhigh⟩ := hbounds
    split at hstep
    · rename_i hrest
      obtain ⟨k, hk, hencode⟩ := h.completes b [] (UInt8.le_iff_toNat_le.mp hlow)
        (UInt8.le_iff_toNat_le.mp hhigh) (by simp [hrest]) (by simp)
      rw [value_cons] at hk
      rw [← Step.scalar.inj hstep, ← hencode, ← Char.ofNat_toNat k, hk]
      rfl
    · cases hstep
  · cases hstep

end Begun

theorem octets_piecesFrom {state : Option Pending} {held bs : Bytes}
    (hnone : state = none → held = [])
    (hsome : ∀ p, state = some p → held ≠ [] ∧ p.Follows held.reverse) :
    (piecesFrom state held bs).flatMap Piece.octets = held.reverse ++ bs := by
  induction bs generalizing state held with
  | nil =>
      simp only [piecesFrom, List.isEmpty_iff]
      split <;> simp_all [Piece.octets]
  | cons b bs ih =>
      have hfresh : (piecesFrom none [] bs).flatMap Piece.octets = bs := ih (by simp) (by simp)
      have hbegun {p : Pending} (h : lead b = .more p) :
          (piecesFrom (some p) [b] bs).flatMap Piece.octets = b :: bs :=
        ih (by simp) fun q hq => Option.some.inj hq ▸ ⟨by simp, follows_lead h⟩
      cases state with
      | none =>
          obtain rfl := hnone rfl
          cases hstep : lead b with
          | scalar c =>
              simp only [piecesFrom, step, hstep, List.flatMap_cons, hfresh]
              simp [Piece.octets, (lead_eq_scalar hstep).2]
          | more p =>
              simp only [piecesFrom, step, hstep]
              exact hbegun hstep
          | reject => simp [piecesFrom, step, hstep, hfresh, Piece.octets]
      | some p =>
          obtain ⟨hheld, hfollows⟩ := hsome p rfl
          cases hstep : p.step b with
          | scalar c =>
              simp only [piecesFrom, step, hstep, List.flatMap_cons, hfresh]
              simp [Piece.octets, hfollows.scalar hstep]
          | more q =>
              have hnext : q.Follows (b :: held).reverse := by simpa using hfollows.more hstep
              simp only [piecesFrom, step, hstep]
              rw [ih (by simp) fun r hr => Option.some.inj hr ▸ ⟨by simp, hnext⟩]
              simp
          | reject =>
              simp only [piecesFrom, step, hstep, List.isEmpty_iff, hheld, ↓reduceIte,
                List.flatMap_cons]
              cases hlead : lead b with
              | scalar c => simp [Piece.octets, (lead_eq_scalar hlead).2, hfresh]
              | more q => simp [Piece.octets, hbegun hlead]
              | reject => simp [Piece.octets, hfresh]

theorem octets_pieces (bs : Bytes) : (pieces bs).flatMap Piece.octets = bs :=
  octets_piecesFrom (by simp) (by simp)

section Lossy

/-- Well-formed octets are those of the text that is read. -/
theorem encode_lossy {bs : Bytes} (h : isValid bs) : encode (lossy bs) = bs := by
  have hscalars : ∀ p ∈ pieces bs, p.scalar?.isSome := (piecesFrom_scalars_iff (by simp)).mpr h
  have hoctets : ∀ p ∈ pieces bs, encodeChar (p.scalar?.getD '\uFFFD') = p.octets := by
    intro p hp
    cases p with
    | scalar c => rfl
    | illFormed octets => simpa [Piece.scalar?] using hscalars _ hp
  calc encode (lossy bs)
      = (pieces bs).flatMap fun p => encodeChar (p.scalar?.getD '\uFFFD') := by
        simp [encode, lossy, List.flatMap_map]
    _ = (pieces bs).flatMap Piece.octets := by
        rw [List.flatMap_def, List.map_congr_left hoctets, ← List.flatMap_def]
    _ = bs := octets_pieces bs

theorem eq_of_lossy_eq {a b : Bytes} (ha : isValid a) (hb : isValid b) (h : lossy a = lossy b) :
    a = b := by
  rw [← encode_lossy ha, ← encode_lossy hb, h]

/-- Reading adds no character of one octet. -/
theorem mem_of_mem_lossy {bs : Bytes} {c : Char} (hc : c.toNat < 0x80) (h : c ∈ (lossy bs).toList) :
    UInt8.ofNat c.toNat ∈ bs := by
  simp only [lossy, String.toList_ofList, List.mem_map] at h
  obtain ⟨p, hp, hread⟩ := h
  rw [← octets_pieces bs, List.mem_flatMap]
  refine ⟨p, hp, ?_⟩
  cases p with
  | scalar k =>
      obtain rfl : k = c := hread
      simp [Piece.octets, encodeChar_of_lt hc]
  | illFormed octets =>
      obtain rfl : '\uFFFD' = c := hread
      exact absurd hc (by decide)

end Lossy

section Append

variable {a b c : UInt8} {p : Pending} {rest : Bytes}

/-- No sequence goes on with an octet that is no trailing one. -/
theorem isValidFrom_append {state : Option Pending} {front : Bytes}
    (hstate : ∀ p, state = some p → ∃ held, p.Follows held) (hc : ¬ IsTrailing c) :
    isValidFrom state (front ++ c :: rest) =
      (isValidFrom state front && isValidFrom none (c :: rest)) := by
  induction front generalizing state with
  | nil =>
      cases state with
      | none => simp [isValidFrom]
      | some p =>
          obtain ⟨held, hlow, hhigh, -⟩ := hstate p rfl
          have hreject : p.step c = .reject := by
            have hout : ¬ (p.low ≤ c ∧ c ≤ p.high) := by
              rw [UInt8.le_iff_toNat_le, UInt8.le_iff_toNat_le]
              rintro ⟨hge, hle⟩
              exact hc ⟨Nat.le_trans hlow hge, Nat.le_trans hle hhigh⟩
            simp [Pending.step, hout]
          simp [isValidFrom, step, hreject]
  | cons b front ih =>
      cases hstep : step state b with
      | reject => simp [isValidFrom, hstep]
      | scalar k =>
          simp only [List.cons_append, isValidFrom, hstep]
          exact ih (by simp)
      | more q =>
          simp only [List.cons_append, isValidFrom, hstep]
          refine ih fun r hr => ?_
          obtain rfl := Option.some.inj hr
          cases state with
          | none => exact ⟨[b], follows_lead hstep⟩
          | some p =>
              obtain ⟨held, hheld⟩ := hstate p rfl
              exact ⟨held ++ [b], hheld.more hstep⟩

theorem isValidFrom_trail (trail : Bytes) (hlow : p.low.toNat ≤ b.toNat)
    (hhigh : b.toNat ≤ p.high.toNat) (hlen : trail.length = p.rest)
    (htrail : ∀ x ∈ trail, IsTrailing x) :
    isValidFrom (some p) (b :: (trail ++ rest)) = isValidFrom none rest := by
  have hbounds : p.low ≤ b ∧ b ≤ p.high :=
    ⟨UInt8.le_iff_toNat_le.mpr hlow, UInt8.le_iff_toNat_le.mpr hhigh⟩
  induction trail generalizing p b with
  | nil =>
      have hrest : p.rest = 0 := hlen.symm
      simp [isValidFrom, step, Pending.step, hbounds, hrest]
  | cons x trail ih =>
      have hrest : p.rest = trail.length + 1 := hlen.symm
      obtain ⟨hx, htrail⟩ := List.forall_mem_cons.mp htrail
      simp only [isValidFrom, step, Pending.step, hbounds, hrest, and_self, ↓reduceIte]
      exact ih hx.1 hx.2 rfl htrail
        ⟨UInt8.le_iff_toNat_le.mpr hx.1, UInt8.le_iff_toNat_le.mpr hx.2⟩

theorem lead_trailing (ha : IsTrailing a) : lead a = .reject := by
  obtain ⟨hlow, hhigh⟩ := ha
  have hone : ¬ a.toNat < 0x80 := by omega
  have hsome : a.toNat < 0xC2 := by omega
  simp only [lead, hone, hsome, ↓reduceIte]

theorem lead_one (ha : a.toNat < 0x80) : lead a = .scalar (Char.ofNat a.toNat) := by
  simp only [lead, ha, ↓reduceIte]

theorem lead_two (ha : 0xC2 ≤ a.toNat ∧ a.toNat < 0xE0) :
    lead a = .more ⟨a.toNat - 0xC0, 0x80, 0xBF, 0⟩ := by
  have hone : ¬ a.toNat < 0x80 := by omega
  have hsome : ¬ a.toNat < 0xC2 := by omega
  simp only [lead, hone, hsome, ha.2, ↓reduceIte]

theorem lead_three (ha : 0xE0 ≤ a.toNat ∧ a.toNat < 0xF0) (hb : IsTrailing b)
    (hlong : a.toNat = 0xE0 → 0xA0 ≤ b.toNat) (hplain : a.toNat = 0xED → b.toNat ≤ 0x9F) :
    ∃ p, lead a = .more p ∧ p.low.toNat ≤ b.toNat ∧ b.toNat ≤ p.high.toNat ∧ p.rest = 1 := by
  have hone : ¬ a.toNat < 0x80 := by omega
  have hsome : ¬ a.toNat < 0xC2 := by omega
  have htwo : ¬ a.toNat < 0xE0 := by omega
  simp only [lead, hone, hsome, htwo, ha.2, ↓reduceIte]
  split
  · rename_i h
    exact ⟨_, rfl, hlong h, hb.2, rfl⟩
  split
  · rename_i h
    exact ⟨_, rfl, hb.1, hplain h, rfl⟩
  · exact ⟨_, rfl, hb.1, hb.2, rfl⟩

theorem lead_four (ha : 0xF0 ≤ a.toNat ∧ a.toNat < 0xF5) (hb : IsTrailing b)
    (hlong : a.toNat = 0xF0 → 0x90 ≤ b.toNat) (hmost : a.toNat = 0xF4 → b.toNat ≤ 0x8F) :
    ∃ p, lead a = .more p ∧ p.low.toNat ≤ b.toNat ∧ b.toNat ≤ p.high.toNat ∧ p.rest = 2 := by
  have hone : ¬ a.toNat < 0x80 := by omega
  have hsome : ¬ a.toNat < 0xC2 := by omega
  have htwo : ¬ a.toNat < 0xE0 := by omega
  have hfirst : a.toNat ≠ 0xE0 := by omega
  have hsurrogate : a.toNat ≠ 0xED := by omega
  have hthree : ¬ a.toNat < 0xF0 := by omega
  simp only [lead, hone, hsome, htwo, hfirst, hsurrogate, hthree, ↓reduceIte]
  split
  · rename_i h
    exact ⟨_, rfl, hlong h, hb.2, rfl⟩
  split
  · exact ⟨_, rfl, hb.1, hb.2, rfl⟩
  split
  · rename_i h
    exact ⟨_, rfl, hb.1, hmost h, rfl⟩
  · omega

/-- The octets of a character are one sequence, whatever comes after them. -/
theorem isValidFrom_encodeChar (k : Char) :
    isValidFrom none (encodeChar k ++ rest) = isValidFrom none rest := by
  have hvalid : k.toNat < 0xD800 ∨ 0xDFFF < k.toNat ∧ k.toNat < 0x110000 := by
    have := k.valid
    simpa only [Char.toNat, UInt32.isValidChar, Nat.isValidChar] using this
  have htrailing {n : Nat} (h : 0x80 ≤ n ∧ n ≤ 0xBF) : IsTrailing (.ofNat n) := by
    simp only [IsTrailing, UInt8.toNat_ofNat']
    omega
  simp only [encodeChar]
  split
  · have hlead := lead_one (a := .ofNat k.toNat) (by simp only [UInt8.toNat_ofNat']; omega)
    simp [isValidFrom, step, hlead]
  split
  · have hlead := lead_two (a := .ofNat (0xC0 + k.toNat / 0x40))
      (by simp only [UInt8.toNat_ofNat']; omega)
    have hb := htrailing (n := 0x80 + k.toNat % 0x40) (by omega)
    simp only [List.cons_append, List.nil_append, isValidFrom, step, hlead]
    exact isValidFrom_trail [] hb.1 hb.2 rfl (by simp)
  split
  · have hb := htrailing (n := 0x80 + k.toNat / 0x40 % 0x40) (by omega)
    have hc := htrailing (n := 0x80 + k.toNat % 0x40) (by omega)
    obtain ⟨p, hlead, hlow, hhigh, hrest⟩ := lead_three (a := .ofNat (0xE0 + k.toNat / 0x1000))
      (by simp only [UInt8.toNat_ofNat']; omega) hb
      (by simp only [UInt8.toNat_ofNat']; omega) (by simp only [UInt8.toNat_ofNat']; omega)
    simp only [List.cons_append, List.nil_append, isValidFrom, step, hlead]
    exact isValidFrom_trail [_] hlow hhigh hrest.symm (by simpa using hc)
  · have hb := htrailing (n := 0x80 + k.toNat / 0x1000 % 0x40) (by omega)
    have hc := htrailing (n := 0x80 + k.toNat / 0x40 % 0x40) (by omega)
    have hd := htrailing (n := 0x80 + k.toNat % 0x40) (by omega)
    obtain ⟨p, hlead, hlow, hhigh, hrest⟩ := lead_four (a := .ofNat (0xF0 + k.toNat / 0x40000))
      (by simp only [UInt8.toNat_ofNat']; omega) hb
      (by simp only [UInt8.toNat_ofNat']; omega) (by simp only [UInt8.toNat_ofNat']; omega)
    simp only [List.cons_append, List.nil_append, isValidFrom, step, hlead]
    exact isValidFrom_trail [_, _] hlow hhigh hrest.symm
      (List.forall_mem_cons.mpr ⟨hc, List.forall_mem_singleton.mpr hd⟩)

theorem isValid_encode (s : String) : isValid (encode s) := by
  simp only [isValid, encode]
  induction s.toList with
  | nil => rfl
  | cons k cs ih => rw [List.flatMap_cons, isValidFrom_encodeChar, ih]

theorem isValid_append_encode (front : Bytes) (s : String) :
    isValid (front ++ encode s) = isValid front := by
  have hs : isValidFrom none (encode s) := isValid_encode s
  cases hencode : encode s with
  | nil => simp
  | cons b rest =>
      have hb : ¬ IsTrailing b := by
        intro hb
        simp [hencode, isValidFrom, step, lead_trailing hb] at hs
      rw [isValid, isValidFrom_append (by simp) hb, ← hencode, hs, Bool.and_true, isValid]

end Append

section Read

theorem encodeChar_eq_utf8EncodeChar (c : Char) : encodeChar c = String.utf8EncodeChar c := by
  have hmax : c.toNat < 0x110000 := by
    have := c.valid
    simp only [Char.toNat, UInt32.isValidChar, Nat.isValidChar] at this ⊢
    omega
  have hval : c.val.toNat = c.toNat := rfl
  simp only [encodeChar, String.utf8EncodeChar, hval]
  split
  · rw [if_pos (by omega)]
  split
  · have hlead : c.toNat / 64 % 0x20 + 0xC0 = 0xC0 + c.toNat / 64 := by omega
    rw [if_neg (by omega), if_pos (by omega), hlead, Nat.add_comm _ 0x80]
  split
  · have hlead : c.toNat / 4096 % 0x10 + 0xE0 = 0xE0 + c.toNat / 4096 := by omega
    rw [if_neg (by omega), if_neg (by omega), if_pos (by omega), hlead, Nat.add_comm _ 0x80,
      Nat.add_comm _ 0x80]
  · have hlead : c.toNat / 262144 % 0x08 + 0xF0 = 0xF0 + c.toNat / 262144 := by omega
    rw [if_neg (by omega), if_neg (by omega), if_neg (by omega), hlead, Nat.add_comm _ 0x80,
      Nat.add_comm _ 0x80, Nat.add_comm _ 0x80]

theorem encode_inj {s t : String} : encode s = encode t ↔ s = t := by
  have hbytes (s : String) : s.toByteArray = (encode s).toByteArray := by
    have hchars : encodeChar = String.utf8EncodeChar := funext encodeChar_eq_utf8EncodeChar
    rw [← String.utf8Encode_toList, List.utf8Encode, encode, hchars]
  rw [← String.toByteArray_inj, hbytes, hbytes, List.toByteArray_inj]

theorem eq_map_of_mapM_scalar? {ps : List Piece} {cs : List Char}
    (h : ps.mapM Piece.scalar? = some cs) : cs = ps.map fun p => p.scalar?.getD '\uFFFD' := by
  induction ps generalizing cs with
  | nil => simpa using h.symm
  | cons p ps ih =>
      rw [List.mapM_cons] at h
      obtain ⟨c, hc, hrest⟩ := Option.bind_eq_some_iff.mp h
      obtain ⟨ds, hds, hall⟩ := Option.bind_eq_some_iff.mp hrest
      rw [← Option.some.inj hall, ih hds, List.map_cons, hc]
      rfl

theorem eq_lossy_of_decode? {bs : Bytes} {s : String} (h : decode? bs = some s) : s = lossy bs := by
  obtain ⟨cs, hcs, rfl⟩ := Option.map_eq_some_iff.mp h
  rw [eq_map_of_mapM_scalar? hcs]
  rfl

theorem decode?_eq_some_iff {bs : Bytes} {s : String} : decode? bs = some s ↔ bs = encode s := by
  have hread {bs : Bytes} {s : String} (h : decode? bs = some s) : encode s = bs := by
    have hvalid : isValid bs := isSome_decode?_iff.mp (by rw [h]; rfl)
    rw [eq_lossy_of_decode? h, encode_lossy hvalid]
  constructor
  · intro h
    exact (hread h).symm
  · rintro rfl
    obtain ⟨t, ht⟩ := Option.isSome_iff_exists.mp (isSome_decode?_iff.mpr (isValid_encode s))
    rw [ht, encode_inj.mp (hread ht)]

theorem pieces_ne_nil {bs : Bytes} (h : bs ≠ []) : pieces bs ≠ [] := by
  intro hnil
  have hbs := octets_pieces bs
  rw [hnil] at hbs
  exact h hbs.symm

theorem pieces_encodeChar_append {c : Char} (hc : c.toNat < 0x80) (rest : Bytes) :
    pieces (encodeChar c ++ rest) = .scalar c :: pieces rest := by
  have htoNat : (UInt8.ofNat c.toNat).toNat = c.toNat := by
    rw [UInt8.toNat_ofNat']
    omega
  have hlead : lead (.ofNat c.toNat) = .scalar c := by
    rw [lead_one (by omega), htoNat, Char.ofNat_toNat]
  rw [encodeChar_of_lt hc, List.singleton_append, pieces, piecesFrom, step, hlead]
  rfl

theorem eq_of_pieces_eq_scalar {bs : Bytes} {c : Char} {ps : List Piece} (hc : c.toNat < 0x80)
    (h : pieces bs = .scalar c :: ps) :
    bs = encodeChar c ++ ps.flatMap Piece.octets ∧ ps = pieces (ps.flatMap Piece.octets) := by
  have hbs : bs = encodeChar c ++ ps.flatMap Piece.octets := by
    rw [← octets_pieces bs, h]
    rfl
  refine ⟨hbs, ?_⟩
  have hpieces := pieces_encodeChar_append hc (ps.flatMap Piece.octets)
  rw [← hbs, h] at hpieces
  exact (List.cons.inj hpieces).2

end Read

end Collate.Utf8
