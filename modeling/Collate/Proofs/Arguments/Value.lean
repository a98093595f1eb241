import Collate.Proofs.Arguments.Grammar
import Collate.Proofs.Extension

/-!
What the values on a command line stand for, said without the way they are read: paths and names as they are
written, a depth as the number that its digits write, a format by its name.
-/
namespace Collate

theorem toOption_eq_some_iff {ε α : Type} {x : Except ε α} {a : α} :
    x.toOption = some a ↔ x = .ok a := by
  cases x <;> simp [Except.toOption]

namespace Depth

theorem readDigits_eq_ok_iff {cs : List Char} {k n : Nat} (hk : k < depthLimit) :
    readDigits k cs = .ok n ↔
      (∀ c ∈ cs, c.isDigit) ∧ n = Nat.ofDigitChars 10 cs k ∧ n < depthLimit := by
  induction cs generalizing k with
  | nil =>
      constructor
      · intro h
        obtain rfl := Except.ok.inj h
        exact ⟨by simp, rfl, hk⟩
      · rintro ⟨-, rfl, -⟩
        rfl
  | cons c cs ih =>
      rw [List.forall_mem_cons, Nat.ofDigitChars_cons, readDigits]
      generalize hnext : 10 * k + (c.toNat - '0'.toNat) = next
      cases c.isDigit with
      | false => simp
      | true =>
          simp only [Bool.not_true, Bool.false_eq_true, ↓reduceIte, true_and]
          split
          · rename_i hlt
            exact ih hlt
          · rename_i hge
            refine iff_of_false (by simp) ?_
            rintro ⟨-, rfl, hlt⟩
            rw [Nat.ofDigitChars_eq_ofDigitChars_zero] at hlt
            have hpow := Nat.le_mul_of_pos_left next
              (Nat.pow_pos (n := cs.length) (by decide : 0 < 10))
            omega

/-- A depth is written in decimal digits, after a plus sign or not. -/
structure Writes (cs : List Char) (n : Nat) : Prop where
  digits : ∃ ds, (cs = ds ∨ cs = '+' :: ds) ∧ ds ≠ [] ∧ (∀ c ∈ ds, c.isDigit) ∧
    n = Nat.ofDigitChars 10 ds 0
  small : n < 0x10000000000000000

theorem read_eq_ok_iff {cs : List Char} {n : Nat} : read cs = .ok n ↔ Writes cs n := by
  have hzero : 0 < depthLimit := by decide
  constructor
  · intro h
    unfold read at h
    split at h
    · cases h
    · cases h
    · rename_i ds hne
      obtain ⟨hdigits, rfl, hsmall⟩ := (readDigits_eq_ok_iff hzero).mp h
      exact ⟨⟨ds, .inr rfl, fun hnil => hne (by rw [hnil]), hdigits, rfl⟩, hsmall⟩
    · rename_i hnil _ _
      obtain ⟨hdigits, rfl, hsmall⟩ := (readDigits_eq_ok_iff hzero).mp h
      exact ⟨⟨cs, .inl rfl, hnil, hdigits, rfl⟩, hsmall⟩
  · rintro ⟨⟨ds, hcs, hne, hdigits, hn⟩, hsmall⟩
    have hread : readDigits 0 ds = .ok n := (readDigits_eq_ok_iff hzero).mpr ⟨hdigits, hn, hsmall⟩
    obtain ⟨d, rest, rfl⟩ := List.exists_cons_of_ne_nil hne
    rcases hcs with rfl | rfl
    · have hplus : d ≠ '+' := by
        rintro rfl
        exact absurd (hdigits '+' (by simp)) (by decide)
      simpa [read, hplus] using hread
    · simpa [read] using hread

end Depth

theorem Format.ofName?_eq_some_iff {s : String} {f : Format} : ofName? s = some f ↔ s = f.name := by
  constructor
  · intro h
    have hfound := List.find?_some h
    exact (beq_iff_eq.mp hfound).symm
  · rintro rfl
    cases f <;> rfl

namespace Slot

abbrev Value : Slot → Type
  | positional => String
  | option .root | option .config => Path
  | option .outputName => String
  | option .maxDepth => Nat
  | option .outputFormat => Format

/-- What is written stands for the value. -/
def Means : (slot : Slot) → Bytes → slot.Value → Prop
  | positional, v, extension => ∃ e, v = Utf8.encode e ∧ Extension.normalize e = .ok extension
  | option .root, v, p | option .config, v, p => v ≠ [] ∧ p = v
  | option .outputName, v, name => v = Utf8.encode name
  | option .maxDepth, v, n => ∃ s, v = Utf8.encode s ∧ Depth.Writes s.toList n
  | option .outputFormat, v, .human => v = Utf8.encode "human"
  | option .outputFormat, v, .json => v = Utf8.encode "json"
  | option .outputFormat, v, .plain => v = Utf8.encode "plain"

/-- What holds where nothing is written. -/
def default? : (slot : Slot) → Option slot.Value
  | option .outputFormat => some .human
  | positional | option .root | option .outputName | option .config | option .maxDepth => none

def read? : (slot : Slot) → Bytes → Option slot.Value
  | positional, v => (Utf8.decode? v).bind fun e => (Extension.normalize e).toOption
  | option .root, v | option .config, v => if v = [] then none else some v
  | option .outputName, v => Utf8.decode? v
  | option .maxDepth, v => (Utf8.decode? v).bind fun s => (Depth.read s.toList).toOption
  | option .outputFormat, v => (Utf8.decode? v).bind Format.ofName?

theorem read?_eq_some_iff {slot : Slot} {v : Bytes} {x : slot.Value} :
    slot.read? v = some x ↔ slot.Means v x := by
  have hpath {p : Path} : (if v = [] then none else some v) = some p ↔ v ≠ [] ∧ p = v := by
    by_cases hv : v = [] <;> simp [hv, eq_comm]
  cases slot with
  | positional =>
      simp [read?, Means, Option.bind_eq_some_iff, Utf8.decode?_eq_some_iff, toOption_eq_some_iff]
  | option s =>
      cases s with
      | root | config => exact hpath
      | outputName => exact Utf8.decode?_eq_some_iff
      | maxDepth =>
          simp [read?, Means, Option.bind_eq_some_iff, Utf8.decode?_eq_some_iff, toOption_eq_some_iff,
            Depth.read_eq_ok_iff]
      | outputFormat =>
          cases x <;> simp [read?, Means, Option.bind_eq_some_iff, Utf8.decode?_eq_some_iff,
            Format.ofName?_eq_some_iff, Format.name]

theorem Means.unique {slot : Slot} {v : Bytes} {x y : slot.Value} (hx : slot.Means v x)
    (hy : slot.Means v y) : x = y :=
  Option.some.inj ((read?_eq_some_iff.mpr hx).symm.trans (read?_eq_some_iff.mpr hy))

end Slot

end Collate
