import Collate.Extension

/-!
Normalising an extension: which ones have a normal form, and what becomes of a normal form that is normalised
again. It stays as it is unless it begins with a dot itself.
-/
namespace Collate.Extension

variable {e extension : String}

theorem dropDot_dot {cs : List Char} (h : e.toList = '.' :: cs) : dropDot e = String.ofList cs := by
  simp [dropDot, h]

theorem dropDot_of_not (h : ¬ ['.'] <+: e.toList) : dropDot e = e := by
  unfold dropDot
  split
  · rename_i cs hcs
    exact absurd ⟨cs, hcs.symm⟩ h
  · rfl

/-- A dot that is left was the second of two. -/
theorem dots_of_dropDot (h : ['.'] <+: (dropDot e).toList) : ['.', '.'] <+: e.toList := by
  unfold dropDot at h
  split at h
  · rename_i cs hcs
    obtain ⟨rest, hrest⟩ := h
    exact ⟨rest, by simpa [hcs] using hrest⟩
  · rename_i hnone
    obtain ⟨rest, hrest⟩ := h
    exact absurd hrest.symm (hnone rest)

theorem normalize_eq_ok_iff :
    normalize e = .ok extension ↔
      extension = dropDot e ∧ extension.toList ≠ [] ∧ ∀ c ∈ extension.toList, ¬ isSeparator c := by
  simp only [normalize]
  split
  · rename_i hempty
    constructor
    · intro h
      cases h
    · rintro ⟨rfl, hne, -⟩
      exact absurd (List.isEmpty_iff.mp hempty) hne
  · rename_i hne
    split
    · rename_i hany
      constructor
      · intro h
        cases h
      · rintro ⟨rfl, -, hseparator⟩
        obtain ⟨c, hc, hc'⟩ := List.any_eq_true.mp hany
        exact absurd hc' (hseparator c hc)
    · rename_i hnone
      constructor
      · intro h
        obtain rfl := Except.ok.inj h
        exact ⟨rfl, by simpa using hne, by simpa using hnone⟩
      · rintro ⟨rfl, -⟩
        rfl

/-- Without a dot in front a normal form is its own. -/
theorem normalize_of_normalize (h : normalize e = .ok extension)
    (hdot : ¬ ['.'] <+: extension.toList) : normalize extension = .ok extension := by
  obtain ⟨-, hne, hseparator⟩ := normalize_eq_ok_iff.mp h
  exact normalize_eq_ok_iff.mpr ⟨(dropDot_of_not hdot).symm, hne, hseparator⟩

theorem normalize_dots {rest : List Char} (h : normalize e = .ok extension)
    (hdots : e.toList = '.' :: '.' :: rest) :
    extension = String.ofList ('.' :: rest) ∧
      normalize extension = if rest = [] then .error .empty else .ok (String.ofList rest) := by
  obtain ⟨rfl, -, hseparator⟩ := normalize_eq_ok_iff.mp h
  have hfirst : dropDot e = String.ofList ('.' :: rest) := dropDot_dot hdots
  refine ⟨hfirst, ?_⟩
  have hsecond : dropDot (dropDot e) = String.ofList rest := dropDot_dot (by simp [hfirst])
  by_cases hrest : rest = []
  · simp [normalize, hsecond, hrest]
  · rw [if_neg hrest, normalize_eq_ok_iff, hsecond]
    refine ⟨rfl, by simpa using hrest, fun c hc => hseparator c ?_⟩
    rw [hfirst]
    simpa using .inr (by simpa using hc)

end Collate.Extension
