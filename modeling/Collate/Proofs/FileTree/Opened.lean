import Collate.Proofs.FileTree.Links

/-!
Whether an output can be opened at a path. A path with more after its last name asks for a directory, so
nothing is opened there; under a name of its own, anything but a directory is.
-/
namespace Collate.FileSystem

variable {fs : FileSystem} {p : Path}

theorem create_of_hasNul (h : p.hasNul) : fs.create p = .error .nulInPath := by
  simp [create, resolve, h]

theorem create_of_skipped {front : List Name} {last : Name} (hsplit : p.split = front ++ [last])
    (hlast : last = [] ∨ last = Path.dot) : ∃ fault, fs.create p = .error fault := by
  cases hres : fs.resolve .create p with
  | error fault => exact ⟨fault, by simp [create, hres]⟩
  | ok place =>
      obtain ⟨-, -, -, hleads⟩ := resolve_eq_ok_iff.mp hres
      rw [hsplit] at hleads
      obtain ⟨loc, rfl, hdir⟩ := hleads.ends_in_directory hlast
      obtain ⟨es, hes⟩ := kind?_eq_directory.mp hdir
      simp [create, hres, truncate, hes]

/-- A name without slashes that is no move and has no octet 0 is opened in a directory, unless it or its path
is too long or a directory has it. -/
theorem create_entry_isOk_iff {top : Location} {es : Entries} {n : Name}
    (hp : fs.stat p = .ok (top, .dir es)) (hplain : Path.isPlainName n) (hslash : Path.slash ∉ n)
    (hnul : Path.hasNul n = false) (hlink : ∀ target, Entries.get? es n ≠ some (.link target)) :
    (∃ now o, fs.create (p.entry n) = .ok (now, o)) ↔
      n.length ≤ nameLimit ∧ (p.entry n).length < pathLimit ∧
        ∀ inner, Entries.get? es n ≠ some (.dir inner) := by
  obtain ⟨hroot, hes⟩ := stat_eq_ok_iff.mp hp
  have hhere (y : Node) : fs.get? (top ++ [n]) = some y ↔ Entries.get? es n = some y := by
    rw [get?_snoc hes]
  constructor
  · rintro ⟨now, o, hcreate⟩
    have hn := isProper_of_create hroot hplain hcreate
    have hlen : (p.entry n).length < pathLimit := by
      cases hres : fs.resolve .create (p.entry n) with
      | error fault => simp [create, hres] at hcreate
      | ok place => exact length_lt_of_resolve hres
    refine ⟨(Name.isProper_iff.mp hn).2.2.2.2.2, hlen, fun inner hinner => ?_⟩
    have hdir := (hhere _).mpr hinner
    have hres := resolve_entry_found hroot hn hlen hdir (by simp) .create
    simp [create, hres, truncate, hdir] at hcreate
  · rintro ⟨hshort, hlen, hnone⟩
    have hn : Name.isProper n := by
      obtain ⟨-, m, rest, hsplit, hm, -⟩ := Path.split_of_isPlainName hplain
      obtain ⟨rfl, -⟩ := List.cons.inj ((Path.split_of_noSlash hslash).symm.trans hsplit)
      obtain ⟨hne, hdot, hup⟩ := Path.component?_eq_normal.mp hm
      have hzero : (0 : UInt8) ∉ n := by simpa [Path.hasNul] using hnul
      exact Name.isProper_iff.mpr ⟨hne, hdot, hup, hslash, hzero, hshort⟩
    cases hget : Entries.get? es n with
    | none =>
        have hfree : fs.kind? (top ++ [n]) = none := by
          rw [kind?_eq_none, get?_snoc hes, hget]
        have hres := resolve_entry_vacant hroot (kind?_eq_directory.mpr ⟨es, hes⟩) hn hlen hfree
        obtain ⟨room, hopened⟩ := (NamesFile.absent hres).create
        exact ⟨_, _, hopened⟩
    | some x =>
        have hx := (hhere x).mpr hget
        have hplainNode : ∀ target, x ≠ .link target := fun target e => hlink target (e ▸ hget)
        have hres := resolve_entry_found hroot hn hlen hx hplainNode .create
        cases x with
        | dir inner => exact absurd hget (hnone inner)
        | link target => exact absurd rfl (hplainNode target)
        | file _ _ | pipe => simp [create, hres, truncate, hx]
        | device d => cases d <;> simp [create, hres, truncate, hx]

end Collate.FileSystem
