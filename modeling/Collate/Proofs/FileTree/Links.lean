import Mathlib.Data.List.Induction
import Collate.Proofs.FileTree.Output

/-!
Links on the way. Below a directory a path leads to the place that its names say unless it crosses a link,
whatever links there are elsewhere.
-/
namespace Collate.FileSystem

variable {fs : FileSystem} {root : Path}

/-- The path itself names a link. -/
def IsLink (fs : FileSystem) (p : Path) : Prop :=
  ∃ loc target, fs.find .keep p = .ok (loc, .link target)

/-- On the way down from the root by these names there is a link, which may be the last entry. -/
def CrossesLink (fs : FileSystem) (root : Path) (names : List Name) : Prop :=
  ∃ front back, names = front ++ back ∧ front ≠ [] ∧ fs.IsLink (root.below front)

theorem CrossesLink.snoc {names : List Name} (h : fs.CrossesLink root names) (n : Name) :
    fs.CrossesLink root (names ++ [n]) := by
  obtain ⟨front, back, rfl, hne, hlink⟩ := h
  exact ⟨front, back ++ [n], List.append_assoc .., hne, hlink⟩

theorem crossesLink_self {names : List Name} {n : Name}
    (h : fs.IsLink ((root.below names).entry n)) : fs.CrossesLink root (names ++ [n]) :=
  ⟨names ++ [n], [], by simp, by simp, by rwa [Path.below_snoc]⟩

theorem stat_of_find {ending : Ending} (hending : ending ≠ .create) {p : Path} {loc : Location}
    {x : Node} (h : fs.find ending p = .ok (loc, x)) (hlink : ∀ target, x ≠ .link target) :
    fs.stat p = .ok (loc, x) := by
  obtain ⟨hres, hx⟩ := find_eq_ok_iff.mp h
  cases ending with
  | follow => exact h
  | create => exact absurd rfl hending
  | keep =>
      obtain ⟨hnul, hnil, hlen, hleads⟩ := resolve_eq_ok_iff.mp hres
      have hplain : ∀ target, fs.kind? loc ≠ some (.link target) := by
        intro target hkind
        exact hlink target (Option.some.inj (hx.symm.trans (kind?_eq_link.mp hkind)))
      have hfollow := hleads.follow_of_keep hplain
      exact stat_eq_ok_iff.mpr ⟨resolve_eq_ok_iff.mpr ⟨hnul, hnil, hlen, hfollow⟩, hx⟩

/-- An entry of a directory is found or made in it, or is a link. -/
theorem place_of_entry {p : Path} {dir : Location} {n : Name}
    (hp : fs.resolve .follow p = .ok (.found dir)) (hn : Name.isProper n) {ending : Ending}
    {place : Place} (h : fs.resolve ending (p.entry n) = .ok place) :
    place.location = dir ++ [n] ∨ fs.IsLink (p.entry n) := by
  obtain ⟨hne, hdot, hup, -, hnul, -⟩ := Name.isProper_iff.mp hn
  have hsplit := Name.split_of_isProper hn
  have hlen := length_lt_of_resolve h
  obtain ⟨left, -, hall⟩ := resolve_entry hp
  have hleft := hall ending n (by simpa [Path.hasNul] using hnul) ⟨n, by simp [hsplit], hne⟩ hlen
  rw [h, hsplit] at hleft
  cases hwithin : fs.resolveWithin ending left dir [n] with
  | error reason => simp [hwithin, answer] at hleft
  | ok found =>
      obtain rfl : place = found := by simpa [hwithin, answer] using hleft
      cases resolveWithin_eq_ok_iff.mp hwithin with
      | skip _ hskip _ => simp [hne, hdot] at hskip
      | up _ _ => exact absurd rfl hup
      | free _ _ _ _ | kept _ _ _ _ => exact .inl rfl
      | follow _ _ _ hkind _ =>
          exact .inr ⟨_, _, find_entry_link hp hn hlen (kind?_eq_link.mp hkind)⟩
      | enter _ _ _ _ hrest =>
          cases hrest with
          | done _ _ => exact .inl rfl

theorem location_of_entry {p : Path} {dir loc : Location} {n : Name}
    (hp : fs.resolve .follow p = .ok (.found dir)) (hn : Name.isProper n)
    (h : fs.resolve .follow (p.entry n) = .ok (.found loc)) :
    loc = dir ++ [n] ∨ fs.IsLink (p.entry n) :=
  place_of_entry hp hn h

theorem location_of_below {top : Location} (hroot : fs.resolve .follow root = .ok (.found top))
    {names : List Name} (hproper : ∀ n ∈ names, Name.isProper n)
    (hinside : ∀ front back, names = front ++ back → front ≠ [] → back ≠ [] →
      ∃ loc es, fs.stat (root.below front) = .ok (loc, .dir es))
    {loc : Location} (h : fs.resolve .follow (root.below names) = .ok (.found loc)) :
    loc = top ++ names ∨ fs.CrossesLink root names := by
  induction names using List.reverseRecOn generalizing loc with
  | nil =>
      left
      rw [List.append_nil]
      exact Place.found.inj (Except.ok.inj (h.symm.trans hroot))
  | append_singleton front n ih =>
      have hn : Name.isProper n := hproper n (by simp)
      have hfront : ∃ dir, fs.resolve .follow (root.below front) = .ok (.found dir) := by
        by_cases hne : front = []
        · exact ⟨top, hne ▸ hroot⟩
        · obtain ⟨dir, es, hstat⟩ := hinside front [n] rfl hne (by simp)
          exact ⟨dir, (stat_eq_ok_iff.mp hstat).1⟩
      obtain ⟨dir, hdir⟩ := hfront
      have hsub := ih (fun m hm => hproper m (List.mem_append_left _ hm))
        (by
          rintro a b rfl ha hb
          exact hinside a (b ++ [n]) (List.append_assoc ..) ha (by simp)) hdir
      rw [Path.below_snoc] at h
      rcases hsub with rfl | hcross
      · rcases location_of_entry hdir hn h with rfl | hlink
        · exact .inl (List.append_assoc ..)
        · exact .inr (crossesLink_self hlink)
      · exact .inr (hcross.snoc n)

/-- A plain name that leads to no directory is the very name of an entry. -/
theorem isProper_of_place {top : Location} (hroot : fs.resolve .follow root = .ok (.found top))
    {n : Name} (hplain : Path.isPlainName n) {ending : Ending} {place : Place}
    (hres : fs.resolve ending (root.entry n) = .ok place)
    (hother : ∀ loc, place = .found loc → fs.kind? loc ≠ some .directory) : Name.isProper n := by
  obtain ⟨-, m, rest, hsplit, hm, hrest⟩ := Path.split_of_isPlainName hplain
  have hnil : root ≠ [] := ne_nil_of_resolve hroot
  obtain ⟨hnul, -, hlen, hleads⟩ := resolve_eq_ok_iff.mp hres
  have hsingle : rest = [] := by
    obtain rfl | ⟨init, last, rfl⟩ := List.eq_nil_or_concat rest
    · rfl
    · obtain ⟨q, hq, -⟩ := Path.split_entry hnil
      have hlast : (root.entry n).split = (q.split ++ m :: init) ++ [last] := by simp [hq, hsplit]
      rw [hlast] at hleads
      obtain ⟨loc, hloc, hdir⟩ := hleads.ends_in_directory (hrest last (by simp))
      exact absurd hdir (hother loc hloc)
  subst hsingle
  obtain rfl : n = m := Path.eq_of_split hsplit
  obtain ⟨hne, hdot, hup⟩ := Path.component?_eq_normal.mp hm
  have hnul' : Path.hasNul n = false := by
    rw [Path.hasNul_entry] at hnul
    exact (Bool.or_eq_false_iff.mp hnul).2
  have hshort : n.length ≤ nameLimit := by
    obtain ⟨left, -, hall⟩ := resolve_entry hroot
    have hleft := hall ending n hnul' ⟨n, by simp [hsplit], hne⟩ hlen
    rw [hres, hsplit] at hleft
    cases hwithin : fs.resolveWithin ending left top [n] with
    | error reason => simp [hwithin, answer] at hleft
    | ok place =>
        cases resolveWithin_eq_ok_iff.mp hwithin with
        | skip _ hskip _ => simp [hne, hdot] at hskip
        | up _ _ => exact absurd rfl hup
        | free _ hs _ _ | kept _ hs _ _ | follow _ hs _ _ _ | enter _ hs _ _ _ => exact hs.notLong
  have hzero : (0 : UInt8) ∉ n := by simpa [Path.hasNul] using hnul'
  exact Name.isProper_iff.mpr ⟨hne, hdot, hup, Path.noSlash_of_split hsplit, hzero, hshort⟩

theorem isProper_of_plain {top : Location} (hroot : fs.resolve .follow root = .ok (.found top))
    {n : Name} (hplain : Path.isPlainName n) {loc : Location} {data : Bytes} {room : Option Nat}
    (h : fs.stat (root.entry n) = .ok (loc, .file data room)) : Name.isProper n := by
  obtain ⟨hres, hfile⟩ := stat_eq_ok_iff.mp h
  refine isProper_of_place hroot hplain hres ?_
  intro l hl hdir
  obtain rfl := Place.found.inj hl
  cases hdir.symm.trans (kind?_of_file hfile)

theorem isProper_of_create {top : Location} (hroot : fs.resolve .follow root = .ok (.found top))
    {n : Name} (hplain : Path.isPlainName n) {now : FileSystem} {o : Output}
    (h : fs.create (root.entry n) = .ok (now, o)) : Name.isProper n := by
  simp only [create] at h
  split at h
  · cases h
  · rename_i loc hres
    refine isProper_of_place hroot hplain hres ?_
    intro l hl hdir
    obtain rfl := Place.found.inj hl
    obtain ⟨es, hes⟩ := kind?_eq_directory.mp hdir
    simp [truncate, hes] at h
  · rename_i hres
    exact isProper_of_place hroot hplain hres (by simp)

/-- A file is opened for output in the directory that the path names, or a link is there. -/
theorem location_of_create {top loc : Location} {n : Name}
    (hroot : fs.resolve .follow root = .ok (.found top)) (hn : Name.isProper n) {now : FileSystem}
    (h : fs.create (root.entry n) = .ok (now, .file loc)) :
    loc = top ++ [n] ∨ fs.IsLink (root.entry n) := by
  obtain ⟨_, _, hnames, ho, -⟩ | ⟨-, ho, -⟩ := create_cases h
  · obtain rfl := Output.file.inj ho
    obtain ⟨place, hres, rfl⟩ := hnames.resolve
    exact place_of_entry hroot hn hres
  · simp at ho

end Collate.FileSystem
