import Collate.Proofs.Scan.Exact
import Collate.Proofs.Text.Pieces

/-!
Which files a search selects by their names. A name that ends with the suffix is selected only if the octets
before the suffix are text, so one octet out of place there leaves a file out of the list, with no failure.
-/
namespace Collate

namespace Selection

/-- The suffix, with text in front of it. -/
def IsTextual (s : Selection) (n : Name) : Prop :=
  ∃ stem, n = stem ++ s.suffixBytes ∧ stem ≠ [] ∧ Utf8.isValid stem

variable {s : Selection}

theorem matchesName_iff {n : Name} :
    s.matchesName n ↔ ∃ stem, n = stem ++ s.suffixBytes ∧ stem ≠ [] := by
  simp only [matchesName, Bool.and_eq_true, decide_eq_true_eq, List.isSuffixOf_iff_suffix]
  constructor
  · rintro ⟨hlen, stem, rfl⟩
    refine ⟨stem, rfl, ?_⟩
    rintro rfl
    exact Nat.lt_irrefl _ hlen
  · rintro ⟨stem, rfl, hne⟩
    have hpos : 0 < stem.length := List.length_pos_iff.mpr hne
    exact ⟨by rw [List.length_append]; omega, stem, rfl⟩

theorem isTextual_iff {n : Name} : s.IsTextual n ↔ Utf8.isValid n ∧ s.matchesName n := by
  rw [matchesName_iff]
  constructor
  · rintro ⟨stem, rfl, hne, hvalid⟩
    exact ⟨(Utf8.isValid_append_encode stem s.suffix).trans hvalid, stem, rfl, hne⟩
  · rintro ⟨hvalid, stem, rfl, hne⟩
    exact ⟨stem, rfl, hne, (Utf8.isValid_append_encode stem s.suffix).symm.trans hvalid⟩

theorem isMatch_iff_isTextual {p : Path} {n : Name} (hlast : p.components.getLast? = some (.normal n))
    (hfree : s.isExcluded p = false) : s.isMatch p ↔ s.IsTextual n := by
  have hname : p.fileName? = some n := by rw [Path.fileName?, hlast]
  rw [isTextual_iff, ← Bool.and_eq_true]
  simp only [isMatch, hfree, hname, Bool.not_false, Bool.true_and]

end Selection

namespace Scan

theorem Meets.getLast?_components {fs : FileSystem} {s : Scan} {root : Path} {front : List Name}
    {n : Name} {x : Node} (h : s.Meets fs root (front ++ [n]) x) (hroot : root ≠ []) :
    (root.below (front ++ [n])).components.getLast? = some (.normal n) := by
  rw [Path.components_below hroot h.finds.proper]
  simp

/-- Of the files that the search comes to, the list has those whose name is text with the suffix. -/
theorem mem_files_iff_isTextual {fs : WellFormedFileSystem} {s : Scan} {root : Path}
    {files : List Source} (h : s.files fs root = .ok files) {front : List Name} {n : Name}
    {data : Bytes} {room : Option Nat} (hmeets : s.Meets fs root (front ++ [n]) (.file data room))
    (hfree : s.selection.isExcluded (root.below (front ++ [n])) = false) :
    ⟨root.below (front ++ [n]), Path.joinNames (front ++ [n]), data.length⟩ ∈ files ↔
      s.selection.IsTextual n := by
  obtain ⟨top, es, hroot⟩ := stat_of_files h
  have hnil : root ≠ [] := FileSystem.ne_nil_of_resolve (FileSystem.stat_eq_ok_iff.mp hroot).1
  have hmatch := Selection.isMatch_iff_isTextual (hmeets.getLast?_components hnil) hfree
  rw [← hmatch, mem_files_iff h]
  constructor
  · rintro ⟨names, contents, hlisted, hsource⟩
    obtain ⟨hpath, -, -⟩ := Source.mk.inj hsource
    exact hpath ▸ hlisted.isMatch
  · intro hselected
    -- A selected file with a path too long for the system would have stopped the search.
    have hlen : (root.below (front ++ [n])).length < FileSystem.pathLimit := by
      refine Nat.lt_of_not_le fun hlong => ?_
      exact (files_isOk_iff_stops hroot).mp ⟨files, h⟩ ⟨_, _, .file hmeets hselected hlong⟩
    obtain ⟨loc, hstat⟩ := hmeets.stat (by simp) hlen
    exact ⟨_, data, ⟨⟨_, hmeets⟩, hselected, loc, room, hstat⟩, rfl⟩

/-- A path whose last component is not excluded matches exactly if that is text with the suffix after it, and a
search that succeeds lists just these of the files that it comes to. -/
theorem selects_iff_textual (s : Scan) :
    (∀ (p : Path) (n : Name), p.components.getLast? = some (.normal n) →
      s.selection.isExcluded p = false → (s.selection.isMatch p ↔ s.selection.IsTextual n)) ∧
    ∀ (fs : WellFormedFileSystem) root files, s.files fs root = .ok files →
      ∀ front n data room, s.Meets fs root (front ++ [n]) (.file data room) →
        s.selection.isExcluded (root.below (front ++ [n])) = false →
        (⟨root.below (front ++ [n]), Path.joinNames (front ++ [n]), data.length⟩ ∈ files ↔
          s.selection.IsTextual n) := by
  refine ⟨fun p n => Selection.isMatch_iff_isTextual, ?_⟩
  intro fs root files h front n data room hmeets hfree
  exact mem_files_iff_isTextual h hmeets hfree

/-- One name in Latin-1, where it begins with an octet that no text has before a dot. -/
def latin : Name :=
  0xE9 :: Utf8.encode ".rs"

/-- The same name twice, once in Latin-1. -/
def namesInTwoEncodings : WellFormedFileSystem where
  root := .dir [(latin, .file (Utf8.encode "old") none),
    (Utf8.encode "é.rs", .file (Utf8.encode "new!") none)]
  cwd := []
  wellFormed := rfl

theorem namesInTwoEncodings_meets {n : Name} {data : Bytes}
    (hget : namesInTwoEncodings.get? [n] = some (.file data none))
    (hn : Name.isProper n ∧ forRust.selection.allowsName n) :
    forRust.Meets namesInTwoEncodings Path.dot ([] ++ [n]) (.file data none) where
  lists := by
    have hroot : namesInTwoEncodings.get? [] = some namesInTwoEncodings.root := rfl
    exact ⟨[], n, [], _, rfl, rfl, (FileSystem.get?_snoc hroot n).symm.trans hget⟩
  near depth hdepth := by
    obtain rfl : 2 = depth := Option.some.inj hdepth
    exact Nat.le_succ 1
  admitted m hm := by
    obtain rfl : m = n := by simpa using hm
    exact hn
  inside front back h hfront hback := by
    have hlen := congrArg List.length h
    have := List.length_pos_iff.mpr hfront
    have := List.length_pos_iff.mpr hback
    simp only [List.nil_append, List.length_singleton, List.length_append] at hlen
    omega

theorem namesInTwoEncodings_latin :
    forRust.Meets namesInTwoEncodings Path.dot ([] ++ [latin]) (.file (Utf8.encode "old") none) :=
  namesInTwoEncodings_meets rfl (by decide +kernel)

theorem selects_iff_textual_twoEncodings :
    forRust.selection.IsTextual (Utf8.encode "é.rs") ∧
    ¬ forRust.selection.IsTextual latin ∧
    forRust.selection.isMatch (Utf8.encode "./é.rs") ∧
    ∃ files, forRust.files namesInTwoEncodings Path.dot = .ok files ∧
      ⟨Utf8.encode "./é.rs", Utf8.encode "é.rs", 4⟩ ∈ files ∧
      ⟨Path.below Path.dot [latin], latin, 3⟩ ∉ files := by
  have htext : forRust.selection.IsTextual (Utf8.encode "é.rs") :=
    ⟨Utf8.encode "é", rfl, by decide +kernel, rfl⟩
  have hlatin : ¬ forRust.selection.IsTextual latin := by
    rw [Selection.isTextual_iff]
    decide +kernel
  have hmeets : forRust.Meets namesInTwoEncodings Path.dot ([] ++ [Utf8.encode "é.rs"])
      (.file (Utf8.encode "new!") none) := namesInTwoEncodings_meets rfl (by decide +kernel)
  have hok : (forRust.files namesInTwoEncodings Path.dot).isOk := rfl
  obtain ⟨hmatch, hlists⟩ := selects_iff_textual forRust
  cases hrun : forRust.files namesInTwoEncodings Path.dot with
  | error f => simp [hrun, Except.isOk, Except.toBool] at hok
  | ok files =>
      have hlisted := hlists namesInTwoEncodings Path.dot files hrun
      refine ⟨htext, hlatin, ?_, files, rfl, ?_, ?_⟩
      · exact (hmatch _ (Utf8.encode "é.rs") rfl rfl).mpr htext
      · exact (hlisted _ _ _ _ hmeets rfl).mpr htext
      · exact fun h => hlatin ((hlisted _ _ _ _ namesInTwoEncodings_latin rfl).mp h)

/-- A name that ends with the suffix and is longer may be passed over, and its file with it. -/
theorem latin_left_out :
    (¬ ∀ (s : Selection) (p : Path) (n : Name), p.components.getLast? = some (.normal n) →
      s.isExcluded p = false →
      (s.isMatch p ↔ s.suffixBytes <:+ n ∧ s.suffixBytes.length < n.length)) ∧
    ¬ ∀ (fs : WellFormedFileSystem) (s : Scan) (root : Path) (files : List Source),
      s.files fs root = .ok files → ∀ front n data room,
        s.Meets fs root (front ++ [n]) (.file data room) →
        s.selection.isExcluded (root.below (front ++ [n])) = false →
        s.selection.suffixBytes <:+ n → s.selection.suffixBytes.length < n.length →
        ⟨root.below (front ++ [n]), Path.joinNames (front ++ [n]), data.length⟩ ∈ files := by
  have hsuffix : forRust.selection.suffixBytes <:+ latin ∧
      forRust.selection.suffixBytes.length < latin.length := by decide +kernel
  constructor
  · intro h
    have hmatch :=
      (h forRust.selection (Path.below Path.dot [latin]) latin rfl rfl).mpr hsuffix
    revert hmatch
    decide +kernel
  · intro h
    have hlist : forRust.files namesInTwoEncodings Path.dot =
        .ok [⟨Utf8.encode "./é.rs", Utf8.encode "é.rs", 4⟩] := rfl
    have hmem := h namesInTwoEncodings forRust Path.dot _ hlist [] latin _ none
      namesInTwoEncodings_latin rfl hsuffix.1 hsuffix.2
    revert hmem
    decide +kernel

end Scan

end Collate
