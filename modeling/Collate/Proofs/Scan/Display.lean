import Collate.Proofs.Scan.Textual

/-!
How far the path that a source is displayed by tells it from the others. The name of a file is text, and no
character of a name reads as a slash; so two sources of one list are displayed alike only if directories on
the way to them have names that are no text and read alike.
-/
namespace Collate

theorem Name.slash_notMem_lossy {n : Name} (hn : Name.isProper n) : '/' ∉ (Utf8.lossy n).toList := by
  intro h
  have hslash : Path.slash ∈ n := Utf8.mem_of_mem_lossy (by decide) h
  exact (Name.isProper_iff.mp hn).2.2.2.1 hslash

namespace Path

theorem display_of_components {p : Path} {names : List Name} (h : p.components = names.map .normal) :
    p.display = "/".intercalate (names.map Utf8.lossy) := by
  simp only [display, h, List.filterMap_map]
  exact congrArg _ (congrFun List.filterMap_eq_map names)

theorem eq_of_intercalate_eq {a b : List String} (ha : a ≠ []) (hb : b ≠ [])
    (hslash : ∀ s ∈ a ++ b, '/' ∉ s.toList) (h : "/".intercalate a = "/".intercalate b) : a = b := by
  have hsplit {l : List String} (hl : l ≠ []) (hsub : ∀ s ∈ l, s ∈ a ++ b) :
      ("/".intercalate l).toList.splitOn '/' = l.map String.toList := by
    rw [String.toList_intercalate]
    refine List.splitOn_intercalate '/' (fun cs hcs => ?_) (by simpa using hl)
    obtain ⟨s, hs, rfl⟩ := List.mem_map.mp hcs
    exact hslash s (hsub s hs)
  have hchars : a.map String.toList = b.map String.toList := by
    rw [← hsplit ha fun s => List.mem_append_left b, ← hsplit hb fun s => List.mem_append_right a, h]
  exact (List.map_inj_right fun s t => String.toList_inj.mp).mp hchars

theorem display_eq_iff {p q : Path} {a b : List Name} (ha : a ≠ []) (hb : b ≠ [])
    (hp : p.components = a.map .normal) (hq : q.components = b.map .normal)
    (hproper : ∀ n ∈ a ++ b, Name.isProper n) :
    p.display = q.display ↔ a.map Utf8.lossy = b.map Utf8.lossy := by
  rw [display_of_components hp, display_of_components hq]
  refine ⟨fun h => eq_of_intercalate_eq (by simpa using ha) (by simpa using hb) ?_ h, fun h => by rw [h]⟩
  intro s hs
  rw [← List.map_append] at hs
  obtain ⟨n, hn, rfl⟩ := List.mem_map.mp hs
  exact Name.slash_notMem_lossy (hproper n hn)

end Path

/-- Different names that read alike differ somewhere in one that is no text. -/
theorem Utf8.exists_invalid {a b : List Bytes} (h : a.map lossy = b.map lossy) (hne : a ≠ b) :
    ∃ m n, (m, n) ∈ a.zip b ∧ m ≠ n ∧ ¬ (isValid m ∧ isValid n) := by
  induction a generalizing b with
  | nil => exact absurd (List.map_eq_nil_iff.mp h.symm).symm hne
  | cons m a ih =>
      cases b with
      | nil => cases h
      | cons n b =>
          obtain ⟨hhead, htail⟩ := List.cons.inj h
          by_cases hmn : m = n
          · obtain ⟨k, l, hmem, hkl⟩ := ih htail fun hab => hne (by rw [hmn, hab])
            exact ⟨k, l, List.mem_cons_of_mem _ hmem, hkl⟩
          · exact ⟨m, n, by simp, hmn, fun hvalid => hmn (eq_of_lossy_eq hvalid.1 hvalid.2 hhead)⟩

namespace Scan

variable {fs : FileSystem} {s : Scan} {root : Path}

theorem Listed.isValid_last {front : List Name} {n : Name} {data : Bytes} (hroot : root ≠ [])
    (h : s.Listed fs root (front ++ [n]) data) : Utf8.isValid n := by
  obtain ⟨x, hx⟩ := h.meets
  have hfree : s.selection.isExcluded (root.below (front ++ [n])) = false := by
    have hmatch := h.isMatch
    rw [Selection.isMatch, Bool.and_eq_true] at hmatch
    simpa using hmatch.1
  have htext := (Selection.isMatch_iff_isTextual (hx.getLast?_components hroot) hfree).mp h.isMatch
  exact (Selection.isTextual_iff.mp htext).1

/-- A file of the list by its names: the last one is text, and all are such as a directory can list. -/
theorem exists_names_of_mem {fs : WellFormedFileSystem} {files : List Source}
    (h : s.files fs root = .ok files) {f : Source} (hf : f ∈ files) :
    ∃ front n, f.relative.components = (front ++ [n]).map .normal ∧
      (∀ m ∈ front ++ [n], Name.isProper m) ∧ Utf8.isValid n := by
  obtain ⟨top, es, hroot⟩ := stat_of_files h
  have hnil : root ≠ [] := FileSystem.ne_nil_of_resolve (FileSystem.stat_eq_ok_iff.mp hroot).1
  obtain ⟨names, data, hlisted, rfl⟩ := (mem_files_iff h).mp hf
  obtain ⟨x, hx⟩ := hlisted.meets
  obtain ⟨front, n, -, -, rfl, -⟩ := hx.lists
  exact ⟨front, n, hlisted.components, hx.finds.proper, hlisted.isValid_last hnil⟩

/-- The files of a list are different. Two of them are displayed alike exactly if they have one name and the
directories that they are in read alike, name by name; then two of these names at one place are
different, and not both are text. -/
theorem displayed_alike_iff {fs : WellFormedFileSystem} {files : List Source}
    (h : s.files fs root = .ok files) :
    files.Pairwise fun f g => f ≠ g ∧
      (f.display = g.display ↔ ∃ a b n, f.relative.components = (a ++ [n]).map .normal ∧
        g.relative.components = (b ++ [n]).map .normal ∧ a.map Utf8.lossy = b.map Utf8.lossy ∧
        ∃ m k, (m, k) ∈ a.zip b ∧ m ≠ k ∧ ¬ (Utf8.isValid m ∧ Utf8.isValid k)) := by
  refine (components_ne h).imp_of_mem fun {f g} hf hg hne => ?_
  refine ⟨fun heq => hne (by rw [heq]), ?_⟩
  obtain ⟨a, m, ha, haproper, ham⟩ := exists_names_of_mem h hf
  obtain ⟨b, n, hb, hbproper, hbn⟩ := exists_names_of_mem h hg
  have hproper : ∀ k ∈ (a ++ [m]) ++ (b ++ [n]), Name.isProper k := fun k hk =>
    (List.mem_append.mp hk).elim (haproper k) (hbproper k)
  have hread : f.display = g.display ↔
      (a ++ [m]).map Utf8.lossy = (b ++ [n]).map Utf8.lossy :=
    Path.display_eq_iff (by simp) (by simp) ha hb hproper
  rw [hread]
  constructor
  · intro hmap
    simp only [List.map_append, List.map_singleton] at hmap
    obtain ⟨hdirectories, hlast⟩ := List.append_singleton_inj.mp hmap
    obtain rfl : m = n := Utf8.eq_of_lossy_eq ham hbn hlast
    have hab : a ≠ b := by
      rintro rfl
      exact hne (ha.trans hb.symm)
    exact ⟨a, b, m, ha, hb, hdirectories, Utf8.exists_invalid hdirectories hab⟩
  · rintro ⟨a', b', k, ha', hb', hdirectories, -⟩
    rw [Path.map_normal_inj.mp (ha.symm.trans ha'), Path.map_normal_inj.mp (hb.symm.trans hb')]
    simp [hdirectories]

/-- A file of one name in three directories, two of them with a name of one octet that is no text. -/
def alikeDirectories : WellFormedFileSystem where
  root := .dir [
    (Utf8.encode "b", .dir [(Utf8.encode "a.rs", .file (Utf8.encode "b") none)]),
    ([0xE9], .dir [(Utf8.encode "a.rs", .file (Utf8.encode "é") none)]),
    ([0xFF], .dir [(Utf8.encode "a.rs", .file (Utf8.encode "file") none)])]
  cwd := []
  wellFormed := rfl

/-- The source with this file, found in the directory of this name. -/
def inDirectory (directory : Name) (size : Nat) : Source :=
  ⟨Path.below Path.dot [directory, Utf8.encode "a.rs"],
    Path.joinNames [directory, Utf8.encode "a.rs"], size⟩

theorem files_alikeDirectories : forRust.files alikeDirectories Path.dot =
    .ok [inDirectory (Utf8.encode "b") 1, inDirectory [0xE9] 2, inDirectory [0xFF] 4] := by
  rfl

theorem displayed_alike_iff_alikeDirectories :
    forRust.files alikeDirectories Path.dot =
      .ok [inDirectory (Utf8.encode "b") 1, inDirectory [0xE9] 2, inDirectory [0xFF] 4] ∧
    (inDirectory (Utf8.encode "b") 1).display ≠ (inDirectory [0xE9] 2).display ∧
    (inDirectory [0xE9] 2).display = (inDirectory [0xFF] 4).display := by
  obtain ⟨hfirst, hrest⟩ := List.pairwise_cons.mp (displayed_alike_iff files_alikeDirectories)
  obtain ⟨hsecond, -⟩ := List.pairwise_cons.mp hrest
  refine ⟨files_alikeDirectories, ?_, ?_⟩
  · intro heq
    obtain ⟨a, b, n, ha, hb, hmap, -⟩ := (hfirst (inDirectory [0xE9] 2) (by simp)).2.mp heq
    have ha' : (inDirectory (Utf8.encode "b") 1).relative.components =
        ([Utf8.encode "b"] ++ [Utf8.encode "a.rs"]).map .normal := rfl
    have hb' : (inDirectory [0xE9] 2).relative.components =
        ([[0xE9]] ++ [Utf8.encode "a.rs"]).map .normal := rfl
    obtain ⟨rfl, -⟩ := List.append_singleton_inj.mp (Path.map_normal_inj.mp (ha.symm.trans ha'))
    obtain ⟨rfl, -⟩ := List.append_singleton_inj.mp (Path.map_normal_inj.mp (hb.symm.trans hb'))
    revert hmap
    decide +kernel
  · refine (hsecond (inDirectory [0xFF] 4) (by simp)).2.mpr
      ⟨[[0xE9]], [[0xFF]], Utf8.encode "a.rs", ?_, ?_, ?_, [0xE9], [0xFF], ?_, ?_, ?_⟩
    all_goals decide +kernel

/-- Two files of a list may be displayed by the same path. -/
theorem display_not_injective :
    ¬ ∀ (fs : WellFormedFileSystem) (s : Scan) (root : Path) (files : List Source),
      s.files fs root = .ok files → ∀ f ∈ files, ∀ g ∈ files, f ≠ g → f.display ≠ g.display := by
  intro h
  have hsame : (inDirectory [0xE9] 2).display = (inDirectory [0xFF] 4).display := rfl
  exact h alikeDirectories forRust Path.dot _ files_alikeDirectories (inDirectory [0xE9] 2) (by simp)
    (inDirectory [0xFF] 4) (by simp) (by decide +kernel) hsame

end Scan

end Collate
