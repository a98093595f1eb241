import Collate.Proofs.FileTree.Output
import Collate.Proofs.Scan.Complete

/-!
The list that a search returns, whether or not links are followed: a file is in it exactly when the search
comes to it, its path is selected and leads to a regular file.
-/
namespace Collate

theorem Node.sorted_eq_dir {x : Node} {es : Entries} :
    x.sorted = .dir es ↔ ∃ es', x = .dir es' ∧ es = sortedEntries es' := by
  cases x <;> simp [Node.sorted, eq_comm]

theorem Node.sorted_eq_link {x : Node} {target : Path} :
    x.sorted = .link target ↔ x = .link target := by
  cases x <;> simp [Node.sorted]

theorem Node.sorted_eq_file {x : Node} {data : Bytes} {room : Option Nat} :
    x.sorted = .file data room ↔ x = .file data room := by
  cases x <;> simp [Node.sorted]

section Sorted

variable {fs : FileSystem} {s : Scan} {root : Path} {names : List Name}

theorem FileSystem.find_dir_sorted {ending : Ending} {p : Path} {loc : Location} {es : Entries} :
    fs.sorted.find ending p = .ok (loc, .dir es) ↔
      ∃ es', fs.find ending p = .ok (loc, .dir es') ∧ es = sortedEntries es' := by
  rw [find_sorted]
  cases fs.find ending p with
  | error fault => simp [Except.map]
  | ok end_ =>
      obtain ⟨l, x⟩ := end_
      simp [Except.map, Node.sorted_eq_dir, and_assoc]

theorem FileSystem.stat_file_sorted {p : Path} {loc : Location} {data : Bytes}
    {room : Option Nat} :
    fs.sorted.stat p = .ok (loc, .file data room) ↔ fs.stat p = .ok (loc, .file data room) := by
  rw [stat_sorted]
  cases fs.stat p with
  | error fault => simp [Except.map]
  | ok end_ =>
      obtain ⟨l, x⟩ := end_
      simp [Except.map, Node.sorted_eq_file]

theorem FileSystem.lists_sorted {y : Node} :
    fs.sorted.Lists root names y ↔ ∃ x, fs.Lists root names x ∧ y = x.sorted := by
  constructor
  · rintro ⟨front, n, loc, es, rfl, hstat, hget⟩
    obtain ⟨es', hstat', rfl⟩ := find_dir_sorted.mp hstat
    rw [Entries.get?_sortedEntries] at hget
    obtain ⟨x, hx, rfl⟩ := Option.map_eq_some_iff.mp hget
    exact ⟨x, ⟨front, n, loc, es', rfl, hstat', hx⟩, rfl⟩
  · rintro ⟨x, ⟨front, n, loc, es, rfl, hstat, hget⟩, rfl⟩
    refine ⟨front, n, loc, sortedEntries es, rfl, find_dir_sorted.mpr ⟨es, hstat, rfl⟩, ?_⟩
    rw [Entries.get?_sortedEntries, hget]
    rfl

theorem Scan.enters_sorted {p : Path} : s.Enters fs.sorted p ↔ s.Enters fs p := by
  constructor
  · rintro ⟨loc, es, hfind⟩
    obtain ⟨es', hfind', -⟩ := FileSystem.find_dir_sorted.mp hfind
    exact ⟨loc, es', hfind'⟩
  · rintro ⟨loc, es, hfind⟩
    exact ⟨loc, sortedEntries es, FileSystem.find_dir_sorted.mpr ⟨es, hfind, rfl⟩⟩

theorem Scan.meets_sorted {y : Node} :
    s.Meets fs.sorted root names y ↔ ∃ x, s.Meets fs root names x ∧ y = x.sorted := by
  constructor
  · rintro ⟨hlists, hnear, hadmitted, hinside⟩
    obtain ⟨x, hx, rfl⟩ := FileSystem.lists_sorted.mp hlists
    refine ⟨x, ⟨hx, hnear, hadmitted, ?_⟩, rfl⟩
    intro front back h hfront hback
    exact Scan.enters_sorted.mp (hinside front back h hfront hback)
  · rintro ⟨x, ⟨hlists, hnear, hadmitted, hinside⟩, rfl⟩
    refine ⟨FileSystem.lists_sorted.mpr ⟨x, hlists, rfl⟩, hnear, hadmitted, ?_⟩
    intro front back h hfront hback
    exact Scan.enters_sorted.mpr (hinside front back h hfront hback)

end Sorted

namespace Scan

/-- A file that belongs into the list of a search, with its contents. -/
structure Listed (fs : FileSystem) (s : Scan) (root : Path) (names : List Name) (data : Bytes) :
    Prop where
  meets : ∃ x, s.Meets fs root names x
  isMatch : s.selection.isMatch (root.below names)
  contains : fs.Contains (root.below names) data

section Sources

variable {fs : FileSystem} {s : Scan} {root : Path} {names : List Name} {x : Node}

theorem Meets.stat (h : s.Meets fs root names x) (hlink : ∀ target, x ≠ .link target)
    (hlen : (root.below names).length < FileSystem.pathLimit) :
    ∃ loc, fs.stat (root.below names) = .ok (loc, x) := by
  obtain ⟨front, n, loc, es, rfl, hstat, hget⟩ := h.lists
  obtain ⟨hres, hloc⟩ := FileSystem.stat_eq_ok_iff.mp hstat
  have hn : Name.isProper n := (h.admitted n (by simp)).1
  have hx : fs.get? (loc ++ [n]) = some x := (FileSystem.get?_snoc hloc n).trans hget
  rw [Path.below_snoc] at hlen ⊢
  have hentry := FileSystem.resolve_entry_found hres hn hlen hx hlink .follow
  exact ⟨loc ++ [n], FileSystem.stat_eq_ok_iff.mpr ⟨hentry, hx⟩⟩

theorem source?_eq_some (h : s.Meets fs root names x) {kind : VisitKind}
    (hkind : s.Shows fs (root.below names) x kind) {f : Source}
    (hf : source? fs ⟨root.below names, names, kind⟩ = .ok (some f)) :
    ∃ data, fs.Contains (root.below names) data ∧
      f = ⟨root.below names, Path.joinNames names, data.length⟩ := by
  cases hkind with
  | pipe | device _ | specialBehind _ _ _ _ => cases hf
  | file data room =>
      simp only [source?] at hf
      split at hf
      · cases hf
      · rename_i hlen
        obtain ⟨loc, hstat⟩ := h.stat (by simp) (Nat.lt_of_not_le hlen)
        have hsource := Option.some.inj (Except.ok.inj hf)
        exact ⟨data, ⟨loc, room, hstat⟩, hsource.symm⟩
  | @fileBehind _ loc data room _ hstat =>
      simp only [source?] at hf
      split at hf
      · cases hf
      · have hsource := Option.some.inj (Except.ok.inj hf)
        exact ⟨data, ⟨loc, room, hstat⟩, hsource.symm⟩
  | kept _ _ =>
      simp only [source?] at hf
      split at hf
      · cases hf
      · rename_i loc data room hstat
        have hsource := Option.some.inj (Except.ok.inj hf)
        exact ⟨data, ⟨loc, room, hstat⟩, hsource.symm⟩
      · cases hf

theorem Meets.source? (h : s.Meets fs root names x) {data : Bytes}
    (hdata : fs.Contains (root.below names) data) :
    ∃ kind, s.Shows fs (root.below names) x kind ∧
      source? fs ⟨root.below names, names, kind⟩ =
        .ok (some ⟨root.below names, Path.joinNames names, data.length⟩) := by
  obtain ⟨loc, room, hstat⟩ := hdata
  have hlen := FileSystem.length_lt_of_resolve (FileSystem.stat_eq_ok_iff.mp hstat).1
  have hshort : ¬ FileSystem.pathLimit ≤ (root.below names).length := Nat.not_le.mpr hlen
  by_cases hlink : ∃ target, x = .link target
  · obtain ⟨target, rfl⟩ := hlink
    cases hmode : s.followLinks with
    | false => exact ⟨.link, .kept target hmode, by simp [Scan.source?, hstat, Visit.source]⟩
    | true =>
        exact ⟨_, .fileBehind hmode hstat, by simp [Scan.source?, hshort, Visit.source]⟩
  · obtain ⟨l, hx⟩ := h.stat (fun target e => hlink ⟨target, e⟩) hlen
    obtain ⟨rfl, rfl⟩ := Prod.mk.inj (Except.ok.inj (hx.symm.trans hstat))
    exact ⟨_, .file data room, by simp [Scan.source?, hshort, Visit.source]⟩

end Sources

section Files

variable {fs : FileSystem} {s : Scan} {root : Path}

theorem found_sorted (selection : Selection) (e : Encounter) :
    found fs.sorted selection e = found fs selection e := by
  obtain ⟨names, path, what⟩ := e
  cases what with
  | error f => rfl
  | ok kind =>
      cases kind with
      | file _ | special => rfl
      | link =>
          simp only [found, Scan.source?, FileSystem.stat_sorted]
          cases fs.stat path with
          | error fault => rfl
          | ok end_ =>
              obtain ⟨loc, x⟩ := end_
              cases x <;> rfl

/-- What a search looks at below its root. -/
def met (fs : FileSystem) (s : Scan) (root : Path) (top : Location) (es : Entries) :
    List Encounter :=
  s.walked fs.sorted root top (sortedEntries es)

theorem met_sound {fs : WellFormedFileSystem} {top : Location} {es : Entries}
    (hroot : fs.stat root = .ok (top, .dir es)) {e : Encounter} (he : e ∈ s.met fs root top es) :
    e.Sound fs.toFileSystem.sorted s root := by
  have hsorted := stat_sorted_dir hroot
  exact meetWithin_sound fs.sorted (top_stands hsorted)
    (FileSystem.stat_eq_ok_iff.mp hsorted).2 e he

/-- The root is a directory, so only what is below it counts. -/
theorem files_eq_gather_met {top : Location} {es : Entries}
    (hroot : fs.stat root = .ok (top, .dir es)) :
    s.files fs root = gather fs s.selection (s.met fs root top es) := by
  rw [files_eq_gather hroot, encounters]
  refine gather_of_none fun e he => ?_
  obtain ⟨v, hv, rfl⟩ := List.mem_map.mp he
  simp only [rootVisit] at hv
  split at hv
  · cases hv
  · split at hv
    · obtain rfl := List.mem_singleton.mp hv
      simp [found, Scan.source?, hroot]
    · cases hv

theorem mem_files_iff {fs : WellFormedFileSystem} {files : List Source}
    (h : s.files fs root = .ok files) {f : Source} :
    f ∈ files ↔ ∃ names data, s.Listed fs root names data ∧
      f = ⟨root.below names, Path.joinNames names, data.length⟩ := by
  obtain ⟨top, es, hroot⟩ := stat_of_files h
  rw [files_eq_gather_met hroot] at h
  obtain ⟨hall, rfl⟩ := gather_eq_ok h
  constructor
  · intro hf
    obtain ⟨e, he, hsome⟩ := List.mem_filterMap.mp hf
    obtain ⟨g, hg⟩ := hall e he
    obtain rfl : g = some f := by simpa [hg, Except.toOption] using hsome
    rw [← found_sorted] at hg
    cases met_sound hroot he with
    | fault _ => cases hg
    | seen hmeets hkind =>
        simp only [found] at hg
        split at hg
        · rename_i hmatch
          obtain ⟨data, ⟨loc, room, hstat⟩, rfl⟩ := source?_eq_some hmeets hkind hg
          obtain ⟨x, hx, -⟩ := meets_sorted.mp hmeets
          exact ⟨_, data, ⟨⟨x, hx⟩, hmatch, loc, room, FileSystem.stat_file_sorted.mp hstat⟩, rfl⟩
        · cases hg
  · rintro ⟨names, data, ⟨⟨x, hx⟩, hmatch, loc, room, hstat⟩, rfl⟩
    have hmeets : s.Meets fs.toFileSystem.sorted root names x.sorted := meets_sorted.mpr ⟨x, hx, rfl⟩
    have hdata : fs.toFileSystem.sorted.Contains (root.below names) data :=
      ⟨loc, room, FileSystem.stat_file_sorted.mpr hstat⟩
    obtain ⟨kind, hkind, hsource⟩ := hmeets.source? hdata
    rcases hmeets.seen (stat_sorted_dir hroot) hkind with he | hfault
    · refine List.mem_filterMap.mpr ⟨_, he, ?_⟩
      rw [← found_sorted]
      simp [found, hmatch, hsource, Except.toOption]
    · obtain ⟨-, e, he, -, failure, hfailure⟩ := hfault
      obtain ⟨g, hg⟩ := hall e he
      simp [found, hfailure] at hg

theorem contains_of_files {fs : WellFormedFileSystem} {files : List Source}
    (h : s.files fs root = .ok files) {f : Source} (hf : f ∈ files) :
    ∃ data, fs.Contains f.path data ∧ f.size = data.length := by
  obtain ⟨names, data, hlisted, rfl⟩ := (mem_files_iff h).mp hf
  exact ⟨data, hlisted.contains, rfl⟩

end Files

end Scan

end Collate
