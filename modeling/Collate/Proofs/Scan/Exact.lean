import Mathlib.Data.List.Sort
import Collate.Proofs.Scan.Stops

/-!
Discovery is exact where links are not followed. The list holds each file that belongs into it once, and
the search fails for the first entry that it has to look at and cannot.
-/
namespace Collate.Scan

section Listed

variable {fs : FileSystem} {s : Scan} {root : Path}

theorem relative_of_found {selection : Selection} {e : Encounter} {f : Source}
    (h : found fs selection e = .ok (some f)) : f.relative = Path.joinNames e.names := by
  obtain ⟨names, path, what⟩ := e
  cases what with
  | error g => cases h
  | ok kind =>
      simp only [found] at h
      split at h
      · cases kind with
        | special => cases h
        | file size =>
            simp only [Scan.source?] at h
            split at h
            · cases h
            · rw [← Option.some.inj (Except.ok.inj h)]
              rfl
        | link =>
            simp only [Scan.source?] at h
            split at h
            · cases h
            · rw [← Option.some.inj (Except.ok.inj h)]
              rfl
            · cases h
      · cases h

theorem Listed.components {names : List Name} {data : Bytes} (h : s.Listed fs root names data) :
    (Path.joinNames names).components = names.map .normal := by
  obtain ⟨x, hx⟩ := h.meets
  exact Name.components_joinNames fun n hn => (hx.admitted n hn).1

theorem files_pairwise {fs : WellFormedFileSystem} {files : List Source}
    (h : s.files fs root = .ok files) :
    files.Pairwise fun f g => ∃ a b : List Name,
      f.relative.components = a.map .normal ∧ g.relative.components = b.map .normal ∧ a < b := by
  obtain ⟨top, es, hroot⟩ := stat_of_files h
  rw [files_eq_gather_met hroot] at h
  obtain ⟨hall, rfl⟩ := gather_eq_ok h
  have hcomponents {e : Encounter} (he : e ∈ s.met fs root top es) {f : Source}
      (hf : (found fs s.selection e).toOption.join = some f) :
      f.relative.components = e.names.map .normal := by
    obtain ⟨g, hg⟩ := hall e he
    obtain rfl : g = some f := by simpa [hg, Except.toOption] using hf
    rw [relative_of_found hg]
    cases met_sound hroot he with
    | seen hmeets _ =>
        exact Name.components_joinNames fun n hn => (hmeets.admitted n hn).1
    | fault _ => cases hg
  refine List.pairwise_filterMap.mpr ((met_pairwise hroot).imp_of_mem ?_)
  intro a b ha hb hlt f hf g hg
  exact ⟨a.names, b.names, hcomponents ha hf, hcomponents hb hg, hlt⟩

end Listed

theorem files_sublist {fs fs' : WellFormedFileSystem}
    {s s' : Scan} {root root' : Path} {files files' : List Source}
    (h : s.files fs root = .ok files) (h' : s'.files fs' root' = .ok files')
    (hmem : ∀ f ∈ files, f ∈ files') : files.Sublist files' := by
  let before (f g : Source) : Prop := ∃ a b : List Name,
    f.relative.components = a.map .normal ∧ g.relative.components = b.map .normal ∧ a < b
  have hasymm (f g : Source) (hfg : before f g) : ¬ before g f := by
    obtain ⟨a, b, ha, hb, hlt⟩ := hfg
    rintro ⟨c, d, hc, hd, hlt'⟩
    obtain rfl : b = c := Path.map_normal_inj.mp (hb.symm.trans hc)
    obtain rfl : a = d := Path.map_normal_inj.mp (ha.symm.trans hd)
    exact List.lt_asymm hlt hlt'
  have : Std.Antisymm before := ⟨fun f g hfg hgf => absurd hgf (hasymm f g hfg)⟩
  have hnodup : files.Nodup := (files_pairwise h).imp fun {f g} hfg heq => by
    subst heq
    exact hasymm f f hfg hfg
  exact List.sublist_of_subperm_of_pairwise (List.subperm_of_subset hnodup hmem)
    (files_pairwise h) (files_pairwise h')

theorem files_eq_of_mem_iff {fs fs' : WellFormedFileSystem}
    {s s' : Scan} {root root' : Path} {files files' : List Source}
    (h : s.files fs root = .ok files) (h' : s'.files fs' root' = .ok files')
    (hmem : ∀ f, f ∈ files ↔ f ∈ files') : files = files' :=
  (files_sublist h h' fun f => (hmem f).mp).antisymm
    (files_sublist h' h fun f => (hmem f).mpr)

/-- An entry that ends a search: a selected link that leads nowhere, a selected file whose path is too long,
or a directory to go into whose path is. -/
inductive Blocked (fs : FileSystem) (s : Scan) (root : Path) : List Name → IoFault → Prop where
  | link {names : List Name} {target : Path} {fault : IoFault} :
      s.Meets fs root names (.link target) → s.selection.isMatch (root.below names) →
      fs.stat (root.below names) = .error fault → Blocked fs s root names fault
  | file {names : List Name} {data : Bytes} {room : Option Nat} :
      s.Meets fs root names (.file data room) → s.selection.isMatch (root.below names) →
      FileSystem.pathLimit ≤ (root.below names).length →
      Blocked fs s root names (.refused .nameTooLong)
  | directory {names : List Name} {es : Entries} :
      s.Meets fs root names (.dir es) →
      (∀ depth, s.maxDepth = some depth → names.length < depth) →
      FileSystem.pathLimit ≤ (root.below names).length →
      Blocked fs s root names (.refused .nameTooLong)

/-- Where links are not followed, an entry that ends a search is all that stops it. -/
theorem stops_iff_blocked {fs : FileSystem} {s : Scan} (hmode : s.followLinks = false) {root : Path}
    {names : List Name} {f : Failure} :
    s.Stops fs root names f ↔
      ∃ fault, s.Blocked fs root names fault ∧ f = .unreadable (root.below names) fault := by
  constructor
  · intro h
    cases h with
    | fault hfault =>
        cases hfault with
        | deep hmeets hnear hlong => exact ⟨_, .directory hmeets hnear hlong, rfl⟩
        | broken hfollow _ _ | loop hfollow _ _ _ => cases hmode.symm.trans hfollow
    | file hmeets hmatch hlong => exact ⟨_, .file hmeets hmatch hlong, rfl⟩
    | link _ hmeets hmatch hstat => exact ⟨_, .link hmeets hmatch hstat, rfl⟩
  · rintro ⟨fault, h, rfl⟩
    cases h with
    | link hmeets hmatch hstat => exact .link hmode hmeets hmatch hstat
    | file hmeets hmatch hlong => exact .file hmeets hmatch hlong
    | directory hmeets hnear hlong => exact .fault (.deep hmeets hnear hlong)

section Outcome

variable {fs : WellFormedFileSystem} {s : Scan} {root : Path}

theorem components_ne {files : List Source} (h : s.files fs root = .ok files) :
    files.Pairwise fun f g => f.relative.components ≠ g.relative.components := by
  refine (files_pairwise h).imp fun {f g} hpair heq => ?_
  obtain ⟨a, b, ha, hb, hlt⟩ := hpair
  rw [ha, hb] at heq
  obtain rfl : a = b := Path.map_normal_inj.mp heq
  exact List.lt_irrefl a hlt

theorem relative_ne {files : List Source} (h : s.files fs root = .ok files) :
    files.Pairwise fun f g => f.relative ≠ g.relative :=
  (components_ne h).imp fun hne heq => hne (congrArg Path.components heq)

variable (hmode : s.followLinks = false) {top : Location} {es : Entries}
  (hroot : fs.stat root = .ok (top, .dir es))
include hmode hroot

theorem files_isOk_iff : (∃ files, s.files fs root = .ok files) ↔
    ¬ ∃ names fault, s.Blocked fs root names fault := by
  rw [files_isOk_iff_stops hroot]
  refine not_congr ⟨?_, ?_⟩
  · rintro ⟨names, f, h⟩
    obtain ⟨fault, hblocked, -⟩ := (stops_iff_blocked hmode).mp h
    exact ⟨names, fault, hblocked⟩
  · rintro ⟨names, fault, hblocked⟩
    exact ⟨names, _, (stops_iff_blocked hmode).mpr ⟨fault, hblocked, rfl⟩⟩

/-- A search that fails does so at the first entry that blocks it. -/
theorem first_blocked {f : Failure} (herror : s.files fs root = .error f) :
    ∃ names fault, s.Blocked fs root names fault ∧ f = .unreadable (root.below names) fault ∧
      ∀ names' fault', s.Blocked fs root names' fault' → names ≤ names' := by
  obtain ⟨names, hstop, hfirst⟩ := first_stop hroot herror
  obtain ⟨fault, hblocked, rfl⟩ := (stops_iff_blocked hmode).mp hstop
  refine ⟨names, fault, hblocked, rfl, fun names' fault' h' => ?_⟩
  exact hfirst names' _ ((stops_iff_blocked hmode).mpr ⟨fault', h', rfl⟩)

end Outcome

/-- Where links are not followed, a search lists each file that belongs to its list once; it fails exactly
when an entry blocks it, and for the first one that does. -/
theorem files_exact {fs : WellFormedFileSystem} {s : Scan}
    (hmode : s.followLinks = false) {root : Path} {top : Location} {es : Entries}
    (hroot : fs.stat root = .ok (top, .dir es)) :
    ((∃ files, s.files fs root = .ok files) ↔ ¬ ∃ names fault, s.Blocked fs root names fault) ∧
    (∀ files, s.files fs root = .ok files →
      (∀ f, f ∈ files ↔ ∃ names data, s.Listed fs root names data ∧
        f = ⟨root.below names, Path.joinNames names, data.length⟩ ∧
        f.relative.components = names.map .normal) ∧
      files.Pairwise fun f g => f.relative ≠ g.relative) ∧
    ∀ e, s.files fs root = .error e →
      ∃ names fault, s.Blocked fs root names fault ∧
        e = .unreadable (root.below names) fault ∧
        ∀ names' fault', s.Blocked fs root names' fault' → names ≤ names' := by
  refine ⟨files_isOk_iff hmode hroot, fun files hfiles => ⟨fun f => ?_, relative_ne hfiles⟩,
    fun e herror => first_blocked hmode hroot herror⟩
  rw [mem_files_iff hfiles]
  constructor
  · rintro ⟨names, data, hlisted, rfl⟩
    exact ⟨names, data, hlisted, rfl, hlisted.components⟩
  · rintro ⟨names, data, hlisted, rfl, -⟩
    exact ⟨names, data, hlisted, rfl⟩

/-- A file, a link to it, one more file further down, and a hidden link to nothing. -/
def linkedAndHidden : WellFormedFileSystem where
  root := .dir [
    (Utf8.encode "oak.rs", .file (Utf8.encode "oak") none),
    (Utf8.encode ".ash.rs", .link (Utf8.encode "nowhere")),
    (Utf8.encode "elm.rs", .link (Utf8.encode "oak.rs")),
    (Utf8.encode "hill", .dir [(Utf8.encode "yew.rs", .file (Utf8.encode "yew!") none)])]
  cwd := []
  wellFormed := rfl

def forRust : Scan := ⟨⟨"rs", false, none⟩, false, some 2⟩

theorem files_exact_linkedAndHidden :
    forRust.followLinks = false ∧
    linkedAndHidden.stat Path.dot = .ok ([], linkedAndHidden.root) ∧
    (¬ ∃ names fault, forRust.Blocked linkedAndHidden Path.dot names fault) ∧
    ∃ files, forRust.files linkedAndHidden Path.dot = .ok files ∧
      files.map (fun f => (f.relative, f.size)) = [(Utf8.encode "elm.rs", 3),
        (Utf8.encode "hill/yew.rs", 4), (Utf8.encode "oak.rs", 3)] ∧
      ∀ f ∈ files, ∃ names data, forRust.Listed linkedAndHidden Path.dot names data ∧
        f = ⟨Path.below Path.dot names, Path.joinNames names, data.length⟩ := by
  have hroot : linkedAndHidden.stat Path.dot = .ok ([], linkedAndHidden.root) := rfl
  have hlist : (forRust.files linkedAndHidden Path.dot).toOption.map
      (·.map fun f => (f.relative, f.size)) = some [(Utf8.encode "elm.rs", 3),
        (Utf8.encode "hill/yew.rs", 4), (Utf8.encode "oak.rs", 3)] := rfl
  obtain ⟨hok, hfiles, -⟩ := files_exact (s := forRust) rfl hroot
  cases hrun : forRust.files linkedAndHidden Path.dot with
  | error e =>
      rw [hrun] at hlist
      cases hlist
  | ok files =>
      rw [hrun] at hlist
      refine ⟨rfl, hroot, hok.mp ⟨files, hrun⟩, files, rfl, Option.some.inj hlist, ?_⟩
      intro f hf
      obtain ⟨names, data, hlisted, heq, -⟩ := ((hfiles files hrun).1 f).mp hf
      exact ⟨names, data, hlisted, heq⟩

def singleFile : WellFormedFileSystem where
  root := .dir [(Utf8.encode "x.rs", .file [] none)]
  cwd := []
  wellFormed := rfl

/-- The working directory by a path that leaves no room for a file's name. -/
def nearPathLimit : Path :=
  (List.replicate 2046 [0x2E, 0x2F]).flatten

theorem singleFile_noLink {root : Path} {names : List Name} {target : Path} :
    ¬ singleFile.Lists root names (.link target) := by
  rintro ⟨front, n, loc, es, -, hstat, hget⟩
  obtain ⟨-, hloc⟩ := FileSystem.stat_eq_ok_iff.mp hstat
  cases loc with
  | nil =>
      obtain rfl : [(Utf8.encode "x.rs", Node.file [] none)] = es := by
        simpa [FileSystem.get?, Node.get?, singleFile] using hloc
      rw [Entries.get?_cons] at hget
      split at hget <;> cases hget
  | cons m loc =>
      simp only [FileSystem.get?, singleFile, Node.get?, Entries.get?_cons] at hloc
      split at hloc
      · cases loc <;> simp [Node.get?] at hloc
      · cases hloc

theorem stat_nearPathLimit : singleFile.stat nearPathLimit = .ok ([], singleFile.root) := by
  have hplace : (singleFile.stat nearPathLimit).toOption.map (·.1) = some [] := by decide +kernel
  cases hstat : singleFile.stat nearPathLimit with
  | error fault => simp [hstat, Except.toOption] at hplace
  | ok end_ =>
      obtain ⟨loc, x⟩ := end_
      obtain rfl : loc = [] := by simpa [hstat, Except.toOption] using hplace
      have hx : singleFile.get? [] = some x := (FileSystem.stat_eq_ok_iff.mp hstat).2
      have hroot : singleFile.get? [] = some singleFile.root := rfl
      rw [Option.some.inj (hx.symm.trans hroot)]

/-- Without any link a search may fail: the path of a file can be too long. -/
theorem files_fail_without_link :
    singleFile.stat nearPathLimit = .ok ([], singleFile.root) ∧
    ¬ ((∃ files, forRust.files singleFile nearPathLimit = .ok files) ↔
      ¬ ∃ names target fault, forRust.Meets singleFile nearPathLimit names (.link target) ∧
        forRust.selection.isMatch (nearPathLimit.below names) ∧
        singleFile.stat (nearPathLimit.below names) = .error fault) := by
  have hfail : (forRust.files singleFile nearPathLimit).isOk = false := by decide +kernel
  refine ⟨stat_nearPathLimit, fun h => ?_⟩
  have hno : ¬ ∃ names target fault, forRust.Meets singleFile nearPathLimit names (.link target) ∧
      forRust.selection.isMatch (nearPathLimit.below names) ∧
      singleFile.stat (nearPathLimit.below names) = .error fault := by
    rintro ⟨names, target, fault, hmeets, -, -⟩
    exact singleFile_noLink hmeets.lists
  obtain ⟨files, hfiles⟩ := h.mpr hno
  simp [hfiles, Except.isOk, Except.toBool] at hfail

end Collate.Scan
