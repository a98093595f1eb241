import Collate.Proofs.FileTree.Links
import Collate.Proofs.Scan.Exact
import Collate.Proofs.Scan.Unlinked

/-!
Searches that follow links. As long as every link they look at leads on, they find what the same search with
links kept finds in the expanded tree; and all that it finds without following any, in the same order.
-/
namespace Collate.Scan

/-- What is at the end of the root's path, with the links below it replaced. -/
def expanded (fs : FileSystem) (s : Scan) (root : Path) (top : Location) : Node → Node
  | .dir es => .dir (expandWithin fs s.rule FileSystem.linkLimit (.top root top s.maxDepth) es)
  | x => x

/-- The same path leads to the expanded tree. -/
def Expands (fs : FileSystem) (s : Scan) (root : Path) (fs' : FileSystem) : Prop :=
  match fs.stat root with
  | .error _ => ∃ fault, fs'.stat root = .error fault
  | .ok (top, x) => ∃ loc, fs'.stat root = .ok (loc, s.expanded fs root top x)

/-- A selected file or a directory to go into, with a path that the system refuses for its length. -/
inductive TooLong (fs : FileSystem) (s : Scan) (root : Path) : List Name → Prop where
  | file {names : List Name} {data : Bytes} {room : Option Nat} :
      s.Meets fs root names (.file data room) → s.selection.isMatch (root.below names) →
      FileSystem.pathLimit ≤ (root.below names).length → TooLong fs s root names
  | directory {names : List Name} {es : Entries} :
      s.Meets fs root names (.dir es) → (∀ depth, s.maxDepth = some depth → names.length < depth) →
      FileSystem.pathLimit ≤ (root.below names).length → TooLong fs s root names

section Expanded

variable {fs fs' : FileSystem} {s : Scan} {root : Path}

theorem gather_congr {selection : Selection} {es : List Encounter}
    (h : ∀ e ∈ es, found fs selection e = found fs' selection e) :
    gather fs selection es = gather fs' selection es := by
  induction es with
  | nil => rfl
  | cons e es ih =>
      rw [gather, gather, h e (by simp), ih fun d hd => h d (List.mem_cons_of_mem _ hd)]

/-- Nothing is looked up any more once all links are followed. -/
theorem found_of_sound (hmode : s.followLinks = true) {e : Encounter} (he : e.Sound fs s root)
    (seen seen' : FileSystem) : found seen s.selection e = found seen' s.selection e := by
  cases he with
  | fault _ => rfl
  | seen _ hkind =>
      cases hkind with
      | kept _ hkeep => cases hmode.symm.trans hkeep
      | file _ _ | pipe | device _ | fileBehind _ _ | specialBehind _ _ _ _ => rfl

theorem met_expanded (fs : WellFormedFileSystem) (hclear : s.Clear fs root) {top : Location}
    {es : Entries} (hroot : fs.stat root = .ok (top, .dir es)) (loc : Location) :
    s.met fs root top es = s.keeping.met fs' root loc
      (expandWithin fs s.rule FileSystem.linkLimit (.top root top s.maxDepth) es) := by
  have hsorted := stat_sorted_dir hroot
  have halike : (Directory.top root top s.maxDepth).Alike (.top root loc s.maxDepth) :=
    ⟨rfl, rfl, rfl⟩
  calc s.met fs root top es
      = s.keeping.walked fs'.sorted root loc (expandWithin fs.toFileSystem.sorted s.rule
          FileSystem.linkLimit (.top root top s.maxDepth) (sortedEntries es)) :=
        meetWithin_expand fs'.sorted fs.sorted hclear.sorted FileSystem.linkLimit
          (top_stands hsorted) halike (FileSystem.stat_eq_ok_iff.mp hsorted).2
    _ = s.keeping.met fs' root loc
          (expandWithin fs s.rule FileSystem.linkLimit (.top root top s.maxDepth) es) := by
        rw [expandWithin_sorted]
        rfl

/-- The expanded tree holds for a search what the links lead to, whether or not there is a failure. -/
theorem files_expanded (fs : WellFormedFileSystem) (hclear : s.Clear fs root)
    (hexpands : s.Expands fs root fs') : s.files fs root = s.keeping.files fs' root := by
  simp only [Expands] at hexpands
  split at hexpands
  · rename_i hroot
    obtain ⟨fault', hroot'⟩ := hexpands
    rw [files_of_missing hroot, files_of_missing hroot']
  · rename_i top x hroot
    obtain ⟨loc, hroot'⟩ := hexpands
    by_cases hdir : ∃ es, x = .dir es
    · obtain ⟨es, rfl⟩ := hdir
      rw [files_eq_gather_met hroot, files_eq_gather_met hroot', ← met_expanded fs hclear hroot]
      refine gather_congr fun e he => ?_
      exact found_of_sound hclear.follows (met_sound hroot he) fs fs'
    · have hother : ∀ es, x ≠ .dir es := fun es he => hdir ⟨es, he⟩
      have hsame : s.expanded fs root top x = x := by
        cases x with
        | dir es => exact absurd rfl (hother es)
        | file _ _ | link _ | pipe | device _ => rfl
      rw [files_of_other hroot hother, files_of_other hroot' (hsame.symm ▸ hother)]

theorem Clear.no_link_found (hclear : s.Clear fs root) (hexpands : s.Expands fs root fs')
    {top : Location} {es : Entries} (hroot : fs.stat root = .ok (top, .dir es)) (names : List Name)
    (target : Path) : ¬ s.keeping.Finds fs' root names (.link target) := by
  simp only [Expands, hroot] at hexpands
  obtain ⟨loc, hroot'⟩ := hexpands
  exact no_link_expanded hclear hroot hroot' names target

theorem Clear.stops_iff (hclear : s.Clear fs root) {names : List Name} :
    (∃ f, s.Stops fs root names f) ↔ s.TooLong fs root names := by
  constructor
  · rintro ⟨f, h⟩
    cases h with
    | fault hfault =>
        cases hfault with
        | deep hmeets hnear hlong => exact .directory hmeets hnear hlong
        | broken _ hfinds hstat =>
            obtain ⟨loc, x, hok⟩ := (hclear.leadsOn _ _ hfinds).stat
            cases hstat.symm.trans hok
        | loop _ hfinds hstat hfront =>
            exact absurd hfront ((hclear.leadsOn _ _ hfinds).not_encloses hstat)
    | file hmeets hmatch hlong => exact .file hmeets hmatch hlong
    | link hmode _ _ _ => cases hmode.symm.trans hclear.follows
  · intro h
    cases h with
    | file hmeets hmatch hlong => exact ⟨_, .file hmeets hmatch hlong⟩
    | directory hmeets hnear hlong => exact ⟨_, .fault (.deep hmeets hnear hlong)⟩

theorem files_isOk_iff_tooLong (fs : WellFormedFileSystem) (hclear : s.Clear fs root) :
    (∃ files, s.files fs root = .ok files) ↔
      (∃ top es, fs.stat root = .ok (top, .dir es)) ∧ ¬ ∃ names, s.TooLong fs root names := by
  constructor
  · rintro ⟨files, hfiles⟩
    obtain ⟨top, es, hroot⟩ := stat_of_files hfiles
    refine ⟨⟨top, es, hroot⟩, ?_⟩
    rintro ⟨names, h⟩
    obtain ⟨f, hstops⟩ := hclear.stops_iff.mpr h
    exact (files_isOk_iff_stops hroot).mp ⟨files, hfiles⟩ ⟨names, f, hstops⟩
  · rintro ⟨⟨top, es, hroot⟩, hshort⟩
    refine (files_isOk_iff_stops hroot).mpr ?_
    rintro ⟨names, f, hstops⟩
    exact hshort ⟨names, hclear.stops_iff.mp ⟨f, hstops⟩⟩

end Expanded

/-- Where the way to the root goes over no link, replacing what is there gives the expanded tree. -/
theorem expands_put {fs : FileSystem} {s : Scan} {root : Path} {top : Location} {es : Entries}
    (hroot : fs.stat root = .ok (top, .dir es))
    (hdirect : fs.resolveWithin .follow 0 (fs.start root) root.split = .ok (.found top)) :
    s.Expands fs root (fs.put top (s.expanded fs root top (.dir es))) := by
  obtain ⟨hres, hes⟩ := FileSystem.stat_eq_ok_iff.mp hroot
  obtain ⟨hnul, hnil, hlen, -⟩ := FileSystem.resolve_eq_ok_iff.mp hres
  have hkeep (loc : Location) (hloc : fs.kind? loc = some .directory) :
      (fs.put top (s.expanded fs root top (.dir es))).kind? loc = some .directory := by
    obtain ⟨inner, hinner⟩ := FileSystem.kind?_eq_directory.mp hloc
    exact FileSystem.kind?_eq_directory.mpr
      (Node.get?_put_dir hes (fun _ _ => expandWithin_directory) hinner)
  have htop : fs.kind? top = some .directory := FileSystem.kind?_eq_directory.mpr ⟨es, hes⟩
  have hleads := (FileSystem.resolveWithin_eq_ok_iff.mp hdirect).of_directories hkeep htop
    FileSystem.linkLimit
  simp only [Expands, hroot]
  exact ⟨top, FileSystem.stat_eq_ok_iff.mpr
    ⟨FileSystem.resolve_eq_ok_iff.mpr ⟨hnul, hnil, hlen, hleads⟩, FileSystem.get?_put_self ..⟩⟩

section Found

variable {fs : FileSystem} {s : Scan} {root : Path} (hmode : s.followLinks = true)
include hmode

/-- A search that follows links and succeeds has looked at none that leads nowhere or back. -/
theorem clear_of_files (fs : WellFormedFileSystem) {files : List Source}
    (h : s.files fs root = .ok files) : s.Clear fs root := by
  obtain ⟨top, es, hroot⟩ := stat_of_files h
  have hgo := (files_isOk_iff_stops hroot).mp ⟨files, h⟩
  refine ⟨hmode, fun names target hfinds => ?_⟩
  cases hstat : fs.stat (root.below names) with
  | error fault => exact absurd ⟨names, _, .fault (.broken hmode hfinds hstat)⟩ hgo
  | ok end_ =>
      obtain ⟨loc, x⟩ := end_
      refine ⟨loc, x, hstat, ?_⟩
      rintro front ⟨back, rfl⟩ hne hfront
      have hback : back ≠ [] := fun hnil => hne (by simp [hnil])
      have hdir : ∃ l inner, fs.stat (root.below front) = .ok (l, .dir inner) := by
        by_cases hnil : front = []
        · exact ⟨top, es, hnil ▸ hroot⟩
        · obtain ⟨l, inner, hfind⟩ := hfinds.inside front back rfl hnil hback
          rw [ending_of_follows hmode] at hfind
          exact ⟨l, inner, hfind⟩
      obtain ⟨l, inner, hinner⟩ := hdir
      obtain ⟨hres, hl⟩ := FileSystem.stat_eq_ok_iff.mp hinner
      obtain rfl : l = loc := Place.found.inj (Except.ok.inj (hres.symm.trans hfront))
      obtain rfl : x = .dir inner :=
        Option.some.inj ((FileSystem.stat_eq_ok_iff.mp hstat).2.symm.trans hl)
      -- The link is the last of the names, so the directory lies on the way to the link's own directory.
      obtain rfl | ⟨rest, n, rfl⟩ := List.eq_nil_or_concat back
      · exact absurd rfl hback
      · rw [List.concat_eq_append, ← List.append_assoc] at hfinds hstat
        obtain ⟨deep, hdeep⟩ := FileSystem.exists_encloses (List.prefix_append front rest) hfront
        exact hgo ⟨_, _, .fault (.loop hmode hfinds hstat hdeep)⟩

theorem Meets.of_keeping {names : List Name} {x : Node} (h : s.keeping.Meets fs root names x) :
    s.Meets fs root names x where
  lists := h.lists
  near := h.near
  admitted := h.admitted
  inside front back hnames hfront hback := by
    obtain ⟨loc, es, hfind⟩ := h.inside front back hnames hfront hback
    have hstat := FileSystem.stat_of_find (by simp [Scan.ending, keeping]) hfind (by simp)
    exact ⟨loc, es, (ending_of_follows hmode).symm ▸ hstat⟩

theorem Stops.of_keeping {names : List Name} {f : Failure} (h : s.keeping.Stops fs root names f) :
    s.Stops fs root names f := by
  cases h with
  | fault hfault =>
      cases hfault with
      | deep hmeets hnear hlong => exact .fault (.deep (hmeets.of_keeping hmode) hnear hlong)
      | broken hkeep _ _ | loop hkeep _ _ _ => cases hkeep
  | file hmeets hmatch hlong => exact .file (hmeets.of_keeping hmode) hmatch hlong
  | link _ hmeets _ hstat =>
      exact .fault (.broken hmode (hmeets.of_keeping hmode).finds hstat)

/-- Whatever is found without following links is found with it, in the same order. -/
theorem sublist_files (fs : WellFormedFileSystem) {files : List Source}
    (h : s.files fs root = .ok files) :
    ∃ kept, s.keeping.files fs root = .ok kept ∧ kept.Sublist files := by
  obtain ⟨top, es, hroot⟩ := stat_of_files h
  have hgo := (files_isOk_iff_stops hroot).mp ⟨files, h⟩
  have hgo' : ¬ ∃ names f, s.keeping.Stops fs root names f := by
    rintro ⟨names, f, hstops⟩
    exact hgo ⟨names, f, hstops.of_keeping hmode⟩
  obtain ⟨kept, hkept⟩ := (files_isOk_iff_stops hroot).mpr hgo'
  refine ⟨kept, hkept, files_sublist hkept h fun f hf => ?_⟩
  obtain ⟨names, data, ⟨⟨x, hx⟩, hmatch, hcontains⟩, rfl⟩ := (mem_files_iff hkept).mp hf
  exact (mem_files_iff h).mpr
    ⟨names, data, ⟨⟨x, hx.of_keeping hmode⟩, hmatch, hcontains⟩, rfl⟩

end Found

/-- If each link that a search looks at leads on, the search that follows links gives what the one that keeps
them gives in the expanded tree, where it looks at no link. It succeeds unless a path is too long, and its
list then contains the list of the search that keeps links in the tree as it is. -/
theorem files_over_links {fs : WellFormedFileSystem} {fs' : FileSystem} {s : Scan}
    (hmode : s.followLinks = true) {root : Path}
    (hlinks : ∀ names target, s.Finds fs root names (.link target) → fs.LeadsOn root names)
    (hexpands : s.Expands fs root fs') :
    s.files fs root = s.keeping.files fs' root ∧
    (∀ top es, fs.stat root = .ok (top, .dir es) →
      ∀ names target, ¬ s.keeping.Finds fs' root names (.link target)) ∧
    ((∃ files, s.files fs root = .ok files) ↔
      (∃ top es, fs.stat root = .ok (top, .dir es)) ∧ ¬ ∃ names, s.TooLong fs root names) ∧
    ∀ files, s.files fs root = .ok files →
      ∃ kept, s.keeping.files fs root = .ok kept ∧ kept.Sublist files :=
  have hclear : s.Clear fs root := ⟨hmode, hlinks⟩
  ⟨files_expanded fs hclear hexpands, fun _ _ hroot => hclear.no_link_found hexpands hroot,
    files_isOk_iff_tooLong fs hclear, fun _ hfiles => sublist_files hmode fs hfiles⟩

/-- A directory with a link to another one and a hidden link to it; in the other one a link back to a file. -/
def linksBothWays : WellFormedFileSystem where
  root := .dir [
    (Utf8.encode "barn", .dir [
      (Utf8.encode "saw.rs", .file (Utf8.encode "saw!") none),
      (Utf8.encode "axe.rs", .link (Utf8.encode "../yard/axe.rs")),
      (Utf8.encode "pit.rs", .pipe)]),
    (Utf8.encode "yard", .dir [
      (Utf8.encode "hay", .link (Utf8.encode "../barn")),
      (Utf8.encode ".tip", .link (Utf8.encode "/barn")),
      (Utf8.encode "axe.rs", .file (Utf8.encode "axe") none)])]
  cwd := []
  wellFormed := by decide +kernel

def searchedRoot : Path :=
  Utf8.encode "yard"

def overLinks : Scan := ⟨⟨"rs", false, none⟩, true, none⟩

theorem files_over_links_bothWays :
    overLinks.followLinks = true ∧
    (∀ names target, overLinks.Finds linksBothWays searchedRoot names (.link target) →
      linksBothWays.LeadsOn searchedRoot names) ∧
    ∃ plain, overLinks.Expands linksBothWays searchedRoot plain ∧
    (∀ names target, ¬ overLinks.keeping.Finds plain searchedRoot names (.link target)) ∧
    ∃ files kept, overLinks.files linksBothWays searchedRoot = .ok files ∧
      overLinks.keeping.files plain searchedRoot = .ok files ∧
      overLinks.keeping.files linksBothWays searchedRoot = .ok kept ∧ kept.Sublist files ∧
      files.map (fun f => (f.relative, f.size)) = [(Utf8.encode "axe.rs", 3),
        (Utf8.encode "hay/axe.rs", 3), (Utf8.encode "hay/saw.rs", 4)] ∧
      kept.map (fun f => (f.relative, f.size)) = [(Utf8.encode "axe.rs", 3)] := by
  have hlist : (overLinks.files linksBothWays searchedRoot).toOption.map
      (·.map fun f => (f.relative, f.size)) = some [(Utf8.encode "axe.rs", 3),
        (Utf8.encode "hay/axe.rs", 3), (Utf8.encode "hay/saw.rs", 4)] := by decide +kernel
  have hkept : (overLinks.keeping.files linksBothWays searchedRoot).toOption.map
      (·.map fun f => (f.relative, f.size)) = some [(Utf8.encode "axe.rs", 3)] := by decide +kernel
  have hroot : ∃ es, linksBothWays.stat searchedRoot = .ok ([searchedRoot], .dir es) := ⟨_, rfl⟩
  have hdirect : linksBothWays.resolveWithin .follow 0 (linksBothWays.start searchedRoot)
      searchedRoot.split = .ok (.found [searchedRoot]) := rfl
  obtain ⟨es, hroot⟩ := hroot
  cases hrun : overLinks.files linksBothWays searchedRoot with
  | error f =>
      rw [hrun] at hlist
      cases hlist
  | ok files =>
      have hlinks := (clear_of_files rfl linksBothWays hrun).leadsOn
      have hexpands : overLinks.Expands linksBothWays searchedRoot
          (linksBothWays.put [searchedRoot]
            (overLinks.expanded linksBothWays searchedRoot [searchedRoot] (.dir es))) :=
        expands_put hroot hdirect
      obtain ⟨hsame, hnone, -, hsub⟩ := files_over_links rfl hlinks hexpands
      obtain ⟨kept, hkeep, hsublist⟩ := hsub files hrun
      rw [hrun] at hlist hsame
      rw [hkeep] at hkept
      exact ⟨rfl, hlinks, _, hexpands, hnone _ _ hroot, files, kept, rfl, hsame.symm, hkeep,
        hsublist, Option.some.inj hlist, Option.some.inj hkept⟩

/-- With no link to follow a search may fail, too. -/
theorem files_fail_over_no_link :
    singleFile.stat nearPathLimit = .ok ([], singleFile.root) ∧
    ¬ ((∀ names target, overLinks.Finds singleFile nearPathLimit names (.link target) →
      singleFile.LeadsOn nearPathLimit names) →
        ∃ files, overLinks.files singleFile nearPathLimit = .ok files) := by
  have hfail : (overLinks.files singleFile nearPathLimit).isOk = false := by decide +kernel
  refine ⟨stat_nearPathLimit, fun h => ?_⟩
  obtain ⟨files, hfiles⟩ := h fun names target hfinds => absurd hfinds.lists singleFile_noLink
  simp [hfiles, Except.isOk, Except.toBool] at hfail

end Collate.Scan
