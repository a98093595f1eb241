import Collate.Proofs.FileTree.Links
import Collate.Proofs.Scan.Alike

/-!
The influence of hidden entries. A search that leaves them out does the same in the tree without them, but
for one thing: where links are followed, a hidden link that leads nowhere or back stops it.
-/
namespace Collate.Scan

/-- Nothing that the search resolves, the root's own path and the links that it meets, is looked up through a
hidden entry below the root. -/
structure KeepsOut (fs : FileSystem) (s : Scan) (root : Path) : Prop where
  ofRoot : ∀ top es, fs.stat root = .ok (top, .dir es) → fs.AvoidsHidden top root
  ofLinks : ∀ top es, fs.stat root = .ok (top, .dir es) →
    ∀ names target, s.Meets fs root names (.link target) → fs.AvoidsHidden top (root.below names)

/-- The search stops first at a hidden entry. -/
structure HiddenStop (fs : FileSystem) (s : Scan) (root : Path) (names : List Name) (f : Failure) :
    Prop extends FirstStop fs s root names f where
  hidden : ∃ front n, names = front ++ [n] ∧ Name.isHidden n

theorem allowsName_iff {s : Scan} (hhidden : s.selection.includeHidden = false) {n : Name} :
    s.selection.allowsName n ↔ Name.isHidden n = false := by
  simp [Selection.allowsName, hhidden, Name.isHidden]

/-- To a search that leaves out hidden entries, they are all that it looks at without meeting it. -/
theorem hiddenStop_iff {fs : FileSystem} {s : Scan} (hhidden : s.selection.includeHidden = false)
    {root : Path} {names : List Name} {f : Failure} :
    s.HiddenStop fs root names f ↔ s.UnmetStop fs root names f := by
  constructor
  · rintro ⟨hfirst, front, n, rfl, hn⟩
    refine ⟨hfirst, fun x hmeets => ?_⟩
    have hvisible := (allowsName_iff hhidden).mp (hmeets.admitted n (by simp)).2
    exact Bool.noConfusion (hvisible.symm.trans hn)
  · rintro ⟨hfirst, hunmet⟩
    obtain ⟨x, hfinds, -⟩ := hfirst.stops.cause
    obtain ⟨front, n, loc, es, rfl, -⟩ := hfinds.lists
    refine ⟨hfirst, front, n, rfl, Decidable.byContradiction fun hn => hunmet x ?_⟩
    refine hfinds.meets fun m hm => ?_
    rcases List.mem_append.mp hm with hm | hm
    · exact hfinds.allowed m (by simpa using hm)
    · obtain rfl := List.mem_singleton.mp hm
      exact (allowsName_iff hhidden).mpr (Bool.eq_false_iff.mpr hn)

section Pruned

variable {fs : FileSystem} {s : Scan} {root : Path} {top : Location} {es : Entries}
  (hroot : fs.stat root = .ok (top, .dir es)) (hhidden : s.selection.includeHidden = false)
  (hout : s.KeepsOut fs root)
include hhidden hout hroot

private theorem avoids_snoc {names : List Name} {n : Name} {loc : Location} {inner : Entries}
    (hgoes : s.Goes fs root names) (havoids : fs.AvoidsHidden top (root.below names))
    (hstat : fs.stat (root.below names) = .ok (loc, .dir inner))
    (hn : Name.isProper n ∧ s.selection.allowsName n) :
    fs.AvoidsHidden top (root.below (names ++ [n])) := by
  have hlinks := hout.ofLinks top es hroot (names ++ [n])
  rw [Path.below_snoc] at hlinks ⊢
  refine havoids.entry (FileSystem.stat_eq_ok_iff.mp hstat).1 hn.1
    ((allowsName_iff hhidden).mp hn.2) fun target htarget => hlinks target ?_
  exact meets_snoc.mpr ⟨hgoes, hn, (lists_snoc hstat).mpr htarget⟩

theorem Goes.avoids {names : List Name} (hgoes : s.Goes fs root names) :
    fs.AvoidsHidden top (root.below names) ∧
      ∃ loc inner, fs.stat (root.below names) = .ok (loc, .dir inner) := by
  induction names using List.reverseRecOn with
  | nil => exact ⟨hout.ofRoot top es hroot, top, es, hroot⟩
  | append_singleton names n ih =>
      obtain ⟨hgoes', hn, -, loc, inner, hfind⟩ := goes_snoc.mp hgoes
      obtain ⟨havoids, loc', inner', hstat⟩ := ih hgoes'
      refine ⟨avoids_snoc hroot hhidden hout hgoes' havoids hstat hn, loc, inner, ?_⟩
      exact FileSystem.stat_of_find s.ending_ne_create hfind (by simp)

theorem Goes.avoids_entry {names : List Name} (hgoes : s.Goes fs root names) {n : Name}
    (hn : Name.isProper n ∧ s.selection.allowsName n) :
    fs.AvoidsHidden top (root.below (names ++ [n])) := by
  obtain ⟨havoids, loc, inner, hstat⟩ := hgoes.avoids hroot hhidden hout
  exact avoids_snoc hroot hhidden hout hgoes havoids hstat hn

theorem goes_pruned (names : List Name) :
    s.Goes (fs.pruned root) root names ↔ s.Goes fs root names := by
  induction names using List.reverseRecOn with
  | nil => rw [goes_nil, goes_nil]
  | append_singleton names n ih =>
      rw [goes_snoc, goes_snoc, ih]
      refine and_congr_right fun hgoes => and_congr_right fun hn => and_congr_right fun _ => ?_
      have hentry := hgoes.avoids_entry hroot hhidden hout hn
      rw [enters_iff, enters_iff, hentry.endOf_pruned hroot s.ending_ne_create]

theorem meets_pruned (names : List Name) (y : Node) :
    (∃ x, s.Meets (fs.pruned root) root names x ∧ x.shell = y) ↔
      ∃ x, s.Meets fs root names x ∧ x.shell = y := by
  obtain rfl | ⟨front, n, rfl⟩ := List.eq_nil_or_concat names
  · have hno (fs : FileSystem) (x : Node) : ¬ s.Meets fs root [] x := by
      intro h
      obtain ⟨front, n, hnames, -⟩ := h.goes
      simp at hnames
    simp [hno]
  · simp only [List.concat_eq_append, meets_snoc, goes_pruned hroot hhidden hout, and_assoc,
      exists_and_left]
    refine and_congr_right fun hgoes => and_congr_right fun _ => and_congr_right fun hallowed => ?_
    obtain ⟨havoids, loc, inner, hstat⟩ := hgoes.avoids hroot hhidden hout
    obtain ⟨inner', hstat'⟩ := havoids.stat_pruned hroot hstat
    have hpassed := FileSystem.passes_of_resolve (by simp) (FileSystem.stat_eq_ok_iff.mp hstat).1
    have hopen : ¬ fs.HiddenBelow top (loc ++ [n]) := fun hbelow =>
      havoids loc hpassed (hbelow.parent ((allowsName_iff hhidden).mp hallowed))
    have hkept := FileSystem.shell_get?_pruned hroot hopen
    simp only [lists_snoc hstat', lists_snoc hstat, ← Option.map_eq_some_iff, hkept]

theorem alike_pruned : s.Alike fs (fs.pruned root) root where
  goes := goes_pruned hroot hhidden hout
  meets := meets_pruned hroot hhidden hout
  resolve _ hgoes := (hgoes.avoids hroot hhidden hout).1.resolve_pruned hroot .follow
  endOf names x hmeets := by
    obtain ⟨front, n, rfl, hgoes⟩ := hmeets.goes
    have hentry := hgoes.avoids_entry hroot hhidden hout (hmeets.admitted n (by simp))
    exact hentry.endOf_pruned hroot (by simp)

end Pruned

/-- Taking away all hidden entries below the root makes no difference to a search that leaves them out and
resolves nothing through them, unless a hidden entry stops it first in one of the two trees: a link that is
followed, and that leads nowhere or back. -/
theorem files_pruned_iff {fs : WellFormedFileSystem} {s : Scan}
    (hhidden : s.selection.includeHidden = false) {root : Path} (hout : s.KeepsOut fs root) :
    (s.files (fs.pruned root) root = s.files fs root ↔
      ∀ names f, s.HiddenStop (fs.pruned root) root names f ↔ s.HiddenStop fs root names f) ∧
    (∀ names f, s.HiddenStop fs root names f →
      s.followLinks = true ∧ (∃ target, s.Finds fs root names (.link target)) ∧ f.exitCode = 3 ∧
      ∀ top es, fs.stat root = .ok (top, .dir es) → s.files fs root = .error f) ∧
    (s.followLinks = false → s.files (fs.pruned root) root = s.files fs root) := by
  have hiff : s.files (fs.pruned root) root = s.files fs root ↔
      ∀ names f, s.HiddenStop (fs.pruned root) root names f ↔ s.HiddenStop fs root names f := by
    by_cases hdir : ∃ top es, fs.stat root = .ok (top, .dir es)
    · obtain ⟨top, es, hroot⟩ := hdir
      obtain ⟨es', hroot'⟩ := (hout.ofRoot top es hroot).stat_pruned hroot hroot
      simp only [hiddenStop_iff hhidden]
      exact Alike.files_eq_iff hroot' hroot
        (alike_pruned hroot hhidden hout)
    · have hsame : (fs.pruned root).toFileSystem = fs.toFileSystem :=
        FileSystem.pruned_of_other fun top es hroot => hdir ⟨top, es, hroot⟩
      rw [hsame]
      simp
  refine ⟨hiff, fun names f hstop => ?_, fun hmode => hiff.mpr fun names f => ?_⟩
  · obtain ⟨hmode, hlink⟩ := ((hiddenStop_iff hhidden).mp hstop).link
    exact ⟨hmode, hlink, hstop.stops.exitCode, fun top es hroot =>
      (files_eq_error_iff hroot).mpr ⟨names, hstop.toFirstStop⟩⟩
  · have hnone (tree : FileSystem) : ¬ s.HiddenStop tree root names f := fun hstop =>
      Bool.noConfusion (hmode.symm.trans ((hiddenStop_iff hhidden).mp hstop).link.1)
    exact iff_of_false (hnone _) (hnone _)

/-- A file, a link to it, and a hidden link to nothing. -/
def hiddenDanglingLink : WellFormedFileSystem where
  root := .dir [
    (Utf8.encode "a.rs", .file (Utf8.encode "A") none),
    (Utf8.encode "b.rs", .link (Utf8.encode "a.rs")),
    (Utf8.encode ".ghost", .link (Utf8.encode "nowhere"))]
  cwd := []
  wellFormed := rfl

def followingOneLevel : Scan :=
  ⟨⟨"rs", false, none⟩, true, some 1⟩

theorem hiddenDanglingLink_link {names : List Name} {target : Path}
    (h : followingOneLevel.Meets hiddenDanglingLink Path.dot names (.link target)) :
    names = [Utf8.encode "b.rs"] := by
  obtain ⟨front, n, rfl, -⟩ := h.goes
  obtain rfl : front = [] := by simpa using h.near 1 rfl
  have hroot : hiddenDanglingLink.stat (Path.below Path.dot []) =
      .ok ([], hiddenDanglingLink.root) := rfl
  have hget := (lists_snoc hroot).mp h.lists
  have hallowed := (h.admitted n (by simp)).2
  simp only [List.nil_append, FileSystem.get?, hiddenDanglingLink, Node.get?, Entries.get?_cons]
    at hget
  split at hget
  · simp at hget
  · split at hget
    · rename_i hn
      simp [hn]
    · split at hget
      · rename_i hn
        rw [hn] at hallowed
        exact absurd hallowed (by decide)
      · simp [Entries.get?] at hget

theorem hiddenDanglingLink_keepsOut : followingOneLevel.KeepsOut hiddenDanglingLink Path.dot := by
  have hvisible {top loc : Location} (h : ∀ n ∈ loc, Name.isHidden n = false) :
      ¬ hiddenDanglingLink.HiddenBelow top loc := by
    intro hbelow
    obtain ⟨n, hn, hhidden⟩ := hbelow.exists_hidden
    exact Bool.noConfusion ((h n hn).symm.trans hhidden)
  have hstep {n : Name} (hn : Name.isProper n) := FileSystem.isStep_of_isProper hn .follow
  refine ⟨fun top es _ loc hloc => ?_, fun top es _ names target hmeets loc hloc => ?_⟩
  · obtain rfl : loc = [] := hloc.of_skipped (.inr rfl)
    exact hvisible (by simp)
  · rw [hiddenDanglingLink_link hmeets] at hloc
    have hparts : hiddenDanglingLink.PassesFrom FileSystem.linkLimit []
        ([Path.dot] ++ [Utf8.encode "b.rs"]) loc := hloc
    rcases hparts.of_append with hfirst | ⟨left, mid, hmid, hlast⟩
    · obtain rfl : loc = [] := hfirst.of_skipped (.inr rfl)
      exact hvisible (by simp)
    · have hdot : hiddenDanglingLink.resolveWithin .follow FileSystem.linkLimit [] [Path.dot] =
          .ok (.found []) := rfl
      obtain rfl : mid = [] := Place.found.inj (Except.ok.inj
        ((FileSystem.resolveWithin_eq_ok_iff.mpr hmid).symm.trans hdot))
      rcases hlast.of_single (hstep (by decide)) with rfl | rfl | ⟨left', target', hlink, htarget⟩
      · exact hvisible (by simp)
      · exact hvisible (by decide)
      · obtain rfl : target' = Utf8.encode "a.rs" := by
          have hkind : hiddenDanglingLink.kind? [Utf8.encode "b.rs"] =
              some (.link (Utf8.encode "a.rs")) := rfl
          exact (Node.Kind.link.inj (Option.some.inj (hkind.symm.trans hlink))).symm
        have hfile : hiddenDanglingLink.PassesFrom left' [] [Utf8.encode "a.rs"] loc := htarget
        rcases hfile.of_single (hstep (by decide)) with rfl | rfl | ⟨-, target, hkind, -⟩
        · exact hvisible (by simp)
        · exact hvisible (by decide)
        · cases hkind

theorem files_pruned_iff_hiddenDanglingLink :
    followingOneLevel.selection.includeHidden = false ∧
    followingOneLevel.KeepsOut hiddenDanglingLink Path.dot ∧
    ∃ names f, followingOneLevel.HiddenStop hiddenDanglingLink Path.dot names f ∧
      ¬ followingOneLevel.HiddenStop (hiddenDanglingLink.pruned Path.dot) Path.dot names f ∧
      (∃ target, followingOneLevel.Finds hiddenDanglingLink Path.dot names (.link target)) ∧
      f.exitCode = 3 ∧
      followingOneLevel.files hiddenDanglingLink Path.dot = .error f := by
  have hroot : hiddenDanglingLink.stat Path.dot = .ok ([], hiddenDanglingLink.root) := rfl
  have hpruned : (followingOneLevel.files (hiddenDanglingLink.pruned Path.dot) Path.dot).isOk := rfl
  have hfails : (followingOneLevel.files hiddenDanglingLink Path.dot).isOk = false := rfl
  have hdiffer : followingOneLevel.files (hiddenDanglingLink.pruned Path.dot) Path.dot ≠
      followingOneLevel.files hiddenDanglingLink Path.dot := fun hsame => by
    simp [hsame, hfails] at hpruned
  obtain ⟨hiff, hstop, -⟩ :=
    files_pruned_iff (s := followingOneLevel) rfl hiddenDanglingLink_keepsOut
  -- Nothing stops the search in the pruned tree, so a hidden entry stops the one in the tree as it is.
  have hnone names f :
      ¬ followingOneLevel.HiddenStop (hiddenDanglingLink.pruned Path.dot) Path.dot names f := by
    intro h
    obtain ⟨es, hroot'⟩ := (hiddenDanglingLink_keepsOut.ofRoot _ _ hroot).stat_pruned hroot hroot
    rw [(files_eq_error_iff hroot').mpr ⟨names, h.toFirstStop⟩] at hpruned
    cases hpruned
  obtain ⟨names, f, hhidden⟩ : ∃ names f,
      followingOneLevel.HiddenStop hiddenDanglingLink Path.dot names f := by
    refine Classical.byContradiction fun hno => hdiffer (hiff.mpr fun names f => ?_)
    exact iff_of_false (hnone names f) fun h => hno ⟨names, f, h⟩
  obtain ⟨-, hlink, hcode, herror⟩ := hstop names f hhidden
  exact ⟨rfl, hiddenDanglingLink_keepsOut, names, f, hhidden, hnone names f, hlink, hcode,
    herror _ _ hroot⟩

/-- A hidden link to nothing makes a search fail that without it lists all files. -/
theorem hidden_link_has_influence :
    followingOneLevel.selection.includeHidden = false ∧
    followingOneLevel.KeepsOut hiddenDanglingLink Path.dot ∧
    followingOneLevel.files hiddenDanglingLink Path.dot =
      .error (.unreadable (Utf8.encode "./.ghost") (.refused .notFound)) ∧
    followingOneLevel.files (hiddenDanglingLink.pruned Path.dot) Path.dot = .ok
      [⟨Utf8.encode "./a.rs", Utf8.encode "a.rs", 1⟩, ⟨Utf8.encode "./b.rs", Utf8.encode "b.rs", 1⟩] ∧
    ¬ followingOneLevel.files (hiddenDanglingLink.pruned Path.dot) Path.dot =
      followingOneLevel.files hiddenDanglingLink Path.dot := by
  have hfails : followingOneLevel.files hiddenDanglingLink Path.dot =
      .error (.unreadable (Utf8.encode "./.ghost") (.refused .notFound)) := rfl
  have hlists : followingOneLevel.files (hiddenDanglingLink.pruned Path.dot) Path.dot = .ok
      [⟨Utf8.encode "./a.rs", Utf8.encode "a.rs", 1⟩,
        ⟨Utf8.encode "./b.rs", Utf8.encode "b.rs", 1⟩] := rfl
  refine ⟨rfl, hiddenDanglingLink_keepsOut, hfails, hlists, ?_⟩
  rw [hfails, hlists]
  simp

end Collate.Scan
