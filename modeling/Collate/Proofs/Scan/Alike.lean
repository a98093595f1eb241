import Collate.Proofs.FileTree.Hidden
import Collate.Proofs.Scan.Exact

/-!
Trees that look the same to a search: it goes through the same directories, and meets entries of the same
kinds whose paths have the same ends. The results differ at most by what stops the search at an entry whose
name it does not admit.
-/
namespace Collate.Scan

/-- The search goes on below the directory that these names lead to. -/
structure Goes (fs : FileSystem) (s : Scan) (root : Path) (names : List Name) : Prop where
  admitted : ∀ n ∈ names, Name.isProper n ∧ s.selection.allowsName n
  near : ∀ depth, s.maxDepth = some depth → names.length < depth
  entered : ∀ front back, names = front ++ back → front ≠ [] → s.Enters fs (root.below front)

section Goes

variable {fs : FileSystem} {s : Scan} {root : Path} {names : List Name} {n : Name}

theorem Goes.initial {front : List Name} (h : s.Goes fs root names) (hfront : front <+: names) :
    s.Goes fs root front where
  admitted n hn := h.admitted n (hfront.subset hn)
  near depth hdepth := Nat.lt_of_le_of_lt hfront.length_le (h.near depth hdepth)
  entered a b hab ha := by
    obtain ⟨rest, rfl⟩ := hfront
    exact h.entered a (b ++ rest) (by simp [hab]) ha

theorem goes_nil : s.Goes fs root [] ↔ ∀ depth, s.maxDepth = some depth → 0 < depth := by
  constructor
  · exact fun h => h.near
  · intro hnear
    refine ⟨by simp, hnear, fun front back h hfront => ?_⟩
    exact absurd (List.append_eq_nil_iff.mp h.symm).1 hfront

theorem goes_snoc : s.Goes fs root (names ++ [n]) ↔
    s.Goes fs root names ∧ (Name.isProper n ∧ s.selection.allowsName n) ∧
      (∀ depth, s.maxDepth = some depth → names.length + 1 < depth) ∧
      s.Enters fs (root.below (names ++ [n])) := by
  constructor
  · intro h
    refine ⟨h.initial (List.prefix_append _ _), h.admitted n (by simp), ?_, ?_⟩
    · simpa using h.near
    · exact h.entered (names ++ [n]) [] (by simp) (by simp)
  · rintro ⟨h, hn, hnear, henters⟩
    refine ⟨?_, by simpa using hnear, fun front back hnames hfront => ?_⟩
    · simpa [or_imp, forall_and, hn] using h.admitted
    · obtain rfl | ⟨rest, m, rfl⟩ := List.eq_nil_or_concat back
      · rw [List.append_nil] at hnames
        rwa [← hnames]
      · have hsplit : names ++ [n] = (front ++ rest) ++ [m] := by simpa using hnames
        exact h.entered front rest (List.append_singleton_inj.mp hsplit).1 hfront

theorem meets_snoc {x : Node} : s.Meets fs root (names ++ [n]) x ↔
    s.Goes fs root names ∧ (Name.isProper n ∧ s.selection.allowsName n) ∧
      fs.Lists root (names ++ [n]) x := by
  constructor
  · intro h
    refine ⟨⟨fun m hm => h.admitted m (List.mem_append_left _ hm), h.finds.near_parent, ?_⟩,
      h.admitted n (by simp), h.lists⟩
    rintro front back rfl hfront
    exact h.inside front (back ++ [n]) (List.append_assoc ..) hfront (by simp)
  · rintro ⟨h, hn, hlists⟩
    refine ⟨hlists, fun depth hdepth => ?_, ?_, ?_⟩
    · simpa using Nat.succ_le_of_lt (h.near depth hdepth)
    · simpa [or_imp, forall_and, hn] using h.admitted
    · intro front back hnames hfront hback
      obtain rfl | ⟨rest, m, rfl⟩ := List.eq_nil_or_concat back
      · exact absurd rfl hback
      · have hsplit : names ++ [n] = (front ++ rest) ++ [m] := by simpa using hnames
        exact h.entered front rest (List.append_singleton_inj.mp hsplit).1 hfront

theorem Meets.goes {x : Node} (h : s.Meets fs root names x) :
    ∃ front n, names = front ++ [n] ∧ s.Goes fs root front := by
  obtain ⟨front, n, loc, es, rfl, -⟩ := h.lists
  exact ⟨front, n, rfl, (meets_snoc.mp h).1⟩

theorem lists_snoc {front : List Name} {n : Name} {loc : Location} {inner : Entries}
    (hstat : fs.stat (root.below front) = .ok (loc, .dir inner)) {x : Node} :
    fs.Lists root (front ++ [n]) x ↔ fs.get? (loc ++ [n]) = some x := by
  rw [FileSystem.get?_snoc (FileSystem.stat_eq_ok_iff.mp hstat).2]
  constructor
  · rintro ⟨front', n', loc', es', hnames, hstat', hget⟩
    obtain ⟨rfl, rfl⟩ := List.append_singleton_inj.mp hnames
    cases hstat.symm.trans hstat'
    exact hget
  · exact fun hget => ⟨front, n, loc, inner, rfl, hstat, hget⟩

theorem enters_iff {p : Path} :
    s.Enters fs p ↔ ∃ loc, fs.endOf s.ending p = .ok (loc, .dir []) := by
  simp only [Enters, FileSystem.endOf_eq_ok, Node.shell_eq_dir]
  constructor
  · rintro ⟨loc, es, h⟩
    exact ⟨loc, .dir es, h, es, rfl⟩
  · rintro ⟨loc, x, h, es, rfl⟩
    exact ⟨loc, es, h⟩

end Goes

/-- To the search the trees look the same, but for entries that it does not meet. -/
structure Alike (fs fs' : FileSystem) (s : Scan) (root : Path) : Prop where
  goes : ∀ names, s.Goes fs' root names ↔ s.Goes fs root names
  meets : ∀ names y, (∃ x, s.Meets fs' root names x ∧ x.shell = y) ↔
    ∃ x, s.Meets fs root names x ∧ x.shell = y
  resolve : ∀ names, s.Goes fs root names →
    fs'.resolve .follow (root.below names) = fs.resolve .follow (root.below names)
  endOf : ∀ names x, s.Meets fs root names x →
    fs'.endOf .follow (root.below names) = fs.endOf .follow (root.below names)

section Alike

variable {fs fs' : FileSystem} {s : Scan} {root : Path} {names : List Name} {f : Failure}

theorem Alike.symm (h : s.Alike fs fs' root) : s.Alike fs' fs root where
  goes names := (h.goes names).symm
  meets names y := (h.meets names y).symm
  resolve names hgoes := (h.resolve names ((h.goes names).mp hgoes)).symm
  endOf names x hmeets := by
    obtain ⟨y, hy, -⟩ := (h.meets names x.shell).mp ⟨x, hmeets, rfl⟩
    exact (h.endOf names y hy).symm

variable (h : s.Alike fs fs' root)
include h

theorem Alike.meets_dir {es : Entries} (hmeets : s.Meets fs root names (.dir es)) :
    ∃ es', s.Meets fs' root names (.dir es') := by
  obtain ⟨x, hx, hshell⟩ := (h.meets names (.dir [])).mpr ⟨_, hmeets, rfl⟩
  obtain ⟨es', rfl⟩ := Node.shell_eq_dir.mp hshell
  exact ⟨es', hx⟩

theorem Alike.meets_link {target : Path} (hmeets : s.Meets fs root names (.link target)) :
    s.Meets fs' root names (.link target) := by
  obtain ⟨x, hx, hshell⟩ := (h.meets names (.link target)).mpr ⟨_, hmeets, rfl⟩
  rwa [← Node.shell_eq_link.mp hshell]

theorem Alike.meets_file {data : Bytes} {room : Option Nat}
    (hmeets : s.Meets fs root names (.file data room)) : s.Meets fs' root names (.file data room) := by
  obtain ⟨x, hx, hshell⟩ := (h.meets names (.file data room)).mpr ⟨_, hmeets, rfl⟩
  rwa [← Node.shell_eq_file.mp hshell]

theorem Alike.stat_error {x : Node} (hmeets : s.Meets fs root names x) {fault : IoFault}
    (hstat : fs.stat (root.below names) = .error fault) :
    fs'.stat (root.below names) = .error fault :=
  FileSystem.endOf_eq_error.mp ((h.endOf names x hmeets).trans (FileSystem.endOf_eq_error.mpr hstat))

theorem Alike.stat_shell {x y : Node} (hmeets : s.Meets fs root names x) {loc : Location}
    (hstat : fs.stat (root.below names) = .ok (loc, y)) :
    ∃ z, fs'.stat (root.below names) = .ok (loc, z) ∧ z.shell = y.shell :=
  FileSystem.endOf_eq_ok.mp
    ((h.endOf names x hmeets).trans (FileSystem.endOf_eq_ok.mpr ⟨y, hstat, rfl⟩))

theorem Alike.encloses (hgoes : s.Goes fs root names) {front : List Name} {loc : Location}
    (hfront : fs.Encloses root names front loc) : fs'.Encloses root names front loc where
  initial := hfront.initial
  leads := (h.resolve front (hgoes.initial hfront.initial)).trans hfront.leads
  innermost inner ha hb hne := by
    rw [h.resolve inner (hgoes.initial hb)]
    exact hfront.innermost inner ha hb hne

theorem Alike.stops {x : Node} (hmeets : s.Meets fs root names x) (hstops : s.Stops fs root names f) :
    s.Stops fs' root names f := by
  cases hstops with
  | file hfile hmatch hlong => exact .file (h.meets_file hfile) hmatch hlong
  | link hmode hlink hmatch hstat =>
      exact .link hmode (h.meets_link hlink) hmatch (h.stat_error hlink hstat)
  | fault hfault =>
      refine .fault ?_
      cases hfault with
      | deep hdir hnear hlong =>
          obtain ⟨es', hdir'⟩ := h.meets_dir hdir
          exact .deep hdir' hnear hlong
      | broken hmode hfinds hstat =>
          obtain rfl := hmeets.lists.unique hfinds.lists
          exact .broken hmode (h.meets_link hmeets).finds (h.stat_error hmeets hstat)
      | loop hmode hfinds hstat hfront =>
          obtain rfl := hmeets.lists.unique hfinds.lists
          obtain ⟨z, hstat', hshell⟩ := h.stat_shell hmeets hstat
          obtain ⟨es', rfl⟩ := Node.shell_eq_dir.mp hshell
          exact .loop hmode (h.meets_link hmeets).finds hstat' (h.encloses (meets_snoc.mp hmeets).1 hfront)

theorem Alike.listed {data : Bytes} (hlisted : s.Listed fs root names data) :
    s.Listed fs' root names data := by
  obtain ⟨⟨x, hx⟩, hmatch, loc, room, hstat⟩ := hlisted
  obtain ⟨y, hy, -⟩ := (h.meets names x.shell).mpr ⟨x, hx, rfl⟩
  obtain ⟨z, hz, hshell⟩ := h.stat_shell hx hstat
  rw [Node.shell_eq_file.mp hshell] at hz
  exact ⟨⟨y, hy⟩, hmatch, loc, room, hz⟩

end Alike

/-- The search stops first at an entry that it has not met: what a link leads to is looked at before its
name is. -/
structure UnmetStop (fs : FileSystem) (s : Scan) (root : Path) (names : List Name) (f : Failure) :
    Prop extends FirstStop fs s root names f where
  unmet : ∀ x, ¬ s.Meets fs root names x

theorem UnmetStop.link {fs : FileSystem} {s : Scan} {root : Path} {names : List Name} {f : Failure}
    (h : s.UnmetStop fs root names f) :
    s.followLinks = true ∧ ∃ target, s.Finds fs root names (.link target) := by
  cases h.stops with
  | file hmeets _ _ | link _ hmeets _ _ => exact absurd hmeets (h.unmet _)
  | fault hfault =>
      cases hfault with
      | deep hmeets _ _ => exact absurd hmeets (h.unmet _)
      | broken hmode hfinds _ | loop hmode hfinds _ _ => exact ⟨hmode, _, hfinds⟩

section Outcome

variable {fs fs' : WellFormedFileSystem} {s : Scan} {root : Path} {top loc : Location}
  {es es' : Entries} (hroot' : fs'.stat root = .ok (loc, .dir es'))
include hroot'

/-- If alike trees have the same stops at entries that are not met, what stops the search first in one does
so in the other. -/
theorem Alike.firstStop (halike : s.Alike fs fs' root)
    (hsame : ∀ names f, s.UnmetStop fs' root names f ↔ s.UnmetStop fs root names f)
    {names : List Name} {f : Failure} (h : s.FirstStop fs root names f) :
    s.FirstStop fs' root names f := by
  by_cases hmeets : ∃ x, s.Meets fs root names x
  case neg => exact ((hsame names f).mpr ⟨h, fun x hx => hmeets ⟨x, hx⟩⟩).toFirstStop
  obtain ⟨x, hx⟩ := hmeets
  refine ⟨halike.stops hx h.stops, fun names' f' hstops' => ?_⟩
  obtain ⟨first, g, hfirst⟩ := exists_firstStop hroot' hstops'
  have hle : names ≤ first := by
    by_cases hmeets' : ∃ y, s.Meets fs' root first y
    · obtain ⟨y, hy⟩ := hmeets'
      exact h.first first g (halike.symm.stops hy hfirst.stops)
    · exact h.first first g ((hsame first g).mp ⟨hfirst, fun y hy => hmeets' ⟨y, hy⟩⟩).stops
  exact List.le_trans hle (hfirst.first names' f' hstops')

variable (hroot : fs.stat root = .ok (top, .dir es))
include hroot

theorem FirstStop.of_files_eq (hsame : s.files fs' root = s.files fs root) {names : List Name}
    {f : Failure} (h : s.FirstStop fs root names f) : s.FirstStop fs' root names f := by
  have herror := hsame.trans ((files_eq_error_iff hroot).mpr ⟨names, h⟩)
  obtain ⟨names', h'⟩ := (files_eq_error_iff hroot').mp herror
  rwa [h.stops.names_eq h'.stops]

variable (halike : s.Alike fs fs' root)
include halike

theorem Alike.files_eq (hfirst : ∀ names f, s.FirstStop fs' root names f ↔ s.FirstStop fs root names f) :
    s.files fs' root = s.files fs root := by
  have herror (f : Failure) : s.files fs' root = .error f ↔ s.files fs root = .error f := by
    rw [files_eq_error_iff hroot', files_eq_error_iff hroot]
    exact exists_congr fun names => hfirst names f
  cases hrun : s.files fs root with
  | error f => exact (herror f).mpr hrun
  | ok files =>
      cases hrun' : s.files fs' root with
      | error f => cases hrun.symm.trans ((herror f).mp hrun')
      | ok files' =>
          congr 1
          refine files_eq_of_mem_iff hrun' hrun fun f => ?_
          rw [mem_files_iff hrun', mem_files_iff hrun]
          constructor
          · exact fun ⟨names, data, hlisted, hf⟩ => ⟨names, data, halike.symm.listed hlisted, hf⟩
          · exact fun ⟨names, data, hlisted, hf⟩ => ⟨names, data, halike.listed hlisted, hf⟩

/-- Alike trees give the same result exactly if they have the same stops at entries that are not met. -/
theorem Alike.files_eq_iff : s.files fs' root = s.files fs root ↔
    ∀ names f, s.UnmetStop fs' root names f ↔ s.UnmetStop fs root names f := by
  have hmeets (names : List Name) :
      (∀ x, ¬ s.Meets fs' root names x) ↔ ∀ x, ¬ s.Meets fs root names x := by
    constructor
    · intro hno x hx
      obtain ⟨y, hy, -⟩ := (halike.meets names x.shell).mpr ⟨x, hx, rfl⟩
      exact hno y hy
    · intro hno x hx
      obtain ⟨y, hy, -⟩ := (halike.meets names x.shell).mp ⟨x, hx, rfl⟩
      exact hno y hy
  constructor
  · intro hsame names f
    constructor
    · rintro ⟨hfirst, hunmet⟩
      exact ⟨hfirst.of_files_eq hroot hroot' hsame.symm, (hmeets names).mp hunmet⟩
    · rintro ⟨hfirst, hunmet⟩
      exact ⟨hfirst.of_files_eq hroot' hroot hsame, (hmeets names).mpr hunmet⟩
  · intro hsame
    refine halike.files_eq hroot' hroot fun names f => ⟨?_, ?_⟩
    · exact halike.symm.firstStop hroot fun a g => (hsame a g).symm
    · exact halike.firstStop hroot' hsame

end Outcome

end Collate.Scan
