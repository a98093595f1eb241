import Collate.Proofs.FileTree.Written
import Collate.Proofs.Scan.Exact

/-!
A search in the tree with one file written. As long as the search does not come to that file, it finds what
it found before, whether the file is new or had other contents.
-/
namespace Collate

/-- The location is that of the entry that the names end with. -/
def FileSystem.EntryAt (fs : FileSystem) (root : Path) (names : List Name) (loc : Location) : Prop :=
  ∃ front n dir, names = front ++ [n] ∧ fs.resolve .follow (root.below front) = .ok (.found dir) ∧
    loc = dir ++ [n]

/-- The search comes to the location by these names, as to an entry or to where its path leads. -/
def Scan.Arrives (fs : FileSystem) (s : Scan) (root : Path) (names : List Name)
    (loc : Location) : Prop :=
  (∃ x, s.Meets fs root names x) ∧
    (fs.EntryAt root names loc ∨ fs.resolve .follow (root.below names) = .ok (.found loc))

section Put

variable {fs : FileSystem} {loc : Location} (hloc : fs.root.Writable loc) {data : Bytes}
  {room : Option Nat} {s : Scan} {root : Path} {names : List Name}
include hloc

theorem FileSystem.find_dir_put {ending : Ending} {p : Path} {l : Location} :
    (∃ es, (fs.put loc (.file data room)).find ending p = .ok (l, .dir es)) ↔
      ∃ es, fs.find ending p = .ok (l, .dir es) := by
  constructor
  · rintro ⟨es, hfind⟩
    obtain ⟨hres, hes⟩ := find_eq_ok_iff.mp hfind
    have hl : l ≠ loc := by
      rintro rfl
      cases (get?_put_self fs l (.file data room)).symm.trans hes
    have hkind : fs.kind? l = some .directory := by
      rw [← kind?_put_of_ne hloc data room hl]
      exact kind?_eq_directory.mpr ⟨es, hes⟩
    obtain ⟨before, hbefore⟩ := kind?_eq_directory.mp hkind
    exact ⟨before, find_eq_ok_iff.mpr ⟨resolve_of_put hloc hres hl, hbefore⟩⟩
  · rintro ⟨es, hfind⟩
    obtain ⟨hres, hes⟩ := find_eq_ok_iff.mp hfind
    have hgrows := grows_put hloc data room
    have hkind := hgrows.kind l _ (kind?_eq_directory.mpr ⟨es, hes⟩)
    obtain ⟨after, hafter⟩ := kind?_eq_directory.mp hkind
    exact ⟨after, find_eq_ok_iff.mpr ⟨hgrows.resolve_found hres, hafter⟩⟩

theorem Scan.enters_put {p : Path} :
    s.Enters (fs.put loc (.file data room)) p ↔ s.Enters fs p :=
  exists_congr fun _ => FileSystem.find_dir_put hloc

/-- An entry of the new tree is the written file or was there before, directories with what they listed. -/
theorem FileSystem.lists_of_put {y : Node}
    (h : (fs.put loc (.file data room)).Lists root names y) :
    (fs.put loc (.file data room)).EntryAt root names loc ∧ y = .file data room ∨
      ∃ x, fs.Lists root names x ∧ (x = y ∨ ∃ es es', x = .dir es ∧ y = .dir es') := by
  obtain ⟨front, n, dir, es, rfl, hstat, hget⟩ := h
  obtain ⟨hres, hes⟩ := stat_eq_ok_iff.mp hstat
  have hy : (fs.put loc (.file data room)).get? (dir ++ [n]) = some y := by rw [get?_snoc hes, hget]
  by_cases hl : dir ++ [n] = loc
  · left
    rw [hl, get?_put_self] at hy
    exact ⟨⟨front, n, dir, rfl, hres, hl.symm⟩, (Option.some.inj hy).symm⟩
  · right
    obtain ⟨before, hbefore⟩ := (find_dir_put hloc).mp ⟨es, hstat⟩
    have hlists {x : Node} (hx : fs.get? (dir ++ [n]) = some x) :
        fs.Lists root (front ++ [n]) x := by
      rw [get?_snoc (stat_eq_ok_iff.mp hbefore).2] at hx
      exact ⟨front, n, dir, before, rfl, hbefore, hx⟩
    obtain ⟨inner, inner', hdir, hdir'⟩ | hsame := Node.get?_put_of_ne hloc data room hl
    · exact ⟨_, hlists hdir, .inr ⟨inner, inner', rfl, Option.some.inj (hy.symm.trans hdir')⟩⟩
    · exact ⟨y, hlists (hsame.symm.trans hy), .inl rfl⟩

theorem FileSystem.lists_put {x : Node} (h : fs.Lists root names x) :
    ∃ y, (fs.put loc (.file data room)).Lists root names y := by
  obtain ⟨front, n, dir, es, rfl, hstat, hget⟩ := h
  obtain ⟨hres, hes⟩ := stat_eq_ok_iff.mp hstat
  obtain ⟨after, hafter⟩ : ∃ es', (fs.put loc (.file data room)).stat (root.below front) =
      .ok (dir, .dir es') := (find_dir_put hloc).mpr ⟨es, hstat⟩
  have hkind : fs.kind? (dir ++ [n]) = some x.kind := by simp [kind?, get?_snoc hes, hget]
  have hkind' := (grows_put hloc data room).kind _ _ hkind
  obtain ⟨y, hy, -⟩ := Option.map_eq_some_iff.mp hkind'
  rw [get?_snoc (stat_eq_ok_iff.mp hafter).2] at hy
  exact ⟨y, front, n, dir, after, rfl, hafter, hy⟩

theorem Scan.finds_of_put {y : Node} (h : s.Finds (fs.put loc (.file data room)) root names y) :
    (fs.put loc (.file data room)).EntryAt root names loc ∧ y = .file data room ∨
      ∃ x, s.Finds fs root names x ∧ (x = y ∨ ∃ es es', x = .dir es ∧ y = .dir es') := by
  refine (FileSystem.lists_of_put hloc h.lists).imp_right fun ⟨x, hx, hsame⟩ => ⟨x, ?_, hsame⟩
  refine ⟨hx, h.near, h.proper, h.allowed, fun front back hnames hfront hback => ?_⟩
  exact (enters_put hloc).mp (h.inside front back hnames hfront hback)

theorem Scan.meets_of_put {y : Node} (h : s.Meets (fs.put loc (.file data room)) root names y) :
    (fs.put loc (.file data room)).EntryAt root names loc ∧ y = .file data room ∨
      ∃ x, s.Meets fs root names x ∧ (x = y ∨ ∃ es es', x = .dir es ∧ y = .dir es') :=
  (finds_of_put hloc h.finds).imp_right fun ⟨x, hx, hsame⟩ =>
    ⟨x, hx.meets fun n hn => (h.admitted n hn).2, hsame⟩

theorem Scan.meets_put {x : Node} (h : s.Meets fs root names x) :
    ∃ y, s.Meets (fs.put loc (.file data room)) root names y := by
  obtain ⟨y, hy⟩ := FileSystem.lists_put hloc h.lists
  refine ⟨y, hy, h.near, h.admitted, fun front back hnames hfront hback => ?_⟩
  exact (enters_put hloc).mpr (h.inside front back hnames hfront hback)

theorem FileSystem.stat_error_of_put {p : Path} {fault : IoFault}
    (h : (fs.put loc (.file data room)).stat p = .error fault) : ∃ cause, fs.stat p = .error cause := by
  cases hstat : fs.stat p with
  | error cause => exact ⟨cause, rfl⟩
  | ok end_ =>
      obtain ⟨l, x⟩ := end_
      obtain ⟨hres, hx⟩ := stat_eq_ok_iff.mp hstat
      have hgrows := grows_put hloc data room
      have hkind : fs.kind? l = some x.kind := by simp [kind?, hx]
      obtain ⟨y, hy, -⟩ := Option.map_eq_some_iff.mp (hgrows.kind l _ hkind)
      have hafter := stat_eq_ok_iff.mpr ⟨hgrows.resolve_found hres, hy⟩
      cases h.symm.trans hafter

theorem FileSystem.encloses_of_put {front : List Name} {l : Location} (hl : l ≠ loc)
    (h : (fs.put loc (.file data room)).Encloses root names front l) :
    fs.Encloses root names front l :=
  ⟨h.initial, resolve_of_put hloc h.leads hl, fun inner ha hb hne hres =>
    h.innermost inner ha hb hne ((grows_put hloc data room).resolve_found hres)⟩

theorem Scan.arrives_put_put {l : Location} (after : Bytes) (left : Option Nat)
    (h : s.Arrives (fs.put loc (.file data room)) root names l) :
    s.Arrives (fs.put loc (.file after left)) root names l := by
  have hres (p : Path) : (fs.put loc (.file data room)).resolve .follow p =
      (fs.put loc (.file after left)).resolve .follow p := FileSystem.resolve_put_put hloc ..
  obtain ⟨⟨x, hx⟩, hplace⟩ := h
  have hwritable : (fs.put loc (.file data room)).root.Writable loc :=
    Node.writable_of_file (FileSystem.get?_put_self fs loc (.file data room))
  have hmeets : ∃ y, s.Meets ((fs.put loc (.file data room)).put loc (.file after left)) root names y :=
    meets_put hwritable hx
  rw [FileSystem.put_put] at hmeets
  simp only [FileSystem.EntryAt, hres] at hplace
  exact ⟨hmeets, hplace⟩

namespace Scan

variable (hfree : ∀ names, s.selection.isMatch (root.below names) →
  ¬ s.Arrives (fs.put loc (.file data room)) root names loc)
include hfree

theorem stops_of_put {f : Failure} (h : s.Stops (fs.put loc (.file data room)) root names f) :
    ∃ g, s.Stops fs root names g := by
  cases h with
  | fault hfault =>
      cases hfault with
      | deep hmeets hnear hlong =>
          obtain ⟨-, hfile⟩ | ⟨x, hx, rfl | ⟨es, es', rfl, -⟩⟩ := meets_of_put hloc hmeets
          · cases hfile
          · exact ⟨_, .fault (.deep hx hnear hlong)⟩
          · exact ⟨_, .fault (.deep hx hnear hlong)⟩
      | broken hmode hfinds hstat =>
          obtain ⟨cause, hcause⟩ := FileSystem.stat_error_of_put hloc hstat
          obtain ⟨-, hfile⟩ | ⟨x, hx, rfl | ⟨es, es', -, hdir⟩⟩ := finds_of_put hloc hfinds
          · cases hfile
          · exact ⟨_, .fault (.broken hmode hx hcause)⟩
          · cases hdir
      | @loop dir front n target l es hmode hfinds hstat hfront =>
          obtain ⟨before, hbefore⟩ := (FileSystem.find_dir_put hloc).mp ⟨es, hstat⟩
          have hl : l ≠ loc := by
            rintro rfl
            have hes := (FileSystem.stat_eq_ok_iff.mp hstat).2
            cases (FileSystem.get?_put_self fs l (.file data room)).symm.trans hes
          have hfront' := FileSystem.encloses_of_put hloc hl hfront
          obtain ⟨-, hfile⟩ | ⟨x, hx, rfl | ⟨es, es', -, hdir⟩⟩ := finds_of_put hloc hfinds
          · cases hfile
          · exact ⟨_, .fault (.loop hmode hx hbefore hfront')⟩
          · cases hdir
  | file hmeets hmatch hlong =>
      obtain ⟨hentry, -⟩ | ⟨x, hx, rfl | ⟨es, es', -, hdir⟩⟩ := meets_of_put hloc hmeets
      · exact absurd ⟨⟨_, hmeets⟩, .inl hentry⟩ (hfree names hmatch)
      · exact ⟨_, .file hx hmatch hlong⟩
      · cases hdir
  | link hmode hmeets hmatch hstat =>
      obtain ⟨cause, hcause⟩ := FileSystem.stat_error_of_put hloc hstat
      obtain ⟨-, hfile⟩ | ⟨x, hx, rfl | ⟨es, es', -, hdir⟩⟩ := meets_of_put hloc hmeets
      · cases hfile
      · exact ⟨_, .link hmode hx hmatch hcause⟩
      · cases hdir

/-- The same files belong into the list, with the same contents. -/
theorem listed_put_iff {contents : Bytes} :
    s.Listed (fs.put loc (.file data room)) root names contents ↔
      s.Listed fs root names contents := by
  constructor
  · rintro ⟨⟨y, hy⟩, hmatch, hcontains⟩
    have hother : (fs.put loc (.file data room)).resolve .follow (root.below names) ≠
        .ok (.found loc) := fun hres => hfree names hmatch ⟨⟨y, hy⟩, .inr hres⟩
    refine ⟨?_, hmatch, (FileSystem.contains_put_iff hloc hother).mp hcontains⟩
    obtain ⟨hentry, -⟩ | ⟨x, hx, -⟩ := meets_of_put hloc hy
    · exact absurd ⟨⟨y, hy⟩, .inl hentry⟩ (hfree names hmatch)
    · exact ⟨x, hx⟩
  · rintro ⟨⟨x, hx⟩, hmatch, hcontains⟩
    obtain ⟨y, hy⟩ : ∃ y, s.Meets (fs.put loc (.file data room)) root names y := meets_put hloc hx
    have hother : (fs.put loc (.file data room)).resolve .follow (root.below names) ≠
        .ok (.found loc) := fun hres => hfree names hmatch ⟨⟨y, hy⟩, .inr hres⟩
    exact ⟨⟨y, hy⟩, hmatch, (FileSystem.contains_put_iff hloc hother).mpr hcontains⟩

end Scan

end Put

namespace Scan

/-- A search that does not come to the written file finds what it found before. -/
theorem files_put (fs : WellFormedFileSystem) {loc : Location}
    (hloc : fs.root.Writable loc) (hname : ∀ dir n, loc = dir ++ [n] → Name.isProper n)
    {data : Bytes} {room : Option Nat} {s : Scan} {root : Path}
    (hfree : ∀ names, s.selection.isMatch (root.below names) →
      ¬ s.Arrives (fs.put loc (.file data room)) root names loc)
    {files : List Source} (h : s.files fs root = .ok files) :
    s.files (fs.put loc (.file data room)) root = .ok files := by
  obtain ⟨top, es, hroot⟩ := stat_of_files h
  obtain ⟨es', hroot'⟩ : ∃ es', (fs.putFile hloc hname data room).stat root = .ok (top, .dir es') :=
    (FileSystem.find_dir_put hloc).mpr ⟨es, hroot⟩
  have hgo := (files_isOk_iff_stops hroot).mp ⟨files, h⟩
  have hgo' : ¬ ∃ names f, s.Stops (fs.put loc (.file data room)) root names f := by
    rintro ⟨names, f, hstop⟩
    obtain ⟨g, hg⟩ := stops_of_put hloc hfree hstop
    exact hgo ⟨names, g, hg⟩
  obtain ⟨files', h'⟩ := (files_isOk_iff_stops hroot').mpr hgo'
  obtain rfl : files = files' := by
    refine files_eq_of_mem_iff h h' fun f => ?_
    have hmem : f ∈ files' ↔ ∃ names contents,
        s.Listed (fs.put loc (.file data room)) root names contents ∧
          f = ⟨root.below names, Path.joinNames names, contents.length⟩ := mem_files_iff h'
    rw [mem_files_iff h, hmem]
    simp only [listed_put_iff hloc hfree]
  exact h'

end Scan

end Collate
