import Collate.Proofs.Scan.Exact

/-!
The order of a list of sources is canonical: it is that of the names, whichever way the directories list
their entries. Two trees that differ only in that are the same tree once they are sorted, and a search sees
no more of a tree than its sorted form shows.
-/
namespace Collate

mutual

/-- The same tree, with the entries of its directories in another order. -/
inductive Node.Reordered : Node → Node → Prop where
  | same (x : Node) : Node.Reordered x x
  | dir {es es' : Entries} : Entries.Reordered es es' → Node.Reordered (.dir es) (.dir es')

/-- The same entries in another order, and so in the directories among them. -/
inductive Entries.Reordered : Entries → Entries → Prop where
  | nil : Entries.Reordered [] []
  | cons (n : Name) {x y : Node} {es es' : Entries} :
      Node.Reordered x y → Entries.Reordered es es' →
      Entries.Reordered ((n, x) :: es) ((n, y) :: es')
  | perm {es mid es' : Entries} :
      es.Perm mid → Entries.Reordered mid es' → Entries.Reordered es es'

end

/-- The same file system, with the entries of its directories in another order. -/
structure FileSystem.Reordered (fs fs' : FileSystem) : Prop where
  root : fs.root.Reordered fs'.root
  cwd : fs'.cwd = fs.cwd

namespace Entries

theorem perm_insertByName (n : Name) (x : Node) (es : Entries) :
    (insertByName n x es).Perm ((n, x) :: es) := by
  induction es with
  | nil => exact .refl _
  | cons entry es ih =>
      obtain ⟨m, y⟩ := entry
      simp only [insertByName]
      split
      · exact (ih.cons (m, y)).trans (.swap (n, x) (m, y) es)
      · exact .refl _

theorem perm_sortedEntries (es : Entries) :
    (sortedEntries es).Perm (es.map fun e => (e.1, e.2.sorted)) := by
  induction es with
  | nil => exact .refl _
  | cons entry es ih =>
      obtain ⟨n, x⟩ := entry
      exact (perm_insertByName n x.sorted (sortedEntries es)).trans (ih.cons (n, x.sorted))

theorem get?_eq_none_iff {es : Entries} {n : Name} : get? es n = none ↔ n ∉ es.map Prod.fst := by
  induction es with
  | nil => simp [get?]
  | cons entry es ih =>
      obtain ⟨m, y⟩ := entry
      rw [get?_cons, List.map_cons, List.mem_cons, not_or, ← ih]
      split <;> simp_all

theorem wellFormed_iff {es : Entries} :
    entriesWellFormed es ↔
      (∀ e ∈ es, Name.isProper e.1 ∧ e.2.isWellFormed) ∧ (es.map Prod.fst).Nodup := by
  induction es with
  | nil => simp [entriesWellFormed]
  | cons entry es ih =>
      obtain ⟨n, x⟩ := entry
      rw [entriesWellFormed_cons, ih, get?_eq_none_iff, List.map_cons, List.nodup_cons,
        List.forall_mem_cons]
      constructor
      · rintro ⟨hn, hfree, hx, hes, hnodup⟩
        exact ⟨⟨⟨hn, hx⟩, hes⟩, hfree, hnodup⟩
      · rintro ⟨⟨⟨hn, hx⟩, hes⟩, hfree, hnodup⟩
        exact ⟨hn, hfree, hx, hes, hnodup⟩

variable {es mid : Entries}

theorem wellFormed_of_perm (hperm : es.Perm mid) (h : entriesWellFormed es) :
    entriesWellFormed mid := by
  obtain ⟨hproper, hnodup⟩ := wellFormed_iff.mp h
  refine wellFormed_iff.mpr ⟨fun e he => hproper e (hperm.mem_iff.mpr he), ?_⟩
  exact (hperm.map Prod.fst).nodup_iff.mp hnodup

/-- There is only one strict order to list the same entries in. -/
theorem sortedEntries_of_perm (hperm : es.Perm mid) (h : entriesWellFormed es) :
    sortedEntries es = sortedEntries mid := by
  have hasymm (a b : Name × Node) (hab : a.1 < b.1) (hba : b.1 < a.1) : a = b :=
    absurd hba (List.lt_asymm hab)
  have hsame : (sortedEntries es).Perm (sortedEntries mid) :=
    calc (sortedEntries es).Perm (es.map fun e => (e.1, e.2.sorted)) := perm_sortedEntries es
      List.Perm _ (mid.map fun e => (e.1, e.2.sorted)) := hperm.map _
      List.Perm _ (sortedEntries mid) := (perm_sortedEntries mid).symm
  exact hsame.eq_of_pairwise (fun a b _ _ => hasymm a b) (pairwise_sortedEntries h)
    (pairwise_sortedEntries (wellFormed_of_perm hperm h))

end Entries

mutual

theorem Node.Reordered.sorted_eq {x y : Node} : x.Reordered y → x.isWellFormed → x.sorted = y.sorted
  | .same _, _ => rfl
  | .dir hes, h => congrArg Node.dir (hes.sorted_eq h)

theorem Entries.Reordered.sorted_eq {es es' : Entries} :
    es.Reordered es' → entriesWellFormed es → sortedEntries es = sortedEntries es'
  | .nil, _ => rfl
  | .cons n hx hes, h => by
      obtain ⟨-, -, hwf, hrest⟩ := entriesWellFormed_cons.mp h
      simp only [sortedEntries, hx.sorted_eq hwf, hes.sorted_eq hrest]
  | .perm hperm hmid, h =>
      (Entries.sortedEntries_of_perm hperm h).trans
        (hmid.sorted_eq (Entries.wellFormed_of_perm hperm h))

end

theorem FileSystem.Reordered.sorted_eq {fs : WellFormedFileSystem} {fs' : FileSystem}
    (h : fs.Reordered fs') : fs'.sorted = fs.toFileSystem.sorted := by
  simp only [sorted, h.root.sorted_eq fs.wellFormed, h.cwd]

namespace Scan

section Sorted

variable (fs : FileSystem) (s : Scan)

theorem source?_sorted (v : Visit) : source? fs.sorted v = source? fs v := by
  obtain ⟨path, names, kind⟩ := v
  cases kind with
  | file _ | special => rfl
  | link =>
      simp only [source?, FileSystem.stat_sorted]
      cases fs.stat path with
      | error fault => rfl
      | ok end_ =>
          obtain ⟨loc, x⟩ := end_
          cases x <;> rfl

theorem collect_sorted (selection : Selection) (vs : List Visit) :
    collect fs.sorted selection vs = collect fs selection vs := by
  induction vs with
  | nil => rfl
  | cons v vs ih => simp only [collect, source?_sorted, ih]

theorem rootVisit_sorted (root : Path) : s.rootVisit fs.sorted root = s.rootVisit fs root := by
  simp only [rootVisit, FileSystem.find_sorted]
  cases fs.find .keep root with
  | error fault => rfl
  | ok end_ =>
      obtain ⟨loc, x⟩ := end_
      cases x <;> rfl

end Sorted

/-- A search sees no more of a tree than its sorted form shows. -/
theorem files_of_sorted_eq {fs fs' : FileSystem} (h : fs'.sorted = fs.sorted) (s : Scan)
    (root : Path) : s.files fs' root = s.files fs root := by
  have hvisit : s.rootVisit fs' root = s.rootVisit fs root := by
    rw [← rootVisit_sorted, h, rootVisit_sorted]
  have hcollect (vs : List Visit) : collect fs' s.selection vs = collect fs s.selection vs := by
    rw [← collect_sorted, h, collect_sorted]
  simp only [files, walkRoot, h, hvisit, hcollect]

/-- Of two sources in a list the first has the smaller names, so no two are the same, and nothing in the
result of a search, a list or a failure, depends on how directories list their entries. -/
theorem files_canonical (fs : WellFormedFileSystem) (s : Scan) (root : Path) :
    (∀ files, s.files fs root = .ok files →
      (files.Pairwise fun f g => ∃ a b : List Name,
        f.relative.components = a.map .normal ∧ g.relative.components = b.map .normal ∧ a < b) ∧
      (files.map Source.relative).Nodup) ∧
    ∀ fs', fs.Reordered fs' → s.files fs' root = s.files fs root := by
  refine ⟨fun files h => ⟨files_pairwise h, ?_⟩, fun fs' h => ?_⟩
  · exact List.pairwise_map.mpr (relative_ne h)
  · exact files_of_sorted_eq h.sorted_eq s root

/-- A file whose name comes after that of a directory, but before the path of what is in there. -/
def directoryListedFirst : WellFormedFileSystem where
  root := .dir [
    (Utf8.encode "a", .dir [
      (Utf8.encode "z.rs", .file (Utf8.encode "zest") none),
      (Utf8.encode "b.rs", .link (Utf8.encode "z.rs"))]),
    (Utf8.encode "a-b.rs", .file (Utf8.encode "apple") none)]
  cwd := []
  wellFormed := rfl

def fileListedFirst : FileSystem where
  root := .dir [
    (Utf8.encode "a-b.rs", .file (Utf8.encode "apple") none),
    (Utf8.encode "a", .dir [
      (Utf8.encode "b.rs", .link (Utf8.encode "z.rs")),
      (Utf8.encode "z.rs", .file (Utf8.encode "zest") none)])]
  cwd := []

theorem reordered_fileListedFirst : directoryListedFirst.Reordered fileListedFirst where
  root :=
    .dir (.perm (.swap _ _ _)
      (.cons _ (.same _)
        (.cons _ (.dir (.perm (.swap _ _ _) (.cons _ (.same _) (.cons _ (.same _) .nil)))) .nil)))
  cwd := rfl

theorem files_canonical_directoryListedFirst :
    directoryListedFirst.Reordered fileListedFirst ∧
    ∃ files, forRust.files directoryListedFirst Path.dot = .ok files ∧
      files.map Source.display = ["a/b.rs", "a/z.rs", "a-b.rs"] ∧
      (files.map Source.relative).Nodup ∧ forRust.files fileListedFirst Path.dot = .ok files := by
  have hlist : (forRust.files directoryListedFirst Path.dot).toOption.map (·.map Source.display) =
      some ["a/b.rs", "a/z.rs", "a-b.rs"] := rfl
  obtain ⟨hordered, hsame⟩ := files_canonical directoryListedFirst forRust Path.dot
  cases hrun : forRust.files directoryListedFirst Path.dot with
  | error e =>
      rw [hrun] at hlist
      cases hlist
  | ok files =>
      rw [hrun] at hlist
      exact ⟨reordered_fileListedFirst, files, rfl, Option.some.inj hlist, (hordered files hrun).2,
        (hsame fileListedFirst reordered_fileListedFirst).trans hrun⟩

end Scan

end Collate
