import Collate.Proofs.FileTree.Entry

/-!
Trees without their hidden entries. Only what lies below one directory is taken away, so a path leads to the
same place as before unless it is looked up through an entry that is gone.
-/
namespace Collate

def Name.isHidden (n : Name) : Bool :=
  n.head? == some 0x2E

mutual

/-- The same tree without hidden entries and all that lies under them. -/
def Node.visible : Node → Node
  | .dir es => .dir (visibleEntries es)
  | x => x

def visibleEntries : List (Name × Node) → List (Name × Node)
  | [] => []
  | (n, x) :: es =>
    if Name.isHidden n then visibleEntries es else (n, x.visible) :: visibleEntries es

end

/-- A node without the entries of a directory. -/
def Node.shell : Node → Node
  | .dir _ => .dir []
  | x => x

namespace Node

theorem shell_visible (x : Node) : x.visible.shell = x.shell := by
  cases x <;> rfl

theorem kind_shell (x : Node) : x.shell.kind = x.kind := by
  cases x <;> rfl

theorem shell_eq_dir {x : Node} : x.shell = .dir [] ↔ ∃ es, x = .dir es := by
  cases x <;> simp [shell]

theorem shell_eq_link {x : Node} {target : Path} : x.shell = .link target ↔ x = .link target := by
  cases x <;> simp [shell]

theorem shell_eq_file {x : Node} {data : Bytes} {room : Option Nat} :
    x.shell = .file data room ↔ x = .file data room := by
  cases x <;> simp [shell]

end Node

theorem Entries.get?_visibleEntries (es : Entries) (n : Name) :
    Entries.get? (visibleEntries es) n =
      if Name.isHidden n then none else (Entries.get? es n).map Node.visible := by
  induction es with
  | nil => simp [visibleEntries, get?]
  | cons e es ih =>
      obtain ⟨m, x⟩ := e
      by_cases hm : Name.isHidden m
      · simp only [visibleEntries, hm, ↓reduceIte, ih, get?_cons]
        by_cases hn : n = m
        · simp [hn, hm]
        · simp [hn]
      · by_cases hn : n = m
        · simp [visibleEntries, hm, hn, get?_cons]
        · simp [visibleEntries, hm, hn, get?_cons, ih]

namespace Node

theorem get?_visible_of_hidden {x : Node} {names : Location} (h : ∃ n ∈ names, Name.isHidden n) :
    x.visible.get? names = none := by
  induction names generalizing x with
  | nil => simp at h
  | cons n names ih =>
      cases x with
      | file _ _ | link _ | pipe | device _ => rfl
      | dir es =>
          simp only [visible, get?, Entries.get?_visibleEntries]
          by_cases hn : Name.isHidden n
          · simp [hn]
          · have hrest : ∃ m ∈ names, Name.isHidden m := by simpa [hn] using h
            cases Entries.get? es n <;> simp [hn, ih hrest]

theorem get?_visible {x : Node} {names : Location} (h : ∀ n ∈ names, Name.isHidden n = false) :
    x.visible.get? names = (x.get? names).map visible := by
  induction names generalizing x with
  | nil => simp [get?]
  | cons n names ih =>
      cases x with
      | file _ _ | link _ | pipe | device _ => rfl
      | dir es =>
          have hrest := fun m hm => h m (List.mem_cons_of_mem n hm)
          simp only [visible, get?, Entries.get?_visibleEntries, h n (by simp)]
          cases Entries.get? es n <;> simp [ih hrest]

theorem shell_get?_put {x : Node} {top loc : Location} {es : Entries}
    (h : x.get? top = some (.dir es)) (es' : Entries) (hloc : ¬ top <+: loc) :
    ((x.put top (.dir es')).get? loc).map shell = (x.get? loc).map shell := by
  induction top generalizing x loc with
  | nil => exact absurd List.nil_prefix hloc
  | cons n top ih =>
      cases x with
      | file _ _ | link _ | pipe | device _ => simp [get?] at h
      | dir outer =>
          obtain ⟨y, hy, hes⟩ := Option.bind_eq_some_iff.mp h
          cases loc with
          | nil => simp [put, get?, shell]
          | cons m loc =>
              by_cases hm : m = n
              · subst hm
                have hinner : ¬ top <+: loc := fun hpre => hloc (List.cons_prefix_cons.mpr ⟨rfl, hpre⟩)
                simpa [put, get?, Entries.get?_set_self, hy] using ih hes hinner
              · simp [put, get?, Entries.get?_set_ne hm]

mutual

theorem isWellFormed_visible : (x : Node) → x.isWellFormed → x.visible.isWellFormed
  | .dir es, h => entriesWellFormed_visibleEntries es h
  | .link _, h => h
  | .file _ _, _ | .pipe, _ | .device _, _ => rfl

theorem entriesWellFormed_visibleEntries :
    (es : List (Name × Node)) → entriesWellFormed es → entriesWellFormed (visibleEntries es)
  | [], _ => rfl
  | (n, x) :: es, h => by
      obtain ⟨hn, hfree, hx, hes⟩ := entriesWellFormed_cons.mp h
      have hrest := entriesWellFormed_visibleEntries es hes
      by_cases hhidden : Name.isHidden n
      · simpa [visibleEntries, hhidden] using hrest
      · simp only [visibleEntries, hhidden]
        refine entriesWellFormed_cons.mpr ⟨hn, ?_, isWellFormed_visible x hx, hrest⟩
        simp [Entries.get?_visibleEntries, hhidden, hfree]

end

theorem isWellFormed_put_of_get? {x y z : Node} {loc : Location} (hx : x.isWellFormed)
    (hz : x.get? loc = some z) (hy : y.isWellFormed) : (x.put loc y).isWellFormed := by
  induction loc generalizing x with
  | nil => exact hy
  | cons n loc ih =>
      cases x with
      | file _ _ | link _ | pipe | device _ => simp [get?] at hz
      | dir es =>
          obtain ⟨w, hw, hloc⟩ := Option.bind_eq_some_iff.mp hz
          obtain ⟨hn, -, hwf⟩ := entriesWellFormed_mem hx (Entries.mem_of_get? hw)
          simp only [put, hw, Option.getD_some]
          exact entriesWellFormed_set hn (ih hwf hloc) hx

end Node

namespace FileSystem

/-- The tree without the hidden entries below the directory that the path leads to. -/
def pruned (fs : FileSystem) (p : Path) : FileSystem :=
  match fs.stat p with
  | .ok (top, .dir es) => fs.put top (.dir (visibleEntries es))
  | _ => fs

/-- An entry of the tree that is hidden below the directory, or lies under one that is. -/
def HiddenBelow (fs : FileSystem) (top loc : Location) : Prop :=
  ∃ names, loc = top ++ names ∧ (∃ n ∈ names, Name.isHidden n) ∧ ∃ x, fs.get? loc = some x

/-- The path is looked up through nothing that is hidden below the directory. -/
def AvoidsHidden (fs : FileSystem) (top : Location) (p : Path) : Prop :=
  ∀ loc, fs.Passes p loc → ¬ fs.HiddenBelow top loc

section Pruned

variable {fs : FileSystem} {root p : Path} {top : Location} {es : Entries}

theorem pruned_of_dir (hroot : fs.stat root = .ok (top, .dir es)) :
    fs.pruned root = fs.put top (.dir (visibleEntries es)) := by
  simp [pruned, hroot]

theorem pruned_of_other (hroot : ∀ top es, fs.stat root ≠ .ok (top, .dir es)) :
    fs.pruned root = fs := by
  unfold pruned
  split
  · rename_i top es h
    exact absurd h (hroot top es)
  · rfl

theorem HiddenBelow.exists_hidden {loc : Location} (h : fs.HiddenBelow top loc) :
    ∃ n ∈ loc, Name.isHidden n := by
  obtain ⟨names, rfl, ⟨n, hn, hhidden⟩, -⟩ := h
  exact ⟨n, List.mem_append_right top hn, hhidden⟩

theorem HiddenBelow.parent {loc : Location} {n : Name} (hn : Name.isHidden n = false)
    (h : fs.HiddenBelow top (loc ++ [n])) : fs.HiddenBelow top loc := by
  obtain ⟨names, hloc, ⟨m, hm, hhidden⟩, x, hx⟩ := h
  obtain rfl | ⟨init, last, rfl⟩ := List.eq_nil_or_concat names
  · simp at hm
  · rw [List.concat_eq_append, ← List.append_assoc] at hloc
    obtain ⟨rfl, rfl⟩ := List.append_singleton_inj.mp hloc
    obtain ⟨outer, houter, -⟩ := get?_parent hx
    refine ⟨init, rfl, ⟨m, ?_, hhidden⟩, _, houter⟩
    rcases List.mem_append.mp (List.concat_eq_append ▸ hm) with hm | hm
    · exact hm
    · cases (List.mem_singleton.mp hm ▸ hhidden).symm.trans hn

theorem shell_get?_pruned (hroot : fs.stat root = .ok (top, .dir es)) {loc : Location}
    (hloc : ¬ fs.HiddenBelow top loc) :
    ((fs.pruned root).get? loc).map Node.shell = (fs.get? loc).map Node.shell := by
  have hes : fs.root.get? top = some (.dir es) := (stat_eq_ok_iff.mp hroot).2
  rw [pruned_of_dir hroot]
  by_cases hbelow : top <+: loc
  case neg => exact Node.shell_get?_put hes _ hbelow
  obtain ⟨names, rfl⟩ := hbelow
  have hafter : (fs.put top (.dir (visibleEntries es))).get? (top ++ names) =
      (Node.dir es).visible.get? names := by
    simp [get?, put, Node.get?_append, Node.get?_put_self, Node.visible]
  have hbefore : fs.get? (top ++ names) = (Node.dir es).get? names := by
    simp [get?, Node.get?_append, hes]
  rw [hafter]
  by_cases hhidden : ∃ n ∈ names, Name.isHidden n
  · have hnone : fs.get? (top ++ names) = none := by
      cases hget : fs.get? (top ++ names) with
      | none => rfl
      | some x => exact absurd ⟨names, rfl, hhidden, x, hget⟩ hloc
    rw [Node.get?_visible_of_hidden hhidden, hnone]
  · have hvisible : ∀ n ∈ names, Name.isHidden n = false := by simpa using hhidden
    rw [Node.get?_visible hvisible, hbefore, Option.map_map]
    exact congrArg (Option.map · _) (funext Node.shell_visible)

end Pruned

section Agreement

variable {fs fs' : FileSystem} {p : Path}

/-- What is at the end of a path, without the entries of a directory. -/
def endOf (fs : FileSystem) (ending : Ending) (p : Path) : Except IoFault (Location × Node) :=
  (fs.find ending p).map fun found => (found.1, found.2.shell)

theorem endOf_eq_ok {ending : Ending} {loc : Location} {y : Node} :
    fs.endOf ending p = .ok (loc, y) ↔ ∃ x, fs.find ending p = .ok (loc, x) ∧ x.shell = y := by
  cases hfind : fs.find ending p with
  | error fault => simp [endOf, hfind, Except.map]
  | ok found =>
      obtain ⟨l, x⟩ := found
      simp only [endOf, hfind, Except.map, Except.ok.injEq, Prod.mk.injEq]
      constructor
      · rintro ⟨rfl, rfl⟩
        exact ⟨x, ⟨rfl, rfl⟩, rfl⟩
      · rintro ⟨z, ⟨rfl, rfl⟩, rfl⟩
        exact ⟨rfl, rfl⟩

theorem endOf_eq_error {ending : Ending} {fault : IoFault} :
    fs.endOf ending p = .error fault ↔ fs.find ending p = .error fault := by
  cases hfind : fs.find ending p <;> simp [endOf, hfind, Except.map]

theorem kind?_of_shell {loc : Location}
    (h : (fs'.get? loc).map Node.shell = (fs.get? loc).map Node.shell) :
    fs'.kind? loc = fs.kind? loc := by
  have hkind (fs : FileSystem) : fs.kind? loc = ((fs.get? loc).map Node.shell).map Node.kind := by
    rw [kind?, Option.map_map]
    exact congrArg (Option.map · _) (funext fun x => (Node.kind_shell x).symm)
  rw [hkind, hkind, h]

/-- Trees that agree on all that a path is looked up through agree on its end. -/
theorem endOf_of_passes (hcwd : fs'.cwd = fs.cwd)
    (h : ∀ loc, fs.Passes p loc → (fs'.get? loc).map Node.shell = (fs.get? loc).map Node.shell)
    {ending : Ending} (hending : ending ≠ .create) : fs'.endOf ending p = fs.endOf ending p := by
  have hres : fs'.resolve ending p = fs.resolve ending p :=
    resolve_of_passes hcwd fun loc hloc => kind?_of_shell (h loc hloc)
  simp only [endOf, find, hres]
  cases hplace : fs.resolve ending p with
  | error fault => rfl
  | ok place =>
      cases place with
      | vacant dir name => rfl
      | found loc =>
          have hloc := h loc (passes_of_resolve hending hplace)
          cases hx' : fs'.get? loc <;> cases hx : fs.get? loc <;>
            simp_all [Except.map]

end Agreement

section Avoiding

variable {fs : FileSystem} {root p : Path} {top : Location} {es : Entries}

theorem AvoidsHidden.entry (h : fs.AvoidsHidden top p) {loc : Location} {n : Name}
    (hp : fs.resolve .follow p = .ok (.found loc)) (hn : Name.isProper n)
    (hvisible : Name.isHidden n = false)
    (hlink : ∀ target, fs.get? (loc ++ [n]) = some (.link target) →
      fs.AvoidsHidden top (p.entry n)) : fs.AvoidsHidden top (p.entry n) := by
  by_cases htarget : ∃ target, fs.get? (loc ++ [n]) = some (.link target)
  · obtain ⟨target, htarget⟩ := htarget
    exact hlink target htarget
  · intro l hl
    rcases hl.of_entry hp hn fun target htarget' => htarget ⟨target, htarget'⟩ with hl | rfl
    · exact h l hl
    · exact fun hhidden => h loc (passes_of_resolve (by simp) hp) (hhidden.parent hvisible)

variable (hroot : fs.stat root = .ok (top, .dir es))
include hroot

theorem cwd_pruned : (fs.pruned root).cwd = fs.cwd := by
  rw [pruned_of_dir hroot]
  rfl

theorem AvoidsHidden.resolve_pruned (h : fs.AvoidsHidden top p) (ending : Ending) :
    (fs.pruned root).resolve ending p = fs.resolve ending p :=
  resolve_of_passes (cwd_pruned hroot) fun loc hloc =>
    kind?_of_shell (shell_get?_pruned hroot (h loc hloc))

theorem AvoidsHidden.endOf_pruned (h : fs.AvoidsHidden top p) {ending : Ending}
    (hending : ending ≠ .create) : (fs.pruned root).endOf ending p = fs.endOf ending p :=
  endOf_of_passes (cwd_pruned hroot) (fun loc hloc => shell_get?_pruned hroot (h loc hloc)) hending

theorem AvoidsHidden.stat_pruned (h : fs.AvoidsHidden top p) {loc : Location} {inner : Entries}
    (hstat : fs.stat p = .ok (loc, .dir inner)) :
    ∃ inner', (fs.pruned root).stat p = .ok (loc, .dir inner') := by
  have hend := endOf_eq_ok.mpr ⟨_, hstat, rfl⟩
  rw [← h.endOf_pruned hroot (by simp)] at hend
  obtain ⟨x, hx, hshell⟩ := endOf_eq_ok.mp hend
  obtain ⟨inner', rfl⟩ := Node.shell_eq_dir.mp hshell
  exact ⟨inner', hx⟩

end Avoiding

end FileSystem

namespace WellFormedFileSystem

variable (fs : WellFormedFileSystem) (root : Path)

theorem wellFormed_pruned : (fs.toFileSystem.pruned root).root.isWellFormed := by
  by_cases hdir : ∃ top es, fs.stat root = .ok (top, .dir es)
  · obtain ⟨top, es, hroot⟩ := hdir
    have hes : fs.root.get? top = some (.dir es) := (FileSystem.stat_eq_ok_iff.mp hroot).2
    have hentries := Node.entriesWellFormed_visibleEntries es (fs.entriesWellFormed_of_get? hes)
    rw [FileSystem.pruned_of_dir hroot]
    exact Node.isWellFormed_put_of_get? fs.wellFormed hes hentries
  · rw [FileSystem.pruned_of_other fun top es hroot => hdir ⟨top, es, hroot⟩]
    exact fs.wellFormed

def pruned : WellFormedFileSystem where
  toFileSystem := fs.toFileSystem.pruned root
  wellFormed := fs.wellFormed_pruned root

end WellFormedFileSystem

end Collate
