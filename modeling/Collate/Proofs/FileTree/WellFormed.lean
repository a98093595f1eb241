import Collate.FileTree.Resolve
import Collate.Proofs.Path
import Collate.Proofs.FileTree.Lookup

/-!
Trees as a file system can hold them: every name is one that a directory can list, no directory lists a
name twice, and a link has a target that can be a path. A file system carries this with it, and what is made
of one carries it again.
-/
namespace Collate

/-- A name that stands for one entry: a single part of a path, neither too long nor cut by an octet 0. -/
def Name.isProper (n : Name) : Bool :=
  !n.isEmpty && n != Path.dot && n != Path.dotDot && !n.contains Path.slash && !n.contains 0 &&
    decide (n.length ≤ FileSystem.nameLimit)

mutual

def Node.isWellFormed : Node → Bool
  | .dir es => entriesWellFormed es
  | .link target => !target.isEmpty && !target.hasNul
  | .file _ _ | .pipe | .device _ => true

def entriesWellFormed : List (Name × Node) → Bool
  | [] => true
  | (n, x) :: es =>
    Name.isProper n && (Entries.get? es n).isNone && x.isWellFormed && entriesWellFormed es

end

structure WellFormedFileSystem extends FileSystem where
  wellFormed : root.isWellFormed

instance : Coe WellFormedFileSystem FileSystem := ⟨WellFormedFileSystem.toFileSystem⟩

namespace Name

variable {n : Name}

theorem isProper_iff : isProper n ↔
    n ≠ [] ∧ n ≠ Path.dot ∧ n ≠ Path.dotDot ∧ Path.slash ∉ n ∧ (0 : UInt8) ∉ n ∧
      n.length ≤ FileSystem.nameLimit := by
  simp only [isProper, Bool.and_eq_true, Bool.not_eq_eq_eq_not, Bool.not_true,
    List.isEmpty_eq_false_iff, bne_iff_ne, ne_eq, List.contains_eq_mem, decide_eq_false_iff_not,
    decide_eq_true_eq, and_assoc]

theorem component?_of_isProper (h : isProper n) : Path.component? n = some (.normal n) := by
  obtain ⟨hne, hdot, hdotDot, _⟩ := isProper_iff.mp h
  simp [Path.component?, hne, hdot, hdotDot]

theorem split_of_isProper (h : isProper n) : Path.split n = [n] :=
  Path.split_of_noSlash (isProper_iff.mp h).2.2.2.1

theorem exists_part {names : List Name} (hne : names ≠ []) (h : ∀ n ∈ names, isProper n) :
    ∃ n ∈ names, n ≠ [] := by
  obtain ⟨n, ns, rfl⟩ := List.exists_cons_of_ne_nil hne
  exact ⟨n, by simp, (isProper_iff.mp (h n (by simp))).1⟩

theorem hasNul_joinNames {names : List Name} (h : ∀ n ∈ names, isProper n) :
    Path.hasNul (Path.joinNames names) = false := by
  have hname {n : Name} (hn : n ∈ names) : Path.hasNul n = false := by
    simpa [Path.hasNul] using (isProper_iff.mp (h n hn)).2.2.2.2.1
  induction names with
  | nil => rfl
  | cons n names ih =>
      cases names with
      | nil => exact hname (n := n) (by simp)
      | cons m names =>
          have hn : Path.hasNul n = false := hname (by simp)
          have hrest := ih (fun k hk => h k (List.mem_cons_of_mem _ hk))
            fun hk => hname (List.mem_cons_of_mem _ hk)
          simp only [Path.hasNul, Path.joinNames, List.contains_eq_mem] at hn hrest ⊢
          simp_all [Path.slash]

theorem components_joinNames {names : List Name} (h : ∀ n ∈ names, isProper n) :
    (Path.joinNames names).components = names.map .normal := by
  cases names with
  | nil => rfl
  | cons n names =>
      obtain ⟨hne, hdot, -, hslash, -, -⟩ := isProper_iff.mp (h n (by simp))
      have hsplit : Path.split (Path.joinNames (n :: names)) = n :: names :=
        Path.split_joinNames fun m hm => (isProper_iff.mp (h m hm)).2.2.2.1
      have hrelative : (Path.joinNames (n :: names)).isAbsolute = false := by
        obtain ⟨c, rest, rfl⟩ := List.exists_cons_of_ne_nil hne
        have hc : c ≠ Path.slash := fun e => hslash (by simp [e])
        cases names <;> simp [Path.joinNames, Path.isAbsolute, hc]
      have hcomponents : ∀ names : List Name, (∀ m ∈ names, isProper m) →
          names.filterMap Path.component? = names.map .normal := by
        intro names hnames
        induction names with
        | nil => rfl
        | cons m names ih =>
            have hm := component?_of_isProper (hnames m (by simp))
            have hrest := ih fun k hk => hnames k (List.mem_cons_of_mem _ hk)
            simp [hm, hrest]
      simp [Path.components, hsplit, hrelative, hdot, hcomponents (n :: names) h]

end Name

theorem Path.components_below {p : Path} (hp : p ≠ []) {names : List Name}
    (h : ∀ n ∈ names, Name.isProper n) :
    (p.below names).components = p.components ++ names.map .normal := by
  induction names generalizing p with
  | nil => exact (List.append_nil _).symm
  | cons n names ih =>
      have hn : Name.isProper n := h n (by simp)
      have hentry : (p.entry n).components = p.components ++ [.normal n] := by
        rw [Path.components_entry hp, Name.split_of_isProper hn]
        simp [Name.component?_of_isProper hn]
      have hrest := ih (Path.entry_ne_nil hp n) fun m hm => h m (List.mem_cons_of_mem _ hm)
      calc ((p.entry n).below names).components
          = (p.entry n).components ++ names.map .normal := hrest
        _ = p.components ++ (n :: names).map .normal := by simp [hentry]

theorem Entries.mem_of_get? {es : Entries} {n : Name} {x : Node} (h : Entries.get? es n = some x) :
    (n, x) ∈ es := by
  induction es with
  | nil => cases h
  | cons e es ih =>
      obtain ⟨m, y⟩ := e
      rw [Entries.get?_cons] at h
      split at h
      · rename_i hm
        obtain rfl := Option.some.inj h
        simp [hm]
      · exact List.mem_cons_of_mem _ (ih h)

theorem entriesWellFormed_cons {n : Name} {x : Node} {es : List (Name × Node)} :
    entriesWellFormed ((n, x) :: es) ↔
      Name.isProper n ∧ Entries.get? es n = none ∧ x.isWellFormed ∧ entriesWellFormed es := by
  simp [entriesWellFormed, and_assoc]

theorem entriesWellFormed_mem {es : List (Name × Node)} (h : entriesWellFormed es) {n : Name}
    {x : Node} (hmem : (n, x) ∈ es) :
    Name.isProper n ∧ Entries.get? es n = some x ∧ x.isWellFormed := by
  induction es with
  | nil => cases hmem
  | cons e es ih =>
      obtain ⟨m, y⟩ := e
      obtain ⟨hm, hfree, hy, hes⟩ := entriesWellFormed_cons.mp h
      rcases List.mem_cons.mp hmem with heq | hmem
      · obtain ⟨rfl, rfl⟩ := Prod.mk.inj heq
        exact ⟨hm, by simp [Entries.get?_cons], hy⟩
      · obtain ⟨hn, hget, hx⟩ := ih hes hmem
        have hne : n ≠ m := by
          rintro rfl
          cases hfree.symm.trans hget
        exact ⟨hn, by simp [Entries.get?_cons, hne, hget], hx⟩

theorem Node.isWellFormed_get? {x y : Node} {loc : Location} (h : x.isWellFormed)
    (hy : x.get? loc = some y) : y.isWellFormed := by
  induction loc generalizing x with
  | nil =>
      obtain rfl : x = y := by simpa [get?] using hy
      exact h
  | cons n loc ih =>
      cases x with
      | dir es =>
          obtain ⟨z, hz, hloc⟩ := Option.bind_eq_some_iff.mp hy
          exact ih (entriesWellFormed_mem h (Entries.mem_of_get? hz)).2.2 hloc
      | file _ _ | link _ | pipe | device _ => simp [get?] at hy

theorem entriesWellFormed_insertByName {n : Name} {x : Node} {es : List (Name × Node)}
    (hn : Name.isProper n) (hfree : Entries.get? es n = none) (hx : x.isWellFormed)
    (h : entriesWellFormed es) : entriesWellFormed (Entries.insertByName n x es) := by
  induction es with
  | nil => exact entriesWellFormed_cons.mpr ⟨hn, rfl, hx, rfl⟩
  | cons e es ih =>
      obtain ⟨m, y⟩ := e
      obtain ⟨hm, hm', hy, hes⟩ := entriesWellFormed_cons.mp h
      rw [Entries.get?_cons] at hfree
      split at hfree
      · cases hfree
      · rename_i hne
        simp only [Entries.insertByName]
        split
        · refine entriesWellFormed_cons.mpr ⟨hm, ?_, hy, ih hfree hes⟩
          simp [Entries.get?_insertByName, Ne.symm hne, hm']
        · refine entriesWellFormed_cons.mpr ⟨hn, ?_, hx, h⟩
          simp [Entries.get?_cons, hne, hfree]

theorem entriesWellFormed_set {n : Name} {x : Node} {es : List (Name × Node)}
    (hn : Name.isProper n) (hx : x.isWellFormed) (h : entriesWellFormed es) :
    entriesWellFormed (Entries.set n x es) := by
  induction es with
  | nil => exact entriesWellFormed_cons.mpr ⟨hn, rfl, hx, rfl⟩
  | cons e es ih =>
      obtain ⟨m, y⟩ := e
      obtain ⟨hm, hfree, hy, hes⟩ := entriesWellFormed_cons.mp h
      simp only [Entries.set]
      split
      · exact entriesWellFormed_cons.mpr ⟨hm, hfree, hx, hes⟩
      · rename_i hne
        refine entriesWellFormed_cons.mpr ⟨hm, ?_, hy, ih hes⟩
        rw [Entries.get?_set_ne hne, hfree]

/-- Writing a file keeps a tree well formed, if its name is one that can be listed. -/
theorem Node.isWellFormed_put {x : Node} {loc : Location} (h : x.Writable loc)
    (hname : ∀ dir n, loc = dir ++ [n] → Name.isProper n) (hx : x.isWellFormed) (data : Bytes)
    (room : Option Nat) : (x.put loc (.file data room)).isWellFormed := by
  induction h with
  | file _ _ => rfl
  | @free es n hn =>
      have hproper : Name.isProper n := hname [] n rfl
      simp only [put]
      exact entriesWellFormed_set hproper rfl hx
  | @inside es n y loc hy _ ih =>
      obtain ⟨hn, -, hwf⟩ := entriesWellFormed_mem hx (Entries.mem_of_get? hy)
      have hinner := ih (fun dir m hloc => hname (n :: dir) m (by simp [hloc])) hwf
      simp only [put, hy, Option.getD_some]
      exact entriesWellFormed_set hn hinner hx

mutual

theorem Node.isWellFormed_sorted : (x : Node) → x.isWellFormed → x.sorted.isWellFormed
  | .dir es, h => entriesWellFormed_sortedEntries es h
  | .link _, h => h
  | .file _ _, _ | .pipe, _ | .device _, _ => rfl

theorem entriesWellFormed_sortedEntries :
    (es : List (Name × Node)) → entriesWellFormed es → entriesWellFormed (sortedEntries es)
  | [], _ => rfl
  | (n, x) :: es, h => by
      obtain ⟨hn, hfree, hx, hes⟩ := entriesWellFormed_cons.mp h
      refine entriesWellFormed_insertByName hn ?_ (x.isWellFormed_sorted hx)
        (entriesWellFormed_sortedEntries es hes)
      simp [Entries.get?_sortedEntries, hfree]

end

namespace WellFormedFileSystem

def sorted (fs : WellFormedFileSystem) : WellFormedFileSystem where
  toFileSystem := fs.toFileSystem.sorted
  wellFormed := fs.root.isWellFormed_sorted fs.wellFormed

/-- A file is put only where one can be. -/
def putFile (fs : WellFormedFileSystem) {loc : Location} (h : fs.root.Writable loc)
    (hname : ∀ dir n, loc = dir ++ [n] → Name.isProper n) (data : Bytes) (room : Option Nat) :
    WellFormedFileSystem where
  toFileSystem := fs.put loc (.file data room)
  wellFormed := Node.isWellFormed_put h hname fs.wellFormed data room

variable (fs : WellFormedFileSystem) {loc : Location} {es : Entries}

theorem entriesWellFormed_of_get? (hes : fs.get? loc = some (.dir es)) : entriesWellFormed es :=
  Node.isWellFormed_get? fs.wellFormed hes

theorem get?_of_mem (hes : fs.get? loc = some (.dir es)) {n : Name} {x : Node} (hx : (n, x) ∈ es) :
    Name.isProper n ∧ fs.get? (loc ++ [n]) = some x := by
  obtain ⟨hn, hget, -⟩ := entriesWellFormed_mem (fs.entriesWellFormed_of_get? hes) hx
  exact ⟨hn, (FileSystem.get?_snoc hes n).trans hget⟩

end WellFormedFileSystem

end Collate
