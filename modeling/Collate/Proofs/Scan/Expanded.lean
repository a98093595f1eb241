import Collate.Proofs.Scan.Stops

/-!
The tree as a search sees it that follows links: each link that its walk meets is replaced by what the link
leads to, and so are the links in there. To walk the tree over its links is to walk that tree.
-/
namespace Collate

/-- What is in a link's place. A directory whose name is not admitted is not gone into. -/
def expandLink (fs : FileSystem) (rule : WalkRule) (follow : Directory → Entries → Entries)
    (d : Directory) (n : Name) (target : Path) : Node :=
  match fs.stat (d.path.entry n) with
  | .error _ => .link target
  | .ok (loc, .dir es) => .dir (if rule.admits n then follow (d.enter n loc) es else es)
  | .ok (_, x) => x

mutual

def expandEntry (fs : FileSystem) (rule : WalkRule) (follow : Directory → Entries → Entries)
    (d : Directory) (n : Name) : Node → Node
  | .link target => expandLink fs rule follow d n target
  | .dir es =>
    let inner := d.enter n (d.location ++ [n])
    .dir (if rule.admits n && !inner.isClosed then expandEntries fs rule follow inner es else es)
  | x => x

def expandEntries (fs : FileSystem) (rule : WalkRule) (follow : Directory → Entries → Entries)
    (d : Directory) : List (Name × Node) → List (Name × Node)
  | [] => []
  | (n, x) :: es => (n, expandEntry fs rule follow d n x) :: expandEntries fs rule follow d es

end

/-- Replaces at most so many links, one inside the other; a path with more of them is not resolved. -/
def expandWithin (fs : FileSystem) (rule : WalkRule) : Nat → Directory → Entries → Entries
  | 0, d, es => if d.isClosed then es else expandEntries fs rule (fun _ es => es) d es
  | links + 1, d, es =>
    if d.isClosed then es else expandEntries fs rule (expandWithin fs rule links) d es

/-- What is done with a directory behind a link when so many more may be replaced. -/
def expandFollow (fs : FileSystem) (rule : WalkRule) : Nat → Directory → Entries → Entries
  | 0 => fun _ es => es
  | links + 1 => expandWithin fs rule links

theorem expandWithin_eq (fs : FileSystem) (rule : WalkRule) (links : Nat) (d : Directory)
    (es : Entries) : expandWithin fs rule links d es =
      if d.isClosed then es else expandEntries fs rule (expandFollow fs rule links) d es := by
  cases links <;> rfl

section Sorted

variable {fs : FileSystem} {rule : WalkRule} {follow follow' : Directory → Entries → Entries}
  {d : Directory}

theorem expandEntries_insertByName (n : Name) (x : Node) (es : Entries) :
    expandEntries fs rule follow d (Entries.insertByName n x es) =
      Entries.insertByName n (expandEntry fs rule follow d n x) (expandEntries fs rule follow d es) := by
  induction es with
  | nil => rfl
  | cons entry es ih =>
      obtain ⟨m, y⟩ := entry
      simp only [Entries.insertByName, expandEntries]
      split
      · rw [expandEntries, ih]
      · rfl

theorem expandLink_sorted
    (hfollow : ∀ d es, follow' d (sortedEntries es) = sortedEntries (follow d es)) (n : Name)
    (target : Path) :
    expandLink fs.sorted rule follow' d n target = (expandLink fs rule follow d n target).sorted := by
  simp only [expandLink, FileSystem.stat_sorted]
  cases fs.stat (d.path.entry n) with
  | error fault => rfl
  | ok end_ =>
      obtain ⟨loc, x⟩ := end_
      cases x with
      | dir es =>
          simp only [Except.map, Node.sorted]
          split
          · rw [hfollow]
          · rfl
      | file _ _ | link _ | pipe | device _ => rfl

mutual

theorem expandEntry_sorted
    (hfollow : ∀ d es, follow' d (sortedEntries es) = sortedEntries (follow d es)) (d : Directory)
    (n : Name) : (x : Node) →
    expandEntry fs.sorted rule follow' d n x.sorted = (expandEntry fs rule follow d n x).sorted
  | .link target => expandLink_sorted hfollow n target
  | .dir es => by
      simp only [Node.sorted, expandEntry]
      split
      · rw [expandEntries_sorted hfollow _ es]
      · rfl
  | .file _ _ | .pipe | .device _ => rfl

theorem expandEntries_sorted
    (hfollow : ∀ d es, follow' d (sortedEntries es) = sortedEntries (follow d es)) (d : Directory) :
    (es : List (Name × Node)) → expandEntries fs.sorted rule follow' d (sortedEntries es) =
      sortedEntries (expandEntries fs rule follow d es)
  | [] => rfl
  | (n, x) :: es => by
      rw [sortedEntries, expandEntries_insertByName, expandEntry_sorted hfollow d n x,
        expandEntries_sorted hfollow d es]
      rfl

end

theorem expandWithin_sorted (links : Nat) (d : Directory) (es : Entries) :
    expandWithin fs.sorted rule links d (sortedEntries es) =
      sortedEntries (expandWithin fs rule links d es) := by
  induction links generalizing d es with
  | zero =>
      simp only [expandWithin]
      split
      · rfl
      · have hnone (_ : Directory) (es : Entries) : sortedEntries es = sortedEntries es := rfl
        exact expandEntries_sorted hnone d es
  | succ links ih =>
      simp only [expandWithin]
      split
      · rfl
      · exact expandEntries_sorted ih d es

end Sorted

section Kept

variable {fs : FileSystem} {rule : WalkRule} {follow : Directory → Entries → Entries}

theorem get?_expandEntries (d : Directory) (es : Entries) (n : Name) :
    Entries.get? (expandEntries fs rule follow d es) n =
      (Entries.get? es n).map (expandEntry fs rule follow d n) := by
  induction es with
  | nil => rfl
  | cons entry es ih =>
      obtain ⟨m, x⟩ := entry
      by_cases h : n = m
      · simp [expandEntries, Entries.get?_cons, h]
      · simp [expandEntries, Entries.get?_cons, h, ih]

theorem expandEntries_directory {d : Directory} {es inner : Entries} {l : Location}
    (h : (Node.dir es).get? l = some (.dir inner)) :
    ∃ inner', (Node.dir (expandEntries fs rule follow d es)).get? l = some (.dir inner') := by
  induction l generalizing d es with
  | nil => exact ⟨_, rfl⟩
  | cons n l ih =>
      obtain ⟨x, hx, hl⟩ := Option.bind_eq_some_iff.mp h
      cases x with
      | dir es' =>
          simp only [Node.get?, get?_expandEntries, hx, Option.map_some, Option.bind_some, expandEntry]
          split
          · exact ih hl
          · exact ⟨inner, hl⟩
      | file _ _ | link _ | pipe | device _ => cases l <;> simp [Node.get?] at hl

theorem expandWithin_directory {links : Nat} {d : Directory} {es inner : Entries} {l : Location}
    (h : (Node.dir es).get? l = some (.dir inner)) :
    ∃ inner', (Node.dir (expandWithin fs rule links d es)).get? l = some (.dir inner') := by
  rw [expandWithin_eq]
  split
  · exact ⟨inner, h⟩
  · exact expandEntries_directory h

end Kept

/-- A walk treats the two alike as long as it follows no link. -/
structure Directory.Alike (d d' : Directory) : Prop where
  path : d.path = d'.path
  names : d.names = d'.names
  room : d.room = d'.room

section Alike

variable {d d' : Directory} (h : d.Alike d')
include h

theorem Directory.Alike.isClosed : d.isClosed = d'.isClosed := by
  rw [Directory.isClosed, Directory.isClosed, h.room]

theorem Directory.Alike.meet (n : Name) (what : Except Failure VisitKind) :
    d.meet n what = d'.meet n what := by
  rw [Directory.meet, Directory.meet, h.path, h.names]

theorem Directory.Alike.enter (n : Name) (loc loc' : Location) :
    (d.enter n loc).Alike (d'.enter n loc') where
  path := congrArg (·.entry n) h.path
  names := congrArg (· ++ [n]) h.names
  room := congrArg (·.map (· - 1)) h.room

end Alike

namespace FileSystem

/-- The path by these names leads somewhere, and not back to a directory on the way to it. -/
def LeadsOn (fs : FileSystem) (root : Path) (names : List Name) : Prop :=
  ∃ loc x, fs.stat (root.below names) = .ok (loc, x) ∧
    ∀ front, front <+: names → front ≠ names →
      fs.resolve .follow (root.below front) ≠ .ok (.found loc)

theorem LeadsOn.stat {fs : FileSystem} {root : Path} {names : List Name}
    (h : fs.LeadsOn root names) : ∃ loc x, fs.stat (root.below names) = .ok (loc, x) := by
  obtain ⟨loc, x, hstat, -⟩ := h
  exact ⟨loc, x, hstat⟩

theorem LeadsOn.not_encloses {fs : FileSystem} {root : Path} {dir front : List Name} {n : Name}
    {loc : Location} {x : Node} (h : fs.LeadsOn root (dir ++ [n]))
    (hstat : fs.stat (root.below (dir ++ [n])) = .ok (loc, x)) : ¬ fs.Encloses root dir front loc := by
  obtain ⟨l, y, hl, hon⟩ := h
  obtain ⟨rfl, rfl⟩ := Prod.mk.inj (Except.ok.inj (hl.symm.trans hstat))
  intro hfront
  refine hon front (hfront.initial.trans (List.prefix_append _ _)) ?_ hfront.leads
  rintro rfl
  exact absurd hfront.initial.length_le (by simp)

theorem leadsOn_sorted {fs : FileSystem} {root : Path} {names : List Name}
    (h : fs.LeadsOn root names) : fs.sorted.LeadsOn root names := by
  obtain ⟨loc, x, hstat, hon⟩ := h
  refine ⟨loc, x.sorted, ?_, ?_⟩
  · rw [stat_sorted, hstat]
    rfl
  · simpa only [resolve_sorted] using hon

end FileSystem

namespace Scan

/-- The same search, with links kept. -/
def keeping (s : Scan) : Scan :=
  { s with followLinks := false }

/-- Links are followed, and each that the search looks at leads on. -/
structure Clear (fs : FileSystem) (s : Scan) (root : Path) : Prop where
  follows : s.followLinks = true
  leadsOn : ∀ names target, s.Finds fs root names (.link target) → fs.LeadsOn root names

theorem Clear.sorted {fs : FileSystem} {s : Scan} {root : Path} (h : s.Clear fs root) :
    s.Clear fs.sorted root where
  follows := h.follows
  leadsOn names target hfinds := by
    obtain ⟨x, hx, hsorted⟩ := finds_sorted.mp hfinds
    obtain rfl := Node.sorted_eq_link.mp hsorted.symm
    exact FileSystem.leadsOn_sorted (h.leadsOn names target hx)

end Scan

/-- Behind a link, with so many left, `follow` meets what a search that keeps links meets in the entries that
`expand` puts there. -/
def Mirrors (fs seen : FileSystem) (s : Scan) (root : Path) (links : Nat)
    (follow follow' : Directory → Entries → List Encounter)
    (expand : Directory → Entries → Entries) : Prop :=
  ∀ left, links = left + 1 → ∀ (d d' : Directory) (es : Entries),
    d.Stands fs s root left → fs.get? d.location = some (.dir es) → d.Alike d' →
    follow d es = if d'.isClosed then [] else meetEntries seen s.keeping.rule follow' d' (expand d es)

section Expand

variable {fs seen : FileSystem} {s : Scan} {root : Path} {links : Nat}
  {follow follow' : Directory → Entries → List Encounter} {expand : Directory → Entries → Entries}

theorem meetLink_expand (hclear : s.Clear fs root)
    (hfollow : Mirrors fs seen s root links follow follow' expand) {d d' : Directory}
    (hd : d.Stands fs s root links) (hopen : d.isClosed = false) (halike : d.Alike d') {n : Name}
    (hn : Name.isProper n) {target : Path} (hx : fs.get? (d.location ++ [n]) = some (.link target)) :
    meetLink fs s.rule follow d n =
      meetEntry seen s.keeping.rule follow' d' n (expandLink fs s.rule expand d n target) := by
  have hon := hclear.leadsOn _ _ (hd.finds hopen hn hx)
  obtain ⟨loc, y, hstat⟩ := hon.stat
  have hback {front : List Name} : ¬ fs.Encloses root d.names front loc := hon.not_encloses hstat
  have hadmits : s.keeping.rule.admits = s.rule.admits := rfl
  rw [← hd.path_entry] at hstat
  cases y with
  | link _ => exact absurd hstat FileSystem.stat_ne_link
  | file _ _ | pipe | device _ =>
      simp only [meetLink, expandLink, hstat, meetEntry, hadmits, halike.meet]
  | dir es =>
      obtain ⟨hres, hes⟩ := FileSystem.stat_eq_ok_iff.mp hstat
      have htrail : d.trail.find? (·.1 = loc) = none := by
        refine Option.eq_none_iff_forall_ne_some.mpr fun e he => ?_
        obtain ⟨front, hfront, -⟩ := (hd.trail loc e).mp he
        exact hback hfront
      simp only [meetLink, expandLink, hstat, htrail, meetEntry, hadmits]
      by_cases hallowed : s.rule.admits n = true
      · obtain ⟨left, hleft, hinner⟩ := hd.enter_link hn hallowed hclear.follows hx hstat
        have hshort : ¬ FileSystem.pathLimit ≤ (d'.enter n (d'.location ++ [n])).path.length := by
          rw [← (halike.enter n loc _).path]
          exact Nat.not_le.mpr (FileSystem.length_lt_of_resolve hres)
        simp only [hallowed, Bool.not_true, Bool.false_eq_true, ↓reduceIte, hshort]
        exact hfollow left hleft _ _ es hinner hes (halike.enter n loc _)
      · simp only [hallowed, Bool.not_false, Bool.false_eq_true, ↓reduceIte]

mutual

theorem meetEntry_expand (fs : WellFormedFileSystem) (hclear : s.Clear fs root)
    (hfollow : Mirrors fs seen s root links follow follow' expand) {d d' : Directory}
    (hd : d.Stands fs s root links) (hopen : d.isClosed = false) (halike : d.Alike d') {n : Name}
    (hn : Name.isProper n) :
    (x : Node) → fs.get? (d.location ++ [n]) = some x →
    meetEntry fs s.rule follow d n x =
      meetEntry seen s.keeping.rule follow' d' n (expandEntry fs s.rule expand d n x)
  | .link target, hx => by
      have hrule : s.rule.followLinks = true := hclear.follows
      simp only [meetEntry, expandEntry, hrule, ↓reduceIte]
      exact meetLink_expand hclear hfollow hd hopen halike hn hx
  | .file _ _, _ | .pipe, _ | .device _, _ => by
      have hadmits : s.keeping.rule.admits = s.rule.admits := rfl
      simp only [meetEntry, expandEntry, hadmits, halike.meet]
  | .dir es, hx => by
      have hadmits : s.keeping.rule.admits = s.rule.admits := rfl
      have hinner := halike.enter n (d.location ++ [n]) (d'.location ++ [n])
      by_cases hallowed : s.rule.admits n = true
      · simp only [meetEntry, expandEntry, hadmits, hallowed, ← hinner.isClosed, ← hinner.path,
          halike.meet, Bool.not_true, Bool.false_eq_true, ↓reduceIte, Bool.true_and]
        split
        · rfl
        · rename_i hroom
          split
          · rfl
          · rename_i hlong
            have henter := hd.enter_dir hn hallowed hx (Nat.lt_of_not_le hlong)
            have hroom' := Bool.eq_false_iff.mpr hroom
            simp only [hroom', Bool.not_false, ↓reduceIte]
            exact meetEntries_expand fs hclear hfollow henter hroom' hinner es
              fun m y hm => fs.get?_of_mem hx hm
      · simp only [meetEntry, expandEntry, hadmits, hallowed, Bool.not_false, ↓reduceIte]

theorem meetEntries_expand (fs : WellFormedFileSystem) (hclear : s.Clear fs root)
    (hfollow : Mirrors fs seen s root links follow follow' expand) {d d' : Directory}
    (hd : d.Stands fs s root links) (hopen : d.isClosed = false) (halike : d.Alike d') :
    (es : List (Name × Node)) →
    (∀ n x, (n, x) ∈ es → Name.isProper n ∧ fs.get? (d.location ++ [n]) = some x) →
    meetEntries fs s.rule follow d es =
      meetEntries seen s.keeping.rule follow' d' (expandEntries fs s.rule expand d es)
  | [], _ => rfl
  | (n, x) :: es, hes => by
      obtain ⟨hn, hx⟩ := hes n x (by simp)
      have hentry := meetEntry_expand fs hclear hfollow hd hopen halike hn x hx
      have hrest := meetEntries_expand fs hclear hfollow hd hopen halike es
        fun m y hm => hes m y (List.mem_cons_of_mem _ hm)
      rw [meetEntries, expandEntries, meetEntries, hentry, hrest]

end

private theorem meetWithin_expand_of_mirrors (fs : WellFormedFileSystem) (hclear : s.Clear fs root)
    {left : Nat} (hfollow : Mirrors fs seen s root links (meetFollow fs s.rule links)
      (meetFollow seen s.keeping.rule left) (expandFollow fs s.rule links))
    {d d' : Directory} (hd : d.Stands fs s root links) (halike : d.Alike d') {es : Entries}
    (hes : fs.get? d.location = some (.dir es)) :
    meetWithin fs s.rule links d es =
      meetWithin seen s.keeping.rule left d' (expandWithin fs s.rule links d es) := by
  rw [meetWithin_eq, meetWithin_eq, expandWithin_eq, halike.isClosed]
  split
  · rfl
  · rename_i hclosed
    have hopen : d.isClosed = false := halike.isClosed.trans (Bool.eq_false_iff.mpr hclosed)
    rw [meetEntries_expand fs hclear hfollow hd hopen halike es
      fun n x hx => fs.get?_of_mem hes hx]

variable (seen) in
/-- The tree is met over its links as the expanded tree is without any. The links never run out, for the
system would not resolve a path over one more. -/
theorem meetWithin_expand (fs : WellFormedFileSystem) (hclear : s.Clear fs root) (left : Nat)
    {d d' : Directory} (hd : d.Stands fs s root links) (halike : d.Alike d') {es : Entries}
    (hes : fs.get? d.location = some (.dir es)) :
    meetWithin fs s.rule links d es =
      meetWithin seen s.keeping.rule left d' (expandWithin fs s.rule links d es) := by
  induction links generalizing d d' es with
  | zero =>
      refine meetWithin_expand_of_mirrors fs hclear ?_ hd halike hes
      exact fun more hmore => absurd hmore (Nat.zero_ne_add_one more)
  | succ links ih =>
      refine meetWithin_expand_of_mirrors fs hclear ?_ hd halike hes
      intro more hmore inner inner' es' hinner hes' halike'
      obtain rfl : links = more := Nat.succ.inj hmore
      rw [← meetWithin_eq]
      exact ih hinner halike' hes'

end Expand

end Collate
