import Collate.Scan.Basic
import Collate.Proofs.FileTree.Entry

/-!
The walk without its early end: everything it would come to, in order, with what is wrong there. A walk is
this list up to the first fault, and a scan looks at it one encounter after the other.
-/
namespace Collate

/-- An entry other than a directory, or a fault met at an entry. -/
structure Encounter where
  names : List Name
  path : Path
  what : Except Failure VisitKind

def Walk.ofEncounters : List Encounter → Walk
  | [] => .nothing
  | ⟨names, path, .ok kind⟩ :: rest => (Walk.visit ⟨path, names, kind⟩).andThen (ofEncounters rest)
  | ⟨_, _, .error f⟩ :: _ => .fail f

def Directory.meet (d : Directory) (n : Name) (what : Except Failure VisitKind) : List Encounter :=
  [⟨d.names ++ [n], d.path.entry n, what⟩]

def meetLink (fs : FileSystem) (rule : WalkRule) (follow : Directory → Entries → List Encounter)
    (d : Directory) (n : Name) : List Encounter :=
  let path := d.path.entry n
  match fs.stat path with
  | .error fault => d.meet n (.error (.unreadable path fault))
  | .ok (loc, .dir es) =>
    match d.trail.find? (·.1 = loc) with
    | some (_, ancestor) => d.meet n (.error (.walk path (loopMessage path ancestor)))
    | none => if rule.admits n then follow (d.enter n loc) es else []
  | .ok (_, .file data _) => if rule.admits n then d.meet n (.ok (.file data.length)) else []
  | .ok _ => if rule.admits n then d.meet n (.ok .special) else []

mutual

def meetEntry (fs : FileSystem) (rule : WalkRule) (follow : Directory → Entries → List Encounter)
    (d : Directory) (n : Name) : Node → List Encounter
  | .link _ =>
    if rule.followLinks then meetLink fs rule follow d n
    else if rule.admits n then d.meet n (.ok .link)
    else []
  | .dir es =>
    if !rule.admits n then []
    else
      let inner := d.enter n (d.location ++ [n])
      if inner.isClosed then []
      else if FileSystem.pathLimit ≤ inner.path.length then
        d.meet n (.error (Failure.pathTooLong inner.path))
      else meetEntries fs rule follow inner es
  | .file data _ => if rule.admits n then d.meet n (.ok (.file data.length)) else []
  | .pipe => if rule.admits n then d.meet n (.ok .special) else []
  | .device _ => if rule.admits n then d.meet n (.ok .special) else []

def meetEntries (fs : FileSystem) (rule : WalkRule) (follow : Directory → Entries → List Encounter)
    (d : Directory) : List (Name × Node) → List Encounter
  | [] => []
  | (n, x) :: es => meetEntry fs rule follow d n x ++ meetEntries fs rule follow d es

end

/-- A directory that no link leads to any more. -/
def meetTooManyLinks (d : Directory) (_ : Entries) : List Encounter :=
  [⟨d.names, d.path, .error (.unreadable d.path (.refused .tooManyLinks))⟩]

def meetWithin (fs : FileSystem) (rule : WalkRule) : Nat → Directory → Entries → List Encounter
  | 0, d, es => if d.isClosed then [] else meetEntries fs rule meetTooManyLinks d es
  | links + 1, d, es =>
    if d.isClosed then [] else meetEntries fs rule (meetWithin fs rule links) d es

/-- What is done with a directory behind a link when so many more may be followed. -/
def meetFollow (fs : FileSystem) (rule : WalkRule) : Nat → Directory → Entries → List Encounter
  | 0 => meetTooManyLinks
  | links + 1 => meetWithin fs rule links

theorem meetWithin_eq (fs : FileSystem) (rule : WalkRule) (links : Nat) (d : Directory)
    (es : Entries) : meetWithin fs rule links d es =
      if d.isClosed then [] else meetEntries fs rule (meetFollow fs rule links) d es := by
  cases links <;> rfl

def Directory.top (root : Path) (loc : Location) (depth : Option Nat) : Directory :=
  { path := root, names := [], location := loc, room := depth, trail := [(loc, root)] }

namespace Walk

theorem andThen_assoc (a b c : Walk) : (a.andThen b).andThen c = a.andThen (b.andThen c) := by
  obtain ⟨visits, failure⟩ := a
  cases failure with
  | some f => rfl
  | none =>
      obtain ⟨visits', failure'⟩ := b
      cases failure' <;> simp [andThen]

theorem ofEncounters_append (a b : List Encounter) :
    ofEncounters (a ++ b) = (ofEncounters a).andThen (ofEncounters b) := by
  induction a with
  | nil => rfl
  | cons e a ih =>
      obtain ⟨names, path, what⟩ := e
      cases what with
      | error f => rfl
      | ok kind => simp [ofEncounters, ih, andThen_assoc]

end Walk

section Walk

variable {fs : FileSystem} {rule : WalkRule} {follow : Directory → Entries → Walk}
  {follow' : Directory → Entries → List Encounter}

theorem walkLink_eq (hfollow : ∀ d es, follow d es = .ofEncounters (follow' d es)) (d : Directory)
    (n : Name) : walkLink fs rule follow d n = .ofEncounters (meetLink fs rule follow' d n) := by
  cases hstat : fs.stat (d.path.entry n) with
  | error fault =>
      simp only [walkLink, meetLink, hstat]
      rfl
  | ok end_ =>
      obtain ⟨loc, x⟩ := end_
      cases x with
      | dir es =>
          cases htrail : d.trail.find? (·.1 = loc) with
          | some ancestor =>
              simp only [walkLink, meetLink, hstat, htrail]
              rfl
          | none =>
              simp only [walkLink, meetLink, hstat, htrail]
              split
              · exact hfollow _ es
              · rfl
      | file _ _ | link _ | pipe | device _ =>
          simp only [walkLink, meetLink, hstat]
          split <;> rfl

mutual

theorem walkEntry_eq (hfollow : ∀ d es, follow d es = .ofEncounters (follow' d es))
    (d : Directory) (n : Name) : (x : Node) →
    walkEntry fs rule follow d n x = .ofEncounters (meetEntry fs rule follow' d n x)
  | .link _ => by
      simp only [walkEntry, meetEntry]
      split
      · exact walkLink_eq hfollow d n
      · split <;> rfl
  | .dir es => by
      simp only [walkEntry, meetEntry]
      split
      · rfl
      · split
        · rfl
        · split
          · rfl
          · exact walkEntries_eq hfollow _ es
  | .file _ _ | .pipe | .device _ => by
      simp only [walkEntry, meetEntry]
      split <;> rfl

theorem walkEntries_eq (hfollow : ∀ d es, follow d es = .ofEncounters (follow' d es))
    (d : Directory) : (es : List (Name × Node)) →
    walkEntries fs rule follow d es = .ofEncounters (meetEntries fs rule follow' d es)
  | [] => rfl
  | (n, x) :: es => by
      rw [walkEntries, meetEntries, Walk.ofEncounters_append, walkEntry_eq hfollow d n x,
        walkEntries_eq hfollow d es]

end

/-- The walk is what it would come to, up to the first fault. -/
theorem walkWithin_eq (links : Nat) (d : Directory) (es : Entries) :
    walkWithin fs rule links d es = .ofEncounters (meetWithin fs rule links d es) := by
  induction links generalizing d es with
  | zero =>
      simp only [walkWithin, meetWithin]
      split
      · rfl
      · have hnone (d : Directory) (es : Entries) :
            Walk.fail (.unreadable d.path (.refused .tooManyLinks)) =
              .ofEncounters (meetTooManyLinks d es) := rfl
        exact walkEntries_eq hnone d es
  | succ links ih =>
      simp only [walkWithin, meetWithin]
      split
      · rfl
      · exact walkEntries_eq ih d es

end Walk

namespace Scan

/-- The file that an encounter adds to the scan, if any. -/
def found (fs : FileSystem) (s : Selection) (e : Encounter) : Except Failure (Option Source) :=
  match e.what with
  | .error f => .error f
  | .ok kind => if s.isMatch e.path then source? fs ⟨e.path, e.names, kind⟩ else .ok none

def gather (fs : FileSystem) (s : Selection) : List Encounter → Except Failure (List Source)
  | [] => .ok []
  | e :: es =>
    match found fs s e with
    | .error f => .error f
    | .ok f => (gather fs s es).map (f.toList ++ ·)

/-- All that a scan comes to below a root. -/
def encounters (fs : FileSystem) (s : Scan) (root : Path) (loc : Location) (es : Entries) :
    List Encounter :=
  (s.rootVisit fs root).map (fun v => ⟨v.names, v.path, .ok v.kind⟩) ++
    meetWithin fs.sorted s.rule FileSystem.linkLimit (.top root loc s.maxDepth) es

section Gather

variable {fs : FileSystem} {s : Selection}

theorem collect_ofEncounters (es : List Encounter) :
    (do
      let found ← collect fs s (Walk.ofEncounters es).visits
      match (Walk.ofEncounters es).failure with
      | some f => .error f
      | none => .ok found) = gather fs s es := by
  induction es with
  | nil => rfl
  | cons e es ih =>
      obtain ⟨names, path, what⟩ := e
      cases what with
      | error f => rfl
      | ok kind =>
          by_cases hmatch : s.isMatch path
          · cases hsource : source? fs ⟨path, names, kind⟩ with
            | error f =>
                simp [Walk.ofEncounters, Walk.andThen, Walk.visit, collect, gather, found, hmatch,
                  hsource, bind, Except.bind]
            | ok f =>
                simp only [gather, found, hmatch, hsource, ↓reduceIte, ← ih]
                simp only [Walk.ofEncounters, Walk.andThen, Walk.visit, collect, hmatch, hsource,
                  List.singleton_append, ↓reduceIte, bind, Except.bind]
                cases collect fs s (Walk.ofEncounters es).visits with
                | error g => rfl
                | ok rest => cases (Walk.ofEncounters es).failure <;> rfl
          · simp only [gather, found, hmatch, ← ih]
            simp only [Walk.ofEncounters, Walk.andThen, Walk.visit, collect, hmatch,
              List.singleton_append, Bool.false_eq_true, ↓reduceIte, bind, Except.bind]
            cases collect fs s (Walk.ofEncounters es).visits with
            | error g => rfl
            | ok rest => cases (Walk.ofEncounters es).failure <;> rfl

theorem gather_of_none {before es : List Encounter} (h : ∀ e ∈ before, found fs s e = .ok none) :
    gather fs s (before ++ es) = gather fs s es := by
  induction before with
  | nil => rfl
  | cons e before ih =>
      have he : found fs s e = .ok none := h e (by simp)
      have hrest := ih fun d hd => h d (List.mem_cons_of_mem _ hd)
      rw [List.cons_append, gather, he, hrest]
      cases gather fs s es <;> rfl

theorem gather_eq_ok {es : List Encounter} {files : List Source} (h : gather fs s es = .ok files) :
    (∀ e ∈ es, ∃ f, found fs s e = .ok f) ∧
      files = es.filterMap fun e => (found fs s e).toOption.join := by
  induction es generalizing files with
  | nil =>
      obtain rfl := Except.ok.inj h
      exact ⟨by simp, rfl⟩
  | cons e es ih =>
      cases hfound : found fs s e with
      | error f => simp [gather, hfound] at h
      | ok f =>
          cases hrest : gather fs s es with
          | error g => simp [gather, hfound, hrest, Except.map] at h
          | ok rest =>
              obtain ⟨hall, rfl⟩ := ih hrest
              refine ⟨?_, ?_⟩
              · intro d hd
                rcases List.mem_cons.mp hd with rfl | hd
                · exact ⟨f, hfound⟩
                · exact hall d hd
              · have hfiles : f.toList ++ es.filterMap (fun e => (found fs s e).toOption.join) =
                    files := by simpa [gather, hfound, hrest, Except.map] using h
                cases f <;> simp [← hfiles, hfound, Except.toOption]

theorem gather_isOk {es : List Encounter} (h : ∀ e ∈ es, ∃ f, found fs s e = .ok f) :
    ∃ files, gather fs s es = .ok files := by
  induction es with
  | nil => exact ⟨[], rfl⟩
  | cons e es ih =>
      obtain ⟨f, hf⟩ := h e (by simp)
      obtain ⟨rest, hrest⟩ := ih fun d hd => h d (by simp [hd])
      exact ⟨f.toList ++ rest, by simp [gather, hf, hrest, Except.map]⟩

theorem gather_eq_error {es : List Encounter} {f : Failure} (h : gather fs s es = .error f) :
    ∃ before e after, es = before ++ e :: after ∧ found fs s e = .error f ∧
      ∀ d ∈ before, ∃ g, found fs s d = .ok g := by
  induction es with
  | nil => cases h
  | cons e es ih =>
      cases hfound : found fs s e with
      | error g =>
          obtain rfl : g = f := by simpa [gather, hfound] using h
          exact ⟨[], e, es, rfl, hfound, by simp⟩
      | ok g =>
          cases hrest : gather fs s es with
          | ok rest => simp [gather, hfound, hrest, Except.map] at h
          | error k =>
              obtain rfl : k = f := by simpa [gather, hfound, hrest, Except.map] using h
              obtain ⟨before, d, after, rfl, hd, hbefore⟩ := ih hrest
              refine ⟨e :: before, d, after, rfl, hd, ?_⟩
              intro c hc
              rcases List.mem_cons.mp hc with rfl | hc
              · exact ⟨g, hfound⟩
              · exact hbefore c hc

end Gather

section Files

variable {fs : FileSystem} {s : Scan} {root : Path}

theorem stat_sorted_dir {loc : Location} {es : Entries} (h : fs.stat root = .ok (loc, .dir es)) :
    fs.sorted.stat root = .ok (loc, .dir (sortedEntries es)) := by
  rw [FileSystem.stat_sorted, h]
  rfl

/-- Below a directory a scan gathers what it comes to, in order. -/
theorem files_eq_gather {loc : Location} {es : Entries} (h : fs.stat root = .ok (loc, .dir es)) :
    s.files fs root =
      gather fs s.selection (s.encounters fs root loc (sortedEntries es)) := by
  have hvisits (vs : List Visit) (w : List Encounter) :
      Walk.andThen ⟨vs, none⟩ (.ofEncounters w) =
        .ofEncounters (vs.map (fun v => ⟨v.names, v.path, .ok v.kind⟩) ++ w) := by
    induction vs with
    | nil => rfl
    | cons v vs ih =>
        rw [List.map_cons, List.cons_append, Walk.ofEncounters, ← ih]
        rfl
  rw [encounters, ← collect_ofEncounters, ← hvisits, ← walkWithin_eq]
  simp only [files, walkRoot, stat_sorted_dir h]
  rfl

theorem files_of_missing {fault : IoFault} (h : fs.stat root = .error fault) :
    s.files fs root = .error (.rootNotFound root) := by
  simp [Scan.files, walkRoot, FileSystem.stat_sorted, h, Except.map, bind, Except.bind]

theorem files_of_other {loc : Location} {x : Node} (h : fs.stat root = .ok (loc, x))
    (hx : ∀ es, x ≠ .dir es) : s.files fs root = .error (.notADirectory root) := by
  cases x with
  | dir es => exact absurd rfl (hx es)
  | file _ _ | link _ | pipe | device _ =>
      simp [Scan.files, walkRoot, FileSystem.stat_sorted, h, Except.map, Node.sorted, bind, Except.bind]

theorem files_of_noDirectory (h : ∀ loc es, fs.stat root ≠ .ok (loc, .dir es)) :
    s.files fs root = .error (.rootNotFound root) ∨
      s.files fs root = .error (.notADirectory root) := by
  cases hstat : fs.stat root with
  | error fault => exact .inl (files_of_missing hstat)
  | ok end_ =>
      obtain ⟨loc, x⟩ := end_
      refine .inr (files_of_other hstat fun es hx => ?_)
      exact h loc es (hx ▸ hstat)

theorem stat_of_files {files : List Source} (h : s.files fs root = .ok files) :
    ∃ loc es, fs.stat root = .ok (loc, .dir es) := by
  refine Classical.byContradiction fun hnone => ?_
  have hno : ∀ loc es, fs.stat root ≠ .ok (loc, .dir es) := fun loc es he => hnone ⟨loc, es, he⟩
  rcases files_of_noDirectory (s := s) hno with hfailed | hfailed <;> cases h.symm.trans hfailed

end Files

end Scan

end Collate
