import Mathlib.Data.Finset.Card
import Collate.Proofs.Scan.Steps
import Collate.Proofs.Scan.Stops

/-!
Links that lead back. A walk ends from every state of every tree: a link is followed only to a directory that is
not yet on the trail, of which there are ever fewer, and between two links the walk only goes down the tree. Real
directories are not compared with the trail, so one of them can be on it twice before a link leads back to it.
-/
namespace Collate

mutual

/-- Where the directories at and below a location are. -/
def Node.directories (here : Location) : Node → List Location
  | .dir es => here :: directoriesIn here es
  | _ => []

def directoriesIn (here : Location) : List (Name × Node) → List Location
  | [] => []
  | (n, x) :: es => x.directories (here ++ [n]) ++ directoriesIn here es

end

theorem directories_of_mem {here : Location} {es : Entries} {n : Name} {x : Node}
    (h : (n, x) ∈ es) {loc : Location} (hloc : loc ∈ x.directories (here ++ [n])) :
    loc ∈ directoriesIn here es := by
  induction es with
  | nil => cases h
  | cons entry es ih =>
      obtain ⟨m, y⟩ := entry
      rw [directoriesIn, List.mem_append]
      rcases List.mem_cons.mp h with heq | h
      · obtain ⟨rfl, rfl⟩ := Prod.mk.inj heq
        exact .inl hloc
      · exact .inr (ih h)

theorem Node.mem_directories {x : Node} {here loc : Location} {es : Entries}
    (h : x.get? loc = some (.dir es)) : here ++ loc ∈ x.directories here := by
  induction loc generalizing x here with
  | nil =>
      obtain rfl : x = .dir es := by simpa [Node.get?] using h
      simp [directories]
  | cons n loc ih =>
      cases x with
      | dir entries =>
          obtain ⟨y, hy, hget⟩ := Option.bind_eq_some_iff.mp (by simpa [Node.get?] using h)
          have hinner : (here ++ [n]) ++ loc ∈ y.directories (here ++ [n]) := ih hget
          rw [List.append_assoc, List.singleton_append] at hinner
          exact List.mem_cons_of_mem _ (directories_of_mem (Entries.mem_of_get? hy) hinner)
      | file _ _ | link _ | pipe | device _ => simp [Node.get?] at h

namespace Directory

/-- The directories of the tree that are not on the trail. -/
def unused (fs : FileSystem) (d : Directory) : Finset Location :=
  (fs.root.directories []).toFinset \ (d.trail.map Prod.fst).toFinset

theorem unused_enter (fs : FileSystem) (d : Directory) (n : Name) (loc : Location) :
    (d.enter n loc).unused fs = (d.unused fs).erase loc := by
  simp only [unused, enter, List.map_cons, List.toFinset_cons, Finset.sdiff_insert]

theorem card_unused_lt {fs : FileSystem} {d : Directory} {loc : Location} {es : Entries}
    (hloc : fs.get? loc = some (.dir es)) (htrail : d.trail.find? (·.1 = loc) = none) (n : Name) :
    ((d.enter n loc).unused fs).card < (d.unused fs).card := by
  rw [unused_enter]
  refine Finset.card_erase_lt_of_mem (Finset.mem_sdiff.mpr ⟨?_, ?_⟩)
  · exact List.mem_toFinset.mpr (Node.mem_directories hloc)
  · simpa using fun path hpath => List.find?_eq_none.mp htrail (loc, path) hpath

theorem card_unused_le (fs : FileSystem) (d : Directory) (n : Name) (loc : Location) :
    ((d.enter n loc).unused fs).card ≤ (d.unused fs).card := by
  rw [unused_enter]
  exact Finset.card_erase_le

end Directory

namespace Walker

/-- The walk is over after finitely many steps. -/
def Ends (fs : FileSystem) (rule : WalkRule) (w : Walker) : Prop :=
  ∃ walk, w.EndsAs fs rule walk

section Ends

variable {fs : FileSystem} {rule : WalkRule}

theorem ends_of_step {w next : Walker} (h : w.step fs rule = .inl next) (hnext : next.Ends fs rule) :
    w.Ends fs rule :=
  hnext.imp fun _ hwalk => endsAs_of_step h hwalk

/-- However much has been visited, the walk ends when these directories are left. -/
def Leaves (fs : FileSystem) (rule : WalkRule) (pending : List (Directory × Entries)) : Prop :=
  ∀ visits, Ends fs rule ⟨visits, pending⟩

variable {d : Directory} {n : Name} {es : Entries} {rest : List (Directory × Entries)}

theorem ends_of_move {x : Node} (hrest : Leaves fs rule ((d, es) :: rest))
    (henter : ∀ inner entries, Move.ofNode fs rule d n x = .enter inner entries →
      Leaves fs rule ((inner, entries) :: (d, es) :: rest)) :
    Leaves fs rule ((d, (n, x) :: es) :: rest) := by
  intro visits
  cases hmove : Move.ofNode fs rule d n x with
  | pass => exact ends_of_step (by simp only [step, hmove]) (hrest visits)
  | visit v => exact ends_of_step (by simp only [step, hmove]) (hrest (visits ++ [v]))
  | fail f => exact ⟨⟨visits, some f⟩, endsAs_of_over (by simp only [step, hmove])⟩
  | enter inner entries =>
      exact ends_of_step (by simp only [step, hmove]) (henter inner entries hmove visits)

/-- Across a link the walk only comes to directories that were unused. -/
theorem unused_of_acrossLink {inner : Directory} {entries : Entries}
    (h : Move.acrossLink fs rule d n = .enter inner entries) :
    (inner.unused fs).card < (d.unused fs).card := by
  obtain ⟨loc, hstat, htrail, -, -, rfl⟩ := Move.acrossLink_eq_enter h
  exact Directory.card_unused_lt (FileSystem.stat_eq_ok_iff.mp hstat).2 htrail n

/-- Walks end that start in a directory of which fewer than so many others are unused. -/
def EndsBelow (fs : FileSystem) (rule : WalkRule) (bound : Nat) : Prop :=
  ∀ (inner : Directory) entries rest, (inner.unused fs).card < bound → Leaves fs rule rest →
    Leaves fs rule ((inner, entries) :: rest)

mutual

theorem leaves_entry {bound : Nat} (hbelow : EndsBelow fs rule bound) (d : Directory)
    (hd : (d.unused fs).card ≤ bound) (n : Name) : (x : Node) → ∀ es rest,
      Leaves fs rule ((d, es) :: rest) → Leaves fs rule ((d, (n, x) :: es) :: rest)
  | .link _, es, rest, hrest => by
      refine ends_of_move hrest fun inner entries hmove => ?_
      simp only [Move.ofNode] at hmove
      split at hmove
      · exact hbelow inner entries _ (Nat.lt_of_lt_of_le (unused_of_acrossLink hmove) hd) hrest
      · exact absurd hmove Move.visitIf_ne_enter
  | .dir inside, es, rest, hrest => by
      refine ends_of_move hrest fun inner entries hmove => ?_
      obtain ⟨rfl, rfl, -⟩ := Move.into_eq_enter hmove
      have hinner := Nat.le_trans (Directory.card_unused_le fs d n (d.location ++ [n])) hd
      exact leaves_entries hbelow _ hinner inside _ hrest
  | .file _ _, es, rest, hrest | .pipe, es, rest, hrest | .device _, es, rest, hrest =>
      ends_of_move hrest fun _ _ hmove => absurd hmove Move.visitIf_ne_enter

theorem leaves_entries {bound : Nat} (hbelow : EndsBelow fs rule bound) (d : Directory)
    (hd : (d.unused fs).card ≤ bound) : (es : List (Name × Node)) → ∀ rest,
      Leaves fs rule rest → Leaves fs rule ((d, es) :: rest)
  | [], _, hrest => fun visits => ends_of_step rfl (hrest visits)
  | (n, x) :: es, rest, hrest =>
      leaves_entry hbelow d hd n x es rest (leaves_entries hbelow d hd es rest hrest)

end

theorem leaves_cons (d : Directory) (es : Entries) (rest : List (Directory × Entries))
    (hrest : Leaves fs rule rest) : Leaves fs rule ((d, es) :: rest) := by
  generalize hbound : (d.unused fs).card = bound
  induction bound using Nat.strong_induction_on generalizing d es rest with
  | h bound ih =>
      have hbelow : EndsBelow fs rule bound := fun inner entries rest hlt hrest =>
        ih _ hlt inner entries rest hrest rfl
      exact leaves_entries hbelow d (Nat.le_of_eq hbound) es rest hrest

end Ends

/-- Every walk ends, whatever tree it goes through and wherever it has got to. -/
theorem ends (fs : FileSystem) (rule : WalkRule) (w : Walker) : w.Ends fs rule := by
  obtain ⟨visits, pending⟩ := w
  induction pending generalizing visits with
  | nil => exact ⟨⟨visits, none⟩, endsAs_nil fs rule visits⟩
  | cons entry pending ih => exact leaves_cons entry.1 entry.2 pending ih visits

end Walker

namespace Scan

variable {fs : FileSystem} {s : Scan} {root : Path}

theorem files_of_loop (fs : WellFormedFileSystem) (hmode : s.followLinks = true) {top : Location}
    {es : Entries} (hroot : fs.stat root = .ok (top, .dir es)) {dir front : List Name} {n : Name}
    {target : Path} {loc : Location} {inner : Entries}
    (hfinds : s.Finds fs root (dir ++ [n]) (.link target))
    (hstat : fs.stat (root.below (dir ++ [n])) = .ok (loc, .dir inner))
    (hfront : fs.Encloses root dir front loc)
    (hfirst : ∀ names f, s.Stops fs root names f → dir ++ [n] ≤ names) :
    s.files fs root = .error (.walk (root.below (dir ++ [n]))
      (loopMessage (root.below (dir ++ [n])) (root.below front))) :=
  (files_eq_error_iff hroot).mpr ⟨_, .fault (.loop hmode hfinds hstat hfront), hfirst⟩

/-- Over any links a search comes to its end after finitely many steps, which give its walk. If a link to a
directory on the way there is the first thing that stops it, it fails for that link. -/
theorem ends_over_links (fs : WellFormedFileSystem) (hmode : s.followLinks = true) :
    (∀ w, ∃ steps walk, Walker.run fs.toFileSystem.sorted s.rule steps w = some walk) ∧
    ((∀ loc es, fs.stat root ≠ .ok (loc, .dir es)) →
      s.files fs root = .error (.rootNotFound root) ∨ s.files fs root = .error (.notADirectory root)) ∧
    ∀ top es, fs.stat root = .ok (top, .dir es) →
      (∃ steps walk, Walker.run fs.toFileSystem.sorted s.rule steps
          (.start (.top root top s.maxDepth) (sortedEntries es)) = some walk ∧
        s.walkRoot fs root = .ok walk) ∧
      ∀ dir n target loc inner front,
        s.Finds fs root (dir ++ [n]) (.link target) →
        fs.stat (root.below (dir ++ [n])) = .ok (loc, .dir inner) →
        front <+: dir → fs.resolve .follow (root.below front) = .ok (.found loc) →
        (∀ names f, s.Stops fs root names f → dir ++ [n] ≤ names) →
        ∃ ancestor failure, fs.Encloses root dir ancestor loc ∧
          failure = .walk (root.below (dir ++ [n]))
            (loopMessage (root.below (dir ++ [n])) (root.below ancestor)) ∧
          failure.exitCode = 3 ∧ s.files fs root = .error failure := by
  refine ⟨fun w => ?_, files_of_noDirectory, fun top es hroot => ⟨?_, ?_⟩⟩
  · obtain ⟨walk, steps, hsteps⟩ := Walker.ends fs.sorted s.rule w
    exact ⟨steps, walk, hsteps⟩
  · have hsorted := stat_sorted_dir hroot
    have hwalk : s.walkRoot fs root =
        .ok (walkWithin fs.sorted s.rule FileSystem.linkLimit (.top root top s.maxDepth)
          (sortedEntries es)) := by
      simp only [walkRoot, hsorted, rootVisit, hmode, ↓reduceIte]
      rfl
    obtain ⟨steps, hsteps⟩ := Walker.start_endsAs fs.sorted
      (top_stands (s := s) hsorted) (FileSystem.stat_eq_ok_iff.mp hsorted).2
    exact ⟨steps, _, hsteps, hwalk⟩
  · intro dir n target loc inner front hfinds hstat hinit hleads hfirst
    obtain ⟨ancestor, hancestor⟩ := FileSystem.exists_encloses hinit hleads
    exact ⟨ancestor, _, hancestor, rfl, rfl,
      files_of_loop fs hmode hroot hfinds hstat hancestor hfirst⟩

/-- A link to the directory above the root. The root is entered again below it before it leads back. -/
def linkAboveRoot : WellFormedFileSystem where
  root := .dir [(Utf8.encode "top", .dir [(Utf8.encode "root", .dir [
    (Utf8.encode "back", .link Path.dotDot)])])]
  cwd := []
  wellFormed := rfl

def followingLinks : Scan :=
  ⟨⟨"rs", false, none⟩, true, none⟩

theorem ends_over_links_linkAboveRoot :
    followingLinks.followLinks = true ∧
    ∃ dir n target loc inner front,
      followingLinks.Finds linkAboveRoot (Utf8.encode "top/root") (dir ++ [n]) (.link target) ∧
      linkAboveRoot.stat (Path.below (Utf8.encode "top/root") (dir ++ [n])) = .ok (loc, .dir inner) ∧
      front <+: dir ∧
      linkAboveRoot.resolve .follow (Path.below (Utf8.encode "top/root") front) = .ok (.found loc) ∧
      (∀ names f, followingLinks.Stops linkAboveRoot (Utf8.encode "top/root") names f →
        dir ++ [n] ≤ names) ∧
      Path.below (Utf8.encode "top/root") (dir ++ [n]) = Utf8.encode "top/root/back/root/back" ∧
      ∃ failure, failure.exitCode = 3 ∧
        followingLinks.files linkAboveRoot (Utf8.encode "top/root") = .error failure := by
  obtain ⟨top, es, hroot⟩ : ∃ top es,
      linkAboveRoot.stat (Utf8.encode "top/root") = .ok (top, .dir es) := ⟨_, _, rfl⟩
  obtain ⟨failure, hfailure⟩ : ∃ failure, failure =
      Failure.walk (Utf8.encode "top/root/back/root/back")
        (loopMessage (Utf8.encode "top/root/back/root/back") (Utf8.encode "top/root/back")) :=
    ⟨_, rfl⟩
  have hfiles : followingLinks.files linkAboveRoot (Utf8.encode "top/root") = .error failure := by
    rw [hfailure]
    decide +kernel
  -- What stops the search first can only be a link back, for no other failure reads like that.
  obtain ⟨names, hstop, hleast⟩ := first_stop hroot hfiles
  cases hstop with
  | file _ _ _ | link _ _ _ _ => cases hfailure
  | fault hfault =>
      cases hfault with
      | deep _ _ _ | broken _ _ _ => cases hfailure
      | @loop dir front n target loc inner hmode hfinds hstat hfront =>
          have hpath := (Failure.walk.inj hfailure).1
          obtain ⟨-, -, hends⟩ := ends_over_links (s := followingLinks) linkAboveRoot rfl
          obtain ⟨ancestor, failure, -, -, hcode, herror⟩ := (hends top es hroot).2 dir n target loc
            inner front hfinds hstat hfront.initial hfront.leads hleast
          exact ⟨rfl, dir, n, target, loc, inner, front, hfinds, hstat, hfront.initial,
            hfront.leads, hleast, hpath, failure, hcode, herror⟩

end Scan

end Collate
