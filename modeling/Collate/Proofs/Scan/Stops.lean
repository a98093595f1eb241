import Collate.Proofs.Scan.Order

/-!
What makes a search fail, whether or not links are followed. A search that nothing stops succeeds, and any
other fails for what stops it first, in the order of the names.
-/
namespace Collate.Scan

/-- What ends a search: a fault of its walk, a selected file whose path is too long or, if links are not
followed, a selected link that leads nowhere. -/
inductive Stops (fs : FileSystem) (s : Scan) (root : Path) : List Name → Failure → Prop where
  | fault {names : List Name} {f : Failure} :
      s.Fault fs root names f → Stops fs s root names f
  | file {names : List Name} {data : Bytes} {room : Option Nat} :
      s.Meets fs root names (.file data room) → s.selection.isMatch (root.below names) →
      FileSystem.pathLimit ≤ (root.below names).length →
      Stops fs s root names (.pathTooLong (root.below names))
  | link {names : List Name} {target : Path} {fault : IoFault} :
      s.followLinks = false → s.Meets fs root names (.link target) →
      s.selection.isMatch (root.below names) → fs.stat (root.below names) = .error fault →
      Stops fs s root names (.unreadable (root.below names) fault)

/-- What stops the search, with nothing before it that does. -/
structure FirstStop (fs : FileSystem) (s : Scan) (root : Path) (names : List Name) (f : Failure) :
    Prop where
  stops : s.Stops fs root names f
  first : ∀ names' f', s.Stops fs root names' f' → names ≤ names'

theorem Stops.exitCode {fs : FileSystem} {s : Scan} {root : Path} {names : List Name} {f : Failure}
    (h : s.Stops fs root names f) : f.exitCode = 3 := by
  cases h with
  | fault hfault => cases hfault <;> rfl
  | file _ _ _ | link _ _ _ _ => rfl

/-- Why a search stops at the names that lead to a node: its path is too long or, if it is a link, leads
nowhere or back. -/
inductive Cause (fs : FileSystem) (root : Path) (names : List Name) : Node → Failure → Prop where
  | long {x : Node} :
      (∀ target, x ≠ .link target) → Cause fs root names x (.pathTooLong (root.below names))
  | broken {target : Path} {fault : IoFault} :
      fs.stat (root.below names) = .error fault →
      Cause fs root names (.link target) (.unreadable (root.below names) fault)
  | loop {target : Path} {loc : Location} {x : Node} {front : List Name} :
      fs.stat (root.below names) = .ok (loc, x) → fs.Encloses root names.dropLast front loc →
      Cause fs root names (.link target)
        (.walk (root.below names) (loopMessage (root.below names) (root.below front)))

section Cause

variable {fs : FileSystem} {s : Scan} {root : Path} {names : List Name} {f : Failure}

theorem Stops.cause (h : s.Stops fs root names f) :
    ∃ x, s.Finds fs root names x ∧ Cause fs root names x f := by
  cases h with
  | file hmeets _ _ => exact ⟨_, hmeets.finds, .long (by simp)⟩
  | link _ hmeets _ hstat => exact ⟨_, hmeets.finds, .broken hstat⟩
  | fault hfault =>
      cases hfault with
      | deep hmeets _ _ => exact ⟨_, hmeets.finds, .long (by simp)⟩
      | broken _ hfinds hstat => exact ⟨_, hfinds, .broken hstat⟩
      | loop _ hfinds hstat hfront => exact ⟨_, hfinds, .loop hstat (by simpa using hfront)⟩

theorem Cause.unique {x : Node} {g : Failure} (h : Cause fs root names x f)
    (h' : Cause fs root names x g) : f = g := by
  cases h with
  | long hlink =>
      cases h' with
      | long _ => rfl
      | broken _ | loop _ _ => exact absurd rfl (hlink _)
  | broken hstat =>
      cases h' with
      | long hlink => exact absurd rfl (hlink _)
      | broken hstat' => rw [Except.error.inj (hstat.symm.trans hstat')]
      | loop hstat' _ => cases hstat.symm.trans hstat'
  | loop hstat hfront =>
      cases h' with
      | long hlink => exact absurd rfl (hlink _)
      | broken hstat' => cases hstat.symm.trans hstat'
      | loop hstat' hfront' =>
          cases hstat.symm.trans hstat'
          rw [hfront.unique hfront']

/-- At one place a search stops for one thing. -/
theorem Stops.unique {g : Failure} (h : s.Stops fs root names f) (h' : s.Stops fs root names g) :
    f = g := by
  obtain ⟨x, hx, hf⟩ := h.cause
  obtain ⟨y, hy, hg⟩ := h'.cause
  obtain rfl := hx.lists.unique hy.lists
  exact hf.unique hg

theorem Cause.names_path {x : Node} (h : Cause fs root names x f) :
    (∃ fault, f = .unreadable (root.below names) fault) ∨
      ∃ message, f = .walk (root.below names) message := by
  cases h with
  | long _ => exact .inl ⟨_, rfl⟩
  | broken _ => exact .inl ⟨_, rfl⟩
  | loop _ _ => exact .inr ⟨_, rfl⟩

theorem Stops.ne_nil (h : s.Stops fs root names f) : names ≠ [] := by
  obtain ⟨x, hfinds, -⟩ := h.cause
  obtain ⟨front, n, loc, es, rfl, -⟩ := hfinds.lists
  simp

/-- Searches of one root that stop for the same thing, in whatever trees, stop at the same place. -/
theorem Stops.names_eq {fs' : FileSystem} {s' : Scan} {names' : List Name}
    (h : s.Stops fs root names f) (h' : s'.Stops fs' root names' f) : names = names' := by
  obtain ⟨x, hfinds, hcause⟩ := h.cause
  obtain ⟨y, hfinds', hcause'⟩ := h'.cause
  have hpath : root.below names = root.below names' := by
    rcases hcause.names_path with ⟨fault, rfl⟩ | ⟨message, rfl⟩ <;>
      rcases hcause'.names_path with ⟨fault', hf⟩ | ⟨message', hf⟩
    · exact (Failure.unreadable.inj hf).1
    · cases hf
    · cases hf
    · exact (Failure.walk.inj hf).1
  refine Path.below_inj root h.ne_nil h'.ne_nil (fun n hn => ?_) hpath
  have hproper : Name.isProper n := (List.mem_append.mp hn).elim (hfinds.proper n) (hfinds'.proper n)
  obtain ⟨hne, -, -, hslash, -⟩ := Name.isProper_iff.mp hproper
  exact ⟨hne, hslash⟩

end Cause

section Sorted

variable {fs : FileSystem} {s : Scan} {root : Path} {names : List Name} {f : Failure}

theorem finds_sorted {y : Node} :
    s.Finds fs.sorted root names y ↔ ∃ x, s.Finds fs root names x ∧ y = x.sorted := by
  constructor
  · rintro ⟨hlists, hnear, hproper, hallowed, hinside⟩
    obtain ⟨x, hx, rfl⟩ := FileSystem.lists_sorted.mp hlists
    refine ⟨x, ⟨hx, hnear, hproper, hallowed, ?_⟩, rfl⟩
    intro front back h hfront hback
    exact enters_sorted.mp (hinside front back h hfront hback)
  · rintro ⟨x, ⟨hlists, hnear, hproper, hallowed, hinside⟩, rfl⟩
    refine ⟨FileSystem.lists_sorted.mpr ⟨x, hlists, rfl⟩, hnear, hproper, hallowed, ?_⟩
    intro front back h hfront hback
    exact enters_sorted.mpr (hinside front back h hfront hback)

theorem stat_error_sorted {p : Path} {fault : IoFault} :
    fs.sorted.stat p = .error fault ↔ fs.stat p = .error fault := by
  rw [FileSystem.stat_sorted]
  cases fs.stat p <;> simp [Except.map]

theorem encloses_sorted {front : List Name} {loc : Location} :
    fs.sorted.Encloses root names front loc ↔ fs.Encloses root names front loc := by
  constructor
  · rintro ⟨hinit, hleads, hinner⟩
    simp only [FileSystem.resolve_sorted] at hleads hinner
    exact ⟨hinit, hleads, hinner⟩
  · rintro ⟨hinit, hleads, hinner⟩
    refine ⟨hinit, ?_, ?_⟩
    · rwa [FileSystem.resolve_sorted]
    · simpa only [FileSystem.resolve_sorted] using hinner

theorem fault_sorted : s.Fault fs.sorted root names f ↔ s.Fault fs root names f := by
  constructor
  · intro h
    cases h with
    | deep hmeets hnear hlong =>
        obtain ⟨x, hx, hsorted⟩ := meets_sorted.mp hmeets
        obtain ⟨es, rfl, -⟩ := Node.sorted_eq_dir.mp hsorted.symm
        exact .deep hx hnear hlong
    | broken hmode hfinds hstat =>
        obtain ⟨x, hx, hsorted⟩ := finds_sorted.mp hfinds
        obtain rfl := Node.sorted_eq_link.mp hsorted.symm
        exact .broken hmode hx (stat_error_sorted.mp hstat)
    | loop hmode hfinds hstat hfront =>
        obtain ⟨x, hx, hsorted⟩ := finds_sorted.mp hfinds
        obtain rfl := Node.sorted_eq_link.mp hsorted.symm
        obtain ⟨es, hstat', -⟩ := FileSystem.find_dir_sorted.mp hstat
        exact .loop hmode hx hstat' (encloses_sorted.mp hfront)
  · intro h
    cases h with
    | deep hmeets hnear hlong => exact .deep (meets_sorted.mpr ⟨_, hmeets, rfl⟩) hnear hlong
    | broken hmode hfinds hstat =>
        exact .broken hmode (finds_sorted.mpr ⟨_, hfinds, rfl⟩) (stat_error_sorted.mpr hstat)
    | loop hmode hfinds hstat hfront =>
        exact .loop hmode (finds_sorted.mpr ⟨_, hfinds, rfl⟩) (stat_sorted_dir hstat)
          (encloses_sorted.mpr hfront)

theorem stops_sorted : s.Stops fs.sorted root names f ↔ s.Stops fs root names f := by
  constructor
  · intro h
    cases h with
    | fault hfault => exact .fault (fault_sorted.mp hfault)
    | file hmeets hmatch hlong =>
        obtain ⟨x, hx, hsorted⟩ := meets_sorted.mp hmeets
        obtain rfl := Node.sorted_eq_file.mp hsorted.symm
        exact .file hx hmatch hlong
    | link hmode hmeets hmatch hstat =>
        obtain ⟨x, hx, hsorted⟩ := meets_sorted.mp hmeets
        obtain rfl := Node.sorted_eq_link.mp hsorted.symm
        exact .link hmode hx hmatch (stat_error_sorted.mp hstat)
  · intro h
    cases h with
    | fault hfault => exact .fault (fault_sorted.mpr hfault)
    | file hmeets hmatch hlong => exact .file (meets_sorted.mpr ⟨_, hmeets, rfl⟩) hmatch hlong
    | link hmode hmeets hmatch hstat =>
        exact .link hmode (meets_sorted.mpr ⟨_, hmeets, rfl⟩) hmatch (stat_error_sorted.mpr hstat)

end Sorted

section Outcome

variable {fs : FileSystem} {s : Scan} {root : Path} {top : Location} {es : Entries}

theorem stops_of_sound {e : Encounter} (he : e.Sound fs s root) {f : Failure}
    (hf : found fs s.selection e = .error f) : s.Stops fs root e.names f := by
  cases he with
  | fault hfault =>
      obtain rfl := Except.error.inj hf
      exact .fault hfault
  | seen hmeets hkind =>
      simp only [found] at hf
      split at hf
      · rename_i hmatch
        cases hkind with
        | pipe | device _ | specialBehind _ _ _ _ => cases hf
        | file data room =>
            simp only [source?] at hf
            split at hf
            · rename_i hlong
              obtain rfl := Except.error.inj hf
              exact .file hmeets hmatch hlong
            · cases hf
        | fileBehind _ hstat =>
            have hshort := FileSystem.length_lt_of_resolve (FileSystem.stat_eq_ok_iff.mp hstat).1
            simp only [source?] at hf
            rw [if_neg (Nat.not_le.mpr hshort)] at hf
            cases hf
        | kept target hmode =>
            simp only [source?] at hf
            split at hf
            · rename_i fault hstat
              obtain rfl := Except.error.inj hf
              exact .link hmode hmeets hmatch hstat
            · cases hf
            · cases hf
      · cases hf

theorem Stops.seen (hroot : fs.stat root = .ok (top, .dir es)) {names : List Name} {f : Failure}
    (h : s.Stops fs root names f) :
    (∃ e ∈ s.walked fs root top es, e.names = names ∧ found fs s.selection e = .error f) ∨
      s.Faults (s.walked fs root top es) names.dropLast := by
  cases h with
  | fault hfault => exact (hfault.seen hroot).imp_left fun he => ⟨_, he, rfl, rfl⟩
  | file hmeets hmatch hlong =>
      refine (hmeets.seen hroot (.file _ _)).imp_left fun he => ⟨_, he, rfl, ?_⟩
      simp [found, hmatch, source?, hlong]
  | link hmode hmeets hmatch hstat =>
      refine (hmeets.seen hroot (.kept _ hmode)).imp_left fun he => ⟨_, he, rfl, ?_⟩
      simp [found, hmatch, source?, hstat]

variable (hroot : fs.stat root = .ok (top, .dir es))
include hroot

theorem met_of_stops {names : List Name} {f : Failure} (h : s.Stops fs root names f) :
    ∃ e ∈ s.met fs root top es, e.names ≤ names ∧ ∃ g, found fs s.selection e = .error g := by
  rcases (stops_sorted.mpr h).seen (stat_sorted_dir hroot) with ⟨e, he, rfl, hfound⟩ | hfaults
  · rw [found_sorted] at hfound
    exact ⟨e, he, List.le_refl _, f, hfound⟩
  · obtain ⟨-, e, he, hinit, g, hg⟩ := hfaults
    exact ⟨e, he, (hinit.trans (List.dropLast_prefix names)).le, g, by simp [found, hg]⟩

end Outcome

section First

variable {fs : WellFormedFileSystem} {s : Scan} {root : Path} {top : Location} {es : Entries}
  (hroot : fs.stat root = .ok (top, .dir es))
include hroot

theorem stops_of_found {e : Encounter} (he : e ∈ s.met fs root top es) {f : Failure}
    (hfound : found fs s.selection e = .error f) : s.Stops fs root e.names f := by
  rw [← found_sorted] at hfound
  exact stops_sorted.mp (stops_of_sound (met_sound hroot he) hfound)

/-- A search succeeds exactly if nothing stops it. -/
theorem files_isOk_iff_stops :
    (∃ files, s.files fs root = .ok files) ↔ ¬ ∃ names f, s.Stops fs root names f := by
  rw [files_eq_gather_met hroot]
  constructor
  · rintro ⟨files, hfiles⟩ ⟨names, f, h⟩
    obtain ⟨e, he, -, g, hfound⟩ := met_of_stops hroot h
    obtain ⟨k, hk⟩ := (gather_eq_ok hfiles).1 e he
    cases hk.symm.trans hfound
  · intro hnone
    refine gather_isOk fun e he => ?_
    cases hfound : found fs s.selection e with
    | ok f => exact ⟨f, rfl⟩
    | error failure => exact absurd ⟨e.names, failure, stops_of_found hroot he hfound⟩ hnone

theorem first_stop {f : Failure} (herror : s.files fs root = .error f) :
    ∃ names, s.Stops fs root names f ∧
      ∀ names' f', s.Stops fs root names' f' → names ≤ names' := by
  rw [files_eq_gather_met hroot] at herror
  obtain ⟨before, d, after, hsplit, hfound, hbefore⟩ := gather_eq_error herror
  refine ⟨d.names, stops_of_found hroot (by simp [hsplit]) hfound, fun names' f' h' => ?_⟩
  -- Whatever else stops the search is not among what was passed before the failure.
  obtain ⟨e, he, hle, g, hfailed⟩ := met_of_stops hroot h'
  refine List.le_trans ?_ hle
  have horder := met_pairwise (s := s) hroot
  rw [hsplit] at he horder
  rcases List.mem_append.mp he with he | he
  · obtain ⟨k, hk⟩ := hbefore e he
    cases hk.symm.trans hfailed
  · rcases List.mem_cons.mp he with rfl | he
    · exact List.le_refl _
    · have hlater := (List.pairwise_cons.mp (List.pairwise_append.mp horder).2.1).1
      exact List.le_of_lt (hlater e he)

/-- A search fails exactly for what stops it first. -/
theorem files_eq_error_iff {f : Failure} :
    s.files fs root = .error f ↔ ∃ names, s.FirstStop fs root names f := by
  constructor
  · intro herror
    obtain ⟨names, hstop, hfirst⟩ := first_stop hroot herror
    exact ⟨names, hstop, hfirst⟩
  · rintro ⟨names, hstop, hfirst⟩
    cases hfiles : s.files fs root with
    | ok files => exact absurd ⟨names, f, hstop⟩ ((files_isOk_iff_stops hroot).mp ⟨files, hfiles⟩)
    | error g =>
        obtain ⟨names', hstop', hfirst'⟩ := first_stop hroot hfiles
        obtain rfl : names = names' :=
          List.le_antisymm (hfirst names' g hstop') (hfirst' names f hstop)
        rw [hstop.unique hstop']

theorem exists_firstStop {names : List Name} {f : Failure} (h : s.Stops fs root names f) :
    ∃ names' f', s.FirstStop fs root names' f' := by
  cases hfiles : s.files fs root with
  | ok files => exact absurd ⟨names, f, h⟩ ((files_isOk_iff_stops hroot).mp ⟨files, hfiles⟩)
  | error g =>
      obtain ⟨names', hnames'⟩ := (files_eq_error_iff hroot).mp hfiles
      exact ⟨names', g, hnames'⟩

end First

end Collate.Scan
