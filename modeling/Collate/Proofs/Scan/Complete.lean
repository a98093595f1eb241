import Collate.Proofs.Scan.Meets

/-!
A walk is complete: all that the search comes to is met, and all that is wrong there, unless something was
wrong further up on the way. The induction is on the names that lead to the entry's directory.
-/
namespace Collate

section Complete

variable {fs : FileSystem} {s : Scan} {root : Path} {follow : Directory → Entries → List Encounter}

theorem mem_meetEntries {rule : WalkRule} {d : Directory} {es : Entries} {n : Name} {x : Node}
    (hx : (n, x) ∈ es) {e : Encounter} (he : e ∈ meetEntry fs rule follow d n x) :
    e ∈ meetEntries fs rule follow d es := by
  induction es with
  | nil => cases hx
  | cons entry es ih =>
      obtain ⟨m, y⟩ := entry
      rw [meetEntries, List.mem_append]
      rcases List.mem_cons.mp hx with heq | hx
      · obtain ⟨rfl, rfl⟩ := Prod.mk.inj heq
        exact .inl he
      · exact .inr (ih hx)

/-- Some link on the way down by these names could not be followed. -/
def Scan.Faults (s : Scan) (es : List Encounter) (names : List Name) : Prop :=
  s.followLinks = true ∧ ∃ e ∈ es, e.names <+: names ∧ ∃ f, e.what = .error f

theorem Scan.Faults.snoc {es : List Encounter} {names : List Name} (h : s.Faults es names)
    (n : Name) : s.Faults es (names ++ [n]) := by
  obtain ⟨hmode, e, he, hinit, hfault⟩ := h
  exact ⟨hmode, e, he, hinit.trans (List.prefix_append _ _), hfault⟩

/-- The walk comes to the directory with these names, and everything in it is part of what is met. -/
structure Directory.Within (fs : FileSystem) (s : Scan) (root : Path) (met : List Encounter)
    (links : Nat) (d : Directory) : Prop where
  stands : d.Stands fs s root links
  isOpen : d.isClosed = false
  entries : ∃ es, fs.get? d.location = some (.dir es) ∧
    ∀ e ∈ meetEntries fs s.rule (meetFollow fs s.rule links) d es, e ∈ met

theorem top_stands {top : Location} {es : Entries} (h : fs.stat root = .ok (top, .dir es)) :
    (Directory.top root top s.maxDepth).Stands fs s root FileSystem.linkLimit where
  path := rfl
  leads := (FileSystem.stat_eq_ok_iff.mp h).1
  room := by simp [Directory.top]
  admitted := by simp [Directory.top]
  entered front back hnames hfront := by
    have hnil : front ++ back = [] := hnames.symm
    exact absurd (List.append_eq_nil_iff.mp hnil).1 hfront
  trail loc e := by
    have hres := (FileSystem.stat_eq_ok_iff.mp h).1
    have hnames : (Directory.top root top s.maxDepth).names = [] := rfl
    have htrail : (Directory.top root top s.maxDepth).trail = [(top, root)] := rfl
    rw [hnames, htrail, List.find?_singleton]
    constructor
    · intro hfind
      split at hfind
      · rename_i hloc
        obtain rfl : top = loc := by simpa using hloc
        exact ⟨[], FileSystem.encloses_self hres, (Option.some.inj hfind).symm⟩
      · cases hfind
    · rintro ⟨front, hfront, rfl⟩
      obtain rfl := List.prefix_nil.mp hfront.initial
      obtain rfl : top = loc := Place.found.inj (Except.ok.inj (hres.symm.trans hfront.leads))
      simp [Path.below]
  spares := FileSystem.spares_of_resolve (FileSystem.stat_eq_ok_iff.mp h).1

theorem top_isOpen {top : Location} {es : Entries} (h : fs.stat root = .ok (top, .dir es))
    {names : List Name} (hnear : ∀ depth, s.maxDepth = some depth → names.length < depth) :
    (Directory.top root top s.maxDepth).isClosed = false := by
  refine (Directory.isClosed_eq_false (top_stands h).room).mpr fun depth hdepth => ?_
  exact Nat.lt_of_le_of_lt (Nat.zero_le _) (hnear depth hdepth)

section Within

variable {met : List Encounter} {links : Nat} {d : Directory} {n : Name}

theorem Directory.Within.mem_of_entry (hd : d.Within fs s root met links) {x : Node}
    (hx : fs.get? (d.location ++ [n]) = some x) :
    ∀ e ∈ meetEntry fs s.rule (meetFollow fs s.rule links) d n x, e ∈ met := by
  obtain ⟨es, hes, hmet⟩ := hd.entries
  rw [FileSystem.get?_snoc hes] at hx
  have hlisted : (n, x) ∈ es := Entries.mem_of_get? hx
  exact fun e he => hmet e (mem_meetEntries hlisted he)

theorem Directory.Within.enter_dir (hd : d.Within fs s root met links) (hn : Name.isProper n)
    (hallowed : s.selection.allowsName n)
    (hnear : ∀ depth, s.maxDepth = some depth → d.names.length + 1 < depth) {es : Entries}
    (hx : fs.get? (d.location ++ [n]) = some (.dir es))
    (hlen : (d.path.entry n).length < FileSystem.pathLimit) :
    (d.enter n (d.location ++ [n])).Within fs s root met links where
  stands := hd.stands.enter_dir hn hallowed hx hlen
  isOpen := hd.stands.isOpen_enter hnear _
  entries := by
    refine ⟨es, hx, fun e he => hd.mem_of_entry hx e ?_⟩
    have hopen := hd.stands.isOpen_enter (n := n) hnear (d.location ++ [n])
    have hshort : ¬ FileSystem.pathLimit ≤ (d.enter n (d.location ++ [n])).path.length :=
      Nat.not_le.mpr hlen
    have hadmits : s.rule.admits n = true := hallowed
    simpa [meetEntry, hadmits, hopen, hshort] using he

/-- A link back to a directory on the way is met as a loop. -/
theorem Directory.Within.mem_of_loop (hd : d.Within fs s root met links)
    (hmode : s.followLinks = true) {target : Path}
    (hx : fs.get? (d.location ++ [n]) = some (.link target)) {loc : Location} {es : Entries}
    (hstat : fs.stat (d.path.entry n) = .ok (loc, .dir es)) {ancestor : Location × Path}
    (htrail : d.trail.find? (·.1 = loc) = some ancestor) :
    ⟨d.names ++ [n], d.path.entry n,
      .error (.walk (d.path.entry n) (loopMessage (d.path.entry n) ancestor.2))⟩ ∈ met := by
  apply hd.mem_of_entry hx
  have hrule : s.rule.followLinks = true := hmode
  simp [meetEntry, hrule, meetLink, hstat, htrail, Directory.meet]

theorem Directory.Within.mem_of_broken (hd : d.Within fs s root met links)
    (hmode : s.followLinks = true) {target : Path}
    (hx : fs.get? (d.location ++ [n]) = some (.link target)) {fault : IoFault}
    (hstat : fs.stat (d.path.entry n) = .error fault) :
    ⟨d.names ++ [n], d.path.entry n, .error (.unreadable (d.path.entry n) fault)⟩ ∈ met := by
  apply hd.mem_of_entry hx
  have hrule : s.rule.followLinks = true := hmode
  simp [meetEntry, hrule, meetLink, hstat, Directory.meet]

theorem Directory.Within.enter_link (hd : d.Within fs s root met links) (hn : Name.isProper n)
    (hallowed : s.selection.allowsName n)
    (hnear : ∀ depth, s.maxDepth = some depth → d.names.length + 1 < depth)
    (hmode : s.followLinks = true) {target : Path}
    (hx : fs.get? (d.location ++ [n]) = some (.link target)) {loc : Location} {es : Entries}
    (hstat : fs.stat (d.path.entry n) = .ok (loc, .dir es)) :
    (∃ left, (d.enter n loc).Within fs s root met left) ∨ s.Faults met (d.names ++ [n]) := by
  cases htrail : d.trail.find? (·.1 = loc) with
  | some ancestor =>
      have he := hd.mem_of_loop hmode hx hstat htrail
      exact .inr ⟨hmode, _, he, List.prefix_rfl, _, rfl⟩
  | none =>
      left
      obtain ⟨left, rfl, hinner⟩ := hd.stands.enter_link hn hallowed hmode hx hstat
      have hopen := hd.stands.isOpen_enter (n := n) hnear loc
      refine ⟨left, hinner, hopen, es, (FileSystem.stat_eq_ok_iff.mp hstat).2, fun e he => ?_⟩
      apply hd.mem_of_entry hx
      have hrule : s.rule.followLinks = true := hmode
      have hadmits : s.rule.admits n = true := hallowed
      simp only [meetEntry, hrule, ↓reduceIte, meetLink, hstat, hadmits, htrail]
      rw [meetFollow, meetWithin_eq, hopen]
      exact he

theorem Directory.Within.enter (hd : d.Within fs s root met links) (hn : Name.isProper n)
    (hallowed : s.selection.allowsName n)
    (hnear : ∀ depth, s.maxDepth = some depth → d.names.length + 1 < depth)
    (henters : s.Enters fs (d.path.entry n)) :
    (∃ (left : Nat) (inner : Directory), inner.Within fs s root met left ∧
      inner.names = d.names ++ [n]) ∨ s.Faults met (d.names ++ [n]) := by
  obtain ⟨loc, es, hfind⟩ := henters
  obtain ⟨hres, hes⟩ := FileSystem.find_eq_ok_iff.mp hfind
  have hlen : (d.path.entry n).length < FileSystem.pathLimit := FileSystem.length_lt_of_resolve hres
  obtain ⟨x, hx⟩ := FileSystem.get?_of_resolve_entry hd.stands.leads hn hres
  by_cases hlink : ∃ target, x = .link target
  · obtain ⟨target, rfl⟩ := hlink
    by_cases hmode : s.followLinks = true
    · have hstat : fs.stat (d.path.entry n) = .ok (loc, .dir es) := by
        simpa [Scan.ending, hmode, FileSystem.stat] using hfind
      refine (hd.enter_link hn hallowed hnear hmode hx hstat).imp_left ?_
      rintro ⟨left, hinner⟩
      exact ⟨left, _, hinner, rfl⟩
    · have hkeep := FileSystem.find_entry_link hd.stands.leads hn hlen hx
      simp [Scan.ending, hmode, hkeep] at hfind
  · have hplain := FileSystem.resolve_entry_found hd.stands.leads hn hlen hx
      (fun target e => hlink ⟨target, e⟩) s.ending
    obtain rfl : d.location ++ [n] = loc := Place.found.inj (Except.ok.inj (hplain.symm.trans hres))
    obtain rfl : x = .dir es := Option.some.inj (hx.symm.trans hes)
    exact .inl ⟨links, _, hd.enter_dir hn hallowed hnear hx hlen, rfl⟩

end Within

theorem Directory.Within.mem_of_shows {met : List Encounter} {links : Nat} {d : Directory} {n : Name}
    (hd : d.Within fs s root met links) (hallowed : s.selection.allowsName n) {x : Node}
    (hx : fs.get? (d.location ++ [n]) = some x) {kind : VisitKind}
    (hkind : s.Shows fs (d.path.entry n) x kind) :
    ⟨d.names ++ [n], d.path.entry n, .ok kind⟩ ∈ met := by
  apply hd.mem_of_entry hx
  have hadmits : s.rule.admits n = true := hallowed
  cases hkind with
  | file _ _ | pipe | device _ => simp [meetEntry, hadmits, Directory.meet]
  | kept _ hmode =>
      have hrule : s.rule.followLinks = false := hmode
      simp [meetEntry, hrule, hadmits, Directory.meet]
  | fileBehind hmode hstat =>
      have hrule : s.rule.followLinks = true := hmode
      simp [meetEntry, meetLink, hrule, hadmits, hstat, Directory.meet]
  | @specialBehind _ _ y hmode hstat hdir hfile =>
      have hrule : s.rule.followLinks = true := hmode
      cases y with
      | dir es => exact absurd rfl (hdir es)
      | file data room => exact absurd rfl (hfile data room)
      | link _ | pipe | device _ =>
          simp [meetEntry, meetLink, hrule, hadmits, hstat, Directory.meet]

theorem Directory.Within.mem_of_deep {met : List Encounter} {links : Nat} {d : Directory} {n : Name}
    (hd : d.Within fs s root met links) (hallowed : s.selection.allowsName n) {es : Entries}
    (hx : fs.get? (d.location ++ [n]) = some (.dir es))
    (hnear : ∀ depth, s.maxDepth = some depth → d.names.length + 1 < depth)
    (hlong : FileSystem.pathLimit ≤ (d.path.entry n).length) :
    ⟨d.names ++ [n], d.path.entry n, .error (.pathTooLong (d.path.entry n))⟩ ∈ met := by
  apply hd.mem_of_entry hx
  have hadmits : s.rule.admits n = true := hallowed
  have hopen := hd.stands.isOpen_enter (n := n) hnear (d.location ++ [n])
  have hdeep : FileSystem.pathLimit ≤ (d.enter n (d.location ++ [n])).path.length := hlong
  simp only [meetEntry, hadmits, hopen, hdeep, Directory.meet]
  simp [Directory.enter]

section Root

/-- All that a search is to meet below a directory. -/
def Scan.walked (fs : FileSystem) (s : Scan) (root : Path) (top : Location) (es : Entries) :
    List Encounter :=
  meetWithin fs s.rule FileSystem.linkLimit (.top root top s.maxDepth) es

variable {top : Location} {es : Entries} (hroot : fs.stat root = .ok (top, .dir es))
include hroot

private theorem Scan.Finds.within {names : List Name} {x : Node} (h : s.Finds fs root names x) :
    (∃ (links : Nat) (d : Directory) (n : Name),
      d.Within fs s root (s.walked fs root top es) links ∧
      names = d.names ++ [n] ∧ fs.get? (d.location ++ [n]) = some x) ∨
    s.Faults (s.walked fs root top es) names.dropLast := by
  obtain ⟨front, n, loc, inside, rfl, hstat, hget⟩ := h.lists
  rw [List.dropLast_concat]
  have hopen := top_isOpen hroot h.near_parent
  have htop : (Directory.top root top s.maxDepth).Within fs s root (s.walked fs root top es)
      FileSystem.linkLimit := by
    refine ⟨top_stands hroot, hopen, es, (FileSystem.stat_eq_ok_iff.mp hroot).2, ?_⟩
    intro e he
    rw [Scan.walked, meetWithin_eq, hopen, if_neg Bool.false_ne_true]
    exact he
  have hfront : (∃ (left : Nat) (d : Directory),
      d.Within fs s root (s.walked fs root top es) left ∧ d.names = front) ∨
      s.Faults (s.walked fs root top es) front := by
    apply h.parent_induction
    · exact .inl ⟨_, _, htop, rfl⟩
    · rintro names m (⟨left, d, hd, rfl⟩ | hfault) hm hallowed hnear henters
      · rw [← hd.stands.path_entry] at henters
        exact hd.enter hm hallowed hnear henters
      · exact .inr (hfault.snoc m)
  obtain ⟨links, d, hd, rfl⟩ | hfault := hfront
  · left
    have hleads := hd.stands.leads
    rw [hd.stands.path] at hleads
    obtain ⟨hres, hloc⟩ := FileSystem.stat_eq_ok_iff.mp hstat
    obtain rfl : d.location = loc := Place.found.inj (Except.ok.inj (hleads.symm.trans hres))
    refine ⟨links, d, n, hd, rfl, ?_⟩
    rw [FileSystem.get?_snoc hloc, hget]
  · exact .inr hfault

/-- Every entry that the search comes to is seen, unless a link on the way has failed. -/
theorem Scan.Meets.seen {names : List Name} {x : Node} (h : s.Meets fs root names x)
    {kind : VisitKind} (hkind : s.Shows fs (root.below names) x kind) :
    ⟨names, root.below names, .ok kind⟩ ∈ s.walked fs root top es ∨
      s.Faults (s.walked fs root top es) names.dropLast := by
  obtain ⟨links, d, n, hd, rfl, hx⟩ | hfault := h.finds.within hroot
  · left
    rw [← hd.stands.path_entry] at hkind ⊢
    exact hd.mem_of_shows (h.admitted n (by simp)).2 hx hkind
  · exact .inr hfault

theorem Scan.Fault.seen {names : List Name} {f : Failure} (h : s.Fault fs root names f) :
    ⟨names, root.below names, .error f⟩ ∈ s.walked fs root top es ∨
      s.Faults (s.walked fs root top es) names.dropLast := by
  cases h with
  | deep hmeets hnear hlong =>
      obtain ⟨links, d, n, hd, rfl, hx⟩ | hfault := hmeets.finds.within hroot
      · left
        rw [← hd.stands.path_entry] at hlong ⊢
        refine hd.mem_of_deep (hmeets.admitted n (by simp)).2 hx ?_ hlong
        simpa using hnear
      · exact .inr hfault
  | broken hmode hfinds hstat =>
      obtain ⟨links, d, n, hd, rfl, hx⟩ | hfault := hfinds.within hroot
      · left
        rw [← hd.stands.path_entry] at hstat ⊢
        exact hd.mem_of_broken hmode hx hstat
      · exact .inr hfault
  | loop hmode hfinds hstat hfront =>
      obtain ⟨links, d, n, hd, hnames, hx⟩ | hfault := hfinds.within hroot
      · left
        obtain ⟨rfl, rfl⟩ := List.append_singleton_inj.mp hnames
        rw [← hd.stands.path_entry] at hstat ⊢
        have htrail := (hd.stands.trail _ _).mpr ⟨_, hfront, rfl⟩
        have he := hd.mem_of_loop hmode hx hstat htrail
        exact he
      · exact .inr hfault

end Root

end Complete

end Collate
