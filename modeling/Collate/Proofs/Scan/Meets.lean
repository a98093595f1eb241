import Mathlib.Data.List.Induction
import Collate.Proofs.Scan.Encounter

/-!
What a search comes to, said without its walk: the entries below the root that are near enough and lie, by
admitted names only, in directories that it enters. All that a walk meets is such an entry, or what is wrong
with one.
-/
namespace Collate

namespace FileSystem

/-- The directory that all names but the last lead to lists the node under the last one. -/
def Lists (fs : FileSystem) (root : Path) (names : List Name) (x : Node) : Prop :=
  ∃ front n loc es, names = front ++ [n] ∧ fs.stat (root.below front) = .ok (loc, .dir es) ∧
    Entries.get? es n = some x

theorem Lists.unique {fs : FileSystem} {root : Path} {names : List Name} {x y : Node}
    (hx : fs.Lists root names x) (hy : fs.Lists root names y) : x = y := by
  obtain ⟨front, n, loc, es, rfl, hstat, hget⟩ := hx
  obtain ⟨front', n', loc', es', hnames, hstat', hget'⟩ := hy
  obtain ⟨rfl, rfl⟩ := List.append_singleton_inj.mp hnames
  cases hstat.symm.trans hstat'
  exact Option.some.inj (hget.symm.trans hget')

/-- Of the directories on the way down by these names, `front` leads to the innermost one at the location. -/
structure Encloses (fs : FileSystem) (root : Path) (names front : List Name) (loc : Location) :
    Prop where
  initial : front <+: names
  leads : fs.resolve .follow (root.below front) = .ok (.found loc)
  innermost : ∀ inner, front <+: inner → inner <+: names → inner ≠ front →
    fs.resolve .follow (root.below inner) ≠ .ok (.found loc)

theorem Encloses.unique {fs : FileSystem} {root : Path} {names front other : List Name}
    {loc : Location} (h : fs.Encloses root names front loc) (h' : fs.Encloses root names other loc) :
    front = other := by
  rcases List.prefix_or_prefix_of_prefix h.initial h'.initial with hprefix | hprefix
  · refine Decidable.byContradiction fun hne => ?_
    exact h.innermost other hprefix h'.initial (Ne.symm hne) h'.leads
  · refine Decidable.byContradiction fun hne => ?_
    exact h'.innermost front hprefix h.initial hne h.leads

theorem encloses_self {fs : FileSystem} {root : Path} {names : List Name} {loc : Location}
    (h : fs.resolve .follow (root.below names) = .ok (.found loc)) :
    fs.Encloses root names names loc :=
  ⟨List.prefix_rfl, h, fun _ ha hb hne => absurd (hb.eq_of_length_le ha.length_le) hne⟩

theorem Encloses.snoc {fs : FileSystem} {root : Path} {names front : List Name} {n : Name}
    {loc : Location} (h : fs.Encloses root names front loc)
    (hn : fs.resolve .follow (root.below (names ++ [n])) ≠ .ok (.found loc)) :
    fs.Encloses root (names ++ [n]) front loc where
  initial := h.initial.trans (List.prefix_append _ _)
  leads := h.leads
  innermost inner ha hb hne := by
    rcases List.prefix_concat_iff.mp hb with rfl | hb
    · exact hn
    · exact h.innermost inner ha hb hne

/-- Of the directories on the way that lead to one place, one is innermost. -/
theorem exists_encloses {fs : FileSystem} {root : Path} {names front : List Name} {loc : Location}
    (hinit : front <+: names) (h : fs.resolve .follow (root.below front) = .ok (.found loc)) :
    ∃ inner, fs.Encloses root names inner loc := by
  induction names using List.reverseRecOn with
  | nil =>
      obtain rfl := List.prefix_nil.mp hinit
      exact ⟨[], encloses_self h⟩
  | append_singleton names n ih =>
      by_cases hn : fs.resolve .follow (root.below (names ++ [n])) = .ok (.found loc)
      · exact ⟨names ++ [n], encloses_self hn⟩
      · rcases List.prefix_concat_iff.mp hinit with rfl | hinit
        · exact absurd h hn
        · obtain ⟨inner, hinner⟩ := ih hinit
          exact ⟨inner, hinner.snoc hn⟩

theorem encloses_snoc {fs : FileSystem} {root : Path} {names front : List Name} {n : Name}
    {inner loc : Location} (h : fs.resolve .follow (root.below (names ++ [n])) = .ok (.found inner)) :
    fs.Encloses root (names ++ [n]) front loc ↔
      if inner = loc then front = names ++ [n] else fs.Encloses root names front loc := by
  split
  · rename_i hloc
    subst hloc
    constructor
    · intro hfront
      refine Decidable.byContradiction fun hne => ?_
      exact hfront.innermost _ hfront.initial List.prefix_rfl (Ne.symm hne) h
    · rintro rfl
      exact encloses_self h
  · rename_i hloc
    have hn : fs.resolve .follow (root.below (names ++ [n])) ≠ .ok (.found loc) := fun hres =>
      hloc (Place.found.inj (Except.ok.inj (h.symm.trans hres)))
    constructor
    · intro hfront
      rcases List.prefix_concat_iff.mp hfront.initial with rfl | hinit
      · exact absurd hfront.leads hn
      · exact ⟨hinit, hfront.leads, fun deep ha hb =>
          hfront.innermost deep ha (hb.trans (List.prefix_append _ _))⟩
    · exact fun hfront => hfront.snoc hn

end FileSystem

namespace Scan

def ending (s : Scan) : Ending :=
  if s.followLinks then .follow else .keep

theorem ending_of_follows {s : Scan} (h : s.followLinks = true) : s.ending = .follow := by
  simp [ending, h]

theorem ending_ne_create (s : Scan) : s.ending ≠ .create := by
  unfold ending
  split <;> simp

/-- The path is that of a directory, and of no link to one unless links are followed. -/
def Enters (fs : FileSystem) (s : Scan) (p : Path) : Prop :=
  ∃ loc es, fs.find s.ending p = .ok (loc, .dir es)

/-- The search comes to the node by these names below its root. -/
structure Meets (fs : FileSystem) (s : Scan) (root : Path) (names : List Name) (x : Node) :
    Prop where
  lists : fs.Lists root names x
  near : ∀ depth, s.maxDepth = some depth → names.length ≤ depth
  admitted : ∀ n ∈ names, Name.isProper n ∧ s.selection.allowsName n
  inside : ∀ front back, names = front ++ back → front ≠ [] → back ≠ [] →
    s.Enters fs (root.below front)

/-- The search looks at the node by these names. What a link leads to is looked at before its name is. -/
structure Finds (fs : FileSystem) (s : Scan) (root : Path) (names : List Name) (x : Node) :
    Prop where
  lists : fs.Lists root names x
  near : ∀ depth, s.maxDepth = some depth → names.length ≤ depth
  proper : ∀ n ∈ names, Name.isProper n
  allowed : ∀ n ∈ names.dropLast, s.selection.allowsName n
  inside : ∀ front back, names = front ++ back → front ≠ [] → back ≠ [] →
    s.Enters fs (root.below front)

theorem Meets.finds {fs : FileSystem} {s : Scan} {root : Path} {names : List Name} {x : Node}
    (h : s.Meets fs root names x) : s.Finds fs root names x where
  lists := h.lists
  near := h.near
  proper n hn := (h.admitted n hn).1
  allowed n hn := (h.admitted n (List.dropLast_subset names hn)).2
  inside := h.inside

theorem Finds.meets {fs : FileSystem} {s : Scan} {root : Path} {names : List Name} {x : Node}
    (h : s.Finds fs root names x) (hallowed : ∀ n ∈ names, s.selection.allowsName n) :
    s.Meets fs root names x where
  lists := h.lists
  near := h.near
  admitted n hn := ⟨h.proper n hn, hallowed n hn⟩
  inside := h.inside

section Parent

variable {fs : FileSystem} {s : Scan} {root : Path} {front : List Name} {n : Name} {x : Node}

theorem Finds.near_parent (h : s.Finds fs root (front ++ [n]) x) :
    ∀ depth, s.maxDepth = some depth → front.length < depth := by
  intro depth hdepth
  have hle := h.near depth hdepth
  simp only [List.length_append, List.length_singleton] at hle
  omega

/-- What holds at the root and is kept by each step into a directory that the search enters holds at the
directory of whatever the search looks at. -/
theorem Finds.parent_induction (h : s.Finds fs root (front ++ [n]) x) {P : List Name → Prop}
    (hroot : P [])
    (hstep : ∀ names m, P names → Name.isProper m → s.selection.allowsName m →
      (∀ depth, s.maxDepth = some depth → names.length + 1 < depth) →
      s.Enters fs (root.below (names ++ [m])) → P (names ++ [m])) : P front := by
  have hnear := h.near_parent
  have hadmitted : ∀ m ∈ front, Name.isProper m ∧ s.selection.allowsName m := by
    intro m hm
    exact ⟨h.proper m (List.mem_append_left _ hm), h.allowed m (by simpa using hm)⟩
  have hinside : ∀ a b, front = a ++ b → a ≠ [] → s.Enters fs (root.below a) := by
    rintro a b rfl ha
    exact h.inside a (b ++ [n]) (List.append_assoc ..) ha (by simp)
  clear h
  induction front using List.reverseRecOn with
  | nil => exact hroot
  | append_singleton names m ih =>
      simp only [List.length_append, List.length_singleton] at hnear
      obtain ⟨hm, hallowed⟩ := hadmitted m (by simp)
      refine hstep names m ?_ hm hallowed hnear ?_
      · apply ih
        · exact fun depth hdepth => Nat.lt_of_succ_lt (hnear depth hdepth)
        · exact fun k hk => hadmitted k (List.mem_append_left _ hk)
        · rintro a b rfl ha
          exact hinside a (b ++ [m]) (List.append_assoc ..) ha
      · exact hinside (names ++ [m]) [] (List.append_nil _).symm (by simp)

end Parent

/-- What a walk reports of a node that is no directory. -/
inductive Shows (fs : FileSystem) (s : Scan) (p : Path) : Node → VisitKind → Prop where
  | file (data : Bytes) (room : Option Nat) : Shows fs s p (.file data room) (.file data.length)
  | pipe : Shows fs s p .pipe .special
  | device (d : Device) : Shows fs s p (.device d) .special
  | kept (target : Path) : s.followLinks = false → Shows fs s p (.link target) .link
  | fileBehind {target : Path} {loc : Location} {data : Bytes} {room : Option Nat} :
      s.followLinks = true → fs.stat p = .ok (loc, .file data room) →
      Shows fs s p (.link target) (.file data.length)
  | specialBehind {target : Path} {loc : Location} {x : Node} :
      s.followLinks = true → fs.stat p = .ok (loc, x) → (∀ es, x ≠ .dir es) →
      (∀ data room, x ≠ .file data room) → Shows fs s p (.link target) .special

end Scan

namespace Scan

/-- What makes a walk fail: a directory to go into whose path is too long and, if links are followed, a link
that leads nowhere or back to a directory on the way to it. -/
inductive Fault (fs : FileSystem) (s : Scan) (root : Path) : List Name → Failure → Prop where
  | deep {names : List Name} {es : Entries} :
      s.Meets fs root names (.dir es) → (∀ depth, s.maxDepth = some depth → names.length < depth) →
      FileSystem.pathLimit ≤ (root.below names).length →
      Fault fs s root names (.pathTooLong (root.below names))
  | broken {names : List Name} {target : Path} {fault : IoFault} :
      s.followLinks = true → s.Finds fs root names (.link target) →
      fs.stat (root.below names) = .error fault →
      Fault fs s root names (.unreadable (root.below names) fault)
  | loop {dir front : List Name} {n : Name} {target : Path} {loc : Location} {es : Entries} :
      s.followLinks = true → s.Finds fs root (dir ++ [n]) (.link target) →
      fs.stat (root.below (dir ++ [n])) = .ok (loc, .dir es) → fs.Encloses root dir front loc →
      Fault fs s root (dir ++ [n])
        (.walk (root.below (dir ++ [n]))
          (loopMessage (root.below (dir ++ [n])) (root.below front)))

end Scan

inductive Encounter.Sound (fs : FileSystem) (s : Scan) (root : Path) : Encounter → Prop where
  | seen {names : List Name} {x : Node} {kind : VisitKind} :
      s.Meets fs root names x → s.Shows fs (root.below names) x kind →
      Sound fs s root ⟨names, root.below names, .ok kind⟩
  | fault {names : List Name} {f : Failure} :
      s.Fault fs root names f → Sound fs s root ⟨names, root.below names, .error f⟩

/-- A directory on the walk of a search: its path leads to it, the search enters all on the way, the trail
tells apart all on the way, and what lies below can be looked up with the links that are left. -/
structure Directory.Stands (fs : FileSystem) (s : Scan) (root : Path) (links : Nat)
    (d : Directory) : Prop where
  path : d.path = root.below d.names
  leads : fs.resolve .follow d.path = .ok (.found d.location)
  room : d.room = s.maxDepth.map (· - d.names.length)
  admitted : ∀ n ∈ d.names, Name.isProper n ∧ s.selection.allowsName n
  entered : ∀ front back, d.names = front ++ back → front ≠ [] → s.Enters fs (root.below front)
  trail : ∀ loc e, d.trail.find? (·.1 = loc) = some e ↔
    ∃ front, fs.Encloses root d.names front loc ∧ e = (loc, root.below front)
  spares : fs.Spares d.path d.location links

section Directory

variable {fs : FileSystem} {s : Scan} {root : Path} {d : Directory} {links : Nat} {n : Name}

theorem Directory.Stands.path_entry (hd : d.Stands fs s root links) (n : Name) :
    d.path.entry n = root.below (d.names ++ [n]) := by
  rw [hd.path, Path.below_snoc]

theorem Directory.isClosed_eq_false (hroom : d.room = s.maxDepth.map (· - d.names.length)) :
    d.isClosed = false ↔ ∀ depth, s.maxDepth = some depth → d.names.length < depth := by
  simp only [isClosed, hroom]
  cases s.maxDepth with
  | none => simp
  | some depth =>
      simp only [Option.map_some, Option.some.injEq, forall_eq', beq_eq_false_iff_ne, ne_eq]
      omega

theorem Directory.room_enter (hroom : d.room = s.maxDepth.map (· - d.names.length)) (n : Name)
    (loc : Location) :
    (d.enter n loc).room = s.maxDepth.map (· - (d.enter n loc).names.length) := by
  have hinner : (d.enter n loc).room = d.room.map (· - 1) := rfl
  have hnames : (d.enter n loc).names.length = d.names.length + 1 := by simp [enter]
  rw [hinner, hnames, hroom, Option.map_map]
  congr 1

theorem Directory.Stands.admitted_snoc (hd : d.Stands fs s root links) (hn : Name.isProper n)
    (hallowed : s.selection.allowsName n) :
    ∀ m ∈ d.names ++ [n], Name.isProper m ∧ s.selection.allowsName m := by
  intro m hm
  rcases List.mem_append.mp hm with hm | hm
  · exact hd.admitted m hm
  · exact List.mem_singleton.mp hm ▸ ⟨hn, hallowed⟩

theorem Directory.Stands.entered_snoc (hd : d.Stands fs s root links) {front back : List Name}
    (h : d.names ++ [n] = front ++ back) (hfront : front ≠ []) (hback : back ≠ []) :
    s.Enters fs (root.below front) := by
  obtain rfl | ⟨rest, m, rfl⟩ := List.eq_nil_or_concat back
  · exact absurd rfl hback
  · have hsplit : d.names ++ [n] = (front ++ rest) ++ [m] := by simpa using h
    exact hd.entered front rest (List.append_inj_left' hsplit rfl) hfront

theorem Directory.Stands.finds (hd : d.Stands fs s root links) (hopen : d.isClosed = false)
    (hn : Name.isProper n) {x : Node} (hx : fs.get? (d.location ++ [n]) = some x) :
    s.Finds fs root (d.names ++ [n]) x where
  lists := by
    obtain ⟨es, hes, hget⟩ := FileSystem.get?_parent hx
    have hstat : fs.stat (root.below d.names) = .ok (d.location, .dir es) :=
      FileSystem.stat_eq_ok_iff.mpr ⟨hd.path ▸ hd.leads, hes⟩
    exact ⟨d.names, n, d.location, es, rfl, hstat, hget⟩
  near depth hdepth := by
    have hlt : d.names.length < depth := Directory.isClosed_eq_false hd.room |>.mp hopen depth hdepth
    simp only [List.length_append, List.length_singleton]
    omega
  proper := by simpa [or_imp, forall_and, hn] using fun m hm => (hd.admitted m hm).1
  allowed := by simpa using fun m hm => (hd.admitted m hm).2
  inside _ _ h hfront hback := hd.entered_snoc h hfront hback

theorem Directory.Stands.meets (hd : d.Stands fs s root links) (hopen : d.isClosed = false)
    (hn : Name.isProper n) (hallowed : s.selection.allowsName n) {x : Node}
    (hx : fs.get? (d.location ++ [n]) = some x) : s.Meets fs root (d.names ++ [n]) x where
  lists := (hd.finds hopen hn hx).lists
  near := (hd.finds hopen hn hx).near
  admitted := hd.admitted_snoc hn hallowed
  inside := (hd.finds hopen hn hx).inside

theorem Directory.Stands.isOpen_enter (hd : d.Stands fs s root links)
    (hnear : ∀ depth, s.maxDepth = some depth → d.names.length + 1 < depth) (loc : Location) :
    (d.enter n loc).isClosed = false := by
  refine (Directory.isClosed_eq_false (Directory.room_enter hd.room n loc)).mpr ?_
  simpa [Directory.enter] using hnear

/-- The search goes on in a directory that it enters. -/
theorem Directory.Stands.enter (hd : d.Stands fs s root links) (hn : Name.isProper n)
    (hallowed : s.selection.allowsName n) {loc : Location}
    (hres : fs.resolve .follow (d.path.entry n) = .ok (.found loc))
    (henters : s.Enters fs (d.path.entry n)) {left : Nat}
    (hspares : fs.Spares (d.path.entry n) loc left) : (d.enter n loc).Stands fs s root left where
  path := hd.path_entry n
  leads := hres
  room := Directory.room_enter hd.room n loc
  admitted := hd.admitted_snoc hn hallowed
  entered front back h hfront := by
    have hnames : d.names ++ [n] = front ++ back := h
    by_cases hback : back = []
    · rw [hback, List.append_nil] at hnames
      rwa [← hnames, ← hd.path_entry]
    · exact hd.entered_snoc hnames hfront hback
  trail l e := by
    have hres' : fs.resolve .follow (root.below (d.names ++ [n])) = .ok (.found loc) :=
      hd.path_entry n ▸ hres
    have htrail : (d.enter n loc).trail = (loc, root.below (d.names ++ [n])) :: d.trail := by
      rw [← hd.path_entry]
      rfl
    have hnames : (d.enter n loc).names = d.names ++ [n] := rfl
    simp only [htrail, hnames, List.find?_cons, FileSystem.encloses_snoc hres']
    by_cases hl : loc = l
    · simp [hl, eq_comm]
    · simp [hl, hd.trail]
  spares := hspares

theorem Directory.Stands.enter_dir (hd : d.Stands fs s root links) (hn : Name.isProper n)
    (hallowed : s.selection.allowsName n) {es : Entries}
    (hx : fs.get? (d.location ++ [n]) = some (.dir es))
    (hlen : (d.path.entry n).length < FileSystem.pathLimit) :
    (d.enter n (d.location ++ [n])).Stands fs s root links := by
  have hres (ending : Ending) :
      fs.resolve ending (d.path.entry n) = .ok (.found (d.location ++ [n])) :=
    FileSystem.resolve_entry_found hd.leads hn hlen hx (by simp) ending
  have henters : s.Enters fs (d.path.entry n) :=
    ⟨d.location ++ [n], es, FileSystem.find_eq_ok_iff.mpr ⟨hres s.ending, hx⟩⟩
  exact hd.enter hn hallowed (hres .follow) henters (hd.spares.dir hn hx)

theorem Directory.Stands.enter_link (hd : d.Stands fs s root links) (hn : Name.isProper n)
    (hallowed : s.selection.allowsName n) (hmode : s.followLinks = true) {target : Path}
    (hx : fs.get? (d.location ++ [n]) = some (.link target)) {loc : Location} {es : Entries}
    (hstat : fs.stat (d.path.entry n) = .ok (loc, .dir es)) :
    ∃ left, links = left + 1 ∧ (d.enter n loc).Stands fs s root left := by
  have hres := (FileSystem.stat_eq_ok_iff.mp hstat).1
  have henters : s.Enters fs (d.path.entry n) :=
    ⟨loc, es, (Scan.ending_of_follows hmode).symm ▸ hstat⟩
  obtain ⟨left, hlinks, hspares⟩ := hd.spares.link hn hx hres
  exact ⟨left, hlinks, hd.enter hn hallowed hres henters hspares⟩

theorem Directory.Stands.seen (hd : d.Stands fs s root links) (hopen : d.isClosed = false)
    (hn : Name.isProper n) (hallowed : s.selection.allowsName n) {x : Node}
    (hx : fs.get? (d.location ++ [n]) = some x) {kind : VisitKind}
    (hkind : s.Shows fs (d.path.entry n) x kind) {e : Encounter}
    (he : e ∈ d.meet n (.ok kind)) : e.Sound fs s root := by
  obtain rfl := List.mem_singleton.mp he
  rw [hd.path_entry] at hkind ⊢
  exact .seen (hd.meets hopen hn hallowed hx) hkind

end Directory

section Sound

variable {fs : FileSystem} {s : Scan} {root : Path} {links : Nat}
  {follow : Directory → Entries → List Encounter}

theorem meetLink_sound
    (hfollow : ∀ left, links = left + 1 → ∀ (d : Directory) (es : Entries),
      d.Stands fs s root left → fs.get? d.location = some (.dir es) →
      ∀ e ∈ follow d es, e.Sound fs s root)
    {d : Directory} (hd : d.Stands fs s root links) (hopen : d.isClosed = false) {n : Name}
    (hn : Name.isProper n) (hmode : s.followLinks = true) {target : Path}
    (hx : fs.get? (d.location ++ [n]) = some (.link target)) :
    ∀ e ∈ meetLink fs s.rule follow d n, e.Sound fs s root := by
  intro e he
  have hfinds := hd.finds hopen hn hx
  cases hstat : fs.stat (d.path.entry n) with
  | error fault =>
      simp only [meetLink, hstat] at he
      obtain rfl := List.mem_singleton.mp he
      rw [hd.path_entry] at hstat ⊢
      exact .fault (.broken hmode hfinds hstat)
  | ok end_ =>
      obtain ⟨loc, y⟩ := end_
      obtain ⟨hres, hy⟩ := FileSystem.stat_eq_ok_iff.mp hstat
      cases y with
      | dir es =>
          cases htrail : d.trail.find? (·.1 = loc) with
          | some ancestor =>
              obtain ⟨front, hfront, rfl⟩ := (hd.trail loc ancestor).mp htrail
              simp only [meetLink, hstat, htrail] at he
              obtain rfl := List.mem_singleton.mp he
              rw [hd.path_entry] at hstat ⊢
              exact .fault (.loop hmode hfinds hstat hfront)
          | none =>
              simp only [meetLink, hstat, htrail] at he
              split at he
              · rename_i hallowed
                obtain ⟨left, hlinks, hinner⟩ := hd.enter_link hn hallowed hmode hx hstat
                exact hfollow left hlinks _ es hinner hy e he
              · cases he
      | file data room =>
          simp only [meetLink, hstat] at he
          split at he
          · rename_i hallowed
            exact hd.seen hopen hn hallowed hx (.fileBehind hmode hstat) he
          · cases he
      | link _ | pipe | device _ =>
          simp only [meetLink, hstat] at he
          split at he
          · rename_i hallowed
            exact hd.seen hopen hn hallowed hx (.specialBehind hmode hstat (by simp) (by simp)) he
          · cases he

mutual

theorem meetEntry_sound (fs : WellFormedFileSystem)
    (hfollow : ∀ left, links = left + 1 → ∀ (d : Directory) (es : Entries),
      d.Stands fs s root left → fs.get? d.location = some (.dir es) →
      ∀ e ∈ follow d es, e.Sound fs s root)
    {d : Directory} (hd : d.Stands fs s root links) (hopen : d.isClosed = false) {n : Name}
    (hn : Name.isProper n) :
    (x : Node) → fs.get? (d.location ++ [n]) = some x →
      ∀ e ∈ meetEntry fs s.rule follow d n x, e.Sound fs s root
  | .link target, hx, e, he => by
      simp only [meetEntry] at he
      split at he
      · rename_i hmode
        exact meetLink_sound hfollow hd hopen hn hmode hx e he
      · rename_i hmode
        split at he
        · rename_i hallowed
          have hkept : s.followLinks = false := Bool.eq_false_iff.mpr hmode
          exact hd.seen hopen hn hallowed hx (.kept target hkept) he
        · cases he
  | .dir es, hx, e, he => by
      simp only [meetEntry] at he
      split at he
      · cases he
      · rename_i hadmits
        have hallowed : s.selection.allowsName n := by simpa [Scan.rule] using hadmits
        split at he
        · cases he
        · rename_i hinner
          split at he
          · rename_i hlong
            obtain rfl := List.mem_singleton.mp he
            have hroom := Directory.room_enter hd.room n (d.location ++ [n])
            have hnear := (Directory.isClosed_eq_false hroom).mp (Bool.eq_false_iff.mpr hinner)
            have hpath : (d.enter n (d.location ++ [n])).path = root.below (d.names ++ [n]) :=
              hd.path_entry n
            rw [hd.path_entry]
            rw [hpath] at hlong ⊢
            exact .fault (.deep (hd.meets hopen hn hallowed hx) hnear hlong)
          · rename_i hlong
            have henter := hd.enter_dir hn hallowed hx (Nat.lt_of_not_le hlong)
            refine meetEntries_sound fs hfollow henter (Bool.eq_false_iff.mpr hinner) es ?_ e he
            intro m y hm
            exact fs.get?_of_mem hx hm
  | .file data room, hx, e, he => by
      simp only [meetEntry] at he
      split at he
      · rename_i hallowed
        exact hd.seen hopen hn hallowed hx (.file data room) he
      · cases he
  | .pipe, hx, e, he => by
      simp only [meetEntry] at he
      split at he
      · rename_i hallowed
        exact hd.seen hopen hn hallowed hx .pipe he
      · cases he
  | .device k, hx, e, he => by
      simp only [meetEntry] at he
      split at he
      · rename_i hallowed
        exact hd.seen hopen hn hallowed hx (.device k) he
      · cases he

theorem meetEntries_sound (fs : WellFormedFileSystem)
    (hfollow : ∀ left, links = left + 1 → ∀ (d : Directory) (es : Entries),
      d.Stands fs s root left → fs.get? d.location = some (.dir es) →
      ∀ e ∈ follow d es, e.Sound fs s root)
    {d : Directory} (hd : d.Stands fs s root links) (hopen : d.isClosed = false) :
    (es : List (Name × Node)) →
      (∀ n x, (n, x) ∈ es → Name.isProper n ∧ fs.get? (d.location ++ [n]) = some x) →
      ∀ e ∈ meetEntries fs s.rule follow d es, e.Sound fs s root
  | [], _, e, he => nomatch he
  | (n, x) :: es, hes, e, he => by
      obtain ⟨hn, hx⟩ := hes n x (by simp)
      simp only [meetEntries] at he
      rcases List.mem_append.mp he with he | he
      · exact meetEntry_sound fs hfollow hd hopen hn x hx e he
      · exact meetEntries_sound fs hfollow hd hopen es
          (fun m y hm => hes m y (List.mem_cons_of_mem _ hm)) e he

end

private theorem meetWithin_sound_of_follow (fs : WellFormedFileSystem)
    (hfollow : ∀ left, links = left + 1 → ∀ (d : Directory) (es : Entries),
      d.Stands fs s root left → fs.get? d.location = some (.dir es) →
      ∀ e ∈ meetFollow fs s.rule links d es, e.Sound fs s root)
    {d : Directory} {es : Entries} (hd : d.Stands fs s root links)
    (hes : fs.get? d.location = some (.dir es)) :
    ∀ e ∈ meetWithin fs s.rule links d es, e.Sound fs s root := by
  intro e he
  rw [meetWithin_eq] at he
  split at he
  · cases he
  · rename_i hopen
    exact meetEntries_sound fs hfollow hd (Bool.eq_false_iff.mpr hopen) es
      (fun n x hx => fs.get?_of_mem hes hx) e he

/-- Whatever a walk meets is sound. It never runs out of links before the system does. -/
theorem meetWithin_sound (fs : WellFormedFileSystem) {d : Directory} {es : Entries}
    (hd : d.Stands fs s root links) (hes : fs.get? d.location = some (.dir es)) :
    ∀ e ∈ meetWithin fs s.rule links d es, e.Sound fs s root := by
  induction links generalizing d es with
  | zero =>
      refine meetWithin_sound_of_follow fs ?_ hd hes
      exact fun left hleft => absurd hleft (Nat.zero_ne_add_one left)
  | succ links ih =>
      refine meetWithin_sound_of_follow fs ?_ hd hes
      intro left hleft inner es' hinner hes'
      obtain rfl : links = left := Nat.succ.inj hleft
      exact ih hinner hes'

end Sound

end Collate
