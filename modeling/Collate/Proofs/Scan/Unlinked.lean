import Collate.Proofs.Scan.Expanded

/-!
The expanded tree has no link that the search would look at: where the search goes in it is a directory of the
walk over the links, with every link in it replaced.
-/
namespace Collate

/-- The path of a directory on the walk leads, in the other tree, to what the directory is expanded to. -/
structure Directory.Twinned (fs fs' : FileSystem) (s : Scan) (root : Path) (links : Nat)
    (d : Directory) : Prop where
  stands : d.Stands fs s root links
  isOpen : d.isClosed = false
  twin : ∃ es loc, fs.get? d.location = some (.dir es) ∧ fs'.stat d.path =
    .ok (loc, .dir (expandEntries fs s.rule (expandFollow fs s.rule links) d es))

section Twin

variable {fs fs' : FileSystem} {s : Scan} {root : Path} {links : Nat} {d : Directory} {n : Name}

theorem expandEntry_eq_dir {rule : WalkRule} {follow : Directory → Entries → Entries} {x : Node}
    {es' : Entries} (h : expandEntry fs rule follow d n x = .dir es') :
    (∃ es, x = .dir es) ∨
      ∃ target loc es, x = .link target ∧ fs.stat (d.path.entry n) = .ok (loc, .dir es) := by
  cases x with
  | dir es => exact .inl ⟨es, rfl⟩
  | file _ _ | pipe | device _ => simp [expandEntry] at h
  | link target =>
      simp only [expandEntry, expandLink] at h
      split at h
      · cases h
      · rename_i loc es hstat
        exact .inr ⟨target, loc, es, rfl, hstat⟩
      · rename_i loc x hdir hstat
        obtain rfl := h
        exact absurd rfl (hdir es')

theorem Directory.Twinned.entry (hd : d.Twinned fs fs' s root links) {loc : Location} {es' : Entries}
    (hstat : fs'.stat d.path = .ok (loc, .dir es')) {y : Node} (hy : Entries.get? es' n = some y) :
    ∃ x, fs.get? (d.location ++ [n]) = some x ∧
      y = expandEntry fs s.rule (expandFollow fs s.rule links) d n x := by
  obtain ⟨es, loc', hes, htwin⟩ := hd.twin
  obtain ⟨rfl, hsame⟩ := Prod.mk.inj (Except.ok.inj (htwin.symm.trans hstat))
  obtain rfl := Node.dir.inj hsame
  rw [get?_expandEntries] at hy
  obtain ⟨x, hx, rfl⟩ := Option.map_eq_some_iff.mp hy
  exact ⟨x, (FileSystem.get?_snoc hes n).trans hx, rfl⟩

theorem Directory.Twinned.enter (hmode : s.followLinks = true)
    (hd : d.Twinned fs fs' s root links) (hn : Name.isProper n) (hallowed : s.selection.allowsName n)
    (hnear : ∀ depth, s.maxDepth = some depth → d.names.length + 1 < depth)
    (henters : s.keeping.Enters fs' (d.path.entry n)) :
    ∃ (left : Nat) (inner : Directory), inner.Twinned fs fs' s root left ∧
      inner.names = d.names ++ [n] := by
  have hadmits : s.rule.admits n = true := hallowed
  obtain ⟨l, es', hfind⟩ := henters
  obtain ⟨es, loc, -, htwin⟩ := hd.twin
  obtain ⟨hleads, hloc⟩ := FileSystem.stat_eq_ok_iff.mp htwin
  obtain ⟨hy, hstat'⟩ := FileSystem.find_entry_dir hleads hn hfind
  rw [FileSystem.get?_snoc hloc] at hy
  obtain ⟨x, hx, hsame⟩ := hd.entry htwin hy
  rcases expandEntry_eq_dir hsame.symm with ⟨inner, rfl⟩ | ⟨target, far, inner, rfl, hstat⟩
  · have hlen := FileSystem.length_lt_of_resolve (FileSystem.stat_eq_ok_iff.mp hstat').1
    have hopen := hd.stands.isOpen_enter (n := n) hnear (d.location ++ [n])
    obtain rfl := Node.dir.inj hsame
    have henter := hd.stands.enter_dir hn hallowed hx hlen
    refine ⟨links, _, ⟨henter, hopen, inner, loc ++ [n], hx, ?_⟩, rfl⟩
    simp only [hadmits, hopen, Bool.not_false, Bool.and_self, ↓reduceIte] at hstat'
    exact hstat'
  · obtain ⟨left, rfl, hinner⟩ := hd.stands.enter_link hn hallowed hmode hx hstat
    have hopen := hd.stands.isOpen_enter (n := n) hnear far
    have hfar := (FileSystem.stat_eq_ok_iff.mp hstat).2
    refine ⟨left, _, ⟨hinner, hopen, inner, loc ++ [n], hfar, ?_⟩, rfl⟩
    simp only [expandEntry, expandLink, hstat, hadmits, ↓reduceIte, expandFollow, expandWithin_eq,
      hopen, Bool.false_eq_true] at hsame
    obtain rfl := Node.dir.inj hsame
    exact hstat'

/-- In the expanded tree there is no link left for a search to look at. -/
theorem no_link_expanded (hclear : s.Clear fs root) {top loc : Location} {es : Entries}
    (hroot : fs.stat root = .ok (top, .dir es))
    (hroot' : fs'.stat root = .ok (loc, .dir
      (expandWithin fs s.rule FileSystem.linkLimit (.top root top s.maxDepth) es)))
    (names : List Name) (target : Path) : ¬ s.keeping.Finds fs' root names (.link target) := by
  intro h
  obtain ⟨front, n, loc', es', rfl, hstat', hget⟩ := h.lists
  have hopen : (Directory.top root top s.maxDepth).isClosed = false :=
    top_isOpen hroot h.near_parent
  have htop : (Directory.top root top s.maxDepth).Twinned fs fs' s root FileSystem.linkLimit := by
    refine ⟨top_stands hroot, hopen, es, loc, (FileSystem.stat_eq_ok_iff.mp hroot).2, ?_⟩
    rw [expandWithin_eq, hopen, if_neg Bool.false_ne_true] at hroot'
    exact hroot'
  obtain ⟨links, d, hd, rfl⟩ : ∃ (left : Nat) (d : Directory),
      d.Twinned fs fs' s root left ∧ d.names = front := by
    apply h.parent_induction
    · exact ⟨_, _, htop, rfl⟩
    · rintro names m ⟨left, d, hd, rfl⟩ hm hallowed hnear henters
      rw [← hd.stands.path_entry] at henters
      exact hd.enter hclear.follows hm hallowed hnear henters
  rw [← hd.stands.path] at hstat'
  obtain ⟨x, hx, hsame⟩ := hd.entry hstat' hget
  cases x with
  | dir _ | file _ _ | pipe | device _ => cases hsame
  | link other =>
      -- The walk has looked at this link, so it leads somewhere, and what is there is no link.
      have hfinds := hd.stands.finds hd.isOpen (h.proper n (by simp)) hx
      obtain ⟨far, y, hstat⟩ := (hclear.leadsOn _ _ hfinds).stat
      rw [← hd.stands.path_entry] at hstat
      simp only [expandEntry, expandLink, hstat] at hsame
      cases y with
      | link _ => exact FileSystem.stat_ne_link hstat
      | dir _ | file _ _ | pipe | device _ => cases hsame

end Twin

end Collate
