import Collate.Proofs.Scan.Sources

/-!
The order of a walk. A sorted tree lists its names in strict order, so whatever a walk meets, it meets in
the strict order of the names that lead there.
-/
namespace Collate

namespace Entries

theorem mem_insertByName {n : Name} {x : Node} {es : Entries} {e : Name × Node}
    (h : e ∈ insertByName n x es) : e = (n, x) ∨ e ∈ es := by
  induction es with
  | nil => exact .inl (List.mem_singleton.mp h)
  | cons entry es ih =>
      obtain ⟨m, y⟩ := entry
      simp only [insertByName] at h
      split at h
      · rcases List.mem_cons.mp h with rfl | h
        · exact .inr (by simp)
        · exact (ih h).imp_right (List.mem_cons_of_mem _)
      · exact List.mem_cons.mp h

theorem pairwise_insertByName {n : Name} {x : Node} {es : Entries} (hfree : get? es n = none)
    (h : es.Pairwise fun a b => a.1 < b.1) :
    (insertByName n x es).Pairwise fun a b => a.1 < b.1 := by
  induction es with
  | nil => simp [insertByName]
  | cons entry es ih =>
      obtain ⟨m, y⟩ := entry
      obtain ⟨hm, hes⟩ := List.pairwise_cons.mp h
      rw [get?_cons] at hfree
      split at hfree
      · cases hfree
      · rename_i hne
        simp only [insertByName]
        split
        · rename_i hlt
          refine List.pairwise_cons.mpr ⟨?_, ih hfree hes⟩
          intro e he
          rcases mem_insertByName he with rfl | he
          · exact hlt
          · exact hm e he
        · rename_i hnot
          have hlt : n < m := by
            rcases List.le_iff_lt_or_eq.mp (List.not_lt.mp hnot) with hlt | heq
            · exact hlt
            · exact absurd heq hne
          refine List.pairwise_cons.mpr ⟨?_, h⟩
          intro e he
          rcases List.mem_cons.mp he with rfl | he
          · exact hlt
          · exact List.lt_trans hlt (hm e he)

theorem pairwise_sortedEntries {es : Entries} (h : entriesWellFormed es) :
    (sortedEntries es).Pairwise fun a b => a.1 < b.1 := by
  induction es with
  | nil => exact .nil
  | cons entry es ih =>
      obtain ⟨n, x⟩ := entry
      obtain ⟨-, hfree, -, hes⟩ := entriesWellFormed_cons.mp h
      refine pairwise_insertByName ?_ (ih hes)
      rw [get?_sortedEntries, hfree]
      rfl

end Entries

/-- Every directory lists its names in strict order. -/
def FileSystem.InOrder (fs : FileSystem) : Prop :=
  ∀ loc es, fs.get? loc = some (.dir es) → es.Pairwise fun a b => a.1 < b.1

theorem FileSystem.inOrder_sorted (fs : WellFormedFileSystem) :
    fs.toFileSystem.sorted.InOrder := by
  intro loc es h
  rw [get?_sorted] at h
  obtain ⟨x, hx, hsorted⟩ := Option.map_eq_some_iff.mp h
  obtain ⟨es', rfl, rfl⟩ := Node.sorted_eq_dir.mp hsorted
  exact Entries.pairwise_sortedEntries (fs.entriesWellFormed_of_get? hx)

/-- In strict order, and all at or below these names. -/
structure Ordered (names : List Name) (es : List Encounter) : Prop where
  below : ∀ e ∈ es, names <+: e.names
  pairwise : es.Pairwise fun a b => a.names < b.names

theorem ordered_nil (names : List Name) : Ordered names [] :=
  ⟨by simp, .nil⟩

theorem ordered_meet (d : Directory) (n : Name) (what : Except Failure VisitKind) :
    Ordered (d.names ++ [n]) (d.meet n what) :=
  ⟨by simp [Directory.meet], by simp [Directory.meet]⟩

theorem lt_of_prefix {front a b : List Name} {n m : Name} (h : n < m)
    (ha : front ++ [n] <+: a) (hb : front ++ [m] <+: b) : a < b := by
  obtain ⟨a', rfl⟩ := ha
  obtain ⟨b', rfl⟩ := hb
  simp only [List.append_assoc, List.singleton_append]
  exact List.append_left_lt (List.cons_lt_cons_iff.mpr (.inl h))

section Walk

variable {fs : FileSystem} {rule : WalkRule} {follow : Directory → Entries → List Encounter}

theorem meetLink_ordered (hfollow : ∀ (d : Directory) (es : Entries),
      fs.get? d.location = some (.dir es) → Ordered d.names (follow d es))
    (d : Directory) (n : Name) : Ordered (d.names ++ [n]) (meetLink fs rule follow d n) := by
  cases hstat : fs.stat (d.path.entry n) with
  | error fault =>
      simp only [meetLink, hstat]
      exact ordered_meet d n _
  | ok end_ =>
      obtain ⟨loc, x⟩ := end_
      cases x with
      | dir es =>
          cases htrail : d.trail.find? (·.1 = loc) with
          | some ancestor =>
              simp only [meetLink, hstat, htrail]
              exact ordered_meet d n _
          | none =>
              simp only [meetLink, hstat, htrail]
              split
              · exact hfollow (d.enter n loc) es (FileSystem.stat_eq_ok_iff.mp hstat).2
              · exact ordered_nil _
      | file _ _ | link _ | pipe | device _ =>
          simp only [meetLink, hstat]
          split
          · exact ordered_meet d n _
          · exact ordered_nil _

mutual

theorem meetEntry_ordered (fs : WellFormedFileSystem) (horder : fs.InOrder)
    (hfollow : ∀ (d : Directory) (es : Entries),
      fs.get? d.location = some (.dir es) → Ordered d.names (follow d es))
    (d : Directory) (n : Name) : (x : Node) → fs.get? (d.location ++ [n]) = some x →
      Ordered (d.names ++ [n]) (meetEntry fs rule follow d n x)
  | .link _, _ => by
      simp only [meetEntry]
      split
      · exact meetLink_ordered hfollow d n
      · split
        · exact ordered_meet d n _
        · exact ordered_nil _
  | .dir es, hx => by
      simp only [meetEntry]
      split
      · exact ordered_nil _
      · split
        · exact ordered_nil _
        · split
          · exact ordered_meet d n _
          · obtain ⟨hbelow, hpairwise⟩ := meetEntries_ordered fs horder hfollow
              (d.enter n (d.location ++ [n])) es (horder _ es hx)
              fun m y hm => (fs.get?_of_mem hx hm).2
            refine ⟨fun e he => ?_, hpairwise⟩
            obtain ⟨entry, -, hprefix⟩ := hbelow e he
            exact (List.prefix_append _ _).trans hprefix
  | .file _ _, _ | .pipe, _ | .device _, _ => by
      simp only [meetEntry]
      split
      · exact ordered_meet d n _
      · exact ordered_nil _

theorem meetEntries_ordered (fs : WellFormedFileSystem) (horder : fs.InOrder)
    (hfollow : ∀ (d : Directory) (es : Entries),
      fs.get? d.location = some (.dir es) → Ordered d.names (follow d es))
    (d : Directory) : (es : List (Name × Node)) → es.Pairwise (fun a b => a.1 < b.1) →
      (∀ n x, (n, x) ∈ es → fs.get? (d.location ++ [n]) = some x) →
      (∀ e ∈ meetEntries fs rule follow d es, ∃ entry ∈ es, d.names ++ [entry.1] <+: e.names) ∧
        (meetEntries fs rule follow d es).Pairwise fun a b => a.names < b.names
  | [], _, _ => ⟨nofun, .nil⟩
  | (n, x) :: es, hes, hget => by
      obtain ⟨hn, hes⟩ := List.pairwise_cons.mp hes
      have hhead := meetEntry_ordered fs horder hfollow d n x (hget n x (by simp))
      obtain ⟨hbelow, hpairwise⟩ := meetEntries_ordered fs horder hfollow d es hes
        fun m y hm => hget m y (List.mem_cons_of_mem _ hm)
      rw [meetEntries]
      constructor
      · intro e he
        rcases List.mem_append.mp he with he | he
        · exact ⟨(n, x), by simp, hhead.below e he⟩
        · obtain ⟨entry, hentry, hprefix⟩ := hbelow e he
          exact ⟨entry, List.mem_cons_of_mem _ hentry, hprefix⟩
      · refine List.pairwise_append.mpr ⟨hhead.pairwise, hpairwise, ?_⟩
        intro a ha b hb
        obtain ⟨entry, hentry, hprefix⟩ := hbelow b hb
        exact lt_of_prefix (hn entry hentry) (hhead.below a ha) hprefix

end

theorem meetWithin_ordered (fs : WellFormedFileSystem) (horder : fs.InOrder) (links : Nat)
    {d : Directory} {es : Entries} (hes : fs.get? d.location = some (.dir es)) :
    Ordered d.names (meetWithin fs rule links d es) := by
  have hwithin (links : Nat) (hfollow : ∀ (d : Directory) (es : Entries),
      fs.get? d.location = some (.dir es) → Ordered d.names (meetFollow fs rule links d es))
      {d : Directory} {es : Entries} (hes : fs.get? d.location = some (.dir es)) :
      Ordered d.names (meetWithin fs rule links d es) := by
    rw [meetWithin_eq]
    split
    · exact ordered_nil _
    · obtain ⟨hbelow, hpairwise⟩ := meetEntries_ordered fs horder hfollow d es (horder _ es hes)
        fun n x hx => (fs.get?_of_mem hes hx).2
      refine ⟨fun e he => ?_, hpairwise⟩
      obtain ⟨entry, -, hprefix⟩ := hbelow e he
      exact (List.prefix_append _ _).trans hprefix
  induction links generalizing d es with
  | zero =>
      refine hwithin 0 (fun d es _ => ?_) hes
      exact ⟨by simp [meetFollow, meetTooManyLinks], by simp [meetFollow, meetTooManyLinks]⟩
  | succ links ih => exact hwithin (links + 1) (fun d es hes => ih hes) hes

end Walk

namespace Scan

theorem met_pairwise {fs : WellFormedFileSystem} {s : Scan} {root : Path}
    {top : Location} {es : Entries} (hroot : fs.stat root = .ok (top, .dir es)) :
    (s.met fs root top es).Pairwise fun a b => a.names < b.names := by
  have htop := (FileSystem.stat_eq_ok_iff.mp (stat_sorted_dir hroot)).2
  exact (meetWithin_ordered (d := .top root top s.maxDepth) fs.sorted (FileSystem.inOrder_sorted fs)
    FileSystem.linkLimit htop).pairwise

end Scan

end Collate
