import Collate.Proofs.FileTree.Output

/-!
The tree with one file written, looked at from there: a path that leads anywhere but to this file led there
before. So reading any other path gives the same at every stage of the writing.
-/
namespace Collate

namespace FileSystem

section Reflection

variable {fs fs' : FileSystem} {loc l : Location} {ending : Ending}

theorem kind?_put_self (fs : FileSystem) (loc : Location) (data : Bytes) (room : Option Nat) :
    (fs.put loc (.file data room)).kind? loc = some .leaf :=
  kind?_of_file (get?_put_self fs loc _)

theorem kind?_put_of_ne (h : fs.root.Writable loc) (data : Bytes) (room : Option Nat)
    (hl : l ≠ loc) : (fs.put loc (.file data room)).kind? l = fs.kind? l := by
  obtain ⟨es, es', hdir, hdir'⟩ | hsame := Node.get?_put_of_ne h data room hl
  · have hbefore : fs.kind? l = some .directory := kind?_eq_directory.mpr ⟨es, hdir⟩
    have hafter : (fs.put loc (.file data room)).kind? l = some .directory :=
      kind?_eq_directory.mpr ⟨es', hdir'⟩
    rw [hafter, hbefore]
  · exact congrArg (Option.map Node.kind) hsame

theorem Leads.of_leaf {links : Nat} {parts : List Name} {place : Place}
    (hleaf : fs.kind? loc = some .leaf) (h : Leads fs ending links loc parts place) :
    place = .found loc := by
  cases h with
  | done _ _ => rfl
  | skip hdir _ _ | up hdir _ | free hdir _ _ _ | kept hdir _ _ _ | follow hdir _ _ _ _
  | enter hdir _ _ _ _ => cases hleaf.symm.trans hdir

/-- A place that is found without ending at a new leaf is found without the leaf. -/
theorem Leads.reflect (hkind : ∀ m, m ≠ loc → fs'.kind? m = fs.kind? m)
    (hleaf : fs'.kind? loc = some .leaf) {links : Nat} {here : Location} {parts : List Name}
    (h : Leads fs' ending links here parts (.found l)) (hl : l ≠ loc) :
    Leads fs ending links here parts (.found l) := by
  have hbefore {m : Location} {kind : Node.Kind} (hm : fs'.kind? m = some kind)
      (hne : kind ≠ .leaf) : fs.kind? m = some kind := by
    rw [← hm]
    refine (hkind m ?_).symm
    rintro rfl
    exact hne (Option.some.inj (hm.symm.trans hleaf))
  generalize hplace : Place.found l = place at h
  induction h with
  | done links here =>
      cases hplace
      exact .done links l
  | skip hdir hskip _ ih => exact .skip (hbefore hdir (by simp)) hskip (ih hplace)
  | up hdir _ ih => exact .up (hbefore hdir (by simp)) (ih hplace)
  | free _ _ _ _ => cases hplace
  | kept hdir hs hend hlink =>
      exact .kept (hbefore hdir (by simp)) hs hend (hbefore hlink (by simp))
  | follow hdir hs hend hlink _ ih =>
      exact .follow (hbefore hdir (by simp)) hs hend (hbefore hlink (by simp)) (ih hplace)
  | @enter _ here part _ _ _ hdir hs hentry hlink hrest ih =>
      have hne : here ++ [part] ≠ loc := by
        rintro rfl
        subst hplace
        exact hl (Place.found.inj (hrest.of_leaf hleaf))
      exact .enter (hbefore hdir (by simp)) hs (hkind _ hne ▸ hentry) hlink (ih hplace)

theorem resolve_congr {p : Path} (hcwd : fs.cwd = fs'.cwd)
    (hkind : ∀ m, fs.kind? m = fs'.kind? m) : fs.resolve ending p = fs'.resolve ending p :=
  resolve_of_passes hcwd fun m _ => hkind m

variable (hloc : fs.root.Writable loc) {p : Path}
include hloc

theorem resolve_of_put {data : Bytes} {room : Option Nat}
    (h : (fs.put loc (.file data room)).resolve ending p = .ok (.found l)) (hl : l ≠ loc) :
    fs.resolve ending p = .ok (.found l) := by
  obtain ⟨hnul, hnil, hlen, hleads⟩ := resolve_eq_ok_iff.mp h
  refine resolve_eq_ok_iff.mpr ⟨hnul, hnil, hlen, ?_⟩
  exact hleads.reflect (fun m hm => kind?_put_of_ne hloc data room hm) (kind?_put_self ..) hl

/-- Where paths lead does not depend on what is written. -/
theorem resolve_put_put (a b : Bytes) (r q : Option Nat) :
    (fs.put loc (.file a r)).resolve ending p = (fs.put loc (.file b q)).resolve ending p := by
  refine resolve_congr rfl fun m => ?_
  by_cases hm : m = loc
  · rw [hm, kind?_put_self, kind?_put_self]
  · rw [kind?_put_of_ne hloc a r hm, kind?_put_of_ne hloc b q hm]

end Reflection

section Name

variable {fs : WellFormedFileSystem} {p : Path} {loc : Location}

/-- Whatever name is free at the end of a path, a directory could list it. -/
theorem Leads.isProper_vacant {ending : Ending} {links : Nat}
    {here dir : Location} {parts : List Name} {name : Name}
    (hparts : ∀ part ∈ parts, Path.slash ∉ part ∧ (0 : UInt8) ∉ part)
    (h : Leads fs ending links here parts (.vacant dir name)) : Name.isProper name := by
  generalize hplace : Place.vacant dir name = place at h
  induction h with
  | done _ _ | kept _ _ _ _ => cases hplace
  | free _ hs _ _ =>
      obtain ⟨-, rfl⟩ := Place.vacant.inj hplace
      obtain ⟨hslash, hzero⟩ := hparts name (by simp)
      obtain ⟨hne, hdot⟩ := not_or.mp hs.notSkipped
      exact Name.isProper_iff.mpr ⟨hne, hdot, hs.notUp, hslash, hzero, hs.notLong⟩
  | skip _ _ _ ih | up _ _ ih | enter _ _ _ _ _ ih =>
      exact ih (fun part hpart => hparts part (by simp [hpart])) hplace
  | @follow _ _ _ rest target _ _ _ _ hlink _ ih =>
      have htarget : (Node.link target).isWellFormed :=
        Node.isWellFormed_get? fs.wellFormed (kind?_eq_link.mp hlink)
      have hnul : target.hasNul = false := by
        simp only [Node.isWellFormed, Bool.and_eq_true, Bool.not_eq_true'] at htarget
        exact htarget.2
      refine ih (fun part hpart => ?_) hplace
      rcases List.mem_append.mp hpart with hpart | hpart
      · exact Path.mem_split hnul hpart
      · exact hparts part (by simp [hpart])

theorem NamesFile.isProper_last (h : fs.NamesFile p loc) (dir : Location) (n : Name)
    (hloc : loc = dir ++ [n]) : Name.isProper n := by
  cases h with
  | present _ hfile =>
      rw [hloc] at hfile
      obtain ⟨es, hes, hn⟩ := get?_parent hfile
      exact (fs.get?_of_mem hes (Entries.mem_of_get? hn)).1
  | absent hres =>
      obtain ⟨-, rfl⟩ := List.append_singleton_inj.mp hloc
      obtain ⟨hnul, -, -, hleads⟩ := resolve_eq_ok_iff.mp hres
      exact hleads.isProper_vacant fun part hpart => Path.mem_split hnul hpart

end Name

/-- Opening an output once more gives the tree that opening it before any write gave. -/
theorem NamesFile.create_put {fs : FileSystem} {p : Path} {loc : Location} (h : fs.NamesFile p loc)
    (data : Bytes) (room : Option Nat) :
    (fs.put loc (.file data room)).create p =
      .ok (fs.put loc (.file [] (room.map (· + data.length))), .file loc) := by
  obtain ⟨place, hres, rfl⟩ := h.resolve
  have hagain : (fs.put place.location (.file data room)).resolve .create p = .ok (.found place.location) :=
    (grows_put h.writable data room).resolve_created hres (kind?_put_self ..) (by simp)
  simp [FileSystem.create, hagain, truncate, get?_put_self, put_put]

section Reading

variable {fs fs' : FileSystem} {loc : Location} {p : Path}

theorem readText_eq_ok {data : Bytes} :
    fs.readText p = .ok data ↔
      ∃ l x, fs.resolve .follow p = .ok (.found l) ∧ fs.get? l = some x ∧ readNode x = .ok data := by
  have hstat : fs.readText p = .ok data ↔ ∃ l x, fs.stat p = .ok (l, x) ∧ readNode x = .ok data := by
    cases h : fs.stat p with
    | error fault => simp [readText, h, bind, Except.bind]
    | ok end_ =>
        obtain ⟨l, x⟩ := end_
        simp [readText, h, bind, Except.bind, and_assoc]
  simp only [hstat, stat_eq_ok_iff, and_assoc]

theorem readText_congr (hres : fs.resolve .follow p = fs'.resolve .follow p)
    (hread : ∀ l, fs.resolve .follow p = .ok (.found l) →
      (fs.get? l).map readNode = (fs'.get? l).map readNode) : fs.readText p = fs'.readText p := by
  simp only [readText, stat, find, ← hres]
  cases h : fs.resolve .follow p with
  | error fault => rfl
  | ok place =>
      cases place with
      | vacant dir name => rfl
      | found l =>
          have hl := hread l h
          cases hx : fs.get? l <;> cases hy : fs'.get? l <;>
            simp_all [bind, Except.bind]

theorem readNode_put (hloc : fs.root.Writable loc) (data : Bytes) (room : Option Nat)
    {l : Location} (hl : l ≠ loc) :
    ((fs.put loc (.file data room)).get? l).map readNode = (fs.get? l).map readNode := by
  obtain ⟨es, es', hdir, hdir'⟩ | hsame := Node.get?_put_of_ne hloc data room hl
  · have hbefore : fs.get? l = some (.dir es) := hdir
    have hafter : (fs.put loc (.file data room)).get? l = some (.dir es') := hdir'
    rw [hbefore, hafter]
    rfl
  · exact congrArg (Option.map readNode) hsame

variable (hloc : fs.root.Writable loc) {a : Bytes} {r : Option Nat}
  (hother : (fs.put loc (.file a r)).resolve .follow p ≠ .ok (.found loc))
include hloc hother

/-- What is read elsewhere does not depend on what is written. -/
theorem readText_put_put (b : Bytes) (q : Option Nat) :
    (fs.put loc (.file b q)).readText p = (fs.put loc (.file a r)).readText p := by
  refine readText_congr (resolve_put_put hloc b a q r) fun l hl => ?_
  rw [resolve_put_put hloc b a q r] at hl
  have hne : l ≠ loc := fun h => hother (h ▸ hl)
  rw [readNode_put hloc b q hne, readNode_put hloc a r hne]

theorem readText_put_eq_ok {data : Bytes} :
    (fs.put loc (.file a r)).readText p = .ok data ↔ fs.readText p = .ok data := by
  have hread {l : Location} (hl : l ≠ loc) := readNode_put hloc a r hl
  constructor
  · intro h
    obtain ⟨l, x, hres, hx, hdata⟩ := readText_eq_ok.mp h
    have hne : l ≠ loc := fun h => hother (h ▸ hres)
    have hnode : (fs.get? l).map readNode = some (.ok data) := by
      rw [← hread hne, hx, Option.map_some, hdata]
    obtain ⟨y, hy, hdata'⟩ := Option.map_eq_some_iff.mp hnode
    exact readText_eq_ok.mpr ⟨l, y, resolve_of_put hloc hres hne, hy, hdata'⟩
  · intro h
    obtain ⟨l, x, hres, hx, hdata⟩ := readText_eq_ok.mp h
    have hres' := (grows_put hloc a r).resolve_found hres
    have hne : l ≠ loc := fun h => hother (h ▸ hres')
    have hnode : ((fs.put loc (.file a r)).get? l).map readNode = some (.ok data) := by
      rw [hread hne, hx, Option.map_some, hdata]
    obtain ⟨y, hy, hdata'⟩ := Option.map_eq_some_iff.mp hnode
    exact readText_eq_ok.mpr ⟨l, y, hres', hy, hdata'⟩

theorem contains_put_iff {data : Bytes} :
    (fs.put loc (.file a r)).Contains p data ↔ fs.Contains p data := by
  constructor
  · rintro ⟨l, room, hstat⟩
    obtain ⟨hres, hfile⟩ := stat_eq_ok_iff.mp hstat
    have hne : l ≠ loc := fun h => hother (h ▸ hres)
    refine ⟨l, room, stat_eq_ok_iff.mpr ⟨resolve_of_put hloc hres hne, ?_⟩⟩
    obtain ⟨_, es', _, hdir'⟩ | hsame := Node.get?_put_of_ne hloc a r hne
    · cases hdir'.symm.trans hfile
    · exact hsame.symm.trans hfile
  · rintro ⟨l, room, hstat⟩
    have hres := (grows_put hloc a r).resolve_found (stat_eq_ok_iff.mp hstat).1
    have hne : l ≠ loc := fun h => hother (h ▸ hres)
    exact ⟨l, room, stat_put_of_ne hloc a r hstat hne⟩

end Reading

/-- A file that is there is refused for its encoding, and nothing else is. -/
theorem isInvalidData_of_readText {fs : FileSystem} {p : Path} {fault : IoFault}
    (h : fs.readText p = .error fault) :
    fault.isInvalidData ↔ ∃ data, fs.Contains p data ∧ Utf8.isValid data = false := by
  cases hstat : fs.stat p with
  | error cause =>
      have hcause : cause = fault := by simpa [readText, hstat, bind, Except.bind] using h
      have hnone : ¬ ∃ data, fs.Contains p data ∧ Utf8.isValid data = false := by
        rintro ⟨data, ⟨l, room, hfile⟩, -⟩
        cases hstat.symm.trans hfile
      refine iff_of_false ?_ hnone
      rw [← hcause]
      simp only [stat, find, resolve] at hstat
      grind [IoFault.isInvalidData, IoFault.nulInPath]
  | ok end_ =>
      obtain ⟨l, x⟩ := end_
      have hread : readNode x = .error fault := by
        simpa [readText, hstat, bind, Except.bind] using h
      cases x with
      | file data room =>
          simp only [readNode] at hread
          split at hread
          · cases hread
          · rename_i hinvalid
            obtain rfl := Except.error.inj hread
            exact iff_of_true rfl ⟨data, ⟨l, room, hstat⟩, Bool.eq_false_iff.mpr hinvalid⟩
      | dir _ | link _ | pipe | device _ =>
          refine iff_of_false ?_ ?_
          · simp only [readNode] at hread
            grind [IoFault.isInvalidData]
          · rintro ⟨data, ⟨m, room, hfile⟩, -⟩
            cases hstat.symm.trans hfile

end FileSystem

/-- What an opened output brings about. -/
def WellFormedFileSystem.reached (fs : WellFormedFileSystem) {p : Path}
    {opened now : FileSystem} {handle : Output} (hcreate : fs.create p = .ok (opened, handle))
    (h : handle.Reaches fs now) : WellFormedFileSystem where
  toFileSystem := now
  wellFormed := by
    cases h with
    | void | full => exact fs.wellFormed
    | file hloc data room =>
        obtain ⟨loc, space, hnames, hhandle, -⟩ | ⟨-, hdevice, -⟩ := FileSystem.create_cases hcreate
        · obtain rfl := Output.file.inj hhandle
          exact (fs.putFile hloc hnames.isProper_last data room).wellFormed
        · rcases hdevice with hdevice | hdevice <;> cases hdevice

end Collate
