import Collate.FileTree.Access
import Collate.Proofs.FileTree.Entry

/-!
What an output does to the tree. Opening and writing a regular file changes the node at one location and
nothing else: all paths lead where they led before, and every other file keeps its contents.
-/
namespace Collate

theorem Node.Writable.get? {x : Node} {loc : Location} (h : x.Writable loc) :
    x.get? loc = none ∨ ∃ data room, x.get? loc = some (.file data room) := by
  induction h with
  | file data room => exact .inr ⟨data, room, rfl⟩
  | free hn => left; simp [Node.get?, hn]
  | inside hy _ ih => simpa [Node.get?, hy] using ih

namespace FileSystem

/-- The path leads to a regular file at the location, or to a name that is still free there. -/
inductive NamesFile (fs : FileSystem) (p : Path) : Location → Prop where
  | present {loc : Location} {data : Bytes} {room : Option Nat} :
      fs.resolve .create p = .ok (.found loc) → fs.get? loc = some (.file data room) →
      NamesFile fs p loc
  | absent {dir : Location} {name : Name} :
      fs.resolve .create p = .ok (.vacant dir name) → NamesFile fs p (dir ++ [name])

/-- The path leads to a regular file with these contents. -/
def Contains (fs : FileSystem) (p : Path) (contents : Bytes) : Prop :=
  ∃ loc room, fs.stat p = .ok (loc, .file contents room)

/-- The paths lead to the same node. -/
def SameFile (fs : FileSystem) (p q : Path) : Prop :=
  ∃ loc x, fs.stat p = .ok (loc, x) ∧ fs.stat q = .ok (loc, x)

theorem sameFile_iff {fs : FileSystem} {p q : Path} {l m : Location} {x y : Node}
    (hp : fs.stat p = .ok (l, x)) (hq : fs.stat q = .ok (m, y)) : fs.SameFile p q ↔ l = m := by
  constructor
  · rintro ⟨loc, z, hp', hq'⟩
    cases hp.symm.trans hp'
    cases hq.symm.trans hq'
    rfl
  · intro hlm
    subst hlm
    have hx := (stat_eq_ok_iff.mp hp).2
    have hy := (stat_eq_ok_iff.mp hq).2
    obtain rfl : x = y := Option.some.inj (hx.symm.trans hy)
    exact ⟨l, x, hp, hq⟩

instance (fs : FileSystem) (p q : Path) : Decidable (fs.SameFile p q) :=
  match hp : fs.stat p, hq : fs.stat q with
  | .ok (l, _), .ok (m, _) => decidable_of_iff (l = m) (sameFile_iff hp hq).symm
  | .error _, _ => isFalse fun ⟨_, _, h, _⟩ => nomatch hp.symm.trans h
  | _, .error _ => isFalse fun ⟨_, _, _, h⟩ => nomatch hq.symm.trans h

theorem Leads.vacant {fs : FileSystem} {ending : Ending} {links : Nat} {here dir : Location}
    {parts : List Name} {name : Name} (h : Leads fs ending links here parts (.vacant dir name)) :
    fs.kind? dir = some .directory ∧ fs.kind? (dir ++ [name]) = none := by
  generalize hplace : Place.vacant dir name = place at h
  induction h with
  | done _ _ | kept _ _ _ _ => cases hplace
  | free hdir _ _ hnone =>
      cases hplace
      exact ⟨hdir, hnone⟩
  | skip _ _ _ ih | up _ _ ih | follow _ _ _ _ _ ih | enter _ _ _ _ _ ih => exact ih hplace

/-- Where an output is found, its path leads without opening it. -/
theorem follow_of_create {fs : FileSystem} {p : Path} {loc : Location}
    (h : fs.resolve .create p = .ok (.found loc)) : fs.resolve .follow p = .ok (.found loc) := by
  obtain ⟨hnul, hnil, hlen, hleads⟩ := resolve_eq_ok_iff.mp h
  have hfollow : Leads fs .follow linkLimit (fs.start p) p.split (.found loc) :=
    hleads.grow (fun _ _ hk => hk) (by simp) (by simp) (by simp)
  exact resolve_eq_ok_iff.mpr ⟨hnul, hnil, hlen, hfollow⟩

section Named

variable {fs : FileSystem} {p : Path} {loc : Location}

theorem NamesFile.writable (h : fs.NamesFile p loc) : fs.root.Writable loc := by
  cases h with
  | present _ hfile => exact Node.writable_of_file hfile
  | absent hres =>
      obtain ⟨-, -, -, hleads⟩ := resolve_eq_ok_iff.mp hres
      obtain ⟨hdir, hfree⟩ := hleads.vacant
      obtain ⟨es, hes⟩ := kind?_eq_directory.mp hdir
      refine Node.writable_of_free hes ?_
      rw [← get?_snoc hes]
      exact kind?_eq_none.mp hfree

theorem NamesFile.resolve (h : fs.NamesFile p loc) :
    ∃ place : Place, fs.resolve .create p = .ok place ∧ place.location = loc := by
  cases h with
  | present hres _ => exact ⟨_, hres, rfl⟩
  | absent hres => exact ⟨_, hres, rfl⟩

theorem NamesFile.create (h : fs.NamesFile p loc) :
    ∃ room, fs.create p = .ok (fs.put loc (.file [] room), .file loc) := by
  cases h with
  | @present loc data room hres hfile =>
      exact ⟨room.map (· + data.length), by simp [FileSystem.create, hres, truncate, hfile]⟩
  | absent hres => exact ⟨none, by simp [FileSystem.create, hres, Node.newFile]⟩

/-- Writing a file takes nothing away from what paths see. -/
theorem grows_put (h : fs.root.Writable loc) (data : Bytes) (room : Option Nat) :
    Grows fs (fs.put loc (.file data room)) := by
  refine ⟨rfl, fun l kind hkind => ?_⟩
  by_cases hl : l = loc
  · subst hl
    have hleaf : fs.kind? l = some .leaf := by
      obtain hnone | ⟨before, space, hfile⟩ := h.get?
      · cases (kind?_eq_none.mpr hnone).symm.trans hkind
      · exact kind?_of_file hfile
    rw [kind?_of_file (get?_put_self fs l _), ← hleaf, hkind]
  · obtain ⟨es, es', hdir, hdir'⟩ | hsame := Node.get?_put_of_ne h data room hl
    · have hbefore : fs.kind? l = some .directory := kind?_eq_directory.mpr ⟨es, hdir⟩
      have hafter : (fs.put loc (.file data room)).kind? l = some .directory :=
        kind?_eq_directory.mpr ⟨es', hdir'⟩
      rw [hafter, ← hbefore, hkind]
    · rw [← hkind]
      exact congrArg (Option.map Node.kind) hsame

theorem stat_put_of_ne (h : fs.root.Writable loc) (data : Bytes) (room : Option Nat) {l : Location}
    {before : Bytes} {space : Option Nat} (hp : fs.stat p = .ok (l, .file before space))
    (hl : l ≠ loc) : (fs.put loc (.file data room)).stat p = .ok (l, .file before space) := by
  obtain ⟨hres, hget⟩ := stat_eq_ok_iff.mp hp
  exact stat_eq_ok_iff.mpr
    ⟨(grows_put h data room).resolve_found hres, get?_put_of_file h data room hl hget⟩

theorem stat_put_self (h : fs.root.Writable loc) (data : Bytes) (room : Option Nat) {x : Node}
    (hp : fs.stat p = .ok (loc, x)) :
    (fs.put loc (.file data room)).stat p = .ok (loc, .file data room) := by
  obtain ⟨hres, -⟩ := stat_eq_ok_iff.mp hp
  exact stat_eq_ok_iff.mpr ⟨(grows_put h data room).resolve_found hres, get?_put_self fs loc _⟩

theorem NamesFile.stat_put (h : fs.NamesFile p loc) (data : Bytes) (room : Option Nat) :
    (fs.put loc (.file data room)).stat p = .ok (loc, .file data room) := by
  obtain ⟨place, hres, rfl⟩ := h.resolve
  have hget := get?_put_self fs place.location (.file data room)
  exact stat_eq_ok_iff.mpr
    ⟨(grows_put h.writable data room).resolve_created hres (kind?_of_file hget) (by simp), hget⟩

/-- Another path leads to the file of an output exactly when it leads to the same location. -/
theorem NamesFile.sameFile_iff (h : fs.NamesFile p loc) {q : Path} {l : Location} {x : Node}
    (hq : fs.stat q = .ok (l, x)) : fs.SameFile q p ↔ l = loc := by
  cases h with
  | @present _ data room hres hfile =>
      have hp : fs.stat p = .ok (loc, .file data room) :=
        stat_eq_ok_iff.mpr ⟨follow_of_create hres, hfile⟩
      exact FileSystem.sameFile_iff hq hp
  | @absent dir name hres =>
      obtain ⟨-, -, -, hleads⟩ := resolve_eq_ok_iff.mp hres
      have hfree : fs.kind? (dir ++ [name]) = none := hleads.vacant.2
      constructor
      · rintro ⟨m, y, -, hp⟩
        have hafter := (NamesFile.absent hres).stat_put [] none
        have hbefore := (grows_put (NamesFile.absent hres).writable [] none).resolve_found
          (stat_eq_ok_iff.mp hp).1
        obtain rfl : m = dir ++ [name] :=
          Place.found.inj (Except.ok.inj (hbefore.symm.trans (stat_eq_ok_iff.mp hafter).1))
        cases (kind?_eq_none.mp hfree).symm.trans (stat_eq_ok_iff.mp hp).2
      · rintro rfl
        cases (kind?_eq_none.mp hfree).symm.trans (stat_eq_ok_iff.mp hq).2

end Named

end FileSystem

/-- The trees that an output opened in this one can bring about. -/
inductive Output.Reaches (fs : FileSystem) : Output → FileSystem → Prop where
  | file {loc : Location} (writable : fs.root.Writable loc) (data : Bytes) (room : Option Nat) :
      Reaches fs (.file loc) (fs.put loc (.file data room))
  | void : Reaches fs .void fs
  | full : Reaches fs .full fs

namespace FileSystem

theorem append_put (fs : FileSystem) (loc : Location) (data bytes : Bytes) (room : Option Nat) :
    (fs.put loc (.file data room)).append (.file loc) bytes =
      match room with
      | none => (fs.put loc (.file (data ++ bytes) none), none)
      | some space =>
        (fs.put loc (.file (data ++ bytes.take space) (some (space - bytes.length))),
          if bytes.length ≤ space then none else some .noSpace) := by
  cases room <;> simp [append, get?_put_self, put_put]

/-- How many octets the file at a location can hold in all, if that is bounded. -/
def limit (fs : FileSystem) (loc : Location) : Option Nat :=
  match fs.get? loc with
  | some (.file data room) => room.map (· + data.length)
  | _ => none

/-- The file at the location can come to hold so many octets. -/
def HasRoom (fs : FileSystem) (loc : Location) (octets : Nat) : Prop :=
  ∀ most, fs.limit loc = some most → octets ≤ most

theorem limit_put (fs : FileSystem) (loc : Location) (data : Bytes) (room : Option Nat) :
    (fs.put loc (.file data room)).limit loc = room.map (· + data.length) := by
  simp [limit, get?_put_self]

theorem limit_append (fs : FileSystem) (loc : Location) (bytes : Bytes) :
    (fs.append (.file loc) bytes).1.limit loc = fs.limit loc := by
  simp only [append]
  split
  · rename_i data hget
    rw [limit_put]
    simp [limit, hget]
  · rename_i data room hget
    have hbefore : fs.limit loc = some (room + data.length) := by simp [limit, hget]
    rw [limit_put, hbefore, Option.map_some, Option.some.injEq, List.length_append,
      List.length_take]
    omega
  · rfl

theorem append_reaches {fs now : FileSystem} {o : Output} (h : o.Reaches fs now) (bytes : Bytes) :
    o.Reaches fs (now.append o bytes).1 := by
  cases h with
  | file hloc data room =>
      rw [append_put]
      cases room <;> exact .file hloc _ _
  | void => exact .void
  | full => exact .full

theorem stat_of_reaches {fs now : FileSystem} {o : Output} (h : o.Reaches fs now) {p : Path}
    {l : Location} {data : Bytes} {room : Option Nat} (hp : fs.stat p = .ok (l, .file data room)) :
    ∃ data' room', now.stat p = .ok (l, .file data' room') := by
  cases h with
  | @file loc hloc after left =>
      by_cases hl : l = loc
      · subst hl
        exact ⟨after, left, stat_put_self hloc after left hp⟩
      · exact ⟨data, room, stat_put_of_ne hloc after left hp hl⟩
  | void | full => exact ⟨data, room, hp⟩

/-- Opening an output empties or makes one file, or opens a device and leaves the tree alone. -/
theorem create_cases {fs now : FileSystem} {p : Path} {o : Output} (h : fs.create p = .ok (now, o)) :
    (∃ loc room, fs.NamesFile p loc ∧ o = .file loc ∧ now = fs.put loc (.file [] room)) ∨
      (now = fs ∧ (o = .void ∨ o = .full) ∧
        ∃ loc x, fs.stat p = .ok (loc, x) ∧ ∀ data room, x ≠ .file data room) := by
  simp only [create] at h
  split at h
  · cases h
  · rename_i loc hres
    have hstat {x : Node} (hx : fs.get? loc = some x) : fs.stat p = .ok (loc, x) :=
      stat_eq_ok_iff.mpr ⟨follow_of_create hres, hx⟩
    simp only [truncate] at h
    split at h
    · rename_i data room hget
      obtain ⟨rfl, rfl⟩ := Prod.mk.inj (Except.ok.inj h)
      exact .inl ⟨loc, _, .present hres hget, rfl, rfl⟩
    · rename_i hget
      obtain ⟨rfl, rfl⟩ := Prod.mk.inj (Except.ok.inj h)
      exact .inr ⟨rfl, .inl rfl, loc, _, hstat hget, by simp⟩
    · rename_i hget
      obtain ⟨rfl, rfl⟩ := Prod.mk.inj (Except.ok.inj h)
      exact .inr ⟨rfl, .inl rfl, loc, _, hstat hget, by simp⟩
    · rename_i hget
      obtain ⟨rfl, rfl⟩ := Prod.mk.inj (Except.ok.inj h)
      exact .inr ⟨rfl, .inr rfl, loc, _, hstat hget, by simp⟩
    · cases h
  · rename_i dir name hres
    obtain ⟨rfl, rfl⟩ := Prod.mk.inj (Except.ok.inj h)
    exact .inl ⟨dir ++ [name], none, .absent hres, rfl, rfl⟩

theorem create_reaches {fs now : FileSystem} {p : Path} {o : Output}
    (h : fs.create p = .ok (now, o)) : o.Reaches fs now := by
  obtain ⟨loc, room, hnames, rfl, rfl⟩ | ⟨rfl, rfl | rfl, -⟩ := create_cases h
  · exact .file hnames.writable [] room
  · exact .void
  · exact .full

theorem contains_create {fs now : FileSystem} {p : Path} {o : Output}
    (h : fs.create p = .ok (now, o)) {q : Path} {data : Bytes} (hq : fs.Contains q data) :
    now.Contains q (if fs.SameFile q p then [] else data) := by
  obtain ⟨l, space, hstat⟩ := hq
  obtain ⟨loc, room, hnames, -, rfl⟩ | ⟨rfl, -, loc, x, hp, hx⟩ := create_cases h
  · by_cases hl : l = loc
    · rw [if_pos ((hnames.sameFile_iff hstat).mpr hl)]
      subst hl
      exact ⟨l, room, stat_put_self hnames.writable [] room hstat⟩
    · rw [if_neg (mt (hnames.sameFile_iff hstat).mp hl)]
      exact ⟨l, space, stat_put_of_ne hnames.writable [] room hstat hl⟩
  · have hother : ¬ now.SameFile q p := by
      rintro ⟨m, y, hm, hn⟩
      cases hstat.symm.trans hm
      cases hp.symm.trans hn
      exact hx data space rfl
    rw [if_neg hother]
    exact ⟨l, space, hstat⟩

end FileSystem

end Collate
