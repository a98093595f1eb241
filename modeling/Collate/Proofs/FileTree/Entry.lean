import Collate.Proofs.FileTree.Passes

/-!
Paths as a whole. The same path leads to the same place in the sorted tree and in every tree with more
entries, and the path of a directory's entry leads to the entry, wherever the directory's path comes from.
-/
namespace Collate

namespace FileSystem

/-- Where the parts of a path are looked up first. -/
def start (fs : FileSystem) (p : Path) : Location :=
  if p.isAbsolute then [] else fs.cwd

section Resolution

variable {fs : FileSystem} {ending : Ending} {p : Path}

theorem resolve_eq_ok_iff {place : Place} :
    fs.resolve ending p = .ok place ↔
      p.hasNul = false ∧ p ≠ [] ∧ p.length < pathLimit ∧
        Leads fs ending linkLimit (fs.start p) p.split place := by
  rw [← resolveWithin_eq_ok_iff]
  constructor
  · intro h
    simp only [resolve] at h
    split at h
    · cases h
    · rename_i hnul
      split at h
      · cases h
      · rename_i hnil
        split at h
        · cases h
        · rename_i hlong
          split at h
          · rename_i found hfound
            obtain rfl := Except.ok.inj h
            exact ⟨Bool.eq_false_iff.mpr hnul, hnil, Nat.lt_of_not_le hlong, hfound⟩
          · cases h
  · rintro ⟨hnul, hnil, hlen, h⟩
    simp only [start] at h
    simp [resolve, hnul, hnil, Nat.not_le.mpr hlen, h]

theorem find_eq_ok_iff {loc : Location} {x : Node} :
    fs.find ending p = .ok (loc, x) ↔
      fs.resolve ending p = .ok (.found loc) ∧ fs.get? loc = some x := by
  constructor
  · intro h
    simp only [find] at h
    split at h
    · cases h
    · cases h
    · rename_i l hres
      split at h
      · rename_i y hget
        obtain ⟨rfl, rfl⟩ := Prod.mk.inj (Except.ok.inj h)
        exact ⟨hres, hget⟩
      · cases h
  · rintro ⟨hres, hget⟩
    simp [find, hres, hget]

theorem stat_eq_ok_iff {loc : Location} {x : Node} :
    fs.stat p = .ok (loc, x) ↔ fs.resolve .follow p = .ok (.found loc) ∧ fs.get? loc = some x :=
  find_eq_ok_iff

theorem ne_nil_of_resolve {place : Place} (h : fs.resolve ending p = .ok place) : p ≠ [] :=
  (resolve_eq_ok_iff.mp h).2.1

theorem length_lt_of_resolve {place : Place} (h : fs.resolve ending p = .ok place) :
    p.length < pathLimit :=
  (resolve_eq_ok_iff.mp h).2.2.1

/-- Where all links are followed, no link is at the end of a path. -/
theorem stat_ne_link {loc : Location} {target : Path} : fs.stat p ≠ .ok (loc, .link target) := by
  intro h
  obtain ⟨hres, hx⟩ := stat_eq_ok_iff.mp h
  obtain ⟨-, -, -, hleads⟩ := resolve_eq_ok_iff.mp hres
  exact hleads.ne_link (fun hnil => absurd hnil p.split_ne_nil) target (kind?_eq_link.mpr hx)

/-- Looking up the path comes by the location. -/
def Passes (fs : FileSystem) (p : Path) (loc : Location) : Prop :=
  fs.PassesFrom linkLimit (fs.start p) p.split loc

/-- A path leads to the same place in every tree with the same kinds of nodes on the way. -/
theorem resolve_of_passes {fs' : FileSystem} (hcwd : fs'.cwd = fs.cwd)
    (h : ∀ loc, fs.Passes p loc → fs'.kind? loc = fs.kind? loc) :
    fs'.resolve ending p = fs.resolve ending p := by
  have hwithin := resolveWithin_of_passes ending h
  simp only [start] at hwithin
  simp only [resolve, hcwd, hwithin]

theorem passes_of_resolve (hending : ending ≠ .create) {loc : Location}
    (h : fs.resolve ending p = .ok (.found loc)) : fs.Passes p loc := by
  obtain ⟨-, -, -, hleads⟩ := resolve_eq_ok_iff.mp h
  exact hleads.passesFrom hending

end Resolution

section Sorted

variable (fs : FileSystem) (ending : Ending) (p : Path)

theorem resolve_sorted : fs.sorted.resolve ending p = fs.resolve ending p :=
  resolve_of_passes rfl fun loc _ => kind?_sorted fs loc

theorem find_sorted :
    fs.sorted.find ending p = (fs.find ending p).map fun found => (found.1, found.2.sorted) := by
  simp only [find, resolve_sorted, get?_sorted]
  cases fs.resolve ending p with
  | error fault => rfl
  | ok place =>
      cases place with
      | vacant dir name => rfl
      | found loc => cases hget : fs.get? loc <;> simp [Except.map, hget]

theorem stat_sorted :
    fs.sorted.stat p = (fs.stat p).map fun found => (found.1, found.2.sorted) :=
  find_sorted fs .follow p

end Sorted

section Growth

variable {fs fs' : FileSystem} {p : Path}

/-- The kinds of all locations that hold something stay, and so does the working directory. -/
structure Grows (fs fs' : FileSystem) : Prop where
  cwd : fs'.cwd = fs.cwd
  kind : ∀ loc kind, fs.kind? loc = some kind → fs'.kind? loc = some kind

theorem Grows.resolve_found (h : Grows fs fs') {ending : Ending} {loc : Location}
    (hp : fs.resolve ending p = .ok (.found loc)) : fs'.resolve ending p = .ok (.found loc) := by
  obtain ⟨hnul, hnil, hlen, hleads⟩ := resolve_eq_ok_iff.mp hp
  refine resolve_eq_ok_iff.mpr ⟨hnul, hnil, hlen, ?_⟩
  have hstart : fs'.start p = fs.start p := by simp [start, h.cwd]
  rw [hstart]
  exact hleads.grow h.kind Iff.rfl id (by simp)

/-- Where an output was created, its path leads afterwards, also for whoever would create it. -/
theorem Grows.resolve_created (h : Grows fs fs') {place : Place}
    (hp : fs.resolve .create p = .ok place) (hleaf : fs'.kind? place.location = some .leaf)
    {ending : Ending} (hending : ending ≠ .keep) :
    fs'.resolve ending p = .ok (.found place.location) := by
  obtain ⟨hnul, hnil, hlen, hleads⟩ := resolve_eq_ok_iff.mp hp
  refine resolve_eq_ok_iff.mpr ⟨hnul, hnil, hlen, ?_⟩
  have hstart : fs'.start p = fs.start p := by simp [start, h.cwd]
  rw [hstart]
  refine hleads.grow h.kind (by simp [hending]) (fun _ => rfl) ?_
  rintro dir name rfl
  exact hleaf

end Growth

section Entry

variable {fs : FileSystem} {p : Path} {loc : Location} {n : Name}

/-- What an operation on a path answers when the parts of the path have been resolved. -/
def answer : Except Refusal Place → Except IoFault Place
  | .ok place => .ok place
  | .error reason => .error (.refused reason)

/-- What lies below a directory is looked up from where the directory's path leads. -/
theorem resolve_entry (hp : fs.resolve .follow p = .ok (.found loc)) :
    ∃ left ≤ linkLimit, ∀ (ending : Ending) (n : Name), Path.hasNul n = false →
      (∃ m ∈ Path.split n, m ≠ []) → (p.entry n).length < pathLimit →
      fs.resolve ending (p.entry n) = answer (fs.resolveWithin ending left loc (Path.split n)) := by
  obtain ⟨hpnul, hnil, -, hleads⟩ := resolve_eq_ok_iff.mp hp
  have hq : ∃ q : Path, (∀ n, (p.entry n).split = q.split ++ Path.split n) ∧
      Leads fs .follow linkLimit (fs.start p) q.split (.found loc) := by
    obtain ⟨q, hsplit, hq⟩ := Path.split_entry hnil
    refine ⟨q, hsplit, ?_⟩
    rcases hq with hq | hq
    · rwa [hq] at hleads
    · rw [hq] at hleads
      exact (hleads.dropLast (.inl rfl)).1
  obtain ⟨q, hsplit, hleads'⟩ := hq
  obtain ⟨left, hle, hleft⟩ := hleads'.resolveWithin_append
  refine ⟨left, hle, fun ending n hnul hpart hlen => ?_⟩
  have hnul' : (p.entry n).hasNul = false := by rw [Path.hasNul_entry, hpnul, hnul]; rfl
  simp only [resolve, hnul', Path.entry_ne_nil hnil n, Nat.not_le.mpr hlen,
    Path.isAbsolute_entry hnil n, Bool.false_eq_true, ↓reduceIte, hsplit]
  rw [← hleft ending _ hpart]
  simp only [start]
  cases fs.resolveWithin ending linkLimit (if p.isAbsolute then [] else fs.cwd)
    (q.split ++ Path.split n) <;> rfl

theorem isStep_of_isProper (hn : Name.isProper n) (ending : Ending) : IsStep ending n [] := by
  obtain ⟨hne, hdot, hup, -, -, hlong⟩ := Name.isProper_iff.mp hn
  exact ⟨by simp [hne, hdot], hup, by simp [isTrailing], hlong⟩

private theorem resolve_proper (hp : fs.resolve .follow p = .ok (.found loc))
    (hn : Name.isProper n) (hlen : (p.entry n).length < pathLimit) (ending : Ending) :
    ∃ left, fs.resolve ending (p.entry n) =
      answer (fs.resolveWithin ending left loc [n]) := by
  obtain ⟨hne, -, -, -, hnul, -⟩ := Name.isProper_iff.mp hn
  have hsplit := Name.split_of_isProper hn
  have hnul' : Path.hasNul n = false := by simpa [Path.hasNul] using hnul
  obtain ⟨left, -, hleft⟩ := resolve_entry hp
  exact ⟨left, hsplit ▸ hleft ending n hnul' ⟨n, by simp [hsplit], hne⟩ hlen⟩

/-- An entry that is no link is found where it is listed. -/
theorem resolve_entry_found (hp : fs.resolve .follow p = .ok (.found loc))
    (hn : Name.isProper n) (hlen : (p.entry n).length < pathLimit) {x : Node}
    (hx : fs.get? (loc ++ [n]) = some x) (hlink : ∀ target, x ≠ .link target) (ending : Ending) :
    fs.resolve ending (p.entry n) = .ok (.found (loc ++ [n])) := by
  obtain ⟨es, hdir, -⟩ := get?_parent hx
  obtain ⟨left, hleft⟩ := resolve_proper hp hn hlen ending
  have hkind : fs.kind? (loc ++ [n]) = some x.kind := by simp [kind?, hx]
  have hleads : Leads fs ending left loc [n] (.found (loc ++ [n])) :=
    .enter (kind?_eq_directory.mpr ⟨es, hdir⟩) (isStep_of_isProper hn ending) hkind
      (fun target e => hlink target (Node.kind_eq_link.mp e)) (.done _ _)
  rw [hleft, resolveWithin_eq_ok_iff.mpr hleads]
  rfl

/-- A name that is free in a directory is where an output is made. -/
theorem resolve_entry_vacant (hp : fs.resolve .follow p = .ok (.found loc))
    (hdir : fs.kind? loc = some .directory) (hn : Name.isProper n)
    (hlen : (p.entry n).length < pathLimit) (hfree : fs.kind? (loc ++ [n]) = none) :
    fs.resolve .create (p.entry n) = .ok (.vacant loc n) := by
  obtain ⟨left, hleft⟩ := resolve_proper hp hn hlen .create
  have hleads : Leads fs .create left loc [n] (.vacant loc n) :=
    .free hdir (isStep_of_isProper hn .create) rfl hfree
  rw [hleft, resolveWithin_eq_ok_iff.mpr hleads]
  rfl

theorem find_entry_link (hp : fs.resolve .follow p = .ok (.found loc))
    (hn : Name.isProper n) (hlen : (p.entry n).length < pathLimit) {target : Path}
    (hx : fs.get? (loc ++ [n]) = some (.link target)) :
    fs.find .keep (p.entry n) = .ok (loc ++ [n], .link target) := by
  obtain ⟨es, hdir, -⟩ := get?_parent hx
  obtain ⟨left, hleft⟩ := resolve_proper hp hn hlen .keep
  have hleads : Leads fs .keep left loc [n] (.found (loc ++ [n])) :=
    .kept (kind?_eq_directory.mpr ⟨es, hdir⟩) (isStep_of_isProper hn .keep) rfl
      (kind?_eq_link.mpr hx)
  refine find_eq_ok_iff.mpr ⟨?_, hx⟩
  rw [hleft, resolveWithin_eq_ok_iff.mpr hleads]
  rfl

theorem get?_of_resolve_entry (hp : fs.resolve .follow p = .ok (.found loc))
    (hn : Name.isProper n) {ending : Ending} {l : Location}
    (h : fs.resolve ending (p.entry n) = .ok (.found l)) : ∃ x, fs.get? (loc ++ [n]) = some x := by
  obtain ⟨left, hleft⟩ := resolve_proper hp hn (length_lt_of_resolve h) ending
  have hstep := isStep_of_isProper hn ending
  rw [hleft] at h
  cases hres : fs.resolveWithin ending left loc [n] with
  | error reason => simp [hres, answer] at h
  | ok place =>
      obtain rfl : place = .found l := by simpa [hres, answer] using h
      have hkind : ∃ kind, fs.kind? (loc ++ [n]) = some kind := by
        cases resolveWithin_eq_ok_iff.mp hres with
        | skip _ hskip _ => exact absurd hskip hstep.notSkipped
        | up _ _ => exact absurd rfl hstep.notUp
        | kept _ _ _ hkind | follow _ _ _ hkind _ | enter _ _ hkind _ _ => exact ⟨_, hkind⟩
      obtain ⟨kind, hkind⟩ := hkind
      obtain ⟨x, hx, -⟩ := Option.map_eq_some_iff.mp hkind
      exact ⟨x, hx⟩

/-- What is passed on the way to an entry that is no link is passed on the way to its directory, or it is
the entry itself. -/
theorem Passes.of_entry (hp : fs.resolve .follow p = .ok (.found loc)) (hn : Name.isProper n)
    (hlink : ∀ target, fs.get? (loc ++ [n]) ≠ some (.link target)) {l : Location}
    (h : fs.Passes (p.entry n) l) : fs.Passes p l ∨ l = loc ++ [n] := by
  obtain ⟨-, hnil, -, hleads⟩ := resolve_eq_ok_iff.mp hp
  obtain ⟨q, hsplit, hq⟩ := Path.split_entry hnil
  have hstart : fs.start (p.entry n) = fs.start p := by simp [start, Path.isAbsolute_entry hnil]
  have hleads' : Leads fs .follow linkLimit (fs.start p) q.split (.found loc) := by
    rcases hq with hq | hq
    · rwa [hq] at hleads
    · rw [hq] at hleads
      exact (hleads.dropLast (.inl rfl)).1
  have hbefore {l : Location} (hl : fs.PassesFrom linkLimit (fs.start p) q.split l) :
      fs.Passes p l := by
    rcases hq with hq | hq
    · rwa [Passes, hq]
    · rw [Passes, hq]
      exact hl.append [[]]
  rw [Passes, hstart, hsplit, Name.split_of_isProper hn] at h
  rcases h.of_append with hl | ⟨left, mid, hmid, hlast⟩
  · exact .inl (hbefore hl)
  · have hplace : Except.ok (Place.found mid) = .ok (.found loc) :=
      (resolveWithin_eq_ok_iff.mpr hmid).symm.trans (resolveWithin_eq_ok_iff.mpr hleads')
    obtain rfl : mid = loc := Place.found.inj (Except.ok.inj hplace)
    rcases hlast.of_single (isStep_of_isProper hn .follow) with rfl | rfl | ⟨-, target, hkind, -⟩
    · exact .inl (hbefore (hleads'.passesFrom (by simp)))
    · exact .inr rfl
    · exact absurd (kind?_eq_link.mp hkind) (hlink target)

theorem find_entry_dir (hp : fs.resolve .follow p = .ok (.found loc)) (hn : Name.isProper n)
    {l : Location} {es : Entries} (h : fs.find .keep (p.entry n) = .ok (l, .dir es)) :
    fs.get? (loc ++ [n]) = some (.dir es) ∧ fs.stat (p.entry n) = .ok (loc ++ [n], .dir es) := by
  obtain ⟨hres, hl⟩ := find_eq_ok_iff.mp h
  have hlen := length_lt_of_resolve hres
  obtain ⟨x, hx⟩ := get?_of_resolve_entry hp hn hres
  have hlink : ∀ target, x ≠ .link target := by
    rintro target rfl
    cases (find_entry_link hp hn hlen hx).symm.trans h
  have hplain := resolve_entry_found hp hn hlen hx hlink
  obtain rfl : loc ++ [n] = l := Place.found.inj (Except.ok.inj ((hplain .keep).symm.trans hres))
  exact ⟨hl, stat_eq_ok_iff.mpr ⟨hplain .follow, hl⟩⟩

end Entry

/-- Below the path all is looked up from the location, with at most so many links left to follow. -/
def Spares (fs : FileSystem) (p : Path) (loc : Location) (links : Nat) : Prop :=
  ∃ left ≤ links, ∀ (ending : Ending) (names : List Name), names ≠ [] →
    (∀ n ∈ names, Name.isProper n) → (p.below names).length < pathLimit →
    fs.resolve ending (p.below names) = answer (fs.resolveWithin ending left loc names)

section Spares

variable {fs : FileSystem} {p : Path} {loc : Location} {n : Name} {links : Nat}

theorem spares_of_resolve (h : fs.resolve .follow p = .ok (.found loc)) :
    fs.Spares p loc linkLimit := by
  obtain ⟨left, hle, hall⟩ := resolve_entry h
  refine ⟨left, hle, fun ending names hne hproper hlen => ?_⟩
  have hplain : ∀ n ∈ names, n ≠ [] ∧ Path.slash ∉ n := by
    intro n hn
    obtain ⟨hn, -, -, hslash, -⟩ := Name.isProper_iff.mp (hproper n hn)
    exact ⟨hn, hslash⟩
  have hsplit : Path.split (Path.joinNames names) = names := by
    obtain ⟨m, ms, rfl⟩ := List.exists_cons_of_ne_nil hne
    exact Path.split_joinNames fun n hn => (hplain n hn).2
  have hpart : ∃ m ∈ Path.split (Path.joinNames names), m ≠ [] := by
    rw [hsplit]
    exact Name.exists_part hne hproper
  rw [Path.below_eq_entry p hne hplain] at hlen ⊢
  rw [hall ending _ (Name.hasNul_joinNames hproper) hpart hlen, hsplit]

theorem isStep_cons (hn : Name.isProper n) {names : List Name} (hne : names ≠ [])
    (hproper : ∀ m ∈ names, Name.isProper m) (ending : Ending) : IsStep ending n names := by
  obtain ⟨hnil, hdot, hup, -, -, hlong⟩ := Name.isProper_iff.mp hn
  have htrailing : isTrailing ([] ++ names) = false :=
    isTrailing_append (Name.exists_part hne hproper)
  exact ⟨by simp [hnil, hdot], hup, fun h => by simp [h.2] at htrailing, hlong⟩

theorem Spares.dir (h : fs.Spares p loc links) (hn : Name.isProper n) {es : Entries}
    (hx : fs.get? (loc ++ [n]) = some (.dir es)) : fs.Spares (p.entry n) (loc ++ [n]) links := by
  obtain ⟨left, hle, hall⟩ := h
  refine ⟨left, hle, fun ending names hne hproper hlen => ?_⟩
  have hproper' : ∀ m ∈ n :: names, Name.isProper m := by simpa using ⟨hn, hproper⟩
  have hbelow : (p.entry n).below names = p.below (n :: names) := rfl
  obtain ⟨outer, houter, -⟩ := get?_parent hx
  have hdir : fs.kind? loc = some .directory := kind?_eq_directory.mpr ⟨outer, houter⟩
  have hinner : fs.kind? (loc ++ [n]) = some .directory := kind?_eq_directory.mpr ⟨es, hx⟩
  rw [hbelow] at hlen ⊢
  rw [hall ending _ (by simp) hproper' hlen,
    resolveWithin_step fs ending left hdir (isStep_cons hn hne hproper ending), hinner]

theorem Spares.link (h : fs.Spares p loc links) (hn : Name.isProper n) {target : Path}
    (hx : fs.get? (loc ++ [n]) = some (.link target)) {l : Location}
    (hres : fs.resolve .follow (p.entry n) = .ok (.found l)) :
    ∃ fewer, links = fewer + 1 ∧ fs.Spares (p.entry n) l fewer := by
  obtain ⟨left, hle, hall⟩ := h
  obtain ⟨outer, houter, -⟩ := get?_parent hx
  have hdir : fs.kind? loc = some .directory := kind?_eq_directory.mpr ⟨outer, houter⟩
  have hkind : fs.kind? (loc ++ [n]) = some (.link target) := kind?_eq_link.mpr hx
  have hentry := hall .follow [n] (by simp) (by simpa using hn) (length_lt_of_resolve hres)
  have hsteps : answer (fs.resolveWithin .follow left loc [n]) = .ok (.found l) :=
    hentry.symm.trans hres
  rw [resolveWithin_step fs .follow left hdir (isStep_of_isProper hn .follow), hkind] at hsteps
  cases left with
  | zero => cases hsteps
  | succ left =>
      obtain ⟨fewer, rfl⟩ : ∃ fewer, links = fewer + 1 := ⟨links - 1, by omega⟩
      have hleads : Leads fs .follow left (if target.isAbsolute then [] else loc) target.split
          (.found l) := by
        rw [← resolveWithin_eq_ok_iff]
        simp only [followLink, List.append_nil] at hsteps
        generalize fs.resolveWithin .follow left (if target.isAbsolute then [] else loc)
          target.split = place at hsteps ⊢
        cases place with
        | error reason => cases hsteps
        | ok place => simpa [answer] using hsteps
      obtain ⟨rest, hrest, happend⟩ := hleads.resolveWithin_append
      refine ⟨fewer, rfl, rest, by omega, fun ending names hne hproper hlen => ?_⟩
      have hproper' : ∀ m ∈ n :: names, Name.isProper m := by simpa using ⟨hn, hproper⟩
      have hbelow : (p.entry n).below names = p.below (n :: names) := rfl
      rw [hbelow] at hlen ⊢
      rw [hall ending _ (by simp) hproper' hlen,
        resolveWithin_step fs ending (left + 1) hdir (isStep_cons hn hne hproper ending), hkind,
        ← happend ending names (Name.exists_part hne hproper)]
      simp [hne, followLink]

end Spares

end FileSystem

end Collate
