import Collate.Proofs.FileTree.WellFormed

/-!
Resolution as a relation. What a path leads to depends only on which locations hold directories and
links, so it survives every change of a file's contents and every new entry; and the entry of a directory
is resolved from where the directory's own path leads.
-/
namespace Collate

/-- What resolution sees of a node. -/
inductive Node.Kind where
  | directory
  | link (target : Path)
  | leaf
deriving DecidableEq, Repr

def Node.kind : Node → Kind
  | .dir _ => .directory
  | .link target => .link target
  | .file _ _ | .pipe | .device _ => .leaf

theorem Node.kind_sorted (x : Node) : x.sorted.kind = x.kind := by
  cases x <;> rfl

theorem Node.kind_eq_directory {x : Node} : x.kind = .directory ↔ ∃ es, x = .dir es := by
  cases x <;> simp [kind]

theorem Node.kind_eq_link {x : Node} {target : Path} :
    x.kind = .link target ↔ x = .link target := by
  cases x <;> simp [kind]

/-- Where the place is, or would be. -/
def Place.location : Place → Location
  | .found loc => loc
  | .vacant dir name => dir ++ [name]

namespace FileSystem

def kind? (fs : FileSystem) (loc : Location) : Option Node.Kind :=
  (fs.get? loc).map Node.kind

theorem kind?_eq_directory {fs : FileSystem} {loc : Location} :
    fs.kind? loc = some .directory ↔ ∃ es, fs.get? loc = some (.dir es) := by
  cases h : fs.get? loc <;> simp [kind?, h, Node.kind_eq_directory]

theorem kind?_eq_link {fs : FileSystem} {loc : Location} {target : Path} :
    fs.kind? loc = some (.link target) ↔ fs.get? loc = some (.link target) := by
  cases h : fs.get? loc <;> simp [kind?, h, Node.kind_eq_link]

theorem kind?_eq_none {fs : FileSystem} {loc : Location} :
    fs.kind? loc = none ↔ fs.get? loc = none := by
  simp [kind?]

theorem kind?_of_file {fs : FileSystem} {loc : Location} {data : Bytes} {room : Option Nat}
    (h : fs.get? loc = some (.file data room)) : fs.kind? loc = some .leaf := by
  simp [kind?, h, Node.kind]

theorem kind?_dropLast {fs : FileSystem} {loc : Location} (h : fs.kind? loc = some .directory) :
    fs.kind? loc.dropLast = some .directory := by
  obtain rfl | ⟨dir, n, rfl⟩ := List.eq_nil_or_concat loc
  · exact h
  · simp only [List.concat_eq_append, List.dropLast_concat] at h ⊢
    obtain ⟨es, hes⟩ := kind?_eq_directory.mp h
    obtain ⟨outer, houter, -⟩ := get?_parent hes
    exact kind?_eq_directory.mpr ⟨outer, houter⟩

theorem kind?_sorted (fs : FileSystem) (loc : Location) : fs.sorted.kind? loc = fs.kind? loc := by
  simp only [kind?, get?_sorted]
  cases fs.get? loc <;> simp [Node.kind_sorted]

/-- A part of a path that stands for itself and not for a move. -/
structure IsStep (ending : Ending) (part : Name) (rest : List Name) : Prop where
  notSkipped : ¬(part = [] ∨ part = Path.dot)
  notUp : part ≠ Path.dotDot
  notTrailing : ¬(ending = .create ∧ isTrailing rest)
  notLong : part.length ≤ nameLimit

theorem IsStep.following {ending : Ending} {part : Name} {rest : List Name}
    (h : IsStep ending part rest) (rest' : List Name) : IsStep .follow part rest' :=
  ⟨h.notSkipped, h.notUp, (nomatch ·.1), h.notLong⟩

/-- `Leads fs ending links here parts place`: from `here` the parts lead to the place over at most so many
links. -/
inductive Leads (fs : FileSystem) (ending : Ending) : Nat → Location → List Name → Place → Prop where
  | done (links : Nat) (here : Location) : Leads fs ending links here [] (.found here)
  | skip {links : Nat} {here : Location} {part : Name} {rest : List Name} {place : Place} :
      fs.kind? here = some .directory → part = [] ∨ part = Path.dot →
      Leads fs ending links here rest place → Leads fs ending links here (part :: rest) place
  | up {links : Nat} {here : Location} {rest : List Name} {place : Place} :
      fs.kind? here = some .directory →
      Leads fs ending links here.dropLast rest place →
      Leads fs ending links here (Path.dotDot :: rest) place
  | free {links : Nat} {here : Location} {part : Name} :
      fs.kind? here = some .directory → IsStep ending part [] → ending = .create →
      fs.kind? (here ++ [part]) = none →
      Leads fs ending links here [part] (.vacant here part)
  | kept {links : Nat} {here : Location} {part : Name} {target : Path} :
      fs.kind? here = some .directory → IsStep ending part [] → ending = .keep →
      fs.kind? (here ++ [part]) = some (.link target) →
      Leads fs ending links here [part] (.found (here ++ [part]))
  | follow {links : Nat} {here : Location} {part : Name} {rest : List Name} {target : Path}
      {place : Place} :
      fs.kind? here = some .directory → IsStep ending part rest → ¬(ending = .keep ∧ rest = []) →
      fs.kind? (here ++ [part]) = some (.link target) →
      Leads fs ending links (if target.isAbsolute then [] else here) (target.split ++ rest) place →
      Leads fs ending (links + 1) here (part :: rest) place
  | enter {links : Nat} {here : Location} {part : Name} {rest : List Name} {kind : Node.Kind}
      {place : Place} :
      fs.kind? here = some .directory → IsStep ending part rest →
      fs.kind? (here ++ [part]) = some kind → (∀ target, kind ≠ .link target) →
      Leads fs ending links (here ++ [part]) rest place →
      Leads fs ending links here (part :: rest) place

section Step

variable (fs : FileSystem) (ending : Ending) (links : Nat)

/-- Going on after a link, if one more may be followed. -/
def followLink (here : Location) (target : Path) (rest : List Name) : Except Refusal Place :=
  match links with
  | 0 => .error .tooManyLinks
  | links + 1 =>
    fs.resolveWithin ending links (if target.isAbsolute then [] else here) (target.split ++ rest)

theorem resolveWithin_nil (here : Location) : fs.resolveWithin ending links here [] = .ok (.found here) := by
  cases links <;> rfl

theorem resolveWithin_notDirectory {here : Location} (part : Name) (rest : List Name)
    (h : fs.kind? here ≠ some .directory) :
    fs.resolveWithin ending links here (part :: rest) = .error .notADirectory := by
  have hdir : ∀ es, fs.get? here ≠ some (.dir es) := fun es hes =>
    h (kind?_eq_directory.mpr ⟨es, hes⟩)
  cases links <;> simp only [resolveWithin, resolveFrom]

theorem resolveWithin_cons {here : Location} (part : Name) (rest : List Name)
    (h : fs.kind? here = some .directory) :
    fs.resolveWithin ending links here (part :: rest) =
      if part = [] ∨ part = Path.dot then fs.resolveWithin ending links here rest
      else if part = Path.dotDot then fs.resolveWithin ending links here.dropLast rest
      else if ending = .create ∧ isTrailing rest then .error .isADirectory
      else if nameLimit < part.length then .error .nameTooLong
      else
        match fs.kind? (here ++ [part]) with
        | none =>
          if ending = .create ∧ rest = [] then .ok (.vacant here part) else .error .notFound
        | some (.link target) =>
          if ending = .keep ∧ rest = [] then .ok (.found (here ++ [part]))
          else fs.followLink ending links here target rest
        | some _ => fs.resolveWithin ending links (here ++ [part]) rest := by
  obtain ⟨es, hes⟩ := kind?_eq_directory.mp h
  have hkind : fs.kind? (here ++ [part]) = (Entries.get? es part).map Node.kind := by
    rw [kind?, get?_snoc hes]
  rw [hkind]
  cases links <;>
    (simp only [resolveWithin, resolveFrom, hes, followLink]
     cases hget : Entries.get? es part with
     | none => rfl
     | some x => cases x <;> rfl)

theorem resolveWithin_step {here : Location} {part : Name} {rest : List Name}
    (h : fs.kind? here = some .directory) (hs : IsStep ending part rest) :
    fs.resolveWithin ending links here (part :: rest) =
      match fs.kind? (here ++ [part]) with
      | none =>
        if ending = .create ∧ rest = [] then .ok (.vacant here part) else .error .notFound
      | some (.link target) =>
        if ending = .keep ∧ rest = [] then .ok (.found (here ++ [part]))
        else fs.followLink ending links here target rest
      | some _ => fs.resolveWithin ending links (here ++ [part]) rest := by
  rw [resolveWithin_cons fs ending links part rest h, if_neg hs.notSkipped, if_neg hs.notUp,
    if_neg hs.notTrailing, if_neg (Nat.not_lt.mpr hs.notLong)]

end Step

section Relation

variable {fs : FileSystem} {ending : Ending} {links : Nat} {here : Location} {parts : List Name}
  {place : Place}

private theorem isStep_of_ok {part : Name} {rest : List Name}
    (hdir : fs.kind? here = some .directory) (hskip : ¬(part = [] ∨ part = Path.dot))
    (hup : part ≠ Path.dotDot)
    (h : fs.resolveWithin ending links here (part :: rest) = .ok place) :
    IsStep ending part rest := by
  rw [resolveWithin_cons fs ending links part rest hdir, if_neg hskip, if_neg hup] at h
  split at h
  · cases h
  · rename_i htrailing
    split at h
    · cases h
    · rename_i hlong
      exact ⟨hskip, hup, htrailing, Nat.le_of_not_lt hlong⟩

private theorem leads_of_followLink (hfollow : ∀ (here : Location) (target : Path)
      (rest : List Name), fs.followLink ending links here target rest = .ok place →
      ∃ n, links = n + 1 ∧
        Leads fs ending n (if target.isAbsolute then [] else here) (target.split ++ rest) place)
    (h : fs.resolveWithin ending links here parts = .ok place) :
    Leads fs ending links here parts place := by
  induction parts generalizing here with
  | nil =>
      rw [resolveWithin_nil] at h
      obtain rfl := Except.ok.inj h
      exact .done links here
  | cons part rest ih =>
      by_cases hdir : fs.kind? here = some .directory
      case neg =>
        rw [resolveWithin_notDirectory fs ending links part rest hdir] at h
        cases h
      by_cases hskip : part = [] ∨ part = Path.dot
      · rw [resolveWithin_cons fs ending links part rest hdir, if_pos hskip] at h
        exact .skip hdir hskip (ih h)
      by_cases hup : part = Path.dotDot
      · rw [resolveWithin_cons fs ending links part rest hdir, if_neg hskip, if_pos hup] at h
        subst hup
        exact .up hdir (ih h)
      have hstep : IsStep ending part rest := isStep_of_ok hdir hskip hup h
      rw [resolveWithin_step fs ending links hdir hstep] at h
      cases hkind : fs.kind? (here ++ [part]) with
      | none =>
          simp only [hkind] at h
          split at h
          · rename_i hend
            obtain ⟨hend, rfl⟩ := hend
            obtain rfl := Except.ok.inj h
            exact .free hdir hstep hend hkind
          · cases h
      | some kind =>
          simp only [hkind] at h
          cases kind with
          | link target =>
              simp only at h
              split at h
              · rename_i hend
                obtain ⟨hend, rfl⟩ := hend
                obtain rfl := Except.ok.inj h
                exact .kept hdir hstep hend hkind
              · rename_i hend
                obtain ⟨n, rfl, hn⟩ := hfollow here target rest h
                exact .follow hdir hstep hend hkind hn
          | directory | leaf => exact .enter hdir hstep hkind (by simp) (ih h)

/-- Resolving succeeds exactly where the relation holds. -/
theorem resolveWithin_eq_ok_iff :
    fs.resolveWithin ending links here parts = .ok place ↔
      Leads fs ending links here parts place := by
  constructor
  · intro h
    induction links generalizing here parts with
    | zero => exact leads_of_followLink (fun _ _ _ hf => nomatch hf) h
    | succ links ih => exact leads_of_followLink (fun _ _ _ hf => ⟨links, rfl, ih hf⟩) h
  · intro h
    induction h with
    | done links here => exact resolveWithin_nil fs ending links here
    | skip hdir hskip _ ih =>
        rw [resolveWithin_cons fs _ _ _ _ hdir, if_pos hskip, ih]
    | up hdir _ ih =>
        rw [resolveWithin_cons fs _ _ _ _ hdir, if_neg (by decide), if_pos rfl, ih]
    | free hdir hstep hend hnone =>
        rw [resolveWithin_step fs _ _ hdir hstep, hnone]
        simp [hend]
    | kept hdir hstep hend hlink =>
        rw [resolveWithin_step fs _ _ hdir hstep, hlink]
        simp [hend]
    | follow hdir hstep hend hlink _ ih =>
        rw [resolveWithin_step fs _ _ hdir hstep, hlink]
        simp [hend, followLink, ih]
    | @enter _ _ _ _ kind _ hdir hstep hkind hlink _ ih =>
        rw [resolveWithin_step fs _ _ hdir hstep, hkind, ← ih]
        cases kind with
        | link target => exact absurd rfl (hlink target)
        | directory | leaf => rfl

end Relation

section Growth

variable {fs fs' : FileSystem} {ending ending' : Ending} {links : Nat} {here : Location}
  {parts : List Name} {place : Place}

/-- New entries do not change where a path leads; a place that was vacant is found once it holds a leaf. -/
theorem Leads.grow (hgrow : ∀ loc kind, fs.kind? loc = some kind → fs'.kind? loc = some kind)
    (hkeep : ending' = .keep ↔ ending = .keep) (hcreate : ending' = .create → ending = .create)
    (h : Leads fs ending links here parts place)
    (hfree : ∀ dir name, place = .vacant dir name → fs'.kind? (dir ++ [name]) = some .leaf) :
    Leads fs' ending' links here parts (.found place.location) := by
  have hstep {part : Name} {rest : List Name} (hs : IsStep ending part rest) :
      IsStep ending' part rest :=
    ⟨hs.notSkipped, hs.notUp, fun ht => hs.notTrailing ⟨hcreate ht.1, ht.2⟩, hs.notLong⟩
  induction h with
  | done links here => exact .done links here
  | skip hdir hskip _ ih => exact .skip (hgrow _ _ hdir) hskip (ih hfree)
  | up hdir _ ih => exact .up (hgrow _ _ hdir) (ih hfree)
  | free hdir hs _ _ =>
      exact .enter (hgrow _ _ hdir) (hstep hs) (hfree _ _ rfl) (by simp) (.done _ _)
  | kept hdir hs hend hlink =>
      exact .kept (hgrow _ _ hdir) (hstep hs) (hkeep.mpr hend) (hgrow _ _ hlink)
  | follow hdir hs hend hlink _ ih =>
      exact .follow (hgrow _ _ hdir) (hstep hs) (fun hk => hend ⟨hkeep.mp hk.1, hk.2⟩)
        (hgrow _ _ hlink) (ih hfree)
  | enter hdir hs hkind hlink _ ih =>
      exact .enter (hgrow _ _ hdir) (hstep hs) (hgrow _ _ hkind) hlink (ih hfree)

theorem Leads.directory {loc : Location} (h : Leads fs ending links here parts (.found loc))
    (hloc : fs.kind? loc = some .directory) : fs.kind? here = some .directory := by
  cases h with
  | done _ _ => exact hloc
  | skip hdir _ _ | up hdir _ | kept hdir _ _ _ | follow hdir _ _ _ _ | enter hdir _ _ _ _ => exact hdir

theorem Leads.of_directories
    (hkeep : ∀ loc, fs.kind? loc = some .directory → fs'.kind? loc = some .directory) {loc : Location}
    (h : Leads fs .follow 0 here parts (.found loc)) (hloc : fs.kind? loc = some .directory)
    (links : Nat) : Leads fs' .follow links here parts (.found loc) := by
  generalize hplace : Place.found loc = place at h
  generalize hlinks : 0 = budget at h
  induction h with
  | done _ here =>
      obtain rfl := Place.found.inj hplace
      exact .done links _
  | skip hdir hskip _ ih => exact .skip (hkeep _ hdir) hskip (ih hplace hlinks)
  | up hdir _ ih => exact .up (hkeep _ hdir) (ih hplace hlinks)
  | free _ _ hend _ | kept _ _ hend _ => cases hend
  | follow _ _ _ _ _ _ => cases hlinks
  | enter hdir hs _ _ hrest ih =>
      subst hplace
      exact .enter (hkeep _ hdir) hs (hkeep _ (hrest.directory hloc)) (by simp) (ih rfl hlinks)

end Growth

section Prefix

variable {fs : FileSystem} {ending : Ending} {links : Nat} {here : Location} {parts : List Name}

/-- A last part that is skipped is looked up in a directory, whatever is to happen there. -/
theorem Leads.ends_in_directory {place : Place} {skip : Name} (hlast : skip = [] ∨ skip = Path.dot)
    (h : Leads fs ending links here (parts ++ [skip]) place) :
    ∃ loc, place = .found loc ∧ fs.kind? loc = some .directory := by
  generalize hall : parts ++ [skip] = all at h
  induction h generalizing parts with
  | done _ _ => simp at hall
  | skip hdir _ hrest ih =>
      cases parts with
      | nil =>
          obtain ⟨-, rfl⟩ := List.cons.inj hall
          cases hrest with
          | done _ _ => exact ⟨_, rfl, hdir⟩
      | cons part parts => exact ih (List.cons.inj hall).2
  | up hdir _ ih =>
      cases parts with
      | nil =>
          obtain ⟨rfl, -⟩ := List.cons.inj hall
          exact absurd hlast (by decide)
      | cons part parts => exact ih (List.cons.inj hall).2
  | free _ hs _ _ | kept _ hs _ _ =>
      cases parts with
      | nil =>
          obtain ⟨rfl, -⟩ := List.cons.inj hall
          exact absurd hlast hs.notSkipped
      | cons part parts => simp at hall
  | follow _ hs _ _ _ ih =>
      cases parts with
      | nil =>
          obtain ⟨rfl, -⟩ := List.cons.inj hall
          exact absurd hlast hs.notSkipped
      | cons part parts =>
          obtain ⟨-, rfl⟩ := List.cons.inj hall
          exact ih (List.append_assoc ..)
  | enter _ hs _ _ _ ih =>
      cases parts with
      | nil =>
          obtain ⟨rfl, -⟩ := List.cons.inj hall
          exact absurd hlast hs.notSkipped
      | cons part parts => exact ih (List.cons.inj hall).2

/-- A last part that is skipped makes no difference to where a path leads, which is a directory then. -/
theorem Leads.dropLast {place : Place} {skip : Name} (hlast : skip = [] ∨ skip = Path.dot)
    (h : Leads fs .follow links here (parts ++ [skip]) place) :
    Leads fs .follow links here parts place ∧
      ∃ loc, place = .found loc ∧ fs.kind? loc = some .directory := by
  refine ⟨?_, h.ends_in_directory hlast⟩
  generalize hall : parts ++ [skip] = all at h
  induction h generalizing parts with
  | done _ _ => simp at hall
  | skip hdir hskip hrest ih =>
      cases parts with
      | nil =>
          obtain ⟨-, rfl⟩ := List.cons.inj hall
          cases hrest with
          | done _ _ => exact .done _ _
      | cons part parts =>
          obtain ⟨rfl, rfl⟩ := List.cons.inj hall
          exact .skip hdir hskip (ih rfl)
  | up hdir _ ih =>
      cases parts with
      | nil =>
          obtain ⟨rfl, -⟩ := List.cons.inj hall
          exact absurd hlast (by decide)
      | cons part parts =>
          obtain ⟨rfl, rfl⟩ := List.cons.inj hall
          exact .up hdir (ih rfl)
  | free _ _ hend _ | kept _ _ hend _ => cases hend
  | follow hdir hs _ hlink _ ih =>
      cases parts with
      | nil =>
          obtain ⟨rfl, -⟩ := List.cons.inj hall
          exact absurd hlast hs.notSkipped
      | cons part parts =>
          obtain ⟨rfl, rfl⟩ := List.cons.inj hall
          exact .follow hdir (hs.following _) (nomatch ·.1) hlink (ih (List.append_assoc ..))
  | enter hdir hs hkind hlink _ ih =>
      cases parts with
      | nil =>
          obtain ⟨rfl, -⟩ := List.cons.inj hall
          exact absurd hlast hs.notSkipped
      | cons part parts =>
          obtain ⟨rfl, rfl⟩ := List.cons.inj hall
          exact .enter hdir (hs.following _) hkind hlink (ih rfl)

theorem Leads.ne_link {loc : Location} (h : Leads fs .follow links here parts (.found loc))
    (hhere : parts = [] → ∀ target, fs.kind? here ≠ some (.link target)) (target : Path) :
    fs.kind? loc ≠ some (.link target) := by
  have hdirectory {l : Location} (hdir : fs.kind? l = some .directory) (target : Path) :
      fs.kind? l ≠ some (.link target) := fun hlink => nomatch hdir.symm.trans hlink
  generalize hplace : Place.found loc = place at h
  induction h with
  | done links here =>
      obtain rfl := Place.found.inj hplace
      exact hhere rfl target
  | skip hdir _ _ ih => exact ih (fun _ => hdirectory hdir) hplace
  | up hdir _ ih => exact ih (fun _ => hdirectory (kind?_dropLast hdir)) hplace
  | free _ _ hend _ | kept _ _ hend _ => cases hend
  | @follow _ _ _ rest target' _ _ _ _ _ _ ih =>
      refine ih (fun hnil => ?_) hplace
      exact absurd (List.append_eq_nil_iff.mp hnil).1 target'.split_ne_nil
  | enter _ _ hkind hplain _ ih =>
      exact ih (fun _ target hlink => hplain target (Option.some.inj (hkind.symm.trans hlink))) hplace

/-- Keeping a link at the end makes no difference where there is none. -/
theorem Leads.follow_of_keep {place : Place} (h : Leads fs .keep links here parts place)
    (hlink : ∀ target, fs.kind? place.location ≠ some (.link target)) :
    Leads fs .follow links here parts place := by
  induction h with
  | done links here => exact .done links here
  | skip hdir hskip _ ih => exact .skip hdir hskip (ih hlink)
  | up hdir _ ih => exact .up hdir (ih hlink)
  | free _ _ hend _ => cases hend
  | kept _ _ _ hkind => exact absurd hkind (hlink _)
  | follow hdir hs _ hkind _ ih => exact .follow hdir (hs.following _) (nomatch ·.1) hkind (ih hlink)
  | enter hdir hs hkind hplain _ ih => exact .enter hdir (hs.following _) hkind hplain (ih hlink)

theorem isTrailing_append {rest more : List Name} (hmore : ∃ n ∈ more, n ≠ []) :
    isTrailing (rest ++ more) = false := by
  obtain ⟨n, hn, hne⟩ := hmore
  simp only [isTrailing, Bool.and_eq_false_iff]
  right
  exact List.all_eq_false.mpr ⟨n, List.mem_append_right _ hn, by simpa using hne⟩

theorem Leads.resolveWithin_append {loc : Location}
    (h : Leads fs .follow links here parts (.found loc)) :
    ∃ left ≤ links, ∀ (ending : Ending) (more : List Name), (∃ n ∈ more, n ≠ []) →
      fs.resolveWithin ending links here (parts ++ more) =
        fs.resolveWithin ending left loc more := by
  have hstep {part : Name} {rest more : List Name} (hs : IsStep .follow part rest)
      (hmore : ∃ n ∈ more, n ≠ []) (ending : Ending) : IsStep ending part (rest ++ more) :=
    ⟨hs.notSkipped, hs.notUp, fun ht => by simp [isTrailing_append hmore] at ht, hs.notLong⟩
  generalize hplace : Place.found loc = place at h
  induction h with
  | done links here =>
      obtain rfl := Place.found.inj hplace
      exact ⟨links, Nat.le_refl _, fun _ _ _ => rfl⟩
  | skip hdir hskip _ ih =>
      obtain ⟨left, hle, hleft⟩ := ih hplace
      refine ⟨left, hle, fun ending more hmore => ?_⟩
      rw [List.cons_append, resolveWithin_cons fs _ _ _ _ hdir, if_pos hskip, hleft ending more hmore]
  | up hdir _ ih =>
      obtain ⟨left, hle, hleft⟩ := ih hplace
      refine ⟨left, hle, fun ending more hmore => ?_⟩
      rw [List.cons_append, resolveWithin_cons fs _ _ _ _ hdir, if_neg (by decide), if_pos rfl,
        hleft ending more hmore]
  | free _ _ hend _ | kept _ _ hend _ => cases hend
  | @follow links here part rest target _ hdir hs _ hlink _ ih =>
      obtain ⟨left, hle, hleft⟩ := ih hplace
      refine ⟨left, Nat.le_succ_of_le hle, fun ending more hmore => ?_⟩
      have hne : rest ++ more ≠ [] := by
        obtain ⟨n, hn, -⟩ := hmore
        exact List.append_ne_nil_of_right_ne_nil rest (List.ne_nil_of_mem hn)
      rw [List.cons_append, resolveWithin_step fs _ _ hdir (hstep hs hmore ending), hlink,
        ← hleft ending more hmore, List.append_assoc]
      simp [hne, followLink]
  | @enter links here part rest kind _ hdir hs hkind hlink _ ih =>
      obtain ⟨left, hle, hleft⟩ := ih hplace
      refine ⟨left, hle, fun ending more hmore => ?_⟩
      rw [List.cons_append, resolveWithin_step fs _ _ hdir (hstep hs hmore ending), hkind,
        ← hleft ending more hmore]
      cases kind with
      | link target => exact absurd rfl (hlink target)
      | directory | leaf => rfl

end Prefix

end FileSystem

end Collate
