import Collate.Proofs.FileTree.Resolve

/-!
The places that resolution looks at. Where a path leads depends on no others, and what is passed on the way
to an entry is what is passed on the way to its directory, then the entry.
-/
namespace Collate.FileSystem

/-- From `here`, looking up the parts comes by the location, over at most so many links. An entry that is
missing is looked at, too. -/
inductive PassesFrom (fs : FileSystem) : Nat → Location → List Name → Location → Prop where
  | here (links : Nat) (here : Location) (parts : List Name) : PassesFrom fs links here parts here
  | skip {links : Nat} {here loc : Location} {part : Name} {rest : List Name} :
      fs.kind? here = some .directory → part = [] ∨ part = Path.dot →
      PassesFrom fs links here rest loc → PassesFrom fs links here (part :: rest) loc
  | up {links : Nat} {here loc : Location} {rest : List Name} :
      fs.kind? here = some .directory →
      PassesFrom fs links here.dropLast rest loc →
      PassesFrom fs links here (Path.dotDot :: rest) loc
  | look (links : Nat) {here : Location} {part : Name} {rest : List Name} :
      fs.kind? here = some .directory → IsStep .follow part rest →
      PassesFrom fs links here (part :: rest) (here ++ [part])
  | follow {links : Nat} {here loc : Location} {part : Name} {rest : List Name} {target : Path} :
      fs.kind? here = some .directory → IsStep .follow part rest →
      fs.kind? (here ++ [part]) = some (.link target) →
      PassesFrom fs links (if target.isAbsolute then [] else here) (target.split ++ rest) loc →
      PassesFrom fs (links + 1) here (part :: rest) loc
  | enter {links : Nat} {here loc : Location} {part : Name} {rest : List Name} {kind : Node.Kind} :
      fs.kind? here = some .directory → IsStep .follow part rest →
      fs.kind? (here ++ [part]) = some kind → (∀ target, kind ≠ .link target) →
      PassesFrom fs links (here ++ [part]) rest loc → PassesFrom fs links here (part :: rest) loc

section Congruence

variable {fs fs' : FileSystem} {links : Nat} {here : Location} {parts : List Name}

/-- Resolution sees nothing of a tree but the kinds of the places that it passes. -/
theorem resolveWithin_of_passes (ending : Ending)
    (h : ∀ loc, fs.PassesFrom links here parts loc → fs'.kind? loc = fs.kind? loc) :
    fs'.resolveWithin ending links here parts = fs.resolveWithin ending links here parts := by
  induction links using Nat.strongRecOn generalizing here parts with
  | ind links ihLinks =>
      induction parts generalizing here with
      | nil => rw [resolveWithin_nil, resolveWithin_nil]
      | cons part rest ih =>
          have hhere : fs'.kind? here = fs.kind? here := h here (.here _ _ _)
          by_cases hdir : fs.kind? here = some .directory
          case neg =>
            rw [resolveWithin_notDirectory fs ending links part rest hdir,
              resolveWithin_notDirectory fs' ending links part rest (hhere ▸ hdir)]
          rw [resolveWithin_cons fs ending links part rest hdir,
            resolveWithin_cons fs' ending links part rest (hhere.trans hdir)]
          by_cases hskip : part = [] ∨ part = Path.dot
          · rw [if_pos hskip, if_pos hskip]
            exact ih fun loc hloc => h loc (.skip hdir hskip hloc)
          by_cases hup : part = Path.dotDot
          · subst hup
            rw [if_neg hskip, if_neg hskip, if_pos rfl, if_pos rfl]
            exact ih fun loc hloc => h loc (.up hdir hloc)
          by_cases hlong : nameLimit < part.length
          · simp only [hskip, hup, hlong, ↓reduceIte]
          have hstep : IsStep .follow part rest :=
            ⟨hskip, hup, (nomatch ·.1), Nat.le_of_not_lt hlong⟩
          rw [h _ (.look links hdir hstep)]
          simp only [hskip, hup, hlong, ↓reduceIte]
          cases hkind : fs.kind? (here ++ [part]) with
          | none => rfl
          | some kind =>
              cases kind with
              | directory | leaf =>
                  rw [ih fun loc hloc => h loc (.enter hdir hstep hkind (by simp) hloc)]
              | link target =>
                  have hfollow : fs'.followLink ending links here target rest =
                      fs.followLink ending links here target rest := by
                    cases links with
                    | zero => rfl
                    | succ links =>
                        exact ihLinks links (Nat.lt_succ_self links) fun loc hloc =>
                          h loc (.follow hdir hstep hkind hloc)
                  simp only [hfollow]

end Congruence

section Prefix

variable {fs : FileSystem} {ending : Ending} {links : Nat} {here loc : Location} {parts : List Name}

/-- Where a path leads, its resolution has passed. -/
theorem Leads.passesFrom (hending : ending ≠ .create)
    (h : Leads fs ending links here parts (.found loc)) : fs.PassesFrom links here parts loc := by
  generalize hplace : Place.found loc = place at h
  induction h with
  | done links here =>
      obtain rfl := Place.found.inj hplace
      exact .here _ _ _
  | skip hdir hskip _ ih => exact .skip hdir hskip (ih hplace)
  | up hdir _ ih => exact .up hdir (ih hplace)
  | free _ _ hend _ => exact absurd hend hending
  | kept hdir hs _ _ =>
      obtain rfl := Place.found.inj hplace
      exact .look _ hdir (hs.following _)
  | follow hdir hs _ hlink _ ih => exact .follow hdir (hs.following _) hlink (ih hplace)
  | enter hdir hs hkind hlink _ ih => exact .enter hdir (hs.following _) hkind hlink (ih hplace)

theorem PassesFrom.append (h : fs.PassesFrom links here parts loc) (more : List Name) :
    fs.PassesFrom links here (parts ++ more) loc := by
  induction h with
  | here links here parts => exact .here _ _ _
  | skip hdir hskip _ ih => exact .skip hdir hskip ih
  | up hdir _ ih => exact .up hdir ih
  | look links hdir hs => exact .look _ hdir (hs.following _)
  | follow hdir hs hlink _ ih =>
      exact .follow hdir (hs.following _) hlink (by rwa [List.append_assoc] at ih)
  | enter hdir hs hkind hlink _ ih => exact .enter hdir (hs.following _) hkind hlink ih

theorem PassesFrom.of_append {more : List Name} (h : fs.PassesFrom links here (parts ++ more) loc) :
    fs.PassesFrom links here parts loc ∨
      ∃ left mid, Leads fs .follow links here parts (.found mid) ∧
        fs.PassesFrom left mid more loc := by
  generalize hall : parts ++ more = all at h
  induction h generalizing parts with
  | here links here _ => exact .inl (.here _ _ _)
  | skip hdir hskip hrest ih =>
      cases parts with
      | nil =>
          obtain rfl : more = _ := hall
          exact .inr ⟨_, _, .done _ _, .skip hdir hskip hrest⟩
      | cons part parts =>
          obtain ⟨rfl, rfl⟩ := List.cons.inj hall
          exact (ih rfl).imp (.skip hdir hskip) fun ⟨left, mid, hmid, hmore⟩ =>
            ⟨left, mid, .skip hdir hskip hmid, hmore⟩
  | up hdir hrest ih =>
      cases parts with
      | nil =>
          obtain rfl : more = _ := hall
          exact .inr ⟨_, _, .done _ _, .up hdir hrest⟩
      | cons part parts =>
          obtain ⟨rfl, rfl⟩ := List.cons.inj hall
          exact (ih rfl).imp (.up hdir) fun ⟨left, mid, hmid, hmore⟩ =>
            ⟨left, mid, .up hdir hmid, hmore⟩
  | look links hdir hs =>
      cases parts with
      | nil =>
          obtain rfl : more = _ := hall
          exact .inr ⟨_, _, .done _ _, .look links hdir hs⟩
      | cons part parts =>
          obtain ⟨rfl, rfl⟩ := List.cons.inj hall
          exact .inl (.look links hdir (hs.following _))
  | follow hdir hs hlink hrest ih =>
      cases parts with
      | nil =>
          obtain rfl : more = _ := hall
          exact .inr ⟨_, _, .done _ _, .follow hdir hs hlink hrest⟩
      | cons part parts =>
          obtain ⟨rfl, rfl⟩ := List.cons.inj hall
          exact (ih (List.append_assoc ..)).imp (.follow hdir (hs.following _) hlink)
            fun ⟨left, mid, hmid, hmore⟩ =>
              ⟨left, mid, .follow hdir (hs.following _) (nomatch ·.1) hlink hmid, hmore⟩
  | enter hdir hs hkind hlink hrest ih =>
      cases parts with
      | nil =>
          obtain rfl : more = _ := hall
          exact .inr ⟨_, _, .done _ _, .enter hdir hs hkind hlink hrest⟩
      | cons part parts =>
          obtain ⟨rfl, rfl⟩ := List.cons.inj hall
          exact (ih rfl).imp (.enter hdir (hs.following _) hkind hlink)
            fun ⟨left, mid, hmid, hmore⟩ =>
              ⟨left, mid, .enter hdir (hs.following _) hkind hlink hmid, hmore⟩

theorem PassesFrom.of_skipped {part : Name} (hskip : part = [] ∨ part = Path.dot)
    (h : fs.PassesFrom links here [part] loc) : loc = here := by
  cases h with
  | here _ _ _ => rfl
  | skip _ _ hrest =>
      cases hrest with
      | here _ _ _ => rfl
  | up _ _ => exact absurd hskip (by decide)
  | look _ _ hs | follow _ hs _ _ | enter _ hs _ _ _ => exact absurd hskip hs.notSkipped

theorem PassesFrom.of_single {part : Name} (hs : IsStep .follow part [])
    (h : fs.PassesFrom links here [part] loc) :
    loc = here ∨ loc = here ++ [part] ∨ ∃ left target,
      fs.kind? (here ++ [part]) = some (.link target) ∧
        fs.PassesFrom left (if target.isAbsolute then [] else here) target.split loc := by
  cases h with
  | here _ _ _ => exact .inl rfl
  | skip _ hskip _ => exact absurd hskip hs.notSkipped
  | up _ _ => exact absurd rfl hs.notUp
  | look _ _ _ => exact .inr (.inl rfl)
  | follow _ _ hlink hrest => exact .inr (.inr ⟨_, _, hlink, by rwa [List.append_nil] at hrest⟩)
  | enter _ _ _ _ hrest =>
      cases hrest with
      | here _ _ _ => exact .inr (.inl rfl)

end Prefix

end Collate.FileSystem
