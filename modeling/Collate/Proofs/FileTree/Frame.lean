import Collate.Proofs.FileTree.Output

/-!
What writing one file leaves alone. Every directory lists the names that it listed, in their order, and at
most the new name after them; every node that is no directory is the one that was there.
-/
namespace Collate

namespace Entries

def names (es : Entries) : List Name :=
  es.map Prod.fst

theorem names_set_of_none {es : Entries} {n : Name} (h : get? es n = none) (x : Node) :
    names (set n x es) = names es ++ [n] := by
  induction es with
  | nil => rfl
  | cons e es ih =>
      have hsplit := get?_cons e.1 n e.2 es
      by_cases hn : n = e.1
      · rw [if_pos hn, h] at hsplit
        cases hsplit
      · rw [if_neg hn, h] at hsplit
        simp only [set, if_neg (Ne.symm hn), names, List.map_cons, List.cons_append]
        exact congrArg (e.1 :: ·) (ih hsplit.symm)

theorem names_set_of_some {es : Entries} {n : Name} {x : Node} (h : get? es n = some x) (y : Node) :
    names (set n y es) = names es := by
  induction es with
  | nil => cases h
  | cons e es ih =>
      have hsplit := get?_cons e.1 n e.2 es
      by_cases hn : n = e.1
      · simp [set, hn, names]
      · rw [if_neg hn, h] at hsplit
        simp only [set, if_neg (Ne.symm hn), names, List.map_cons]
        exact congrArg (e.1 :: ·) (ih hsplit.symm)

/-- The listing of the directory at `l` once there is a file at `loc`. -/
def ListsAfter (es es' : Entries) (l loc : Location) : Prop :=
  names es' = names es ∨
    ∃ n, loc = l ++ [n] ∧ get? es n = none ∧ names es' = names es ++ [n]

end Entries

/-- A file that is written keeps every directory, with the names that it lists. -/
theorem Node.listing_put {x : Node} {loc : Location} (h : x.Writable loc) (data : Bytes)
    (room : Option Nat) {l : Location} {es : Entries} (hl : x.get? l = some (.dir es)) :
    ∃ es', (x.put loc (.file data room)).get? l = some (.dir es') ∧ Entries.ListsAfter es es' l loc := by
  induction h generalizing l with
  | file _ _ => cases l <;> cases hl
  | @free top n hn =>
      cases l with
      | nil =>
          cases hl
          exact ⟨_, rfl, .inr ⟨n, rfl, hn, Entries.names_set_of_none hn _⟩⟩
      | cons m l =>
          have hm : m ≠ n := by
            intro hm
            simp [get?, hm, hn] at hl
          refine ⟨es, ?_, .inl rfl⟩
          simpa [put, get?, Entries.get?_set_ne hm] using hl
  | @inside top n y loc hy _ ih =>
      cases l with
      | nil =>
          cases hl
          exact ⟨_, rfl, .inl (Entries.names_set_of_some hy _)⟩
      | cons m l =>
          by_cases hm : m = n
          · subst hm
            have hinner : y.get? l = some (.dir es) := by simpa [get?, hy] using hl
            obtain ⟨es', hes', hlists⟩ := ih hinner
            refine ⟨es', by simpa [put, get?, Entries.get?_set_self, hy] using hes', ?_⟩
            rcases hlists with hsame | ⟨k, hloc, hk⟩
            · exact .inl hsame
            · exact .inr ⟨k, by rw [hloc]; rfl, hk⟩
          · refine ⟨es, ?_, .inl rfl⟩
            simpa [put, get?, Entries.get?_set_ne hm] using hl

namespace FileSystem

/-- The second tree is the first one but for one regular file, which has other contents or is new. -/
structure DiffersAt (fs now : FileSystem) (loc : Location) : Prop where
  cwd : now.cwd = fs.cwd
  before : fs.get? loc = none ∨ ∃ data room, fs.get? loc = some (.file data room)
  after : ∃ data room, now.get? loc = some (.file data room)
  /-- No directory goes, and none lists other names than it did but for the new one. -/
  directories : ∀ l es, fs.get? l = some (.dir es) →
    ∃ es', now.get? l = some (.dir es') ∧ Entries.ListsAfter es es' l loc
  /-- Files keep their contents and links their targets, and where nothing was there is nothing. -/
  others : ∀ l, l ≠ loc → (∀ es, fs.get? l ≠ some (.dir es)) → now.get? l = fs.get? l

theorem differsAt_put {fs : FileSystem} {loc : Location} (h : fs.root.Writable loc) (data : Bytes)
    (room : Option Nat) : fs.DiffersAt (fs.put loc (.file data room)) loc where
  cwd := rfl
  before := h.get?
  after := ⟨data, room, get?_put_self fs loc _⟩
  directories _ _ hes := Node.listing_put h data room hes
  others l hl hdir := by
    obtain ⟨es, -, hes, -⟩ | hsame := Node.get?_put_of_ne h data room hl
    · exact absurd hes (hdir es)
    · exact hsame

end FileSystem

end Collate
