import Collate.FileTree.Basic

/-!
What a look-up finds after a node was put into a tree, and in the tree with every directory sorted.
A location that can be written is a file or a free name of a directory that is there; replacing a
directory is not covered.
-/
namespace Collate

namespace Entries

theorem get?_cons (m n : Name) (x : Node) (es : Entries) :
    get? ((m, x) :: es) n = if n = m then some x else get? es n := by
  by_cases h : n = m
  · simp [get?, h]
  · have hne : (n == m) = false := beq_eq_false_iff_ne.mpr h
    simp [get?, List.lookup_cons, h, hne]

theorem get?_set_self (n : Name) (x : Node) (es : Entries) : get? (set n x es) n = some x := by
  induction es with
  | nil => simp [set, get?_cons]
  | cons e es ih =>
      obtain ⟨m, y⟩ := e
      by_cases h : m = n
      · simp [set, get?_cons, h]
      · simp [set, get?_cons, h, Ne.symm h, ih]

theorem get?_set_ne {m n : Name} (h : m ≠ n) (x : Node) (es : Entries) :
    get? (set n x es) m = get? es m := by
  induction es with
  | nil => simp [set, h, get?]
  | cons e es ih =>
      obtain ⟨k, y⟩ := e
      by_cases hk : k = n
      · subst hk; simp [set, get?_cons, h]
      · simp [set, get?_cons, hk, ih]

theorem set_set (n : Name) (x y : Node) (es : Entries) : set n y (set n x es) = set n y es := by
  induction es with
  | nil => simp [set]
  | cons e es ih =>
      obtain ⟨m, z⟩ := e
      by_cases h : m = n <;> simp [set, h, ih]

theorem get?_insertByName (m n : Name) (x : Node) (es : Entries) :
    get? (insertByName n x es) m = if m = n then some x else get? es m := by
  induction es with
  | nil => simp [insertByName, get?_cons]
  | cons e es ih =>
      obtain ⟨k, y⟩ := e
      by_cases hlt : k < n
      · simp only [insertByName, hlt, ↓reduceIte, get?_cons, ih]
        by_cases hk : m = k
        · subst hk
          simp [show m ≠ n from fun h => List.lt_irrefl n (h ▸ hlt)]
        · simp [hk]
      · simp [insertByName, hlt, get?_cons]

end Entries

theorem Entries.get?_sortedEntries (es : Entries) (n : Name) :
    Entries.get? (sortedEntries es) n = (Entries.get? es n).map Node.sorted := by
  induction es with
  | nil => rfl
  | cons e es ih =>
      obtain ⟨m, x⟩ := e
      by_cases h : n = m <;> simp [sortedEntries, get?_insertByName, get?_cons, h, ih]

namespace Node

theorem get?_append (x : Node) (a b : Location) :
    x.get? (a ++ b) = (x.get? a).bind fun y => y.get? b := by
  induction a generalizing x with
  | nil => simp [get?]
  | cons n a ih =>
      cases x with
      | dir es => simp [get?, ih, Option.bind_assoc]
      | file _ _ | link _ | pipe | device _ => simp [get?]

theorem get?_put_self (x : Node) (loc : Location) (y : Node) : (x.put loc y).get? loc = some y := by
  induction loc generalizing x with
  | nil => simp [put, get?]
  | cons n loc ih =>
      cases x with
      | dir es => simp [put, get?, Entries.get?_set_self, ih]
      | file _ _ | link _ | pipe | device _ => simp [put, get?, Entries.get?_cons, ih]

theorem put_put (x : Node) (loc : Location) (y z : Node) :
    (x.put loc y).put loc z = x.put loc z := by
  induction loc generalizing x with
  | nil => simp [put]
  | cons n loc ih =>
      cases x with
      | dir es => simp [put, Entries.get?_set_self, Entries.set_set, ih]
      | file _ _ | link _ | pipe | device _ =>
          simp [put, Entries.get?_cons, Entries.set, ih]

theorem get?_sorted (x : Node) (loc : Location) : x.sorted.get? loc = (x.get? loc).map sorted := by
  induction loc generalizing x with
  | nil => simp [get?]
  | cons n loc ih =>
      cases x with
      | dir es =>
          simp only [sorted, get?, Entries.get?_sortedEntries]
          cases Entries.get? es n <;> simp [ih]
      | file _ _ | link _ | pipe | device _ => simp [sorted, get?]

/-- A location where a file can be written: one is there, or the name is free in its directory. -/
inductive Writable : Node → Location → Prop where
  | file (data : Bytes) (room : Option Nat) : Writable (.file data room) []
  | free {es : Entries} {n : Name} : Entries.get? es n = none → Writable (.dir es) [n]
  | inside {es : Entries} {n : Name} {x : Node} {loc : Location} :
      Entries.get? es n = some x → Writable x loc → Writable (.dir es) (n :: loc)

theorem writable_of_file {x : Node} {loc : Location} {data : Bytes} {room : Option Nat}
    (h : x.get? loc = some (.file data room)) : x.Writable loc := by
  induction loc generalizing x with
  | nil =>
      obtain rfl : x = .file data room := by simpa [get?] using h
      exact .file data room
  | cons n loc ih =>
      cases x with
      | dir es =>
          obtain ⟨y, hy, hloc⟩ := Option.bind_eq_some_iff.mp h
          exact .inside hy (ih hloc)
      | file _ _ | link _ | pipe | device _ => simp [get?] at h

theorem writable_of_free {x : Node} {loc : Location} {es : Entries} {n : Name}
    (h : x.get? loc = some (.dir es)) (hn : Entries.get? es n = none) :
    x.Writable (loc ++ [n]) := by
  induction loc generalizing x with
  | nil =>
      obtain rfl : x = .dir es := by simpa [get?] using h
      exact .free hn
  | cons m loc ih =>
      cases x with
      | dir fs =>
          obtain ⟨y, hy, hloc⟩ := Option.bind_eq_some_iff.mp h
          exact .inside hy (ih hloc)
      | file _ _ | link _ | pipe | device _ => simp [get?] at h

/-- Everywhere else a directory stays a directory, and all other nodes stay the same. -/
theorem get?_put_of_ne {x : Node} {loc : Location} (h : x.Writable loc) (data : Bytes)
    (room : Option Nat) {l : Location} (hl : l ≠ loc) :
    (∃ es es', x.get? l = some (.dir es) ∧
      (x.put loc (.file data room)).get? l = some (.dir es')) ∨
    (x.put loc (.file data room)).get? l = x.get? l := by
  induction h generalizing l with
  | file _ _ =>
      cases l with
      | nil => exact absurd rfl hl
      | cons m l => exact .inr rfl
  | @free es n hn =>
      cases l with
      | nil => exact .inl ⟨es, _, rfl, rfl⟩
      | cons m l =>
          by_cases hm : m = n
          · subst hm
            obtain ⟨k, l, rfl⟩ := List.exists_cons_of_ne_nil (show l ≠ [] by rintro rfl; exact hl rfl)
            right
            simp [put, get?, Entries.get?_set_self, hn]
          · exact .inr (by simp [put, get?, Entries.get?_set_ne hm])
  | @inside es n y loc hy _ ih =>
      cases l with
      | nil => exact .inl ⟨es, _, rfl, rfl⟩
      | cons m l =>
          by_cases hm : m = n
          · subst hm
            simpa [put, get?, Entries.get?_set_self, hy] using
              ih (l := l) (fun h => hl (h ▸ rfl))
          · exact .inr (by simp [put, get?, Entries.get?_set_ne hm])

theorem get?_put_dir {x : Node} {loc : Location} {es es' : Entries} (h : x.get? loc = some (.dir es))
    (hkeep : ∀ l inner, (Node.dir es).get? l = some (.dir inner) →
      ∃ inner', (Node.dir es').get? l = some (.dir inner'))
    {l : Location} {inner : Entries} (hl : x.get? l = some (.dir inner)) :
    ∃ inner', (x.put loc (.dir es')).get? l = some (.dir inner') := by
  induction loc generalizing x l with
  | nil =>
      obtain rfl : x = .dir es := by simpa [get?] using h
      exact hkeep l inner hl
  | cons n loc ih =>
      cases x with
      | dir outer =>
          obtain ⟨y, hy, hloc⟩ := Option.bind_eq_some_iff.mp h
          cases l with
          | nil => exact ⟨_, rfl⟩
          | cons m l =>
              by_cases hm : m = n
              · subst hm
                obtain ⟨z, hz, hinner⟩ := Option.bind_eq_some_iff.mp hl
                obtain rfl : y = z := Option.some.inj (hy.symm.trans hz)
                simpa [put, get?, Entries.get?_set_self, hy] using ih hloc hinner
              · exact ⟨inner, by simpa [put, get?, Entries.get?_set_ne hm] using hl⟩
      | file _ _ | link _ | pipe | device _ => simp [get?] at h

end Node

namespace FileSystem

theorem get?_put_self (fs : FileSystem) (loc : Location) (x : Node) :
    (fs.put loc x).get? loc = some x :=
  Node.get?_put_self fs.root loc x

theorem put_put (fs : FileSystem) (loc : Location) (x y : Node) :
    (fs.put loc x).put loc y = fs.put loc y := by
  simp [put, Node.put_put]

theorem get?_sorted (fs : FileSystem) (loc : Location) :
    fs.sorted.get? loc = (fs.get? loc).map Node.sorted :=
  Node.get?_sorted fs.root loc

theorem get?_snoc {fs : FileSystem} {here : Location} {es : Entries}
    (h : fs.get? here = some (.dir es)) (n : Name) :
    fs.get? (here ++ [n]) = Entries.get? es n := by
  have hroot : fs.root.get? here = some (.dir es) := h
  simp [get?, Node.get?_append, hroot, Node.get?]

theorem get?_parent {fs : FileSystem} {loc : Location} {n : Name} {x : Node}
    (h : fs.get? (loc ++ [n]) = some x) :
    ∃ es, fs.get? loc = some (.dir es) ∧ Entries.get? es n = some x := by
  have hbind : (fs.root.get? loc).bind (·.get? [n]) = some x := by
    rw [← Node.get?_append]
    exact h
  obtain ⟨y, hy, hn⟩ := Option.bind_eq_some_iff.mp hbind
  cases y with
  | dir es =>
      refine ⟨es, hy, ?_⟩
      simpa [Node.get?] using hn
  | file _ _ | link _ | pipe | device _ => simp [Node.get?] at hn

/-- A file that is not the one written keeps its place and its contents. -/
theorem get?_put_of_file {fs : FileSystem} {loc l : Location} {before : Bytes}
    {space : Option Nat} (h : fs.root.Writable loc) (data : Bytes) (room : Option Nat)
    (hl : l ≠ loc) (hfile : fs.get? l = some (.file before space)) :
    (fs.put loc (.file data room)).get? l = some (.file before space) := by
  obtain ⟨es, _, hdir, _⟩ | hsame := Node.get?_put_of_ne h data room hl
  · cases hdir.symm.trans hfile
  · exact hsame.trans hfile

end FileSystem

end Collate
