import Collate.Path

/-!
Paths that are put together: the parts of an entry's path are those of the directory and the entry's
name, and names without slashes are the components of their joined path.
-/
namespace Collate

section Parts

variable {α : Type} (isSeparator : α → Bool)

theorem parts_ne_nil (a : List α) : parts isSeparator a ≠ [] := by
  cases a with
  | nil => simp [parts]
  | cons c a =>
      simp only [parts]
      split
      · simp
      · split <;> simp

theorem parts_append (a b : List α) {s : α} (hs : isSeparator s) :
    parts isSeparator (a ++ s :: b) = parts isSeparator a ++ parts isSeparator b := by
  induction a with
  | nil => simp [parts, hs]
  | cons c a ih =>
      by_cases hc : isSeparator c
      · simp [parts, hc, ih]
      · obtain ⟨p, ps, h⟩ := List.exists_cons_of_ne_nil (parts_ne_nil isSeparator a)
        simp [parts, hc, ih, h]

theorem parts_of_forall {a : List α} (h : ∀ c ∈ a, isSeparator c = false) :
    parts isSeparator a = [a] := by
  induction a with
  | nil => rfl
  | cons c a ih =>
      have hc : isSeparator c = false := h c (by simp)
      simp [parts, hc, ih fun x hx => h x (by simp [hx])]

theorem parts_append_of_forall {a : List α} (h : ∀ c ∈ a, isSeparator c = false) (b : List α) :
    parts isSeparator (a ++ b) =
      (parts isSeparator b).modifyHead (a ++ ·) := by
  obtain ⟨p, ps, hb⟩ := List.exists_cons_of_ne_nil (parts_ne_nil isSeparator b)
  induction a with
  | nil => simp [hb]
  | cons c a ih =>
      have hc : isSeparator c = false := h c (by simp)
      have hrest := ih fun x hx => h x (List.mem_cons_of_mem _ hx)
      rw [hb] at hrest ⊢
      simp [parts, hc, hrest]

theorem mem_parts {a part : List α} (h : part ∈ parts isSeparator a) {c : α} (hc : c ∈ part) :
    isSeparator c = false ∧ c ∈ a := by
  induction a generalizing part with
  | nil =>
      obtain rfl := List.mem_singleton.mp h
      cases hc
  | cons d a ih =>
      have hlater {part : List α} (hpart : part ∈ parts isSeparator a) (hc : c ∈ part) :
          isSeparator c = false ∧ c ∈ d :: a :=
        (ih hpart hc).imp_right (List.mem_cons_of_mem d)
      by_cases hd : isSeparator d
      · rw [parts, if_pos hd] at h
        rcases List.mem_cons.mp h with rfl | h
        · cases hc
        · exact hlater h hc
      · obtain ⟨p, ps, hparts⟩ := List.exists_cons_of_ne_nil (parts_ne_nil isSeparator a)
        simp only [parts, hd, hparts] at h
        rcases List.mem_cons.mp h with rfl | h
        · rcases List.mem_cons.mp hc with rfl | hc
          · exact ⟨Bool.eq_false_iff.mpr hd, by simp⟩
          · exact hlater (by simp [hparts]) hc
        · exact hlater (by simp [hparts, h]) hc

end Parts

namespace Path

theorem split_ne_nil (p : Path) : p.split ≠ [] :=
  parts_ne_nil _ p

theorem split_slash (p q : Path) : split (p ++ slash :: q) = split p ++ split q :=
  parts_append _ p q (by decide)

theorem mem_split {p : Path} (hnul : p.hasNul = false) {part : Name} (h : part ∈ split p) :
    slash ∉ part ∧ (0 : UInt8) ∉ part := by
  have hpart {c : UInt8} (hc : c ∈ part) := mem_parts (· == slash) h hc
  have hno : (0 : UInt8) ∉ p := by simpa [hasNul] using hnul
  exact ⟨fun hslash => by simpa using (hpart hslash).1, fun hzero => hno (hpart hzero).2⟩

theorem split_of_noSlash {n : Name} (h : slash ∉ n) : split n = [n] :=
  parts_of_forall _ fun _ hc => beq_eq_false_iff_ne.mpr fun e => h (e ▸ hc)

theorem noSlash_of_split {p : Path} {n : Name} (h : split p = [n]) : slash ∉ p := by
  intro hmem
  obtain ⟨a, b, rfl⟩ := List.append_of_mem hmem
  obtain ⟨x, xs, hx⟩ := List.exists_cons_of_ne_nil (split_ne_nil a)
  obtain ⟨y, ys, hy⟩ := List.exists_cons_of_ne_nil (split_ne_nil b)
  simp [split_slash, hx, hy] at h

theorem eq_of_split {p : Path} {n : Name} (h : split p = [n]) : p = n := by
  rw [split_of_noSlash (noSlash_of_split h)] at h
  exact (List.cons.inj h).1

theorem component?_eq_normal {n : Name} :
    component? n = some (.normal n) ↔ n ≠ [] ∧ n ≠ dot ∧ n ≠ dotDot := by
  by_cases hskip : n = [] ∨ n = dot
  · simp only [component?, hskip, ↓reduceIte]
    rcases hskip with h | h <;> simp [h]
  · by_cases hup : n = dotDot <;> simp_all [component?]

theorem component?_eq_none {n : Name} : component? n = none ↔ n = [] ∨ n = dot := by
  simp only [component?]
  split
  · simpa
  · split <;> simp_all

theorem isAbsolute_of_split {p : Path} {rest : List Name} (hp : p ≠ [])
    (h : split p = [] :: rest) : p.isAbsolute := by
  obtain ⟨c, q, rfl⟩ := List.exists_cons_of_ne_nil hp
  obtain ⟨x, xs, hx⟩ := List.exists_cons_of_ne_nil (parts_ne_nil (· == slash) q)
  simp only [split, parts, hx] at h
  split at h
  · rename_i hc
    simpa [isAbsolute] using hc
  · simp at h

theorem split_of_isPlainName {p : Path} (h : p.isPlainName) : p.isAbsolute = false ∧
    ∃ n rest, split p = n :: rest ∧ component? n = some (.normal n) ∧
      ∀ m ∈ rest, m = [] ∨ m = dot := by
  simp only [isPlainName] at h
  split at h
  case h_2 => cases h
  rename_i k hk
  obtain ⟨n, rest, hsplit⟩ := List.exists_cons_of_ne_nil (split_ne_nil p)
  simp only [components, hsplit] at hk
  split at hk
  · simp at hk
  · rename_i hrelative
    split at hk
    · simp at hk
    · rename_i hdot
      have hn : n ≠ dot := by simpa using hdot
      have hne : n ≠ [] := by
        rintro rfl
        have hp : p ≠ [] := by
          rintro rfl
          cases hsplit
          cases hk
        exact hrelative (isAbsolute_of_split hp hsplit)
      by_cases hup : n = dotDot
      · have hparent : component? n = some .parent := by rw [hup]; rfl
        rw [List.filterMap_cons_some hparent] at hk
        cases (List.cons.inj hk).1
      · have hnormal : component? n = some (.normal n) := by simp [component?, hne, hn, hup]
        have hrest : rest.filterMap component? = [] := by
          rw [List.filterMap_cons_some hnormal] at hk
          exact (List.cons.inj hk).2
        refine ⟨Bool.eq_false_iff.mpr hrelative, n, rest, hsplit, hnormal, fun m hm => ?_⟩
        exact component?_eq_none.mp (List.filterMap_eq_nil_iff.mp hrest m hm)

theorem isPlainName_of_split {p : Path} {n : Name} {rest : List Name} (hsplit : split p = n :: rest)
    (hn : component? n = some (.normal n)) (hrest : ∀ m ∈ rest, m = [] ∨ m = dot) :
    p.isPlainName := by
  obtain ⟨hne, hdot, -⟩ := component?_eq_normal.mp hn
  have hrelative : p.isAbsolute = false := by
    cases p with
    | nil => rfl
    | cons c p =>
        refine beq_eq_false_iff_ne.mpr fun hc => hne ?_
        obtain rfl : c = slash := Option.some.inj hc
        have hparts : split (slash :: p) = [] :: split p := split_slash [] p
        exact (List.cons.inj (hsplit.symm.trans hparts)).1
  have hskipped : rest.filterMap component? = [] :=
    List.filterMap_eq_nil_iff.mpr fun m hm => component?_eq_none.mpr (hrest m hm)
  simp [isPlainName, components, hrelative, hsplit, hdot, List.filterMap_cons_some hn, hskipped]

theorem entry_cases {p : Path} (hp : p ≠ []) :
    ∃ q : Path, (∀ n, p.entry n = q ++ slash :: n) ∧ (p = q ∨ p = q ++ [slash]) := by
  by_cases h : p.getLast? = some slash
  · obtain ⟨q, rfl⟩ := List.getLast?_eq_some_iff.mp h
    exact ⟨q, by simp [entry], .inr rfl⟩
  · exact ⟨p, by simp [entry, hp, h], .inl rfl⟩

theorem entry_ne_nil {p : Path} (hp : p ≠ []) (n : Name) : p.entry n ≠ [] := by
  obtain ⟨q, h, _⟩ := entry_cases hp
  simp [h]

theorem isAbsolute_entry {p : Path} (hp : p ≠ []) (n : Name) :
    (p.entry n).isAbsolute = p.isAbsolute := by
  obtain ⟨q, h, hq⟩ := entry_cases hp
  cases q with
  | nil =>
      have hslash : p = [slash] := by simpa [hp] using hq
      rw [h, hslash]
      rfl
  | cons c q =>
      rw [h]
      rcases hq with rfl | rfl <;> rfl

theorem hasNul_entry (p : Path) (n : Name) : (p.entry n).hasNul = (p.hasNul || hasNul n) := by
  unfold entry
  split <;> simp [hasNul, slash]

theorem split_entry {p : Path} (hp : p ≠ []) :
    ∃ q : Path, (∀ n, (p.entry n).split = q.split ++ split n) ∧
      (p.split = q.split ∨ p.split = q.split ++ [[]]) := by
  obtain ⟨q, h, hq⟩ := entry_cases hp
  refine ⟨q, fun n => by rw [h, split_slash], ?_⟩
  rcases hq with rfl | rfl
  · exact .inl rfl
  · right
    rw [split_slash]
    rfl

/-- Whatever spelling a directory's path has, an entry's components are added to its own. -/
theorem components_entry {p : Path} (hp : p ≠ []) (n : Name) :
    (p.entry n).components = p.components ++ (split n).filterMap component? := by
  obtain ⟨q, hentry, hq⟩ := split_entry hp
  obtain ⟨part, parts, hparts⟩ := List.exists_cons_of_ne_nil (split_ne_nil q)
  have hhead : (p.entry n).split.head? = p.split.head? := by
    rcases hq with hq | hq <;> simp [hentry, hq, hparts]
  have hinner : (p.entry n).split.filterMap component? =
      p.split.filterMap component? ++ (split n).filterMap component? := by
    rcases hq with hq | hq <;> simp [hentry, hq, component?]
  simp only [components, isAbsolute_entry hp, hhead, hinner]
  split
  · rfl
  · split <;> rfl

theorem split_joinNames {n : Name} {names : List Name} (h : ∀ m ∈ n :: names, slash ∉ m) :
    split (joinNames (n :: names)) = n :: names := by
  induction names generalizing n with
  | nil => exact split_of_noSlash (h n (by simp))
  | cons m names ih =>
      have hn : split n = [n] := split_of_noSlash (h n (by simp))
      have hrest := ih fun k hk => h k (List.mem_cons_of_mem _ hk)
      rw [joinNames, split_slash, hn, hrest]
      · rfl
      · simp

theorem map_normal_inj {a b : List Name} : a.map Component.normal = b.map .normal ↔ a = b :=
  List.map_inj_right fun _ _ => Component.normal.inj

/-- The path of what lies below a directory by these names. -/
def below (p : Path) (names : List Name) : Path :=
  names.foldl entry p

theorem below_snoc (p : Path) (names : List Name) (n : Name) :
    p.below (names ++ [n]) = (p.below names).entry n := by
  simp [below]

theorem entry_entry {p n : Path} (hn : n ≠ []) (hslash : slash ∉ n) (q : Path) :
    (p.entry n).entry q = p.entry (n ++ slash :: q) := by
  have hlast : n.getLast? ≠ some slash := fun h => hslash (List.mem_of_getLast? h)
  have hentry : p.entry n ≠ [] ∧ (p.entry n).getLast? ≠ some slash := by
    unfold entry
    split <;> simp [List.getLast?_append, List.getLast?_cons, hn, hlast]
    cases h : n.getLast? <;> simp_all
  rw [entry, if_neg (by simp [hentry])]
  unfold entry
  split <;> simp

/-- The names below a directory are one relative path to it. -/
theorem below_eq_entry (p : Path) {names : List Name} (hne : names ≠ [])
    (h : ∀ n ∈ names, n ≠ [] ∧ slash ∉ n) : p.below names = p.entry (joinNames names) := by
  induction names generalizing p with
  | nil => exact absurd rfl hne
  | cons n names ih =>
      obtain ⟨hn, hslash⟩ := h n (by simp)
      cases names with
      | nil => rfl
      | cons m names =>
          have hrest := ih (p.entry n) (by simp) fun k hk => h k (List.mem_cons_of_mem _ hk)
          rw [joinNames, ← entry_entry hn hslash, ← hrest]
          · rfl
          · simp

theorem entry_injective (p : Path) : Function.Injective p.entry := by
  intro a b h
  unfold entry at h
  split at h <;> simpa using h

/-- Different names below a directory make different paths. -/
theorem below_inj (p : Path) {a b : List Name} (ha : a ≠ []) (hb : b ≠ [])
    (hplain : ∀ n ∈ a ++ b, n ≠ [] ∧ slash ∉ n) (h : p.below a = p.below b) : a = b := by
  have hsplit {names : List Name} (hne : names ≠ []) (hsub : ∀ n ∈ names, n ∈ a ++ b) :
      p.below names = p.entry (joinNames names) ∧ split (joinNames names) = names := by
    refine ⟨below_eq_entry p hne fun n hn => hplain n (hsub n hn), ?_⟩
    obtain ⟨n, rest, rfl⟩ := List.exists_cons_of_ne_nil hne
    exact split_joinNames fun m hm => (hplain m (hsub m hm)).2
  obtain ⟨hpath, hnames⟩ := hsplit ha fun n hn => List.mem_append_left b hn
  obtain ⟨hpath', hnames'⟩ := hsplit hb fun n hn => List.mem_append_right a hn
  have hjoin : joinNames a = joinNames b := entry_injective p (hpath.symm.trans (h.trans hpath'))
  rw [← hnames, ← hnames', hjoin]

end Path

end Collate
