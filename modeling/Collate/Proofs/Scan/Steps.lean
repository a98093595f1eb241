import Collate.Proofs.Scan.Meets

/-!
The walk one step at a time: a stack of directories, one entry of the innermost one at each step, and nothing
that bounds how many steps there are. Where it ends is what the recursive walk gives, which counts the links it
follows only because the system does.
-/
namespace Collate

/-- What a walk does at one entry. -/
inductive Move where
  | pass
  | visit (v : Visit)
  | fail (f : Failure)
  | enter (d : Directory) (es : Entries)

namespace Move

variable (fs : FileSystem) (rule : WalkRule) (d : Directory) (n : Name)

def visitIf (kind : VisitKind) : Move :=
  if rule.admits n then .visit ⟨d.path.entry n, d.names ++ [n], kind⟩ else .pass

/-- A directory on the trail is not entered again across a link. -/
def acrossLink : Move :=
  let path := d.path.entry n
  match fs.stat path with
  | .error fault => .fail (.unreadable path fault)
  | .ok (loc, .dir es) =>
    match d.trail.find? (·.1 = loc) with
    | some (_, ancestor) => .fail (.walk path (loopMessage path ancestor))
    | none =>
      if !rule.admits n || (d.enter n loc).isClosed then .pass else .enter (d.enter n loc) es
  | .ok (_, .file data _) => visitIf rule d n (.file data.length)
  | .ok _ => visitIf rule d n .special

def into (es : Entries) : Move :=
  let inner := d.enter n (d.location ++ [n])
  if !rule.admits n || inner.isClosed then .pass
  else if FileSystem.pathLimit ≤ inner.path.length then .fail (Failure.pathTooLong inner.path)
  else .enter inner es

def ofNode : Node → Move
  | .link _ => if rule.followLinks then acrossLink fs rule d n else visitIf rule d n .link
  | .dir es => into rule d n es
  | .file data _ => visitIf rule d n (.file data.length)
  | .pipe | .device _ => visitIf rule d n .special

/-- What a move adds to the walk, with what is done in a directory that it enters. -/
def walk (follow : Directory → Entries → Walk) : Move → Walk
  | .pass => .nothing
  | .visit v => .visit v
  | .fail f => .fail f
  | .enter inner entries => follow inner entries

section Enter

variable {fs : FileSystem} {rule : WalkRule} {d inner : Directory} {n : Name} {es entries : Entries}

theorem visitIf_ne_enter {kind : VisitKind} : visitIf rule d n kind ≠ .enter inner entries := by
  simp only [visitIf]
  split <;> simp

theorem acrossLink_eq_enter (h : acrossLink fs rule d n = .enter inner entries) :
    ∃ loc, fs.stat (d.path.entry n) = .ok (loc, .dir entries) ∧
      d.trail.find? (·.1 = loc) = none ∧ rule.admits n = true ∧
      (d.enter n loc).isClosed = false ∧ inner = d.enter n loc := by
  simp only [acrossLink] at h
  split at h
  · cases h
  · rename_i loc es hstat
    split at h
    · cases h
    · rename_i htrail
      split at h
      · cases h
      · rename_i hgoes
        obtain ⟨rfl, rfl⟩ := Move.enter.inj h
        obtain ⟨hadmits, hopen⟩ : rule.admits n = true ∧ (d.enter n loc).isClosed = false := by
          simpa using hgoes
        exact ⟨loc, hstat, htrail, hadmits, hopen, rfl⟩
  · exact absurd h visitIf_ne_enter
  · exact absurd h visitIf_ne_enter

theorem into_eq_enter (h : into rule d n es = .enter inner entries) :
    inner = d.enter n (d.location ++ [n]) ∧ es = entries ∧ rule.admits n = true ∧
      inner.isClosed = false ∧ inner.path.length < FileSystem.pathLimit := by
  simp only [into] at h
  split at h
  · cases h
  · rename_i hgoes
    split at h
    · cases h
    · rename_i hshort
      obtain ⟨rfl, rfl⟩ := Move.enter.inj h
      obtain ⟨hadmits, hopen⟩ : rule.admits n = true ∧
          (d.enter n (d.location ++ [n])).isClosed = false := by simpa using hgoes
      exact ⟨rfl, rfl, hadmits, hopen, Nat.lt_of_not_le hshort⟩

end Enter

section Walk

variable {fs : FileSystem} {rule : WalkRule} {follow : Directory → Entries → Walk} {d : Directory}
  {n : Name}

theorem walk_visitIf (kind : VisitKind) :
    (visitIf rule d n kind).walk follow = if rule.admits n then d.visit n kind else .nothing := by
  simp only [visitIf]
  split <;> rfl

theorem walk_acrossLink (hclosed : ∀ loc es, fs.stat (d.path.entry n) = .ok (loc, .dir es) →
      rule.admits n = true → (d.enter n loc).isClosed = true → follow (d.enter n loc) es = .nothing) :
    (acrossLink fs rule d n).walk follow = walkLink fs rule follow d n := by
  cases hstat : fs.stat (d.path.entry n) with
  | error fault =>
      simp only [acrossLink, walkLink, hstat]
      rfl
  | ok end_ =>
      obtain ⟨loc, x⟩ := end_
      cases x with
      | dir es =>
          cases htrail : d.trail.find? (·.1 = loc) with
          | some ancestor =>
              simp only [acrossLink, walkLink, hstat, htrail]
              rfl
          | none =>
              simp only [acrossLink, walkLink, hstat, htrail]
              cases hadmits : rule.admits n with
              | false => rfl
              | true =>
                  cases hopen : (d.enter n loc).isClosed with
                  | true => exact (hclosed loc es hstat hadmits hopen).symm
                  | false => rfl
      | file _ _ | link _ | pipe | device _ =>
          simp only [acrossLink, walkLink, hstat]
          exact walk_visitIf _

theorem walk_into (es : Entries) :
    (into rule d n es).walk (walkEntries fs rule follow) = walkEntry fs rule follow d n (.dir es) := by
  simp only [into, walkEntry]
  cases hadmits : rule.admits n with
  | false => rfl
  | true =>
      simp only [Bool.not_true, Bool.false_or]
      split
      · rfl
      · split <;> rfl

end Walk

end Move

/-- A walk under way. -/
structure Walker where
  visits : List Visit
  /-- The directories that it is in, innermost first, with what is left of each. -/
  pending : List (Directory × Entries)

namespace Walker

/-- A walker goes on, or its walk is over. -/
def step (fs : FileSystem) (rule : WalkRule) : Walker → Walker ⊕ Walk
  | ⟨visits, []⟩ => .inr ⟨visits, none⟩
  | ⟨visits, (_, []) :: rest⟩ => .inl ⟨visits, rest⟩
  | ⟨visits, (d, (n, x) :: es) :: rest⟩ =>
    match Move.ofNode fs rule d n x with
    | .pass => .inl ⟨visits, (d, es) :: rest⟩
    | .visit v => .inl ⟨visits ++ [v], (d, es) :: rest⟩
    | .fail f => .inr ⟨visits, some f⟩
    | .enter inner entries => .inl ⟨visits, (inner, entries) :: (d, es) :: rest⟩

/-- The walk that is over after at most so many steps. -/
def run (fs : FileSystem) (rule : WalkRule) : Nat → Walker → Option Walk
  | 0, _ => none
  | steps + 1, w =>
    match w.step fs rule with
    | .inl next => run fs rule steps next
    | .inr walk => some walk

def start (d : Directory) (es : Entries) : Walker :=
  ⟨[], if d.isClosed then [] else [(d, es)]⟩

def EndsAs (fs : FileSystem) (rule : WalkRule) (w : Walker) (walk : Walk) : Prop :=
  ∃ steps, run fs rule steps w = some walk

section Steps

variable {fs : FileSystem} {rule : WalkRule} {w next : Walker} {walk : Walk}

theorem endsAs_of_step (h : w.step fs rule = .inl next) (hnext : next.EndsAs fs rule walk) :
    w.EndsAs fs rule walk := by
  obtain ⟨steps, hsteps⟩ := hnext
  exact ⟨steps + 1, by simp only [run, h, hsteps]⟩

theorem endsAs_of_over (h : w.step fs rule = .inr walk) : w.EndsAs fs rule walk :=
  ⟨1, by simp only [run, h]⟩

theorem endsAs_nil (fs : FileSystem) (rule : WalkRule) (visits : List Visit) :
    EndsAs fs rule ⟨visits, []⟩ ⟨visits, none⟩ :=
  endsAs_of_over rfl

end Steps

/-- Once this has been walked, the walker goes on with the directories that are left, unless it failed. -/
def GoesOn (fs : FileSystem) (rule : WalkRule) (walked : Walk) (visits : List Visit)
    (rest : List (Directory × Entries)) (walk : Walk) : Prop :=
  match walked.failure with
  | some f => walk = ⟨visits ++ walked.visits, some f⟩
  | none => EndsAs fs rule ⟨visits ++ walked.visits, rest⟩ walk

section GoesOn

variable {fs : FileSystem} {rule : WalkRule} {d : Directory} {n : Name} {es : Entries}
  {visits : List Visit} {rest more : List (Directory × Entries)} {walk : Walk}

theorem goesOn_nothing :
    GoesOn fs rule .nothing visits rest walk ↔ EndsAs fs rule ⟨visits, rest⟩ walk := by
  simp [GoesOn, Walk.nothing]

theorem goesOn_self (walked : Walk) : GoesOn fs rule walked [] [] walked := by
  obtain ⟨visits, failure⟩ := walked
  cases failure with
  | some f => rfl
  | none => exact endsAs_nil fs rule visits

theorem goesOn_andThen {a b : Walk} (h : GoesOn fs rule (a.andThen b) visits rest walk)
    (hnext : GoesOn fs rule b (visits ++ a.visits) rest walk →
      EndsAs fs rule ⟨visits ++ a.visits, more⟩ walk) : GoesOn fs rule a visits more walk := by
  obtain ⟨seen, failure⟩ := a
  cases failure with
  | some f => exact h
  | none =>
      apply hnext
      simpa [GoesOn, Walk.andThen] using h

theorem endsAs_of_move {x : Node} (follow : Directory → Entries → Walk)
    (h : GoesOn fs rule ((Move.ofNode fs rule d n x).walk follow) visits ((d, es) :: rest) walk)
    (henter : ∀ inner entries, Move.ofNode fs rule d n x = .enter inner entries →
      GoesOn fs rule (follow inner entries) visits ((d, es) :: rest) walk →
      EndsAs fs rule ⟨visits, (inner, entries) :: (d, es) :: rest⟩ walk) :
    EndsAs fs rule ⟨visits, (d, (n, x) :: es) :: rest⟩ walk := by
  cases hmove : Move.ofNode fs rule d n x with
  | pass =>
      rw [hmove] at h
      exact endsAs_of_step (by simp only [step, hmove]) (goesOn_nothing.mp h)
  | visit v =>
      rw [hmove] at h
      have hnext : EndsAs fs rule ⟨visits ++ [v], (d, es) :: rest⟩ walk := h
      exact endsAs_of_step (by simp only [step, hmove]) hnext
  | fail f =>
      rw [hmove] at h
      obtain rfl : walk = ⟨visits, some f⟩ := by simpa [GoesOn, Move.walk, Walk.fail] using h
      exact endsAs_of_over (by simp only [step, hmove])
  | enter inner entries =>
      have hinner := henter inner entries hmove
      rw [hmove] at h
      exact endsAs_of_step (by simp only [step, hmove]) (hinner h)

theorem endsAs_of_visitIf {x : Node} {kind : VisitKind}
    (hmove : Move.ofNode fs rule d n x = .visitIf rule d n kind)
    (h : GoesOn fs rule (if rule.admits n then d.visit n kind else .nothing) visits
      ((d, es) :: rest) walk) : EndsAs fs rule ⟨visits, (d, (n, x) :: es) :: rest⟩ walk := by
  refine endsAs_of_move (fun _ _ => .nothing) ?_ fun inner entries henter => ?_
  · rwa [hmove, Move.walk_visitIf]
  · exact absurd (hmove.symm.trans henter) Move.visitIf_ne_enter

end GoesOn

section Walk

variable {fs : FileSystem} {s : Scan} {root : Path} {links : Nat}

/-- What is done behind a link when so many more may be followed. -/
def walkFollow (fs : FileSystem) (rule : WalkRule) : Nat → Directory → Entries → Walk
  | 0 => fun d _ => .fail (.unreadable d.path (.refused .tooManyLinks))
  | links + 1 => walkWithin fs rule links

theorem walkWithin_eq_walkEntries (fs : FileSystem) (rule : WalkRule) (links : Nat) (d : Directory)
    (es : Entries) : walkWithin fs rule links d es =
      if d.isClosed then .nothing else walkEntries fs rule (walkFollow fs rule links) d es := by
  cases links <;> rfl

/-- A directory behind a link is walked step by step when so many links are left. -/
def StepsBehind (fs : FileSystem) (s : Scan) (root : Path) (links : Nat) : Prop :=
  ∀ left, links = left + 1 → ∀ (d : Directory) (es : Entries), d.Stands fs s root left →
    d.isClosed = false → fs.get? d.location = some (.dir es) →
    ∀ visits rest walk, GoesOn fs s.rule (walkWithin fs s.rule left d es) visits rest walk →
      EndsAs fs s.rule ⟨visits, (d, es) :: rest⟩ walk

theorem endsAs_link (hbehind : StepsBehind fs s root links) {d : Directory}
    (hd : d.Stands fs s root links) {n : Name} (hn : Name.isProper n) (hmode : s.followLinks = true)
    {target : Path} (hx : fs.get? (d.location ++ [n]) = some (.link target)) {es : Entries}
    {visits : List Visit} {rest : List (Directory × Entries)} {walk : Walk}
    (h : GoesOn fs s.rule (walkLink fs s.rule (walkFollow fs s.rule links) d n) visits
      ((d, es) :: rest) walk) :
    EndsAs fs s.rule ⟨visits, (d, (n, .link target) :: es) :: rest⟩ walk := by
  have hmove : Move.ofNode fs s.rule d n (.link target) = .acrossLink fs s.rule d n := by
    have hrule : s.rule.followLinks = true := hmode
    simp only [Move.ofNode, hrule, ↓reduceIte]
  have hlink {loc : Location} {inside : Entries}
      (hstat : fs.stat (d.path.entry n) = .ok (loc, .dir inside)) (hadmits : s.rule.admits n = true) :
      ∃ left, links = left + 1 ∧ (d.enter n loc).Stands fs s root left :=
    hd.enter_link hn hadmits hmode hx hstat
  refine endsAs_of_move (walkFollow fs s.rule links) ?_ fun inner entries henter hinner => ?_
  · rw [hmove, Move.walk_acrossLink]
    · exact h
    · intro loc inside hstat hadmits hclosed
      obtain ⟨left, rfl, -⟩ := hlink hstat hadmits
      rw [walkFollow, walkWithin_eq_walkEntries, hclosed]
      rfl
  · rw [hmove] at henter
    obtain ⟨loc, hstat, -, hadmits, hopen, rfl⟩ := Move.acrossLink_eq_enter henter
    obtain ⟨left, rfl, hstands⟩ := hlink hstat hadmits
    exact hbehind left rfl _ entries hstands hopen (FileSystem.stat_eq_ok_iff.mp hstat).2 _ _ _ hinner

mutual

theorem endsAs_entry (fs : WellFormedFileSystem) (hbehind : StepsBehind fs s root links) {d : Directory}
    (hd : d.Stands fs s root links) {n : Name} (hn : Name.isProper n) :
    (x : Node) → fs.get? (d.location ++ [n]) = some x → ∀ es visits rest walk,
      GoesOn fs s.rule (walkEntry fs s.rule (walkFollow fs s.rule links) d n x) visits
        ((d, es) :: rest) walk →
      EndsAs fs s.rule ⟨visits, (d, (n, x) :: es) :: rest⟩ walk
  | .link target, hx, es, visits, rest, walk, h => by
      simp only [walkEntry] at h
      split at h
      · rename_i hmode
        exact endsAs_link hbehind hd hn hmode hx h
      · rename_i hmode
        refine endsAs_of_visitIf ?_ h
        simp only [Move.ofNode, hmode, Bool.false_eq_true, ↓reduceIte]
  | .dir inside, hx, es, visits, rest, walk, h => by
      rw [← Move.walk_into] at h
      refine endsAs_of_move _ h fun inner entries henter hinner => ?_
      obtain ⟨rfl, rfl, hadmits, -, hshort⟩ := Move.into_eq_enter henter
      have hstands := hd.enter_dir hn hadmits hx hshort
      exact endsAs_entries fs hbehind hstands inside
        (fun m y hm => fs.get?_of_mem hx hm) visits _ walk hinner
  | .file _ _, _, es, visits, rest, walk, h | .pipe, _, es, visits, rest, walk, h
  | .device _, _, es, visits, rest, walk, h => by
      simp only [walkEntry] at h
      exact endsAs_of_visitIf rfl h

theorem endsAs_entries (fs : WellFormedFileSystem) (hbehind : StepsBehind fs s root links) {d : Directory}
    (hd : d.Stands fs s root links) : (es : List (Name × Node)) →
      (∀ n x, (n, x) ∈ es → Name.isProper n ∧ fs.get? (d.location ++ [n]) = some x) →
      ∀ visits rest walk,
      GoesOn fs s.rule (walkEntries fs s.rule (walkFollow fs s.rule links) d es) visits rest walk →
      EndsAs fs s.rule ⟨visits, (d, es) :: rest⟩ walk
  | [], _, visits, rest, walk, h => endsAs_of_step rfl (goesOn_nothing.mp h)
  | (n, x) :: es, hes, visits, rest, walk, h => by
      obtain ⟨hn, hx⟩ := hes n x (by simp)
      refine endsAs_entry fs hbehind hd hn x hx es visits rest walk ?_
      refine goesOn_andThen h fun hrest => ?_
      exact endsAs_entries fs hbehind hd es
        (fun m y hm => hes m y (List.mem_cons_of_mem _ hm)) _ rest walk hrest

end

theorem stepsBehind (fs : WellFormedFileSystem) (links : Nat) : StepsBehind fs s root links := by
  induction links with
  | zero => exact fun left hleft => absurd hleft (Nat.zero_ne_add_one left)
  | succ links ih =>
      intro left hleft d es hd hopen hes visits rest walk h
      obtain rfl : links = left := Nat.succ.inj hleft
      rw [walkWithin_eq_walkEntries, hopen] at h
      exact endsAs_entries fs ih hd es (fun n x hx => fs.get?_of_mem hes hx) _ _ _ h

/-- From a directory on the way, the steps come to what the walk gives there. -/
theorem start_endsAs (fs : WellFormedFileSystem) {d : Directory} (hd : d.Stands fs s root links)
    {es : Entries} (hes : fs.get? d.location = some (.dir es)) :
    (start d es).EndsAs fs s.rule (walkWithin fs s.rule links d es) := by
  cases hopen : d.isClosed with
  | true =>
      rw [walkWithin_eq_walkEntries, hopen]
      simp only [start, hopen]
      exact endsAs_nil fs s.rule []
  | false =>
      rw [walkWithin_eq_walkEntries, hopen]
      simp only [start, hopen]
      exact endsAs_entries fs (stepsBehind fs links) hd es
        (fun n x hx => fs.get?_of_mem hes hx) _ _ _ (goesOn_self _)

end Walk

end Walker

end Collate
