import Collate.Proofs.FileTree.Hidden
import Collate.Proofs.Scan.Exact

/-!
The options that narrow a search: leaving out hidden entries, a limit to the depth, an excluded path. All
they do is filter. What stops the narrowed search stops the search without them, too, and of that one's list
they keep the sources that they are about.
-/
namespace Collate

/-- No part of the path below the root is hidden. -/
def Source.isVisible (f : Source) : Bool :=
  f.relative.components.all fun
    | .normal n => !Name.isHidden n
    | _ => true

namespace Scan

/-- The search with none of the options that narrow it. -/
def widest (s : Scan) : Scan :=
  ⟨⟨s.selection.extension, true, none⟩, s.followLinks, none⟩

/-- The source is near enough, not hidden unless hidden entries are searched, and not excluded. -/
def keeps (s : Scan) (f : Source) : Bool :=
  s.maxDepth.all (fun depth => decide (f.relative.components.length ≤ depth)) &&
    (s.selection.includeHidden || f.isVisible) && !s.selection.isExcluded f.path

section Widest

variable {fs : FileSystem} {s : Scan} {root : Path} {names : List Name} {x : Node}

theorem Finds.widest (h : s.Finds fs root names x) : s.widest.Finds fs root names x where
  lists := h.lists
  near := by simp [Scan.widest]
  proper := h.proper
  allowed := by simp [Scan.widest, Selection.allowsName]
  inside := h.inside

theorem meets_iff_widest : s.Meets fs root names x ↔
    s.widest.Meets fs root names x ∧
      (∀ depth, s.maxDepth = some depth → names.length ≤ depth) ∧
      ∀ n ∈ names, s.selection.allowsName n := by
  constructor
  · intro h
    refine ⟨h.finds.widest.meets ?_, h.near, fun n hn => (h.admitted n hn).2⟩
    simp [Scan.widest, Selection.allowsName]
  · rintro ⟨h, hnear, hallowed⟩
    exact ⟨h.lists, hnear, fun n hn => ⟨(h.admitted n hn).1, hallowed n hn⟩, h.inside⟩

theorem isMatch_iff_widest {p : Path} : s.selection.isMatch p ↔
    s.widest.selection.isMatch p ∧ s.selection.isExcluded p = false := by
  have hname (n : Name) :
      s.widest.selection.matchesName n = s.selection.matchesName n := rfl
  have hfree : s.widest.selection.isExcluded p = false := rfl
  simp only [Selection.isMatch, hname, hfree]
  cases s.selection.isExcluded p <;> simp

theorem Stops.widest {f : Failure} (h : s.Stops fs root names f) : s.widest.Stops fs root names f := by
  have hmeets {names : List Name} {x : Node} (h : s.Meets fs root names x) :
      s.widest.Meets fs root names x := (meets_iff_widest.mp h).1
  have hdeep : ∀ depth, s.widest.maxDepth = some depth → names.length < depth := by simp [Scan.widest]
  cases h with
  | fault hfault =>
      cases hfault with
      | deep hx _ hlong => exact .fault (.deep (hmeets hx) hdeep hlong)
      | broken hmode hfinds hstat => exact .fault (.broken hmode hfinds.widest hstat)
      | loop hmode hfinds hstat hfront => exact .fault (.loop hmode hfinds.widest hstat hfront)
  | file hx hmatch hlong => exact .file (hmeets hx) (isMatch_iff_widest.mp hmatch).1 hlong
  | link hmode hx hmatch hstat =>
      exact .link hmode (hmeets hx) (isMatch_iff_widest.mp hmatch).1 hstat

theorem keeps_iff (hproper : ∀ n ∈ names, Name.isProper n) (size : Nat) :
    s.keeps ⟨root.below names, Path.joinNames names, size⟩ ↔
      (∀ depth, s.maxDepth = some depth → names.length ≤ depth) ∧
        (∀ n ∈ names, s.selection.allowsName n) ∧
        s.selection.isExcluded (root.below names) = false := by
  have hnear : s.maxDepth.all (fun depth => decide (names.length ≤ depth)) ↔
      ∀ depth, s.maxDepth = some depth → names.length ≤ depth := by
    cases s.maxDepth <;> simp
  have hallowed : (s.selection.includeHidden || names.all fun n => !Name.isHidden n) ↔
      ∀ n ∈ names, s.selection.allowsName n := by
    cases hmode : s.selection.includeHidden <;>
      simp [Selection.allowsName, hmode, Name.isHidden]
  simp only [keeps, Source.isVisible, Name.components_joinNames hproper, List.length_map,
    List.all_map, Function.comp_def, Bool.and_eq_true, hnear, hallowed, Bool.not_eq_true', and_assoc]

theorem listed_iff_widest {data : Bytes} : s.Listed fs root names data ↔
    s.widest.Listed fs root names data ∧
      s.keeps ⟨root.below names, Path.joinNames names, data.length⟩ := by
  constructor
  · rintro ⟨⟨x, hx⟩, hmatch, hdata⟩
    obtain ⟨hwide, hnear, hallowed⟩ := meets_iff_widest.mp hx
    obtain ⟨hmatch, hfree⟩ := isMatch_iff_widest.mp hmatch
    refine ⟨⟨⟨x, hwide⟩, hmatch, hdata⟩, (keeps_iff hx.finds.proper _).mpr ⟨hnear, hallowed, hfree⟩⟩
  · rintro ⟨⟨⟨x, hx⟩, hmatch, hdata⟩, hkeeps⟩
    obtain ⟨hnear, hallowed, hfree⟩ := (keeps_iff hx.finds.proper _).mp hkeeps
    exact ⟨⟨x, meets_iff_widest.mpr ⟨hx, hnear, hallowed⟩⟩, isMatch_iff_widest.mpr ⟨hmatch, hfree⟩,
      hdata⟩

end Widest

theorem eq_filter_of_sublist {α : Type} {part all : List α} {p : α → Bool} (hsub : part.Sublist all)
    (hnodup : all.Nodup) (hmem : ∀ a, a ∈ part ↔ a ∈ all ∧ p a) : part = all.filter p := by
  have hkept : part.Sublist (all.filter p) := by
    have hall : part.filter p = part := List.filter_eq_self.mpr fun a ha => ((hmem a).mp ha).2
    exact hall ▸ hsub.filter p
  refine hkept.eq_of_length_le (List.Subperm.length_le ?_)
  refine List.subperm_of_subset (hnodup.filter p) fun a ha => ?_
  exact (hmem a).mpr (List.mem_filter.mp ha)

/-- Where the search without its narrowing options succeeds, the search succeeds, and its list is what these
options keep of the other one. -/
theorem files_narrowed {fs : WellFormedFileSystem} (s : Scan) {root : Path}
    {all : List Source} (hall : s.widest.files fs root = .ok all) :
    s.files fs root = .ok (all.filter s.keeps) := by
  obtain ⟨top, es, hroot⟩ := stat_of_files hall
  have hgo : ¬ ∃ names f, s.Stops fs root names f := by
    rintro ⟨names, f, hstops⟩
    exact (files_isOk_iff_stops hroot).mp ⟨all, hall⟩ ⟨names, f, hstops.widest⟩
  obtain ⟨kept, hkept⟩ := (files_isOk_iff_stops hroot).mpr hgo
  have hmem (f : Source) : f ∈ kept ↔ f ∈ all ∧ s.keeps f := by
    rw [mem_files_iff hkept, mem_files_iff hall]
    constructor
    · rintro ⟨names, data, hlisted, rfl⟩
      obtain ⟨hwide, hkeeps⟩ := listed_iff_widest.mp hlisted
      exact ⟨⟨names, data, hwide, rfl⟩, hkeeps⟩
    · rintro ⟨⟨names, data, hwide, rfl⟩, hkeeps⟩
      exact ⟨names, data, listed_iff_widest.mpr ⟨hwide, hkeeps⟩, rfl⟩
  have hsub : kept.Sublist all := files_sublist hkept hall fun f hf => ((hmem f).mp hf).1
  have hnodup : all.Nodup :=
    (relative_ne hall).imp fun {f g} hne (heq : f = g) => hne (congrArg Source.relative heq)
  rw [hkept, eq_filter_of_sublist hsub hnodup hmem]

/-- A file at each depth, one of them behind a link to a directory and one in a hidden directory. -/
def filesAtEveryDepth : WellFormedFileSystem where
  root := .dir [
    (Utf8.encode "all.rs", .file (Utf8.encode "all") none),
    (Utf8.encode "bench", .dir [
      (Utf8.encode "saw.rs", .file (Utf8.encode "saw!") none),
      (Utf8.encode "vise", .dir [(Utf8.encode "jaw.rs", .file [] none)])]),
    (Utf8.encode ".kit", .dir [(Utf8.encode "awl.rs", .file (Utf8.encode "a") none)]),
    (Utf8.encode "shelf", .link (Utf8.encode "bench/vise"))]
  cwd := []
  wellFormed := rfl

def withinTwo : Scan :=
  ⟨⟨"rs", false, some (Utf8.encode "./all.rs")⟩, true, some 2⟩

theorem files_narrowed_filesAtEveryDepth :
    ∃ all, withinTwo.widest.files filesAtEveryDepth Path.dot = .ok all ∧
      all.map Source.display =
        [".kit/awl.rs", "all.rs", "bench/saw.rs", "bench/vise/jaw.rs", "shelf/jaw.rs"] ∧
      withinTwo.files filesAtEveryDepth Path.dot = .ok (all.filter withinTwo.keeps) ∧
      (all.filter withinTwo.keeps).map Source.display = ["bench/saw.rs", "shelf/jaw.rs"] := by
  have hwide : (withinTwo.widest.files filesAtEveryDepth Path.dot).toOption.map (·.map Source.display) =
      some [".kit/awl.rs", "all.rs", "bench/saw.rs", "bench/vise/jaw.rs", "shelf/jaw.rs"] := by
    decide +kernel
  have hnarrow : (withinTwo.files filesAtEveryDepth Path.dot).toOption.map (·.map Source.display) =
      some ["bench/saw.rs", "shelf/jaw.rs"] := by decide +kernel
  cases hrun : withinTwo.widest.files filesAtEveryDepth Path.dot with
  | error f =>
      rw [hrun] at hwide
      cases hwide
  | ok all =>
      have hkept := files_narrowed withinTwo hrun
      rw [hrun] at hwide
      rw [hkept] at hnarrow
      exact ⟨all, rfl, Option.some.inj hwide, hkept, Option.some.inj hnarrow⟩

end Scan

end Collate
