import Collate.Proofs.Job.SelfInclusion

/-!
The one entry that a search passes over. Whatever spelling the root has, the output's path adds a single
name to it, and paths are compared by their components; so what is passed over is the entry of that name in
the root itself, and nothing below another directory.
-/
namespace Collate

namespace Path

theorem components_of_isPlainName {name : Path} (h : name.isPlainName) :
    ∃ n, name.components = [.normal n] ∧ n ≠ [] ∧ n ≠ dot ∧ n ≠ dotDot ∧ slash ∉ n ∧
      ∀ p : Path, p ≠ [] → (p.entry name).components = p.components ++ [.normal n] := by
  obtain ⟨hrelative, n, rest, hsplit, hn, hrest⟩ := split_of_isPlainName h
  obtain ⟨hne, hdot, hup⟩ := component?_eq_normal.mp hn
  have hslash : slash ∉ n := by
    intro hmem
    have hpart : n ∈ split name := by simp [hsplit]
    simpa using (mem_parts (· == slash) hpart hmem).1
  have hskipped : rest.filterMap component? = [] :=
    List.filterMap_eq_nil_iff.mpr fun m hm => component?_eq_none.mpr (hrest m hm)
  have hinner : (split name).filterMap component? = [.normal n] := by
    rw [hsplit, List.filterMap_cons_some hn, hskipped]
  refine ⟨n, ?_, hne, hdot, hup, hslash, fun p hp => ?_⟩
  · have hhead : (split name).head? ≠ some dot := by simpa [hsplit] using hdot
    simp [components, hrelative, hinner, hhead]
  · rw [components_entry hp, hinner]

end Path

namespace Scan

variable {fs : FileSystem} {s : Scan} {root : Path}

theorem mem_visits_ofEncounters {es : List Encounter} {v : Visit}
    (h : v ∈ (Walk.ofEncounters es).visits) : ⟨v.names, v.path, .ok v.kind⟩ ∈ es := by
  induction es with
  | nil => cases h
  | cons e es ih =>
      obtain ⟨names, path, what⟩ := e
      cases what with
      | error f => cases h
      | ok kind =>
          rcases List.mem_cons.mp h with rfl | h
          · exact List.mem_cons_self
          · exact List.mem_cons_of_mem _ (ih h)

theorem names_of_rootVisit {v : Visit} (h : v ∈ s.rootVisit fs root) : v.path = root ∧ v.names = [] := by
  simp only [rootVisit] at h
  split at h
  · cases h
  · split at h
    · obtain rfl := List.mem_singleton.mp h
      exact ⟨rfl, rfl⟩
    · cases h

/-- A walk gives every entry the path that its names below the root make. -/
theorem path_of_visit {fs : WellFormedFileSystem} {w : Walk} (hwalk : s.walkRoot fs root = .ok w)
    {v : Visit} (hv : v ∈ w.visits) :
    v.path = root.below v.names ∧ ∀ n ∈ v.names, Name.isProper n := by
  simp only [walkRoot] at hwalk
  split at hwalk
  · cases hwalk
  · rename_i top es hroot
    obtain rfl := Except.ok.inj hwalk
    rcases List.mem_append.mp hv with hv | hv
    · obtain ⟨hpath, hnames⟩ := names_of_rootVisit hv
      exact ⟨by rw [hpath, hnames]; rfl, by simp [hnames]⟩
    · have hmet : ⟨v.names, v.path, .ok v.kind⟩ ∈
          meetWithin fs.sorted s.rule FileSystem.linkLimit (.top root top s.maxDepth) es := by
        refine mem_visits_ofEncounters ?_
        rw [← walkWithin_eq]
        exact hv
      have hsound := meetWithin_sound fs.sorted (top_stands hroot)
        (FileSystem.stat_eq_ok_iff.mp hroot).2 _ hmet
      generalize hpath : v.path = path at hsound
      cases hsound with
      | seen hmeets _ => exact ⟨rfl, fun n hn => (hmeets.admitted n hn).1⟩
  · cases hwalk

end Scan

namespace Job

variable {job : Job}

theorem isExcluded_iff (extension : String) (p : Path) :
    (job.scan extension).selection.isExcluded p ↔ job.output.components = p.components := by
  simp [scan, Scan.ofSettings, Selection.isExcluded, Path.same]

/-- The output adds one name to the root. The search passes over the entry of that name in the root and over
nothing else that it comes to, and that entry is what a run opens in the root unless it is a link. -/
theorem excluded_iff_output (hvalid : job.settings.validate = .ok ()) (hroot : job.root ≠ [])
    (extension : String) :
    ∃ n : Name, Path.components (Utf8.encode job.settings.outputName) = [.normal n] ∧
      Path.slash ∉ n ∧ job.output.components = job.root.components ++ [.normal n] ∧
      ¬ (job.scan extension).selection.isMatch (job.root.entry n) ∧
      (∀ names : List Name, (∀ m ∈ names, Name.isProper m) →
        ((job.scan extension).selection.isExcluded (job.root.below names) ↔ names = [n])) ∧
      ∀ fs : WellFormedFileSystem,
        (∀ w, (job.scan extension).walkRoot fs job.root = .ok w → ∀ v ∈ w.visits,
          v.path = job.root.below v.names ∧
          ((job.scan extension).selection.isExcluded v.path ↔ v.names = [n])) ∧
        ∀ top es now loc, fs.stat job.root = .ok (top, .dir es) →
          fs.create job.output = .ok (now, .file loc) →
          loc = top ++ [n] ∨ fs.IsLink (job.root.entry n) := by
  have hplain := Settings.isPlainName_of_validate hvalid
  have hentry := output_eq_entry hplain
  obtain ⟨n, hname, hne, hdot, hup, hslash, hadds⟩ := Path.components_of_isPlainName hplain
  have hout : job.output.components = job.root.components ++ [.normal n] := by
    rw [hentry, hadds job.root hroot]
  have hcomponents : (job.root.entry n).components = job.root.components ++ [.normal n] := by
    rw [Path.components_entry hroot, Path.split_of_noSlash hslash]
    simp [Path.component?_eq_normal.mpr ⟨hne, hdot, hup⟩]
  have hexcluded {names : List Name} (hnames : ∀ m ∈ names, Name.isProper m) :
      (job.scan extension).selection.isExcluded (job.root.below names) ↔ names = [n] := by
    rw [isExcluded_iff, hout, Path.components_below hroot hnames, List.append_right_inj]
    constructor
    · intro h
      obtain ⟨m, rfl, hm⟩ := List.map_eq_singleton_iff.mp h.symm
      rw [Path.Component.normal.inj hm]
    · rintro rfl
      rfl
  have hself : ¬ (job.scan extension).selection.isMatch (job.root.entry n) := by
    have hpassed : (job.scan extension).selection.isExcluded (job.root.entry n) :=
      (isExcluded_iff extension _).mpr (hout.trans hcomponents.symm)
    simp [Selection.isMatch, hpassed]
  refine ⟨n, hname, hslash, hout, hself, fun names hnames => hexcluded hnames, ?_⟩
  refine fun fs => ⟨fun w hwalk v hv => ?_, fun top es now loc htop hcreate => ?_⟩
  · obtain ⟨hpath, hproper⟩ := Scan.path_of_visit hwalk hv
    exact ⟨hpath, by rw [hpath, hexcluded hproper]⟩
  · have hleads := (FileSystem.stat_eq_ok_iff.mp htop).1
    rw [hentry] at hcreate
    have hproper := FileSystem.isProper_of_create hleads hplain hcreate
    have hsingle : Path.components (Utf8.encode job.settings.outputName) =
        [.normal (Utf8.encode job.settings.outputName)] :=
      Name.components_joinNames (List.forall_mem_singleton.mpr hproper)
    obtain rfl : Utf8.encode job.settings.outputName = n := by
      simpa using hsingle.symm.trans hname
    exact FileSystem.location_of_create hleads hproper hcreate

/-- An output of an earlier run, a file of its name further down, and a link to the directory of both. -/
def outputNameTwice : WellFormedFileSystem where
  root := .dir [
    (Utf8.encode "lib", .dir [
      (Utf8.encode "out.rs", .file (Utf8.encode "old") none),
      (Utf8.encode "sub", .dir [(Utf8.encode "out.rs", .file (Utf8.encode "deep") none)])]),
    (Utf8.encode "here", .link (Utf8.encode "lib"))]
  cwd := []
  wellFormed := rfl

def rootThroughLink : Job :=
  ⟨{ Settings.default with outputName := "out.rs" }, Utf8.encode "./lib/..//here", "rs"⟩

theorem excluded_iff_output_rootThroughLink :
    rootThroughLink.settings.validate = .ok () ∧ rootThroughLink.root ≠ [] ∧
    rootThroughLink.output.components =
      rootThroughLink.root.components ++ [.normal (Utf8.encode "out.rs")] ∧
    ∃ w, (rootThroughLink.scan "rs").walkRoot outputNameTwice rootThroughLink.root = .ok w ∧
      w.visits.map Visit.names =
        [[], [Utf8.encode "out.rs"], [Utf8.encode "sub", Utf8.encode "out.rs"]] ∧
      ∀ v ∈ w.visits, (rootThroughLink.scan "rs").selection.isExcluded v.path ↔
        v.names = [Utf8.encode "out.rs"] := by
  have hvalid : rootThroughLink.settings.validate = .ok () := rfl
  have hroot : rootThroughLink.root ≠ [] := by decide +kernel
  have hname : Path.components (Utf8.encode rootThroughLink.settings.outputName) =
      [.normal (Utf8.encode "out.rs")] := rfl
  have hvisits : ((rootThroughLink.scan "rs").walkRoot outputNameTwice rootThroughLink.root).toOption.map
      (fun w => w.visits.map Visit.names) =
        some [[], [Utf8.encode "out.rs"], [Utf8.encode "sub", Utf8.encode "out.rs"]] := by
    decide +kernel
  obtain ⟨n, hn, -, hout, -, -, hwalks⟩ := excluded_iff_output hvalid hroot "rs"
  obtain rfl : Utf8.encode "out.rs" = n := by simpa using hname.symm.trans hn
  cases hwalk : (rootThroughLink.scan "rs").walkRoot outputNameTwice rootThroughLink.root with
  | error f =>
      rw [hwalk] at hvisits
      cases hvisits
  | ok w =>
      rw [hwalk] at hvisits
      refine ⟨hvalid, hroot, hout, w, rfl, Option.some.inj hvisits, fun v hv => ?_⟩
      exact ((hwalks outputNameTwice).1 w hwalk v hv).2

end Job

end Collate
