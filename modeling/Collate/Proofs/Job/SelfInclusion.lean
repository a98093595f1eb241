import Collate.Proofs.FileTree.Links
import Collate.Proofs.Job.Output

/-!
When the output takes part in its own input. Its entry in the root is passed over, so only links can bring
it back: the output's own path may be a link, or a source may be reached across one.
-/
namespace Collate

namespace Settings

theorem validate_eq_ok {s : Settings} :
    s.validate = .ok () ↔
      Path.isPlainName (Utf8.encode s.outputName) ∧ s.scan.maxDepth ≠ some 0 := by
  simp only [validate]
  split
  · rename_i hempty
    have hnone : ¬ Path.isPlainName (Utf8.encode s.outputName) := by
      rw [String.isEmpty_iff.mp hempty]
      decide
    simp [hnone]
  · split
    · simp_all
    · split <;> simp_all

theorem isPlainName_of_validate {s : Settings} (h : s.validate = .ok ()) :
    Path.isPlainName (Utf8.encode s.outputName) :=
  (validate_eq_ok.mp h).1

theorem outputPath_eq_entry {s : Settings} (h : Path.isPlainName (Utf8.encode s.outputName))
    (root : Path) : s.outputPath root = root.entry (Utf8.encode s.outputName) := by
  simp [outputPath, Path.join, (Path.split_of_isPlainName h).1]

end Settings

namespace Scan

/-- What the search comes to lies where its names say unless the path crosses a link. -/
theorem Meets.location {fs : FileSystem} {s : Scan} {root : Path} {names : List Name} {x : Node}
    (h : s.Meets fs root names x) {top : Location} {es : Entries}
    (hroot : fs.stat root = .ok (top, .dir es)) {front back : List Name}
    (hfront : names = front ++ back) {loc : Location}
    (hres : fs.resolve .follow (root.below front) = .ok (.found loc)) :
    loc = top ++ front ∨ fs.CrossesLink root front := by
  have htop := (FileSystem.stat_eq_ok_iff.mp hroot).1
  subst hfront
  refine FileSystem.location_of_below htop
    (fun n hn => (h.admitted n (List.mem_append_left _ hn)).1) ?_ hres
  rintro a b rfl ha hb
  obtain ⟨l, inside, hfind⟩ := h.inside a (b ++ back) (List.append_assoc ..) ha (by simp [hb])
  have hending : s.ending ≠ .create := by
    simp only [ending]
    split <;> simp
  exact ⟨l, inside, FileSystem.stat_of_find hending hfind (by simp)⟩

end Scan

namespace Job

variable {job : Job} {fs : FileSystem}

theorem output_eq_entry (hplain : Path.isPlainName (Utf8.encode job.settings.outputName)) :
    job.output = job.root.entry (Utf8.encode job.settings.outputName) :=
  Settings.outputPath_eq_entry hplain job.root

theorem not_isMatch_output (job : Job) (extension : String) :
    ¬ (job.scan extension).selection.isMatch job.output := by
  simp [scan, Scan.ofSettings, Selection.isMatch, Selection.isExcluded, Path.same]

theorem link_of_sameFile (hvalid : job.settings.validate = .ok ()) {extension : String}
    {top : Location} {es : Entries} (hroot : fs.stat job.root = .ok (top, .dir es))
    {names : List Name} {data : Bytes}
    (hlisted : (job.scan extension).Listed fs job.root names data)
    (hsame : fs.SameFile (job.root.below names) job.output) :
    fs.IsLink job.output ∨ fs.CrossesLink job.root names := by
  obtain ⟨loc, x, hsource, hout⟩ := hsame
  obtain ⟨l, room, hfile⟩ := hlisted.contains
  obtain ⟨rfl, rfl⟩ := Prod.mk.inj (Except.ok.inj (hfile.symm.trans hsource))
  have hplain := Settings.isPlainName_of_validate hvalid
  have htop := (FileSystem.stat_eq_ok_iff.mp hroot).1
  have hentry := output_eq_entry hplain
  rw [hentry] at hout ⊢
  have hn := FileSystem.isProper_of_plain htop hplain hout
  rcases FileSystem.location_of_entry htop hn (FileSystem.stat_eq_ok_iff.mp hout).1 with hloc | hlink
  · obtain ⟨y, hy⟩ := hlisted.meets
    rcases hy.location hroot (List.append_nil _).symm (FileSystem.stat_eq_ok_iff.mp hsource).1 with
      hplace | hcross
    · -- Both lie in the root under the output's name, but that path is passed over.
      have hnames : names = [Utf8.encode job.settings.outputName] :=
        List.append_cancel_left (hplace.symm.trans hloc)
      have hpath : job.root.below names = job.output := by rw [hnames, hentry]; rfl
      exact absurd (hpath ▸ hlisted.isMatch) (job.not_isMatch_output extension)
    · exact .inr hcross
  · exact .inl hlink

/-- The output is among its own sources exactly when a file that belongs to them is the output over a link,
and a source loses its contents to the opened output exactly when it is the output. -/
theorem output_among_sources_iff {fs : WellFormedFileSystem} (hvalid : job.settings.validate = .ok ())
    {extension : String} (hext : job.normalized = .ok extension) {files : List Source}
    (hfiles : job.discover fs = .ok files) :
    ((∀ f ∈ files, ¬ fs.SameFile f.path job.output) ↔
      ¬ ∃ names data, (job.scan extension).Listed fs job.root names data ∧
        (fs.IsLink job.output ∨ fs.CrossesLink job.root names) ∧
        fs.SameFile (job.root.below names) job.output) ∧
    ∀ now opened, fs.create job.output = .ok (now, opened) →
      ∀ f ∈ files, ∃ data, fs.Contains f.path data ∧
        now.Contains f.path (if fs.SameFile f.path job.output then [] else data) := by
  have hscan : (job.scan extension).files fs job.root = .ok files := by
    obtain ⟨ext, hext', hscan⟩ := discover_eq_ok hfiles
    obtain rfl := Except.ok.inj (hext.symm.trans hext')
    exact hscan
  refine ⟨⟨?_, ?_⟩, fun now opened hcreate f hf => ?_⟩
  · rintro hnone ⟨names, data, hlisted, -, hsame⟩
    exact hnone _ ((Scan.mem_files_iff hscan).mpr ⟨names, data, hlisted, rfl⟩) hsame
  · intro hnone f hf hsame
    obtain ⟨top, es, hroot⟩ := Scan.stat_of_files hscan
    obtain ⟨names, data, hlisted, rfl⟩ := (Scan.mem_files_iff hscan).mp hf
    exact hnone ⟨names, data, hlisted, link_of_sameFile hvalid hroot hlisted hsame, hsame⟩
  · obtain ⟨data, hdata, -⟩ := Scan.contains_of_files hscan hf
    exact ⟨data, hdata, FileSystem.contains_create hcreate hdata⟩

/-- An output that an earlier run has left, and a link to it that matches. -/
def linkToOutput : WellFormedFileSystem where
  root := .dir [
    (Utf8.encode "concat.txt", .file (Utf8.encode "old") none),
    (Utf8.encode "z.txt", .link (Utf8.encode "concat.txt"))]
  cwd := []
  wellFormed := rfl

def textFilesHere : Job := ⟨.default, Path.dot, "txt"⟩

theorem output_among_sources_iff_linkToOutput :
    textFilesHere.settings.validate = .ok () ∧
    textFilesHere.normalized = .ok "txt" ∧
    ∃ files, textFilesHere.discover linkToOutput = .ok files ∧ files.map Source.display = ["z.txt"] ∧
      ∃ names data, (textFilesHere.scan "txt").Listed linkToOutput textFilesHere.root names data ∧
        (linkToOutput.IsLink textFilesHere.output ∨
          linkToOutput.CrossesLink textFilesHere.root names) ∧
        linkToOutput.SameFile (textFilesHere.root.below names) textFilesHere.output := by
  have hvalid : textFilesHere.settings.validate = .ok () := rfl
  have hext : textFilesHere.normalized = .ok "txt" := rfl
  have hdisplay : (textFilesHere.discover linkToOutput).toOption.map (·.map Source.display) =
      some ["z.txt"] := rfl
  have hsame : (textFilesHere.discover linkToOutput).toOption.any fun files =>
      files.any fun f => decide (linkToOutput.SameFile f.path textFilesHere.output) := rfl
  cases hfiles : textFilesHere.discover linkToOutput with
  | error e =>
      rw [hfiles] at hdisplay
      cases hdisplay
  | ok files =>
      rw [hfiles] at hdisplay hsame
      obtain ⟨f, hf, halias⟩ := List.any_eq_true.mp hsame
      obtain ⟨hiff, -⟩ := output_among_sources_iff hvalid hext hfiles
      refine ⟨hvalid, hext, files, rfl, Option.some.inj hdisplay, ?_⟩
      refine Classical.byContradiction fun hno => ?_
      exact hiff.mpr hno f hf (of_decide_eq_true halias)

/-- A matching link to the output is among the sources. -/
theorem output_may_be_source :
    ¬ ∀ (job : Job) (fs : WellFormedFileSystem) (files : List Source),
      job.settings.validate = .ok () → job.discover fs = .ok files →
      ∀ f ∈ files, ¬ fs.SameFile f.path job.output := by
  intro h
  have hsame : (textFilesHere.discover linkToOutput).toOption.any fun files =>
      files.any fun f => decide (linkToOutput.SameFile f.path textFilesHere.output) := rfl
  cases hfiles : textFilesHere.discover linkToOutput with
  | error e =>
      rw [hfiles] at hsame
      cases hsame
  | ok files =>
      rw [hfiles] at hsame
      obtain ⟨f, hf, halias⟩ := List.any_eq_true.mp hsame
      exact h textFilesHere linkToOutput files rfl hfiles f hf (of_decide_eq_true halias)

end Job

end Collate
