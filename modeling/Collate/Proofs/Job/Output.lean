import Collate.Job
import Collate.Proofs.Concatenation
import Collate.Proofs.Scan.Sources

/-!
What a run leaves at its output. As long as no source is the output itself, a run that succeeds leaves one
block of each file that was found, in order, and nothing of what was there before.
-/
namespace Collate

namespace Job

theorem discover_eq_ok {job : Job} {fs : FileSystem} {files : List Source}
    (h : job.discover fs = .ok files) :
    ∃ extension, job.normalized = .ok extension ∧
      (job.scan extension).files fs job.root = .ok files := by
  simp only [discover] at h
  cases hext : job.normalized with
  | error f =>
      rw [hext] at h
      cases h
  | ok extension =>
      rw [hext] at h
      exact ⟨extension, rfl, h⟩

theorem concatenate_ok {job : Job} {fs : FileSystem} {clock : Clock} {report : Report}
    (h : (job.concatenate fs clock).result = .ok report) :
    ∃ files p, job.discover fs = .ok files ∧
      (Concatenation.write fs job.output none files).result = .ok p ∧
      report = job.report files (some p) clock ∧
      (job.concatenate fs clock).fileSystem =
        (Concatenation.write fs job.output none files).fileSystem := by
  cases hfiles : job.discover fs with
  | error f =>
      simp only [concatenate, hfiles] at h
      cases h
  | ok files =>
      simp only [concatenate, hfiles] at h ⊢
      cases hwrite : (Concatenation.write fs job.output none files).result with
      | error f =>
          rw [hwrite] at h
          cases h
      | ok p =>
          rw [hwrite] at h
          exact ⟨files, p, rfl, hwrite, (Except.ok.inj h).symm, rfl⟩

/-- A run fails in discovery, which changes nothing, or in writing. -/
theorem concatenate_error {job : Job} {fs : FileSystem} {clock : Clock} {e : Failure}
    (h : (job.concatenate fs clock).result = .error e) :
    (job.discover fs = .error e ∧ (job.concatenate fs clock).fileSystem = fs) ∨
      ∃ files, job.discover fs = .ok files ∧
        (Concatenation.write fs job.output none files).result = .error e := by
  cases hfiles : job.discover fs with
  | error f =>
      left
      simp only [concatenate, hfiles] at h
      obtain rfl : f = e := Except.error.inj h
      exact ⟨rfl, by simp only [concatenate, hfiles]⟩
  | ok files =>
      right
      simp only [concatenate, hfiles] at h
      cases hwrite : (Concatenation.write fs job.output none files).result with
      | ok p =>
          rw [hwrite] at h
          cases h
      | error f =>
          rw [hwrite] at h
          obtain rfl : f = e := Except.error.inj h
          exact ⟨files, rfl, hwrite⟩

/-- A run that succeeds leaves at its output the blocks of the files that were found, and nothing else. -/
theorem output_of_concatenate {job : Job} {fs : WellFormedFileSystem} {clock : Clock}
    {report : Report} (hok : (job.concatenate fs clock).result = .ok report) {loc : Location}
    (hout : fs.NamesFile job.output loc) :
    ∃ files, job.discover fs = .ok files ∧
      ((∀ f ∈ files, ¬ fs.SameFile f.path job.output) →
        ∃ blocks room, List.Forall₂ (Source.IsBlock fs) files blocks ∧
          (job.concatenate fs clock).fileSystem.stat job.output =
            .ok (loc, .file (blocks.flatMap fun b =>
              Utf8.encode ("# " ++ b.header ++ "\n\n") ++ b.contents ++ Utf8.encode "\n\n") room)) := by
  obtain ⟨files, p, hfiles, hwrite, -, hafter⟩ := concatenate_ok hok
  obtain ⟨extension, -, hscan⟩ := discover_eq_ok hfiles
  refine ⟨files, hfiles, fun hdistinct => ?_⟩
  have hsources : ∀ f ∈ files, ∃ l data room,
      fs.stat f.path = .ok (l, .file data room) ∧ l ≠ loc := by
    intro f hf
    obtain ⟨data, ⟨l, room, hstat⟩, -⟩ := Scan.contains_of_files hscan hf
    exact ⟨l, data, room, hstat, fun hl => hdistinct f hf ((hout.sameFile_iff hstat).mpr hl)⟩
  obtain ⟨blocks, room, hblocks, hfinal⟩ := Concatenation.write_ok hout hsources hwrite
  have hformat : blocks.flatMap Block.bytes = blocks.flatMap fun b =>
      Utf8.encode ("# " ++ b.header ++ "\n\n") ++ b.contents ++ Utf8.encode "\n\n" := rfl
  refine ⟨blocks, room, hblocks, ?_⟩
  rw [hafter, hfinal, hformat]
  exact hout.stat_put _ room

/-- A file in a directory, a link to it, and an output that an earlier run has left. -/
def oldOutputAndLink : WellFormedFileSystem where
  root := .dir [
    (Utf8.encode "concat.txt", .file (Utf8.encode "# much/longer.rs\n\nfn longer() {}\n\n") none),
    (Utf8.encode "lib", .dir [(Utf8.encode "two.rs", .file (Utf8.encode "two") none)]),
    (Utf8.encode "one.rs", .link (Utf8.encode "lib/two.rs"))]
  cwd := []
  wellFormed := rfl

def rustFilesHere : Job := ⟨.default, Path.dot, "rs"⟩

def zeroClock : Clock := ⟨⟨0, 0⟩, ⟨0, 0⟩⟩

theorem oldOutputAndLink_namesFile :
    oldOutputAndLink.NamesFile rustFilesHere.output [Utf8.encode "concat.txt"] :=
  .present (show oldOutputAndLink.resolve .create rustFilesHere.output = _ from rfl) rfl

theorem output_of_concatenate_oldOutput :
    (rustFilesHere.concatenate oldOutputAndLink zeroClock).result.isOk ∧
    oldOutputAndLink.NamesFile rustFilesHere.output [Utf8.encode "concat.txt"] ∧
    ∃ files, rustFilesHere.discover oldOutputAndLink = .ok files ∧
      files.map Source.display = ["lib/two.rs", "one.rs"] ∧
      (∀ f ∈ files, ¬ oldOutputAndLink.SameFile f.path rustFilesHere.output) ∧
      ∃ blocks room, List.Forall₂ (Source.IsBlock oldOutputAndLink) files blocks ∧
        (rustFilesHere.concatenate oldOutputAndLink zeroClock).fileSystem.stat rustFilesHere.output =
          .ok ([Utf8.encode "concat.txt"], .file (blocks.flatMap fun b =>
            Utf8.encode ("# " ++ b.header ++ "\n\n") ++ b.contents ++ Utf8.encode "\n\n") room) := by
  have hok : (rustFilesHere.concatenate oldOutputAndLink zeroClock).result.isOk := by decide +kernel
  have hdisplay : (rustFilesHere.discover oldOutputAndLink).toOption.map (·.map Source.display) =
      some ["lib/two.rs", "one.rs"] := rfl
  have hdistinct : ∀ files ∈ (rustFilesHere.discover oldOutputAndLink).toOption,
      ∀ f ∈ files, ¬ oldOutputAndLink.SameFile f.path rustFilesHere.output := by decide +kernel
  cases hrun : (rustFilesHere.concatenate oldOutputAndLink zeroClock).result with
  | error f =>
      rw [hrun] at hok
      cases hok
  | ok report =>
      obtain ⟨files, hfiles, hafter⟩ := output_of_concatenate hrun oldOutputAndLink_namesFile
      rw [hfiles] at hdisplay hdistinct
      have hno := hdistinct files rfl
      exact ⟨rfl, oldOutputAndLink_namesFile, files, hfiles, Option.some.inj hdisplay, hno,
        hafter hno⟩

end Job

end Collate
