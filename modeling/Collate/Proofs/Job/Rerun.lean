import Collate.Proofs.Concatenation.Again
import Collate.Proofs.Job.Plan
import Collate.Proofs.Job.SelfInclusion
import Collate.Proofs.Scan.Written

/-!
Running a job again. The first run changes one file, which the second one passes over, so both find the same
sources; and what the first run has left in the output is forgotten.
-/
namespace Collate

/-- Where no link is crossed, a search arrives at a location by one list of names only. -/
theorem Scan.Arrives.location {fs : FileSystem} {s : Scan} {root : Path} {names : List Name}
    {loc : Location} (h : s.Arrives fs root names loc) {top : Location} {es : Entries}
    (hroot : fs.stat root = .ok (top, .dir es)) : loc = top ++ names ∨ fs.CrossesLink root names := by
  obtain ⟨⟨x, hx⟩, ⟨front, n, dir, rfl, hres, rfl⟩ | hres⟩ := h
  · rcases hx.location hroot rfl hres with rfl | hcross
    · exact .inl (List.append_assoc ..)
    · exact .inr (hcross.snoc n)
  · exact hx.location hroot (List.append_nil _).symm hres

namespace Job

variable {job : Job} {fs : FileSystem}

theorem create_of_write {fs : FileSystem} {output : Path} {buffer : Option Nat}
    {files : List Source} {p : Progress}
    (h : (Concatenation.write fs output buffer files).result = .ok p) :
    ∃ opened handle, fs.create output = .ok (opened, handle) := by
  cases hcreate : fs.create output with
  | error fault => simp [Concatenation.write, hcreate, Concatenation.failed] at h
  | ok end_ => exact ⟨end_.1, end_.2, rfl⟩

theorem not_arrives_of_only (hvalid : job.settings.validate = .ok ()) {extension : String}
    {loc : Location}
    (honly : ∀ names, (job.scan extension).Arrives fs job.root names loc →
      names = [Utf8.encode job.settings.outputName]) :
    ∀ names, (job.scan extension).selection.isMatch (job.root.below names) →
      ¬ (job.scan extension).Arrives fs job.root names loc := by
  intro names hmatch harrives
  have hpath : job.root.below names = job.output := by
    rw [honly names harrives, output_eq_entry (Settings.isPlainName_of_validate hvalid)]
    rfl
  exact job.not_isMatch_output extension (hpath ▸ hmatch)

/-- After a run the same files are discovered. -/
theorem discover_again {fs : WellFormedFileSystem} (hvalid : job.settings.validate = .ok ())
    {files : List Source} (hfiles : job.discover fs = .ok files) {opened : FileSystem}
    {handle : Output} (hcreate : fs.create job.output = .ok (opened, handle))
    (honly : ∀ extension loc, job.normalized = .ok extension → handle = .file loc →
      ∀ names, (job.scan extension).Arrives opened job.root names loc →
        names = [Utf8.encode job.settings.outputName]) {after : FileSystem}
    (hafter : handle.Reaches fs after) : job.discover after = .ok files := by
  obtain ⟨extension, hext, hscan⟩ := discover_eq_ok hfiles
  have hagain : (job.scan extension).files after job.root = .ok files := by
    cases hafter with
    | void | full => exact hscan
    | @file loc hloc data room =>
        obtain ⟨loc', space, hnames, hhandle, rfl⟩ | ⟨-, hdevice, -⟩ :=
          FileSystem.create_cases hcreate
        · obtain rfl : loc = loc' := Output.file.inj hhandle
          have hfree := not_arrives_of_only hvalid (honly extension loc hext rfl)
          refine Scan.files_put fs hloc hnames.isProper_last ?_ hscan
          exact fun names hmatch harrives =>
            hfree names hmatch (Scan.arrives_put_put hloc [] space harrives)
        · rcases hdevice with hdevice | hdevice <;> cases hdevice
  simp [discover, hext, hagain, bind, Except.bind]

/-- A run that succeeded can be repeated: as long as the search comes to its output only as to the root's
entry, the second run succeeds, changes nothing and reports the same but for the time. -/
theorem concatenate_again {fs : WellFormedFileSystem} (hvalid : job.settings.validate = .ok ())
    (honly : ∀ extension opened loc, job.normalized = .ok extension →
      fs.create job.output = .ok (opened, .file loc) →
      ∀ names, (job.scan extension).Arrives opened job.root names loc →
        names = [Utf8.encode job.settings.outputName])
    (c d : Clock) {report : Report} (hok : (job.concatenate fs c).result = .ok report) :
    (job.concatenate (job.concatenate fs c).fileSystem d).fileSystem =
        (job.concatenate fs c).fileSystem ∧
      (job.concatenate (job.concatenate fs c).fileSystem d).result =
        .ok { report with duration := d.elapsed, completedAt := d.now } := by
  obtain ⟨files, p, hfiles, hwrite, rfl, hafter⟩ := concatenate_ok hok
  obtain ⟨opened, handle, hcreate⟩ := create_of_write hwrite
  have hreaches := Concatenation.write_reaches hcreate none files
  have hdiscover := discover_again hvalid hfiles hcreate
    (fun extension loc hext hhandle => honly extension opened loc hext (hhandle ▸ hcreate)) hreaches
  have hagain := Concatenation.write_again hcreate none files
  rw [hafter]
  simp only [concatenate, hdiscover, hagain, hwrite, true_and]
  rfl

/-- A directory with two files, and no output yet. -/
def twoTexts : WellFormedFileSystem where
  root := .dir [
    (Utf8.encode "b.txt", .file (Utf8.encode "two") none),
    (Utf8.encode "a.txt", .file (Utf8.encode "one") none)]
  cwd := []
  wellFormed := rfl

/-- The output has the extension that is searched for. -/
def textsIntoText : Job := ⟨.default, Path.dot, "txt"⟩

private theorem twoTexts_noLink {names : List Name} :
    ¬ (twoTexts.put [Utf8.encode "concat.txt"] Node.newFile).CrossesLink Path.dot names := by
  rintro ⟨front, back, -, -, loc, target, hfind⟩
  have hlink := (FileSystem.find_eq_ok_iff.mp hfind).2
  cases loc with
  | nil => cases hlink
  | cons n loc =>
      obtain ⟨y, hy, hloc⟩ := Option.bind_eq_some_iff.mp hlink
      have hmem : (n, y) ∈ [(Utf8.encode "b.txt", Node.file (Utf8.encode "two") none),
          (Utf8.encode "a.txt", .file (Utf8.encode "one") none),
          (Utf8.encode "concat.txt", .file [] none)] := Entries.mem_of_get? hy
      have hfile : ∃ data room, y = .file data room := by
        simp only [List.mem_cons, Prod.mk.injEq, List.not_mem_nil, or_false] at hmem
        rcases hmem with ⟨-, rfl⟩ | ⟨-, rfl⟩ | ⟨-, rfl⟩ <;> exact ⟨_, _, rfl⟩
      obtain ⟨data, room, rfl⟩ := hfile
      cases loc <;> cases hloc

theorem concatenate_again_twoTexts :
    textsIntoText.settings.validate = .ok () ∧
    ∃ report, (textsIntoText.concatenate twoTexts zeroClock).result = .ok report ∧
      report.files = [("a.txt", 3), ("b.txt", 3)] ∧
      (textsIntoText.concatenate
          (textsIntoText.concatenate twoTexts zeroClock).fileSystem laterClock).fileSystem =
        (textsIntoText.concatenate twoTexts zeroClock).fileSystem ∧
      (textsIntoText.concatenate
          (textsIntoText.concatenate twoTexts zeroClock).fileSystem laterClock).result =
        .ok { report with duration := laterClock.elapsed, completedAt := laterClock.now } := by
  have hvalid : textsIntoText.settings.validate = .ok () := rfl
  have hcreate : twoTexts.create textsIntoText.output =
      .ok (twoTexts.put [Utf8.encode "concat.txt"] Node.newFile,
        .file [Utf8.encode "concat.txt"]) := rfl
  have honly : ∀ extension opened loc, textsIntoText.normalized = .ok extension →
      twoTexts.create textsIntoText.output = .ok (opened, .file loc) →
      ∀ names, (textsIntoText.scan extension).Arrives opened textsIntoText.root names loc →
        names = [Utf8.encode textsIntoText.settings.outputName] := by
    intro extension opened loc _ hopened names harrives
    cases hcreate.symm.trans hopened
    have hroot : (twoTexts.put [Utf8.encode "concat.txt"] Node.newFile).stat textsIntoText.root =
        .ok ([], (twoTexts.put [Utf8.encode "concat.txt"] Node.newFile).root) := rfl
    rcases harrives.location hroot with hloc | hcross
    · exact hloc.symm
    · exact absurd hcross twoTexts_noLink
  have hfiles : (textsIntoText.concatenate twoTexts zeroClock).result.toOption.map Report.files =
      some [("a.txt", 3), ("b.txt", 3)] := by decide +kernel
  cases hrun : (textsIntoText.concatenate twoTexts zeroClock).result with
  | error e =>
      rw [hrun] at hfiles
      cases hfiles
  | ok report =>
      rw [hrun] at hfiles
      have hagain := concatenate_again hvalid honly zeroClock laterClock hrun
      exact ⟨hvalid, report, rfl, Option.some.inj hfiles, hagain⟩

end Job

end Collate
