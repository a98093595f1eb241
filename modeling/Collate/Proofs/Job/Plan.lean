import Collate.Proofs.Job.Output

/-!
A plan and the run that it announces. They discover the same files, so a plan that fails foretells the
failure; after a plan that succeeds, only the encoding of a source or the output can stop the run.
-/
namespace Collate

namespace Job

variable {job : Job} {fs : FileSystem}

theorem plan_eq_ok {clock : Clock} {report : Report}
    (h : (job.plan fs clock).result = .ok report) :
    ∃ files, job.discover fs = .ok files ∧ report = job.report files none clock := by
  cases hfiles : job.discover fs with
  | error f => simp [plan, hfiles, Except.map] at h
  | ok files => exact ⟨files, rfl, by simpa [plan, hfiles, Except.map, eq_comm] using h⟩

theorem plan_eq_error {clock : Clock} {e : Failure}
    (h : (job.plan fs clock).result = .error e) : job.discover fs = .error e := by
  cases hfiles : job.discover fs with
  | ok files => simp [plan, hfiles, Except.map] at h
  | error f => simpa [plan, hfiles, Except.map] using h

/-- What a run reports beyond its plan is what it has written and when. -/
theorem report_of_progress (job : Job) (files : List Source) (p : Progress) (c d : Clock) :
    job.report files (some p) d =
      { job.report files none c with
        dryRun := false
        bytesWritten := p.bytesWritten
        duration := d.elapsed
        completedAt := d.now } := rfl

/-- A plan changes nothing and foretells the run: its failure is that of the run, which then changes nothing
either, and its report is that of the run unless a source is no text or the output refuses. -/
theorem plan_foretells_concatenate (fs : WellFormedFileSystem) (c d : Clock) :
    (job.plan fs c).fileSystem = fs ∧
    (∀ e, (job.plan fs c).result = .error e →
      (job.concatenate fs d).result = .error e ∧ (job.concatenate fs d).fileSystem = fs) ∧
    ∀ report, (job.plan fs c).result = .ok report →
      (∃ bytes, (job.concatenate fs d).result = .ok
        { report with
          dryRun := false
          bytesWritten := bytes
          duration := d.elapsed
          completedAt := d.now }) ∨
      ∃ files, job.discover fs = .ok files ∧
        ((∃ f ∈ files, (job.concatenate fs d).result = .error (.invalidEncoding f.path)) ∨
          ∃ fault, (job.concatenate fs d).result = .error (.unwritable job.output fault)) := by
  refine ⟨rfl, fun e he => ?_, fun report hreport => ?_⟩
  · have hfiles : job.discover fs = .error e := plan_eq_error he
    simp [concatenate, hfiles]
  · obtain ⟨files, hfiles, rfl⟩ := plan_eq_ok hreport
    cases hrun : (job.concatenate fs d).result with
    | ok report =>
        left
        obtain ⟨files', p, hfiles', -, hreport, -⟩ := concatenate_ok hrun
        obtain rfl : files = files' := Except.ok.inj (hfiles.symm.trans hfiles')
        exact ⟨p.bytesWritten, by rw [hreport, report_of_progress job files p c d]⟩
    | error e =>
        right
        refine ⟨files, hfiles, ?_⟩
        obtain ⟨hfailed, -⟩ | ⟨files', hfiles', hwrite⟩ := concatenate_error hrun
        · cases hfiles.symm.trans hfailed
        · obtain rfl : files = files' := Except.ok.inj (hfiles.symm.trans hfiles')
          obtain ⟨extension, -, hscan⟩ := discover_eq_ok hfiles
          have hsources : ∀ f ∈ files, ∃ data, fs.Contains f.path data := by
            intro f hf
            obtain ⟨data, hdata, -⟩ := Scan.contains_of_files hscan hf
            exact ⟨data, hdata⟩
          obtain ⟨f, hf, rfl⟩ | ⟨fault, rfl⟩ := Concatenation.write_error hsources hwrite
          · exact .inl ⟨f, hf, rfl⟩
          · exact .inr ⟨fault, rfl⟩

def laterClock : Clock := ⟨⟨64800, 0⟩, ⟨2, 0⟩⟩

theorem plan_foretells_concatenate_oldOutput :
    ∃ report bytes,
      (rustFilesHere.plan oldOutputAndLink zeroClock).result = .ok report ∧
      report.files = [("lib/two.rs", 3), ("one.rs", 3)] ∧
      (rustFilesHere.concatenate oldOutputAndLink laterClock).result = .ok
        { report with
          dryRun := false
          bytesWritten := bytes
          duration := laterClock.elapsed
          completedAt := laterClock.now } := by
  have hfiles : (rustFilesHere.plan oldOutputAndLink zeroClock).result.toOption.map Report.files =
      some [("lib/two.rs", 3), ("one.rs", 3)] := rfl
  have hok : (rustFilesHere.concatenate oldOutputAndLink laterClock).result.isOk := by decide +kernel
  cases hreport : (rustFilesHere.plan oldOutputAndLink zeroClock).result with
  | error e =>
      rw [hreport] at hfiles
      cases hfiles
  | ok report =>
      rw [hreport] at hfiles
      refine ⟨report, ?_⟩
      have hrun := (plan_foretells_concatenate oldOutputAndLink zeroClock laterClock).2.2 report hreport
      obtain ⟨bytes, hbytes⟩ | ⟨files, -, ⟨f, -, herror⟩ | ⟨fault, herror⟩⟩ := hrun
      · exact ⟨bytes, rfl, Option.some.inj hfiles, hbytes⟩
      · rw [herror] at hok
        cases hok
      · rw [herror] at hok
        cases hok

end Job

end Collate
