import Mathlib.Algebra.GroupWithZero.Nat
import Collate.Proofs.Job.Output

/-!
What a report says about the output it comes with. Its counts are those of the file, and its displayed paths
and sizes are enough to cut the file into blocks again, although no block says where it ends.
-/
namespace Collate

/-- Three pieces of an output that stand next to each other. -/
structure Cut where
  heading : Bytes
  contents : Bytes
  closing : Bytes
deriving DecidableEq, Repr

/-- Cuts an output at the offsets that displayed paths and sizes give. What is left comes last. -/
def Report.cut : List (String × Nat) → Bytes → List Cut × Bytes
  | [], text => ([], text)
  | (path, size) :: files, text =>
    let (heading, body) := text.splitAt (2 + (Utf8.encode path).length + 2)
    let (contents, rest) := body.splitAt size
    let (closing, rest) := rest.splitAt 2
    let (cuts, left) := cut files rest
    (⟨heading, contents, closing⟩ :: cuts, left)

namespace Block

def listed (b : Block) : String × Nat :=
  (b.header, b.contents.length)

def cut (b : Block) : Cut :=
  ⟨b.opening, b.contents, closing⟩

theorem length_opening (b : Block) : b.opening.length = 2 + (Utf8.encode b.header).length + 2 := by
  simp only [opening, Utf8.encode, String.toList_append, List.flatMap_append, List.length_append]
  rfl

theorem bytes_append (b : Block) (rest : Bytes) :
    b.bytes ++ rest = b.opening ++ (b.contents ++ (closing ++ rest)) := by
  simp only [bytes, List.append_assoc]

/-- The block format does not delimit itself, but the sizes of the contents do. -/
theorem cut_flatMap_bytes (blocks : List Block) :
    Report.cut (blocks.map listed) (blocks.flatMap bytes) = (blocks.map cut, []) := by
  induction blocks with
  | nil => rfl
  | cons b blocks ih =>
      have hclosing : closing.length = 2 := rfl
      simp only [List.map_cons, List.flatMap_cons, listed, Report.cut, bytes_append, List.splitAt_eq,
        List.take_left' b.length_opening, List.drop_left' b.length_opening, List.take_left,
        List.drop_left, List.take_left' hclosing, List.drop_left' hclosing, ih]
      rfl

theorem length_flatMap_bytes (blocks : List Block) :
    (blocks.flatMap bytes).length =
      ((blocks.map listed).map Prod.snd).sum +
        ((blocks.map listed).map fun f => (Utf8.encode f.1).length + 6).sum := by
  induction blocks with
  | nil => rfl
  | cons b blocks ih =>
      simp only [List.flatMap_cons, List.length_append, ih, length_bytes, size, length_opening,
        List.map_cons, listed, List.sum_cons]
      omega

end Block

theorem FileSystem.Contains.unique {fs : FileSystem} {p : Path} {data contents : Bytes}
    (h : fs.Contains p data) (h' : fs.Contains p contents) : data = contents := by
  obtain ⟨loc, room, hstat⟩ := h
  obtain ⟨loc', room', hstat'⟩ := h'
  cases hstat.symm.trans hstat'
  rfl

theorem Source.listed_of_isBlock {fs : FileSystem} {files : List Source} {blocks : List Block}
    (hblocks : List.Forall₂ (Source.IsBlock fs) files blocks)
    (hsizes : ∀ f ∈ files, ∃ data, fs.Contains f.path data ∧ f.size = data.length) :
    files.map (fun f => (f.display, f.size)) = blocks.map Block.listed := by
  induction hblocks with
  | nil => rfl
  | @cons f b files blocks hf _ ih =>
      obtain ⟨hheader, hcontents⟩ := hf
      obtain ⟨data, hdata, hsize⟩ := hsizes f (by simp)
      obtain rfl := hdata.unique hcontents
      rw [List.map_cons, List.map_cons, ih fun g hg => hsizes g (by simp [hg]), Block.listed, hheader,
        hsize]

theorem Source.totalSize_eq_sum (files : List Source) :
    Source.totalSize files = (files.map Source.size).sum := by
  induction files with
  | nil => rfl
  | cons f files ih => simpa [totalSize] using ih

/-- The totals of a report, also of a dry run, are those of its list. -/
theorem Report.totals_ofRun (extension : String) (root output : Path) (files : List Source)
    (progress : Option Progress) (duration : Duration) (completedAt : Timestamp) :
    let report := Report.ofRun extension root output files progress duration completedAt
    report.totalFiles = report.files.length ∧
      report.totalSourceBytes = (report.files.map Prod.snd).sum := by
  refine ⟨(List.length_map _).symm, ?_⟩
  simp only [ofRun, Source.totalSize_eq_sum, List.map_map]
  rfl

namespace Job

variable {job : Job} {fs : FileSystem}

theorem concatenated_of_ok (clock : Clock) {files : List Source} {p : Progress}
    (hfiles : job.discover fs = .ok files)
    (hwrite : (Concatenation.write fs job.output none files).result = .ok p) :
    .concatenated job.output p.filesWritten p.bytesWritten ∈ (job.concatenate fs clock).events := by
  simp only [concatenate, hfiles, hwrite]
  simp

/-- The report of a run that succeeds counts what the output holds, and tells where in it each file is. -/
theorem report_of_concatenate {fs : WellFormedFileSystem} {clock : Clock} {report : Report}
    (hok : (job.concatenate fs clock).result = .ok report) {loc : Location}
    (hout : fs.NamesFile job.output loc) {files : List Source} (hfiles : job.discover fs = .ok files)
    (hother : ∀ f ∈ files, ¬ fs.SameFile f.path job.output) :
    ∃ text room cuts,
      (job.concatenate fs clock).fileSystem.stat job.output = .ok (loc, .file text room) ∧
      report.files = files.map (fun f => (f.display, f.size)) ∧
      report.bytesWritten = text.length ∧
      report.bytesWritten =
        report.totalSourceBytes + (report.files.map fun f => (Utf8.encode f.1).length + 6).sum ∧
      report.totalSourceBytes = (report.files.map Prod.snd).sum ∧
      report.totalFiles = report.files.length ∧ report.totalFiles = cuts.length ∧
      .concatenated job.output report.totalFiles report.bytesWritten ∈
        (job.concatenate fs clock).events ∧
      Report.cut report.files text = (cuts, []) ∧
      List.Forall₂ (fun f c => c.heading = Utf8.encode ("# " ++ f.display ++ "\n\n") ∧
        fs.Contains f.path c.contents ∧ c.closing = Utf8.encode "\n\n") files cuts := by
  obtain ⟨files', p, hfiles', hwrite, rfl, hafter⟩ := concatenate_ok hok
  obtain rfl : files = files' := Except.ok.inj (hfiles.symm.trans hfiles')
  obtain ⟨extension, -, hscan⟩ := discover_eq_ok hfiles
  have hsizes : ∀ f ∈ files, ∃ data, fs.Contains f.path data ∧ f.size = data.length := fun f hf =>
    Scan.contains_of_files hscan hf
  have hsources : ∀ f ∈ files, ∃ l data room,
      fs.stat f.path = .ok (l, .file data room) ∧ l ≠ loc := by
    intro f hf
    obtain ⟨data, ⟨l, room, hstat⟩, -⟩ := hsizes f hf
    exact ⟨l, data, room, hstat, fun hl => hother f hf ((hout.sameFile_iff hstat).mpr hl)⟩
  obtain ⟨blocks, room, hblocks, hfinal⟩ := Concatenation.write_ok hout hsources hwrite
  obtain ⟨text, space, hcounted, hbytes, hcount⟩ := Concatenation.write_counts hout hwrite
  have htext : text = blocks.flatMap Block.bytes := by
    have hread := hout.stat_put text space
    rw [← hcounted, hfinal] at hread
    cases hread.symm.trans (hout.stat_put (blocks.flatMap Block.bytes) room)
    rfl
  subst htext
  have hlisted := Source.listed_of_isBlock hblocks hsizes
  obtain ⟨hlength, htotal⟩ :=
    Report.totals_ofRun _ job.root job.output files (some p) clock.elapsed clock.now
  refine ⟨_, room, blocks.map Block.cut, ?_, rfl, hbytes, ?_, htotal, hlength, ?_, ?_, ?_, ?_⟩
  · rw [hafter, hfinal]
    exact hout.stat_put _ room
  · calc p.bytesWritten
      _ = (blocks.flatMap Block.bytes).length := hbytes
      _ = _ := by
        rw [Block.length_flatMap_bytes, ← hlisted]
        exact congrArg (· + _) htotal.symm
  · exact hblocks.length_eq.trans (List.length_map _).symm
  · have hevent := concatenated_of_ok clock hfiles hwrite
    rwa [hcount] at hevent
  · rw [← Block.cut_flatMap_bytes, ← hlisted]
    rfl
  · rw [List.forall₂_map_right_iff]
    refine hblocks.imp fun f b ⟨hheader, hcontents⟩ => ⟨?_, hcontents, rfl⟩
    rw [← hheader]
    rfl

theorem report_of_concatenate_oldOutput :
    ∃ report text room cuts,
      (rustFilesHere.concatenate oldOutputAndLink zeroClock).result = .ok report ∧
      oldOutputAndLink.NamesFile rustFilesHere.output [Utf8.encode "concat.txt"] ∧
      (rustFilesHere.concatenate oldOutputAndLink zeroClock).fileSystem.stat rustFilesHere.output =
        .ok ([Utf8.encode "concat.txt"], .file text room) ∧
      report.files = [("lib/two.rs", 3), ("one.rs", 3)] ∧
      report.totalSourceBytes = 6 ∧ report.bytesWritten = 34 ∧ text.length = 34 ∧
      Report.cut report.files text = (cuts, []) ∧ cuts.length = 2 := by
  have hlist : (rustFilesHere.concatenate oldOutputAndLink zeroClock).result.toOption.map Report.files =
      some [("lib/two.rs", 3), ("one.rs", 3)] := by decide +kernel
  have hout := oldOutputAndLink_namesFile
  have hdistinct : ∀ files ∈ (rustFilesHere.discover oldOutputAndLink).toOption,
      ∀ f ∈ files, ¬ oldOutputAndLink.SameFile f.path rustFilesHere.output := by decide +kernel
  cases hrun : (rustFilesHere.concatenate oldOutputAndLink zeroClock).result with
  | error f =>
      rw [hrun] at hlist
      cases hlist
  | ok report =>
      rw [hrun] at hlist
      obtain ⟨files, -, hfiles, -⟩ := concatenate_ok hrun
      rw [hfiles] at hdistinct
      obtain ⟨text, room, cuts, hstat, -, hbytes, hwritten, htotal, hfiles', hcuts, -, hcut, -⟩ :=
        report_of_concatenate hrun hout hfiles (hdistinct files rfl)
      have hreported : report.files = [("lib/two.rs", 3), ("one.rs", 3)] := Option.some.inj hlist
      have hsum : report.totalSourceBytes = 6 := by rw [htotal, hreported]; rfl
      have hcount : report.bytesWritten = 34 := by rw [hwritten, hsum, hreported]; rfl
      have htwo : cuts.length = 2 := by rw [← hcuts, hfiles', hreported]; rfl
      exact ⟨report, text, room, cuts, rfl, hout, hstat, hreported, hsum, hcount,
        hbytes.symm.trans hcount, hcut, htwo⟩

end Job

end Collate
