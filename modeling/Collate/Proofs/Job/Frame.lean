import Collate.Proofs.Concatenation.Again
import Collate.Proofs.FileTree.Frame
import Collate.Proofs.FileTree.Written
import Collate.Proofs.Job.Output

/-!
What a run leaves alone, at whatever stage it ends. It changes the tree only through its output, so the tree is
as it was up to the one regular file that the output's path names, over links or not. If the path names none,
or nothing is discovered, the tree is unchanged.
-/
namespace Collate

namespace FileSystem

variable {fs opened : FileSystem} {p : Path} {handle : Output}

/-- What is opened where no regular file is named cannot be changed by writing. -/
theorem eq_of_reaches (h : fs.create p = .ok (opened, handle)) (hnone : ∀ loc, ¬ fs.NamesFile p loc)
    {now : FileSystem} (hnow : handle.Reaches fs now) : now = fs := by
  obtain ⟨loc, room, hnames, -, -⟩ | ⟨-, rfl | rfl, -⟩ := create_cases h
  · exact absurd hnames (hnone loc)
  · cases hnow
    rfl
  · cases hnow
    rfl

end FileSystem

namespace Concatenation

variable {fs : FileSystem} {output : Path}

theorem write_unchanged (hnone : ∀ loc, ¬ fs.NamesFile output loc) (buffer : Option Nat)
    (sources : List Source) : (write fs output buffer sources).fileSystem = fs := by
  cases hcreate : fs.create output with
  | error fault => simp [write, hcreate, failed]
  | ok end_ => exact FileSystem.eq_of_reaches hcreate hnone (write_reaches hcreate buffer sources)

theorem write_differsAt {loc : Location} (hnames : fs.NamesFile output loc) (buffer : Option Nat)
    (sources : List Source) :
    fs.DiffersAt (write fs output buffer sources).fileSystem loc ∧
      ∃ data room, (write fs output buffer sources).fileSystem.stat output =
        .ok (loc, .file data room) := by
  obtain ⟨space, hcreate⟩ := hnames.create
  have hreaches := write_reaches hcreate buffer sources
  generalize (write fs output buffer sources).fileSystem = now at hreaches ⊢
  cases hreaches with
  | file hloc data room =>
      exact ⟨FileSystem.differsAt_put hloc data room, data, room, hnames.stat_put data room⟩

end Concatenation

namespace Job

/-- Whatever becomes of a run, the tree afterwards is the tree before but for the one regular file that the
output's path leads to, or comes to lead to. -/
theorem concatenate_frame (job : Job) (fs : FileSystem) (clock : Clock) :
    ((job.concatenate fs clock).fileSystem = fs ∧
      ((∃ e, job.discover fs = .error e) ∨ ∀ loc, ¬ fs.NamesFile job.output loc)) ∨
    ∃ loc, fs.NamesFile job.output loc ∧
      fs.DiffersAt (job.concatenate fs clock).fileSystem loc ∧
      ∃ data room, (job.concatenate fs clock).fileSystem.stat job.output =
        .ok (loc, .file data room) := by
  cases hfiles : job.discover fs with
  | error e =>
      left
      exact ⟨by simp only [concatenate, hfiles], .inl ⟨e, rfl⟩⟩
  | ok files =>
      have hafter : (job.concatenate fs clock).fileSystem =
          (Concatenation.write fs job.output none files).fileSystem := by
        simp only [concatenate, hfiles]
      rw [hafter]
      by_cases hnames : ∃ loc, fs.NamesFile job.output loc
      · right
        obtain ⟨loc, hloc⟩ := hnames
        exact ⟨loc, hloc, Concatenation.write_differsAt hloc none files⟩
      · left
        have hnone : ∀ loc, ¬ fs.NamesFile job.output loc := fun loc hloc => hnames ⟨loc, hloc⟩
        exact ⟨Concatenation.write_unchanged hnone none files, .inr hnone⟩

/-- Whatever becomes of a run, another one can follow it. -/
theorem wellFormed_concatenate (job : Job) (fs : WellFormedFileSystem) (clock : Clock) :
    (job.concatenate fs clock).fileSystem.root.isWellFormed := by
  cases hfiles : job.discover fs with
  | error e =>
      simp only [concatenate, hfiles]
      exact fs.wellFormed
  | ok files =>
      simp only [concatenate, hfiles]
      cases hcreate : fs.create job.output with
      | error fault =>
          simp only [Concatenation.write, hcreate, Concatenation.failed]
          exact fs.wellFormed
      | ok end_ =>
          exact (fs.reached hcreate (Concatenation.write_reaches hcreate none files)).wellFormed

end Job

end Collate
