import Collate.Run
import Collate.Proofs.Concatenation.Interrupted
import Collate.Proofs.Job.Frame
import Collate.Proofs.Scan.Stops
import Collate.Proofs.Settings.Effective

/-!
The exit status of a run. Its stages come in one order, and the first that fails decides; until the output
has been opened, nothing is changed.
-/
namespace Collate

namespace UsageError

/-- Asking for help or the version is no mistake. -/
def IsRequest (e : UsageError) : Prop :=
  (∃ full, e = .help full) ∨ e = .version

theorem exitCode_of_isRequest {e : UsageError} (h : e.IsRequest) : e.exitCode = 0 := by
  obtain ⟨full, rfl⟩ | rfl := h <;> rfl

theorem exitCode_of_not_isRequest {e : UsageError} (h : ¬ e.IsRequest) : e.exitCode = 1 := by
  cases e with
  | help full => exact absurd (.inl ⟨full, rfl⟩) h
  | version => exact absurd (.inr rfl) h
  | nothingGiven | unknown _ | missingExtension | repeated _ | conflict _ _ | missingValue _
  | unknownFormat _ | invalidValue _ _ _ | unexpectedValue _ _ | notText => rfl

end UsageError

namespace Run

structure WellFormedSurroundings extends Surroundings where
  wellFormed : fileSystem.root.isWellFormed

instance : Coe WellFormedSurroundings Surroundings := ⟨WellFormedSurroundings.toSurroundings⟩

def WellFormedSurroundings.tree (s : WellFormedSurroundings) : WellFormedFileSystem :=
  ⟨s.fileSystem, s.wellFormed⟩

section Stages

variable (s : Surroundings) (arguments : List Bytes)

/-- The arguments can be read, and with the settings that they lead to they give this job. -/
structure Prepares (a : Arguments) (job : Job) : Prop where
  read : Arguments.read arguments = .ok a
  loads : ∃ settings, Settings.Loads s.fileSystem a settings ∧ job = a.job s.fileSystem settings

/-- The search of the job has found these files. -/
structure Discovers (a : Arguments) (job : Job) (files : List Source) : Prop
    extends Prepares s arguments a job where
  searched : ∃ extension, Extension.normalize job.extension = .ok extension ∧
    (job.scan extension).files s.fileSystem job.root = .ok files

/-- The run ends with this status before there is an output. -/
inductive EndsEarly : Nat → Prop where
  | request {e : UsageError} :
      Arguments.read arguments = .error e → e.IsRequest → EndsEarly 0
  | usage {e : UsageError} :
      Arguments.read arguments = .error e → ¬ e.IsRequest → EndsEarly 1
  | settings {a : Arguments} :
      Arguments.read arguments = .ok a →
      (∀ settings, ¬ Settings.Loads s.fileSystem a settings) → EndsEarly 5
  | extension {a : Arguments} {job : Job} {e : Extension.Invalid} :
      Prepares s arguments a job → Extension.normalize job.extension = .error e → EndsEarly 1
  | root {a : Arguments} {job : Job} {extension : String} :
      Prepares s arguments a job → Extension.normalize job.extension = .ok extension →
      (∀ loc es, s.fileSystem.stat job.root ≠ .ok (loc, .dir es)) → EndsEarly 2
  | search {a : Arguments} {job : Job} {extension : String} {loc : Location} {es : Entries}
      {f : Failure} :
      Prepares s arguments a job → Extension.normalize job.extension = .ok extension →
      s.fileSystem.stat job.root = .ok (loc, .dir es) →
      (job.scan extension).files s.fileSystem job.root = .error f → EndsEarly 3
  | planned {a : Arguments} {job : Job} {files : List Source} :
      Discovers s arguments a job files → a.dryRun = true → EndsEarly 0
  | output {a : Arguments} {job : Job} {files : List Source} {fault : IoFault} :
      Discovers s arguments a job files → a.dryRun = false →
      s.fileSystem.create job.output = .error fault → EndsEarly 4

/-- The output of the job has been opened to write these files. -/
structure Opens (job : Job) (files : List Source) (opened : FileSystem) (sink : Sink) : Prop where
  discovers : ∃ a, Discovers s arguments a job files ∧ a.dryRun = false
  created : ∃ handle, s.fileSystem.create job.output = .ok (opened, handle) ∧
    sink = ⟨handle, Sink.defaultCapacity, []⟩

/-- The run ends with this status after its output has been opened: for the first file that is no text,
unless a write is refused before. -/
inductive EndsLate : Nat → Prop where
  | encoding {job : Job} {before after : List Source} {f : Source} {opened now : FileSystem}
      {sink t : Sink} {blocks : List Block} {data : Bytes} :
      Opens s arguments job (before ++ f :: after) opened sink →
      Concatenation.Written opened sink before blocks now t →
      now.Contains f.path data → Utf8.isValid data = false → EndsLate 3
  | refused {job : Job} {before after : List Source} {f : Source} {opened now next : FileSystem}
      {sink t u : Sink} {blocks : List Block} {data : Bytes} {refusal : Refusal} :
      Opens s arguments job (before ++ f :: after) opened sink →
      Concatenation.Written opened sink before blocks now t →
      now.readText f.path = .ok data →
      t.pushAll now (Block.pieces ⟨f.display, data⟩) = (next, u, some refusal) → EndsLate 4
  | unflushed {job : Job} {files : List Source} {opened now : FileSystem} {sink t : Sink}
      {blocks : List Block} {refusal : Refusal} :
      Opens s arguments job files opened sink →
      Concatenation.Written opened sink files blocks now t →
      (t.flush now).2.2 = some refusal → EndsLate 4
  | written {job : Job} {files : List Source} {opened now : FileSystem} {sink t : Sink}
      {blocks : List Block} :
      Opens s arguments job files opened sink →
      Concatenation.Written opened sink files blocks now t →
      (t.flush now).2.2 = none → EndsLate 0

end Stages

section Steps

variable {s : Surroundings} {arguments : List Bytes} {a : Arguments} {job : Job}
  {files : List Source}

theorem run_of_usage {e : UsageError} (h : Arguments.read arguments = .error e) :
    (run s arguments).exitCode = e.exitCode ∧ (run s arguments).fileSystem = s.fileSystem := by
  simp [run, h]

theorem run_of_unloaded (h : Arguments.read arguments = .ok a)
    (hload : ∀ settings, ¬ Settings.Loads s.fileSystem a settings) :
    (run s arguments).exitCode = 5 ∧ (run s arguments).fileSystem = s.fileSystem := by
  cases hsettings : Settings.load s.fileSystem a with
  | ok settings => exact absurd (Settings.load_eq_ok_iff.mp hsettings) (hload settings)
  | error f =>
      obtain ⟨message, rfl⟩ := Settings.load_error hsettings
      simp [run, h, execute, hsettings, Failure.exitCode]

theorem Prepares.ends (h : Prepares s arguments a job) :
    (run s arguments).fileSystem = (a.perform job s.fileSystem s.clock).fileSystem ∧
    (run s arguments).exitCode =
      match (a.perform job s.fileSystem s.clock).result with
      | .ok _ => 0
      | .error f => f.exitCode := by
  obtain ⟨hread, settings, hloads, rfl⟩ := h
  have hload := Settings.load_eq_ok_iff.mpr hloads
  cases hresult : (a.perform (a.job s.fileSystem settings) s.fileSystem s.clock).result <;>
    simp [run, hread, execute, hload, hresult]

theorem Prepares.run_of_undiscovered (h : Prepares s arguments a job) {f : Failure}
    (hfailed : job.discover s.fileSystem = .error f) :
    (run s arguments).exitCode = f.exitCode ∧ (run s arguments).fileSystem = s.fileSystem := by
  obtain ⟨hfs, hcode⟩ := h.ends
  rw [hfs, hcode]
  cases hdry : a.dryRun <;>
    simp [Arguments.perform, hdry, Job.plan, Job.concatenate, hfailed, Except.map]

theorem discover_of_invalid {e : Extension.Invalid}
    (h : Extension.normalize job.extension = .error e) (fs : FileSystem) :
    job.discover fs = .error (.invalidExtension job.extension) := by
  simp [Job.discover, Job.normalized, h, bind, Except.bind]

theorem discover_of_normalize {extension : String}
    (h : Extension.normalize job.extension = .ok extension) (fs : FileSystem) :
    job.discover fs = (job.scan extension).files fs job.root := by
  simp [Job.discover, Job.normalized, h, bind, Except.bind]

theorem Discovers.discover (h : Discovers s arguments a job files) :
    job.discover s.fileSystem = .ok files := by
  obtain ⟨extension, hext, hfiles⟩ := h.searched
  rw [discover_of_normalize hext, hfiles]

theorem Discovers.run_of_dry (h : Discovers s arguments a job files) (hdry : a.dryRun = true) :
    (run s arguments).exitCode = 0 ∧ (run s arguments).fileSystem = s.fileSystem := by
  obtain ⟨hfs, hcode⟩ := h.ends
  rw [hfs, hcode]
  simp [Arguments.perform, hdry, Job.plan, h.discover, Except.map]

theorem Discovers.run_of_write (h : Discovers s arguments a job files) (hdry : a.dryRun = false) :
    (run s arguments).fileSystem =
        (Concatenation.write s.fileSystem job.output none files).fileSystem ∧
    (run s arguments).exitCode =
      match (Concatenation.write s.fileSystem job.output none files).result with
      | .ok _ => 0
      | .error f => f.exitCode := by
  obtain ⟨hfs, hcode⟩ := h.ends
  rw [hfs, hcode]
  cases hwrite : (Concatenation.write s.fileSystem job.output none files).result <;>
    simp [Arguments.perform, hdry, Job.concatenate, h.discover, hwrite, Except.map]

variable {opened : FileSystem} {sink : Sink}

theorem Opens.ends (h : Opens s arguments job files opened sink) :
    (run s arguments).exitCode =
      match (Concatenation.writeFrom job.output opened sink (Progress.start files.length)
        files).result with
      | .ok _ => 0
      | .error f => f.exitCode := by
  obtain ⟨⟨a, hdiscovers, hdry⟩, handle, hcreate, rfl⟩ := h
  rw [(hdiscovers.run_of_write hdry).2, Concatenation.write_of_create hcreate]
  rfl

theorem Opens.contains {s : WellFormedSurroundings} (h : Opens s arguments job files opened sink)
    {before : List Source} {blocks : List Block} {now : FileSystem} {t : Sink}
    (hwritten : Concatenation.Written opened sink before blocks now t) {f : Source}
    (hf : f ∈ files) : ∃ data, now.Contains f.path data := by
  obtain ⟨⟨a, hdiscovers, -⟩, handle, hcreate, rfl⟩ := h
  obtain ⟨extension, -, hfiles⟩ := hdiscovers.searched
  have hsearched : (job.scan extension).files s.tree job.root = .ok files := hfiles
  obtain ⟨data, ⟨loc, room, hstat⟩, -⟩ := Scan.contains_of_files hsearched hf
  obtain ⟨-, hreaches⟩ := hwritten.reaches (FileSystem.create_reaches hcreate)
  obtain ⟨data', room', hnow⟩ := FileSystem.stat_of_reaches hreaches hstat
  exact ⟨data', loc, room', hnow⟩

end Steps

section Ends

variable {s : WellFormedSurroundings} {arguments : List Bytes} {code : Nat}

theorem run_of_endsEarly (h : EndsEarly s arguments code) :
    (run s arguments).exitCode = code ∧ (run s arguments).fileSystem = s.fileSystem := by
  cases h with
  | request hread hrequest =>
      rw [← UsageError.exitCode_of_isRequest hrequest]
      exact run_of_usage hread
  | usage hread hmistake =>
      rw [← UsageError.exitCode_of_not_isRequest hmistake]
      exact run_of_usage hread
  | settings hread hload => exact run_of_unloaded hread hload
  | extension hprepares hinvalid =>
      exact hprepares.run_of_undiscovered (discover_of_invalid hinvalid _)
  | @root a job extension hprepares hext hroot =>
      have hdiscover := discover_of_normalize hext s.fileSystem
      rcases Scan.files_of_noDirectory (s := job.scan extension) hroot with hfailed | hfailed <;>
        exact hprepares.run_of_undiscovered (hdiscover.trans hfailed)
  | @search a job extension loc es f hprepares hext hroot hfailed =>
      have hdirectory : s.tree.stat job.root = .ok (loc, .dir es) := hroot
      obtain ⟨names, hstop, -⟩ := Scan.first_stop hdirectory hfailed
      rw [← hstop.exitCode]
      exact hprepares.run_of_undiscovered ((discover_of_normalize hext _).trans hfailed)
  | planned hdiscovers hdry => exact hdiscovers.run_of_dry hdry
  | output hdiscovers hdry hcreate =>
      obtain ⟨hafter, hcode⟩ := hdiscovers.run_of_write hdry
      rw [hafter, hcode]
      simp only [Concatenation.write, hcreate]
      exact ⟨rfl, rfl⟩

theorem run_of_endsLate (h : EndsLate s arguments code) : (run s arguments).exitCode = code := by
  cases h with
  | @encoding job before after f _ _ _ _ _ _ hopens hwritten hdata hinvalid =>
      obtain ⟨loc, room, hstat⟩ := hdata
      have hread := FileSystem.readText_of_stat hstat
      rw [if_neg (by simp [hinvalid])] at hread
      rw [hopens.ends, (hwritten.read_failed job.output _ after hread).1]
      rfl
  | @refused job before after f _ _ _ _ _ _ _ _ _ hopens hwritten hread hpush =>
      rw [hopens.ends, (hwritten.push_refused job.output _ after hread hpush).1]
      rfl
  | @unflushed job files _ _ _ _ _ _ hopens hwritten hflush =>
      rw [hopens.ends]
      obtain ⟨p, hnone, -⟩ | ⟨refusal, -, hresult⟩ :=
        hwritten.finished job.output (Progress.start files.length)
      · cases hflush.symm.trans hnone
      · rw [hresult]
        rfl
  | @written job files _ _ _ _ _ hopens hwritten hflush =>
      rw [hopens.ends]
      obtain ⟨p, -, hresult⟩ | ⟨refusal, hsome, -⟩ :=
        hwritten.finished job.output (Progress.start files.length)
      · rw [hresult]
      · cases hflush.symm.trans hsome

theorem exists_endsLate {job : Job} {files : List Source}
    {opened : FileSystem} {sink : Sink} (h : Opens s arguments job files opened sink) :
    ∃ code, EndsLate s arguments code := by
  obtain ⟨before, blocks, now, t, hwritten, rfl | ⟨f, after, rfl, hstop⟩⟩ :=
    Concatenation.exists_written opened sink files
  · cases hflush : (t.flush now).2.2 with
    | none => exact ⟨0, .written h hwritten hflush⟩
    | some refusal => exact ⟨4, .unflushed h hwritten hflush⟩
  · rcases hstop with ⟨fault, hread⟩ | ⟨contents, next, u, refusal, hread, hpush⟩
    · obtain ⟨data, hdata⟩ := h.contains hwritten (f := f) (by simp)
      obtain ⟨loc, room, hstat⟩ := hdata
      rw [FileSystem.readText_of_stat hstat] at hread
      split at hread
      · cases hread
      · rename_i hinvalid
        exact ⟨3, .encoding h hwritten ⟨loc, room, hstat⟩ (Bool.eq_false_iff.mpr hinvalid)⟩
    · exact ⟨4, .refused h hwritten hread hpush⟩

/-- Every run ends in one of these ways. -/
theorem exists_ends : ∃ code, EndsEarly s arguments code ∨ EndsLate s arguments code := by
  cases hread : Arguments.read arguments with
  | error e =>
      by_cases hrequest : e.IsRequest
      · exact ⟨0, .inl (.request hread hrequest)⟩
      · exact ⟨1, .inl (.usage hread hrequest)⟩
  | ok a =>
      by_cases hload : ∃ settings, Settings.Loads s.fileSystem a settings
      case neg => exact ⟨5, .inl (.settings hread fun settings h => hload ⟨settings, h⟩)⟩
      obtain ⟨settings, hsettings⟩ := hload
      have hprepares : Prepares s arguments a (a.job s.fileSystem settings) :=
        ⟨hread, settings, hsettings, rfl⟩
      cases hext : Extension.normalize (a.job s.fileSystem settings).extension with
      | error e => exact ⟨1, .inl (.extension hprepares hext)⟩
      | ok extension =>
          by_cases hroot : ∃ loc es,
              s.fileSystem.stat (a.job s.fileSystem settings).root = .ok (loc, .dir es)
          case neg =>
            exact ⟨2, .inl (.root hprepares hext fun loc es h => hroot ⟨loc, es, h⟩)⟩
          obtain ⟨loc, es, hdir⟩ := hroot
          cases hfiles : ((a.job s.fileSystem settings).scan extension).files s.fileSystem
              (a.job s.fileSystem settings).root with
          | error f => exact ⟨3, .inl (.search hprepares hext hdir hfiles)⟩
          | ok files =>
              have hdiscovers : Discovers s arguments a (a.job s.fileSystem settings) files :=
                ⟨hprepares, extension, hext, hfiles⟩
              cases hdry : a.dryRun with
              | true => exact ⟨0, .inl (.planned hdiscovers hdry)⟩
              | false =>
                  cases hcreate : s.fileSystem.create (a.job s.fileSystem settings).output with
                  | error fault => exact ⟨4, .inl (.output hdiscovers hdry hcreate)⟩
                  | ok end_ =>
                      obtain ⟨opened, handle⟩ := end_
                      have hopens : Opens s arguments (a.job s.fileSystem settings) files opened
                          ⟨handle, Sink.defaultCapacity, []⟩ :=
                        ⟨⟨a, hdiscovers, hdry⟩, handle, hcreate, rfl⟩
                      obtain ⟨code, hends⟩ := exists_endsLate hopens
                      exact ⟨code, .inr hends⟩

end Ends

/-- A run in well-formed surroundings leaves a well-formed tree. -/
theorem run_wellFormed (s : WellFormedSurroundings) (arguments : List Bytes) :
    (run s arguments).fileSystem.root.isWellFormed := by
  cases hread : Arguments.read arguments with
  | error e =>
      rw [(run_of_usage hread).2]
      exact s.wellFormed
  | ok a =>
      by_cases hload : ∃ settings, Settings.Loads s.fileSystem a settings
      · obtain ⟨settings, hsettings⟩ := hload
        have hprepares : Prepares s arguments a (a.job s.fileSystem settings) :=
          ⟨hread, settings, hsettings, rfl⟩
        rw [hprepares.ends.1]
        cases hdry : a.dryRun with
        | true => simpa [Arguments.perform, hdry, Job.plan] using s.wellFormed
        | false =>
            simp only [Arguments.perform, hdry, Bool.false_eq_true, ↓reduceIte]
            exact Job.wellFormed_concatenate _ s.tree s.clock
      · rw [(run_of_unloaded hread fun settings h => hload ⟨settings, h⟩).2]
        exact s.wellFormed

def onBadOctets : WellFormedSurroundings where
  fileSystem := Concatenation.badOctetsAndOldOutput
  logFilter := none
  terminal := false
  clock := Job.zeroClock
  wellFormed := Concatenation.badOctetsAndOldOutput.wellFormed

/-- A working directory with nothing but a settings file. -/
def onSettings (settings : String) : WellFormedSurroundings where
  fileSystem := Settings.withSettings settings
  logFilter := none
  terminal := false
  clock := Job.zeroClock
  wellFormed := rfl

def readingSettings : List Bytes :=
  [Utf8.encode "txt", Utf8.encode "--config", Utf8.encode "c.toml"]

/-- The depth is a text. -/
def illTypedFields : Toml.Fields :=
  [("scan", .table .headed [("max_depth", .text "2")])]

theorem not_states_illTypedFields (st : Settings.Stated) :
    ¬ Settings.States illTypedFields st := by
  rintro ⟨-, -, ⟨v, hmember, htyped⟩, -⟩
  obtain rfl : v = some (.text "2") := Settings.member_table.mp hmember
  cases htyped

theorem endsEarly_onSettings {settings : String}
    (h : ∀ fields st, Toml.Fields.read? settings = some fields → ¬ Settings.States fields st) :
    EndsEarly (onSettings settings) readingSettings 5 := by
  have hconfig : (Arguments.read readingSettings).toOption.map Arguments.config =
      some (some (Utf8.encode "c.toml")) := rfl
  cases hread : Arguments.read readingSettings with
  | error e => simp [hread, Except.toOption] at hconfig
  | ok a =>
      have hpath : a.config = some (Utf8.encode "c.toml") := by
        simpa [hread, Except.toOption] using hconfig
      refine .settings hread fun s hloads => ?_
      obtain ⟨st, hsupplied, -⟩ := hloads.effective
      rw [hpath] at hsupplied
      cases hsupplied with
      | file hdocument hstates =>
          exact h _ _ (Settings.holdsDocument_withSettings_iff.mp hdocument) hstates

end Run

end Collate
