import Collate.Proofs.Concatenation
import Collate.Proofs.FileTree.Written

/-!
How far the loop comes. It reads and takes blocks up to the first source that cannot be read, the first block
that is refused, or the end; a source that cannot be read leaves the blocks before it and nothing else.
-/
namespace Collate

namespace Concatenation

/-- The sources have been read and their blocks taken, one after the other, from the first tree and sink to
the second. -/
inductive Written : FileSystem → Sink → List Source → List Block → FileSystem → Sink → Prop where
  | nil (fs : FileSystem) (sink : Sink) : Written fs sink [] [] fs sink
  | cons {fs mid now : FileSystem} {sink t u : Sink} {f : Source} {contents : Bytes}
      {sources : List Source} {blocks : List Block} :
      fs.readText f.path = .ok contents →
      sink.pushAll fs (Block.pieces ⟨f.display, contents⟩) = (mid, t, none) →
      Written mid t sources blocks now u →
      Written fs sink (f :: sources) (⟨f.display, contents⟩ :: blocks) now u

section Loop

variable {fs now : FileSystem} {sink t : Sink} {before sources : List Source}
  {blocks : List Block}

/-- After some sources have been written the loop goes on with the others. -/
theorem Written.writeFrom (h : Written fs sink before blocks now t) (output : Path) (p : Progress)
    (after : List Source) : ∃ q,
      (writeFrom output fs sink p (before ++ after)).fileSystem =
        (writeFrom output now t q after).fileSystem ∧
      (writeFrom output fs sink p (before ++ after)).result =
        (writeFrom output now t q after).result := by
  induction h generalizing p with
  | nil fs sink => exact ⟨p, rfl, rfl⟩
  | cons hread hpush _ ih =>
      obtain ⟨q, hfs, hresult⟩ := ih (p.advance _ _)
      refine ⟨q, ?_, ?_⟩
      · simp only [List.cons_append, Concatenation.writeFrom, hread, hpush]
        exact hfs
      · simp only [List.cons_append, Concatenation.writeFrom, hread, hpush]
        exact hresult

/-- The loop comes to its end, to a source that cannot be read or to a block that is refused. -/
theorem exists_written (fs : FileSystem) (sink : Sink) (sources : List Source) :
    ∃ before blocks now t, Written fs sink before blocks now t ∧
      (sources = before ∨ ∃ f after, sources = before ++ f :: after ∧
        ((∃ fault, now.readText f.path = .error fault) ∨
          ∃ contents next u refusal, now.readText f.path = .ok contents ∧
            t.pushAll now (Block.pieces ⟨f.display, contents⟩) = (next, u, some refusal))) := by
  induction sources generalizing fs sink with
  | nil => exact ⟨[], [], fs, sink, .nil fs sink, .inl rfl⟩
  | cons f sources ih =>
      have hhere := Written.nil fs sink
      cases hread : fs.readText f.path with
      | error fault => exact ⟨[], [], fs, sink, hhere, .inr ⟨f, sources, rfl, .inl ⟨fault, hread⟩⟩⟩
      | ok contents =>
          cases hpush : sink.pushAll fs (Block.pieces ⟨f.display, contents⟩) with
          | mk mid rest =>
              obtain ⟨u, refusal⟩ := rest
              cases refusal with
              | some refusal =>
                  exact ⟨[], [], fs, sink, hhere,
                    .inr ⟨f, sources, rfl, .inr ⟨contents, mid, u, refusal, hread, hpush⟩⟩⟩
              | none =>
                  obtain ⟨before, blocks, now, t, hwritten, hstop⟩ := ih mid u
                  refine ⟨f :: before, _, now, t, .cons hread hpush hwritten, ?_⟩
                  exact hstop.imp (fun h => by rw [h]) fun ⟨g, after, h, hg⟩ =>
                    ⟨g, after, by rw [h, List.cons_append], hg⟩

variable {f : Source} (output : Path) (p : Progress)

theorem Written.read_failed (h : Written fs sink before blocks now t) (after : List Source)
    {fault : IoFault} (hread : now.readText f.path = .error fault) :
    (Concatenation.writeFrom output fs sink p (before ++ f :: after)).result =
        .error (.ofRead f.path fault) ∧
      (Concatenation.writeFrom output fs sink p (before ++ f :: after)).fileSystem =
        (t.flush now).1 := by
  obtain ⟨q, hfs, hresult⟩ := h.writeFrom output p (f :: after)
  rw [hfs, hresult]
  simp only [Concatenation.writeFrom, hread]
  exact ⟨rfl, rfl⟩

theorem Written.push_refused (h : Written fs sink before blocks now t) (after : List Source)
    {contents : Bytes} {next : FileSystem} {u : Sink} {refusal : Refusal}
    (hread : now.readText f.path = .ok contents)
    (hpush : t.pushAll now (Block.pieces ⟨f.display, contents⟩) = (next, u, some refusal)) :
    (Concatenation.writeFrom output fs sink p (before ++ f :: after)).result =
        .error (.unwritable output (.refused refusal)) ∧
      (Concatenation.writeFrom output fs sink p (before ++ f :: after)).fileSystem =
        (u.flush next).1 := by
  obtain ⟨q, hfs, hresult⟩ := h.writeFrom output p (f :: after)
  rw [hfs, hresult]
  simp only [Concatenation.writeFrom, hread, hpush]
  exact ⟨rfl, rfl⟩

theorem Written.finished (h : Written fs sink before blocks now t) :
    (∃ q, (t.flush now).2.2 = none ∧
        (Concatenation.writeFrom output fs sink p before).result = .ok q) ∨
      ∃ refusal, (t.flush now).2.2 = some refusal ∧
        (Concatenation.writeFrom output fs sink p before).result =
          .error (.unwritable output (.refused refusal)) := by
  obtain ⟨q, -, hresult⟩ := h.writeFrom output p []
  rw [List.append_nil] at hresult
  rw [hresult]
  cases hflush : t.flush now with
  | mk next rest =>
      obtain ⟨u, refusal⟩ := rest
      cases refusal with
      | none => exact .inl ⟨q, rfl, by simp only [Concatenation.writeFrom, hflush]⟩
      | some refusal =>
          exact .inr ⟨refusal, rfl, by simp only [Concatenation.writeFrom, hflush, failed]⟩

theorem Written.finished_leaves (h : Written fs sink before blocks now t) :
    (Concatenation.writeFrom output fs sink p before).fileSystem = (t.flush now).1 := by
  obtain ⟨q, hfs, -⟩ := h.writeFrom output p []
  rw [List.append_nil] at hfs
  rw [hfs]
  simp only [Concatenation.writeFrom]
  split
  · rename_i next u hflush
    rw [hflush]
  · rename_i next u refusal hflush
    rw [hflush]
    rfl

theorem Written.reaches (h : Written fs sink before blocks now t) {base : FileSystem}
    (hreaches : sink.output.Reaches base fs) :
    t.output = sink.output ∧ sink.output.Reaches base now := by
  induction h with
  | nil fs sink => exact ⟨rfl, hreaches⟩
  | @cons fs mid now sink t u f contents _ _ _ hpush _ ih =>
      obtain ⟨ho, hmid⟩ := Sink.keeps_pushAll hreaches (Block.pieces ⟨f.display, contents⟩)
      rw [hpush] at ho hmid
      rw [← ho] at hmid ⊢
      exact ih hmid

end Loop

end Concatenation

/-- The block that a source stands for, as far as it can be read in this tree. -/
def Source.Reads (fs : FileSystem) (f : Source) (b : Block) : Prop :=
  b.header = f.display ∧ fs.readText f.path = .ok b.contents

namespace Concatenation

section Readable

variable {fs : FileSystem} {loc : Location} {a : Bytes} {r : Option Nat}

theorem exists_blocks {sources : List Source}
    (h : ∀ f ∈ sources, ∃ data, fs.readText f.path = .ok data) :
    ∃ blocks, List.Forall₂ (Source.Reads fs) sources blocks := by
  induction sources with
  | nil => exact ⟨[], .nil⟩
  | cons f sources ih =>
      obtain ⟨data, hdata⟩ := h f (by simp)
      obtain ⟨blocks, hblocks⟩ := ih fun g hg => h g (by simp [hg])
      exact ⟨⟨f.display, data⟩ :: blocks, .cons ⟨rfl, hdata⟩ hblocks⟩

theorem exists_first_unreadable {sources : List Source} {f : Source} (hf : f ∈ sources)
    (h : ∀ data, fs.readText f.path ≠ .ok data) :
    ∃ before g after, sources = before ++ g :: after ∧
      (∀ g ∈ before, ∃ data, fs.readText g.path = .ok data) ∧
      ∀ data, fs.readText g.path ≠ .ok data := by
  induction sources with
  | nil => simp at hf
  | cons g sources ih =>
      cases hread : fs.readText g.path with
      | error fault => exact ⟨[], g, sources, rfl, by simp, by simp [hread]⟩
      | ok data =>
          have hrest : f ∈ sources := by
            rcases List.mem_cons.mp hf with rfl | hf
            · exact absurd hread (h data)
            · exact hf
          obtain ⟨before, k, after, rfl, hbefore, hk⟩ := ih hrest
          exact ⟨g :: before, k, after, rfl, by simpa [hread] using hbefore, hk⟩

/-- Sources that can be read are written one after the other, if there is room for their blocks. -/
theorem written_of_reads (hloc : fs.root.Writable loc) {before : List Source} {blocks : List Block}
    (hblocks : List.Forall₂ (Source.Reads fs) before blocks)
    (hother : ∀ f ∈ before, (fs.put loc (.file a r)).resolve .follow f.path ≠ .ok (.found loc))
    {now : FileSystem} {sink : Sink} {text : Bytes} (h : sink.Holds fs loc now text)
    (hroom : now.HasRoom loc (text ++ blocks.flatMap Block.bytes).length) :
    ∃ next t, Written now sink before blocks next t ∧
      t.Holds fs loc next (text ++ blocks.flatMap Block.bytes) ∧ next.limit loc = now.limit loc := by
  induction hblocks generalizing now sink text with
  | nil => exact ⟨now, sink, .nil now sink, by simpa using h, rfl⟩
  | @cons f b before blocks hf _ ih =>
      obtain ⟨header, contents⟩ := b
      obtain ⟨rfl, hcontents⟩ := hf
      have hread : now.readText f.path = .ok contents := by
        obtain ⟨-, data, room, rfl, -⟩ := h
        have havoids := hother f (by simp)
        rw [FileSystem.resolve_put_put hloc a data r room] at havoids
        exact (FileSystem.readText_put_eq_ok hloc havoids).mpr hcontents
      rw [List.flatMap_cons, ← List.append_assoc] at hroom ⊢
      have hfirst : now.HasRoom loc (text ++ (Block.pieces ⟨f.display, contents⟩).flatten).length := by
        intro most hmost
        have hle := hroom most hmost
        rw [Block.flatten_pieces]
        rw [List.length_append] at hle
        omega
      obtain ⟨mid, u, hpush⟩ := Sink.pushAll_fits h hfirst
      have hmid := Sink.holds_pushAll h hpush
      rw [Block.flatten_pieces] at hmid
      have hlimit := Sink.limit_pushAll h.1 hpush
      obtain ⟨next, t, hwritten, hnext, hsame⟩ := ih (fun g hg => hother g (by simp [hg])) hmid
        fun most hmost => hroom most (hlimit ▸ hmost)
      exact ⟨next, t, .cons hread hpush hwritten, hnext, hsame.trans hlimit⟩

/-- What was taken stands in the file, as soon as the rest of it is written out. -/
theorem flush_of_holds {now next : FileSystem} {t : Sink} {text : Bytes}
    (h : t.Holds fs loc next text) (hlimit : next.limit loc = now.limit loc)
    (hroom : now.HasRoom loc text.length) :
    (t.flush next).2.2 = none ∧ ∃ left, (t.flush next).1 = fs.put loc (.file text left) := by
  have hflush := Sink.flush_fits h fun most hmost => hroom most (hlimit ▸ hmost)
  obtain ⟨-, left, hfinal⟩ := Sink.flush_accepted h (Prod.ext rfl (Prod.ext rfl hflush))
  exact ⟨hflush, left, hfinal⟩

end Readable

section Write

variable {fs opened : FileSystem} {output : Path} {buffer : Option Nat} {sources : List Source}
  {loc : Location}

theorem write_of_create {handle : Output} (h : fs.create output = .ok (opened, handle)) :
    write fs output buffer sources =
      writeFrom output opened ⟨handle, Sink.capacityFor buffer, []⟩
        (Progress.start sources.length) sources := by
  simp only [write, h]

theorem opened_file (h : fs.create output = .ok (opened, .file loc)) :
    fs.NamesFile output loc ∧ ∃ room, opened = fs.put loc (.file [] room) := by
  obtain ⟨l, room, hnames, hl, rfl⟩ | ⟨-, ho, -⟩ := FileSystem.create_cases h
  · obtain rfl := Output.file.inj hl
    exact ⟨hnames, room, rfl⟩
  · simp at ho

theorem avoids_output (h : fs.create output = .ok (opened, .file loc)) {p : Path}
    (hother : ¬ opened.SameFile p output) : opened.resolve .follow p ≠ .ok (.found loc) := by
  obtain ⟨hnames, room, rfl⟩ := opened_file h
  intro hres
  have hfile := FileSystem.get?_put_self fs loc (.file [] room)
  exact hother ⟨loc, _, FileSystem.stat_eq_ok_iff.mpr ⟨hres, hfile⟩, hnames.stat_put [] room⟩

section Opened

variable (buffer) (hcreate : fs.create output = .ok (opened, .file loc))
  (hother : ∀ f ∈ sources, ¬ opened.SameFile f.path output)
include hcreate hother

/-- Sources at the start of the list that can be read are written, and stand in the file once it is flushed. -/
theorem written_start {before : List Source} {blocks : List Block} (hinit : before <+: sources)
    (hblocks : List.Forall₂ (Source.Reads fs) before blocks)
    (hroom : opened.HasRoom loc (blocks.flatMap Block.bytes).length) :
    ∃ next t, Written opened ⟨.file loc, Sink.capacityFor buffer, []⟩ before blocks next t ∧
      t.Holds fs loc next (blocks.flatMap Block.bytes) ∧ (t.flush next).2.2 = none ∧
      ∃ left, (t.flush next).1 = fs.put loc (.file (blocks.flatMap Block.bytes) left) := by
  obtain ⟨hnames, room, rfl⟩ := opened_file hcreate
  have hempty : Sink.Holds fs loc (fs.put loc (.file [] room))
      ⟨.file loc, Sink.capacityFor buffer, []⟩ [] := ⟨rfl, [], room, rfl, rfl⟩
  have havoids : ∀ f ∈ before, (fs.put loc (.file [] room)).resolve .follow f.path ≠
      .ok (.found loc) := fun f hf => avoids_output hcreate (hother f (hinit.subset hf))
  obtain ⟨next, t, hwritten, hholds, hlimit⟩ :=
    written_of_reads hnames.writable hblocks havoids hempty (by simpa using hroom)
  rw [List.nil_append] at hholds
  exact ⟨next, t, hwritten, hholds, flush_of_holds hholds hlimit hroom⟩

theorem write_isOk_of_reads {blocks : List Block}
    (hblocks : List.Forall₂ (Source.Reads fs) sources blocks)
    (hroom : opened.HasRoom loc (blocks.flatMap Block.bytes).length) :
    ∃ p, (write fs output buffer sources).result = .ok p := by
  obtain ⟨next, t, hwritten, -, hflush, -⟩ :=
    written_start buffer hcreate hother List.prefix_rfl hblocks hroom
  rw [write_of_create hcreate]
  obtain ⟨p, -, hok⟩ | ⟨refusal, hrefused, -⟩ :=
    hwritten.finished output (Progress.start sources.length)
  · exact ⟨p, hok⟩
  · cases hflush.symm.trans hrefused

theorem write_of_unreadable {before after : List Source} {f : Source} {blocks : List Block}
    (hsources : sources = before ++ f :: after)
    (hblocks : List.Forall₂ (Source.Reads fs) before blocks)
    (hroom : opened.HasRoom loc (blocks.flatMap Block.bytes).length)
    (hunread : ∀ data, fs.readText f.path ≠ .ok data) :
    ∃ fault left, opened.readText f.path = .error fault ∧
      (fault.isInvalidData ↔ ∃ data, fs.Contains f.path data ∧ Utf8.isValid data = false) ∧
      (write fs output buffer sources).result = .error (.ofRead f.path fault) ∧
      (write fs output buffer sources).fileSystem.stat output =
        .ok (loc, .file (blocks.flatMap Block.bytes) left) := by
  obtain ⟨next, t, hwritten, hholds, -, left, hfinal⟩ := written_start buffer hcreate
    hother (by rw [hsources]; exact List.prefix_append _ _) hblocks hroom
  have havoids := avoids_output hcreate (hother f (by simp [hsources]))
  obtain ⟨hnames, room, rfl⟩ := opened_file hcreate
  have hloc := hnames.writable
  cases hread : (fs.put loc (.file [] room)).readText f.path with
  | ok data => exact absurd ((FileSystem.readText_put_eq_ok hloc havoids).mp hread) (hunread data)
  | error fault =>
      have hread' : next.readText f.path = .error fault := by
        obtain ⟨-, data, space, rfl, -⟩ := hholds
        rw [FileSystem.readText_put_put hloc havoids, hread]
      obtain ⟨hresult, hafter⟩ := hwritten.read_failed output
        (Progress.start sources.length) after hread'
      rw [← hsources] at hresult hafter
      rw [write_of_create hcreate, hafter, hfinal]
      refine ⟨fault, left, rfl, ?_, hresult, hnames.stat_put _ left⟩
      simp only [FileSystem.isInvalidData_of_readText hread,
        FileSystem.contains_put_iff hloc havoids]

end Opened

/-- An output that cannot be made stops a run before any source counts. Where it can be made and has room, a
run fails for the first source that cannot be read as text, and leaves the blocks of those before it. -/
theorem write_up_to_unreadable (fs : FileSystem) (output : Path) (buffer : Option Nat)
    (sources : List Source) :
    (∀ fault, fs.create output = .error fault →
      (write fs output buffer sources).result = .error (.unwritable output fault) ∧
      (write fs output buffer sources).fileSystem = fs ∧
      ∀ others, write fs output buffer others = write fs output buffer sources) ∧
    ∀ opened loc, fs.create output = .ok (opened, .file loc) →
      (∀ f ∈ sources, ¬ opened.SameFile f.path output) →
      (∀ before blocks, before <+: sources → List.Forall₂ (Source.Reads fs) before blocks →
        opened.HasRoom loc (blocks.flatMap Block.bytes).length) →
      ((∃ e, (write fs output buffer sources).result = .error e) ↔
        ∃ f ∈ sources, ∀ data, fs.readText f.path ≠ .ok data) ∧
      ∀ before f after, sources = before ++ f :: after →
        (∀ g ∈ before, ∃ data, fs.readText g.path = .ok data) →
        (∀ data, fs.readText f.path ≠ .ok data) →
        ((∃ data, fs.Contains f.path data ∧ Utf8.isValid data = false) ∧
            (write fs output buffer sources).result = .error (.invalidEncoding f.path) ∨
          (¬ ∃ data, fs.Contains f.path data ∧ Utf8.isValid data = false) ∧
            ∃ fault, opened.readText f.path = .error fault ∧
              (write fs output buffer sources).result = .error (.unreadable f.path fault)) ∧
        ∃ blocks left, List.Forall₂ (Source.Reads fs) before blocks ∧
          (write fs output buffer sources).fileSystem.stat output =
            .ok (loc, .file (blocks.flatMap Block.bytes) left) := by
  refine ⟨fun fault hfault => ?_, fun opened loc hcreate hother hroom => ?_⟩
  · simp only [write, hfault]
    exact ⟨rfl, rfl, fun _ => trivial⟩
  have hstop {before after : List Source} {f : Source} (hsources : sources = before ++ f :: after)
      (hread : ∀ g ∈ before, ∃ data, fs.readText g.path = .ok data)
      (hunread : ∀ data, fs.readText f.path ≠ .ok data) :
      ∃ blocks fault left, List.Forall₂ (Source.Reads fs) before blocks ∧
        opened.readText f.path = .error fault ∧
        (fault.isInvalidData ↔ ∃ data, fs.Contains f.path data ∧ Utf8.isValid data = false) ∧
        (write fs output buffer sources).result = .error (.ofRead f.path fault) ∧
        (write fs output buffer sources).fileSystem.stat output =
          .ok (loc, .file (blocks.flatMap Block.bytes) left) := by
    obtain ⟨blocks, hblocks⟩ := exists_blocks hread
    have hinit : before <+: sources := ⟨f :: after, hsources.symm⟩
    obtain ⟨fault, left, hafter⟩ := write_of_unreadable buffer hcreate hother hsources
      hblocks (hroom before blocks hinit hblocks) hunread
    exact ⟨blocks, fault, left, hblocks, hafter⟩
  refine ⟨⟨?_, ?_⟩, fun before f after hsources hread hunread => ?_⟩
  · rintro ⟨e, he⟩
    by_contra hall
    push Not at hall
    obtain ⟨blocks, hblocks⟩ := exists_blocks hall
    obtain ⟨p, hok⟩ := write_isOk_of_reads buffer hcreate hother hblocks
      (hroom sources blocks List.prefix_rfl hblocks)
    cases he.symm.trans hok
  · rintro ⟨f, hf, hunread⟩
    obtain ⟨before, g, after, hsources, hread, hg⟩ := exists_first_unreadable hf hunread
    obtain ⟨-, fault, -, -, -, -, hresult, -⟩ := hstop hsources hread hg
    exact ⟨_, hresult⟩
  · obtain ⟨blocks, fault, left, hblocks, hfault, hinvalid, hresult, hstat⟩ :=
      hstop hsources hread hunread
    refine ⟨?_, blocks, left, hblocks, hstat⟩
    rw [← hinvalid, hresult]
    cases hdata : fault.isInvalidData
    · exact .inr ⟨by simp, fault, hfault, by simp [Failure.ofRead, hdata]⟩
    · exact .inl ⟨rfl, by simp [Failure.ofRead, hdata]⟩

/-- Two texts, octets that are no text, and an output longer than what replaces it. -/
def badOctetsAndOldOutput : WellFormedFileSystem where
  root := .dir [
    (Utf8.encode "a.txt", .file (Utf8.encode "one") none),
    (Utf8.encode "b.txt", .file [0xFF] none),
    (Utf8.encode "all.txt", .file (Utf8.encode "# much/longer.txt\n\nan earlier run\n\n") none)]
  cwd := []
  wellFormed := rfl

abbrev allTxt : Path := Utf8.encode "all.txt"

def sourceAt (name : String) : Source :=
  ⟨Utf8.encode name, Utf8.encode name, 0⟩

def readableThenBad : List Source :=
  [sourceAt "a.txt", sourceAt "a.txt", sourceAt "b.txt", sourceAt "none.txt"]

theorem write_up_to_unreadable_badOctets :
    (∃ fault, badOctetsAndOldOutput.create (Utf8.encode "none/all.txt") = .error fault ∧
      (write badOctetsAndOldOutput (Utf8.encode "none/all.txt") none readableThenBad).result =
        .error (.unwritable (Utf8.encode "none/all.txt") fault)) ∧
    ∃ opened loc, badOctetsAndOldOutput.create allTxt = .ok (opened, .file loc) ∧
      (∀ f ∈ readableThenBad, ¬ opened.SameFile f.path allTxt) ∧
      (write badOctetsAndOldOutput allTxt (some 1) readableThenBad).result =
        .error (.invalidEncoding (Utf8.encode "b.txt")) ∧
      ∃ blocks left,
        List.Forall₂ (Source.Reads badOctetsAndOldOutput)
          [sourceAt "a.txt", sourceAt "a.txt"] blocks ∧
        (write badOctetsAndOldOutput allTxt (some 1) readableThenBad).fileSystem.stat allTxt =
          .ok (loc, .file (blocks.flatMap Block.bytes) left) := by
  have hmissing : badOctetsAndOldOutput.create (Utf8.encode "none/all.txt") =
      .error (.refused .notFound) := rfl
  obtain ⟨hfault, -, -⟩ := (write_up_to_unreadable badOctetsAndOldOutput
    (Utf8.encode "none/all.txt") none readableThenBad).1 _ hmissing
  refine ⟨⟨_, hmissing, hfault⟩, ?_⟩
  have hcreate : badOctetsAndOldOutput.create allTxt =
      .ok (badOctetsAndOldOutput.put [allTxt] (.file [] none), .file [allTxt]) := rfl
  have hother : ∀ f ∈ readableThenBad,
      ¬ (badOctetsAndOldOutput.put [allTxt] (.file [] none)).SameFile f.path allTxt := by
    decide +kernel
  have hbad : badOctetsAndOldOutput.Contains (Utf8.encode "b.txt") [0xFF] :=
    ⟨[Utf8.encode "b.txt"], none, rfl⟩
  obtain ⟨-, hstop⟩ := (write_up_to_unreadable badOctetsAndOldOutput allTxt (some 1)
    readableThenBad).2 _ _ hcreate hother fun _ _ _ _ most hmost => by cases hmost
  obtain ⟨hinvalid | ⟨hvalid, -⟩, hleft⟩ := hstop [sourceAt "a.txt", sourceAt "a.txt"]
    (sourceAt "b.txt") [sourceAt "none.txt"] rfl (by simpa using ⟨Utf8.encode "one", rfl⟩)
    (by intro data h; cases h)
  · exact ⟨_, _, hcreate, hother, hinvalid.2, hleft⟩
  · exact absurd ⟨_, hbad, rfl⟩ hvalid

end Write

end Concatenation

end Collate
