import Collate.Proofs.Concatenation.Interrupted
import Collate.Proofs.Sink.Bounded

/-!
Concatenation into an output that takes so many octets and no more. Whatever is held back on the way, a run
succeeds only if the output takes all blocks, and what the output has received in the end are the first
octets of the blocks. No block is counted as written that is lost at the last flush.
-/
namespace Collate.Concatenation

/-- What a run over the sources has read of them, and how it ends, if its output takes so many octets. -/
inductive Outcome (output : Path) (most : Nat) (opened : FileSystem) (sink : Sink)
    (sources : List Source) : List Block → Except Failure Progress → Prop where
  | done {blocks : List Block} {now : FileSystem} {t : Sink} {p : Progress} :
      Written opened sink sources blocks now t →
      (blocks.flatMap Block.bytes).length ≤ most →
      Outcome output most opened sink sources blocks (.ok p)
  | unflushed {blocks : List Block} {now : FileSystem} {t : Sink} :
      Written opened sink sources blocks now t →
      most < (blocks.flatMap Block.bytes).length →
      Outcome output most opened sink sources blocks (.error (.unwritable output (.refused .noSpace)))
  | refused {before : List Source} {blocks : List Block} {now : FileSystem} {t : Sink} {f : Source}
      {b : Block} :
      Written opened sink before blocks now t → before ++ [f] <+: sources → f.Reads now b →
      most < ((blocks ++ [b]).flatMap Block.bytes).length →
      Outcome output most opened sink sources (blocks ++ [b])
        (.error (.unwritable output (.refused .noSpace)))
  | unread {before : List Source} {blocks : List Block} {now : FileSystem} {t : Sink} {f : Source}
      {fault : IoFault} :
      Written opened sink before blocks now t → before ++ [f] <+: sources →
      now.readText f.path = .error fault →
      Outcome output most opened sink sources blocks (.error (.ofRead f.path fault))

section Loop

variable {o : Output} {most : Nat} {output : Path} {fs now : FileSystem} {sink t : Sink}
  {before sources : List Source} {blocks : List Block}

/-- The blocks that were taken are behind all that was pushed before. -/
theorem Written.fills (h : Written fs sink before blocks now t) {text : Bytes}
    (hfills : sink.Fills o most fs text) :
    t.Fills o most now (text ++ blocks.flatMap Block.bytes) := by
  induction h generalizing text with
  | nil fs sink => simpa using hfills
  | @cons fs mid now sink u t f contents sources blocks _ hpush _ ih =>
      have hpushed := Sink.fills_pushAll hfills (Block.pieces ⟨f.display, contents⟩)
      rw [hpush, Block.flatten_pieces] at hpushed
      cases hpushed with
      | taken hmid =>
          rw [List.flatMap_cons, ← List.append_assoc]
          exact ih hmid

/-- However a run ends, the output has the first octets of the blocks that were read, as many as it takes. -/
theorem writeFrom_bounded (h : sink.Fills o most now []) (p : Progress) (sources : List Source) :
    ∃ read, Outcome output most now sink sources read (writeFrom output now sink p sources).result ∧
      o.received (writeFrom output now sink p sources).fileSystem =
        (read.flatMap Block.bytes).take most := by
  obtain ⟨before, blocks, next, t, hwritten, hstop⟩ := exists_written now sink sources
  have hfills : t.Fills o most next (blocks.flatMap Block.bytes) := hwritten.fills h
  rcases hstop with rfl | ⟨f, after, rfl, ⟨fault, hread⟩ | ⟨contents, mid, u, refusal, hread, hpush⟩⟩
  · obtain ⟨hflush, hreceived⟩ := Sink.flush_bounded hfills
    refine ⟨blocks, ?_, by rw [hwritten.finished_leaves output p, hreceived]⟩
    obtain ⟨q, hnone, hresult⟩ | ⟨refusal, hsome, hresult⟩ := hwritten.finished output p
    · rw [hresult]
      refine .done hwritten (Nat.le_of_not_lt fun hmost => ?_)
      rw [hflush, if_neg (Nat.not_le.mpr hmost)] at hnone
      cases hnone
    · rw [hflush] at hsome
      split at hsome
      · cases hsome
      · rename_i hlong
        obtain rfl := Option.some.inj hsome
        rw [hresult]
        exact .unflushed hwritten (Nat.lt_of_not_le hlong)
  · obtain ⟨hresult, hleaves⟩ := hwritten.read_failed output p after hread
    rw [hresult, hleaves]
    exact ⟨blocks, .unread hwritten ⟨after, by simp⟩ hread, (Sink.flush_bounded hfills).2⟩
  · obtain ⟨hresult, hleaves⟩ := hwritten.push_refused output p after hread hpush
    have hpushed := Sink.fills_pushAll hfills (Block.pieces ⟨f.display, contents⟩)
    let b : Block := ⟨f.display, contents⟩
    have hbytes : (blocks ++ [b]).flatMap Block.bytes =
        blocks.flatMap Block.bytes ++ b.pieces.flatten := by
      rw [Block.flatten_pieces, List.flatMap_append, List.flatMap_singleton]
    rw [hpush, ← hbytes] at hpushed
    rw [hresult, hleaves]
    cases hpushed with
    | refused hmost hfull =>
        refine ⟨blocks ++ [b], .refused hwritten ⟨after, by simp⟩ ⟨rfl, hread⟩ hmost, ?_⟩
        rw [(Sink.flush_bounded hfull).2, List.take_take, Nat.min_self]

end Loop

section Apart

variable {fs opened now : FileSystem} {output : Path} {o : Output} {most : Nat} {sink t : Sink}
  {before sources : List Source} {blocks : List Block}

/-- A source that is not the output reads the same throughout a run, and as before it if it is text. -/
theorem readText_of_reaches (hcreate : fs.create output = .ok (opened, o)) (hreaches : o.Reaches fs now)
    {p : Path} (hother : ¬ opened.SameFile p output) :
    now.readText p = opened.readText p ∧
      ∀ data, opened.readText p = .ok data ↔ fs.readText p = .ok data := by
  obtain ⟨loc, room, hnames, rfl, rfl⟩ | ⟨rfl, rfl | rfl, -⟩ := FileSystem.create_cases hcreate
  · have havoids := avoids_output hcreate hother
    cases hreaches with
    | file hloc data left =>
        exact ⟨FileSystem.readText_put_put hloc havoids data left,
          fun text => FileSystem.readText_put_eq_ok hloc havoids⟩
  · cases hreaches
    exact ⟨rfl, fun _ => Iff.rfl⟩
  · cases hreaches
    exact ⟨rfl, fun _ => Iff.rfl⟩

/-- What cannot be read once the output is open could not be read before. -/
theorem readText_ne_ok (hcreate : fs.create output = .ok (opened, o)) {p : Path}
    (hother : ¬ opened.SameFile p output) {fault : IoFault} (h : opened.readText p = .error fault)
    (data : Bytes) : fs.readText p ≠ .ok data := by
  intro hdata
  have hsame := (readText_of_reaches hcreate (FileSystem.create_reaches hcreate) hother).2 data
  cases h.symm.trans (hsame.mpr hdata)

theorem Written.reads (hcreate : fs.create output = .ok (opened, o)) {start : FileSystem}
    (h : Written start sink before blocks now t) (ho : sink.output = o) (hreaches : o.Reaches fs start)
    (hother : ∀ f ∈ before, ¬ opened.SameFile f.path output) :
    List.Forall₂ (Source.Reads fs) before blocks := by
  induction h with
  | nil fs sink => exact .nil
  | @cons start mid now sink u t f contents sources blocks hread hpush _ ih =>
      subst ho
      obtain ⟨hsame, hbefore⟩ := readText_of_reaches hcreate hreaches (hother f (by simp))
      obtain ⟨ho, hmid⟩ := Sink.keeps_pushAll hreaches (Block.pieces ⟨f.display, contents⟩)
      rw [hpush] at ho hmid
      exact .cons ⟨rfl, (hbefore contents).mp (hsame.symm.trans hread)⟩
        (ih ho hmid fun g hg => hother g (by simp [hg]))

theorem reads_initial {more : List Source} {others : List Block}
    (h : List.Forall₂ (Source.Reads fs) before blocks)
    (h' : List.Forall₂ (Source.Reads fs) more others) (hinit : before <+: more) : blocks <+: others := by
  induction h generalizing more others with
  | nil => exact List.nil_prefix
  | @cons f b before blocks hf _ ih =>
      cases h' with
      | nil => simp at hinit
      | @cons g c more others hg hmore =>
          obtain ⟨rfl, hrest⟩ := List.cons_prefix_cons.mp hinit
          obtain ⟨header, contents⟩ := b
          obtain ⟨header', contents'⟩ := c
          obtain ⟨rfl, hcontents⟩ := hf
          obtain ⟨rfl, hcontents'⟩ := hg
          obtain rfl := Except.ok.inj (hcontents.symm.trans hcontents')
          exact List.cons_prefix_cons.mpr ⟨rfl, ih hmore hrest⟩

theorem exists_text_of_mem (h : List.Forall₂ (Source.Reads fs) sources blocks) {f : Source}
    (hf : f ∈ sources) : ∃ data, fs.readText f.path = .ok data := by
  induction h with
  | nil => cases hf
  | cons hread _ ih =>
      rcases List.mem_cons.mp hf with rfl | hf
      · exact ⟨_, hread.2⟩
      · exact ih hf

/-- How a run ends whose sources are all apart from its output. -/
theorem Outcome.apart (hcreate : fs.create output = .ok (opened, o))
    (hother : ∀ f ∈ sources, ¬ opened.SameFile f.path output) (ho : sink.output = o)
    {read : List Block} {result : Except Failure Progress}
    (h : Outcome output most opened sink sources read result) :
    ∃ front, front <+: sources ∧ List.Forall₂ (Source.Reads fs) front read ∧
      ((front = sources ∧ (read.flatMap Block.bytes).length ≤ most ∧ ∃ p, result = .ok p) ∨
        (most < (read.flatMap Block.bytes).length ∧
          result = .error (.unwritable output (.refused .noSpace))) ∨
        ∃ f fault, front ++ [f] <+: sources ∧ opened.readText f.path = .error fault ∧
          result = .error (.ofRead f.path fault)) := by
  have hstart : o.Reaches fs opened := FileSystem.create_reaches hcreate
  have hreads {front : List Source} {blocks : List Block} {now : FileSystem} {t : Sink}
      (hwritten : Written opened sink front blocks now t) (hinit : front <+: sources) :
      List.Forall₂ (Source.Reads fs) front blocks :=
    hwritten.reads hcreate ho hstart fun f hf => hother f (hinit.subset hf)
  have hsame {front : List Source} {blocks : List Block} {now : FileSystem} {t : Sink} {f : Source}
      (hwritten : Written opened sink front blocks now t) (hinit : front ++ [f] <+: sources) :
      now.readText f.path = opened.readText f.path ∧
        ∀ data, opened.readText f.path = .ok data ↔ fs.readText f.path = .ok data := by
    obtain ⟨-, hreaches⟩ := hwritten.reaches (ho ▸ hstart)
    exact readText_of_reaches hcreate (ho ▸ hreaches) (hother f (hinit.subset (by simp)))
  cases h with
  | done hwritten hmost =>
      exact ⟨sources, List.prefix_rfl, hreads hwritten List.prefix_rfl, .inl ⟨rfl, hmost, _, rfl⟩⟩
  | unflushed hwritten hmost =>
      exact ⟨sources, List.prefix_rfl, hreads hwritten List.prefix_rfl, .inr (.inl ⟨hmost, rfl⟩)⟩
  | @refused before blocks now t f b hwritten hinit hread hmost =>
      obtain ⟨hnow, hbefore⟩ := hsame hwritten hinit
      obtain ⟨hheader, hcontents⟩ := hread
      have hlast : f.Reads fs b := ⟨hheader, (hbefore _).mp (hnow.symm.trans hcontents)⟩
      have hfront := hreads hwritten ((List.prefix_append _ _).trans hinit)
      refine ⟨before ++ [f], hinit, ?_, .inr (.inl ⟨hmost, rfl⟩)⟩
      exact List.rel_append hfront (.cons hlast .nil)
  | @unread before blocks now t f fault hwritten hinit hread =>
      obtain ⟨hnow, -⟩ := hsame hwritten hinit
      exact ⟨before, (List.prefix_append _ _).trans hinit,
        hreads hwritten ((List.prefix_append _ _).trans hinit),
        .inr (.inr ⟨f, fault, hinit, hnow.symm.trans hread, rfl⟩)⟩

theorem initial_of_notMem {front : List Source} {f : Source} (h : before ++ [f] <+: sources)
    (hfront : front <+: sources) (hf : f ∉ front) : front <+: before := by
  rcases List.prefix_or_prefix_of_prefix hfront h with hshort | hlong
  · rcases List.prefix_concat_iff.mp hshort with rfl | hshort
    · exact absurd (by simp) hf
    · exact hshort
  · exact absurd (hlong.subset (by simp)) hf

/-- Blocks that are too long for an output decide what it receives of more blocks. -/
theorem take_of_initial {read : List Block} (h : read <+: blocks)
    (hmost : most < (read.flatMap Block.bytes).length) :
    most < (blocks.flatMap Block.bytes).length ∧
      (read.flatMap Block.bytes).take most = (blocks.flatMap Block.bytes).take most := by
  obtain ⟨rest, rfl⟩ := h
  rw [List.flatMap_append, List.take_append_of_le_length (Nat.le_of_lt hmost), List.length_append]
  exact ⟨by omega, rfl⟩

end Apart

section Write

variable {fs opened : FileSystem} {output : Path} {o : Output} {most : Nat}
  (hcreate : fs.create output = .ok (opened, o))
include hcreate

theorem received_create : o.received opened = [] := by
  obtain ⟨loc, room, -, rfl, rfl⟩ | ⟨-, rfl | rfl, -⟩ := FileSystem.create_cases hcreate
  · simp [Output.received, FileSystem.get?_put_self]
  · rfl
  · rfl

variable (htakes : o.Takes opened most) (buffer : Option Nat)
include htakes

theorem fills_create : Sink.Fills o most opened ⟨o, Sink.capacityFor buffer, []⟩ [] :=
  ⟨rfl, htakes, by rw [received_create hcreate]; rfl⟩

theorem write_outcome (sources : List Source) :
    ∃ read, Outcome output most opened ⟨o, Sink.capacityFor buffer, []⟩ sources read
        (write fs output buffer sources).result ∧
      o.received (write fs output buffer sources).fileSystem =
        (read.flatMap Block.bytes).take most := by
  rw [write_of_create hcreate]
  exact writeFrom_bounded (fills_create hcreate htakes buffer) _ sources

/-- Whatever the sources are, a run succeeds exactly if it comes to their end and the output takes the blocks
that it has read. -/
theorem write_isOk_iff_written (sources : List Source) :
    (∃ p, (write fs output buffer sources).result = .ok p) ↔
      ∃ blocks now t, Written opened ⟨o, Sink.capacityFor buffer, []⟩ sources blocks now t ∧
        (blocks.flatMap Block.bytes).length ≤ most := by
  constructor
  · rintro ⟨p, hok⟩
    obtain ⟨read, houtcome, -⟩ := write_outcome hcreate htakes buffer sources
    rw [hok] at houtcome
    cases houtcome with
    | done hwritten hfits => exact ⟨read, _, _, hwritten, hfits⟩
  · rintro ⟨blocks, now, t, hwritten, hfits⟩
    have hfills := hwritten.fills (fills_create hcreate htakes buffer)
    have hflush : (t.flush now).2.2 = none := (Sink.flush_bounded hfills).1.trans (if_pos hfits)
    rw [write_of_create hcreate]
    obtain ⟨p, -, hok⟩ | ⟨refusal, hrefused, -⟩ :=
      hwritten.finished output (Progress.start sources.length)
    · exact ⟨p, hok⟩
    · cases hflush.symm.trans hrefused

variable {sources : List Source} (hother : ∀ f ∈ sources, ¬ opened.SameFile f.path output)
include hother

/-- A run whose sources can all be read succeeds exactly if the output takes all their blocks; it fails for the
output if not. -/
theorem write_isOk_iff_of_reads {blocks : List Block}
    (hblocks : List.Forall₂ (Source.Reads fs) sources blocks) :
    ((∃ p, (write fs output buffer sources).result = .ok p) ↔
        (blocks.flatMap Block.bytes).length ≤ most) ∧
      (most < (blocks.flatMap Block.bytes).length →
        (write fs output buffer sources).result =
          .error (.unwritable output (.refused .noSpace))) ∧
      o.received (write fs output buffer sources).fileSystem =
        (blocks.flatMap Block.bytes).take most := by
  obtain ⟨read, houtcome, hreceived⟩ := write_outcome hcreate htakes buffer sources
  obtain ⟨front, hinit, hread, hends⟩ := houtcome.apart hcreate hother rfl
  have hbefore : read <+: blocks := reads_initial hread hblocks hinit
  rw [hreceived]
  rcases hends with ⟨rfl, hfits, p, hok⟩ | ⟨hmost, herror⟩ | ⟨f, fault, hf, hfault, -⟩
  · obtain rfl : read = blocks := hbefore.eq_of_length_le (reads_initial hblocks hread hinit).length_le
    exact ⟨iff_of_true ⟨p, hok⟩ hfits, fun hmost => absurd hfits (Nat.not_le.mpr hmost), rfl⟩
  · obtain ⟨hall, htake⟩ := take_of_initial hbefore hmost
    refine ⟨iff_of_false ?_ (Nat.not_le.mpr hall), fun _ => herror, htake⟩
    rintro ⟨p, hok⟩
    cases hok.symm.trans herror
  · have hmem : f ∈ sources := hf.subset (by simp)
    obtain ⟨data, hdata⟩ := exists_text_of_mem hblocks hmem
    exact absurd hdata (readText_ne_ok hcreate (hother f hmem) hfault data)

theorem write_error_of_unread {before after : List Source} {f : Source} {blocks : List Block}
    (hsources : sources = before ++ f :: after)
    (hblocks : List.Forall₂ (Source.Reads fs) before blocks)
    (hunread : ∀ data, fs.readText f.path ≠ .ok data) :
    ((most < (blocks.flatMap Block.bytes).length ∧
          (write fs output buffer sources).result =
            .error (.unwritable output (.refused .noSpace))) ∨
        ∃ fault, opened.readText f.path = .error fault ∧
          (write fs output buffer sources).result = .error (.ofRead f.path fault)) ∧
      o.received (write fs output buffer sources).fileSystem =
        (blocks.flatMap Block.bytes).take most := by
  obtain ⟨read, houtcome, hreceived⟩ := write_outcome hcreate htakes buffer sources
  obtain ⟨front, hinit, hread, hends⟩ := houtcome.apart hcreate hother rfl
  have hstop : before ++ [f] <+: sources := ⟨after, by simp [hsources]⟩
  have hf : f ∉ front := fun hf =>
    let ⟨data, hdata⟩ := exists_text_of_mem hread hf
    hunread data hdata
  have hfront : front <+: before := initial_of_notMem hstop hinit hf
  rw [hreceived]
  rcases hends with ⟨rfl, -, -⟩ | ⟨hmost, herror⟩ | ⟨g, fault, hg, hfault, herror⟩
  · exact absurd (hstop.subset (by simp)) hf
  · obtain ⟨hlong, htake⟩ := take_of_initial (reads_initial hread hblocks hfront) hmost
    exact ⟨.inl ⟨hlong, herror⟩, htake⟩
  · have hgbefore : g ∉ before := by
      intro hmem
      obtain ⟨data, hdata⟩ := exists_text_of_mem hblocks hmem
      exact readText_ne_ok hcreate (hother g (hg.subset (by simp))) hfault data hdata
    have hbefore : before <+: front :=
      initial_of_notMem hg ((List.prefix_append _ _).trans hstop) hgbefore
    obtain rfl : front = before := hfront.eq_of_length_le hbefore.length_le
    obtain rfl : f = g := by
      have hsame := (List.prefix_of_prefix_length_le hstop hg (by simp)).eq_of_length (by simp)
      simpa using hsame
    obtain rfl : read = blocks := (reads_initial hread hblocks hfront).eq_of_length_le
      (reads_initial hblocks hread hbefore).length_le
    exact ⟨.inr ⟨fault, hfault, herror⟩, rfl⟩

end Write

/-- A run into an output that takes only so many octets. In the end the output has the first octets of the
blocks that were read, all of them if the run succeeds; a run that fails was refused room for them or came
to a source that cannot be read. Where no source is the output itself, what the run reads is known
before it, and so is whether it succeeds. -/
theorem write_bounded {fs opened : FileSystem} {output : Path} {o : Output} {most : Nat}
    (hcreate : fs.create output = .ok (opened, o)) (htakes : o.Takes opened most)
    (buffer : Option Nat) (sources : List Source) :
    (∃ read, Outcome output most opened ⟨o, Sink.capacityFor buffer, []⟩ sources read
        (write fs output buffer sources).result ∧
      o.received (write fs output buffer sources).fileSystem = (read.flatMap Block.bytes).take most ∧
      ∀ p, (write fs output buffer sources).result = .ok p →
        o.received (write fs output buffer sources).fileSystem = read.flatMap Block.bytes) ∧
    ((∃ p, (write fs output buffer sources).result = .ok p) ↔
      ∃ blocks now t, Written opened ⟨o, Sink.capacityFor buffer, []⟩ sources blocks now t ∧
        (blocks.flatMap Block.bytes).length ≤ most) ∧
    ((∀ f ∈ sources, ¬ opened.SameFile f.path output) →
      (∀ blocks, List.Forall₂ (Source.Reads fs) sources blocks →
        ((∃ p, (write fs output buffer sources).result = .ok p) ↔
          (blocks.flatMap Block.bytes).length ≤ most) ∧
        (most < (blocks.flatMap Block.bytes).length →
          (write fs output buffer sources).result =
            .error (.unwritable output (.refused .noSpace))) ∧
        o.received (write fs output buffer sources).fileSystem =
          (blocks.flatMap Block.bytes).take most) ∧
      ∀ before f after blocks, sources = before ++ f :: after →
        List.Forall₂ (Source.Reads fs) before blocks → (∀ data, fs.readText f.path ≠ .ok data) →
        ((most < (blocks.flatMap Block.bytes).length ∧
            (write fs output buffer sources).result =
              .error (.unwritable output (.refused .noSpace))) ∨
          ∃ fault, opened.readText f.path = .error fault ∧
            (write fs output buffer sources).result = .error (.ofRead f.path fault)) ∧
        o.received (write fs output buffer sources).fileSystem =
          (blocks.flatMap Block.bytes).take most) := by
  refine ⟨?_, write_isOk_iff_written hcreate htakes buffer sources,
    fun hother => ⟨fun blocks hblocks => ?_, ?_⟩⟩
  · obtain ⟨read, houtcome, hreceived⟩ := write_outcome hcreate htakes buffer sources
    refine ⟨read, houtcome, hreceived, fun p hok => ?_⟩
    rw [hok] at houtcome
    cases houtcome with
    | done _ hfits => rw [hreceived, List.take_of_length_le hfits]
  · exact write_isOk_iff_of_reads hcreate htakes buffer hother hblocks
  · intro before f after blocks hsources hblocks hunread
    exact write_error_of_unread hcreate htakes buffer hother hsources hblocks hunread

/-- A text, an output with room for so many octets behind the three that it has, and one with none. -/
def limitedOutput (room : Nat) : FileSystem where
  root := .dir [
    (Utf8.encode "a.txt", .file (Utf8.encode "one") none),
    (Utf8.encode "all.txt", .file (Utf8.encode "old") (some room)),
    (Utf8.encode "full", .device .full)]
  cwd := []

theorem write_bounded_limitedOutput :
    (∃ opened, (limitedOutput 11).create allTxt = .ok (opened, .file [allTxt]) ∧
      (Output.file [allTxt]).Takes opened 14 ∧
      ∃ p, (write (limitedOutput 11) allTxt none [sourceAt "a.txt"]).result = .ok p) ∧
    (∃ opened, (limitedOutput 10).create allTxt = .ok (opened, .file [allTxt]) ∧
      (Output.file [allTxt]).Takes opened 13 ∧
      (write (limitedOutput 10) allTxt none [sourceAt "a.txt"]).result =
        .error (.unwritable allTxt (.refused .noSpace)) ∧
      (Output.file [allTxt]).received
          (write (limitedOutput 10) allTxt none [sourceAt "a.txt"]).fileSystem =
        Utf8.encode "# a.txt\n\none\n") ∧
    (limitedOutput 10).create (Utf8.encode "full") = .ok (limitedOutput 10, .full) ∧
    Output.full.Takes (limitedOutput 10) 0 ∧
    (write (limitedOutput 10) (Utf8.encode "full") none [sourceAt "a.txt"]).result =
      .error (.unwritable (Utf8.encode "full") (.refused .noSpace)) := by
  let block : Block := ⟨"a.txt", Utf8.encode "one"⟩
  have hreads (room : Nat) :
      List.Forall₂ (Source.Reads (limitedOutput room)) [sourceAt "a.txt"] [block] :=
    .cons ⟨rfl, rfl⟩ .nil
  have hopens (room : Nat) : (limitedOutput room).create allTxt =
      .ok ((limitedOutput room).put [allTxt] (.file [] (some (room + 3))), .file [allTxt]) := rfl
  have hlimit (room : Nat) : (Output.file [allTxt]).Takes
      ((limitedOutput room).put [allTxt] (.file [] (some (room + 3)))) (room + 3) :=
    FileSystem.limit_put ..
  have hother (room : Nat) : ∀ f ∈ [sourceAt "a.txt"],
      ¬ ((limitedOutput room).put [allTxt] (.file [] (some (room + 3)))).SameFile f.path allTxt := by
    intro f hf
    obtain rfl := List.mem_singleton.mp hf
    have hsource : ((limitedOutput room).put [allTxt] (.file [] (some (room + 3)))).stat
        (sourceAt "a.txt").path = .ok ([Utf8.encode "a.txt"], .file (Utf8.encode "one") none) := rfl
    have houtput : ((limitedOutput room).put [allTxt] (.file [] (some (room + 3)))).stat
        allTxt = .ok ([allTxt], .file [] (some (room + 3))) := rfl
    rw [FileSystem.sameFile_iff hsource houtput]
    decide
  have hfull : (limitedOutput 10).create (Utf8.encode "full") = .ok (limitedOutput 10, .full) := rfl
  have hnone : Output.full.Takes (limitedOutput 10) 0 := rfl
  refine ⟨⟨_, hopens 11, hlimit 11, ?_⟩, ⟨_, hopens 10, hlimit 10, ?_⟩, hfull, hnone, ?_⟩
  · obtain ⟨hok, -, -⟩ := ((write_bounded (hopens 11) (hlimit 11) none [sourceAt "a.txt"]).2.2
      (hother 11)).1 [block] (hreads 11)
    exact hok.mpr (by decide +kernel)
  · obtain ⟨-, herror, hreceived⟩ := ((write_bounded (hopens 10) (hlimit 10) none [sourceAt "a.txt"]).2.2
      (hother 10)).1 [block] (hreads 10)
    exact ⟨herror (by decide +kernel), hreceived.trans (by decide +kernel)⟩
  · obtain ⟨-, herror, -⟩ := ((write_bounded hfull hnone none [sourceAt "a.txt"]).2.2
      (by decide +kernel)).1 [block] (hreads 10)
    exact herror (by decide +kernel)

end Collate.Concatenation
