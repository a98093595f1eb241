import Mathlib.Data.List.Forall2
import Collate.Concatenation
import Collate.Proofs.Block
import Collate.Proofs.Sink

/-!
The loop that writes the blocks. A run that succeeds has put one block of each source behind what was there,
in order; a run over files that are all there fails only for their encoding or for the output.
-/
namespace Collate

/-- The block that a source stands for in this tree. -/
def Source.IsBlock (fs : FileSystem) (f : Source) (b : Block) : Prop :=
  b.header = f.display ∧ fs.Contains f.path b.contents

theorem FileSystem.readText_of_stat {fs : FileSystem} {p : Path} {loc : Location} {data : Bytes}
    {room : Option Nat} (h : fs.stat p = .ok (loc, .file data room)) :
    fs.readText p = if Utf8.isValid data then .ok data else .error .notText := by
  simp [readText, h, readNode, bind, Except.bind]

namespace Concatenation

section Loop

variable {fs : FileSystem} {output : Path}

/-- What the loop has to write is what it was asked to write, whatever was held back on the way. -/
theorem writeFrom_ok {loc : Location} (hloc : fs.root.Writable loc) {now : FileSystem} {sink : Sink}
    {p q : Progress} {text : Bytes} {sources : List Source} (h : sink.Holds fs loc now text)
    (hfiles : ∀ f ∈ sources, ∃ l data room,
      fs.stat f.path = .ok (l, .file data room) ∧ l ≠ loc)
    (hok : (writeFrom output now sink p sources).result = .ok q) :
    ∃ blocks room, List.Forall₂ (Source.IsBlock fs) sources blocks ∧
      (writeFrom output now sink p sources).fileSystem =
        fs.put loc (.file (text ++ blocks.flatMap Block.bytes) room) := by
  induction sources generalizing now sink p text with
  | nil =>
      simp only [writeFrom] at hok ⊢
      split at hok
      · rename_i next t hflush
        obtain ⟨-, room, rfl⟩ := Sink.flush_accepted h hflush
        exact ⟨[], room, .nil, by simp⟩
      · cases hok
  | cons f sources ih =>
      obtain ⟨l, data, space, hstat, hl⟩ := hfiles f (by simp)
      have hstat' : now.stat f.path = .ok (l, .file data space) := by
        obtain ⟨-, before, room, rfl, -⟩ := h
        exact FileSystem.stat_put_of_ne hloc before room hstat hl
      have hread := FileSystem.readText_of_stat hstat'
      simp only [writeFrom, hread] at hok ⊢
      by_cases hvalid : Utf8.isValid data
      · simp only [hvalid, ↓reduceIte] at hok ⊢
        split at hok
        · cases hok
        · rename_i next t hpush
          have hnext := Sink.holds_pushAll h hpush
          rw [Block.flatten_pieces] at hnext
          obtain ⟨blocks, room, hblocks, hfinal⟩ :=
            ih hnext (fun g hg => hfiles g (by simp [hg])) hok
          refine ⟨⟨f.display, data⟩ :: blocks, room, .cons ⟨rfl, l, space, hstat⟩ hblocks, ?_⟩
          simp [hfinal, List.append_assoc]
      · simp only [hvalid, Bool.false_eq_true, ↓reduceIte] at hok
        cases hok

/-- The count of a loop grows by the octets that the file gains, and by one for each source. -/
theorem writeFrom_counts {loc : Location} {now : FileSystem} {sink : Sink} {p q : Progress}
    {text : Bytes} {sources : List Source} (h : sink.Holds fs loc now text)
    (hok : (writeFrom output now sink p sources).result = .ok q) :
    ∃ added room,
      (writeFrom output now sink p sources).fileSystem = fs.put loc (.file (text ++ added) room) ∧
      q.bytesWritten = p.bytesWritten + added.length ∧
      q.filesWritten = p.filesWritten + sources.length := by
  induction sources generalizing now sink p text with
  | nil =>
      simp only [writeFrom] at hok ⊢
      split at hok
      · rename_i next t hflush
        obtain ⟨-, room, rfl⟩ := Sink.flush_accepted h hflush
        obtain rfl := Except.ok.inj hok
        exact ⟨[], room, by simp, rfl, rfl⟩
      · cases hok
  | cons f sources ih =>
      simp only [writeFrom] at hok ⊢
      split at hok
      · cases hok
      · rename_i contents hread
        split at hok
        · cases hok
        · rename_i next t hpush
          have hnext := Sink.holds_pushAll h hpush
          rw [Block.flatten_pieces] at hnext
          obtain ⟨added, room, hfinal, hbytes, hcount⟩ := ih hnext hok
          refine ⟨Block.bytes ⟨f.display, contents⟩ ++ added, room, ?_, ?_, ?_⟩
          · rw [hfinal, List.append_assoc]
          · rw [hbytes, List.length_append, Block.length_bytes, Progress.advance, Nat.add_assoc]
          · rw [hcount, List.length_cons, Nat.add_comm sources.length, ← Nat.add_assoc]
            rfl

/-- Once all sources are files, nothing but their encoding and the output can end the loop early. -/
theorem writeFrom_error {now : FileSystem} {sink : Sink} {p : Progress} {sources : List Source}
    {e : Failure} (h : sink.output.Reaches fs now)
    (hfiles : ∀ f ∈ sources, ∃ data, fs.Contains f.path data)
    (herror : (writeFrom output now sink p sources).result = .error e) :
    (∃ f ∈ sources, e = .invalidEncoding f.path) ∨ ∃ fault, e = .unwritable output fault := by
  induction sources generalizing now sink p with
  | nil =>
      simp only [writeFrom] at herror
      split at herror
      · cases herror
      · rename_i refusal _
        obtain rfl := Except.error.inj herror
        exact .inr ⟨.refused refusal, rfl⟩
  | cons f sources ih =>
      obtain ⟨data, l, room, hstat⟩ := hfiles f (by simp)
      obtain ⟨data, room, hstat⟩ := FileSystem.stat_of_reaches h hstat
      simp only [writeFrom, FileSystem.readText_of_stat hstat] at herror
      by_cases hvalid : Utf8.isValid data
      · simp only [hvalid, ↓reduceIte] at herror
        obtain ⟨ho, hnext⟩ := Sink.keeps_pushAll h (Block.pieces ⟨f.display, data⟩)
        split at herror
        · rename_i refusal _
          obtain rfl := Except.error.inj herror
          exact .inr ⟨.refused refusal, rfl⟩
        · rename_i next t hpush
          rw [hpush] at ho hnext
          have hsink : t.output.Reaches fs next := ho ▸ hnext
          have hrest := ih hsink (fun g hg => hfiles g (by simp [hg])) herror
          exact hrest.imp_left fun ⟨g, hg, he⟩ => ⟨g, by simp [hg], he⟩
      · simp only [hvalid, Bool.false_eq_true, ↓reduceIte] at herror
        obtain rfl := Except.error.inj herror
        exact .inl ⟨f, by simp, rfl⟩

end Loop

section Write

variable {fs : FileSystem} {output : Path} {buffer : Option Nat} {sources : List Source}

/-- A file that is written to the end holds one block of each source. -/
theorem write_ok {loc : Location} (hout : fs.NamesFile output loc)
    (hfiles : ∀ f ∈ sources, ∃ l data room,
      fs.stat f.path = .ok (l, .file data room) ∧ l ≠ loc) {p : Progress}
    (hok : (write fs output buffer sources).result = .ok p) :
    ∃ blocks room, List.Forall₂ (Source.IsBlock fs) sources blocks ∧
      (write fs output buffer sources).fileSystem =
        fs.put loc (.file (blocks.flatMap Block.bytes) room) := by
  obtain ⟨space, hcreate⟩ := hout.create
  simp only [write, hcreate] at hok ⊢
  have hempty : Sink.Holds fs loc (fs.put loc (.file [] space))
      ⟨.file loc, Sink.capacityFor buffer, []⟩ [] := ⟨rfl, [], space, rfl, rfl⟩
  exact writeFrom_ok hout.writable hempty hfiles hok

theorem write_counts {loc : Location} (hout : fs.NamesFile output loc) {p : Progress}
    (hok : (write fs output buffer sources).result = .ok p) :
    ∃ text room, (write fs output buffer sources).fileSystem = fs.put loc (.file text room) ∧
      p.bytesWritten = text.length ∧ p.filesWritten = sources.length := by
  obtain ⟨space, hcreate⟩ := hout.create
  simp only [write, hcreate] at hok ⊢
  have hempty : Sink.Holds fs loc (fs.put loc (.file [] space))
      ⟨.file loc, Sink.capacityFor buffer, []⟩ [] := ⟨rfl, [], space, rfl, rfl⟩
  simpa [Progress.start] using writeFrom_counts hempty hok

theorem write_error {e : Failure} (hfiles : ∀ f ∈ sources, ∃ data, fs.Contains f.path data)
    (herror : (write fs output buffer sources).result = .error e) :
    (∃ f ∈ sources, e = .invalidEncoding f.path) ∨ ∃ fault, e = .unwritable output fault := by
  simp only [write] at herror
  split at herror
  · rename_i fault _
    have he : Failure.unwritable output fault = e := Except.error.inj herror
    exact .inr ⟨fault, he.symm⟩
  · rename_i now handle hcreate
    have hreaches : handle.Reaches fs now := FileSystem.create_reaches hcreate
    exact writeFrom_error hreaches hfiles herror

end Write

end Concatenation

end Collate
