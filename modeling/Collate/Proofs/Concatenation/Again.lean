import Collate.Proofs.Concatenation.Interrupted

/-!
Writing the same sources to the same output once more. Whatever a first run has left in the output is
forgotten when it is opened, and the room in it is what it was.
-/
namespace Collate.Concatenation

section Kept

variable {P : FileSystem → Prop} {output : Path} {now : FileSystem} {sink : Sink}

/-- What every single write to the output keeps, the loop keeps, however it ends. -/
theorem writeFrom_kept (hP : ∀ now bytes, P now → P (now.append sink.output bytes).1) (h : P now)
    (p : Progress) (sources : List Source) :
    P (writeFrom output now sink p sources).fileSystem := by
  induction sources generalizing now sink p with
  | nil =>
      have hflush : P (sink.flush now).1 := Sink.flush_kept hP h
      simp only [writeFrom]
      split <;> simp_all [failed]
  | cons f sources ih =>
      simp only [writeFrom]
      split
      · exact Sink.flush_kept hP h
      · rename_i contents _
        obtain ⟨ho, hnext⟩ := Sink.pushAll_kept hP h (Block.pieces ⟨f.display, contents⟩)
        split
        · rename_i next t refusal hpush
          rw [hpush] at ho hnext
          exact Sink.flush_kept (ho ▸ hP) hnext
        · rename_i next t hpush
          rw [hpush] at ho hnext
          exact ih (ho ▸ hP) hnext _

end Kept

section Write

variable {fs opened : FileSystem} {output : Path} {handle : Output}

theorem write_reaches (h : fs.create output = .ok (opened, handle)) (buffer : Option Nat)
    (sources : List Source) : handle.Reaches fs (write fs output buffer sources).fileSystem := by
  rw [write_of_create h]
  exact writeFrom_kept (P := handle.Reaches fs)
    (fun _ bytes hnow => FileSystem.append_reaches hnow bytes) (FileSystem.create_reaches h) _ _

theorem create_again (h : fs.create output = .ok (opened, handle)) (buffer : Option Nat)
    (sources : List Source) :
    (write fs output buffer sources).fileSystem.create output = .ok (opened, handle) := by
  rw [write_of_create h]
  obtain ⟨loc, room, hnames, rfl, rfl⟩ | ⟨rfl, hdevice, -⟩ := FileSystem.create_cases h
  · let sink : Sink := ⟨.file loc, Sink.capacityFor buffer, []⟩
    have hkept : ∀ now bytes,
        (Output.file loc).Reaches fs now ∧ now.limit loc = room →
        (Output.file loc).Reaches fs (now.append sink.output bytes).1 ∧
          (now.append sink.output bytes).1.limit loc = room := by
      rintro now bytes ⟨hreaches, hlimit⟩
      exact ⟨FileSystem.append_reaches hreaches bytes, Sink.limit_kept (s := sink) rfl now bytes hlimit⟩
    have hopened : (Output.file loc).Reaches fs (fs.put loc (.file [] room)) ∧
        (fs.put loc (.file [] room)).limit loc = room :=
      ⟨.file hnames.writable [] room, by simp [FileSystem.limit_put]⟩
    let end_ := writeFrom output (fs.put loc (.file [] room)) sink (Progress.start sources.length) sources
    obtain ⟨hreaches, hlimit⟩ : (Output.file loc).Reaches fs end_.fileSystem ∧
      end_.fileSystem.limit loc = room := writeFrom_kept hkept hopened _ _
    change end_.fileSystem.create output = _
    generalize end_.fileSystem = after at hreaches hlimit ⊢
    cases hreaches with
    | file _ data left =>
        rw [FileSystem.limit_put] at hlimit
        rw [hnames.create_put, hlimit]
  · have hkept : ∀ now bytes, now = opened → (now.append handle bytes).1 = opened := by
      rintro now bytes rfl
      rcases hdevice with rfl | rfl <;> rfl
    rw [writeFrom_kept (P := (· = opened)) hkept rfl]
    exact h

theorem write_again (h : fs.create output = .ok (opened, handle)) (buffer : Option Nat)
    (sources : List Source) :
    write (write fs output buffer sources).fileSystem output buffer sources =
      write fs output buffer sources := by
  rw [write_of_create (create_again h buffer sources), write_of_create h]

end Write

end Collate.Concatenation
