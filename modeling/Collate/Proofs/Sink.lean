import Collate.Sink
import Collate.Proofs.FileTree.Output

/-!
Buffered writing. The octets in the file followed by those that are held are all that was pushed, as long
as nothing is refused, for every capacity; nothing is refused while the file has room; and whatever is
refused, only the output changes.
-/
namespace Collate.Sink

/-- What was written to the file at the location together with what is held back. -/
def Holds (fs : FileSystem) (loc : Location) (now : FileSystem) (s : Sink) (text : Bytes) : Prop :=
  s.output = .file loc ∧
    ∃ data room, now = fs.put loc (.file data room) ∧ data ++ s.held = text

section Accepted

variable {fs now next : FileSystem} {loc : Location} {s t : Sink} {text piece : Bytes}

private theorem append_accepted {data : Bytes} {room : Option Nat}
    (h : (fs.put loc (.file data room)).append (.file loc) piece = (next, none)) :
    ∃ left, next = fs.put loc (.file (data ++ piece) left) := by
  rw [FileSystem.append_put] at h
  cases room with
  | none => exact ⟨none, (Prod.mk.inj h).1.symm⟩
  | some space =>
      obtain ⟨hnext, hfits⟩ := Prod.mk.inj h
      have hle : piece.length ≤ space := by simpa using hfits
      rw [List.take_of_length_le hle] at hnext
      exact ⟨_, hnext.symm⟩

theorem flush_accepted (h : s.Holds fs loc now text) (hf : s.flush now = (next, t, none)) :
    t = { s with held := [] } ∧ ∃ room, next = fs.put loc (.file text room) := by
  obtain ⟨ho, data, room, rfl, rfl⟩ := h
  simp only [flush, ho] at hf
  obtain ⟨hnext, hrest⟩ := Prod.mk.inj hf
  obtain ⟨ht, hnone⟩ := Prod.mk.inj hrest
  refine ⟨by rw [← ht, ho], append_accepted (Prod.ext hnext hnone)⟩

theorem holds_flush (h : s.Holds fs loc now text) (hf : s.flush now = (next, t, none)) :
    t.Holds fs loc next text ∧ t.held = [] ∧ t.capacity = s.capacity := by
  obtain ⟨rfl, room, rfl⟩ := flush_accepted h hf
  exact ⟨⟨h.1, text, room, rfl, List.append_nil text⟩, rfl, rfl⟩

private theorem holds_append (h : s.Holds fs loc now text) (hheld : s.held = [])
    (ha : now.append s.output piece = (next, none)) : s.Holds fs loc next (text ++ piece) := by
  obtain ⟨ho, data, room, rfl, rfl⟩ := h
  rw [ho] at ha
  obtain ⟨left, rfl⟩ := append_accepted ha
  exact ⟨ho, data ++ piece, left, rfl, by simp [hheld]⟩

private theorem holds_hold (h : s.Holds fs loc now text) :
    { s with held := s.held ++ piece }.Holds fs loc now (text ++ piece) := by
  obtain ⟨ho, data, room, rfl, rfl⟩ := h
  exact ⟨ho, data, room, rfl, (List.append_assoc ..).symm⟩

theorem holds_push (h : s.Holds fs loc now text) (hp : s.push now piece = (next, t, none)) :
    t.Holds fs loc next (text ++ piece) := by
  simp only [push] at hp
  split at hp
  · obtain ⟨rfl, rfl, -⟩ := by simpa using hp
    exact holds_hold h
  · rename_i hfull
    split at hp
    · cases hflush : s.flush now with
      | mk mid rest =>
          obtain ⟨u, refusal⟩ := rest
          simp only [hflush] at hp
          cases refusal with
          | some refusal => simp at hp
          | none =>
              obtain ⟨hu, hheld, -⟩ := holds_flush h hflush
              simp only [Option.isSome_none, Bool.false_eq_true, ↓reduceIte] at hp
              split at hp
              · obtain ⟨rfl, rfl, hnone⟩ := by simpa using hp
                exact holds_append hu hheld (Prod.ext rfl hnone)
              · obtain ⟨rfl, rfl, -⟩ := by simpa using hp
                exact holds_hold hu
    · rename_i hexact
      simp only [Option.isSome_none, Bool.false_eq_true, ↓reduceIte] at hp
      split at hp
      · rename_i hlong
        have hheld : s.held = [] := List.eq_nil_of_length_eq_zero (by omega)
        obtain ⟨rfl, rfl, hnone⟩ := by simpa using hp
        exact holds_append h hheld (Prod.ext rfl hnone)
      · obtain ⟨rfl, rfl, -⟩ := by simpa using hp
        exact holds_hold h

theorem holds_pushAll {pieces : List Bytes} (h : s.Holds fs loc now text)
    (hp : s.pushAll now pieces = (next, t, none)) : t.Holds fs loc next (text ++ pieces.flatten) := by
  induction pieces generalizing now s text with
  | nil =>
      obtain ⟨rfl, rfl, -⟩ := by simpa [pushAll] using hp
      simpa using h
  | cons piece pieces ih =>
      simp only [pushAll] at hp
      split at hp
      · rename_i mid u hpush
        simpa [List.append_assoc] using ih (holds_push h hpush) hp
      · simp at hp

end Accepted

section Kept

variable {P : FileSystem → Prop} {now : FileSystem} {s : Sink}
  (hP : ∀ now bytes, P now → P (now.append s.output bytes).1)
include hP

theorem flush_kept (h : P now) : P (s.flush now).1 :=
  hP now s.held h

theorem push_kept (h : P now) (piece : Bytes) :
    (s.push now piece).2.1.output = s.output ∧ P (s.push now piece).1 := by
  simp only [push]
  split
  · exact ⟨rfl, h⟩
  · split
    · have hflush : P (s.flush now).1 := flush_kept hP h
      split
      · exact ⟨rfl, hflush⟩
      · split
        · exact ⟨rfl, hP _ piece hflush⟩
        · exact ⟨rfl, hflush⟩
    · split
      · exact ⟨rfl, h⟩
      · split
        · exact ⟨rfl, hP now piece h⟩
        · exact ⟨rfl, h⟩

/-- What every single write to an output keeps, all pushes to it keep. -/
theorem pushAll_kept (h : P now) (pieces : List Bytes) :
    (s.pushAll now pieces).2.1.output = s.output ∧ P (s.pushAll now pieces).1 := by
  induction pieces generalizing now s with
  | nil => exact ⟨rfl, h⟩
  | cons piece pieces ih =>
      obtain ⟨ho, hnext⟩ := push_kept hP h piece
      simp only [pushAll]
      split
      · rename_i mid u hpush
        rw [hpush] at ho hnext
        obtain ⟨ho', hlast⟩ := ih (s := u) (ho ▸ hP) hnext
        exact ⟨ho'.trans ho, hlast⟩
      · rename_i mid u refusal hpush
        rw [hpush] at ho hnext
        exact ⟨ho, hnext⟩

end Kept

section Frame

variable {fs now : FileSystem} {s : Sink}

/-- One step of a sink leaves its output as it is and changes nothing but what that output names. -/
def Keeps (fs : FileSystem) (s : Sink) (after : FileSystem × Sink × Option Refusal) : Prop :=
  after.2.1.output = s.output ∧ s.output.Reaches fs after.1

theorem keeps_pushAll (h : s.output.Reaches fs now) (pieces : List Bytes) :
    Keeps fs s (s.pushAll now pieces) :=
  pushAll_kept (P := s.output.Reaches fs)
    (fun _ bytes hnow => FileSystem.append_reaches hnow bytes) h pieces

end Frame

section Room

variable {fs now next : FileSystem} {loc : Location} {s t : Sink} {text piece : Bytes}

theorem limit_kept (ho : s.output = .file loc) {limit : Option Nat} (now : FileSystem)
    (bytes : Bytes) (h : now.limit loc = limit) : (now.append s.output bytes).1.limit loc = limit := by
  rw [ho, FileSystem.limit_append, h]

theorem limit_pushAll (ho : s.output = .file loc) {pieces : List Bytes} {refusal : Option Refusal}
    (hp : s.pushAll now pieces = (next, t, refusal)) : next.limit loc = now.limit loc := by
  have hkept := (pushAll_kept (s := s) (fun now bytes => limit_kept ho now bytes)
    (rfl : now.limit loc = now.limit loc) pieces).2
  rwa [hp] at hkept

theorem flush_fits (h : s.Holds fs loc now text) (hroom : now.HasRoom loc text.length) :
    (s.flush now).2.2 = none := by
  obtain ⟨ho, data, room, rfl, rfl⟩ := h
  simp only [flush, ho, FileSystem.append_put]
  cases room with
  | none => rfl
  | some space =>
      have hmost := hroom (space + data.length) (FileSystem.limit_put ..)
      rw [List.length_append] at hmost
      have hfits : s.held.length ≤ space := by omega
      simp [hfits]

private theorem append_fits (h : s.Holds fs loc now text) (hheld : s.held = [])
    (hroom : now.HasRoom loc (text ++ piece).length) : (now.append s.output piece).2 = none := by
  obtain ⟨ho, data, room, rfl, rfl⟩ := h
  rw [ho, FileSystem.append_put]
  cases room with
  | none => rfl
  | some space =>
      have hmost := hroom (space + data.length) (FileSystem.limit_put ..)
      rw [hheld, List.append_nil, List.length_append] at hmost
      have hfits : piece.length ≤ space := by omega
      simp [hfits]

theorem push_fits (h : s.Holds fs loc now text)
    (hroom : now.HasRoom loc (text ++ piece).length) : (s.push now piece).2.2 = none := by
  have hbefore : now.HasRoom loc text.length := by
    intro most hmost
    have hle := hroom most hmost
    rw [List.length_append] at hle
    omega
  simp only [push]
  split
  · rfl
  · rename_i hfull
    split
    · cases hflush : s.flush now with
      | mk mid rest =>
          obtain ⟨u, refusal⟩ := rest
          obtain rfl : refusal = none := by simpa [hflush] using flush_fits h hbefore
          obtain ⟨hu, hheld, -⟩ := holds_flush h hflush
          have hlimit : mid.limit loc = now.limit loc := by
            have hkept := limit_kept h.1 now s.held rfl
            have hmid : (now.append s.output s.held).1 = mid := congrArg Prod.fst hflush
            rwa [hmid] at hkept
          have hroom' : mid.HasRoom loc (text ++ piece).length := fun most hmost =>
            hroom most (hlimit ▸ hmost)
          simp only [Option.isSome_none, Bool.false_eq_true, ↓reduceIte]
          split
          · exact append_fits hu hheld hroom'
          · rfl
    · rename_i hexact
      simp only [Option.isSome_none, Bool.false_eq_true, ↓reduceIte]
      split
      · rename_i hlong
        have hheld : s.held = [] := List.eq_nil_of_length_eq_zero (by omega)
        exact append_fits h hheld hroom
      · rfl

theorem pushAll_fits {pieces : List Bytes} (h : s.Holds fs loc now text)
    (hroom : now.HasRoom loc (text ++ pieces.flatten).length) :
    ∃ next t, s.pushAll now pieces = (next, t, none) := by
  induction pieces generalizing now s text with
  | nil => exact ⟨now, s, rfl⟩
  | cons piece pieces ih =>
      have hpiece : now.HasRoom loc (text ++ piece).length := by
        intro most hmost
        have hle := hroom most hmost
        simp only [List.flatten_cons, List.length_append] at hle ⊢
        omega
      cases hpush : s.push now piece with
      | mk mid rest =>
          obtain ⟨u, refusal⟩ := rest
          obtain rfl : refusal = none := by simpa [hpush] using push_fits h hpiece
          have hlimit : mid.limit loc = now.limit loc := by
            have hkept := (push_kept (s := s) (fun now bytes => limit_kept h.1 now bytes)
              (rfl : now.limit loc = now.limit loc) piece).2
            rwa [hpush] at hkept
          have hroom' : mid.HasRoom loc ((text ++ piece) ++ pieces.flatten).length := by
            intro most hmost
            have hle := hroom most (hlimit ▸ hmost)
            simpa [List.append_assoc] using hle
          simp only [pushAll, hpush]
          exact ih (holds_push h hpush) hroom'

end Room

end Collate.Sink
