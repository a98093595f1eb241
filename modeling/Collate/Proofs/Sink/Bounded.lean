import Collate.Proofs.Sink

/-!
Buffered writing to an output that takes so many octets and no more. What it has received and what is held are
all that was pushed, up to the first refusal; from then on the output has the first octets that were
pushed, as many as it takes, and nothing is held.
-/
namespace Collate

/-- The output takes so many octets in all and refuses every one beyond them. -/
def Output.Takes (fs : FileSystem) (most : Nat) : Output → Prop
  | .file loc => fs.limit loc = some most
  | .full => most = 0
  | .void => False

/-- What is in the file of an output. A device keeps nothing. -/
def Output.received (fs : FileSystem) : Output → Bytes
  | .file loc =>
    match fs.get? loc with
    | some (.file data _) => data
    | _ => []
  | .void | .full => []

namespace FileSystem

variable {now : FileSystem} {o : Output} {most : Nat}

theorem limit_eq_some_iff {fs : FileSystem} {loc : Location} : fs.limit loc = some most ↔
    ∃ data room, fs.get? loc = some (.file data (some room)) ∧ room + data.length = most := by
  cases hget : fs.get? loc with
  | none => simp [limit, hget]
  | some x =>
      cases x with
      | file data room => cases room <;> simp [limit, hget, and_assoc]
      | dir _ | link _ | pipe | device _ => simp [limit, hget]

theorem append_takes (h : o.Takes now most) (bytes : Bytes) :
    o.Takes (now.append o bytes).1 most ∧
      o.received (now.append o bytes).1 = (o.received now ++ bytes).take most ∧
      (now.append o bytes).2 =
        if (o.received now ++ bytes).length ≤ most then none else some .noSpace := by
  cases o with
  | file loc =>
      refine ⟨(limit_append now loc bytes).trans h, ?_⟩
      obtain ⟨data, room, hget, rfl⟩ := limit_eq_some_iff.mp h
      have hfits : bytes.length ≤ room ↔ data.length + bytes.length ≤ room + data.length := by omega
      have hcut : (data ++ bytes).take (room + data.length) = data ++ bytes.take room := by
        rw [Nat.add_comm, List.take_length_add_append]
      simp only [append, Output.received, hget, get?_put_self, hcut, List.length_append, hfits, and_self]
  | void => exact h.elim
  | full =>
      obtain rfl : most = 0 := h
      simp [append, Output.Takes, Output.received]

end FileSystem

namespace Sink

/-- All of the text was pushed, and what the output has not received is held. -/
structure Fills (o : Output) (most : Nat) (now : FileSystem) (s : Sink) (text : Bytes) : Prop where
  output : s.output = o
  takes : o.Takes now most
  pushed : o.received now ++ s.held = text

/-- How it stands after a push, the text being all that was pushed: either that is received or held, or the
output is full of the first of it. -/
inductive Pushed (o : Output) (most : Nat) (text : Bytes) :
    FileSystem × Sink × Option Refusal → Prop where
  | taken {next : FileSystem} {t : Sink} :
      t.Fills o most next text → Pushed o most text (next, t, none)
  | refused {next : FileSystem} {t : Sink} :
      most < text.length → t.Fills o most next (text.take most) →
      Pushed o most text (next, t, some .noSpace)

section Fill

variable {o : Output} {most : Nat} {now : FileSystem} {s : Sink} {text : Bytes}

theorem Pushed.refused_append {next : FileSystem} {t : Sink} (hmost : most < text.length)
    (h : t.Fills o most next (text.take most)) (more : Bytes) :
    Pushed o most (text ++ more) (next, t, some .noSpace) := by
  refine .refused (by rw [List.length_append]; omega) ?_
  rwa [List.take_append_of_le_length (Nat.le_of_lt hmost)]

theorem fills_hold (h : s.Fills o most now text) (piece : Bytes) :
    { s with held := s.held ++ piece }.Fills o most now (text ++ piece) where
  output := h.output
  takes := h.takes
  pushed := by rw [← h.pushed, List.append_assoc]

theorem pushed_append (ho : s.output = o) (hheld : s.held = []) (htakes : o.Takes now most)
    (piece : Bytes) :
    Pushed o most (o.received now ++ piece) ((now.append o piece).1, s, (now.append o piece).2) := by
  obtain ⟨hnext, hreceived, hrefusal⟩ := FileSystem.append_takes htakes piece
  rw [hrefusal]
  split
  · rename_i hle
    rw [List.take_of_length_le hle] at hreceived
    exact .taken ⟨ho, hnext, by rw [hreceived, hheld, List.append_nil]⟩
  · rename_i hlong
    exact .refused (Nat.lt_of_not_le hlong) ⟨ho, hnext, by rw [hreceived, hheld, List.append_nil]⟩

theorem fills_append (h : s.Fills o most now text) (hheld : s.held = []) (piece : Bytes) :
    Pushed o most (text ++ piece) ((now.append s.output piece).1, s, (now.append s.output piece).2) := by
  obtain ⟨rfl, htakes, rfl⟩ := h
  rw [hheld, List.append_nil]
  exact pushed_append rfl hheld htakes piece

theorem fills_flush (h : s.Fills o most now text) :
    Pushed o most text (s.flush now) ∧ (s.flush now).2.1.held = [] := by
  obtain ⟨rfl, htakes, rfl⟩ := h
  have hwrite := pushed_append (s := { s with held := [] }) rfl rfl htakes s.held
  exact ⟨hwrite, rfl⟩

/-- A flush is refused exactly if more was pushed than the output takes. -/
theorem flush_bounded (h : s.Fills o most now text) :
    (s.flush now).2.2 = (if text.length ≤ most then none else some .noSpace) ∧
      o.received (s.flush now).1 = text.take most := by
  obtain ⟨rfl, htakes, rfl⟩ := h
  obtain ⟨-, hreceived, hrefusal⟩ := FileSystem.append_takes htakes s.held
  exact ⟨hrefusal, hreceived⟩

theorem fills_push (h : s.Fills o most now text) (piece : Bytes) :
    Pushed o most (text ++ piece) (s.push now piece) := by
  simp only [push]
  split
  · exact .taken (fills_hold h piece)
  · rename_i hfull
    split
    · obtain ⟨hflush, hheld⟩ := fills_flush h
      generalize s.flush now = after at hflush hheld
      cases hflush with
      | refused hmost hfills => exact .refused_append hmost hfills piece
      | taken hfills =>
          simp only [Option.isSome_none, Bool.false_eq_true, ↓reduceIte]
          split
          · exact fills_append hfills hheld piece
          · exact .taken (fills_hold hfills piece)
    · simp only [Option.isSome_none, Bool.false_eq_true, ↓reduceIte]
      split
      · rename_i hexact hlong
        have hheld : s.held = [] := List.eq_nil_of_length_eq_zero (by omega)
        exact fills_append h hheld piece
      · exact .taken (fills_hold h piece)

theorem fills_pushAll (h : s.Fills o most now text) (pieces : List Bytes) :
    Pushed o most (text ++ pieces.flatten) (s.pushAll now pieces) := by
  induction pieces generalizing now s text with
  | nil =>
      rw [List.flatten_nil, List.append_nil]
      exact .taken h
  | cons piece pieces ih =>
      have hpush := fills_push h piece
      rw [List.flatten_cons, ← List.append_assoc]
      simp only [pushAll]
      generalize s.push now piece = after at hpush
      cases hpush with
      | taken hfills => exact ih hfills
      | refused hmost hfills => exact .refused_append hmost hfills pieces.flatten

end Fill

end Sink

end Collate
