import Mathlib.Algebra.GroupWithZero.Nat
import Collate.Block
import Collate.Proofs.Text.Utf8

/-!
Blocks in a writer with so much room. Pieces written one after another leave the writer as all of them written
at once would, and so do blocks: what is there is the beginning of the text, as much as there was room for,
wherever the cut falls. The size that a block is counted with, made up apart from the writing, is the number
of its octets.
-/
namespace Collate

namespace Block

theorem flatten_pieces (b : Block) : b.pieces.flatten = b.bytes := by
  simp [pieces, bytes]

theorem length_bytes (b : Block) : b.bytes.length = b.size := by
  simp [bytes, size, closing, Nat.add_assoc]

end Block

namespace Slice

section Pieces

variable {s : Slice} {piece : Bytes}

theorem write_nil (s : Slice) : s.write [] = (s, true) := by
  simp [write]

/-- Behind a piece that fits, what is left of the room is the room for the rest. -/
theorem write_append_of_le (h : piece.length ≤ s.room) (rest : Bytes) :
    s.write (piece ++ rest) = (s.write piece).1.write rest := by
  have htake : (piece ++ rest).take s.room =
      piece.take s.room ++ rest.take (s.room - piece.length) := List.take_append
  have hroom : s.room - (piece ++ rest).length = s.room - piece.length - rest.length := by
    rw [List.length_append, Nat.sub_sub]
  have hfits : decide ((piece ++ rest).length ≤ s.room) =
      decide (rest.length ≤ s.room - piece.length) := by
    rw [List.length_append]
    exact decide_eq_decide.mpr (by omega)
  rw [write, htake, hroom, hfits, ← List.append_assoc]
  rfl

/-- Behind a piece that does not fit, nothing more has any influence. -/
theorem write_append_of_lt (h : s.room < piece.length) (rest : Bytes) :
    s.write (piece ++ rest) = s.write piece := by
  have hcut : (piece ++ rest).take s.room = piece.take s.room :=
    List.take_append_of_le_length (Nat.le_of_lt h)
  have hlong : ¬ (piece ++ rest).length ≤ s.room := by
    rw [List.length_append]
    omega
  have hfull : s.room - (piece ++ rest).length = s.room - piece.length := by
    rw [List.length_append]
    omega
  simp only [write, hcut, hfull, hlong, Nat.not_le.mpr h]

theorem writeAll_eq_write (s : Slice) (pieces : List Bytes) :
    s.writeAll pieces = s.write pieces.flatten := by
  induction pieces generalizing s with
  | nil => exact (write_nil s).symm
  | cons piece pieces ih =>
      rw [List.flatten_cons, writeAll]
      by_cases h : piece.length ≤ s.room
      · have hwrite : s.write piece = ((s.write piece).1, true) := by
          simp [write, h]
        rw [write_append_of_le h, hwrite]
        exact ih _
      · have hwrite : s.write piece = ((s.write piece).1, false) := by
          simp [write, h]
        rw [write_append_of_lt (Nat.lt_of_not_le h), hwrite]

end Pieces

section Blocks

variable {s : Slice} {text : Bytes}

/-- A text at once. -/
def writeText (s : Slice) (text : Bytes) : Slice × Except FaultKind Nat :=
  ((s.write text).1, if text.length ≤ s.room then .ok text.length else .error .writeZero)

theorem writeText_append_of_le (h : text.length ≤ s.room) (rest : Bytes) :
    s.writeText (text ++ rest) =
      (((s.write text).1.writeText rest).1,
        ((s.write text).1.writeText rest).2.map (text.length + ·)) := by
  simp only [writeText, write_append_of_le h, List.length_append]
  by_cases hrest : text.length + rest.length ≤ s.room
  · have hfits : rest.length ≤ (s.write text).1.room := Nat.le_sub_of_add_le' hrest
    rw [if_pos hrest, if_pos hfits]
    rfl
  · have hlong : ¬ rest.length ≤ (s.write text).1.room := fun hfits =>
      hrest (Nat.add_comm .. ▸ Nat.add_le_of_le_sub h hfits)
    rw [if_neg hrest, if_neg hlong]
    rfl

theorem writeText_append_of_lt (h : s.room < text.length) (rest : Bytes) :
    s.writeText (text ++ rest) = s.writeText text := by
  have hlong : ¬ (text ++ rest).length ≤ s.room := by
    rw [List.length_append]
    omega
  rw [writeText, writeText, write_append_of_lt h, if_neg hlong, if_neg (Nat.not_le.mpr h)]

theorem writeBlock_eq_writeText (s : Slice) (b : Block) : s.writeBlock b = s.writeText b.bytes := by
  rw [writeBlock, writeAll_eq_write, Block.flatten_pieces, writeText, ← Block.length_bytes]
  by_cases h : b.bytes.length ≤ s.room <;> simp [write, h]

theorem writeBlocks_eq_writeText (s : Slice) (blocks : List Block) :
    s.writeBlocks blocks = s.writeText (blocks.flatMap Block.bytes) := by
  induction blocks generalizing s with
  | nil => simp [writeBlocks, writeText, write_nil]
  | cons b blocks ih =>
      rw [List.flatMap_cons, writeBlocks, writeBlock_eq_writeText]
      by_cases h : b.bytes.length ≤ s.room
      · rw [writeText_append_of_le h, writeText, if_pos h]
        simp only [ih]
      · rw [writeText_append_of_lt (Nat.lt_of_not_le h), writeText, if_neg h]

end Blocks

section Prefix

variable (s : Slice)

theorem written_writeText (text : Bytes) :
    (s.writeText text).1.written = s.written ++ text.take (min s.room text.length) := by
  rw [← List.take_eq_take_min]
  rfl

/-- A block leaves the octets it begins with, as many as there was room for; it counts all of them if there was
room for all, and fails with the fault of a full writer otherwise. A run of blocks does the same with the
octets of all of them. -/
theorem written_prefix (b : Block) (blocks : List Block) :
    b.bytes = Utf8.encode "# " ++ Utf8.encode b.header ++ Utf8.encode "\n\n" ++ b.contents ++
        Utf8.encode "\n\n" ∧
      (s.writeBlock b).1.written = s.written ++ b.bytes.take (min s.room b.bytes.length) ∧
      (s.writeBlock b).2 =
        (if b.bytes.length ≤ s.room then .ok b.bytes.length else .error .writeZero) ∧
      (s.writeBlocks blocks).1.written =
        s.written ++ (blocks.flatMap Block.bytes).take
          (min s.room (blocks.map (·.bytes.length)).sum) ∧
      (s.writeBlocks blocks).2 =
        (if (blocks.map (·.bytes.length)).sum ≤ s.room then
          .ok (blocks.map (·.bytes.length)).sum
        else .error .writeZero) := by
  have hlength : (blocks.map (·.bytes.length)).sum = (blocks.flatMap Block.bytes).length :=
    List.length_flatMap.symm
  refine ⟨?_, ?_, ?_, ?_, ?_⟩
  · rw [Block.bytes, Block.opening, Utf8.encode_append, Utf8.encode_append]
    rfl
  · rw [writeBlock_eq_writeText, written_writeText]
  · rw [writeBlock_eq_writeText]
    rfl
  · rw [writeBlocks_eq_writeText, hlength, written_writeText]
  · rw [writeBlocks_eq_writeText, hlength]
    rfl

/-- The cut may fall inside a character. -/
example : ((Slice.mk [] 10).writeBlock ⟨"ab", Utf8.encode "xyzé"⟩).1.written =
    Utf8.encode "# ab\n\nxyz" ++ [0xC3] := by decide

end Prefix

end Slice

end Collate
