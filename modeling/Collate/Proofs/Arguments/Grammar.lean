import Collate.Proofs.Arguments.Positional
import Collate.Proofs.Text.Pieces

/-!
What an argument list says before any of it is checked: for which option or as which positional argument each
value stands, and which switches are there. Whether a value can be stored, and how often something may be
said, is no part of it.
-/
namespace Collate

/-- What takes a value. -/
inductive Slot where
  | positional
  | option (s : Setting)
deriving DecidableEq, Repr

/-- One thing a command line says. -/
inductive Item where
  | value (slot : Slot) (written : Bytes)
  | switch (s : Switch)
deriving DecidableEq, Repr

namespace Item

def writtenFor? (slot : Slot) : Item → Option Bytes
  | value other v => if other = slot then some v else none
  | switch _ => none

def written (slot : Slot) (items : List Item) : List Bytes :=
  items.filterMap (writtenFor? slot)

def uses (s : Switch) (items : List Item) : Nat :=
  items.count (.switch s)

end Item

def Setting.name : Setting → String
  | root => "root"
  | outputName => "output-name"
  | config => "config"
  | maxDepth => "max-depth"
  | outputFormat => "output-format"

def Setting.letter? : Setting → Option Char
  | root => some 'r'
  | config => some 'c'
  | outputName | maxDepth | outputFormat => none

def Switch.name : Switch → String
  | includeHidden => "include-hidden"
  | followLinks => "follow-links"
  | verbose => "verbose"
  | quiet => "quiet"
  | dryRun => "dry-run"
  | help => "help"
  | version => "version"

def Switch.letter? : Switch → Option Char
  | verbose => some 'v'
  | quiet => some 'q'
  | help => some 'h'
  | version => some 'V'
  | includeHidden | followLinks | dryRun => none

def Parameter.name : Parameter → String
  | setting s => s.name
  | switch s => s.name

def Parameter.letter? : Parameter → Option Char
  | setting s => s.letter?
  | switch s => s.letter?

namespace Arguments

open Reader (dash equals isPlain)

/-- The letters after a single dash: switches, until an option takes what is left as its value. An option with
nothing left stays open. -/
inductive Letters : Bytes → List Item → Option Setting → Prop where
  | nil : Letters [] [] none
  | switch {c : Char} {s : Switch} {rest : Bytes} {items : List Item} {opened : Option Setting} :
      s.letter? = some c → Letters rest items opened →
      Letters (Utf8.encodeChar c ++ rest) (.switch s :: items) opened
  | opens {c : Char} {s : Setting} :
      s.letter? = some c → Letters (Utf8.encodeChar c) [] (some s)
  | equals {c : Char} {s : Setting} (value : Bytes) :
      s.letter? = some c →
      Letters (Utf8.encodeChar c ++ equals :: value) [.value (.option s) value] none
  | attached {c : Char} {s : Setting} {b : UInt8} (value : Bytes) :
      s.letter? = some c → b ≠ equals →
      Letters (Utf8.encodeChar c ++ b :: value) [.value (.option s) (b :: value)] none

/-- An argument with options says these items and may leave its last option open. -/
inductive Says : Bytes → List Item → Option Setting → Prop where
  | letters {letters : Bytes} {items : List Item} {opened : Option Setting} :
      letters ≠ [] → Letters letters items opened → Says (dash :: letters) items opened
  | switch (s : Switch) : Says (dash :: dash :: Utf8.encode s.name) [.switch s] none
  | opens (s : Setting) : Says (dash :: dash :: Utf8.encode s.name) [] (some s)
  | attached (s : Setting) (value : Bytes) :
      Says (dash :: dash :: (Utf8.encode s.name ++ equals :: value)) [.value (.option s) value] none

/-- The arguments say these items, where an option may be open before them. -/
inductive Reads : Option Setting → List Bytes → List Item → Prop where
  | nil : Reads none [] []
  | value {s : Setting} {v : Bytes} {rest : List Bytes} {items : List Item} :
      isPlain v → Reads none rest items →
      Reads (some s) (v :: rest) (.value (.option s) v :: items)
  | positional {v : Bytes} {rest : List Bytes} {items : List Item} :
      isPlain v → Reads none rest items → Reads none (v :: rest) (.value .positional v :: items)
  | literal (rest : List Bytes) :
      Reads none ([dash, dash] :: rest) (rest.map (.value .positional))
  | options {argument : Bytes} {items more : List Item} {opened : Option Setting}
      {rest : List Bytes} :
      Says argument items opened → Reads opened rest more →
      Reads none (argument :: rest) (items ++ more)

end Arguments

namespace Parameter

theorem ofShort?_eq_some_iff {c : Char} {p : Parameter} :
    ofShort? c = some p ↔ p.letter? = some c := by
  constructor
  · intro h
    unfold ofShort? at h
    split at h <;> cases h <;> rfl
  · intro h
    obtain s | s := p <;> cases s <;> cases h <;> rfl

theorem ofLong?_eq_some_iff {name : String} {p : Parameter} :
    ofLong? name = some p ↔ name = p.name := by
  constructor
  · intro h
    unfold ofLong? at h
    split at h <;> cases h <;> rfl
  · rintro rfl
    obtain s | s := p <;> cases s <;> rfl

variable {p : Parameter}

/-- Letters are ASCII. -/
theorem toNat_of_letter? {c : Char} (h : p.letter? = some c) : c.toNat < 0x80 := by
  obtain s | s := p <;> cases s <;> cases h <;> decide

/-- No letter is a dash, so letters are told from a long option by their first octet. -/
theorem encodeChar_of_letter? {c : Char} (h : p.letter? = some c) :
    ∃ b, Utf8.encodeChar c = [b] ∧ b ≠ Reader.dash := by
  obtain s | s := p <;> cases s <;> cases h <;> exact ⟨_, rfl, by decide⟩

/-- A name has no equals sign, so an attached value begins after the first one. -/
theorem bne_equals_of_mem_name (p : Parameter) :
    ∀ b ∈ Utf8.encode p.name, (b != Reader.equals) = true := by
  apply List.all_eq_true.mp
  obtain s | s := p <;> cases s <;> decide

theorem encode_name_ne_nil (p : Parameter) : Utf8.encode p.name ≠ [] := by
  obtain s | s := p <;> cases s <;> decide

end Parameter

theorem Arguments.Letters.head {letters : Bytes} {items : List Item} {opened : Option Setting}
    (h : Letters letters items opened) (hne : letters ≠ []) :
    ∃ b body, letters = b :: body ∧ b ≠ Reader.dash := by
  cases h with
  | nil => exact absurd rfl hne
  | switch hc =>
      obtain ⟨b, hb, hdash⟩ := Parameter.encodeChar_of_letter? (p := .switch _) hc
      rw [hb]
      exact ⟨b, _, rfl, hdash⟩
  | opens hc | equals value hc | attached value hc =>
      obtain ⟨b, hb, hdash⟩ := Parameter.encodeChar_of_letter? (p := .setting _) hc
      rw [hb]
      exact ⟨b, _, rfl, hdash⟩

end Collate
