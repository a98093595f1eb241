import Collate.Proofs.Arguments.Reading
import Collate.Proofs.Extension
import Mathlib.Data.List.Count
import Mathlib.Data.List.Perm.Basic

/-!
Writing arguments down. Each setting that is on has a spelling, a value stands in the argument of its option or
in one of its own, and reading the spellings in any order leads back to the arguments. The dot before the
extension is always written here; letters that share an argument are left out.
-/
namespace Collate

namespace Depth

theorem writes_toString {n : Nat} (h : n < depthLimit) : Writes (toString n).toList n where
  digits := by
    refine ⟨Nat.toDigits 10 n, .inl Nat.toList_repr, Nat.toDigits_ne_nil, fun c hc => ?_, ?_⟩
    · exact Nat.isDigit_of_mem_toDigits (by decide) (by decide) hc
    · exact Nat.ofDigitChars_ten_toDigits.symm
  small := h

end Depth

namespace Item

theorem written_append (slot : Slot) (items more : List Item) :
    written slot (items ++ more) = written slot items ++ written slot more :=
  List.filterMap_append

theorem written_option (slot : Slot) (s : Setting) (v : Option Bytes) :
    written slot (v.map (.value (.option s))).toList =
      if .option s = slot then v.toList else [] := by
  cases v with
  | none => simp [written]
  | some v => by_cases hs : .option s = slot <;> simp [written, writtenFor?, hs]

theorem written_switches (slot : Slot) (switches : List Switch) :
    written slot (switches.map .switch) = [] := by
  simp [written, writtenFor?, List.filterMap_map, Function.comp_def]

theorem uses_append (s : Switch) (items more : List Item) :
    uses s (items ++ more) = uses s items + uses s more :=
  List.count_append

theorem uses_option (s : Switch) (slot : Slot) (v : Option Bytes) :
    uses s (v.map (.value slot)).toList = 0 := by
  cases v <;> simp [uses]

theorem uses_switches (s : Switch) (switches : List Switch) :
    uses s (switches.map .switch) = switches.count s :=
  List.count_map_of_injective switches switch (fun _ _ h => switch.inj h) s

end Item

/-- One way to write an item down. A value that is an argument of its own must not look like an option. -/
inductive Item.Spelled : Item → List Bytes → Prop where
  | positional (extension : String) :
      Spelled (.value .positional (Utf8.encode ("." ++ extension)))
        [Utf8.encode ("." ++ extension)]
  | attached (s : Setting) (v : Bytes) :
      Spelled (.value (.option s) v) [Utf8.encode ("--" ++ s.name ++ "=") ++ v]
  | separate (s : Setting) {v : Bytes} :
      v.head? ≠ some Reader.dash →
      Spelled (.value (.option s) v) [Utf8.encode ("--" ++ s.name), v]
  | long (s : Switch) : Spelled (.switch s) [Utf8.encode ("--" ++ s.name)]
  | short (s : Switch) {c : Char} :
      s.letter? = some c →
      Spelled (.switch s) [Utf8.encode ("-" ++ c.toString)]

namespace Arguments

open Reader (dash equals)

def written? (c : Arguments) (hasFormat : Bool) : Setting → Option Bytes
  | .root => c.root
  | .outputName => c.outputName.map Utf8.encode
  | .config => c.config
  | .maxDepth => c.maxDepth.map fun n => Utf8.encode (toString n)
  | .outputFormat => if hasFormat then some (Utf8.encode c.format.name) else none

/-- The settings of the switches and the verbosity, as the switches that have to be said. -/
def switches (c : Arguments) : List Switch :=
  [.includeHidden, .followLinks, .quiet, .dryRun].filter c.isOn ++ .replicate c.verbosity .verbose

/-- All that has to be said to ask for the arguments. -/
def items (c : Arguments) (hasFormat : Bool) : List Item :=
  .value .positional (Utf8.encode ("." ++ c.extension)) ::
    ([Setting.root, .outputName, .config, .maxDepth, .outputFormat].flatMap fun s =>
        ((c.written? hasFormat s).map (.value (.option s))).toList) ++
    c.switches.map .switch

/-- What an argument list can ask for. -/
structure Expressible (c : Arguments) : Prop where
  nonempty : c.extension ≠ ""
  separators : ∀ k ∈ c.extension.toList, k ≠ '/' ∧ k ≠ '\\' ∧ k ≠ '\x00'
  root : c.root ≠ some []
  config : c.config ≠ some []
  maxDepth : ∀ n, c.maxDepth = some n → n < depthLimit
  verbosity : c.verbosity ≤ 255
  exclusive : ¬ (c.quiet = true ∧ 0 < c.verbosity)

section Spellings

variable {c : Arguments} {hasFormat : Bool} {more : List Item} {rest : List Bytes}

theorem encode_long (name : String) :
    Utf8.encode ("--" ++ name) = dash :: dash :: Utf8.encode name := by
  rw [Utf8.encode_append]
  rfl

theorem isPlain_of_head? {v : Bytes} (h : v.head? ≠ some dash) : Reader.isPlain v := by
  match v with
  | [] | [_] => rfl
  | a :: b :: body => simpa [Reader.isPlain] using h

theorem reads_of_spelled {item : Item} {group : List Bytes} (h : item.Spelled group)
    (hrest : Reads none rest more) : Reads none (group ++ rest) (item :: more) := by
  cases h with
  | positional extension =>
      apply Reads.positional _ hrest
      apply isPlain_of_head?
      rw [Utf8.encode_append]
      show some 0x2E ≠ some dash
      decide
  | attached s v =>
      have hattached : Utf8.encode ("--" ++ s.name ++ "=") ++ v =
          dash :: dash :: (Utf8.encode s.name ++ equals :: v) := by
        rw [Utf8.encode_append, encode_long, List.append_assoc]
        rfl
      rw [hattached]
      exact .options (.attached s v) hrest
  | separate s hdash =>
      rw [encode_long]
      exact .options (.opens s) (.value (isPlain_of_head? hdash) hrest)
  | long s =>
      rw [encode_long]
      exact .options (.switch s) hrest
  | short s hc =>
      rename_i c
      have hletters : Letters (Utf8.encodeChar c) [.switch s] none := by
        rw [← List.append_nil (Utf8.encodeChar c)]
        exact .switch hc .nil
      have hshort : Utf8.encode ("-" ++ c.toString) = dash :: Utf8.encodeChar c := by
        rw [Utf8.encode_append, Utf8.encode_toString]
        rfl
      obtain ⟨b, hb, -⟩ := Parameter.encodeChar_of_letter? (p := .switch s) hc
      rw [hshort]
      exact .options (.letters (by rw [hb]; exact List.cons_ne_nil b []) hletters) hrest

theorem reads_of_forall₂ {items : List Item} {groups : List (List Bytes)}
    (h : List.Forall₂ Item.Spelled items groups) : Reads none groups.flatten items := by
  induction h with
  | nil => exact .nil
  | cons hspelled _ ih => exact reads_of_spelled hspelled ih

theorem written_positional_items (c : Arguments) :
    Item.written .positional (c.items hasFormat) = [Utf8.encode ("." ++ c.extension)] := by
  rw [items, Item.written_append, Item.written_switches, Item.written_value_self]
  simp only [List.flatMap_cons, List.flatMap_nil, Item.written_append, Item.written_option]
  rfl

theorem written_option_items (c : Arguments) (s : Setting) :
    Item.written (.option s) (c.items hasFormat) = (c.written? hasFormat s).toList := by
  rw [items, Item.written_append, Item.written_switches, Item.written_value_of_ne (by simp)]
  simp only [List.flatMap_cons, List.flatMap_nil, List.append_nil, Item.written_append,
    Item.written_option]
  cases s <;> simp

theorem count_switches (c : Arguments) (s : Switch) :
    c.switches.count s = if s = .verbose then c.verbosity else (c.isOn s).toNat := by
  have hfilter : (([.includeHidden, .followLinks, .quiet, .dryRun] : List Switch).filter
      c.isOn).count s = if s = .verbose then 0 else (c.isOn s).toNat := by
    cases hon : c.isOn s with
    | true =>
        rw [List.count_filter hon]
        cases s with
        | includeHidden | followLinks | quiet | dryRun | verbose => rfl
        | help | version => cases hon
    | false =>
        rw [List.count_eq_zero.mpr (by simp [hon])]
        simp
  rw [switches, List.count_append, hfilter, List.count_replicate]
  cases s <;> simp

theorem uses_items (c : Arguments) (s : Switch) :
    Item.uses s (c.items hasFormat) = if s = .verbose then c.verbosity else (c.isOn s).toNat := by
  rw [items, Item.uses_append, Item.uses_switches, count_switches]
  simp only [List.flatMap_cons, List.flatMap_nil, List.append_nil, Item.uses_value, Item.uses_append,
    Item.uses_option, Nat.zero_add]

end Spellings

section RoundTrip

variable {c : Arguments} {hasFormat : Bool}

/-- With a dot in front an extension is written so that normalising gives it back. -/
theorem Expressible.normalize (h : c.Expressible) :
    Extension.normalize ("." ++ c.extension) = .ok c.extension := by
  have hlist : ("." ++ c.extension).toList = '.' :: c.extension.toList := by simp
  have hdot : Extension.dropDot ("." ++ c.extension) = c.extension := by
    rw [Extension.dropDot_dot hlist, String.ofList_toList]
  rw [Extension.normalize_eq_ok_iff, hdot]
  refine ⟨rfl, ?_, ?_⟩
  · intro hempty
    exact h.nonempty (String.toList_eq_nil_iff.mp hempty)
  · intro k hk
    obtain ⟨hslash, hbackslash, hnul⟩ := h.separators k hk
    simp [Extension.isSeparator, hslash, hbackslash, hnul]

theorem Expressible.means_written (h : c.Expressible) {s : Setting} {v : Bytes}
    (hv : c.written? hasFormat s = some v) :
    ∃ x, Slot.Means (.option s) v x ∧ c.value? (.option s) = some x := by
  cases s with
  | root =>
      have hroot : c.root = some v := hv
      have hne : v ≠ [] := fun hnil => h.root (by rw [hroot, hnil])
      exact ⟨v, ⟨hne, rfl⟩, hroot⟩
  | config =>
      have hconfig : c.config = some v := hv
      have hne : v ≠ [] := fun hnil => h.config (by rw [hconfig, hnil])
      exact ⟨v, ⟨hne, rfl⟩, hconfig⟩
  | outputName =>
      obtain ⟨name, hname, rfl⟩ := Option.map_eq_some_iff.mp hv
      exact ⟨name, rfl, hname⟩
  | maxDepth =>
      obtain ⟨n, hn, rfl⟩ := Option.map_eq_some_iff.mp hv
      exact ⟨n, ⟨_, rfl, Depth.writes_toString (h.maxDepth n hn)⟩, hn⟩
  | outputFormat =>
      refine ⟨c.format, ?_, rfl⟩
      simp only [written?] at hv
      split at hv
      · rw [← Option.some.inj hv]
        cases c.format <;> rfl
      · cases hv

/-- Only the format may be left out, where it is the default. -/
theorem value?_of_unwritten (hformat : hasFormat = true ∨ c.format = .human) {s : Setting}
    (hs : c.written? hasFormat s = none) :
    c.value? (.option s) = Slot.default? (.option s) := by
  cases s with
  | root | config => exact hs
  | outputName | maxDepth => exact Option.map_eq_none_iff.mp hs
  | outputFormat =>
      rcases hformat with rfl | hhuman
      · cases hs
      · simp only [value?, Slot.default?, hhuman]

theorem Expressible.collects (h : c.Expressible)
    (hformat : hasFormat = true ∨ c.format = .human) : Collects (c.items hasFormat) c := by
  refine ⟨?_, ?_, ?_, ?_, h.exclusive⟩
  · exact ⟨_, written_positional_items c, h.normalize⟩
  · intro s
    rw [written_option_items c s]
    cases hs : c.written? hasFormat s with
    | none => exact .inl ⟨rfl, value?_of_unwritten hformat hs⟩
    | some v =>
        obtain ⟨x, hmeans, hvalue⟩ := h.means_written hs
        exact .inr ⟨v, x, rfl, hmeans, hvalue⟩
  · intro s hs
    rw [uses_items, if_neg hs]
  · rw [uses_items, if_pos rfl]
    have hle := h.verbosity
    omega

/-- The spellings of what arguments need, in any order, are read as these arguments. -/
theorem read_of_spelled (h : c.Expressible) (hformat : hasFormat = true ∨ c.format = .human)
    {groups shuffled : List (List Bytes)}
    (hgroups : List.Forall₂ Item.Spelled (c.items hasFormat) groups)
    (hshuffled : groups.Perm shuffled) : Arguments.read shuffled.flatten = .ok c := by
  obtain ⟨items, hperm, hspelled⟩ : Relation.Comp List.Perm (List.Forall₂ Item.Spelled)
      (c.items hasFormat) shuffled := by
    rw [← List.forall₂_comp_perm_eq_perm_comp_forall₂]
    exact ⟨groups, hgroups, hshuffled⟩
  have hitems : Collects items c := (h.collects hformat).perm hperm
  exact (read_eq_ok_iff (reads_of_forall₂ hspelled)).mpr hitems

end RoundTrip

/-- An empty name, and a path that looks like an option and holds an equals sign. -/
def wanted : Arguments where
  extension := "rs"
  root := some (Utf8.encode "docs")
  outputName := some ""
  config := some (Utf8.encode "-c=")
  includeHidden := true
  followLinks := false
  maxDepth := some 12
  format := .json
  verbosity := 2
  quiet := false
  dryRun := true

def spelled : List (List Bytes) :=
  [[".rs"], ["--root", "docs"], ["--output-name="], ["--config=-c="], ["--max-depth", "12"],
    ["--output-format=json"], ["--include-hidden"], ["--dry-run"], ["-v"], ["--verbose"]].map
      fun group => group.map Utf8.encode

private theorem expressible_wanted : wanted.Expressible where
  nonempty := by decide
  separators := by
    show ∀ k ∈ ['r', 's'], k ≠ '/' ∧ k ≠ '\\' ∧ k ≠ '\x00'
    simp
  root := by decide
  config := by decide
  maxDepth n hn := by
    rw [← Option.some.inj hn]
    decide
  verbosity := by decide
  exclusive := by decide

private theorem spelled_wanted : List.Forall₂ Item.Spelled (wanted.items true) spelled := by
  have hroot : Item.Spelled (.value (.option .root) (Utf8.encode "docs"))
      [Utf8.encode "--root", Utf8.encode "docs"] := .separate .root (by decide)
  have hdepth : Item.Spelled (.value (.option .maxDepth) (Utf8.encode "12"))
      [Utf8.encode "--max-depth", Utf8.encode "12"] := .separate .maxDepth (by decide)
  have hverbose : Item.Spelled (.switch .verbose) [Utf8.encode "-v"] :=
    .short .verbose (show Switch.letter? .verbose = some 'v' from rfl)
  exact .cons (.positional "rs") <| .cons hroot <| .cons (.attached .outputName []) <|
    .cons (.attached .config (Utf8.encode "-c=")) <| .cons hdepth <|
    .cons (.attached .outputFormat (Utf8.encode "json")) <| .cons (.long .includeHidden) <|
    .cons (.long .dryRun) <| .cons hverbose <| .cons (.long .verbose) .nil

theorem read_of_spelled_wanted :
    wanted.Expressible ∧ List.Forall₂ Item.Spelled (wanted.items true) spelled ∧
    Arguments.read spelled.reverse.flatten = .ok wanted :=
  ⟨expressible_wanted, spelled_wanted,
    read_of_spelled expressible_wanted (.inl rfl) spelled_wanted spelled.reverse_perm.symm⟩

end Arguments

end Collate
