import Collate.Proofs.Arguments.Reading
import Collate.Proofs.Extension

/-!
Whatever is accepted is well formed: one positional argument, every option and every switch but `verbose` at most
once, `quiet` and `verbose` not together, and each setting is what is written for it or its default. Arguments
that cannot be read as items at all are never accepted; which error they lead to is left out here.
-/
namespace Collate.Arguments

/-- What holds of accepted arguments beside that they are made of the items. -/
structure WellFormed (items : List Item) (c : Arguments) : Prop extends Collects items c where
  nonempty : c.extension ≠ ""
  separators : ∀ k ∈ c.extension.toList, k ≠ '/' ∧ k ≠ '\\' ∧ k ≠ '\x00'
  quiet : c.quiet = true → c.verbosity = 0
  root : c.root ≠ some []
  config : c.config ≠ some []

/-- The items cannot stand together, wherever they are. -/
inductive Clash (items : List Item) : Prop where
  | positional : (Item.written .positional items).length ≠ 1 → Clash items
  | option (s : Setting) : 1 < (Item.written (.option s) items).length → Clash items
  | switch (s : Switch) : s.IsSingle → 1 < Item.uses s items → Clash items
  | exclusive : 0 < Item.uses .quiet items → 0 < Item.uses .verbose items → Clash items

variable {items : List Item} {c : Arguments}

private theorem path_ne_nil {written : List Bytes} {stored : Option Path}
    (h : written = [] ∧ stored = none ∨
      ∃ v x, written = [v] ∧ (v ≠ [] ∧ x = v) ∧ stored = some x) :
    stored ≠ some [] := by
  rcases h with ⟨-, rfl⟩ | ⟨v, _, -, ⟨hne, rfl⟩, rfl⟩
  · simp
  · simpa using hne

theorem Collects.wellFormed (h : Collects items c) : WellFormed items c := by
  obtain ⟨e, -, hnormal⟩ := h.positional
  obtain ⟨-, hne, hseparator⟩ := Extension.normalize_eq_ok_iff.mp hnormal
  refine ⟨h, ?_, ?_, ?_, path_ne_nil (h.option .root), path_ne_nil (h.option .config)⟩
  · intro hempty
    exact hne (by rw [hempty]; rfl)
  · intro k hk
    have hplain := hseparator k hk
    simpa [Extension.isSeparator, and_assoc] using hplain
  · intro hquiet
    have hverbosity : ¬ 0 < c.verbosity := fun hpos => h.exclusive ⟨hquiet, hpos⟩
    omega

theorem Collects.not_clash (h : Collects items c) : ¬ Clash items := by
  intro hclash
  cases hclash with
  | positional hlength =>
      obtain ⟨e, hone, -⟩ := h.positional
      exact hlength (by rw [hone]; rfl)
  | option s hlength =>
      rcases h.option s with ⟨hnil, -⟩ | ⟨v, x, hone, -, -⟩
      · rw [hnil] at hlength
        cases hlength
      · rw [hone] at hlength
        exact absurd hlength (Nat.lt_irrefl 1)
  | switch s hs huses =>
      rw [h.switch s hs] at huses
      exact absurd huses (Nat.not_lt.mpr (Bool.toNat_le _))
  | exclusive hquiet hverbose =>
      apply h.exclusive
      constructor
      · rw [h.switch .quiet (by decide)] at hquiet
        cases hc : c.quiet with
        | true => rfl
        | false => simp [isOn, hc] at hquiet
      · rw [h.verbosity]
        omega

/-- Accepted arguments are well formed, and items that clash are never accepted. -/
theorem accepted_wellFormed (arguments : List Bytes) :
    (∀ c, Arguments.read arguments = .ok c →
      (∃ items, Reads none arguments items) ∧
        ∀ items, Reads none arguments items → WellFormed items c) ∧
    ∀ items, Reads none arguments items → Clash items →
      ∃ e, Arguments.read arguments = .error e := by
  constructor
  · intro c hread
    refine ⟨reads_of_read hread, ?_⟩
    intro items hitems
    exact ((read_eq_ok_iff hitems).mp hread).wellFormed
  · intro items hitems hclash
    cases hread : Arguments.read arguments with
    | error e => exact ⟨e, rfl⟩
    | ok c => exact absurd hclash ((read_eq_ok_iff hitems).mp hread).not_clash

/-- Letters in one argument, values that are arguments of their own and one that is not, and the positional
argument last. -/
def clustered : List Bytes :=
  ["-vvrdocs", "--max-depth", "+012", "--output-format=json", "--output-name", "all", ".rs"].map
    Utf8.encode

def inClustered : List Item :=
  [.switch .verbose, .switch .verbose, .value (.option .root) (Utf8.encode "docs"),
    .value (.option .maxDepth) (Utf8.encode "+012"),
    .value (.option .outputFormat) (Utf8.encode "json"),
    .value (.option .outputName) (Utf8.encode "all"), .value .positional (Utf8.encode ".rs")]

def ofClustered : Arguments where
  extension := "rs"
  root := some (Utf8.encode "docs")
  outputName := some "all"
  config := none
  includeHidden := false
  followLinks := false
  maxDepth := some 12
  format := .json
  verbosity := 2
  quiet := false
  dryRun := false

private theorem reads_clustered : Reads none clustered inClustered := by
  have hletters : Letters (Utf8.encode "vvrdocs")
      [.switch .verbose, .switch .verbose, .value (.option .root) (Utf8.encode "docs")] none :=
    .switch rfl (.switch rfl (.attached _ rfl (by decide)))
  have hfirst : Says (Utf8.encode "-vvrdocs") _ none := .letters (by decide) hletters
  have hformat : Says (Utf8.encode "--output-format=json")
      [.value (.option .outputFormat) (Utf8.encode "json")] none := .attached .outputFormat _
  exact .options hfirst <| .options (.opens .maxDepth) <| .value rfl <| .options hformat <|
    .options (.opens .outputName) <| .value rfl <| .positional rfl .nil

/-- Two switches that exclude each other, as letters of one argument. -/
def opposed : List Bytes :=
  [Utf8.encode "rs", Utf8.encode "-vq"]

def inOpposed : List Item :=
  [.value .positional (Utf8.encode "rs"), .switch .verbose, .switch .quiet]

private theorem reads_opposed : Reads none opposed inOpposed := by
  have hletters : Letters (Utf8.encode "vq") [.switch .verbose, .switch .quiet] none :=
    .switch rfl (.switch rfl .nil)
  have hsecond : Says (Utf8.encode "-vq") _ none := .letters (by decide) hletters
  exact .positional rfl (.options hsecond .nil)

theorem accepted_wellFormed_clustered :
    Arguments.read clustered = .ok ofClustered ∧ Reads none clustered inClustered ∧
    WellFormed inClustered ofClustered ∧
    Reads none opposed inOpposed ∧ Clash inOpposed ∧ ∃ e, Arguments.read opposed = .error e := by
  have hread : Arguments.read clustered = .ok ofClustered :=
    toOption_eq_some_iff.mp (by decide +kernel)
  have hclash : Clash inOpposed := .exclusive (by decide) (by decide)
  exact ⟨hread, reads_clustered,
    ((accepted_wellFormed clustered).1 _ hread).2 _ reads_clustered, reads_opposed, hclash,
    (accepted_wellFormed opposed).2 _ reads_opposed hclash⟩

end Collate.Arguments
