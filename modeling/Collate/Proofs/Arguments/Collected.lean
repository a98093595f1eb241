import Collate.Proofs.Arguments.Value

/-!
What is made of the items of a command line: each of them is stored or refused, one after another. In the end
there is a result exactly if the items fit together, and their order does not matter. Which mistake is reported
for items that do not fit is left out here.
-/
namespace Collate

namespace Slot

/-- What is stored changes by what is written: not at all, or once from nothing to the value. -/
inductive Stores (slot : Slot) : Option slot.Value → List Bytes → Option slot.Value → Prop where
  | unwritten (x : Option slot.Value) : Stores slot x [] x
  | written {v : Bytes} {x : slot.Value} :
      slot.Means v x → Stores slot none [v] (some x)

theorem stores_cons_iff {slot : Slot} {before after : Option slot.Value} {v : Bytes}
    {more : List Bytes} :
    slot.Stores before (v :: more) after ↔
      before = none ∧ ∃ x, slot.Means v x ∧ slot.Stores (some x) more after := by
  constructor
  · intro h
    cases h with
    | written hmeans => exact ⟨rfl, _, hmeans, .unwritten _⟩
  · rintro ⟨rfl, x, hmeans, hrest⟩
    cases hrest with
    | unwritten => exact .written hmeans

theorem stores_none_iff {slot : Slot} {written : List Bytes} {stored : Option slot.Value} :
    slot.Stores none written stored ↔
      written = [] ∧ stored = none ∨
        ∃ v x, written = [v] ∧ slot.Means v x ∧ stored = some x := by
  constructor
  · intro h
    cases h with
    | unwritten => exact .inl ⟨rfl, rfl⟩
    | written hmeans => exact .inr ⟨_, _, rfl, hmeans, rfl⟩
  · rintro (⟨rfl, rfl⟩ | ⟨v, x, rfl, hmeans, rfl⟩)
    · exact .unwritten _
    · exact .written hmeans

end Slot

namespace Item

variable {slot other : Slot} {items : List Item}

theorem written_value_self (v : Bytes) :
    written slot (.value slot v :: items) = v :: written slot items := by
  simp [written, writtenFor?]

theorem written_value_of_ne (hne : other ≠ slot) (v : Bytes) :
    written other (.value slot v :: items) = written other items := by
  simp [written, writtenFor?, hne.symm]

theorem uses_value (s : Switch) (v : Bytes) : uses s (.value slot v :: items) = uses s items := by
  simp [uses]

theorem uses_switch (s t : Switch) :
    uses t (.switch s :: items) = uses t items + if s = t then 1 else 0 := by
  simp [uses, List.count_cons]

end Item

/-- Only `verbose` may be used more than once. -/
abbrev Switch.IsSingle (s : Switch) : Prop := s ≠ .verbose

namespace Given

def value? (g : Given) : (slot : Slot) → Option slot.Value
  | .positional => g.extension
  | .option .root => g.root
  | .option .outputName => g.outputName
  | .option .config => g.config
  | .option .maxDepth => g.maxDepth
  | .option .outputFormat => g.format

def put (g : Given) : (slot : Slot) → slot.Value → Given
  | .positional, x => { g with extension := some x }
  | .option .root, x => { g with root := some x }
  | .option .outputName, x => { g with outputName := some x }
  | .option .config, x => { g with config := some x }
  | .option .maxDepth, x => { g with maxDepth := some x }
  | .option .outputFormat, x => { g with format := some x }

def isOn (g : Given) : Switch → Bool
  | .includeHidden => g.includeHidden
  | .followLinks => g.followLinks
  | .verbose => 0 < g.verbosity
  | .quiet => g.quiet
  | .dryRun => g.dryRun
  | .help | .version => false

def take? (g : Given) : Item → Option Given
  | .value slot v => if (g.value? slot).isSome then none else (slot.read? v).map (g.put slot)
  | .switch s => (g.turnOn s true).toOption

def takeAll? (g : Given) (items : List Item) : Option Given :=
  items.foldlM take? g

theorem takeAll?_cons (g : Given) (item : Item) (items : List Item) :
    g.takeAll? (item :: items) = (g.take? item).bind fun g => g.takeAll? items :=
  rfl

theorem takeAll?_append (g : Given) (items more : List Item) :
    g.takeAll? (items ++ more) = (g.takeAll? items).bind fun g => g.takeAll? more :=
  List.foldlM_append

theorem takeAll?_singleton (g : Given) (item : Item) : g.takeAll? [item] = g.take? item :=
  Option.bind_fun_some (g.take? item)

section Views

variable (g : Given) {slot other : Slot} (x : slot.Value)

@[simp] theorem value?_nothing (slot : Slot) : nothing.value? slot = none := by
  cases slot with
  | positional => rfl
  | option s => cases s <;> rfl

@[simp] theorem isOn_nothing (s : Switch) : nothing.isOn s = false := by
  cases s <;> rfl

@[simp] theorem value?_put_self : (g.put slot x).value? slot = some x := by
  cases slot with
  | positional => rfl
  | option s => cases s <;> rfl

theorem value?_put_of_ne (hne : other ≠ slot) : (g.put slot x).value? other = g.value? other := by
  cases slot with
  | positional =>
      cases other with
      | positional => exact absurd rfl hne
      | option t => cases t <;> rfl
  | option s =>
      cases other with
      | positional => cases s <;> rfl
      | option t => cases s <;> cases t <;> first | rfl | exact absurd rfl hne

@[simp] theorem isOn_put (s : Switch) : (g.put slot x).isOn s = g.isOn s := by
  cases slot with
  | positional => cases s <;> rfl
  | option t => cases t <;> cases s <;> rfl

@[simp] theorem verbosity_put : (g.put slot x).verbosity = g.verbosity := by
  cases slot with
  | positional => rfl
  | option t => cases t <;> rfl

end Views

/-- What the items change, apart from which of the switches came last. -/
structure Adds (g : Given) (items : List Item) (h : Given) : Prop where
  slot : ∀ slot : Slot, slot.Stores (g.value? slot) (Item.written slot items) (h.value? slot)
  switch : ∀ s : Switch, s.IsSingle →
    (h.isOn s).toNat = (g.isOn s).toNat + Item.uses s items
  verbosity : h.verbosity = min 255 (g.verbosity + Item.uses .verbose items)

section Steps

variable {g g' h : Given} {items : List Item} {slot : Slot} {v : Bytes} {s : Switch}

theorem take?_value :
    g.take? (.value slot v) = some g' ↔
      g.value? slot = none ∧ ∃ x, slot.Means v x ∧ g.put slot x = g' := by
  simp only [take?, ← Slot.read?_eq_some_iff]
  cases hvalue : g.value? slot with
  | some x => simp
  | none => simp

theorem adds_value_iff :
    g.Adds (.value slot v :: items) h ↔
      g.value? slot = none ∧ ∃ x, slot.Means v x ∧ (g.put slot x).Adds items h := by
  constructor
  · intro hadds
    have hslot := hadds.slot slot
    rw [Item.written_value_self, Slot.stores_cons_iff] at hslot
    obtain ⟨hnone, x, hmeans, hrest⟩ := hslot
    refine ⟨hnone, x, hmeans, ?_, ?_, ?_⟩
    · intro other
      by_cases hne : other = slot
      · subst hne
        rw [value?_put_self]
        exact hrest
      · rw [value?_put_of_ne g x hne, ← Item.written_value_of_ne hne v]
        exact hadds.slot other
    · intro s hs
      rw [isOn_put, ← Item.uses_value s v]
      exact hadds.switch s hs
    · rw [verbosity_put, ← Item.uses_value .verbose v]
      exact hadds.verbosity
  · rintro ⟨hnone, x, hmeans, hadds⟩
    refine ⟨?_, ?_, ?_⟩
    · intro other
      by_cases hne : other = slot
      · subst hne
        have hslot := hadds.slot other
        rw [value?_put_self] at hslot
        rw [Item.written_value_self, Slot.stores_cons_iff]
        exact ⟨hnone, x, hmeans, hslot⟩
      · rw [Item.written_value_of_ne hne, ← value?_put_of_ne g x hne]
        exact hadds.slot other
    · intro s hs
      rw [Item.uses_value, ← isOn_put g x]
      exact hadds.switch s hs
    · rw [Item.uses_value, ← verbosity_put g x]
      exact hadds.verbosity

/-- What a switch that is taken changes. -/
structure Turned (g : Given) (s : Switch) (g' : Given) : Prop where
  slot : ∀ slot, g'.value? slot = g.value? slot
  switch : ∀ t : Switch, t.IsSingle → (g'.isOn t).toNat = (g.isOn t).toNat + if s = t then 1 else 0
  verbosity : g'.verbosity = if s = .verbose then min 255 (g.verbosity + 1) else g.verbosity

theorem off_of_once {already : Bool} (h : (once already s g).toOption = some g') :
    already = false ∧ g = g' := by
  cases already with
  | true => cases h
  | false => exact ⟨rfl, Option.some.inj h⟩

theorem turned_of_take? (h : g.take? (.switch s) = some g') : g.Turned s g' := by
  cases s with
  | includeHidden | followLinks | quiet | dryRun =>
      obtain ⟨hoff, rfl⟩ := off_of_once h
      refine ⟨?_, ?_, rfl⟩
      · intro slot
        cases slot with
        | positional => rfl
        | option t => cases t <;> rfl
      · intro t ht
        cases t <;> simp [isOn, hoff]
  | verbose =>
      obtain rfl := Option.some.inj h
      refine ⟨?_, ?_, rfl⟩
      · intro slot
        cases slot with
        | positional => rfl
        | option t => cases t <;> rfl
      · intro t ht
        cases t <;> first | rfl | exact absurd rfl ht
  | help | version => cases h

theorem exists_take?_switch (h : s.IsSingle → g.isOn s = false ∧ s ≠ .help ∧ s ≠ .version) :
    ∃ g', g.take? (.switch s) = some g' := by
  cases s with
  | includeHidden | followLinks | quiet | dryRun =>
      obtain ⟨hoff, -⟩ := h (by decide)
      simp only [isOn] at hoff
      simp [take?, turnOn, once, hoff, Except.toOption]
  | verbose => exact ⟨_, rfl⟩
  | help => exact absurd rfl (h (by decide)).2.1
  | version => exact absurd rfl (h (by decide)).2.2

theorem adds_switch_iff :
    g.Adds (.switch s :: items) h ↔ ∃ g', g.take? (.switch s) = some g' ∧ g'.Adds items h := by
  constructor
  · intro hadds
    have hfree : s.IsSingle → g.isOn s = false ∧ s ≠ .help ∧ s ≠ .version := by
      intro hs
      have hcount := hadds.switch s hs
      rw [Item.uses_switch, if_pos rfl] at hcount
      have hon : h.isOn s = true := by
        cases hcase : h.isOn s with
        | true => rfl
        | false => simp [hcase] at hcount
      refine ⟨?_, ?_, ?_⟩
      · cases hcase : g.isOn s with
        | true => simp [hcase, hon] at hcount
        | false => rfl
      · rintro rfl
        cases hon
      · rintro rfl
        cases hon
    obtain ⟨g', htake⟩ := exists_take?_switch hfree
    have hturned := turned_of_take? htake
    refine ⟨g', htake, ?_, ?_, ?_⟩
    · intro slot
      rw [hturned.slot]
      exact hadds.slot slot
    · intro t ht
      have hcount := hadds.switch t ht
      rw [Item.uses_switch] at hcount
      rw [hturned.switch t ht]
      omega
    · have hcount := hadds.verbosity
      rw [Item.uses_switch] at hcount
      rw [hturned.verbosity, hcount]
      split <;> omega
  · rintro ⟨g', htake, hadds⟩
    have hturned := turned_of_take? htake
    refine ⟨?_, ?_, ?_⟩
    · intro slot
      rw [← hturned.slot]
      exact hadds.slot slot
    · intro t ht
      rw [hadds.switch t ht, hturned.switch t ht, Item.uses_switch]
      omega
    · rw [hadds.verbosity, hturned.verbosity, Item.uses_switch]
      split <;> omega

/-- Taking one item and adding the others is adding all of them. -/
theorem adds_cons_iff {item : Item} :
    g.Adds (item :: items) h ↔ ∃ g', g.take? item = some g' ∧ g'.Adds items h := by
  cases item with
  | value slot v =>
      rw [adds_value_iff]
      constructor
      · rintro ⟨hnone, x, hmeans, hadds⟩
        exact ⟨_, take?_value.mpr ⟨hnone, x, hmeans, rfl⟩, hadds⟩
      · rintro ⟨g', htake, hadds⟩
        obtain ⟨hnone, x, hmeans, rfl⟩ := take?_value.mp htake
        exact ⟨hnone, x, hmeans, hadds⟩
  | switch s => exact adds_switch_iff

theorem verbosity_le_of_take? {item : Item} (h : g.take? item = some g')
    (hle : g.verbosity ≤ 255) : g'.verbosity ≤ 255 := by
  cases item with
  | value slot v =>
      obtain ⟨-, x, -, rfl⟩ := take?_value.mp h
      rw [verbosity_put]
      exact hle
  | switch s =>
      rw [(turned_of_take? h).verbosity]
      split <;> omega

theorem adds_of_takeAll? (h : g.takeAll? items = some g') (hle : g.verbosity ≤ 255) :
    g.Adds items g' := by
  induction items generalizing g with
  | nil =>
      obtain rfl := Option.some.inj h
      refine ⟨fun slot => .unwritten _, fun s _ => rfl, ?_⟩
      show g.verbosity = min 255 g.verbosity
      omega
  | cons item items ih =>
      obtain ⟨mid, hmid, hrest⟩ := Option.bind_eq_some_iff.mp h
      rw [adds_cons_iff]
      exact ⟨mid, hmid, ih hrest (verbosity_le_of_take? hmid hle)⟩

theorem exists_takeAll? (h : g.Adds items g') : ∃ k, g.takeAll? items = some k := by
  induction items generalizing g with
  | nil => exact ⟨g, rfl⟩
  | cons item items ih =>
      obtain ⟨mid, hmid, hrest⟩ := adds_cons_iff.mp h
      obtain ⟨k, hk⟩ := ih hrest
      exact ⟨k, Option.bind_eq_some_iff.mpr ⟨mid, hmid, hk⟩⟩

end Steps

end Given

namespace Arguments

def value? (c : Arguments) : (slot : Slot) → Option slot.Value
  | .positional => some c.extension
  | .option .root => c.root
  | .option .outputName => c.outputName
  | .option .config => c.config
  | .option .maxDepth => c.maxDepth
  | .option .outputFormat => some c.format

def isOn (c : Arguments) : Switch → Bool
  | .includeHidden => c.includeHidden
  | .followLinks => c.followLinks
  | .verbose => 0 < c.verbosity
  | .quiet => c.quiet
  | .dryRun => c.dryRun
  | .help | .version => false

/-- The items fit together and make these arguments. -/
structure Collects (items : List Item) (c : Arguments) : Prop where
  /-- One positional argument is there, and the extension is its normal form. -/
  positional : ∃ e, Item.written .positional items = [Utf8.encode e] ∧
    Extension.normalize e = .ok c.extension
  /-- Every option is written at most once, and what it has is what is written or the default. -/
  option : ∀ s : Setting,
    Item.written (.option s) items = [] ∧ c.value? (.option s) = Slot.default? (.option s) ∨
      ∃ v x, Item.written (.option s) items = [v] ∧ Slot.Means (.option s) v x ∧
        c.value? (.option s) = some x
  switch : ∀ s : Switch, s.IsSingle → Item.uses s items = (c.isOn s).toNat
  verbosity : c.verbosity = min 255 (Item.uses .verbose items)
  exclusive : ¬ (c.quiet = true ∧ 0 < c.verbosity)

/-- What is stored when these arguments come about, with the format left out or not. -/
def given (c : Arguments) (hasFormat : Bool) : Given where
  extension := c.extension
  root := c.root
  outputName := c.outputName
  config := c.config
  includeHidden := c.includeHidden
  followLinks := c.followLinks
  maxDepth := c.maxDepth
  format := if hasFormat then some c.format else none
  verbosity := c.verbosity
  quiet := c.quiet
  verboseLast := false
  dryRun := c.dryRun

section Collected

variable {g : Given} {c : Arguments} {items : List Item}

theorem finish_eq_ok_iff :
    g.finish = .ok c ↔
      ¬ (g.quiet = true ∧ 0 < g.verbosity) ∧
      (∀ slot : Slot, c.value? slot = (g.value? slot).or slot.default?) ∧
      (∀ s, c.isOn s = g.isOn s) ∧ c.verbosity = g.verbosity := by
  constructor
  · intro h
    simp only [Given.finish] at h
    split at h
    · cases h
    split at h
    · cases h
    · rename_i hexclusive
      split at h
      · cases h
      · rename_i extension hext
        obtain rfl := Except.ok.inj h
        refine ⟨hexclusive, ?_, ?_, rfl⟩
        · intro slot
          cases slot with
          | positional => simp [value?, Given.value?, hext]
          | option s => cases s <;> simp [value?, Given.value?, Slot.default?, Option.or_some]
        · intro s
          cases s <;> rfl
  · rintro ⟨hexclusive, hslot, hswitch, hverbosity⟩
    have hext : g.extension = some c.extension := by
      simpa [value?, Given.value?, Slot.default?] using (hslot .positional).symm
    have hsome : g ≠ Given.nothing := by
      rintro rfl
      cases hext
    have hfields : c = {
        extension := c.extension
        root := g.root
        outputName := g.outputName
        config := g.config
        includeHidden := g.includeHidden
        followLinks := g.followLinks
        maxDepth := g.maxDepth
        format := g.format.getD .human
        verbosity := g.verbosity
        quiet := g.quiet
        dryRun := g.dryRun } := by
      have hroot := hslot (.option .root)
      have houtputName := hslot (.option .outputName)
      have hconfig := hslot (.option .config)
      have hmaxDepth := hslot (.option .maxDepth)
      have hformat := hslot (.option .outputFormat)
      have hhidden := hswitch .includeHidden
      have hlinks := hswitch .followLinks
      have hquiet := hswitch .quiet
      have hdry := hswitch .dryRun
      simp only [value?, Given.value?, Slot.default?, Option.or_none, Option.or_some, isOn, Given.isOn,
        Option.some.injEq] at hroot houtputName hconfig hmaxDepth hformat hhidden hlinks hquiet hdry
      rw [← hroot, ← houtputName, ← hconfig, ← hmaxDepth, ← hformat, ← hhidden, ← hlinks, ← hquiet,
        ← hdry, ← hverbosity]
    rw [Given.finish, if_neg hsome, if_neg hexclusive, hext, hfields]

/-- What has been stored, for items that were taken one after another from the start. -/
structure Gathered (items : List Item) (g : Given) : Prop where
  slot : ∀ slot : Slot, Item.written slot items = [] ∧ g.value? slot = none ∨
    ∃ v x, Item.written slot items = [v] ∧ slot.Means v x ∧ g.value? slot = some x
  switch : ∀ s : Switch, s.IsSingle → (g.isOn s).toNat = Item.uses s items
  verbosity : g.verbosity = min 255 (Item.uses .verbose items)

theorem gathered_iff_adds : Gathered items g ↔ Given.nothing.Adds items g := by
  have hverbosity : Given.nothing.verbosity + Item.uses .verbose items = Item.uses .verbose items :=
    Nat.zero_add _
  constructor
  · intro h
    refine ⟨?_, ?_, ?_⟩
    · intro slot
      rw [Given.value?_nothing, Slot.stores_none_iff]
      exact h.slot slot
    · intro s hs
      rw [Given.isOn_nothing, h.switch s hs]
      simp
    · rw [hverbosity]
      exact h.verbosity
  · intro h
    refine ⟨?_, ?_, ?_⟩
    · intro slot
      rw [← Slot.stores_none_iff, ← Given.value?_nothing slot]
      exact h.slot slot
    · intro s hs
      rw [h.switch s hs, Given.isOn_nothing]
      simp
    · rw [← hverbosity]
      exact h.verbosity

theorem gathered_of_takeAll? (h : Given.nothing.takeAll? items = some g) : Gathered items g :=
  gathered_iff_adds.mpr (Given.adds_of_takeAll? h (by decide))

theorem Gathered.collects (h : Gathered items g) (hfinish : g.finish = .ok c) :
    Collects items c := by
  obtain ⟨hexclusive, hslot, hswitch, hverbosity⟩ := finish_eq_ok_iff.mp hfinish
  refine ⟨?_, ?_, ?_, ?_, ?_⟩
  · have hext : g.value? .positional = some c.extension := Given.extension_of_finish hfinish
    rcases h.slot .positional with ⟨-, hnone⟩ | ⟨v, x, hwritten, hmeans, hx⟩
    · cases hnone.symm.trans hext
    · obtain rfl := Option.some.inj (hx.symm.trans hext)
      obtain ⟨e, rfl, hnormal⟩ := hmeans
      exact ⟨e, hwritten, hnormal⟩
  · intro s
    rw [hslot (.option s)]
    rcases h.slot (.option s) with ⟨hwritten, hnone⟩ | ⟨v, x, hwritten, hmeans, hx⟩
    · exact .inl ⟨hwritten, by rw [hnone, Option.none_or]⟩
    · exact .inr ⟨v, x, hwritten, hmeans, by rw [hx, Option.some_or]⟩
  · intro s hs
    rw [hswitch s, h.switch s hs]
  · rw [hverbosity, h.verbosity]
  · have hquiet : c.quiet = g.quiet := hswitch .quiet
    rw [hquiet, hverbosity]
    exact hexclusive

theorem Collects.gathered (h : Collects items c) :
    Gathered items (c.given (Item.written (.option .outputFormat) items ≠ [])) := by
  refine ⟨?_, ?_, h.verbosity⟩
  · intro slot
    cases slot with
    | positional =>
        obtain ⟨e, hwritten, hnormal⟩ := h.positional
        exact .inr ⟨_, _, hwritten, ⟨e, rfl, hnormal⟩, rfl⟩
    | option s =>
        rcases h.option s with ⟨hwritten, hdefault⟩ | ⟨v, x, hwritten, hmeans, hvalue⟩
        · refine .inl ⟨hwritten, ?_⟩
          cases s <;> simp_all [given, Given.value?, value?, Slot.default?]
        · refine .inr ⟨v, x, hwritten, hmeans, ?_⟩
          cases s <;> simp_all [given, Given.value?, value?]
  · intro s hs
    rw [h.switch s hs]
    cases s <;> rfl

theorem Gathered.value?_of_unwritten (h : Gathered items g) {slot : Slot}
    (hwritten : Item.written slot items = []) : g.value? slot = none := by
  rcases h.slot slot with ⟨-, hnone⟩ | ⟨v, x, hone, -, -⟩
  · exact hnone
  · cases hwritten.symm.trans hone

theorem Gathered.value?_of_written (h : Gathered items g) {slot : Slot} {v : Bytes} {x : slot.Value}
    (hwritten : Item.written slot items = [v]) (hmeans : slot.Means v x) :
    g.value? slot = some x := by
  rcases h.slot slot with ⟨hnil, -⟩ | ⟨w, y, hone, hmeans', hvalue⟩
  · cases hnil.symm.trans hwritten
  · obtain rfl := List.singleton_inj.mp (hwritten.symm.trans hone)
    rw [hvalue, hmeans'.unique hmeans]

theorem Collects.finish (h : Collects items c) (hg : Gathered items g) : g.finish = .ok c := by
  have hverbosity : c.verbosity = g.verbosity := h.verbosity.trans hg.verbosity.symm
  have hswitch (s : Switch) : c.isOn s = g.isOn s := by
    cases s with
    | verbose => simp only [isOn, Given.isOn, hverbosity]
    | includeHidden | followLinks | quiet | dryRun | help | version =>
        apply Bool.eq_iff_iff.mpr
        rw [← Bool.toNat_eq_one, ← Bool.toNat_eq_one, ← h.switch _ (by decide),
          hg.switch _ (by decide)]
  apply finish_eq_ok_iff.mpr
  refine ⟨?_, ?_, hswitch, hverbosity⟩
  · have hquiet : c.quiet = g.quiet := hswitch .quiet
    rw [← hquiet, ← hverbosity]
    exact h.exclusive
  · intro slot
    cases slot with
    | positional =>
        obtain ⟨e, hwritten, hnormal⟩ := h.positional
        exact (hg.value?_of_written hwritten ⟨e, rfl, hnormal⟩).symm ▸ rfl
    | option s =>
        rcases h.option s with ⟨hwritten, hdefault⟩ | ⟨v, x, hwritten, hmeans, hvalue⟩
        · rw [hg.value?_of_unwritten hwritten, hdefault, Option.none_or]
        · rw [hg.value?_of_written hwritten hmeans, hvalue, Option.some_or]

/-- Items give arguments exactly if they fit together and make them. -/
theorem collects_iff :
    Collects items c ↔ ∃ g, Given.nothing.takeAll? items = some g ∧ g.finish = .ok c := by
  constructor
  · intro h
    obtain ⟨g, htake⟩ := Given.exists_takeAll? (gathered_iff_adds.mp h.gathered)
    exact ⟨g, htake, h.finish (gathered_of_takeAll? htake)⟩
  · rintro ⟨g, htake, hfinish⟩
    exact (gathered_of_takeAll? htake).collects hfinish

theorem Collects.perm {more : List Item} (h : Collects items c) (hperm : items.Perm more) :
    Collects more c := by
  have hwritten (slot : Slot) : (Item.written slot more).Perm (Item.written slot items) :=
    hperm.symm.filterMap _
  have huses (s : Switch) : Item.uses s more = Item.uses s items := hperm.symm.count_eq _
  refine ⟨?_, ?_, ?_, ?_, h.exclusive⟩
  · obtain ⟨e, hone, hnormal⟩ := h.positional
    have hpositional := hwritten .positional
    rw [hone, List.perm_singleton] at hpositional
    exact ⟨e, hpositional, hnormal⟩
  · intro s
    have hoption := hwritten (.option s)
    rcases h.option s with ⟨hnil, hdefault⟩ | ⟨v, x, hone, hmeans, hvalue⟩
    · rw [hnil, List.perm_nil] at hoption
      exact .inl ⟨hoption, hdefault⟩
    · rw [hone, List.perm_singleton] at hoption
      exact .inr ⟨v, x, hoption, hmeans, hvalue⟩
  · intro s hs
    rw [huses, h.switch s hs]
  · rw [huses, h.verbosity]

end Collected

end Arguments

end Collate
