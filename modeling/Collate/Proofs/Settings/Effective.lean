import Collate.Proofs.Settings.Load
import Collate.Proofs.Text.Pieces
import Collate.Proofs.Toml

/-!
The settings that a run comes to have, key by key: what the arguments set, else what the settings file states,
else the default. A file is read whatever it states; only the outcome is checked. What a file has to look like
as a document is left to the reader of documents.
-/
namespace Collate.Settings

open Toml (Fields Value)

/-- What a settings file states; `none` where it is silent. -/
structure Stated where
  includeHidden : Option Bool
  followLinks : Option Bool
  maxDepth : Option Nat
  outputName : Option String

def Stated.silent : Stated :=
  ⟨none, none, none, none⟩

/-- A value of the right type states what it was made of, and an absent one states nothing. -/
inductive Typed {α : Type} (make : α → Value) : Option Value → Option α → Prop where
  | absent : Typed make none none
  | present (a : α) : Typed make (some (make a)) (some a)

/-- What a group of settings holds under a key. A group is a table; an array stands for one by the places of
its elements, and a point in time for one without any key. -/
inductive Member (place : Nat) (key : String) : Option Value → Option Value → Prop where
  | absent : Member place key none none
  | table (kind : Toml.TableKind) (fields : Fields) :
      Member place key (some (.table kind fields)) (fields.get? key)
  | array (items : List Value) : Member place key (some (.array items)) items[place]?
  | tables (items : List Value) : Member place key (some (.tables items)) items[place]?
  | moment : Member place key (some .moment) none

/-- All keys of the document that are known have values of the right types, which state this. -/
structure States (fields : Fields) (st : Stated) : Prop where
  includeHidden : ∃ v, Member 0 "include_hidden" (fields.get? "scan") v ∧
    Typed .boolean v st.includeHidden
  followLinks : ∃ v, Member 1 "follow_links" (fields.get? "scan") v ∧
    Typed .boolean v st.followLinks
  maxDepth : ∃ v, Member 2 "max_depth" (fields.get? "scan") v ∧
    Typed (fun n : Nat => .integer n) v st.maxDepth
  outputName : ∃ v, Member 0 "file_name" (fields.get? "output") v ∧ Typed .text v st.outputName

/-- The file at the path is there, is text and is a document with these fields. -/
def HoldsDocument (fs : FileSystem) (path : Path) (fields : Fields) : Prop :=
  ∃ data text, fs.readText path = .ok data ∧ Utf8.decode? data = some text ∧
    Fields.read? text = some fields

/-- Without a settings file nothing is stated. -/
inductive Supplies (fs : FileSystem) : Option Path → Stated → Prop where
  | nothing : Supplies fs none .silent
  | file {path : Path} {fields : Fields} {st : Stated} :
      HoldsDocument fs path fields → States fields st → Supplies fs (some path) st

/-- The settings that the arguments and a file make together. -/
structure Effective (a : Arguments) (st : Stated) (s : Settings) : Prop where
  outputName : s.outputName = (a.outputName.or st.outputName).getD "concat.txt"
  maxDepth : s.scan.maxDepth = a.maxDepth.or st.maxDepth
  includeHidden : s.scan.includeHidden = true ↔
    a.includeHidden = true ∨ st.includeHidden = some true
  followLinks : s.scan.followLinks = true ↔ a.followLinks = true ∨ st.followLinks = some true

/-- The settings of a run: what its arguments and its file make together, if that is valid. -/
structure Loads (fs : FileSystem) (a : Arguments) (s : Settings) : Prop where
  effective : ∃ st, Supplies fs a.config st ∧ Effective a st s
  valid : s.validate = .ok ()

theorem loads_iff {fs : FileSystem} {a : Arguments} {s : Settings} :
    Loads fs a s ↔ ∃ st, Supplies fs a.config st ∧ Effective a st s ∧ s.validate = .ok () :=
  ⟨fun ⟨⟨st, hst, heffective⟩, hvalid⟩ => ⟨st, hst, heffective, hvalid⟩,
    fun ⟨st, hst, heffective, hvalid⟩ => ⟨⟨st, hst, heffective⟩, hvalid⟩⟩

section Document

variable {v : Option Value} {w x y z : Option Value}

theorem typed_iff {α : Type} {make : α → Value} {st : Option α} :
    Typed make v st ↔ v = none ∧ st = none ∨ ∃ a, v = some (make a) ∧ st = some a := by
  constructor
  · intro h
    cases h with
    | absent => exact .inl ⟨rfl, rfl⟩
    | present a => exact .inr ⟨a, rfl, rfl⟩
  · rintro (⟨rfl, rfl⟩ | ⟨a, rfl, rfl⟩)
    · exact .absent
    · exact .present a

theorem flag?_eq_some_iff {current b : Bool} :
    flag? current v = some b ↔ ∃ st, Typed .boolean v st ∧ b = st.getD current := by
  simp only [typed_iff]
  cases v with
  | none => simp [flag?, eq_comm]
  | some value => cases value <;> simp [flag?, eq_comm]

theorem count?_eq_some_iff {current d : Option Nat} :
    count? current v = some d ↔
      ∃ st, Typed (fun n : Nat => .integer n) v st ∧ d = st.or current := by
  simp only [typed_iff]
  cases v with
  | none => simp [count?, eq_comm]
  | some value =>
      cases value with
      | integer n =>
          cases n with
          | ofNat k =>
              simp only [count?, Option.some.injEq, Value.integer.injEq, Int.ofNat_eq_natCast,
                Int.natCast_inj, reduceCtorEq, false_and, false_or, exists_eq_left', Option.some_or,
                eq_comm, exists_eq_left]
          | negSucc k => simp [count?]
      | text _ | float | boolean _ | moment | array _ | table _ _ | tables _ => simp [count?]

theorem name?_eq_some_iff {current s : String} :
    name? current v = some s ↔ ∃ st, Typed .text v st ∧ s = st.getD current := by
  simp only [typed_iff]
  cases v with
  | none => simp [name?, eq_comm]
  | some value => cases value <;> simp [name?, eq_comm]

@[simp] theorem member_none {place : Nat} {key : String} : Member place key none w ↔ w = none :=
  ⟨fun h => by cases h; rfl, by rintro rfl; exact .absent⟩

@[simp] theorem member_table {place : Nat} {key : String} {kind : Toml.TableKind} {fields : Fields} :
    Member place key (some (.table kind fields)) w ↔ w = fields.get? key :=
  ⟨fun h => by cases h; rfl, fun h => h ▸ .table kind fields⟩

@[simp] theorem member_array {place : Nat} {key : String} {items : List Value} :
    Member place key (some (.array items)) w ↔ w = items[place]? :=
  ⟨fun h => by cases h; rfl, fun h => h ▸ .array items⟩

@[simp] theorem member_tables {place : Nat} {key : String} {items : List Value} :
    Member place key (some (.tables items)) w ↔ w = items[place]? :=
  ⟨fun h => by cases h; rfl, fun h => h ▸ .tables items⟩

@[simp] theorem member_moment {place : Nat} {key : String} :
    Member place key (some .moment) w ↔ w = none :=
  ⟨fun h => by cases h; rfl, fun h => h ▸ .moment⟩

theorem read_members_iff {s : ScanSettings} :
    (do return ⟨← flag? false x, ← flag? false y, ← count? none z⟩ : Option ScanSettings) = some s ↔
      ∃ h l m, Typed .boolean x h ∧ Typed .boolean y l ∧
        Typed (fun n : Nat => .integer n) z m ∧ s = ⟨h.getD false, l.getD false, m⟩ := by
  simp only [Option.bind_eq_bind, Option.bind_eq_some_iff, flag?_eq_some_iff, count?_eq_some_iff,
    Option.pure_def, Option.some.injEq, Option.or_none]
  constructor
  · rintro ⟨_, ⟨h, hh, rfl⟩, _, ⟨l, hl, rfl⟩, d, ⟨m, hm, hd⟩, rfl⟩
    exact ⟨h, l, m, hh, hl, hm, by rw [hd]⟩
  · rintro ⟨h, l, m, hh, hl, hm, rfl⟩
    exact ⟨_, ⟨h, hh, rfl⟩, _, ⟨l, hl, rfl⟩, _, ⟨m, hm, rfl⟩, rfl⟩

theorem scan?_eq_some_iff {s : ScanSettings} :
    scan? default.scan v = some s ↔
      ∃ h l m, (∃ x, Member 0 "include_hidden" v x ∧ Typed .boolean x h) ∧
        (∃ y, Member 1 "follow_links" v y ∧ Typed .boolean y l) ∧
        (∃ z, Member 2 "max_depth" v z ∧ Typed (fun n : Nat => .integer n) z m) ∧
        s = ⟨h.getD false, l.getD false, m⟩ := by
  cases v with
  | none => simp [scan?, typed_iff, default, eq_comm]
  | some value =>
      cases value with
      | table kind fields => simpa [scan?, members?, default] using read_members_iff
      | array items | tables items =>
          simpa [scan?, members?, default, List.range_succ] using read_members_iff
      | moment => simpa [scan?, members?, default] using read_members_iff
      | text _ | integer _ | float | boolean _ =>
          constructor
          · intro h
            simp [scan?, members?] at h
          · rintro ⟨h, l, m, ⟨x, hx, -⟩, -⟩
            cases hx

theorem outputName?_eq_some_iff {s : String} :
    outputName? default.outputName v = some s ↔
      ∃ st, (∃ x, Member 0 "file_name" v x ∧ Typed .text x st) ∧ s = st.getD defaultOutputName := by
  cases v with
  | none => simp [outputName?, typed_iff, default, eq_comm]
  | some value =>
      cases value with
      | table kind fields => simpa [outputName?, members?, default] using name?_eq_some_iff
      | array items | tables items => simpa [outputName?, members?, default] using name?_eq_some_iff
      | moment => simpa [outputName?, members?, default] using name?_eq_some_iff
      | text _ | integer _ | float | boolean _ =>
          constructor
          · intro h
            simp [outputName?, members?] at h
          · rintro ⟨st, ⟨x, hx, -⟩, -⟩
            cases hx

/-- What is stated, with the defaults where nothing is. -/
def Stated.settings (st : Stated) : Settings :=
  ⟨⟨st.includeHidden.getD false, st.followLinks.getD false, st.maxDepth⟩,
    st.outputName.getD defaultOutputName⟩

theorem ofFields?_eq_some_iff {fields : Fields} {s : Settings} :
    ofFields? fields = some s ↔ ∃ st, States fields st ∧ s = st.settings := by
  simp only [ofFields?, Option.bind_eq_bind, Option.bind_eq_some_iff, Option.pure_def,
    Option.some.injEq, scan?_eq_some_iff, outputName?_eq_some_iff]
  constructor
  · rintro ⟨_, ⟨h, l, m, hh, hl, hm, rfl⟩, _, ⟨n, hn, rfl⟩, rfl⟩
    exact ⟨⟨h, l, m, n⟩, ⟨hh, hl, hm, hn⟩, rfl⟩
  · rintro ⟨⟨h, l, m, n⟩, ⟨hh, hl, hm, hn⟩, rfl⟩
    exact ⟨_, ⟨h, l, m, hh, hl, hm, rfl⟩, _, ⟨n, hn, rfl⟩, rfl⟩

end Document

section Load

variable {fs : FileSystem} {a : Arguments} {path : Path} {s : Settings}

theorem gives_iff {base : Settings} :
    Gives fs path base ↔
      ∃ fields st, HoldsDocument fs path fields ∧ States fields st ∧ base = st.settings := by
  simp only [Gives, HoldsDocument, ofToml?, Option.bind_eq_some_iff, ofFields?_eq_some_iff]
  constructor
  · rintro ⟨data, text, hread, htext, fields, hfields, st, hst, rfl⟩
    exact ⟨fields, st, ⟨data, text, hread, htext, hfields⟩, hst, rfl⟩
  · rintro ⟨fields, st, ⟨data, text, hread, htext, hfields⟩, hst, rfl⟩
    exact ⟨data, text, hread, htext, fields, hfields, st, hst, rfl⟩

/-- Where there is a settings file, it alone supplies what is stated. -/
theorem supplies_iff {config : Option Path} {base : Settings} :
    (config = none ∧ base = default ∨ ∃ path, config = some path ∧ Gives fs path base) ↔
      ∃ st, Supplies fs config st ∧ base = st.settings := by
  constructor
  · rintro (⟨rfl, rfl⟩ | ⟨path, rfl, hgives⟩)
    · exact ⟨.silent, .nothing, rfl⟩
    · obtain ⟨fields, st, hfields, hst, rfl⟩ := gives_iff.mp hgives
      exact ⟨st, .file hfields hst, rfl⟩
  · rintro ⟨st, hsupplies, rfl⟩
    cases hsupplies with
    | nothing => exact .inl ⟨rfl, rfl⟩
    | file hfields hst => exact .inr ⟨_, rfl, gives_iff.mpr ⟨_, st, hfields, hst, rfl⟩⟩

/-- A switch that a file and the arguments can turn on, and neither can turn off. -/
theorem eq_getD_or_iff {b x : Bool} {o : Option Bool} :
    b = (o.getD false || x) ↔ (b = true ↔ x = true ∨ o = some true) := by
  cases o with
  | none => cases b <;> cases x <;> decide
  | some y => cases b <;> cases x <;> cases y <;> decide

theorem effective_iff {st : Stated} : Effective a st s ↔ s = st.settings.merge a.overrides := by
  have hdefault : (a.outputName.or st.outputName).getD "concat.txt" =
      (st.settings.merge a.overrides).outputName := by
    cases hname : a.outputName <;> simp [merge, Stated.settings, Arguments.overrides, hname,
      defaultOutputName]
  constructor
  · intro h
    have hname := h.outputName.trans hdefault
    have hhidden := eq_getD_or_iff.mpr h.includeHidden
    have hlinks := eq_getD_or_iff.mpr h.followLinks
    calc s = ⟨⟨s.scan.includeHidden, s.scan.followLinks, s.scan.maxDepth⟩, s.outputName⟩ := rfl
      _ = st.settings.merge a.overrides := by rw [hname, hhidden, hlinks, h.maxDepth]; rfl
  · rintro rfl
    exact ⟨hdefault.symm, rfl, eq_getD_or_iff.mp rfl, eq_getD_or_iff.mp rfl⟩

theorem load_eq_ok_iff : load fs a = .ok s ↔ Loads fs a s := by
  simp only [load_eq_ok_iff_merge, loadOrDefault_eq_ok_iff, supplies_iff]
  constructor
  · rintro ⟨_, ⟨st, hst, rfl⟩, hs, hvalid⟩
    exact ⟨⟨st, hst, effective_iff.mpr hs⟩, hvalid⟩
  · rintro ⟨⟨st, hst, heffective⟩, hvalid⟩
    exact ⟨st.settings, ⟨st, hst, rfl⟩, effective_iff.mp heffective, hvalid⟩

theorem validate_of_overridden {st : Stated} (h : Effective a st s) {name : String} {depth : Nat}
    (hname : a.outputName = some name) (hplain : Path.isPlainName (Utf8.encode name))
    (hdepth : a.maxDepth = some depth) (hpos : 0 < depth) : s.validate = .ok () := by
  have hn : s.outputName = name := by simpa [hname] using h.outputName
  have hd : s.scan.maxDepth = some depth := by simpa [hdepth] using h.maxDepth
  have hnonempty : name.isEmpty = false := by
    refine Bool.eq_false_iff.mpr fun hempty => ?_
    rw [String.isEmpty_iff.mp hempty] at hplain
    cases hplain
  simp [validate, hn, hd, hnonempty, hplain, Nat.ne_of_gt hpos]

end Load

section Known

/-- What a table of the document holds under a key. -/
def entry? (fields : Fields) (group key : String) : Option Value :=
  match fields.get? group with
  | some (.table _ inner) => Fields.get? inner key
  | _ => none

/-- The group is a table, or is not there. -/
def IsTabular (fields : Fields) (group : String) : Prop :=
  fields.get? group = none ∨ ∃ kind inner, fields.get? group = some (.table kind inner)

/-- The groups and keys that are read. -/
def knownKeys : List (String × String) :=
  [("scan", "include_hidden"), ("scan", "follow_links"), ("scan", "max_depth"),
    ("output", "file_name")]

variable {fields other : Fields}

theorem member_of_tabular {group : String} (h : IsTabular fields group) {place : Nat} {key : String}
    {w : Option Value} :
    Member place key (fields.get? group) w ↔ w = entry? fields group key := by
  rcases h with h | ⟨kind, inner, h⟩
  · simp [h, entry?]
  · simp [h, entry?]

theorem states_congr (hfields : ∀ k ∈ knownKeys, IsTabular fields k.1)
    (hother : ∀ k ∈ knownKeys, IsTabular other k.1)
    (hsame : ∀ k ∈ knownKeys, entry? fields k.1 k.2 = entry? other k.1 k.2) {st : Stated}
    (h : States fields st) : States other st := by
  have hmember (k : String × String) (hk : k ∈ knownKeys) (place : Nat) {w : Option Value}
      (hw : Member place k.2 (fields.get? k.1) w) : Member place k.2 (other.get? k.1) w := by
    rw [member_of_tabular (hfields k hk)] at hw
    rw [member_of_tabular (hother k hk), hw, hsame k hk]
  obtain ⟨⟨x, hx, hidden⟩, ⟨y, hy, links⟩, ⟨z, hz, depth⟩, n, hn, name⟩ := h
  exact ⟨⟨x, hmember ("scan", "include_hidden") (by simp [knownKeys]) 0 hx, hidden⟩,
    ⟨y, hmember ("scan", "follow_links") (by simp [knownKeys]) 1 hy, links⟩,
    ⟨z, hmember ("scan", "max_depth") (by simp [knownKeys]) 2 hz, depth⟩,
    ⟨n, hmember ("output", "file_name") (by simp [knownKeys]) 0 hn, name⟩⟩

theorem HoldsDocument.unique {fs : FileSystem} {path : Path} (h : HoldsDocument fs path fields)
    (hother : HoldsDocument fs path other) : fields = other := by
  obtain ⟨data, text, hread, htext, hfields⟩ := h
  obtain ⟨data', text', hread', htext', hfields'⟩ := hother
  cases hread.symm.trans hread'
  cases htext.symm.trans htext'
  exact Option.some.inj (hfields.symm.trans hfields')

theorem supplies_iff_states {fs : FileSystem} {path : Path} (h : HoldsDocument fs path fields)
    {st : Stated} : Supplies fs (some path) st ↔ States fields st := by
  constructor
  · intro hst
    cases hst with
    | file hother hst => exact h.unique hother ▸ hst
  · exact .file h

end Known

/-- A run has settings exactly if its file, where it is given one, is there, is text and gives the known keys
values of their types, and what then follows from arguments, file and defaults is valid; what the file states
under other keys, or in vain, does not count. Every failure is one of the configuration. -/
theorem load_effective (fs : FileSystem) (a : Arguments) :
    (∀ s, load fs a = .ok s ↔
      ∃ st, Supplies fs a.config st ∧ Effective a st s ∧ s.validate = .ok ()) ∧
    (∀ e, load fs a = .error e → ∃ message, e = .config message) ∧
    (∀ st name depth, Supplies fs a.config st → a.outputName = some name →
      Path.isPlainName (Utf8.encode name) → a.maxDepth = some depth → 0 < depth →
      ∃ s, load fs a = .ok s) ∧
    ∀ (changed : FileSystem) (path : Path) (fields other : Fields), a.config = some path →
      HoldsDocument fs path fields → HoldsDocument changed path other →
      (∀ k ∈ knownKeys, IsTabular fields k.1 ∧ IsTabular other k.1 ∧
        entry? fields k.1 k.2 = entry? other k.1 k.2) →
      ∀ s, load fs a = .ok s ↔ load changed a = .ok s := by
  refine ⟨fun s => load_eq_ok_iff.trans loads_iff, fun e => load_error, ?_, ?_⟩
  · intro st name depth hsupplies hname hplain hdepth hpos
    have heffective : Effective a st (st.settings.merge a.overrides) := effective_iff.mpr rfl
    have hvalid := validate_of_overridden heffective hname hplain hdepth hpos
    exact ⟨_, load_eq_ok_iff.mpr ⟨⟨st, hsupplies, heffective⟩, hvalid⟩⟩
  · intro changed path fields other hconfig hfields hother hagree s
    have hstates (st : Stated) : States fields st ↔ States other st :=
      ⟨states_congr (fun k hk => (hagree k hk).1) (fun k hk => (hagree k hk).2.1)
          fun k hk => (hagree k hk).2.2,
        states_congr (fun k hk => (hagree k hk).2.1) (fun k hk => (hagree k hk).1)
          fun k hk => (hagree k hk).2.2.symm⟩
    have hsupplies (st : Stated) : Supplies fs (some path) st ↔ Supplies changed (some path) st := by
      rw [supplies_iff_states hfields, supplies_iff_states hother, hstates]
    simp only [load_eq_ok_iff, loads_iff, hconfig, hsupplies]

def terse : String :=
  "[scan]\nfollow_links = true\nmax_depth = 0\n[output]\nfile_name = ''\n"

def terseFields : Fields :=
  [("scan", .table .headed [("follow_links", .boolean true), ("max_depth", .integer 0)]),
    ("output", .table .headed [("file_name", .text "")])]

/-- The same settings in another order, and more to pass over. -/
def cluttered : String :=
  "theme = 'dark'\noutput = \x7b mode = 7, file_name = '' \x7d\nscan.max_depth = 0\nscan.follow_links = true\n"

def clutteredFields : Fields :=
  [("theme", .text "dark"),
    ("output", .table .inlined [("mode", .integer 7), ("file_name", .text "")]),
    ("scan", .table .dotted [("max_depth", .integer 0), ("follow_links", .boolean true)])]

def withSettings (settings : String) : FileSystem where
  root := .dir [(Utf8.encode "c.toml", .file (Utf8.encode settings) none)]
  cwd := []

theorem holdsDocument_withSettings_iff {settings : String} {fields : Fields} :
    HoldsDocument (withSettings settings) (Utf8.encode "c.toml") fields ↔
      Fields.read? settings = some fields := by
  have hstat : (withSettings settings).stat (Utf8.encode "c.toml") =
      .ok ([Utf8.encode "c.toml"], .file (Utf8.encode settings) none) := rfl
  have hread : (withSettings settings).readText (Utf8.encode "c.toml") =
      .ok (Utf8.encode settings) := by
    simp [FileSystem.readText, hstat, FileSystem.readNode, Utf8.isValid_encode, bind, Except.bind]
  constructor
  · rintro ⟨data, text, hdata, htext, hfields⟩
    obtain rfl := Except.ok.inj (hread.symm.trans hdata)
    rwa [Utf8.encode_inj.mp (Utf8.decode?_eq_some_iff.mp htext)]
  · exact fun hfields => ⟨_, settings, hread, Utf8.decode?_eq_some_iff.mpr rfl, hfields⟩

/-- The name and the depth of the file would not do, but they are not used. -/
def overriding : Arguments :=
  ⟨"rs", none, some "all.rs.txt", some (Utf8.encode "c.toml"), true, false, some 3, .human, 0, false,
    false⟩

theorem load_effective_overriding :
    Supplies (withSettings terse) overriding.config ⟨none, some true, some 0, some ""⟩ ∧
    HoldsDocument (withSettings terse) (Utf8.encode "c.toml") terseFields ∧
    HoldsDocument (withSettings cluttered) (Utf8.encode "c.toml") clutteredFields ∧
    (∀ k ∈ knownKeys, IsTabular terseFields k.1 ∧ IsTabular clutteredFields k.1 ∧
      entry? terseFields k.1 k.2 = entry? clutteredFields k.1 k.2) ∧
    ∃ s, load (withSettings terse) overriding = .ok s ∧
      load (withSettings cluttered) overriding = .ok s := by
  have hfields : HoldsDocument (withSettings terse) (Utf8.encode "c.toml") terseFields :=
    holdsDocument_withSettings_iff.mpr (by decide +kernel)
  have hother : HoldsDocument (withSettings cluttered) (Utf8.encode "c.toml") clutteredFields :=
    holdsDocument_withSettings_iff.mpr (by decide +kernel)
  have hagree : ∀ k ∈ knownKeys, IsTabular terseFields k.1 ∧ IsTabular clutteredFields k.1 ∧
      entry? terseFields k.1 k.2 = entry? clutteredFields k.1 k.2 := by
    intro k hk
    simp only [knownKeys, List.mem_cons, List.not_mem_nil, or_false] at hk
    rcases hk with rfl | rfl | rfl | rfl <;> exact ⟨.inr ⟨_, _, rfl⟩, .inr ⟨_, _, rfl⟩, rfl⟩
  have hstates : States terseFields ⟨none, some true, some 0, some ""⟩ :=
    ⟨⟨none, .table _ _, .absent⟩, ⟨_, .table _ _, .present true⟩, ⟨_, .table _ _, .present 0⟩,
      ⟨_, .table _ _, .present ""⟩⟩
  have hsupplies : Supplies (withSettings terse) overriding.config
      ⟨none, some true, some 0, some ""⟩ := .file hfields hstates
  obtain ⟨-, -, hoverridden, hunread⟩ := load_effective (withSettings terse) overriding
  obtain ⟨s, hs⟩ := hoverridden _ _ _ hsupplies rfl (by decide +kernel) rfl (by decide)
  exact ⟨hsupplies, hfields, hother, hagree, s, hs,
    (hunread _ _ _ _ rfl hfields hother hagree s).mp hs⟩

end Collate.Settings
