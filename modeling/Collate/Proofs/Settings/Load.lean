import Collate.Settings.Load

/-!
The loading of settings, without the order of its checks: the settings of the file, or the defaults, changed by
the arguments and valid then. Whatever is wrong is an error of the configuration.
-/
namespace Collate.Settings

/-- The file at the path is there, is text and gives these settings. -/
def Gives (fs : FileSystem) (path : Path) (base : Settings) : Prop :=
  ∃ data text, fs.readText path = .ok data ∧ Utf8.decode? data = some text ∧
    ofToml? text = some base

section Load

variable {fs : FileSystem} {a : Arguments} {path : Path} {s : Settings}

theorem stat_toBool_of_readText {data : Bytes} (h : fs.readText path = .ok data) :
    (fs.stat path).toBool = true := by
  cases hstat : fs.stat path with
  | error fault => simp [FileSystem.readText, hstat, bind, Except.bind] at h
  | ok end_ => rfl

theorem loadFile_eq_ok_iff : loadFile fs path = .ok s ↔ Gives fs path s := by
  constructor
  · intro h
    simp only [loadFile] at h
    split at h
    · cases h
    · split at h
      · cases h
      · rename_i data hread
        split at h
        · rename_i settings hparse
          obtain rfl := Except.ok.inj h
          obtain ⟨text, htext, htoml⟩ := Option.bind_eq_some_iff.mp hparse
          exact ⟨data, text, hread, htext, htoml⟩
        · cases h
  · rintro ⟨data, text, hread, htext, htoml⟩
    simp [loadFile, stat_toBool_of_readText hread, hread, htext, htoml]

/-- A settings file that gives no settings is an error of the configuration, whatever is wrong with it. -/
theorem loadFile_error {f : Failure} (h : loadFile fs path = .error f) :
    ∃ message, f = .config message := by
  simp only [loadFile] at h
  split at h
  · exact ⟨_, (Except.error.inj h).symm⟩
  · split at h
    · exact ⟨_, (Except.error.inj h).symm⟩
    · split at h
      · cases h
      · exact ⟨_, (Except.error.inj h).symm⟩

theorem loadOrDefault_eq_ok_iff {base : Settings} :
    loadOrDefault fs a.config = .ok base ↔
      a.config = none ∧ base = default ∨ ∃ path, a.config = some path ∧ Gives fs path base := by
  cases h : a.config with
  | none => simp [loadOrDefault, eq_comm]
  | some path => simp [loadOrDefault, loadFile_eq_ok_iff]

theorem validated_eq_ok_iff {t : Settings} : validated t = .ok s ↔ t = s ∧ t.validate = .ok () := by
  simp only [validated]
  split
  · simp_all
  · simp_all

theorem load_eq_ok_iff_merge :
    load fs a = .ok s ↔ ∃ base, loadOrDefault fs a.config = .ok base ∧
      s = base.merge a.overrides ∧ s.validate = .ok () := by
  cases hbase : loadOrDefault fs a.config with
  | error f => simp [load, hbase, bind, Except.bind]
  | ok base =>
      have hload : load fs a = validated (base.merge a.overrides) := by
        simp [load, hbase, bind, Except.bind]
      rw [hload, validated_eq_ok_iff]
      constructor
      · rintro ⟨rfl, hvalid⟩
        exact ⟨base, rfl, rfl, hvalid⟩
      · rintro ⟨other, hother, rfl, hvalid⟩
        obtain rfl := Except.ok.inj hother
        exact ⟨rfl, hvalid⟩

theorem load_error {f : Failure} (h : load fs a = .error f) : ∃ message, f = .config message := by
  cases hbase : loadOrDefault fs a.config with
  | error g =>
      obtain rfl : g = f := by simpa [load, hbase, bind, Except.bind] using h
      cases hconfig : a.config with
      | none => simp [loadOrDefault, hconfig] at hbase
      | some path =>
          rw [hconfig] at hbase
          exact loadFile_error hbase
  | ok base =>
      have hvalid : validated (base.merge a.overrides) = .error f := by
        simpa [load, hbase, bind, Except.bind] using h
      simp only [validated] at hvalid
      split at hvalid
      · cases hvalid
      · exact ⟨_, (Except.error.inj hvalid).symm⟩

end Load

end Collate.Settings
