import Collate.Proofs.Console.Json
import Collate.Proofs.Job.Plan
import Collate.Proofs.Run.ExitCode

/-!
What a run shown as JSON leaves on the error stream. Without verbosity no record of the log is written, so what
stands there comes from the console, and the console writes one object on each line. Only failures to load the
settings are shown for people.
-/
namespace Collate

/-- The line is a JSON object, with nothing else on the line. -/
def Line.IsObject (l : Line) : Prop :=
  '\n' ∉ l.text.toList ∧ ∃ members, Json.Denotes l.text (.object members)

/-- The text is made of lines, and each of them is a JSON object. -/
def Json.AreObjects (text : String) : Prop :=
  ∃ lines : List Line, text = String.join (lines.map (·.text ++ "\n")) ∧ ∀ l ∈ lines, l.IsObject

namespace Line

theorem isObject_compact (stream : Stream) (members : List (String × Json)) :
    IsObject ⟨stream, (Json.object members).compact⟩ := by
  have h := Json.denotes_compact (.object members)
  rw [Json.datum] at h
  exact ⟨(Json.HasNoControls.compact _).newline, _, h⟩

theorem areObjects_textOn {stream : Stream} {lines : List Line}
    (h : ∀ l ∈ lines, l.stream = stream → l.IsObject) : Json.AreObjects (textOn stream lines) := by
  refine ⟨lines.filter (·.stream = stream), rfl, fun l hl => ?_⟩
  rw [List.mem_filter, decide_eq_true_eq] at hl
  exact h l hl.1 hl.2

end Line

theorem Json.Denotes.head_of_object {text : String} {members : List (String × Datum)}
    (h : Denotes text (.object members)) : ∃ c ∈ text.toList.head?, isBlank c ∨ c = '\x7b' := by
  obtain ⟨t, r, hskips, hstands, -⟩ := h
  generalize text.toList = cs at hskips
  cases hskips with
  | none =>
      cases hstands with
      | emptyObject | object => exact ⟨_, rfl, .inr rfl⟩
  | blank hc _ => exact ⟨_, rfl, .inl hc⟩

theorem Json.AreObjects.head_eq {text : String} (h : AreObjects text) {c : Char}
    (hc : text.toList.head? = some c) : isBlank c ∨ c = '\x7b' := by
  obtain ⟨lines, rfl, hlines⟩ := h
  cases lines with
  | nil => cases hc
  | cons l ls =>
      obtain ⟨-, members, hl⟩ := hlines l List.mem_cons_self
      obtain ⟨d, hd, hfirst⟩ := hl.head_of_object
      have hsame : d = c := by
        obtain ⟨ds, htext⟩ := List.head?_eq_some_iff.1 hd
        simpa [htext] using hc
      exact hsame ▸ hfirst

namespace Console

variable {c : Console} {now : Timestamp}

theorem isObject_of_notice (hformat : c.format = .json) {severity : Severity} {message : String} :
    ∀ l ∈ c.notice now severity message, l.IsObject := by
  intro l hl
  by_cases hshown : c.shows severity
  · rw [notice_of_json hformat hshown, List.mem_singleton] at hl
    subst hl
    exact Line.isObject_compact _ _
  · simp [notice, hshown] at hl

theorem isObject_of_failure (hformat : c.format = .json) {f : Failure} :
    ∀ l ∈ c.failure now f, l.IsObject := by
  intro l hl
  rcases List.mem_append.mp hl with hl | hl
  · exact isObject_of_notice hformat l hl
  · obtain ⟨text, -, rfl⟩ := Option.map_eq_some_iff.mp (Option.mem_toList.mp hl)
    simp only [suggestion, hformat]
    exact Line.isObject_compact _ _

theorem head_of_failure (hformat : c.format = .human) (now : Timestamp) (f : Failure) :
    ∃ d, (Line.textOn .err (c.failure now f)).toList.head? = some d ∧ (d = '✗' ∨ d = '❌') := by
  have hnotice : c.notice now .error f.userMessage = [⟨.err, c.humanText .error f.userMessage⟩] := by
    simp [notice, shows, hformat]
  rw [failure, hnotice, List.singleton_append, Line.textOn, List.filter_cons_of_pos (by simp),
    List.map_cons, String.join_cons]
  cases hcolours : c.colours with
  | true => exact ⟨'❌', by simp [humanText, hcolours, Severity.pictogram], .inr rfl⟩
  | false => exact ⟨'✗', by simp [humanText, hcolours, Severity.mark], .inl rfl⟩

end Console

theorem Event.lines_of_record {e : Event} {r : Record} (h : e.record? = some r) (c : Console)
    (filter : LogFilter) (now : Timestamp) :
    e.lines c filter now = if filter.allows r then [⟨.err, r.line now⟩] else [] := by
  cases e with
  | notice _ _ => cases h
  | settingsLoaded _ | skipped _ | scanFinished _ _ _ | blockAppended _ _ | concatenated _ _ _
  | runFailed _ => simp only [lines, h]

/-- Every record is for those who ask for more than warnings. -/
theorem Event.lt_rank_of_record {e : Event} {r : Record} (h : e.record? = some r) :
    2 < r.level.rank := by
  cases e <;> cases h <;> simp [Level.rank]

theorem LogFilter.not_allows_ofSwitches {r : Record} (h : 2 < r.level.rank) (quiet : Bool) :
    (ofSwitches 0 quiet).allows r = false := by
  unfold allows
  split
  · rename_i d hfound
    obtain rfl : d = _ := List.mem_singleton.1 (List.mem_of_find?_eq_some hfound)
    cases quiet <;> simp [Directive.talkative] <;> omega
  · rfl

namespace Run

variable {s : Surroundings} {a : Arguments}

theorem lines_of_unlogged (hverbosity : a.verbosity = 0) (hlog : s.logFilter = none) {e : Event}
    {r : Record} (h : e.record? = some r) :
    e.lines (view s a).console (view s a).filter (view s a).now = [] := by
  have hfilter : (view s a).filter = .ofSwitches 0 a.quiet := by
    simp [view, LogFilter.choose, hlog, hverbosity]
  rw [Event.lines_of_record h, hfilter,
    LogFilter.not_allows_ofSwitches (Event.lt_rank_of_record h)]
  rfl

/-- Without verbosity only the console writes. -/
theorem isObject_of_show (hformat : a.format = .json) (hverbosity : a.verbosity = 0)
    (hlog : s.logFilter = none) (events : List Event) :
    ∀ l ∈ (view s a).show events, l.IsObject := by
  intro l hl
  obtain ⟨e, -, hl⟩ := List.mem_flatMap.mp hl
  cases hrecord : e.record? with
  | some r =>
      rw [lines_of_unlogged hverbosity hlog hrecord] at hl
      cases hl
  | none =>
      cases e with
      | notice severity message => exact Console.isObject_of_notice hformat l hl
      | settingsLoaded _ | skipped _ | scanFinished _ _ _ | blockAppended _ _ | concatenated _ _ _
      | runFailed _ => cases hrecord

theorem show_loadEvents (hverbosity : a.verbosity = 0) (hlog : s.logFilter = none) :
    (view s a).show (Settings.loadEvents s.fileSystem a) = [] := by
  refine List.flatMap_eq_nil_iff.2 fun e he => ?_
  unfold Settings.loadEvents at he
  split at he
  · split at he
    · obtain rfl := List.mem_singleton.1 he
      exact lines_of_unlogged hverbosity hlog rfl
    · cases he
  · cases he

/-- Shown as JSON and without verbosity or a filter for the log, a run leaves one object on each line of the
error stream, in every case but one: its settings cannot be loaded. -/
theorem stderr_objects_iff {arguments : List Bytes} (hread : Arguments.read arguments = .ok a)
    (hformat : a.format = .json) (hverbosity : a.verbosity = 0) (hlog : s.logFilter = none) :
    Json.AreObjects (run s arguments).stderr ↔ ∃ settings, Settings.Loads s.fileSystem a settings := by
  have hshown := isObject_of_show (s := s) hformat hverbosity hlog
  cases hsettings : Settings.load s.fileSystem a with
  | error f =>
      have hnone : ¬ ∃ settings, Settings.Loads s.fileSystem a settings := by
        rintro ⟨settings, h⟩
        cases hsettings.symm.trans (Settings.load_eq_ok_iff.mpr h)
      refine iff_of_false (fun h => ?_) hnone
      simp only [run, hread, execute, hsettings, show_loadEvents hverbosity hlog, List.nil_append] at h
      obtain ⟨d, hd, hmark⟩ := Console.head_of_failure (c := earlyConsole s) rfl s.clock.now f
      obtain rfl | rfl := hmark
      · exact absurd (h.head_eq hd) (by decide)
      · exact absurd (h.head_eq hd) (by decide)
  | ok settings =>
      refine iff_of_true ?_ ⟨settings, Settings.load_eq_ok_iff.mp hsettings⟩
      cases hresult : (a.perform (a.job s.fileSystem settings) s.fileSystem s.clock).result with
      | error f =>
          simp only [run, hread, execute, hsettings, hresult]
          refine Line.areObjects_textOn fun l hl _ => ?_
          simp only [List.mem_append] at hl
          obtain ((hl | hl) | hl) | hl := hl
          · exact hshown _ l hl
          · exact hshown _ l hl
          · exact hshown _ l hl
          · exact Console.isObject_of_failure hformat l hl
      | ok report =>
          simp only [run, hread, execute, hsettings, hresult]
          refine Line.areObjects_textOn fun l hl herr => ?_
          simp only [List.mem_append] at hl
          obtain (hl | hl) | hl := hl
          · exact hshown _ l hl
          · exact hshown _ l hl
          · rw [Console.stream_of_report _ l hl] at herr
            cases herr

/-- The arguments of a search below a directory that is not there, with a line end in its name. -/
def nowhereJson : List Bytes :=
  ["rs", "--root", "no\nwhere", "--output-format", "json"].map Utf8.encode

theorem stderr_objects_iff_nowhere :
    ∃ a, Arguments.read nowhereJson = .ok a ∧ a.format = .json ∧ a.verbosity = 0 ∧
      onBadOctets.logFilter = none ∧ (∃ settings, Settings.Loads onBadOctets.fileSystem a settings) ∧
      (run onBadOctets nowhereJson).exitCode = 2 ∧
      Json.AreObjects (run onBadOctets nowhereJson).stderr := by
  have hshape : (Arguments.read nowhereJson).toOption.map (fun a =>
      (a.format, a.verbosity, (Settings.load onBadOctets.fileSystem a).toBool)) =
      some (.json, 0, true) := rfl
  have hcode : (run onBadOctets nowhereJson).exitCode = 2 := by decide +kernel
  cases hread : Arguments.read nowhereJson with
  | error e =>
      rw [hread] at hshape
      cases hshape
  | ok a =>
      rw [hread] at hshape
      simp only [Except.toOption, Option.map_some, Option.some.injEq, Prod.mk.injEq] at hshape
      obtain ⟨hformat, hverbosity, hload⟩ := hshape
      have hsettings : ∃ settings, Settings.Loads onBadOctets.fileSystem a settings := by
        cases h : Settings.load onBadOctets.fileSystem a with
        | error f =>
            rw [h] at hload
            cases hload
        | ok settings => exact ⟨settings, Settings.load_eq_ok_iff.mp h⟩
      exact ⟨a, rfl, hformat, hverbosity, rfl, hsettings, hcode,
        (stderr_objects_iff hread hformat hverbosity rfl).2 hsettings⟩

/-- The arguments of a run whose configuration file is not there. -/
def unconfiguredJson : List Bytes :=
  ["rs", "--output-format", "json", "--config", "none.toml"].map Utf8.encode

theorem stderr_without_configuration :
    (∃ a, Arguments.read unconfiguredJson = .ok a ∧ a.format = .json ∧ a.verbosity = 0) ∧
      onBadOctets.logFilter = none ∧
      (run onBadOctets unconfiguredJson).stderr =
        "✗ Configuration error: Configuration file not found: none.toml\n" ++
        "Suggestion: Check your configuration file syntax and the values of its fields.\n" ∧
      ¬ Json.AreObjects (run onBadOctets unconfiguredJson).stderr := by
  have hshape : (Arguments.read unconfiguredJson).toOption.map (fun a => (a.format, a.verbosity)) =
      some (.json, 0) := rfl
  have hstderr : (run onBadOctets unconfiguredJson).stderr =
      "✗ Configuration error: Configuration file not found: none.toml\n" ++
      "Suggestion: Check your configuration file syntax and the values of its fields.\n" := rfl
  refine ⟨?_, rfl, hstderr, fun h => ?_⟩
  · cases hread : Arguments.read unconfiguredJson with
    | error e =>
        rw [hread] at hshape
        cases hshape
    | ok a =>
        rw [hread] at hshape
        obtain ⟨hformat, hverbosity⟩ := Prod.mk.inj (Option.some.inj hshape)
        exact ⟨a, rfl, hformat, hverbosity⟩
  · have hfirst := h.head_eq (c := '✗') (by rw [hstderr]; decide +kernel)
    exact absurd hfirst (by decide)

end Run

end Collate
