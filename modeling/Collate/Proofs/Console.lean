import Collate.Run

/-!
Which stream a line belongs to. Every notice but a success goes to the error stream, and so does every log
record; only the report of a run, and nothing before it, is for standard output.
-/
namespace Collate

namespace Line

variable {stream : Stream} {lines : List Line}

theorem textOn_append (stream : Stream) (a b : List Line) :
    textOn stream (a ++ b) = textOn stream a ++ textOn stream b := by
  simp [textOn]

theorem textOn_of_others (h : ∀ l ∈ lines, l.stream ≠ stream) : textOn stream lines = "" := by
  have hnone : lines.filter (·.stream = stream) = [] :=
    List.filter_eq_nil_iff.mpr fun l hl => by simpa using h l hl
  rw [textOn, hnone]
  rfl

theorem textOn_of_all (h : ∀ l ∈ lines, l.stream = stream) :
    textOn stream lines = String.join (lines.map (·.text ++ "\n")) := by
  have hall : lines.filter (·.stream = stream) = lines :=
    List.filter_eq_self.mpr fun l hl => by simpa using h l hl
  rw [textOn, hall]

theorem textOn_ne_empty {l : Line} (hl : l ∈ lines) (hstream : l.stream = stream) :
    textOn stream lines ≠ "" := by
  obtain ⟨a, b, rfl⟩ := List.append_of_mem hl
  have hsplit : a ++ l :: b = a ++ ([l] ++ b) := rfl
  intro hempty
  rw [hsplit, textOn_append, textOn_append] at hempty
  have hline : textOn stream [l] = l.text ++ "\n" := by simp [textOn, hstream]
  rw [hline] at hempty
  have hlength := congrArg String.length hempty
  simp only [String.length_append] at hlength
  have hone : "\n".length = 1 := rfl
  have hzero : "".length = 0 := rfl
  omega

end Line

namespace Console

variable {c : Console} {now : Timestamp}

theorem stream_of_notice {severity : Severity} (h : severity ≠ .success) {message : String} :
    ∀ l ∈ c.notice now severity message, l.stream = .err := by
  intro l hl
  simp only [notice, if_neg h] at hl
  split at hl
  · cases hl
  · split at hl <;> simp_all

theorem stream_of_suggestion (text : String) : (c.suggestion text).stream = .err := by
  simp only [suggestion]
  split
  · split <;> rfl
  · rfl
  · rfl

/-- A failure is shown whatever the format and however quiet the console, and nowhere but among errors. -/
theorem stream_of_failure (c : Console) (now : Timestamp) (f : Failure) :
    (∀ l ∈ c.failure now f, l.stream = .err) ∧ ∃ l, l ∈ c.failure now f := by
  refine ⟨fun l hl => ?_, ?_⟩
  · rcases List.mem_append.mp hl with hl | hl
    · exact stream_of_notice (by simp) l hl
    · obtain ⟨text, -, rfl⟩ := Option.map_eq_some_iff.mp (Option.mem_toList.mp hl)
      exact stream_of_suggestion text
  · have hshown : c.notice now .error f.userMessage ≠ [] := by
      simp only [notice, shows, Bool.not_true, Bool.false_eq_true, ↓reduceIte]
      split <;> simp
    obtain ⟨l, rest, hl⟩ := List.exists_cons_of_ne_nil hshown
    exact ⟨l, by simp [failure, hl]⟩

theorem stream_of_success (hformat : c.format ≠ .json) {message : String} :
    ∀ l ∈ c.notice now .success message, l.stream = .out := by
  intro l hl
  simp only [notice, shows, ↓reduceIte, Bool.not_true, Bool.false_eq_true] at hl
  split at hl <;> simp_all

theorem stream_of_plan (r : Report) : ∀ l ∈ c.plan r, l.stream = .out := by
  intro l hl
  rcases List.mem_append.mp hl with hl | hl
  · obtain ⟨file, -, rfl⟩ := List.mem_map.mp hl
    rfl
  · simp only [planSummary] at hl
    split at hl
    · cases hl
    · split at hl <;> obtain rfl := List.mem_singleton.mp hl <;> rfl

theorem stream_of_summary (r : Report) : ∀ l ∈ c.summary r, l.stream = .out := by
  intro l hl
  simp only [summary] at hl
  split at hl
  · obtain ⟨row, -, rfl⟩ := List.mem_map.mp hl
    rfl
  · cases hl

theorem stream_of_report (r : Report) : ∀ l ∈ c.report now r, l.stream = .out := by
  intro l hl
  cases hformat : c.format with
  | json =>
      simp only [report, hformat] at hl
      obtain rfl := List.mem_singleton.mp hl
      rfl
  | human | plain =>
      simp only [report, hformat] at hl
      split at hl
      · exact stream_of_plan r l hl
      · rcases List.mem_append.mp hl with hl | hl
        · exact stream_of_success (by simp [hformat]) l hl
        · exact stream_of_summary r l hl

end Console

namespace Event

/-- The event is no result: it is no notice of a success. -/
def IsDiagnostic (e : Event) : Prop :=
  ∀ message, e ≠ .notice .success message

theorem stream_of_lines {e : Event} (h : e.IsDiagnostic) (c : Console) (filter : LogFilter)
    (now : Timestamp) : ∀ l ∈ e.lines c filter now, l.stream = .err := by
  intro l hl
  cases e with
  | notice severity message =>
      refine Console.stream_of_notice ?_ l hl
      rintro rfl
      exact h message rfl
  | settingsLoaded _ | skipped _ | scanFinished _ _ _ | blockAppended _ _ | concatenated _ _ _
  | runFailed _ =>
      simp only [lines, record?] at hl
      split at hl
      · obtain rfl := List.mem_singleton.mp hl
        rfl
      · cases hl

end Event

theorem View.stream_of_show {v : View} {events : List Event} (h : ∀ e ∈ events, e.IsDiagnostic) :
    ∀ l ∈ v.show events, l.stream = .err := by
  intro l hl
  obtain ⟨e, he, hline⟩ := List.mem_flatMap.mp hl
  exact Event.stream_of_lines (h e he) _ _ _ l hline

end Collate
