import Collate.Arguments.Reader

/-!
What becomes of the positional argument. Once it has been read it waits or is stored, and nothing that is
read later takes its place, so the extension of the arguments is its normal form.
-/
namespace Collate

theorem bind_eq_ok {ε α β : Type} {x : Except ε α} {f : α → Except ε β} {b : β} :
    x >>= f = .ok b ↔ ∃ a, x = .ok a ∧ f a = .ok b := by
  cases x with
  | error e => exact ⟨nofun, fun ⟨_, h, _⟩ => nomatch h⟩
  | ok a => exact ⟨fun h => ⟨a, rfl, h⟩, fun ⟨_, rfl, h⟩ => h⟩

namespace Given

variable {g g' : Given} {value : Bytes}

theorem extension_of_set {setting : Setting} (h : g.set setting value = .ok g') :
    g'.extension = g.extension := by
  simp only [set] at h
  split at h
  · cases h
  · cases setting <;>
    · obtain ⟨x, -, hg⟩ := bind_eq_ok.mp h
      rw [← Except.ok.inj hg]

theorem extension_of_once {already : Bool} {switch : Switch} {next : Given}
    (h : once already switch next = .ok g') : g' = next := by
  simp only [once] at h
  split at h
  · cases h
  · exact (Except.ok.inj h).symm

theorem extension_of_turnOn {switch : Switch} {long : Bool} (h : g.turnOn switch long = .ok g') :
    g'.extension = g.extension := by
  cases switch with
  | includeHidden | followLinks | dryRun | quiet => rw [extension_of_once h]
  | verbose => rw [← Except.ok.inj h]
  | help | version => cases h

theorem extension_of_finish {a : Arguments} (h : g.finish = .ok a) :
    g.extension = some a.extension := by
  simp only [finish] at h
  split at h
  · cases h
  · split at h
    · cases h
    · split at h
      · cases h
      · rename_i extension hext
        rw [hext, ← Except.ok.inj h]

def Stores (g : Given) (value : Bytes) : Prop :=
  ∃ e extension, Utf8.decode? value = some e ∧ Extension.normalize e = .ok extension ∧
    g.extension = some extension

theorem stores_of_setExtension (h : g.setExtension value = .ok g') : g'.Stores value := by
  obtain ⟨e, htext, hnormal⟩ := bind_eq_ok.mp h
  have hdecoded : Utf8.decode? value = some e := by
    simp only [asText] at htext
    split at htext
    · rename_i hvalue
      rw [hvalue, Except.ok.inj htext]
    · cases htext
  split at hnormal
  · rename_i extension hext
    exact ⟨e, extension, hdecoded, hext, by rw [← Except.ok.inj hnormal]⟩
  · cases hnormal

theorem Stores.congr (h : g.Stores value) (hsame : g'.extension = g.extension) : g'.Stores value := by
  obtain ⟨e, extension, hdecoded, hnormal, hext⟩ := h
  exact ⟨e, extension, hdecoded, hnormal, hsame.trans hext⟩

end Given

namespace Reader

def isPlain : Bytes → Bool
  | b :: _ :: _ => b != dash
  | _ => true

/-- The argument that comes next would be read as the positional one. -/
def TakesPositional (r : Reader) (argument : Bytes) : Prop :=
  r.literal = true ∨ isPlain argument ∧ ∀ s, r.pending ≠ some (.setting s none)

/-- The value has been read as the positional argument: it waits, or it is stored and no other one waits. -/
def Took (r : Reader) (value : Bytes) : Prop :=
  r.pending = some (.positional value) ∨
    r.given.Stores value ∧ ∀ other, r.pending ≠ some (.positional other)

theorem Took.hasPositional {r : Reader} {value : Bytes} (h : r.Took value) :
    r.hasPositional = true := by
  rcases h with hwaits | ⟨⟨e, extension, -, -, hext⟩, -⟩
  · simp [Reader.hasPositional, hwaits]
  · simp [Reader.hasPositional, hext]

section Steps

variable {r r' : Reader} {value : Bytes}

theorem pending_of_settle (h : r.settle = .ok r') : r'.pending = none := by
  simp only [settle] at h
  split at h
  · rename_i hnone
    rw [← Except.ok.inj h, hnone]
  · obtain ⟨g, -, hr⟩ := bind_eq_ok.mp h
    rw [← Except.ok.inj hr]
  · cases h
  · obtain ⟨g, -, hr⟩ := bind_eq_ok.mp h
    rw [← Except.ok.inj hr]

theorem Took.settle (h : r.Took value) (hr : r.settle = .ok r') : r'.given.Stores value := by
  simp only [Reader.settle] at hr
  rcases h with hwaits | ⟨hstored, hother⟩
  · rw [hwaits] at hr
    obtain ⟨g, hg, hr'⟩ := bind_eq_ok.mp hr
    rw [← Except.ok.inj hr']
    exact Given.stores_of_setExtension hg
  · split at hr
    · rw [← Except.ok.inj hr]
      exact hstored
    · rename_i other hpending
      exact absurd hpending (hother other)
    · cases hr
    · obtain ⟨g, hg, hr'⟩ := bind_eq_ok.mp hr
      rw [← Except.ok.inj hr']
      exact hstored.congr (Given.extension_of_set hg)

theorem Took.await (h : r.Took value) {s : Setting} (hr : r.await s = .ok r') : r'.Took value := by
  obtain ⟨mid, hmid, hr'⟩ := bind_eq_ok.mp hr
  have hstored : mid.given.Stores value := h.settle hmid
  rw [← Except.ok.inj hr']
  exact .inr ⟨hstored, by simp⟩

theorem Took.store (h : r.Took value) {s : Setting} {given : Bytes}
    (hr : r.store s given = .ok r') : r'.Took value := by
  obtain ⟨mid, hmid, hrest⟩ := bind_eq_ok.mp hr
  obtain ⟨g, hg, hr'⟩ := bind_eq_ok.mp hrest
  rw [← Except.ok.inj hr']
  refine .inr ⟨(h.settle hmid).congr (Given.extension_of_set hg), ?_⟩
  simp [pending_of_settle hmid]

theorem Took.turnOn (h : r.Took value) {s : Switch} {long : Bool}
    (hr : r.turnOn s long = .ok r') : r'.Took value := by
  obtain ⟨mid, hmid, hrest⟩ := bind_eq_ok.mp hr
  obtain ⟨g, hg, hr'⟩ := bind_eq_ok.mp hrest
  rw [← Except.ok.inj hr']
  refine .inr ⟨(h.settle hmid).congr (Given.extension_of_turnOn hg), ?_⟩
  simp [pending_of_settle hmid]

theorem Took.readPositional (h : r.Took value) (argument : Bytes) :
    r.readPositional argument ≠ .ok r' := by
  simp [Reader.readPositional, h.hasPositional]

theorem Took.readPlain (h : r.Took value) {argument : Bytes} (hr : r.readPlain argument = .ok r') :
    r'.Took value := by
  simp only [Reader.readPlain] at hr
  split at hr
  · rename_i hpending
    rcases h with hwaits | ⟨hstored, -⟩
    · cases hwaits.symm.trans hpending
    · rw [← Except.ok.inj hr]
      exact .inr ⟨hstored, by simp⟩
  · exact absurd hr (h.readPositional argument)

theorem Took.readShort (h : r.Took value) {pieces : List Utf8.Piece}
    (hr : r.readShort pieces = .ok r') : r'.Took value := by
  induction pieces generalizing r with
  | nil =>
      rw [← Except.ok.inj hr]
      exact h
  | cons piece pieces ih =>
      cases piece with
      | illFormed octets => cases hr
      | scalar c =>
          simp only [Reader.readShort] at hr
          split at hr
          · cases hr
          · obtain ⟨mid, hmid, hrest⟩ := bind_eq_ok.mp hr
            exact ih (h.turnOn hmid) hrest
          · split at hr
            · exact h.await hr
            · exact h.store hr

theorem Took.readLong (h : r.Took value) {body : Bytes} (hr : r.readLong body = .ok r') :
    r'.Took value := by
  simp only [Reader.readLong] at hr
  split at hr
  · cases hr
  · split at hr
    · exact h.await hr
    · exact h.store hr
  · split at hr
    · exact h.turnOn hr
    · cases hr

theorem Took.read (h : r.Took value) {argument : Bytes} (hr : r.read argument = .ok r') :
    r'.Took value := by
  simp only [Reader.read] at hr
  split at hr
  · exact absurd hr (h.readPositional argument)
  · split at hr
    · exact h.readPlain hr
    · exact h.readPlain hr
    · split at hr
      · exact h.readPlain hr
      · split at hr
        · exact h.readShort hr
        · split at hr
          · rw [← Except.ok.inj hr]
            exact h
          · exact h.readLong hr

theorem Took.readAll (h : r.Took value) {arguments : List Bytes}
    (hr : r.readAll arguments = .ok r') : r'.Took value := by
  induction arguments generalizing r with
  | nil =>
      rw [← Except.ok.inj hr]
      exact h
  | cons argument arguments ih =>
      obtain ⟨mid, hmid, hrest⟩ := bind_eq_ok.mp hr
      exact ih (h.read hmid) hrest

theorem took_of_readPositional (hr : r.readPositional value = .ok r') : r'.Took value := by
  simp only [Reader.readPositional] at hr
  split at hr
  · cases hr
  · obtain ⟨mid, -, hr'⟩ := bind_eq_ok.mp hr
    rw [← Except.ok.inj hr']
    exact .inl rfl

theorem readPlain_eq_readPositional (h : ∀ s, r.pending ≠ some (.setting s none)) (argument : Bytes) :
    r.readPlain argument = r.readPositional argument := by
  unfold Reader.readPlain
  split
  · rename_i s hpending
    exact absurd hpending (h s)
  · rfl

theorem read_of_isPlain (hliteral : r.literal = false) (hplain : isPlain value) :
    r.read value = r.readPlain value := by
  match value with
  | [] | [_] => simp [Reader.read, hliteral]
  | b :: c :: body =>
      have hb : (b != dash) = true := hplain
      simp [Reader.read, hliteral, hb]

theorem TakesPositional.read (h : r.TakesPositional value) :
    r.read value = r.readPositional value := by
  cases hliteral : r.literal with
  | true => simp [Reader.read, hliteral]
  | false =>
      obtain hcase | ⟨hplain, hpending⟩ := h
      · cases hliteral.symm.trans hcase
      · rw [read_of_isPlain hliteral hplain, readPlain_eq_readPositional hpending]

end Steps

theorem readAll_append (r : Reader) (before after : List Bytes) :
    r.readAll (before ++ after) = r.readAll before >>= fun mid => mid.readAll after := by
  induction before generalizing r with
  | nil => rfl
  | cons argument before ih =>
      simp only [List.cons_append, readAll]
      cases r.read argument with
      | error e => rfl
      | ok mid => exact ih mid

end Reader

namespace Arguments

/-- The value stands as the positional argument among the arguments. -/
def Positional (arguments : List Bytes) (value : Bytes) : Prop :=
  ∃ before after r, arguments = before ++ value :: after ∧
    Reader.start.readAll before = .ok r ∧ r.TakesPositional value

/-- The extension is the normal form of the positional argument. -/
theorem normalize_of_positional {arguments : List Bytes} {value : Bytes} {a : Arguments}
    (hpos : Positional arguments value) (hread : Arguments.read arguments = .ok a) :
    ∃ e, Utf8.decode? value = some e ∧ Extension.normalize e = .ok a.extension := by
  obtain ⟨before, after, r, rfl, hbefore, htakes⟩ := hpos
  obtain ⟨last, hlast, hrest⟩ := bind_eq_ok.mp hread
  obtain ⟨settled, hsettled, hfinish⟩ := bind_eq_ok.mp hrest
  rw [Reader.readAll_append, hbefore] at hlast
  obtain ⟨mid, hmid, hafter⟩ := bind_eq_ok.mp (show r.read value >>= _ = .ok last from hlast)
  rw [htakes.read] at hmid
  have htook : last.Took value := (Reader.took_of_readPositional hmid).readAll hafter
  obtain ⟨e, extension, hdecoded, hnormal, hext⟩ := htook.settle hsettled
  have hsame : some a.extension = some extension :=
    (Given.extension_of_finish hfinish).symm.trans hext
  rw [← Option.some.inj hsame] at hnormal
  exact ⟨e, hdecoded, hnormal⟩

end Arguments

end Collate
