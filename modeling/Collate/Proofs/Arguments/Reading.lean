import Collate.Proofs.Arguments.Collected

/-!
The reader against what the arguments say. When a value that waits is stored makes no difference to the outcome,
so the reader takes one item after another, and it comes to an end exactly if the arguments can be read and
their items fit together.
-/
namespace Collate

open Arguments (Letters Says Reads)

theorem toOption_bind {ε α β : Type} (x : Except ε α) (f : α → Except ε β) :
    (x >>= f).toOption = x.toOption.bind fun a => (f a).toOption := by
  cases x <;> rfl

theorem toOption_bind_ok {ε α β : Type} (x : Except ε α) (f : α → β) :
    (x >>= fun a => .ok (f a)).toOption = x.toOption.map f := by
  cases x <;> rfl

namespace Given

variable (g : Given) (v : Bytes)

theorem toOption_set (s : Setting) :
    (g.set s v).toOption = g.take? (.value (.option s) v) := by
  have hvalue : (g.value? (.option s)).isSome = g.has s := by cases s <;> rfl
  simp only [set, take?, hvalue]
  split
  · rfl
  · cases s with
    | root | config =>
        simp only [storePath, Slot.read?, List.isEmpty_iff]
        split <;> rfl
    | outputName =>
        simp only [asText, Slot.read?]
        cases Utf8.decode? v <;> rfl
    | maxDepth =>
        simp only [readDepth, asText, Slot.read?]
        cases Utf8.decode? v with
        | none => rfl
        | some text =>
            simp only [bind, Except.bind, Option.bind]
            cases Depth.read text.toList <;> rfl
    | outputFormat =>
        simp only [readFormat, Slot.read?, List.isEmpty_iff]
        split
        · rename_i hempty
          rw [hempty]
          rfl
        · cases (Utf8.decode? v).bind Format.ofName? <;> rfl

theorem toOption_setExtension (h : g.extension = none) :
    (g.setExtension v).toOption = g.take? (.value .positional v) := by
  have hvalue : (g.value? .positional).isSome = false := by
    simp [value?, h]
  simp only [setExtension, asText, take?, hvalue, Slot.read?]
  cases Utf8.decode? v with
  | none => rfl
  | some e =>
      simp only [bind, Except.bind, Option.bind]
      cases Extension.normalize e <;> rfl

theorem toOption_turnOn (s : Switch) (long : Bool) :
    (g.turnOn s long).toOption = g.take? (.switch s) := by
  cases s <;> rfl

end Given

namespace Reader

/-- Between two arguments, with nothing that waits to be stored. -/
def between (g : Given) (opened : Option Setting) : Reader :=
  ⟨g, opened.map fun s => .setting s none, false⟩

/-- What is stored after the arguments, if none of them is refused. -/
def outcome? (r : Reader) (arguments : List Bytes) : Option Given :=
  ((r.readAll arguments).toOption.bind fun last => last.settle.toOption).map Reader.given

def IsClosed (r : Reader) : Prop :=
  ∀ s, r.pending ≠ some (.setting s none)

section Settling

variable {r settled : Reader} {argument : Bytes} {rest : List Bytes}

theorem outcome?_cons :
    r.outcome? (argument :: rest) =
      (r.read argument).toOption.bind fun next => next.outcome? rest := by
  simp only [outcome?, readAll, toOption_bind, Option.map_bind, Option.bind_assoc, Function.comp_def]

/-- Doing this comes to the same before and after what waits is stored. -/
def Settles (op : Reader → Except UsageError Reader) : Prop :=
  ∀ r : Reader, (op r).toOption = r.settle.toOption.bind fun settled => (op settled).toOption

theorem settle_of_settle (h : r.settle = .ok settled) : settled.settle = .ok settled := by
  simp only [settle, pending_of_settle h]

theorem settle_bind_settle (f : Reader → Except UsageError Reader) :
    (r.settle >>= fun settled => settled.settle >>= f) = r.settle >>= f := by
  cases h : r.settle with
  | error e => rfl
  | ok settled =>
      show settled.settle >>= f = f settled
      rw [settle_of_settle h]
      rfl

theorem settles_of_bind (f : Reader → Except UsageError Reader) :
    Settles fun r => r.settle >>= f := by
  intro r
  rw [← toOption_bind, settle_bind_settle]

theorem settles_error (e : Reader → UsageError) : Settles fun r => .error (e r) := by
  intro r
  cases r.settle <;> rfl

theorem Settles.bind {op : Reader → Except UsageError Reader} (h : Settles op)
    (f : Reader → Except UsageError Reader) : Settles fun r => op r >>= f := by
  intro r
  rw [toOption_bind, h r, Option.bind_assoc]
  apply Option.bind_congr
  intro settled _
  rw [toOption_bind]

theorem settles_await (s : Setting) : Settles fun r => r.await s :=
  settles_of_bind _

theorem settles_store (s : Setting) (value : Bytes) : Settles fun r => r.store s value :=
  settles_of_bind _

theorem settles_turnOn (s : Switch) (long : Bool) : Settles fun r => r.turnOn s long :=
  settles_of_bind _

theorem settles_readLong (body : Bytes) : Settles fun r => r.readLong body := by
  simp only [readLong]
  split
  · exact settles_error _
  · split
    · exact settles_await _
    · exact settles_store _ _
  · split
    · exact settles_turnOn _ _
    · exact settles_error _

theorem settles_readShort {pieces : List Utf8.Piece} (h : pieces ≠ []) :
    Settles fun r => r.readShort pieces := by
  cases pieces with
  | nil => exact absurd rfl h
  | cons piece pieces =>
      cases piece with
      | illFormed octets => exact settles_error _
      | scalar c =>
          simp only [readShort]
          split
          · exact settles_error _
          · exact (settles_turnOn _ _).bind _
          · split
            · exact settles_await _
            · exact settles_store _ _

theorem hasPositional_of_settle (h : r.settle = .ok settled) :
    settled.hasPositional = r.hasPositional := by
  have hsettled : settled.hasPositional = settled.given.extension.isSome := by
    rw [hasPositional, pending_of_settle h, Bool.or_false]
  rw [hsettled]
  simp only [settle] at h
  split at h
  · rename_i hnone
    rw [← Except.ok.inj h, hasPositional, hnone, Bool.or_false]
  · rename_i v hwaits
    obtain ⟨g, hg, hr⟩ := bind_eq_ok.mp h
    obtain ⟨e, extension, -, -, hext⟩ := Given.stores_of_setExtension hg
    rw [← Except.ok.inj hr, hasPositional, hwaits, Bool.or_true, hext]
    rfl
  · cases h
  · rename_i s v hwaits
    obtain ⟨g, hg, hr⟩ := bind_eq_ok.mp h
    rw [← Except.ok.inj hr, hasPositional, hwaits, Bool.or_false, Given.extension_of_set hg]

theorem literal_of_settle (h : r.settle = .ok settled) : settled.literal = r.literal := by
  simp only [settle] at h
  split at h
  · rw [Except.ok.inj h]
  · obtain ⟨g, -, hr⟩ := bind_eq_ok.mp h
    rw [← Except.ok.inj hr]
  · cases h
  · obtain ⟨g, -, hr⟩ := bind_eq_ok.mp h
    rw [← Except.ok.inj hr]

theorem settles_readPositional (v : Bytes) : Settles fun r => r.readPositional v := by
  intro r
  cases h : r.settle with
  | error e =>
      simp only [readPositional, h]
      split <;> rfl
  | ok settled =>
      show (r.readPositional v).toOption = (settled.readPositional v).toOption
      simp only [readPositional, hasPositional_of_settle h, settle_of_settle h, h]

section Forms

variable {b : UInt8} {body : Bytes}

theorem read_dashes (h : r.literal = false) :
    r.read [dash, dash] = .ok { r with literal := true } := by
  simp [read, h]

theorem read_short (h : r.literal = false) (hb : b ≠ dash) :
    r.read (dash :: b :: body) = r.readShort (Utf8.pieces (b :: body)) := by
  simp [read, h, hb]

theorem read_long (h : r.literal = false) (hbody : body ≠ []) :
    r.read (dash :: dash :: body) = r.readLong body := by
  simp [read, h, hbody]

/-- An argument is plain, `--`, short options or a long one. -/
theorem form_of_argument (argument : Bytes) :
    isPlain argument ∨ argument = [dash, dash] ∨
      (∃ b body, argument = dash :: b :: body ∧ b ≠ dash) ∨
      ∃ body, argument = dash :: dash :: body ∧ body ≠ [] := by
  match argument with
  | [] | [_] => exact .inl rfl
  | a :: b :: body =>
      by_cases ha : a = dash
      · subst ha
        by_cases hb : b = dash
        · subst hb
          by_cases hbody : body = []
          · exact .inr (.inl (by rw [hbody]))
          · exact .inr (.inr (.inr ⟨body, rfl, hbody⟩))
        · exact .inr (.inr (.inl ⟨b, body, rfl, hb⟩))
      · exact .inl (by simpa [isPlain] using ha)

end Forms

/-- The reader treats an argument the same way before and after what waits is stored. -/
theorem exists_settles (literal : Bool) (h : literal = true ∨ argument ≠ [dash, dash]) :
    ∃ op, Settles op ∧ ∀ r : Reader, r.literal = literal → r.IsClosed →
      r.read argument = op r := by
  cases literal with
  | true =>
      refine ⟨_, settles_readPositional argument, ?_⟩
      intro r hliteral hclosed
      exact TakesPositional.read (.inl hliteral)
  | false =>
      rcases form_of_argument argument with hplain | rfl | ⟨b, body, rfl, hb⟩ | ⟨body, rfl, hbody⟩
      · refine ⟨_, settles_readPositional argument, ?_⟩
        intro r hliteral hclosed
        exact TakesPositional.read (.inr ⟨hplain, hclosed⟩)
      · simp at h
      · refine ⟨_, settles_readShort (Utf8.pieces_ne_nil (List.cons_ne_nil b body)), ?_⟩
        intro r hliteral hclosed
        exact read_short hliteral hb
      · refine ⟨_, settles_readLong body, ?_⟩
        intro r hliteral hclosed
        exact read_long hliteral hbody

theorem isClosed_of_settle (h : r.settle = .ok settled) : settled.IsClosed := by
  intro s
  rw [pending_of_settle h]
  simp

theorem settle_literal (r : Reader) (literal : Bool) :
    { r with literal := literal }.settle =
      r.settle >>= fun settled => .ok { settled with literal := literal } := by
  obtain ⟨g, pending, before⟩ := r
  cases pending with
  | none => rfl
  | some waiting =>
      cases waiting with
      | positional v =>
          simp only [settle]
          cases g.setExtension v <;> rfl
      | setting s value =>
          cases value with
          | none => rfl
          | some v =>
              simp only [settle]
              cases g.set s v <;> rfl

theorem outcome?_settle (h : r.IsClosed) (arguments : List Bytes) :
    r.outcome? arguments = r.settle.toOption.bind fun settled => settled.outcome? arguments := by
  induction arguments generalizing r with
  | nil =>
      cases hsettle : r.settle with
      | error e => simp [outcome?, readAll, hsettle, Except.toOption]
      | ok settled =>
          simp [outcome?, readAll, hsettle, Except.toOption, settle_of_settle hsettle]
  | cons argument rest ih =>
      by_cases hform : r.literal = true ∨ argument ≠ [dash, dash]
      · obtain ⟨op, hop, hread⟩ := exists_settles r.literal hform
        rw [outcome?_cons, hread r rfl h, hop r, Option.bind_assoc]
        apply Option.bind_congr
        intro settled hsettled
        have hsettle := toOption_eq_some_iff.mp hsettled
        rw [outcome?_cons, hread settled (literal_of_settle hsettle) (isClosed_of_settle hsettle)]
      · obtain ⟨hliteral, rfl⟩ : r.literal = false ∧ argument = [dash, dash] := by
          simpa using hform
        -- `--` is the one argument that leaves what waits as it is, so only here the rest matters
        rw [outcome?_cons, read_dashes hliteral]
        show { r with literal := true }.outcome? rest = _
        have hclosed : { r with literal := true }.IsClosed := h
        rw [ih hclosed, settle_literal, toOption_bind, Option.bind_assoc]
        apply Option.bind_congr
        intro settled hsettled
        have hsettle := toOption_eq_some_iff.mp hsettled
        rw [outcome?_cons, read_dashes ((literal_of_settle hsettle).trans hliteral)]

end Settling

section Taking

variable (g : Given) (v : Bytes)

theorem toOption_turnOn_between (s : Switch) (long : Bool) :
    ((between g none).turnOn s long).toOption =
      (g.take? (.switch s)).map fun g => between g none := by
  rw [← Given.toOption_turnOn g s long]
  exact toOption_bind_ok (g.turnOn s long) fun g => between g none

theorem toOption_store_between (s : Setting) :
    ((between g none).store s v).toOption =
      (g.take? (.value (.option s) v)).map fun g => between g none := by
  rw [← Given.toOption_set]
  exact toOption_bind_ok (g.set s v) fun g => between g none

/-- A value that is an argument of its own is stored like an attached one. -/
theorem outcome?_value (s : Setting) (rest : List Bytes) :
    outcome? ⟨g, some (.setting s (some v)), false⟩ rest =
      (g.take? (.value (.option s) v)).bind fun g => (between g none).outcome? rest := by
  have hsettle : (settle ⟨g, some (.setting s (some v)), false⟩).toOption =
      (g.set s v).toOption.map fun g => between g none :=
    toOption_bind_ok (g.set s v) fun g => between g none
  rw [outcome?_settle (by simp [IsClosed]), hsettle, Given.toOption_set, Option.bind_map]
  rfl

theorem outcome?_positional (literal : Bool) (rest : List Bytes) :
    (readPositional ⟨g, none, literal⟩ v).toOption.bind (fun r => r.outcome? rest) =
      (g.take? (.value .positional v)).bind fun g => outcome? ⟨g, none, literal⟩ rest := by
  cases hext : g.extension with
  | some extension =>
      simp [readPositional, hasPositional, hext, Given.take?, Given.value?, Except.toOption]
  | none =>
      have hread : readPositional ⟨g, none, literal⟩ v = .ok ⟨g, some (.positional v), literal⟩ := by
        simp only [readPositional, hasPositional, hext]
        rfl
      have hsettle : (settle ⟨g, some (.positional v), literal⟩).toOption =
          (g.setExtension v).toOption.map fun g => ⟨g, none, literal⟩ :=
        toOption_bind_ok (g.setExtension v) fun g => Reader.mk g none literal
      rw [hread]
      show outcome? ⟨g, some (.positional v), literal⟩ rest = _
      rw [outcome?_settle (by simp [IsClosed]), hsettle, Given.toOption_setExtension g v hext,
        Option.bind_map]
      rfl

theorem toOption_readShort {letters : Bytes} {items : List Item} {opened : Option Setting}
    (h : Letters letters items opened) :
    ((between g none).readShort (Utf8.pieces letters)).toOption =
      (g.takeAll? items).map fun g => between g opened := by
  induction h generalizing g with
  | nil => rfl
  | @switch c s _ _ _ hletter hrest ih =>
      have hc : Parameter.ofShort? c = some (.switch s) :=
        Parameter.ofShort?_eq_some_iff.mpr hletter
      rw [Utf8.pieces_encodeChar_append (Parameter.toNat_of_letter? (p := .switch s) hletter)]
      simp only [readShort, hc, toOption_bind, toOption_turnOn_between, Option.bind_map]
      rw [Given.takeAll?_cons, Option.map_bind]
      apply Option.bind_congr
      intro g' _
      exact ih g'
  | @opens c s hletter =>
      have hc : Parameter.ofShort? c = some (.setting s) :=
        Parameter.ofShort?_eq_some_iff.mpr hletter
      rw [← List.append_nil (Utf8.encodeChar _),
        Utf8.pieces_encodeChar_append (Parameter.toNat_of_letter? (p := .setting s) hletter)]
      simp only [readShort, hc]
      rfl
  | @equals c s value hletter =>
      have hc : Parameter.ofShort? c = some (.setting s) :=
        Parameter.ofShort?_eq_some_iff.mpr hletter
      rw [Utf8.pieces_encodeChar_append (Parameter.toNat_of_letter? (p := .setting s) hletter)]
      simp only [readShort, hc, Utf8.octets_pieces, if_pos]
      rw [toOption_store_between, Given.takeAll?_singleton]
  | @attached c s b value hletter hb =>
      have hc : Parameter.ofShort? c = some (.setting s) :=
        Parameter.ofShort?_eq_some_iff.mpr hletter
      rw [Utf8.pieces_encodeChar_append (Parameter.toNat_of_letter? (p := .setting s) hletter)]
      simp only [readShort, hc, Utf8.octets_pieces, if_neg hb]
      rw [toOption_store_between, Given.takeAll?_singleton]

section Names

variable {tail : Bytes}

theorem takeWhile_name (p : Parameter) (htail : tail.takeWhile (· != equals) = []) :
    (Utf8.encode p.name ++ tail).takeWhile (· != equals) = Utf8.encode p.name := by
  rw [List.takeWhile_append_of_pos p.bne_equals_of_mem_name, htail, List.append_nil]

theorem dropWhile_name (p : Parameter) :
    (Utf8.encode p.name ++ tail).dropWhile (· != equals) = tail.dropWhile (· != equals) :=
  List.dropWhile_append_of_pos p.bne_equals_of_mem_name

theorem ofLong?_decode?_name (p : Parameter) :
    (Utf8.decode? (Utf8.encode p.name)).bind Parameter.ofLong? = some p := by
  rw [Utf8.decode?_eq_some_iff.mpr rfl, Option.bind_some]
  exact Parameter.ofLong?_eq_some_iff.mpr rfl

theorem readLong_switch (r : Reader) (s : Switch) :
    r.readLong (Utf8.encode s.name) = r.turnOn s true := by
  change r.readLong (Utf8.encode (Parameter.name (.switch s))) = _
  rw [← List.append_nil (Utf8.encode _)]
  simp only [readLong, takeWhile_name _ List.takeWhile_nil, dropWhile_name, ofLong?_decode?_name]
  rfl

theorem readLong_setting (r : Reader) (s : Setting) :
    r.readLong (Utf8.encode s.name) = r.await s := by
  change r.readLong (Utf8.encode (Parameter.name (.setting s))) = _
  rw [← List.append_nil (Utf8.encode _)]
  simp only [readLong, takeWhile_name _ List.takeWhile_nil, dropWhile_name, ofLong?_decode?_name]
  rfl

theorem readLong_attached (r : Reader) (s : Setting) :
    r.readLong (Utf8.encode s.name ++ equals :: v) = r.store s v := by
  change r.readLong (Utf8.encode (Parameter.name (.setting s)) ++ equals :: v) = _
  have htail : (equals :: v).takeWhile (· != equals) = [] := rfl
  simp only [readLong, takeWhile_name _ htail, dropWhile_name, ofLong?_decode?_name]
  rfl

end Names

theorem toOption_read {argument : Bytes} {items : List Item} {opened : Option Setting}
    (h : Says argument items opened) :
    ((between g none).read argument).toOption =
      (g.takeAll? items).map fun g => between g opened := by
  cases h with
  | letters hne hletters =>
      obtain ⟨b, body, rfl, hb⟩ := hletters.head hne
      rw [read_short rfl hb]
      exact toOption_readShort g hletters
  | switch s =>
      have hne : Utf8.encode s.name ≠ [] := (Parameter.switch s).encode_name_ne_nil
      rw [read_long rfl hne, readLong_switch, toOption_turnOn_between, Given.takeAll?_singleton]
  | opens s =>
      have hne : Utf8.encode s.name ≠ [] := (Parameter.setting s).encode_name_ne_nil
      rw [read_long rfl hne, readLong_setting]
      rfl
  | attached s value =>
      rw [read_long rfl (by simp), readLong_attached, toOption_store_between,
        Given.takeAll?_singleton]

theorem outcome?_literal (rest : List Bytes) :
    outcome? ⟨g, none, true⟩ rest = g.takeAll? (rest.map (.value .positional)) := by
  induction rest generalizing g with
  | nil => rfl
  | cons v rest ih =>
      rw [outcome?_cons, TakesPositional.read (.inl rfl), outcome?_positional, List.map_cons,
        Given.takeAll?_cons]
      apply Option.bind_congr
      intro g' _
      exact ih g'

/-- What the reader comes to, for arguments that can be read. -/
theorem outcome?_of_reads {opened : Option Setting} {arguments : List Bytes} {items : List Item}
    (h : Reads opened arguments items) :
    (between g opened).outcome? arguments = g.takeAll? items := by
  induction h generalizing g with
  | nil => rfl
  | value hplain hrest ih =>
      rw [outcome?_cons, read_of_isPlain rfl hplain, Given.takeAll?_cons]
      show outcome? ⟨g, some (.setting _ (some _)), false⟩ _ = _
      rw [outcome?_value]
      apply Option.bind_congr
      intro g' _
      exact ih g'
  | positional hplain hrest ih =>
      rw [outcome?_cons, TakesPositional.read (.inr ⟨hplain, by simp [between]⟩), Given.takeAll?_cons]
      show (readPositional ⟨g, none, false⟩ _).toOption.bind _ = _
      rw [outcome?_positional]
      apply Option.bind_congr
      intro g' _
      exact ih g'
  | literal rest =>
      rw [outcome?_cons, read_dashes rfl]
      exact outcome?_literal g rest
  | options hsays hrest ih =>
      rw [outcome?_cons, toOption_read g hsays, Option.bind_map, Given.takeAll?_append]
      apply Option.bind_congr
      intro g' _
      exact ih g'

end Taking

section Read

variable {r r' : Reader} {g : Given}

def waiting (r : Reader) : Option Setting :=
  match r.pending with
  | some (.setting s none) => some s
  | _ => none

theorem waiting_eq_some_iff {s : Setting} :
    r.waiting = some s ↔ r.pending = some (.setting s none) := by
  unfold waiting
  split
  · rename_i t hpending
    simp [hpending]
  · rename_i hnone
    constructor
    · intro h
      cases h
    · intro h
      exact (hnone s h).elim

theorem waiting_of_settle (h : r.settle = .ok r') : r.waiting = none := by
  unfold waiting
  split
  · rename_i s hpending
    simp [settle, hpending] at h
  · rfl

theorem waiting_of_pending (h : r.pending = none) : r.waiting = none := by
  simp [waiting, h]

/-- No option is open before the step, and after it the given one may be. -/
structure Moves (r : Reader) (opened : Option Setting) (r' : Reader) : Prop where
  closed : r.waiting = none
  opened : r'.waiting = opened
  literal : r'.literal = r.literal

theorem moves_of_settle (h : r.settle = .ok r') : r.Moves none r' :=
  ⟨waiting_of_settle h, waiting_of_pending (pending_of_settle h), literal_of_settle h⟩

theorem moves_of_await {s : Setting} (h : r.await s = .ok r') : r.Moves (some s) r' := by
  obtain ⟨settled, hsettled, hr⟩ := bind_eq_ok.mp h
  have hmoves := moves_of_settle hsettled
  rw [← Except.ok.inj hr]
  exact ⟨hmoves.closed, rfl, hmoves.literal⟩

theorem moves_of_storing (storing : Given → Except UsageError Given)
    (h : (do let r ← r.settle; return { r with given := ← storing r.given }) = .ok r') :
    r.Moves none r' := by
  obtain ⟨settled, hsettled, hrest⟩ := bind_eq_ok.mp h
  obtain ⟨g, -, hr⟩ := bind_eq_ok.mp hrest
  have hmoves := moves_of_settle hsettled
  rw [← Except.ok.inj hr]
  exact ⟨hmoves.closed, hmoves.opened, hmoves.literal⟩

theorem moves_of_store {s : Setting} {v : Bytes} (h : r.store s v = .ok r') : r.Moves none r' :=
  moves_of_storing (fun g => g.set s v) h

theorem moves_of_turnOn {s : Switch} {long : Bool} (h : r.turnOn s long = .ok r') :
    r.Moves none r' :=
  moves_of_storing (fun g => g.turnOn s long) h

theorem moves_of_readPositional {v : Bytes} (h : r.readPositional v = .ok r') :
    r.Moves none r' := by
  simp only [readPositional] at h
  split at h
  · cases h
  · obtain ⟨settled, hsettled, hr⟩ := bind_eq_ok.mp h
    have hmoves := moves_of_settle hsettled
    rw [← Except.ok.inj hr]
    exact ⟨hmoves.closed, rfl, hmoves.literal⟩

theorem letters_of_readShort {letters : Bytes} (hne : letters ≠ [])
    (h : r.readShort (Utf8.pieces letters) = .ok r') :
    ∃ items opened, Letters letters items opened ∧ r.Moves opened r' := by
  generalize hpieces : Utf8.pieces letters = pieces at h
  induction pieces generalizing r letters with
  | nil => exact absurd hpieces (Utf8.pieces_ne_nil hne)
  | cons piece pieces ih =>
      cases piece with
      | illFormed octets => cases h
      | scalar c =>
          simp only [readShort] at h
          split at h
          · cases h
          · rename_i s hc
            have hletter := Parameter.ofShort?_eq_some_iff.mp hc
            obtain ⟨rfl, hrest⟩ :=
              Utf8.eq_of_pieces_eq_scalar (Parameter.toNat_of_letter? hletter) hpieces
            obtain ⟨mid, hmid, hread⟩ := bind_eq_ok.mp h
            have hmoves := moves_of_turnOn hmid
            by_cases hnil : pieces.flatMap Utf8.Piece.octets = []
            · rw [hnil] at hrest
              rw [hrest] at hread
              rw [hnil]
              obtain rfl := Except.ok.inj hread
              exact ⟨_, _, .switch hletter .nil, hmoves⟩
            · obtain ⟨items, opened, hletters, hmore⟩ := ih hnil hrest.symm hread
              exact ⟨_, opened, .switch hletter hletters,
                hmoves.closed, hmore.opened, hmore.literal.trans hmoves.literal⟩
          · rename_i s hc
            have hletter := Parameter.ofShort?_eq_some_iff.mp hc
            obtain ⟨rfl, -⟩ := Utf8.eq_of_pieces_eq_scalar (Parameter.toNat_of_letter? hletter) hpieces
            split at h
            · rename_i hnil
              rw [hnil, List.append_nil]
              exact ⟨_, _, .opens hletter, moves_of_await h⟩
            · rename_i b value hvalue
              rw [hvalue]
              by_cases hb : b = equals
              · subst hb
                exact ⟨_, _, .equals value hletter, moves_of_store h⟩
              · exact ⟨_, _, .attached value hletter hb, moves_of_store h⟩

theorem dropWhile_bne_equals (body : Bytes) :
    body.dropWhile (· != equals) = [] ∨ ∃ v, body.dropWhile (· != equals) = equals :: v := by
  have hhead := List.head?_dropWhile_not (· != equals) body
  cases h : body.dropWhile (· != equals) with
  | nil => exact .inl rfl
  | cons b v =>
      rw [h] at hhead
      have hb : b = equals := by simpa using hhead
      exact .inr ⟨v, by rw [hb]⟩

theorem name_of_long {body : Bytes} {p : Parameter}
    (h : (Utf8.decode? (body.takeWhile (· != equals))).bind Parameter.ofLong? = some p) :
    ∃ name, Parameter.ofLong? name = some p ∧
      Utf8.encode name ++ body.dropWhile (· != equals) = body := by
  obtain ⟨name, hdecoded, hlong⟩ := Option.bind_eq_some_iff.mp h
  refine ⟨name, hlong, ?_⟩
  rw [← Utf8.decode?_eq_some_iff.mp hdecoded]
  exact List.takeWhile_append_dropWhile

theorem says_of_readLong {body : Bytes} (h : r.readLong body = .ok r') :
    ∃ items opened, Says (dash :: dash :: body) items opened ∧ r.Moves opened r' := by
  simp only [readLong] at h
  split at h
  · cases h
  · rename_i s hname
    obtain ⟨name, hlong, hbody⟩ := name_of_long hname
    obtain rfl := Parameter.ofLong?_eq_some_iff.mp hlong
    rcases dropWhile_bne_equals body with hdrop | ⟨v, hdrop⟩
    · rw [hdrop, List.append_nil] at hbody
      rw [hdrop] at h
      rw [← hbody]
      exact ⟨_, _, .opens s, moves_of_await h⟩
    · rw [hdrop] at hbody h
      rw [← hbody]
      exact ⟨_, _, .attached s v, moves_of_store h⟩
  · rename_i s hname
    obtain ⟨name, hlong, hbody⟩ := name_of_long hname
    obtain rfl := Parameter.ofLong?_eq_some_iff.mp hlong
    rcases dropWhile_bne_equals body with hdrop | ⟨v, hdrop⟩
    · rw [hdrop, List.append_nil] at hbody
      rw [hdrop] at h
      rw [← hbody]
      exact ⟨_, _, .switch s, moves_of_turnOn h⟩
    · rw [hdrop] at h
      cases h

theorem not_waiting_of_literal {arguments : List Bytes} (hliteral : r.literal = true)
    (h : r.outcome? arguments = some g) : r.waiting = none := by
  cases arguments with
  | nil =>
      obtain ⟨settled, hsettled, -⟩ := Option.map_eq_some_iff.mp h
      exact waiting_of_settle (toOption_eq_some_iff.mp hsettled)
  | cons v rest =>
      rw [outcome?_cons] at h
      obtain ⟨r', hr', -⟩ := Option.bind_eq_some_iff.mp h
      rw [TakesPositional.read (.inl hliteral)] at hr'
      exact (moves_of_readPositional (toOption_eq_some_iff.mp hr')).closed

/-- Arguments that lead to an outcome can be read. -/
theorem reads_of_outcome? {arguments : List Bytes} (hliteral : r.literal = false)
    (h : r.outcome? arguments = some g) : ∃ items, Reads r.waiting arguments items := by
  induction arguments generalizing r with
  | nil =>
      obtain ⟨settled, hsettled, -⟩ := Option.map_eq_some_iff.mp h
      rw [waiting_of_settle (toOption_eq_some_iff.mp hsettled)]
      exact ⟨_, .nil⟩
  | cons argument rest ih =>
      rw [outcome?_cons] at h
      obtain ⟨r', hr', hrest⟩ := Option.bind_eq_some_iff.mp h
      have hread := toOption_eq_some_iff.mp hr'
      rcases form_of_argument argument with hplain | rfl | ⟨b, body, rfl, hb⟩ | ⟨body, rfl, hbody⟩
      · rw [read_of_isPlain hliteral hplain] at hread
        cases hwaiting : r.waiting with
        | some s =>
            simp only [readPlain, waiting_eq_some_iff.mp hwaiting] at hread
            rw [← Except.ok.inj hread] at hrest
            obtain ⟨items, hitems⟩ := ih (by exact hliteral) hrest
            exact ⟨_, .value hplain hitems⟩
        | none =>
            have hclosed : ∀ s, r.pending ≠ some (.setting s none) := by
              intro s hs
              cases hwaiting.symm.trans (waiting_eq_some_iff.mpr hs)
            rw [readPlain_eq_readPositional hclosed] at hread
            have hmoves := moves_of_readPositional hread
            obtain ⟨items, hitems⟩ := ih (hmoves.literal.trans hliteral) hrest
            rw [hmoves.opened] at hitems
            exact ⟨_, .positional hplain hitems⟩
      · rw [read_dashes hliteral] at hread
        obtain rfl := Except.ok.inj hread
        have hclosed := not_waiting_of_literal rfl hrest
        rw [show r.waiting = none from hclosed]
        exact ⟨_, .literal rest⟩
      · rw [read_short hliteral hb] at hread
        obtain ⟨items, opened, hletters, hmoves⟩ := letters_of_readShort (List.cons_ne_nil b body) hread
        obtain ⟨more, hmore⟩ := ih (hmoves.literal.trans hliteral) hrest
        rw [hmoves.opened] at hmore
        rw [hmoves.closed]
        exact ⟨_, .options (.letters (List.cons_ne_nil b body) hletters) hmore⟩
      · rw [read_long hliteral hbody] at hread
        obtain ⟨items, opened, hsays, hmoves⟩ := says_of_readLong hread
        obtain ⟨more, hmore⟩ := ih (hmoves.literal.trans hliteral) hrest
        rw [hmoves.opened] at hmore
        rw [hmoves.closed]
        exact ⟨_, .options hsays hmore⟩

end Read

end Reader

namespace Arguments

variable {arguments : List Bytes} {c : Arguments} {items : List Item}

theorem read_eq_ok_iff_outcome :
    Arguments.read arguments = .ok c ↔
      ∃ g, Reader.start.outcome? arguments = some g ∧ g.finish = .ok c := by
  constructor
  · intro h
    obtain ⟨last, hlast, hrest⟩ := bind_eq_ok.mp h
    obtain ⟨settled, hsettled, hfinish⟩ := bind_eq_ok.mp hrest
    refine ⟨settled.given, ?_, hfinish⟩
    rw [Reader.outcome?, hlast]
    show last.settle.toOption.map Reader.given = some settled.given
    rw [hsettled]
    rfl
  · rintro ⟨g, houtcome, hfinish⟩
    obtain ⟨settled, hsettled, rfl⟩ := Option.map_eq_some_iff.mp houtcome
    obtain ⟨last, hlast, hsettle⟩ := Option.bind_eq_some_iff.mp hsettled
    rw [Arguments.read, toOption_eq_some_iff.mp hlast]
    show last.settle >>= (fun r => r.given.finish) = .ok c
    rw [toOption_eq_some_iff.mp hsettle]
    exact hfinish

theorem reads_of_read (h : Arguments.read arguments = .ok c) :
    ∃ items, Reads none arguments items := by
  obtain ⟨g, houtcome, -⟩ := read_eq_ok_iff_outcome.mp h
  exact Reader.reads_of_outcome? rfl houtcome

/-- Arguments that can be read are accepted exactly if their items fit together. -/
theorem read_eq_ok_iff (h : Reads none arguments items) :
    Arguments.read arguments = .ok c ↔ Collects items c := by
  have houtcome : Reader.start.outcome? arguments = Given.nothing.takeAll? items :=
    Reader.outcome?_of_reads Given.nothing h
  rw [read_eq_ok_iff_outcome, houtcome, collects_iff]

end Arguments

end Collate
