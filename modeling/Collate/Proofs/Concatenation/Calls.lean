import Mathlib.Algebra.GroupWithZero.Nat
import Collate.Proofs.Concatenation.Bounded

/-!
What the callback of a run sees. It is called before each source and once more after the last flush, so a run
that stops at a block has called it for that block, too, but never with a block that was not taken.
-/
namespace Collate

/-- How far a run over so many sources has come when it has taken these blocks. -/
def Progress.reached (total : Nat) (blocks : List Block) : Progress :=
  ⟨blocks.length, total, (blocks.flatMap Block.bytes).length, blocks.getLast?.map Block.header⟩

theorem Progress.start_eq_reached (total : Nat) : start total = reached total [] :=
  rfl

theorem Progress.advance_reached (total : Nat) (blocks : List Block) (b : Block) :
    (reached total blocks).advance b.header b.size = reached total (blocks ++ [b]) := by
  simp [advance, reached, Block.length_bytes]

namespace Concatenation

/-- The file that the call with this number shows: the one written last. -/
def shownFile (sources : List Source) : Nat → Option String
  | 0 => none
  | i + 1 => sources[i]?.map Source.display

/-- How a run ends whose output is open: the blocks that it has handed over to the writer, how often it has
called back, and its result. -/
inductive Ends (output : Path) (opened : FileSystem) (sink : Sink) (sources : List Source) :
    List Block → Nat → Except Failure Progress → Prop where
  | finished {blocks : List Block} {now : FileSystem} {t : Sink} :
      Written opened sink sources blocks now t → (t.flush now).2.2 = none →
      Ends output opened sink sources blocks (sources.length + 1)
        (.ok (.reached sources.length blocks))
  | unflushed {blocks : List Block} {now : FileSystem} {t : Sink} {refusal : Refusal} :
      Written opened sink sources blocks now t → (t.flush now).2.2 = some refusal →
      Ends output opened sink sources blocks sources.length
        (.error (.unwritable output (.refused refusal)))
  | unread {k : Nat} {blocks : List Block} {now : FileSystem} {t : Sink} {f : Source}
      {fault : IoFault} :
      Written opened sink (sources.take k) blocks now t → sources[k]? = some f →
      now.readText f.path = .error fault →
      Ends output opened sink sources blocks (k + 1) (.error (.ofRead f.path fault))
  | refused {k : Nat} {blocks : List Block} {now next : FileSystem} {t u : Sink} {f : Source}
      {data : Bytes} {refusal : Refusal} :
      Written opened sink (sources.take k) blocks now t → sources[k]? = some f →
      now.readText f.path = .ok data →
      t.pushAll now (Block.pieces ⟨f.display, data⟩) = (next, u, some refusal) →
      Ends output opened sink sources blocks (k + 1)
        (.error (.unwritable output (.refused refusal)))

section Loop

variable {fs now : FileSystem} {sink t : Sink} {before sources : List Source} {blocks : List Block}
  {output : Path}

theorem Written.headers (h : Written fs sink before blocks now t) :
    blocks.map Block.header = before.map Source.display := by
  induction h with
  | nil _ _ => rfl
  | cons _ _ _ ih => rw [List.map_cons, List.map_cons, ih]

theorem Written.length_eq (h : Written fs sink before blocks now t) :
    blocks.length = before.length := by
  simpa using congrArg List.length h.headers

theorem Written.take (h : Written fs sink before blocks now t) (i : Nat) :
    ∃ mid u, Written fs sink (before.take i) (blocks.take i) mid u := by
  induction h generalizing i with
  | nil fs sink => exact ⟨fs, sink, by simpa using .nil fs sink⟩
  | @cons fs _ _ sink _ _ _ _ _ _ hread hpush _ ih =>
      cases i with
      | zero => exact ⟨fs, sink, .nil fs sink⟩
      | succ i =>
          obtain ⟨mid, u, hwritten⟩ := ih i
          exact ⟨mid, u, .cons hread hpush hwritten⟩

/-- While the loop writes some sources it shows how far it has come, before each of them. -/
theorem Written.seen (h : Written fs sink before blocks now t) (output : Path) (total : Nat)
    (past : List Block) (after : List Source) :
    (Concatenation.writeFrom output fs sink (.reached total past) (before ++ after)).result =
        (Concatenation.writeFrom output now t (.reached total (past ++ blocks)) after).result ∧
      (Concatenation.writeFrom output fs sink (.reached total past) (before ++ after)).seen =
        (List.range before.length).map (fun i => .reached total (past ++ blocks.take i)) ++
          (Concatenation.writeFrom output now t (.reached total (past ++ blocks)) after).seen := by
  induction h generalizing past with
  | nil fs sink => simp
  | @cons fs mid now sink u t f contents before blocks hread hpush _ ih =>
      obtain ⟨hresult, hseen⟩ := ih (past ++ [⟨f.display, contents⟩])
      rw [← Progress.advance_reached, List.append_assoc, List.singleton_append] at hresult hseen
      refine ⟨?_, ?_⟩
      · simp only [List.cons_append, Concatenation.writeFrom, hread, hpush]
        exact hresult
      · simp only [List.cons_append, Concatenation.writeFrom, hread, hpush]
        rw [hseen, List.length_cons, List.range_succ_eq_map]
        simp

theorem exists_ends (output : Path) (opened : FileSystem) (sink : Sink) (sources : List Source) :
    ∃ blocks calls result, Ends output opened sink sources blocks calls result := by
  obtain ⟨before, blocks, now, t, hwritten, rfl | ⟨f, after, rfl, hstop⟩⟩ :=
    exists_written opened sink sources
  · cases hflush : (t.flush now).2.2 with
    | none => exact ⟨blocks, _, _, .finished hwritten hflush⟩
    | some refusal => exact ⟨blocks, _, _, .unflushed hwritten hflush⟩
  · have htake : (before ++ f :: after).take before.length = before := List.take_left
    have hnext : (before ++ f :: after)[before.length]? = some f := by simp
    rw [← htake] at hwritten
    rcases hstop with ⟨fault, hread⟩ | ⟨contents, next, u, refusal, hread, hpush⟩
    · exact ⟨blocks, _, _, .unread hwritten hnext hread⟩
    · exact ⟨blocks, _, _, .refused hwritten hnext hread hpush⟩

end Loop

section Flush

variable {now : FileSystem} {t : Sink} (output : Path) (p : Progress)

theorem writeFrom_nil_of_flushed (h : (t.flush now).2.2 = none) :
    (writeFrom output now t p []).result = .ok p ∧ (writeFrom output now t p []).seen = [p] := by
  simp only [writeFrom]
  split
  · exact ⟨rfl, rfl⟩
  · rename_i hflush
    rw [hflush] at h
    cases h

theorem writeFrom_nil_of_refused {refusal : Refusal} (h : (t.flush now).2.2 = some refusal) :
    (writeFrom output now t p []).result = .error (.unwritable output (.refused refusal)) ∧
      (writeFrom output now t p []).seen = [] := by
  simp only [writeFrom]
  split
  · rename_i hflush
    rw [hflush] at h
    cases h
  · rename_i hflush
    rw [hflush] at h
    obtain rfl := Option.some.inj h
    exact ⟨rfl, rfl⟩

end Flush

section Calls

variable {opened : FileSystem} {output : Path} {sink : Sink} {sources : List Source}
  {blocks : List Block} {calls : Nat} {result : Except Failure Progress}

theorem Ends.length_le (h : Ends output opened sink sources blocks calls result) :
    calls ≤ blocks.length + 1 := by
  cases h with
  | finished hwritten _ | unflushed hwritten _ => simp [hwritten.length_eq]
  | unread hwritten hnext _ | refused hwritten hnext _ _ =>
      have hk := (List.getElem?_eq_some_iff.mp hnext).1
      rw [hwritten.length_eq, List.length_take]
      omega

/-- The blocks that have been handed over are those of the first sources. -/
theorem Ends.written (h : Ends output opened sink sources blocks calls result) :
    ∃ before now t, before <+: sources ∧ Written opened sink before blocks now t := by
  cases h with
  | finished hwritten _ | unflushed hwritten _ => exact ⟨_, _, _, List.prefix_rfl, hwritten⟩
  | unread hwritten _ _ | refused hwritten _ _ _ => exact ⟨_, _, _, List.take_prefix _ _, hwritten⟩

/-- A run that stops at a source has shown its progress before that source, too. -/
theorem seen_of_stop {k : Nat} {now : FileSystem} {t : Sink} {f : Source} {stop : Concatenation}
    (hwritten : Written opened sink (sources.take k) blocks now t) (hnext : sources[k]? = some f)
    (hstop : writeFrom output now t (.reached sources.length blocks) (f :: sources.drop (k + 1)) = stop)
    (hseen : stop.seen = [.reached sources.length blocks]) :
    (writeFrom output opened sink (Progress.start sources.length) sources).result = stop.result ∧
      (writeFrom output opened sink (Progress.start sources.length) sources).seen =
        (List.range (k + 1)).map fun i => .reached sources.length (blocks.take i) := by
  obtain ⟨hk, hf⟩ := List.getElem?_eq_some_iff.mp hnext
  have hlength : blocks.length = k := by
    rw [hwritten.length_eq, List.length_take, Nat.min_eq_left (Nat.le_of_lt hk)]
  have hsources : sources.take k ++ f :: sources.drop (k + 1) = sources := by
    rw [← hf, List.getElem_cons_drop, List.take_append_drop]
  obtain ⟨hresult, hshown⟩ := hwritten.seen output sources.length [] (f :: sources.drop (k + 1))
  rw [hsources, ← Progress.start_eq_reached] at hresult hshown
  rw [hresult, hshown, List.nil_append, hstop, hseen]
  have hlast : blocks.take k = blocks := List.take_of_length_le (Nat.le_of_eq hlength)
  simp [List.range_succ, hlast, Nat.min_eq_left (Nat.le_of_lt hk)]

theorem Ends.seen (h : Ends output opened sink sources blocks calls result) :
    (writeFrom output opened sink (Progress.start sources.length) sources).result = result ∧
      (writeFrom output opened sink (Progress.start sources.length) sources).seen =
        (List.range calls).map fun i => .reached sources.length (blocks.take i) := by
  cases h with
  | @finished _ now t hwritten hflush =>
      obtain ⟨hresult, hshown⟩ := hwritten.seen output sources.length [] []
      obtain ⟨hok, hlast⟩ := writeFrom_nil_of_flushed output (.reached sources.length blocks) hflush
      rw [List.append_nil, ← Progress.start_eq_reached] at hresult hshown
      rw [hresult, hshown, List.nil_append, hok, hlast]
      have hall : blocks.take sources.length = blocks :=
        List.take_of_length_le (Nat.le_of_eq hwritten.length_eq)
      simp [List.range_succ, hall]
  | @unflushed _ now t refusal hwritten hflush =>
      obtain ⟨hresult, hshown⟩ := hwritten.seen output sources.length [] []
      obtain ⟨herror, hnone⟩ := writeFrom_nil_of_refused output (.reached sources.length blocks) hflush
      rw [List.append_nil, ← Progress.start_eq_reached] at hresult hshown
      rw [hresult, hshown, List.nil_append, herror, hnone]
      simp
  | unread hwritten hnext hread =>
      exact seen_of_stop hwritten hnext (by simp only [writeFrom, hread]; rfl) rfl
  | refused hwritten hnext hread hpush =>
      exact seen_of_stop hwritten hnext (by simp only [writeFrom, hread, hpush]; rfl) rfl

end Calls

theorem reached_take {before sources : List Source} {blocks : List Block} {i : Nat}
    (hinit : before <+: sources) (hheaders : blocks.map Block.header = before.map Source.display)
    (hi : i ≤ blocks.length) :
    Progress.reached sources.length (blocks.take i) =
      ⟨i, sources.length, ((blocks.take i).map fun b => b.bytes.length).sum, shownFile sources i⟩ := by
  have hlength : blocks.length = before.length := by simpa using congrArg List.length hheaders
  have hfile : (blocks.take i).getLast?.map Block.header = shownFile sources i := by
    cases i with
    | zero => rfl
    | succ i =>
        have hget : blocks[i]?.map Block.header = before[i]?.map Source.display := by
          rw [← List.getElem?_map, hheaders, List.getElem?_map]
        have hsame : sources[i]? = before[i]? := by
          obtain ⟨after, rfl⟩ := hinit
          exact List.getElem?_append_left (by omega)
        rw [shownFile, hsame, ← hget, List.getLast?_take, if_neg (Nat.succ_ne_zero i)]
        simp [List.getElem?_eq_getElem (show i < blocks.length from hi)]
  rw [Progress.reached, List.length_take, Nat.min_eq_left hi, List.length_flatMap, hfile]

/-- Every run whose output is open ends in one of these ways. The way decides how often it has called back; the
calls show, one after the other, how far it has come, and no block that was not handed over
completely. -/
theorem calls_follow_writing {fs opened : FileSystem} {output : Path} {handle : Output}
    (hcreate : fs.create output = .ok (opened, handle)) (buffer : Option Nat)
    (sources : List Source) :
    (∃ blocks calls result,
      Ends output opened ⟨handle, Sink.capacityFor buffer, []⟩ sources blocks calls result) ∧
    ∀ blocks calls result,
      Ends output opened ⟨handle, Sink.capacityFor buffer, []⟩ sources blocks calls result →
      (write fs output buffer sources).result = result ∧
      (write fs output buffer sources).seen.length = calls ∧
      (∀ i (shown : Progress), (write fs output buffer sources).seen[i]? = some shown →
        shown = ⟨i, sources.length, ((blocks.take i).map fun b => b.bytes.length).sum,
          shownFile sources i⟩) ∧
      (∀ p, (write fs output buffer sources).result = .ok p →
        (write fs output buffer sources).seen.length = sources.length + 1 ∧
        (write fs output buffer sources).seen.getLast? = some p) ∧
      ∀ shown ∈ (write fs output buffer sources).seen, ∀ name, shown.currentFile = some name →
        ∃ i f now t, sources[i]? = some f ∧ f.display = name ∧ shown.filesWritten = i + 1 ∧
          Written opened ⟨handle, Sink.capacityFor buffer, []⟩ (sources.take (i + 1))
            (blocks.take (i + 1)) now t := by
  refine ⟨exists_ends output opened _ sources, fun blocks calls result hends => ?_⟩
  obtain ⟨hresult, hseen⟩ := hends.seen
  obtain ⟨before, now, t, hinit, hwritten⟩ := hends.written
  have hcalls := hends.length_le
  rw [← write_of_create hcreate] at hresult hseen
  have hshown : ∀ i (shown : Progress), (write fs output buffer sources).seen[i]? = some shown →
      i < calls ∧ shown = ⟨i, sources.length, ((blocks.take i).map fun b => b.bytes.length).sum,
        shownFile sources i⟩ := by
    intro i shown hi
    rw [hseen, List.getElem?_map, Option.map_eq_some_iff] at hi
    obtain ⟨j, hj, rfl⟩ := hi
    obtain ⟨hlt, rfl⟩ := List.getElem?_eq_some_iff.mp hj
    rw [List.getElem_range]
    rw [List.length_range] at hlt
    exact ⟨hlt, reached_take hinit hwritten.headers (by omega)⟩
  refine ⟨hresult, by simp [hseen], fun i shown hi => (hshown i shown hi).2, fun p hok => ?_, ?_⟩
  · obtain rfl := hresult.symm.trans hok
    cases hends with
    | finished hall _ =>
        have hlast : blocks.take sources.length = blocks :=
          List.take_of_length_le (Nat.le_of_eq hall.length_eq)
        simp [hseen, List.range_succ, hlast]
  · intro shown hmem name hname
    obtain ⟨i, hi⟩ := List.mem_iff_getElem?.mp hmem
    obtain ⟨hlt, rfl⟩ := hshown i shown hi
    cases i with
    | zero => cases hname
    | succ i =>
        obtain ⟨f, hf, hdisplay⟩ := Option.map_eq_some_iff.mp hname
        obtain ⟨mid, u, htaken⟩ := hwritten.take (i + 1)
        have hbefore : before.take (i + 1) = sources.take (i + 1) := by
          obtain ⟨after, rfl⟩ := hinit
          rw [List.take_append_of_le_length]
          have hlength := hwritten.length_eq
          omega
        rw [hbefore] at htaken
        exact ⟨i, f, mid, u, hf, hdisplay, rfl, htaken⟩

theorem calls_follow_writing_badOctets :
    (∃ opened, badOctetsAndOldOutput.create allTxt = .ok (opened, .file [allTxt]) ∧
      (write badOctetsAndOldOutput allTxt (some 1) [sourceAt "a.txt"]).seen.length = 2 ∧
      (write badOctetsAndOldOutput allTxt (some 1) [sourceAt "a.txt"]).seen.getLast? =
        some ⟨1, 1, 14, some "a.txt"⟩ ∧
      (write badOctetsAndOldOutput allTxt (some 1) readableThenBad).result =
        .error (.invalidEncoding (Utf8.encode "b.txt")) ∧
      (write badOctetsAndOldOutput allTxt (some 1) readableThenBad).seen.length = 3) ∧
    ∃ opened, (limitedOutput 10).create allTxt = .ok (opened, .file [allTxt]) ∧
      (write (limitedOutput 10) allTxt none [sourceAt "a.txt"]).seen.length = 1 ∧
      ∀ shown ∈ (write (limitedOutput 10) allTxt none [sourceAt "a.txt"]).seen,
        shown.currentFile ≠ some "a.txt" := by
  let one : Block := ⟨(sourceAt "a.txt").display, Utf8.encode "one"⟩
  have hfree : badOctetsAndOldOutput.create allTxt =
      .ok (badOctetsAndOldOutput.put [allTxt] (.file [] none), .file [allTxt]) := rfl
  have hlimited : (limitedOutput 10).create allTxt =
      .ok ((limitedOutput 10).put [allTxt] (.file [] (some 13)), .file [allTxt]) := rfl
  have hfinished : Ends allTxt (badOctetsAndOldOutput.put [allTxt] (.file [] none))
      ⟨.file [allTxt], 4096, []⟩ [sourceAt "a.txt"] [one] 2 (.ok (.reached 1 [one])) :=
    .finished (.cons rfl rfl (.nil _ _)) rfl
  have hunread : Ends allTxt (badOctetsAndOldOutput.put [allTxt] (.file [] none))
      ⟨.file [allTxt], 4096, []⟩ readableThenBad [one, one] 3
      (.error (.ofRead (Utf8.encode "b.txt") .notText)) :=
    .unread (k := 2) (f := sourceAt "b.txt") (.cons rfl rfl (.cons rfl rfl (.nil _ _))) rfl rfl
  have hunflushed : Ends allTxt ((limitedOutput 10).put [allTxt] (.file [] (some 13)))
      ⟨.file [allTxt], 65536, []⟩ [sourceAt "a.txt"] [one] 1
      (.error (.unwritable allTxt (.refused .noSpace))) := .unflushed (.cons rfl rfl (.nil _ _)) rfl
  obtain ⟨hok, hcalls, -, hlast, -⟩ :=
    (calls_follow_writing hfree (some 1) [sourceAt "a.txt"]).2 _ _ _ hfinished
  obtain ⟨herror, hcalls', -⟩ := (calls_follow_writing hfree (some 1) readableThenBad).2 _ _ _ hunread
  obtain ⟨-, hcalls'', hshown, -⟩ :=
    (calls_follow_writing hlimited none [sourceAt "a.txt"]).2 _ _ _ hunflushed
  have hprogress : Progress.reached 1 [one] = ⟨1, 1, 14, some "a.txt"⟩ := by decide +kernel
  refine ⟨⟨_, hfree, hcalls, hprogress ▸ (hlast _ hok).2, herror, hcalls'⟩, _, hlimited, hcalls'',
    fun shown hmem => ?_⟩
  obtain ⟨i, hi⟩ := List.mem_iff_getElem?.mp hmem
  have hlt : i < 1 := hcalls'' ▸ (List.getElem?_eq_some_iff.mp hi).1
  obtain rfl : i = 0 := by omega
  rw [hshown 0 shown hi]
  simp [shownFile]

end Concatenation

end Collate
