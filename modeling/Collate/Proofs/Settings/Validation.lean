import Collate.Proofs.FileTree.Opened
import Collate.Proofs.Job.SelfInclusion
import Collate.Proofs.Text.Utf8

/-!
Which settings are valid. The check of the output's name looks at the components of a path, so slashes and
dots after a name are overlooked, and so is an octet 0; the other names that pass are those of files, and
only what else is in the tree decides whether the output can be opened.
-/
namespace Collate

namespace Path

open Utf8 (encode encodeChar)

theorem slash_mem_encode_iff {cs : List Char} : slash ∈ cs.flatMap encodeChar ↔ '/' ∈ cs :=
  Utf8.mem_encode_iff (a := '/') (by decide)

theorem hasNul_encode_iff {s : String} : hasNul (encode s) ↔ '\x00' ∈ s.toList := by
  have hmem : (0 : UInt8) ∈ s.toList.flatMap encodeChar ↔ '\x00' ∈ s.toList :=
    Utf8.mem_encode_iff (a := '\x00') (by decide)
  simpa [hasNul, encode] using hmem

theorem split_encode (cs : List Char) :
    split (cs.flatMap encodeChar) = (parts (· == '/') cs).map (·.flatMap encodeChar) := by
  induction cs with
  | nil => rfl
  | cons c cs ih =>
      by_cases hc : c = '/'
      · subst hc
        have hparts : parts (· == '/') ('/' :: cs) = [] :: parts (· == '/') cs := rfl
        rw [hparts, List.map_cons, ← ih]
        exact split_slash [] _
      · have hfree : ∀ b ∈ encodeChar c, (b == slash) = false := by
          intro b hb
          refine beq_eq_false_iff_ne.mpr ?_
          rintro rfl
          have hmem : '/' ∈ [c] := slash_mem_encode_iff.mp (by simpa using hb)
          exact hc (List.mem_singleton.mp hmem).symm
        obtain ⟨p, ps, hparts⟩ := List.exists_cons_of_ne_nil (parts_ne_nil (· == '/') cs)
        have hsplit := parts_append_of_forall (· == slash) hfree (cs.flatMap encodeChar)
        rw [List.flatMap_cons, split, hsplit, ← split, ih]
        simp [parts, hc, hparts]

theorem isPlainName_encode_iff {s : String} :
    isPlainName (encode s) ↔ ∃ base rest, parts (· == '/') s.toList = base :: rest ∧
      base ≠ [] ∧ base ≠ ['.'] ∧ base ≠ ['.', '.'] ∧ ∀ part ∈ rest, part = [] ∨ part = ['.'] := by
  have hsplit : split (encode s) = (parts (· == '/') s.toList).map (·.flatMap encodeChar) :=
    split_encode s.toList
  have hempty (cs : List Char) : cs.flatMap encodeChar = [] ↔ cs = [] :=
    Utf8.flatMap_encodeChar_eq_iff [] (by simp)
  have hdot (cs : List Char) : cs.flatMap encodeChar = dot ↔ cs = ['.'] :=
    Utf8.flatMap_encodeChar_eq_iff ['.'] (by simp)
  have hdotDot (cs : List Char) : cs.flatMap encodeChar = dotDot ↔ cs = ['.', '.'] :=
    Utf8.flatMap_encodeChar_eq_iff ['.', '.'] (by simp)
  obtain ⟨base, rest, hparts⟩ := List.exists_cons_of_ne_nil (parts_ne_nil (· == '/') s.toList)
  rw [hparts, List.map_cons] at hsplit
  constructor
  · intro h
    obtain ⟨-, n, more, hn, hnormal, hmore⟩ := split_of_isPlainName h
    obtain ⟨rfl, rfl⟩ := List.cons.inj (hsplit.symm.trans hn)
    obtain ⟨hne, hnotDot, hnotUp⟩ := component?_eq_normal.mp hnormal
    refine ⟨base, rest, hparts, mt (hempty base).mpr hne, mt (hdot base).mpr hnotDot,
      mt (hdotDot base).mpr hnotUp, fun part hpart => ?_⟩
    exact (hmore _ (List.mem_map_of_mem hpart)).imp (hempty part).mp (hdot part).mp
  · rintro ⟨base', rest', hparts', hne, hnotDot, hnotUp, hrest⟩
    obtain ⟨rfl, rfl⟩ := List.cons.inj (hparts.symm.trans hparts')
    refine isPlainName_of_split hsplit (component?_eq_normal.mpr ?_) fun m hm => ?_
    · exact ⟨mt (hempty base).mp hne, mt (hdot base).mp hnotDot, mt (hdotDot base).mp hnotUp⟩
    · obtain ⟨part, hpart, rfl⟩ := List.mem_map.mp hm
      exact (hrest part hpart).imp (hempty part).mpr (hdot part).mpr

end Path

namespace Settings

/-- The text is the name of a directory's entry: not empty, no move, and without slashes and octets 0. -/
structure IsFileName (name : String) : Prop where
  ne_empty : name ≠ ""
  noSlash : '/' ∉ name.toList
  noNul : '\x00' ∉ name.toList
  ne_dot : name ≠ "."
  ne_dotDot : name ≠ ".."

theorem parts_of_noSlash {cs : List Char} (h : '/' ∉ cs) : parts (· == '/') cs = [cs] :=
  parts_of_forall _ fun _ hc => beq_eq_false_iff_ne.mpr fun e => h (e ▸ hc)

theorem isPlainName_of_isFileName {name : String} (h : IsFileName name) :
    Path.isPlainName (Utf8.encode name) := by
  have hne (s : String) (hs : name ≠ s) : name.toList ≠ s.toList := mt String.toList_inj.mp hs
  exact Path.isPlainName_encode_iff.mpr
    ⟨name.toList, [], parts_of_noSlash h.noSlash, hne "" h.ne_empty, hne "." h.ne_dot,
      hne ".." h.ne_dotDot, by simp⟩

theorem isFileName_of_isPlainName {name : String} (h : Path.isPlainName (Utf8.encode name)) :
    IsFileName name ↔ '/' ∉ name.toList ∧ '\x00' ∉ name.toList := by
  refine ⟨fun h => ⟨h.noSlash, h.noNul⟩, fun ⟨hslash, hnul⟩ => ?_⟩
  obtain ⟨base, rest, hparts, hne, hdot, hup, -⟩ := Path.isPlainName_encode_iff.mp h
  obtain ⟨rfl, rfl⟩ := List.cons.inj ((parts_of_noSlash hslash).symm.trans hparts)
  refine ⟨?_, hslash, hnul, ?_, ?_⟩ <;> rintro rfl
  · exact hne rfl
  · exact hdot rfl
  · exact hup rfl

/-- No output is opened under a name that passes the check and is not a file's. -/
theorem create_of_not_isFileName {s : Settings} (h : Path.isPlainName (Utf8.encode s.outputName))
    (hname : ¬ IsFileName s.outputName) (fs : FileSystem) (root : Path) :
    ∃ fault, fs.create (s.outputPath root) = .error fault := by
  rw [outputPath_eq_entry h]
  by_cases hnul : '\x00' ∈ s.outputName.toList
  · refine ⟨_, FileSystem.create_of_hasNul ?_⟩
    rw [Path.hasNul_entry, Path.hasNul_encode_iff.mpr hnul, Bool.or_true]
  · have hslash : Path.slash ∈ Utf8.encode s.outputName := by
      refine Path.slash_mem_encode_iff.mpr (Classical.byContradiction fun hno => ?_)
      exact hname ((isFileName_of_isPlainName h).mpr ⟨hno, hnul⟩)
    obtain ⟨-, n, rest, hsplit, -, hrest⟩ := Path.split_of_isPlainName h
    obtain rfl | ⟨init, last, rfl⟩ := List.eq_nil_or_concat rest
    · exact absurd hslash (Path.noSlash_of_split hsplit)
    · have hlast := hrest last (by simp)
      by_cases hroot : root = []
      · have hentry : root.entry (Utf8.encode s.outputName) = Utf8.encode s.outputName := by
          simp [hroot, Path.entry]
        have hparts : Path.split (Utf8.encode s.outputName) = (n :: init) ++ [last] := by
          simp [hsplit]
        rw [hentry]
        exact FileSystem.create_of_skipped hparts hlast
      · obtain ⟨q, hq, -⟩ := Path.split_entry hroot
        have hparts : (root.entry (Utf8.encode s.outputName)).split =
            (q.split ++ n :: init) ++ [last] := by simp [hq, hsplit]
        exact FileSystem.create_of_skipped hparts hlast

/-- The check accepts a name with slashes and dots after its first part, or with an octet 0, and no run opens
an output under it. Of the other names it accepts exactly those of files, under which anything but a
directory is opened. -/
theorem validate_iff_isFileName (s : Settings) :
    (s.validate = .ok () ↔ s.scan.maxDepth ≠ some 0 ∧
      ∃ base rest, parts (· == '/') s.outputName.toList = base :: rest ∧
        base ≠ [] ∧ base ≠ ['.'] ∧ base ≠ ['.', '.'] ∧ ∀ part ∈ rest, part = [] ∨ part = ['.']) ∧
    ('/' ∉ s.outputName.toList → '\x00' ∉ s.outputName.toList →
      (s.validate = .ok () ↔ IsFileName s.outputName ∧ s.scan.maxDepth ≠ some 0)) ∧
    (s.validate = .ok () → ¬ IsFileName s.outputName → ∀ (fs : FileSystem) (root : Path),
      ∃ fault, fs.create (s.outputPath root) = .error fault ∧
        ∀ extension clock files, (Job.mk s root extension).discover fs = .ok files →
          ((Job.mk s root extension).concatenate fs clock).result =
            .error (.unwritable (s.outputPath root) fault)) ∧
    (IsFileName s.outputName → ∀ (fs : FileSystem) (root : Path) (top : Location) (es : Entries),
      fs.stat root = .ok (top, .dir es) →
      (∀ target, Entries.get? es (Utf8.encode s.outputName) ≠ some (.link target)) →
      ((∃ now o, fs.create (s.outputPath root) = .ok (now, o)) ↔
        (Utf8.encode s.outputName).length ≤ FileSystem.nameLimit ∧
          (s.outputPath root).length < FileSystem.pathLimit ∧
          ∀ inner, Entries.get? es (Utf8.encode s.outputName) ≠ some (.dir inner))) := by
  refine ⟨?_, fun hslash hnul => ?_, fun hvalid hname fs root => ?_, ?_⟩
  · rw [validate_eq_ok, Path.isPlainName_encode_iff, and_comm]
  · rw [validate_eq_ok]
    refine and_congr_left fun _ => ⟨fun h => ?_, isPlainName_of_isFileName⟩
    exact (isFileName_of_isPlainName h).mpr ⟨hslash, hnul⟩
  · have hplain := isPlainName_of_validate hvalid
    obtain ⟨fault, hfault⟩ := create_of_not_isFileName hplain hname fs root
    refine ⟨fault, hfault, fun extension clock files hfiles => ?_⟩
    have hwrite : (Concatenation.write fs (s.outputPath root) none files).result =
        .error (.unwritable (s.outputPath root) fault) := by
      simp only [Concatenation.write, hfault]
      rfl
    simp only [Job.concatenate, hfiles, Job.output, hwrite]
    rfl
  · intro hname fs root top es hroot hlink
    have hplain := isPlainName_of_isFileName hname
    have hslash : Path.slash ∉ Utf8.encode s.outputName :=
      mt Path.slash_mem_encode_iff.mp hname.noSlash
    have hnul : Path.hasNul (Utf8.encode s.outputName) = false :=
      Bool.eq_false_iff.mpr (mt Path.hasNul_encode_iff.mp hname.noNul)
    rw [outputPath_eq_entry hplain]
    exact FileSystem.create_entry_isOk_iff hroot hplain hslash hnul hlink

/-- Settings whose output is named like this. -/
def named (name : String) : Settings :=
  { default with outputName := name }

/-- An empty directory. -/
def emptyDirectory : FileSystem where
  root := .dir []
  cwd := []

theorem validate_iff_isFileName_out :
    (named "out").validate = .ok () ∧ IsFileName (named "out").outputName ∧
    (∃ now o, emptyDirectory.create ((named "out").outputPath Path.dot) = .ok (now, o)) ∧
    (named "out/.").validate = .ok () ∧ ¬ IsFileName (named "out/.").outputName ∧
    ∃ fault, emptyDirectory.create ((named "out/.").outputPath Path.dot) = .error fault ∧
      ((Job.mk (named "out/.") Path.dot "rs").concatenate emptyDirectory Job.zeroClock).result =
        .error (.unwritable ((named "out/.").outputPath Path.dot) fault) := by
  have hname : IsFileName (named "out").outputName := by constructor <;> decide
  have hother : ¬ IsFileName (named "out/.").outputName := fun h => h.noSlash (by decide)
  have hvalid : (named "out/.").validate = .ok () := rfl
  have hroot : emptyDirectory.stat Path.dot = .ok ([], .dir []) := rfl
  have hfiles : (Job.mk (named "out/.") Path.dot "rs").discover emptyDirectory = .ok [] := rfl
  have hlimits : (Utf8.encode (named "out").outputName).length ≤ FileSystem.nameLimit ∧
      ((named "out").outputPath Path.dot).length < FileSystem.pathLimit := by decide +kernel
  obtain ⟨-, hfile, -, hopens⟩ := validate_iff_isFileName (named "out")
  obtain ⟨-, -, hfails, -⟩ := validate_iff_isFileName (named "out/.")
  obtain ⟨fault, hfault, hruns⟩ := hfails hvalid hother emptyDirectory Path.dot
  refine ⟨(hfile (by decide) (by decide)).mpr ⟨hname, by decide⟩, hname, ?_, hvalid, hother, fault,
    hfault, hruns "rs" Job.zeroClock [] hfiles⟩
  exact (hopens hname emptyDirectory Path.dot [] [] hroot (by simp [Entries.get?])).mpr
    ⟨hlimits.1, hlimits.2, by simp [Entries.get?]⟩

/-- A name with a slash at its end passes the check. -/
theorem validate_accepts_slash :
    ¬ ∀ s : Settings, s.validate = .ok () ↔
      IsFileName s.outputName ∧ s.scan.maxDepth ≠ some 0 := by
  intro h
  have hvalid : (named "out/").validate = .ok () := rfl
  exact ((h _).mp hvalid).1.noSlash (by decide)

end Settings

end Collate
