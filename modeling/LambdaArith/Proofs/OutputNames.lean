import LambdaArith.CommandLine.OutputPath
import Mathlib.Logic.Basic

/-!
# Which file an input is written to

Where no output is named, the name of the input loses its extension and gets another. Both steps
look for a last dot, so a stem that has an extension of its own loses that as well. The file is
called as the stem says exactly if it has none, and then inputs with different stems have files of
their own.
-/

namespace LambdaArith.CommandLine

/-- A text names a file: it is one part of a path, and not one that leads to a directory. -/
structure IsFileName (name : String) : Prop where
  slash_not_mem : '/' ∉ name.toList
  ne_empty : name ≠ ""
  ne_dot : name ≠ "."
  ne_dots : name ≠ ".."

/-- The last part of a path names a file. -/
theorem isFileName_of_fileName? {path name : String} (h : fileName? path = some name) :
    IsFileName name := by
  unfold fileName? at h
  split at h
  · cases h
  · rename_i last hlast
    split at h
    · cases h
    · rename_i hdots
      have hname : last = name := Option.some.inj h
      subst hname
      obtain ⟨hpiece, hpart⟩ := List.mem_filter.mp (List.mem_of_getLast? hlast)
      simp only [Bool.and_eq_true, decide_eq_true_eq] at hpart
      exact ⟨not_mem_of_mem_pieces hpiece, hpart.1, hpart.2, hdots⟩

/-- A path of one part has that for its file name if it names a file, and otherwise it has none. -/
theorem fileName?_of_slash_not_mem {name : String} (h : '/' ∉ name.toList) :
    fileName? name = if name = "" ∨ name = "." ∨ name = ".." then none else some name := by
  rw [fileName?, pieces_of_not_mem h]
  by_cases hempty : name = ""
  · simp [hempty]
  · by_cases hdot : name = "."
    · simp [hdot]
    · simp [hempty, hdot]

/-- A name has an extension if there is a dot in it that is not at its very front. -/
def HasExtension (name : String) : Prop :=
  '.' ∈ name.toList.tail

instance (name : String) : Decidable (HasExtension name) :=
  inferInstanceAs (Decidable ('.' ∈ name.toList.tail))

/-- What has no dot is passed over in the search for one. -/
theorem dropWhile_append_of_no_dot {front : List Char} (h : '.' ∉ front) (rest : List Char) :
    ((front ++ rest).dropWhile fun c => c ≠ '.') = rest.dropWhile fun c => c ≠ '.' := by
  refine List.dropWhile_append_of_pos fun c hc => decide_eq_true fun hdot => h ?_
  rw [← hdot]
  exact hc

/-- Without an extension, the stem of a name is the name. -/
theorem stem_of_not_hasExtension {name : String} (h : ¬ HasExtension name) : stem name = name := by
  refine if_pos ?_
  unfold HasExtension at h
  cases hname : name.toList with
  | nil => rfl
  | cons c rest =>
    rw [hname, List.tail_cons, ← List.mem_reverse] at h
    rw [List.reverse_cons, dropWhile_append_of_no_dot h]
    by_cases hc : c = '.' <;> simp [hc]

/-- The stem of a name with an extension is what stands in front of its last dot. -/
theorem stem_append {front extension : String} (hfront : front ≠ "")
    (hlast : '.' ∉ extension.toList) : stem (front ++ "." ++ extension) = front := by
  have hreverse : (front ++ "." ++ extension).toList.reverse =
      extension.toList.reverse ++ '.' :: front.toList.reverse := by
    simp [String.toList_append]
  have hcut : (((front ++ "." ++ extension).toList.reverse.dropWhile fun c => c ≠ '.').drop 1) =
      front.toList.reverse := by
    rw [hreverse, dropWhile_append_of_no_dot (mt List.mem_reverse.mp hlast)]
    simp
  have hne : front.toList.reverse ≠ [] := by
    simpa using hfront
  rw [stem, hcut, if_neg hne, List.reverse_reverse, String.ofList_toList]

/-- A name with an extension is cut in two by its last dot. -/
theorem HasExtension.exists_eq {name : String} (h : HasExtension name) :
    ∃ extension, '.' ∉ extension.toList ∧ name = stem name ++ "." ++ extension ∧
      stem name ≠ "" := by
  unfold HasExtension at h
  cases hname : name.toList with
  | nil =>
    rw [hname] at h
    cases h
  | cons c rest =>
    rw [hname, List.tail_cons, ← List.mem_reverse] at h
    obtain ⟨behind, before, hrest, hbehind⟩ := List.eq_append_cons_of_mem h
    have hparts : name = String.ofList (c :: before.reverse) ++ "." ++
        String.ofList behind.reverse := by
      have hrest' : rest = before.reverse ++ '.' :: behind.reverse := by
        rw [← List.reverse_reverse rest, hrest]
        simp
      rw [← String.toList_inj, hname, hrest']
      simp [String.toList_append]
    have hfront : String.ofList (c :: before.reverse) ≠ "" := by
      simp
    have hlast : '.' ∉ (String.ofList behind.reverse).toList := by
      rw [String.toList_ofList]
      exact mt List.mem_reverse.mp hbehind
    have hstem : stem name = String.ofList (c :: before.reverse) := by
      rw [hparts]
      exact stem_append hfront hlast
    rw [← hstem] at hparts hfront
    exact ⟨String.ofList behind.reverse, hlast, hparts, hfront⟩

/-- The stem of a name is the name exactly if there is no extension. -/
theorem stem_eq_self_iff {name : String} : stem name = name ↔ ¬ HasExtension name := by
  refine ⟨fun hsame h => ?_, stem_of_not_hasExtension⟩
  obtain ⟨extension, _, hparts, _⟩ := h.exists_eq
  have hlength := congrArg String.length hparts
  rw [hsame, String.length_append, String.length_append] at hlength
  have hdot : ".".length = 1 := by decide
  omega

/-- The stem of a name is a part of it. -/
theorem mem_of_mem_stem {name : String} {c : Char} (h : c ∈ (stem name).toList) :
    c ∈ name.toList := by
  by_cases hextension : HasExtension name
  · obtain ⟨extension, _, hparts, _⟩ := hextension.exists_eq
    rw [hparts, String.toList_append, String.toList_append]
    exact List.mem_append_left _ (List.mem_append_left _ h)
  · rwa [stem_of_not_hasExtension hextension] at h

/-- The stem of a name is not empty. -/
theorem stem_ne_empty {name : String} (h : name ≠ "") : stem name ≠ "" := by
  by_cases hextension : HasExtension name
  · obtain ⟨_, _, _, hne⟩ := hextension.exists_eq
    exact hne
  · rwa [stem_of_not_hasExtension hextension]

/-- What is left of a name without its extension gets the new one, unless it leads to a
directory. -/
theorem withExtension_eq_of_upToDot {name bare extension : String} (hbare : upToDot name = bare)
    (hslash : '/' ∉ bare.toList) (hne : bare ≠ "") :
    withExtension name extension =
      if bare = "." ∨ bare = ".." then bare else stem bare ++ "." ++ extension := by
  -- the equation of the definition is checked by computing with texts, which takes long
  delta withExtension
  rw [hbare]
  simp only [fileName?_of_slash_not_mem hslash]
  by_cases hdots : bare = "." ∨ bare = ".."
  · simp only [hne, hdots, or_true, if_true]
  · simp only [hne, hdots, or_self, if_false]

/-- A name without an extension gets one, unless it is a dot. -/
theorem withExtension_of_not_hasExtension {name extension : String} (h : ¬ HasExtension name)
    (hslash : '/' ∉ name.toList) (hne : name ≠ "") :
    withExtension name extension = if name = "." then "." else name ++ "." ++ extension := by
  have hself := stem_of_not_hasExtension h
  have hdots : name ≠ ".." := by
    rintro rfl
    exact h (by decide +kernel)
  rw [withExtension_eq_of_upToDot (if_pos hself) hslash hne, hself]
  by_cases hdot : name = "."
  · rw [if_pos (.inl hdot), if_pos hdot, hdot]
  · simp only [hdot, hdots, or_self, if_false]

/-- A name with an extension gets another one. If only a dot stands in front of its last dot, those
two are left. -/
theorem HasExtension.withExtension_eq {name extension : String} (h : HasExtension name)
    (hslash : '/' ∉ name.toList) :
    withExtension name extension =
      if stem name = "." then ".." else stem name ++ "." ++ extension := by
  obtain ⟨old, _, hparts, hstem⟩ := h.exists_eq
  have hbare : upToDot name = stem name ++ "." := if_neg fun hsame => stem_eq_self_iff.mp hsame h
  have hslash' : '/' ∉ (stem name ++ ".").toList := by
    rw [hparts, String.toList_append] at hslash
    exact fun hmem => hslash (List.mem_append_left _ hmem)
  have hone : stem name ++ "." ≠ "." := by
    simpa using hstem
  have htwo : stem name ++ "." = ".." ↔ stem name = "." := by
    have hdots : ".." = "." ++ "." := by decide +kernel
    rw [hdots, String.append_left_inj]
  have hagain : stem (stem name ++ ".") = stem name := by
    have hcut : stem (stem name ++ "." ++ "") = stem name := stem_append hstem List.not_mem_nil
    rwa [String.append_empty] at hcut
  rw [withExtension_eq_of_upToDot hbare hslash' (by simp), hagain]
  by_cases hfront : stem name = "."
  · rw [if_pos (.inr (htwo.mpr hfront)), if_pos hfront, htwo.mpr hfront]
  · simp only [hone, htwo, hfront, or_self, if_false]

/-- The file that is written for an input with this stem. -/
def fileOfStem (base : String) : String :=
  if base = "." then "." else if stem base = "." then ".." else stem base ++ ".ll"

/-- An input is written to the file that goes with its stem. -/
theorem outputPath_eq_fileOfStem {input name : String} (h : fileName? input = some name) :
    outputPath input none = fileOfStem (stem name) := by
  have hname := isFileName_of_fileName? h
  have hslash : '/' ∉ (stem name).toList := mt mem_of_mem_stem hname.slash_not_mem
  have hne := stem_ne_empty hname.ne_empty
  have hending : ".ll" = "." ++ "ll" := by decide +kernel
  have hstem : outputPath input none = withExtension (stem name) "ll" := by
    simp only [outputPath, h, Option.map_some, Option.getD_some, Option.getD_none]
  rw [hstem, fileOfStem, hending, ← String.append_assoc]
  by_cases hextension : HasExtension (stem name)
  · have hdot : stem name ≠ "." := by
      intro hdot
      rw [hdot] at hextension
      exact absurd hextension (by decide +kernel)
    rw [hextension.withExtension_eq hslash, if_neg hdot]
  · rw [withExtension_of_not_hasExtension hextension hslash hne,
      stem_of_not_hasExtension hextension]
    split
    · rfl
    · rfl

/-- A name with an ending is longer than one or two dots. -/
theorem append_ending_ne (front : String) : front ++ ".ll" ≠ "." ∧ front ++ ".ll" ≠ ".." := by
  have hlength : (front ++ ".ll").length = front.length + 3 := String.length_append _ _
  have hone : ".".length = 1 := rfl
  have htwo : "..".length = 2 := rfl
  constructor
  · intro h
    rw [h] at hlength
    omega
  · intro h
    rw [h] at hlength
    omega

/-- The stem of one dot is that dot. -/
theorem stem_dot : stem "." = "." := by
  decide +kernel

/-- The current directory goes with the stem that is one dot, and with no other. -/
theorem fileOfStem_eq_dot_iff {base : String} : fileOfStem base = "." ↔ base = "." := by
  unfold fileOfStem
  by_cases hdot : base = "."
  · simp only [hdot, if_true]
  · rw [if_neg hdot]
    refine iff_of_false ?_ hdot
    by_cases hstem : stem base = "."
    · rw [if_pos hstem]
      decide
    · rw [if_neg hstem]
      exact (append_ending_ne _).1

/-- Two stems have the same file exactly if they have the same stem in turn, and neither or both of
them are one dot. -/
theorem fileOfStem_eq_iff {base other : String} :
    fileOfStem base = fileOfStem other ↔ (base = "." ↔ other = ".") ∧ stem base = stem other := by
  constructor
  · intro hsame
    have hdots : base = "." ↔ other = "." := by
      rw [← fileOfStem_eq_dot_iff, hsame, fileOfStem_eq_dot_iff]
    refine ⟨hdots, ?_⟩
    by_cases hdot : base = "."
    · rw [hdot, hdots.mp hdot]
    · have hdot' : other ≠ "." := mt hdots.mpr hdot
      unfold fileOfStem at hsame
      rw [if_neg hdot, if_neg hdot'] at hsame
      by_cases hbase : stem base = "."
      · by_cases hother : stem other = "."
        · rw [hbase, hother]
        · rw [if_pos hbase, if_neg hother] at hsame
          exact absurd hsame.symm (append_ending_ne _).2
      · by_cases hother : stem other = "."
        · rw [if_neg hbase, if_pos hother] at hsame
          exact absurd hsame (append_ending_ne _).2
        · rw [if_neg hbase, if_neg hother] at hsame
          exact (String.append_left_inj _).mp hsame
  · rintro ⟨hdots, hstems⟩
    simp only [fileOfStem, hdots, hstems]

/-- A stem without a slash has a file, and not a directory, exactly if its own stem is not a dot. -/
theorem isFileName_fileOfStem_iff {base : String} (hslash : '/' ∉ base.toList) :
    IsFileName (fileOfStem base) ↔ stem base ≠ "." := by
  constructor
  · intro h hstem
    by_cases hdot : base = "."
    · exact h.ne_dot (fileOfStem_eq_dot_iff.mpr hdot)
    · refine h.ne_dots ?_
      rw [fileOfStem, if_neg hdot, if_pos hstem]
  · intro hstem
    have hdot : base ≠ "." := by
      rintro rfl
      exact hstem stem_dot
    have hfile : fileOfStem base = stem base ++ ".ll" := by
      rw [fileOfStem, if_neg hdot, if_neg hstem]
    obtain ⟨hone, htwo⟩ := append_ending_ne (stem base)
    have hslash' : '/' ∉ (stem base ++ ".ll").toList := by
      rw [String.toList_append, List.mem_append, not_or]
      exact ⟨mt mem_of_mem_stem hslash, by decide⟩
    rw [hfile]
    exact ⟨hslash', by simp, hone, htwo⟩

/-- A stem has the file that is called like it exactly if it has no extension and is not a dot. -/
theorem fileOfStem_eq_append_iff {base : String} :
    fileOfStem base = base ++ ".ll" ↔ ¬ HasExtension base ∧ base ≠ "." := by
  by_cases hdot : base = "."
  · rw [fileOfStem_eq_dot_iff.mpr hdot]
    exact iff_of_false (append_ending_ne base).1.symm fun h => h.2 hdot
  · by_cases hstem : stem base = "."
    · have hself : stem base ≠ base := fun hsame => hdot (hsame ▸ hstem)
      rw [fileOfStem, if_neg hdot, if_pos hstem, ← stem_eq_self_iff]
      exact iff_of_false (append_ending_ne base).2.symm fun h => hself h.1
    · rw [fileOfStem, if_neg hdot, if_neg hstem, String.append_left_inj, stem_eq_self_iff]
      exact (and_iff_left hdot).symm

/-- An input is written to the file that is called like its stem, with `.ll` behind it, exactly if
the stem has no extension of its own and is not a dot. What it is written to is one name of a file
unless nothing but dots is left of the stem. Two inputs are written to the same file exactly if
their stems agree up to such extensions, so those whose stems have none only if these agree. -/
theorem output_named_after_stem_iff {input other name otherName : String}
    (hname : fileName? input = some name) (hother : fileName? other = some otherName) :
    let output := outputPath input none
    (output = stem name ++ ".ll" ↔ ¬ HasExtension (stem name) ∧ stem name ≠ ".") ∧
      (IsFileName output ↔ stem (stem name) ≠ ".") ∧
      (output = outputPath other none ↔
        (stem name = "." ↔ stem otherName = ".") ∧ stem (stem name) = stem (stem otherName)) ∧
      (¬ HasExtension (stem name) → ¬ HasExtension (stem otherName) →
        (output = outputPath other none ↔ stem name = stem otherName)) := by
  intro output
  have houtput : output = fileOfStem (stem name) := outputPath_eq_fileOfStem hname
  have hslash : '/' ∉ (stem name).toList :=
    mt mem_of_mem_stem (isFileName_of_fileName? hname).slash_not_mem
  rw [houtput, outputPath_eq_fileOfStem hother]
  refine ⟨fileOfStem_eq_append_iff, isFileName_fileOfStem_iff hslash, fileOfStem_eq_iff, ?_⟩
  intro hplain hplain'
  rw [fileOfStem_eq_iff, stem_of_not_hasExtension hplain, stem_of_not_hasExtension hplain']
  exact and_iff_right_of_imp fun hsame => by rw [hsame]

/-- A hidden file keeps the dot in front, and has another file than one that is not hidden. -/
theorem output_named_after_stem_hidden :
    outputPath "src/.prog.scm" none = ".prog.ll" ∧
      outputPath "src/.prog.scm" none ≠ outputPath "prog.scm/" none := by
  have hname : fileName? "src/.prog.scm" = some ".prog.scm" := by decide +kernel
  have hother : fileName? "prog.scm/" = some "prog.scm" := by decide +kernel
  obtain ⟨hkept, _, _, hplain⟩ := output_named_after_stem_iff hname hother
  have hsame := hplain (by decide +kernel) (by decide +kernel)
  refine ⟨(hkept.mpr (by decide +kernel)).trans (by decide +kernel), fun h => ?_⟩
  exact absurd (hsame.mp h) (by decide +kernel)

/-- The programs `a.b.c` and `a.d.c` have different stems, but both are written to `a.ll`. -/
theorem exists_output_overwritten :
    ∃ input other name otherName : String, fileName? input = some name ∧
      fileName? other = some otherName ∧ stem name ≠ stem otherName ∧
      outputPath input none ≠ stem name ++ ".ll" ∧
      outputPath input none = outputPath other none :=
  ⟨"a.b.c", "a.d.c", "a.b.c", "a.d.c", by decide +kernel⟩

end LambdaArith.CommandLine
