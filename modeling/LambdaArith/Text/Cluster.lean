import LambdaArith.Text.BreakClass

/-!
# Clusters

A text falls into clusters, each of which a reader takes for one character. Whether there is
a break between two characters depends on their classes, and in three cases on what is before
them: pictures are joined, consonants are linked, and regional indicators come in pairs.
-/

namespace LambdaArith

/-- What the characters before a place have begun that the next one may complete. -/
inductive Reach where
  | nothing
  | halfFlag
  | pictograph
  | joinedPictograph
  | consonant
  | linkedConsonant
deriving DecidableEq, Repr

namespace Reach

/-- What has been begun behind one more character. -/
def next (reach : Reach) (c : BreakClass) : Reach :=
  match c, reach with
  | .regional, halfFlag => nothing
  | .regional, _ => halfFlag
  | .pictograph, _ => pictograph
  | .consonant, _ => consonant
  | .joiner, pictograph => joinedPictograph
  | .mark, pictograph => pictograph
  | .linker, pictograph => pictograph
  | .nonJoiner, pictograph => pictograph
  | .joiner, consonant => consonant
  | .mark, consonant => consonant
  | .linker, consonant => linkedConsonant
  | .joiner, linkedConsonant => linkedConsonant
  | .mark, linkedConsonant => linkedConsonant
  | .linker, linkedConsonant => linkedConsonant
  | _, _ => nothing

/-- Whether a character of this class completes what has been begun. -/
def completes (reach : Reach) (c : BreakClass) : Bool :=
  match c, reach with
  | .regional, halfFlag => true
  | .pictograph, joinedPictograph => true
  | .consonant, linkedConsonant => true
  | _, _ => false

end Reach

/-- Whether there is no break between two characters of these classes. -/
def belongsTo (before : BreakClass) (reach : Reach) (after : BreakClass) : Bool :=
  if before.standsAlone || after.standsAlone then
    before = .carriageReturn && after = .lineFeed
  else
    before = .prepended || after.clings || before.blocks after || reach.completes after

/-- The rest of the cluster that reaches over a place, and the clusters behind it. -/
def clustersFrom (before : BreakClass) (reach : Reach) :
    List Char → List Char × List (List Char)
  | [] => ([], [])
  | c :: rest =>
    let after := BreakClass.ofChar c
    let (cluster, others) := clustersFrom after (reach.next after) rest
    if belongsTo before reach after then (c :: cluster, others)
    else ([], (c :: cluster) :: others)

/-- Cutting loses nothing. -/
theorem append_flatten_clustersFrom (before : BreakClass) (reach : Reach) (text : List Char) :
    (clustersFrom before reach text).1 ++ (clustersFrom before reach text).2.flatten = text := by
  induction text generalizing before reach with
  | nil => rfl
  | cons c rest ih =>
    have hrest := ih (BreakClass.ofChar c) (reach.next (BreakClass.ofChar c))
    by_cases h : belongsTo before reach (BreakClass.ofChar c) = true
    · simp only [clustersFrom, if_pos h, List.cons_append, hrest]
    · simp only [clustersFrom, if_neg h, List.nil_append, List.flatten_cons, List.cons_append,
        hrest]

/-- The clusters of a text. No cluster reaches over its start, as none reaches over a control
character. -/
def clusters (text : List Char) : List (List Char) :=
  (clustersFrom .control .nothing text).2

/-- The clusters of a text make up the text. -/
theorem flatten_clusters (text : List Char) : (clusters text).flatten = text := by
  have hfirst : (clustersFrom .control .nothing text).1 = [] := by
    cases text with
    | nil => rfl
    | cons c rest => rfl
  have hall := append_flatten_clustersFrom .control .nothing text
  rwa [hfirst, List.nil_append] at hall

end LambdaArith
