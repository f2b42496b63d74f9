import Mathlib.Data.List.Chain
import Orus.Editor.Reindent
import Orus.Proofs.Lines

/-! # Reindenting twice changes nothing

A line is placed by what is left of it and of the lines before it when the blanks at their ends
are gone, and reindenting leaves that as it is. So the lines of a reindented text are placed
where they already stand, and the depth moves by at most one from a line to the next.
-/

namespace Orus.Editor

open Text

def leadingSpaces (line : List Char) : Nat :=
  (line.takeWhile (· == ' ')).length

/-! ## One line -/

theorem depthOf_bounds (depth : Nat) (line : List Char) :
    depthOf depth line ≤ depth ∧ depth ≤ depthOf depth line + 1 := by
  unfold depthOf
  split <;> omega

theorem depthAfter_bounds (depth : Nat) (line : List Char) :
    depth ≤ depthAfter depth line ∧ depthAfter depth line ≤ depth + 1 := by
  unfold depthAfter
  split <;> omega

/-- A line without a first or last character opens and closes nothing. -/
theorem depthAfter_depthOf_nil (depth : Nat) : depthAfter (depthOf depth []) [] = depth := rfl

theorem trim_indented (own : Nat) (raw : List Char) :
    trim (if (trim raw).isEmpty then [] else indentation own ++ trim raw) = trim raw := by
  split
  next hempty => rw [List.isEmpty_iff.1 hempty]; rfl
  · have htrim := (isTrimmed_trim raw).trim_eq (areBlank_replicate (4 * own)) areBlank_nil
    rwa [List.append_nil] at htrim

theorem leadingSpaces_indentation (own : Nat) {line : List Char} (h : IsTrimmed line) :
    leadingSpaces (indentation own ++ line) = 4 * own := by
  have hspaces : ∀ c ∈ indentation own, (c == ' ') = true := fun c hc => by
    rw [List.eq_of_mem_replicate hc]
    rfl
  have hline : line.takeWhile (· == ' ') = [] := by
    cases line with
    | nil => rfl
    | cons c line =>
      have hc : c ≠ ' ' := by
        rintro rfl
        exact absurd (h.head ' ' rfl) (by decide)
      simp [hc]
  rw [leadingSpaces, List.takeWhile_append_of_pos hspaces, hline, List.append_nil, indentation,
    List.length_replicate]

/-! ## All lines -/

theorem reindentLines_cons (depth : Nat) (raw : List Char) (rest : List (List Char)) :
    reindentLines depth (raw :: rest) =
      (if (trim raw).isEmpty then [] else indentation (depthOf depth (trim raw)) ++ trim raw) ::
        reindentLines (depthAfter (depthOf depth (trim raw)) (trim raw)) rest := rfl

theorem map_trim_reindentLines (depth : Nat) (lines : List (List Char)) :
    (reindentLines depth lines).map trim = lines.map trim := by
  induction lines generalizing depth with
  | nil => rfl
  | cons raw rest ih => rw [reindentLines_cons, List.map_cons, trim_indented, ih, List.map_cons]

/-- Only what trimming leaves of the lines matters. -/
theorem reindentLines_congr {lines lines' : List (List Char)}
    (h : lines.map trim = lines'.map trim) (depth : Nat) :
    reindentLines depth lines = reindentLines depth lines' := by
  induction lines generalizing lines' depth with
  | nil => rw [List.map_eq_nil_iff.1 (List.map_nil.symm.trans h).symm]
  | cons raw rest ih =>
    cases lines' with
    | nil => cases h
    | cons raw' rest' =>
      obtain ⟨hraw, hrest⟩ := List.cons.inj h
      rw [reindentLines_cons, reindentLines_cons, hraw, ih hrest]

theorem not_mem_of_mem_reindentLines {depth : Nat} {lines : List (List Char)}
    (h : ∀ line ∈ lines, '\n' ∉ line) : ∀ line ∈ reindentLines depth lines, '\n' ∉ line := by
  induction lines generalizing depth with
  | nil => exact List.forall_mem_nil _
  | cons raw rest ih =>
    obtain ⟨hraw, hrest⟩ := List.forall_mem_cons.1 h
    rw [reindentLines_cons]
    refine List.forall_mem_cons.2 ⟨?_, ih hrest⟩
    obtain ⟨before, after, hsplit, -⟩ := exists_trim raw
    split
    · exact List.not_mem_nil
    · intro hmem
      rcases List.mem_append.1 hmem with hspace | hline
      · exact absurd (List.eq_of_mem_replicate hspace) (by decide)
      · rw [hsplit] at hraw
        exact hraw (List.mem_append_right _ (List.mem_append_left _ hline))

theorem lines_reindent (source : String) :
    splitAt '\n' (reindent source).toList = reindentLines 0 (splitAt '\n' source.toList) := by
  rw [reindent, String.toList_ofList]
  apply splitAt_intercalate
  · obtain ⟨first, rest, hlines⟩ := List.exists_cons_of_ne_nil (splitAt_ne_nil '\n' source.toList)
    rw [hlines, reindentLines_cons]
    exact List.cons_ne_nil _ _
  · exact not_mem_of_mem_reindentLines fun line => not_mem_of_mem_splitAt

theorem indented_of_mem {depth : Nat} {lines : List (List Char)} :
    ∀ line ∈ reindentLines depth lines, line ≠ [] →
      ∃ own, line = indentation own ++ trim line := by
  induction lines generalizing depth with
  | nil => exact List.forall_mem_nil _
  | cons raw rest ih =>
    rw [reindentLines_cons]
    refine List.forall_mem_cons.2 ⟨fun hne => ⟨depthOf depth (trim raw), ?_⟩, ih⟩
    rw [trim_indented]
    split
    next hempty => exact absurd (if_pos hempty) hne
    · rfl

/-- The lines that are not empty stand at most one level apart. The next of them is compared
with the last one before it, whose level is the depth then or one less. -/
theorem isChain_leadingSpaces {last depth : Nat} (h : last ≤ depth ∧ depth ≤ last + 1)
    (lines : List (List Char)) :
    (4 * last :: ((reindentLines depth lines).filter (· ≠ [])).map leadingSpaces).IsChain
      fun a b => a ≤ b + 4 ∧ b ≤ a + 4 := by
  induction lines generalizing last depth with
  | nil => exact .singleton _
  | cons raw rest ih =>
    rw [reindentLines_cons]
    by_cases hempty : trim raw = []
    · simpa [hempty, depthAfter_depthOf_nil] using ih h
    · have hown := depthOf_bounds depth (trim raw)
      have hafter := depthAfter_bounds (depthOf depth (trim raw)) (trim raw)
      have hspaces := leadingSpaces_indentation (depthOf depth (trim raw)) (isTrimmed_trim raw)
      have hrest := ih hafter
      simp only [List.isEmpty_iff, hempty, if_false, ne_eq, List.append_eq_nil_iff, and_false,
        not_false_eq_true, decide_true, List.filter_cons_of_pos, List.map_cons, hspaces]
      exact .cons_cons (by omega) hrest

/-- Reindenting a second time changes nothing. A reindented text has the lines of the text up to
the blanks at their ends, each line that is not empty starts with a multiple of four spaces and
no other blank, and from one such line to the next that changes by four at most. -/
theorem reindent_reindent (source : String) :
    reindent (reindent source) = reindent source ∧
    (splitAt '\n' (reindent source).toList).length = (splitAt '\n' source.toList).length ∧
    (splitAt '\n' (reindent source).toList).map trim = (splitAt '\n' source.toList).map trim ∧
    (∀ line ∈ splitAt '\n' (reindent source).toList, line ≠ [] →
      4 ∣ leadingSpaces line ∧ line.drop (leadingSpaces line) = trim line) ∧
    (((splitAt '\n' (reindent source).toList).filter (· ≠ [])).map leadingSpaces).IsChain
      fun a b => a ≤ b + 4 ∧ b ≤ a + 4 := by
  rw [lines_reindent]
  have htrim := map_trim_reindentLines 0 (splitAt '\n' source.toList)
  refine ⟨?_, ?_, htrim, fun line hline hne => ?_, ?_⟩
  · rw [reindent, lines_reindent, reindentLines_congr htrim, reindent]
  · simpa using congrArg List.length htrim
  · obtain ⟨own, hown⟩ := indented_of_mem line hline hne
    have hspaces : leadingSpaces line = 4 * own := by
      rw [hown, leadingSpaces_indentation own (isTrimmed_trim line)]
    refine ⟨⟨own, hspaces⟩, ?_⟩
    rw [hspaces]
    conv_lhs => rw [hown]
    exact List.drop_left' List.length_replicate
  · have hstart : 0 ≤ 0 ∧ 0 ≤ 0 + 1 := by decide
    exact (isChain_leadingSpaces hstart _).tail

end Orus.Editor
